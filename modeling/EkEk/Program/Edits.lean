import EkEk.Lib.Checked
import EkEk.Tls.Failure
import EkEk.Tls.Record

/-!
# What the node program writes

Reference: `crates/ek-ek/src/cluster.rs` (`apply_once`, `one_at_a_time`) and
`crates/ek-ek/src/acme.rs` (`account_key`, `open_order`, `file_reached`, `close_order` and the last
write of `obtain_order`).

The node program writes the replicated state from two places: the loop that applies a configuration
file and the task that drives a certificate order. Each of their writes is an edit of the state that
was read, which may be missing.
-/

namespace EkEk.Program

open Store Tls

/-- The state an edit starts from, refusing to edit one that is not there. -/
def editing (state : Option Snapshot) (detail : String) : Except Failure Snapshot :=
  Checked.found state ⟨.configuration, detail⟩

/-- A state with a document in place of its configuration, and with what was obtained carried into
the document. -/
def replaced (state : Snapshot) (document : Config) : Snapshot :=
  { state with config := carryObtained document state.config }

/-- The edit `apply_once` makes. -/
def applied (state : Option Snapshot) (document : Config) : Snapshot :=
  replaced (state.getD (.new document)) document

/-- The edit that keeps a fresh account key. The order driver took its configuration when it began,
and writes that one back. -/
def accountKeyed (state : Option Snapshot) (captured : Config) (pem : Secret) : Snapshot :=
  (replaced (state.getD (.new captured)) captured).withSecret accountKeySecret pem

/-- The record an order starts with. -/
def openingRecord (id : CertificateId) (names : List String) (challenge : OrderChallenge)
    (driver : Option NodeId) (now : ℤ) : OrderRecord where
  names := names
  challenge := challenge
  orderUrl := none
  key := orderKeyId id
  answers := ∅
  drivenBy := driver
  startedAtUnix := now

/-- A state with a running order and its signing key. -/
def orderOpened (state : Snapshot) (id : CertificateId) (record : OrderRecord) (key : Secret) :
    Snapshot :=
  { state with
    secrets := state.secrets.insert (orderKeyId id) key
    orders := state.orders.insert id record }

/-- The edit that opens an order. -/
def openOrder (state : Option Snapshot) (id : CertificateId) (names : List String)
    (challenge : OrderChallenge) (driver : Option NodeId) (now : ℤ) (key : Secret) :
    Except Failure Snapshot := do
  let state ← editing state "the state went away before the order could be opened"
  .ok (orderOpened state id (openingRecord id names challenge driver now) key)

/-- What an order has reached: the URL it was named with, and what every node has to answer. -/
structure Reached where
  orderUrl : Option String
  answers : Finmap fun _ : String => String
deriving DecidableEq

/-- A record with what its order has reached. -/
def reachedRecord (record : OrderRecord) (reached : Reached) (driver : Option NodeId) :
    OrderRecord :=
  { record with orderUrl := reached.orderUrl, answers := reached.answers, drivenBy := driver }

/-- The edit that files what an order has reached. -/
def fileReached (state : Option Snapshot) (id : CertificateId) (reached : Reached)
    (driver : Option NodeId) : Except Failure Snapshot := do
  let state ← editing state "the state went away while the order was running"
  let record ← Checked.found (state.orders.lookup id)
    (⟨.configuration, s!"the order record of {id.asStr} went away while the order was running"⟩ :
      Failure)
  .ok { state with orders := state.orders.insert id (reachedRecord record reached driver) }

/-- A state without an order and its signing key. -/
def orderClosed (state : Snapshot) (id : CertificateId) : Snapshot :=
  { state with
    secrets := state.secrets.erase (orderKeyId id)
    orders := state.orders.erase id }

/-- The edit that closes an order. -/
def closeOrder (state : Option Snapshot) (id : CertificateId) : Except Failure Snapshot := do
  let state ← editing state "the state went away while the order was being closed"
  .ok (orderClosed state id)

/-- The last write of an order: the certificate goes in and the order goes out. -/
def obtainedOrder (state : Option Snapshot) (captured : Config) (id : CertificateId)
    (source : CertificateSource) (upload : Upload) : Snapshot :=
  orderClosed (install (state.getD (.new captured)) id source upload) id

end EkEk.Program
