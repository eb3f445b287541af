import EkEk.Addresses
import EkEk.Lib.Acting
import EkEk.Tls.Tsig

/-!
# Signed updates

Reference: `crates/ek-ek-tls/src/dns/rfc2136.rs`, `sign` and `append` of `dns/tsig.rs`, and `exchange` of
`dns/resolver.rs`.

An update is signed by a record at its end, and the answer's own signature is made over the MAC of the
update. `update_read` is what a name server reads of an update, `publish_confirmed` what an answer that is
believed says, and `answer_unique` that no answer is believed for two updates.
-/

namespace EkEk.Tls

open Checked Wire

namespace Tsig

/-- A signed message, and the signature that went into it. -/
structure Signed where
  message : List UInt8
  mac : List UInt8
deriving DecidableEq, Repr

/-- The data of a signature record of a request. -/
def requestData (algorithm : TsigAlgorithm) (signedAt : ℕ) (mac : List UInt8) (id : UInt16) :
    Except Failure (List UInt8) := do
  let data ← writeName (algorithmName algorithm) .asGiven []
  ensure (mac.length < 2 ^ 16) (⟨.crypto, "the signature is not a signature"⟩ : Failure)
  -- no error and no trailing data: this is a request being signed
  .ok (data ++ ByteOrder.bigEndian 6 signedAt ++ u16 fudge ++ u16 (UInt16.ofNat mac.length) ++ mac ++
    u16 id ++
    u16 0 ++ u16 0)

/-- Append the signature record and count it. -/
def append (message : List UInt8) (keyName : String) (algorithm : TsigAlgorithm) (signedAt : ℕ)
    (mac : List UInt8) (id : UInt16) : Except Halt (List UInt8) := do
  let data ← (requestData algorithm signedAt mac id).mapError .failure
  let named ← (writeName keyName .asGiven message).mapError .failure
  ensure (data.length < 2 ^ 16) (.failure ⟨.crypto, "the signature record does not fit"⟩)
  let message := named ++ Record.body typeTsig classAny 0 data
  let additional ← Header.word message 10
  ensure (additional ≠ 0xFFFF) (.failure ⟨.crypto, "the message already carries as many records as it can"⟩)
  .ok (counting message (additional + 1))

/-- Sign a message and append the signature record. -/
def sign (hmac : TsigAlgorithm → List UInt8 → List UInt8 → List UInt8) (message : List UInt8)
    (keyName : String)
    (algorithm : TsigAlgorithm) (secret : List UInt8) (signedAt : ℕ) : Except Halt Signed := do
  let covered ← (variablesOf keyName algorithm signedAt 0 []).mapError .failure
  let mac := hmac algorithm secret (message ++ covered)
  let head ← Header.read message
  let out ← append message keyName algorithm signedAt mac head.id
  .ok ⟨out, mac⟩

end Tsig

/-- The response code the flags carry. -/
def Wire.Header.rcode (header : Wire.Header) : UInt16 := header.flags &&& 0x000F

namespace Rfc2136

open Tsig (Signature Carries Passes)

/-- How long a resolver may hold a challenge record. -/
def recordTtl : UInt32 := 60

/-- Where a name server listens. -/
structure Server where
  ip : IpAddr
  port : UInt16
deriving DecidableEq, Repr

/-- How the address of a server is printed. -/
def Server.address (server : Server) : String :=
  match server.ip with
  | .v4 address => s!"{address.display}:{server.port}"
  | .v6 address => s!"[{(IpAddr.v6 address).display}]:{server.port}"

/-- Everything one update needs to reach its name server. -/
structure Connection where
  server : Server
  zone : String
  keyName : String
  algorithm : TsigAlgorithm
  secret : List UInt8

/-- What an update needs of the outside: a random number, the clock, and a connection to a server, which is
given some bytes and answers with some before it ends. -/
structure Outside (W : Type) where
  draw : W → Except String UInt16 × W
  clock : W → Except String ℕ × W
  send : Server → List UInt8 → W → Except String (List UInt8) × W

section

variable {W : Type} (outside : Outside W) (hmac : TsigAlgorithm → List UInt8 → List UInt8 → List UInt8)
  (connection : Connection)

/-- Reach outside, with what is said where it fails. -/
def reach {α : Type} (act : W → Except String α × W) (failure : String → Failure) : Acting Halt W α :=
  ⟨fun w => ((act w).1.mapError fun error => .failure (failure error), (act w).2)⟩

/-- A fresh message identity. -/
def messageId : Acting Halt W UInt16 :=
  reach outside.draw fun error => ⟨.crypto, s!"a message identity could not be drawn: {error}"⟩

def secondsNow : Acting Halt W ℕ :=
  reach outside.clock fun error => ⟨.crypto, s!"this machine's clock is before the epoch: {error}"⟩

def unreachable (server : Server) (error : String) : Failure :=
  ⟨.network, s!"the name server at {server.address} did not answer: {error}"⟩

/-- The answer in front of what a server sent, behind its length. -/
def framed : List UInt8 → Option (List UInt8)
  | high :: low :: rest =>
    if (fromBeBytes high low).toNat ≤ rest.length then some (rest.take (fromBeBytes high low).toNat) else none
  | _ => none

/-- Send one message and read one answer. -/
def exchange (server : Server) (message : List UInt8) : Acting Halt W (List UInt8) := do
  Acting.lift (ensure (message.length < 2 ^ 16)
    (.failure ⟨.protocol, "the message is longer than the protocol carries"⟩))
  let sent ← reach (outside.send server (u16 (UInt16.ofNat message.length) ++ message)) (unreachable server)
  Acting.lift (found (framed sent) (.failure (unreachable server "failed to fill whole buffer")))

/-- Why a name server refused an update. -/
def refused (rcode : UInt16) : Failure :=
  let (reason, said) : Reason × String :=
    if rcode = 1 then (.protocol, "the update was malformed")
    else if rcode = 2 then (.server, "the name server failed while applying it")
    else if rcode = 3 then (.configuration, "the zone does not exist there")
    else if rcode = 4 then (.configuration, "the name server does not do dynamic updates")
    else if rcode = 5 then
      (.configuration, "the name server refused the update; the key is not allowed to write this zone")
    else if 6 ≤ rcode ∧ rcode ≤ 8 then (.protocol, "the zone did not hold what the update expected")
    else if rcode = 9 then
      (.configuration, "the name server did not accept the key this update was signed with")
    else if rcode = 10 then
      (.configuration, "the name is not inside the zone this provider is configured with")
    else (.protocol, "the name server answered with a code this client does not know")
  ⟨reason, s!"{connection.server.address}: {said} (code {rcode})"⟩

/-- What is made of an answer to a signed update. -/
def judged (id : UInt16) (signed : Tsig.Signed) (now : ℕ) (answer : List UInt8) : Except Halt Unit := do
  let head ← Header.read answer
  ensure (head.id = id) (.failure ⟨.protocol, "the name server answered an update nobody sent"⟩)
  -- checked before the code is read, which may be forged
  Tsig.verify hmac answer connection.keyName connection.algorithm connection.secret signed.mac now
  ensure (head.rcode = 0) (.failure (refused connection head.rcode))

/-- Send one update and read the answer. -/
def apply (changes : List Record) : Acting Halt W Unit := do
  let id ← messageId outside
  let message ← Acting.lift ((update id connection.zone changes).mapError .failure)
  let now ← secondsNow outside
  let signed ← Acting.lift
    (Tsig.sign hmac message connection.keyName connection.algorithm connection.secret now)
  let answer ← exchange outside connection.server signed.message
  Acting.lift (judged hmac connection id signed now answer)

/-- Replace every TXT record at one name with some values. -/
def publish (name : String) (values : List String) : Acting Halt W Unit := do
  let added ← Acting.lift ((values.mapM fun value => Record.addTxt name value recordTtl).mapError .failure)
  apply outside hmac connection (Record.deleteTxtSet name :: added)

/-- Take every TXT record at one name away. -/
def withdraw (name : String) : Acting Halt W Unit :=
  apply outside hmac connection [Record.deleteTxtSet name]

end

/-! ## What is written -/

/-- A name that can be written. -/
def Writable (name : String) : Prop :=
  (∀ label ∈ labelsOf name, label ≠ "" ∧ label.utf8ByteSize ≤ mostLabel) ∧
    (encoded .asGiven name).length ≤ mostName

theorem writeName_asGiven {name : String} {out written : List UInt8} :
    writeName name .asGiven out = .ok written ↔ Writable name ∧ written = out ++ encoded .asGiven name := by
  rw [writeName_eq_ok, Writable, and_assoc]

/-- The bytes of a change. -/
def changed (change : Record) : List UInt8 :=
  encoded .asGiven change.name ++ Record.body change.kind change.recordClass change.ttl change.data

theorem foldlM_write {changes : List Record} {out written : List UInt8} :
    changes.foldlM (fun out change => change.write out) out = .ok written ↔
      (∀ change ∈ changes, Writable change.name ∧ change.data.length < 2 ^ 16) ∧
        written = out ++ changes.flatMap changed := by
  induction changes generalizing out with
  | nil => simp [pure, Except.pure, eq_comm]
  | cons change changes ih =>
    rw [List.foldlM_cons, bind_eq_ok, List.forall_mem_cons, List.flatMap_cons, ← List.append_assoc]
    constructor
    · rintro ⟨middle, hmiddle, hrest⟩
      obtain ⟨named, hnamed, hlength, rfl⟩ := write_eq_ok.mp hmiddle
      obtain ⟨hwritable, rfl⟩ := writeName_asGiven.mp hnamed
      obtain ⟨hothers, rfl⟩ := ih.mp hrest
      exact ⟨⟨⟨hwritable, hlength⟩, hothers⟩, by rw [changed, List.append_assoc out]⟩
    · rintro ⟨⟨⟨hwritable, hlength⟩, hothers⟩, rfl⟩
      refine ⟨_, write_eq_ok.mpr ⟨_, writeName_asGiven.mpr ⟨hwritable, rfl⟩, hlength, rfl⟩, ?_⟩
      rw [ih]
      exact ⟨hothers, by simp only [changed, List.append_assoc]⟩

/-- The header of an update with so many changes and so many records behind them. -/
def updateHeader (id : UInt16) (changes additional : ℕ) : Header :=
  ⟨id, opcodeUpdate <<< 11, #v[1, 0, UInt16.ofNat changes, UInt16.ofNat additional]⟩

/-- What stands behind the header of an update. -/
def updateBody (zone : String) (changes : List Record) : List UInt8 :=
  encoded .asGiven zone ++ (u16 typeSoa ++ u16 classIn) ++ changes.flatMap changed

theorem update_eq_ok {id : UInt16} {zone : String} {changes : List Record} {message : List UInt8} :
    update id zone changes = .ok message ↔ changes.length < 2 ^ 16 ∧ Writable zone ∧
      (∀ change ∈ changes, Writable change.name ∧ change.data.length < 2 ^ 16) ∧
        message = (updateHeader id changes.length 0).write [] ++ updateBody zone changes := by
  simp only [update, bind_eq_ok, ensure_eq_ok, writeName_asGiven, foldlM_write]
  constructor
  · rintro ⟨_, hlength, _, ⟨hzone, rfl⟩, hchanges, rfl⟩
    exact ⟨hlength, hzone, hchanges, by simp only [updateBody, List.append_assoc]; rfl⟩
  · rintro ⟨hlength, hzone, hchanges, rfl⟩
    exact ⟨(), hlength, _, ⟨hzone, rfl⟩, hchanges, by simp only [updateBody, List.append_assoc]; rfl⟩

/-! ## What is read -/

variable {bytes : List UInt8}

/-- Some changes stand in a message, one behind the other, and end in front of some place. -/
inductive ChangesAt (bytes : List UInt8) : ℕ → List Record → ℕ → Prop where
  | none (position : ℕ) : ChangesAt bytes position [] position
  | more {position next last : ℕ} {change : Record} {changes : List Record}
    (hname : readName bytes position = .ok (Text.trimEndMatches change.name '.', next))
    (hlength : change.data.length < 2 ^ 16)
    (hbody : Record.body change.kind change.recordClass change.ttl change.data <+: bytes.drop next)
    (hrest : ChangesAt bytes (next + 10 + change.data.length) changes last) :
    ChangesAt bytes position (change :: changes) last

/-- A message is an update of a zone by some changes, and nothing else. -/
structure Updates (bytes : List UInt8) (id : UInt16) (zone : String) (changes : List Record) : Prop where
  begins : (updateHeader id changes.length 0).write [] <+: bytes
  sections : ∃ next, readName bytes 12 = .ok (Text.trimEndMatches zone '.', next) ∧
    u16 typeSoa ++ u16 classIn <+: bytes.drop next ∧ ChangesAt bytes (next + 4) changes bytes.length

theorem nameAt_encoded {name : String} (h : Writable name) {position : ℕ}
    (hstands : encoded .asGiven name <+: bytes.drop position) :
    NameAt bytes 0 position ((labelsOf name).map Text.bytes) (position + (encoded .asGiven name).length) :=
  nameAt_labels h.1 hstands

theorem readName_encoded {name : String} (h : Writable name) {position : ℕ}
    (hstands : encoded .asGiven name <+: bytes.drop position) :
    readName bytes position =
      .ok (Text.trimEndMatches name '.', position + (encoded .asGiven name).length) := by
  rw [readName_of_nameAt (nameAt_encoded h hstands) (Nat.zero_le _),
    nameText_labelsOf fun label hlabel => (h.1 label hlabel).1]

/-- What stands behind a part of a message. -/
theorem drop_behind {position : ℕ} {part rest : List UInt8} (h : bytes.drop position = part ++ rest) :
    bytes.drop (position + part.length) = rest := by
  rw [← List.drop_drop, h, List.drop_left]

theorem length_changed (change : Record) :
    (changed change).length = (encoded .asGiven change.name).length + (10 + change.data.length) := by
  rw [changed, List.length_append, length_body]

theorem changesAt_of_drop {changes : List Record}
    (hchanges : ∀ change ∈ changes, Writable change.name ∧ change.data.length < 2 ^ 16) {position : ℕ}
    {rest : List UInt8} (h : bytes.drop position = changes.flatMap changed ++ rest) :
    ChangesAt bytes position changes (position + (changes.flatMap changed).length) := by
  induction changes generalizing position with
  | nil => exact .none position
  | cons change changes ih =>
    obtain ⟨⟨hname, hlength⟩, hothers⟩ := List.forall_mem_cons.mp hchanges
    rw [List.flatMap_cons, List.append_assoc, changed, List.append_assoc] at h
    have hbody := drop_behind h
    have hlater := ih hothers (drop_behind hbody)
    refine .more (readName_encoded hname (h ▸ List.prefix_append _ _)) hlength
      (hbody ▸ List.prefix_append _ _) ?_
    rw [length_body] at hlater
    rw [List.flatMap_cons, List.length_append, length_changed]
    convert hlater using 1 <;> omega

/-- The last record behind some changes. -/
theorem lastAt_of_changes {changes : List Record} {position last : ℕ}
    (h : ChangesAt bytes position changes last)
    (hlast : Tsig.LastAt bytes 1 last last) : Tsig.LastAt bytes (changes.length + 1) position last := by
  induction h with
  | none position => exact hlast
  | @more position next last change changes hname hlength hbody hrest ih =>
    obtain ⟨pointers, labels, hstands, hpointers, -⟩ := nameAt_of_readName hname
    obtain ⟨-, hsize, -, -⟩ := prefix_of_body hbody
    refine .more _ hstands hpointers hsize ?_
    rw [UInt16.toNat_ofNat_of_lt' hlength]
    exact ih hlast

/-! ## What is signed -/

/-- A signature record as a request carries it. -/
def requested (position : ℕ) (keyName : String) (algorithm : TsigAlgorithm) (now : ℕ) (mac : List UInt8)
    (id : UInt16) : Signature where
  position := position
  name := (labelsOf keyName).map Text.bytes
  recordClass := classAny
  ttl := 0
  algorithm := (labelsOf (Tsig.algorithmName algorithm)).map Text.bytes
  signedAt := now % 256 ^ 6
  fudge := Tsig.fudge
  mac := mac
  originalId := id
  error := 0
  other := []

/-- What a name server reads of a request: an update of the zone by some changes, and behind it a record with
which the holder of the key signed it. -/
structure Requests (hmac : TsigAlgorithm → List UInt8 → List UInt8 → List UInt8) (request : List UInt8)
    (connection : Connection) (id : UInt16) (now : ℕ) (changes : List Record) (signature : Signature) :
    Prop where
  carries : Carries request signature [] []
  usual : signature.Usual connection.keyName connection.algorithm
  signedAt : signature.signedAt = now % 256 ^ 6
  plain : signature.originalId = id ∧ signature.error = 0 ∧ signature.other = []
  sealed : ∃ message, Tsig.strip request signature.position = .ok message ∧
    Updates message id connection.zone changes ∧
      signature.mac = hmac connection.algorithm connection.secret (message ++ signature.covered)

theorem counting_header (id flags a b c d n : UInt16) (rest : List UInt8) :
    Tsig.counting ((⟨id, flags, #v[a, b, c, d]⟩ : Header).write [] ++ rest) n =
      (⟨id, flags, #v[a, b, c, n]⟩ : Header).write [] ++ rest := rfl

theorem word_header (id flags a b c d : UInt16) (rest : List UInt8) :
    Header.word ((⟨id, flags, #v[a, b, c, d]⟩ : Header).write [] ++ rest) 10 = .ok d :=
  word_of_begins ⟨rest, rfl⟩

/-- The data of the record, as it is written. -/
def dataOf (signature : Signature) (algorithm : TsigAlgorithm) : List UInt8 :=
  encoded .asGiven (Tsig.algorithmName algorithm) ++ signature.fields

theorem requestData_eq_ok {algorithm : TsigAlgorithm} {now : ℕ} {mac : List UInt8} {id : UInt16}
    {data : List UInt8} (position : ℕ) (keyName : String) :
    Tsig.requestData algorithm now mac id = .ok data ↔ Writable (Tsig.algorithmName algorithm) ∧
      mac.length < 2 ^ 16 ∧ data = dataOf (requested position keyName algorithm now mac id) algorithm := by
  have hfields : (requested position keyName algorithm now mac id).fields = ByteOrder.bigEndian 6 now ++
      u16 Tsig.fudge ++ u16 (UInt16.ofNat mac.length) ++ mac ++ u16 id ++ u16 0 ++ u16 0 := by
    rw [requested, Signature.fields, ByteOrder.bigEndian_mod, List.append_nil]
    rfl
  simp only [Tsig.requestData, bind_eq_ok, ensure_eq_ok, writeName_asGiven, Except.ok.injEq, dataOf, hfields,
    List.append_assoc, List.nil_append]
  constructor
  · rintro ⟨_, ⟨halgorithm, hnamed⟩, _, hmac, hdata⟩
    rw [hnamed] at hdata
    exact ⟨halgorithm, hmac, hdata.symm⟩
  · rintro ⟨halgorithm, hmac, hdata⟩
    exact ⟨_, ⟨halgorithm, rfl⟩, (), hmac, hdata.symm⟩

/-- What is asked of the record of a request before it is appended. -/
structure Appendable (connection : Connection) (signature : Signature) : Prop where
  keyName : Writable connection.keyName
  algorithm : Writable (Tsig.algorithmName connection.algorithm)
  mac : signature.mac.length < 2 ^ 16
  data : (dataOf signature connection.algorithm).length < 2 ^ 16

/-- A request that is signed is the update, with one more record counted and standing behind it. -/
theorem sign_update {hmac : TsigAlgorithm → List UInt8 → List UInt8 → List UInt8} {connection : Connection}
    {id : UInt16} {changes : List Record} {message : List UInt8} {now : ℕ} {signed : Tsig.Signed}
    (hupdate : update id connection.zone changes = .ok message)
    (hsign : Tsig.sign hmac message connection.keyName connection.algorithm connection.secret now =
      .ok signed) :
    ∃ signature,
      signature = requested message.length connection.keyName connection.algorithm now signed.mac id ∧
      Appendable connection signature ∧
      (∃ covered, Tsig.variablesOf connection.keyName connection.algorithm now 0 [] = .ok covered ∧
        signed.mac = hmac connection.algorithm connection.secret (message ++ covered)) ∧
      signed.message = (updateHeader id changes.length 1).write [] ++ (updateBody connection.zone changes ++
        (encoded .asGiven connection.keyName ++
          Record.body typeTsig classAny 0 (dataOf signature connection.algorithm))) := by
  obtain ⟨-, -, -, rfl⟩ := update_eq_ok.mp hupdate
  simp only [Tsig.sign, Tsig.append, bind_eq_ok, mapError_eq_ok, ensure_eq_ok, writeName_asGiven,
    Except.ok.injEq] at hsign
  obtain ⟨covered, hcovered, head, hhead, out,
    ⟨data, hdata, _, ⟨hkey, rfl⟩, _, hlength, additional, hword, _, -,
    rfl⟩, rfl⟩ := hsign
  obtain rfl : updateHeader id changes.length 0 = head :=
    Except.ok.inj ((read_of_begins (List.prefix_append _ _)).symm.trans hhead)
  obtain ⟨halgorithm, hmac', hsame⟩ := (requestData_eq_ok
    ((updateHeader id changes.length 0).write [] ++ updateBody connection.zone changes).length
      connection.keyName).mp
    hdata
  rw [hsame] at hlength hword ⊢
  refine ⟨_, rfl, ⟨hkey, halgorithm, hmac', hlength⟩, ⟨covered, hcovered, rfl⟩, ?_⟩
  simp only [List.append_assoc] at hword ⊢
  rw [updateHeader, word_header] at hword
  obtain rfl := Except.ok.inj hword
  exact counting_header ..

section

variable {id : UInt16} {zone : String} {changes : List Record} {rest : List UInt8}

theorem drop_header {additional : ℕ} :
    ((updateHeader id changes.length additional).write [] ++ rest).drop 12 = rest :=
  List.drop_left' (length_write _)

/-- The sections of an update, whatever stands behind them. -/
theorem sections_of_drop (hzone : Writable zone)
    (hchanges : ∀ change ∈ changes, Writable change.name ∧ change.data.length < 2 ^ 16)
    (h : bytes.drop 12 = updateBody zone changes ++ rest) :
    NameAt bytes 0 12 ((labelsOf zone).map Text.bytes) (12 + (encoded .asGiven zone).length) ∧
      readName bytes 12 = .ok (Text.trimEndMatches zone '.', 12 + (encoded .asGiven zone).length) ∧
      u16 typeSoa ++ u16 classIn <+: bytes.drop (12 + (encoded .asGiven zone).length) ∧
      ChangesAt bytes (12 + (encoded .asGiven zone).length + 4) changes
      (12 + (updateBody zone changes).length) := by
  have hstands : encoded .asGiven zone <+: bytes.drop 12 := by
    rw [h, updateBody, List.append_assoc, List.append_assoc, List.append_assoc]
    exact List.prefix_append _ _
  have hbehind : bytes.drop (12 + (encoded .asGiven zone).length) =
      (u16 typeSoa ++ u16 classIn) ++ (changes.flatMap changed ++ rest) :=
    drop_behind (h.trans (by simp only [updateBody, List.append_assoc]))
  refine ⟨nameAt_encoded hzone hstands, readName_encoded hzone hstands, hbehind ▸ List.prefix_append _ _, ?_⟩
  have hrest := changesAt_of_drop hchanges (drop_behind hbehind)
  have hfour : (u16 typeSoa ++ u16 classIn).length = 4 := rfl
  rw [hfour] at hrest
  rw [updateBody, List.length_append, List.length_append, hfour]
  convert hrest using 1
  omega

end

/-- The record of a request is carried by whatever ends in it, at its place behind so many changes. -/
theorem carries_requested {connection : Connection} {head : Header} {signature : Signature} {position : ℕ}
    (hname : signature.name = (labelsOf connection.keyName).map Text.bytes)
    (halgorithm : signature.algorithm = (labelsOf (Tsig.algorithmName connection.algorithm)).map Text.bytes)
    (hfits : signature.Fits) (happendable : Appendable connection signature)
    (hhead : head.write [] <+: bytes) (hquestions : QuestionsAt bytes head.questions.toNat 12 position)
    {changes : List Record} (hchanges : ChangesAt bytes position changes signature.position)
    (hcount : Tsig.recordCount head = changes.length + 1)
    (hdrop : bytes.drop signature.position = encoded .asGiven connection.keyName ++
      Record.body typeTsig signature.recordClass signature.ttl (dataOf signature connection.algorithm)) :
    Carries bytes signature [] [] := by
  have hstands : NameAt bytes 0 signature.position signature.name
      (signature.position + (encoded .asGiven connection.keyName).length) := by
    rw [hname]
    exact nameAt_encoded happendable.keyName (hdrop ▸ List.prefix_append _ _)
  have hbody := drop_behind hdrop
  have hwhole : Record.body typeTsig signature.recordClass signature.ttl
      (dataOf signature connection.algorithm) <+:
      bytes.drop (signature.position + (encoded .asGiven connection.keyName).length) := by
    rw [hbody]
  obtain ⟨-, hsize, -, -⟩ := prefix_of_body hwhole
  have hinside : NameAt (dataOf signature connection.algorithm) 0 0 signature.algorithm
      (0 + (encoded .asGiven (Tsig.algorithmName connection.algorithm)).length) := by
    rw [halgorithm]
    exact nameAt_encoded happendable.algorithm (List.prefix_append _ _)
  refine ⟨⟨head, position, hhead, hquestions, ?_⟩, 0, _, _, hstands, Nat.zero_le _,
    ⟨hfits, happendable.data, 0, _, hinside, Nat.zero_le _, ?_⟩, ?_⟩
  · rw [hcount]
    exact lastAt_of_changes hchanges (.one _ hstands (Nat.zero_le _) hsize)
  · rw [Nat.zero_add, dataOf, List.drop_left, List.append_nil]
  · rw [hbody, List.append_nil]

/-- Without the record, and with the count it had before, a request is the update. -/
theorem strip_update {id : UInt16} {changes : ℕ} {body rest : List UInt8} {position : ℕ}
    (h : position = ((updateHeader id changes 0).write [] ++ body).length) :
    Tsig.strip ((updateHeader id changes 1).write [] ++ (body ++ rest)) position =
      .ok ((updateHeader id changes 0).write [] ++ body) := by
  have hslice : Records.slice ((updateHeader id changes 1).write [] ++ (body ++ rest)) 0 position =
      some ((updateHeader id changes 1).write [] ++ body) := by
    have hlength : position = 0 + ((updateHeader id changes 1).write [] ++ body).length := by
      rw [h, Nat.zero_add, List.length_append, List.length_append, length_write, length_write]
    rw [hlength, ← List.append_assoc]
    exact slice_of_begins (Nat.zero_le _) (List.prefix_append _ _)
  rw [Tsig.strip, hslice, found_some, ok_bind, updateHeader, word_header, ok_bind]
  exact congrArg Except.ok (counting_header ..)

/-- What a name server reads of a request that is sent: the update that was meant, zone, names and values, and
behind it the signature of the key over it. -/
theorem update_read {hmac : TsigAlgorithm → List UInt8 → List UInt8 → List UInt8} {connection : Connection}
    {id : UInt16} {changes : List Record} {message : List UInt8} {now : ℕ} {signed : Tsig.Signed}
    (hupdate : update id connection.zone changes = .ok message)
    (hsign : Tsig.sign hmac message connection.keyName connection.algorithm connection.secret now =
      .ok signed) :
    ∃ signature, Requests hmac signed.message connection id now changes signature ∧
      signature.mac = signed.mac := by
  obtain ⟨signature, hsignature, happendable, ⟨covered, hcovered, hmac'⟩, hbytes⟩ := sign_update hupdate hsign
  obtain ⟨hcount, hzone, hchanges, hmessage⟩ := update_eq_ok.mp hupdate
  have hlength : message.length = 12 + (updateBody connection.zone changes).length := by
    rw [hmessage, List.length_append, length_write]
  have hmac : signature.mac = signed.mac := congrArg Signature.mac hsignature
  have hposition : signature.position = message.length := congrArg Signature.position hsignature
  have hplain : signature.name = (labelsOf connection.keyName).map Text.bytes ∧
      signature.algorithm = (labelsOf (Tsig.algorithmName connection.algorithm)).map Text.bytes ∧
      signature.recordClass = classAny ∧ signature.ttl = 0 ∧ signature.signedAt = now % 256 ^ 6 ∧
      signature.fudge = Tsig.fudge ∧ signature.originalId = id ∧ signature.error = 0 ∧
      signature.other = [] := by
    simp only [hsignature, requested, and_self]
  obtain ⟨hname, halgorithm, hclass, httl, hsignedAt, hfudge, hid, herror, hother⟩ := hplain
  have hfits : signature.Fits :=
    ⟨hsignedAt ▸ Nat.mod_lt _ (by decide), happendable.mac, by rw [hother]; decide⟩
  have husual : signature.Usual connection.keyName connection.algorithm := by
    refine ⟨?_, hclass, httl, ?_, hfudge⟩
    · rw [hname, Tsig.encoded_canonical]
    · rw [halgorithm, Tsig.encoded_canonical]
  -- What is sent is the update with the record counted, and the record.
  have hdrop : signed.message.drop 12 = updateBody connection.zone changes ++
      (encoded .asGiven connection.keyName ++
        Record.body typeTsig classAny 0 (dataOf signature connection.algorithm)) := by
    rw [hbytes]
    exact drop_header
  obtain ⟨hquestion, -, -, hat⟩ := sections_of_drop hzone hchanges hdrop
  have hhead : (updateHeader id changes.length 1).write [] <+: signed.message := by
    rw [hbytes]
    exact List.prefix_append _ _
  have hquestions : QuestionsAt signed.message (updateHeader id changes.length 1).questions.toNat 12
      (12 + (encoded .asGiven connection.zone).length + 4) := .more hquestion (Nat.zero_le _) (.none _)
  have hrecords : Tsig.recordCount (updateHeader id changes.length 1) = changes.length + 1 := by
    show 0 + (UInt16.ofNat changes.length).toNat + 1 = _
    rw [UInt16.toNat_ofNat_of_lt' hcount, Nat.zero_add]
  rw [← hlength, ← hposition] at hat
  have hbehind := drop_behind hdrop
  rw [← hlength, ← hposition, ← hclass, ← httl] at hbehind
  have hcarries : Carries signed.message signature [] [] :=
    carries_requested hname halgorithm hfits happendable hhead hquestions hat hrecords hbehind
  have hbare : message.drop 12 = updateBody connection.zone changes ++ [] := by
    rw [hmessage, List.append_nil]
    exact drop_header
  obtain ⟨-, hread, hsoa, hupdates⟩ := sections_of_drop hzone hchanges hbare
  rw [← hlength] at hupdates
  have hcovers : signature.covered = covered := by
    have hvariables := (Tsig.variablesOf_eq_ok.mp hcovered).2.2
    rw [hvariables, Signature.covered, husual.name, hclass, httl, husual.algorithm, hsignedAt,
      ByteOrder.bigEndian_mod, hfudge,
      herror, hother]
  refine ⟨signature, ⟨hcarries, husual, hsignedAt, ⟨hid, herror, hother⟩, message, ?_,
    ⟨?_, _, hread, hsoa, hupdates⟩, ?_⟩, hmac⟩
  · rw [hbytes, hmessage]
    exact strip_update (hposition.trans (congrArg List.length hmessage))
  · rw [hmessage]
    exact List.prefix_append _ _
  · rw [hmac, hmac', hcovers]

/-! ## What is believed -/

/-- A record that adds a value to the TXT records at a name. -/
def added (name value : String) : Record := ⟨name, typeTxt, classIn, recordTtl, item .asGiven value⟩

theorem mapM_addTxt {name : String} {values : List String} {records : List Record}
    (h : values.mapM (fun value => Record.addTxt name value recordTtl) = .ok records) :
    (∀ value ∈ values, value.utf8ByteSize ≤ mostString) ∧ records = values.map (added name) := by
  induction values generalizing records with
  | nil => exact ⟨List.forall_mem_nil _, (Except.ok.inj h).symm⟩
  | cons value values ih =>
    rw [List.mapM_cons, bind_eq_ok] at h
    obtain ⟨record, hrecord, h⟩ := h
    obtain ⟨others, hothers, h⟩ := bind_eq_ok.mp h
    obtain ⟨data, hdata, rfl⟩ := map_eq_ok.mp hrecord
    obtain ⟨hle, rfl⟩ := txtData_eq_ok.mp hdata
    obtain ⟨hall, rfl⟩ := ih hothers
    exact ⟨List.forall_mem_cons.mpr ⟨hle, hall⟩, (Except.ok.inj h).symm⟩

section

variable {W : Type} {outside : Outside W} {hmac : TsigAlgorithm → List UInt8 → List UInt8 → List UInt8}
  {connection : Connection} {id : UInt16} {changes : List Record} {now : ℕ} {signed : Tsig.Signed}
  {answer : List UInt8} {w w' : W}

/-- An answer that says the update was made, and is signed for the request with this MAC. -/
structure Confirms (hmac : TsigAlgorithm → List UInt8 → List UInt8 → List UInt8) (connection : Connection)
    (id : UInt16) (mac : List UInt8) (now : ℕ) (answer : List UInt8) : Prop where
  head : ∃ head : Header, head.write [] <+: answer ∧ head.id = id ∧ head.rcode = 0
  sealed : ∃ signature spare trailing, Carries answer signature spare trailing ∧
    Passes answer connection.keyName connection.algorithm mac now signature ∧ ∃ stripped covered,
      Tsig.strip answer signature.position = .ok stripped ∧
        Tsig.variablesOf connection.keyName connection.algorithm signature.signedAt signature.error
          signature.other =
          .ok covered ∧
          hmac connection.algorithm connection.secret (Tsig.digested mac stripped covered) = signature.mac

theorem confirms_of_judged (h : judged hmac connection id signed now answer = .ok ()) :
    Confirms hmac connection id signed.mac now answer := by
  simp only [judged, bind_eq_ok, ensure_eq_ok] at h
  obtain ⟨head, hhead, _, hid, _, hverify, hcode⟩ := h
  exact ⟨⟨head, Tsig.read_eq_ok.mp hhead, hid, hcode⟩, Tsig.carries_of_verify hverify⟩

theorem reach_eq_ok {α : Type} {act : W → Except String α × W} {failure : String → Failure} {a : α}
    (h : (reach act failure).run w = (.ok a, w')) : act w = (.ok a, w') := by
  obtain ⟨hresult, hworld⟩ := Prod.mk.inj h
  exact Prod.ext (mapError_eq_ok.mp hresult) hworld

/-- An update that went through was sent as one request, and the answer to it is believed. -/
theorem apply_eq_ok (h : (apply outside hmac connection changes).run w = (.ok (), w')) :
    ∃ id now message signed sent answer w₁ w₂, outside.draw w = (.ok id, w₁) ∧
      outside.clock w₁ = (.ok now, w₂) ∧
      update id connection.zone changes = .ok message ∧
      Tsig.sign hmac message connection.keyName connection.algorithm connection.secret now = .ok signed ∧
      signed.message.length < 2 ^ 16 ∧
      outside.send connection.server
        (u16 (UInt16.ofNat signed.message.length) ++ signed.message) w₂ = (.ok sent, w') ∧
      framed sent = some answer ∧ judged hmac connection id signed now answer = .ok () := by
  obtain ⟨id, w₁, hid, hbehind⟩ := Acting.bind_eq_ok h
  obtain ⟨message, _, hmessage, hwritten⟩ := Acting.bind_eq_ok hbehind
  obtain ⟨hupdate, rfl⟩ := Acting.lift_eq_ok hmessage
  obtain ⟨now, w₂, hnow, htimed⟩ := Acting.bind_eq_ok hwritten
  obtain ⟨signed, _, hsigned, hready⟩ := Acting.bind_eq_ok htimed
  obtain ⟨hsign, rfl⟩ := Acting.lift_eq_ok hsigned
  obtain ⟨answer, w₃, hexchange, hanswered⟩ := Acting.bind_eq_ok hready
  obtain ⟨hjudged, rfl⟩ := Acting.lift_eq_ok hanswered
  obtain ⟨_, _, hshort, hsending⟩ := Acting.bind_eq_ok hexchange
  obtain ⟨hlength, rfl⟩ := Acting.lift_eq_ok hshort
  obtain ⟨sent, _, hsent, hreading⟩ := Acting.bind_eq_ok hsending
  obtain ⟨hframed, rfl⟩ := Acting.lift_eq_ok hreading
  exact ⟨id, now, message, signed, sent, answer, _, _, reach_eq_ok hid, reach_eq_ok hnow,
    mapError_eq_ok.mp hupdate,
    hsign, ensure_eq_ok.mp hlength, reach_eq_ok hsent, found_eq_ok.mp hframed, hjudged⟩

/-- Where records are published, one request was sent, with the identity and the time that were drawn for it.
A name server reads it as: delete what is at the name, add the values in their order, signed with the key. And
the holder of the key has answered this very request that it was done. -/
theorem publish_confirmed {name : String} {values : List String}
    (h : (publish outside hmac connection name values).run w = (.ok (), w')) :
    ∃ id now w₁ w₂ request signature sent answer, outside.draw w = (.ok id, w₁) ∧
      outside.clock w₁ = (.ok now, w₂) ∧
      Requests hmac request connection id now (Record.deleteTxtSet name :: values.map (added name))
      signature ∧
      outside.send connection.server (u16 (UInt16.ofNat request.length) ++ request) w₂ =
        (.ok sent, w') ∧
      request.length < 2 ^ 16 ∧ framed sent = some answer ∧
      Confirms hmac connection id signature.mac now answer := by
  obtain ⟨records, _, hrecords, happly⟩ := Acting.bind_eq_ok h
  obtain ⟨hadded, rfl⟩ := Acting.lift_eq_ok hrecords
  obtain ⟨-, rfl⟩ := mapM_addTxt (mapError_eq_ok.mp hadded)
  obtain ⟨id, now, message, signed, sent, answer, w₁, w₂, hid, hnow, hupdate, hsign, hlength, hsent, hframed,
    hjudged⟩ := apply_eq_ok happly
  obtain ⟨signature, hrequests, hmac'⟩ := update_read hupdate hsign
  refine ⟨id, now, w₁, w₂, _, signature, sent, answer, hid, hnow, hrequests, hsent, hlength, hframed, ?_⟩
  rw [hmac']
  exact confirms_of_judged hjudged

/-- The MACs of these two texts under the key tell them apart. Those of every two texts cannot. -/
def KeepsApart (hmac : TsigAlgorithm → List UInt8 → List UInt8 → List UInt8) (connection : Connection)
    (one other : List UInt8) : Prop :=
  hmac connection.algorithm connection.secret one = hmac connection.algorithm connection.secret other →
    one = other

/-- What the MAC of a message that is signed at this time is made over. -/
def RequestText (connection : Connection) (message : List UInt8) (now : ℕ) (text : List UInt8) : Prop :=
  ∃ covered, Tsig.variablesOf connection.keyName connection.algorithm now 0 [] = .ok covered ∧
    text = message ++ covered

/-- What the MAC of an answer to the request with this MAC is made over. -/
def AnswerText (connection : Connection) (answer mac text : List UInt8) : Prop :=
  ∃ signature spare trailing stripped covered, Carries answer signature spare trailing ∧
    Tsig.strip answer signature.position = .ok stripped ∧
    Tsig.variablesOf connection.keyName connection.algorithm signature.signedAt signature.error
      signature.other = .ok covered ∧
    text = Tsig.digested mac stripped covered

/-- An answer is believed for the MAC of one request. -/
theorem Confirms.unique {id' : UInt16} {mac mac' : List UInt8} {now' : ℕ}
    (hanswers : ∀ one other, AnswerText connection answer mac one → AnswerText connection answer mac' other →
      KeepsApart hmac connection one other)
    (h : Confirms hmac connection id mac now answer) (h' : Confirms hmac connection id' mac' now' answer) :
    id = id' ∧ mac = mac' := by
  obtain ⟨⟨head, hhead, rfl, -⟩, signature, spare, trailing, hcarries, hpasses, stripped, covered, hstripped,
    hcovered, hsealed⟩ := h
  obtain ⟨⟨head', hhead', rfl, -⟩, signature', spare', trailing', hcarries', hpasses', stripped', covered',
    hstripped', hcovered', hsealed'⟩ := h'
  have hone : AnswerText connection answer mac (Tsig.digested mac stripped covered) :=
    ⟨_, _, _, _, _, hcarries, hstripped, hcovered, rfl⟩
  have hother : AnswerText connection answer mac' (Tsig.digested mac' stripped' covered') :=
    ⟨_, _, _, _, _, hcarries', hstripped', hcovered', rfl⟩
  obtain ⟨rfl, -, -⟩ := hcarries.unique hcarries'
  have hheads : head = head' :=
    Except.ok.inj ((Tsig.read_eq_ok.mpr hhead).symm.trans (Tsig.read_eq_ok.mpr hhead'))
  have hsame := hanswers _ _ hone hother (hsealed.trans hsealed'.symm)
  rw [Tsig.digested, Tsig.digested, List.append_assoc, List.append_assoc, List.append_assoc,
    List.append_assoc] at hsame
  exact ⟨congrArg Header.id hheads, (Tsig.counted_append hpasses.request hpasses'.request hsame).1⟩

/-- What a request is signed over says which message it is of, and the second. -/
theorem RequestText.unique {message message' text : List UInt8} {now' : ℕ}
    (h : RequestText connection message now text) (h' : RequestText connection message' now' text) :
    message = message' ∧ now % 256 ^ 6 = now' % 256 ^ 6 := by
  obtain ⟨covered, hcovered, rfl⟩ := h
  obtain ⟨covered', hcovered', hsame⟩ := h'
  obtain ⟨-, -, hvariables⟩ := Tsig.variablesOf_eq_ok.mp hcovered
  obtain ⟨-, -, hvariables'⟩ := Tsig.variablesOf_eq_ok.mp hcovered'
  have hlength : covered.length = covered'.length := by
    rw [hvariables, hvariables']
    simp only [List.length_append, ByteOrder.length_bigEndian]
  obtain ⟨hmessages, hvars⟩ := List.append_inj' hsame hlength
  rw [hvariables, hvariables', List.append_right_inj, List.append_right_inj, List.append_right_inj,
    List.append_right_inj, List.append_left_inj, ← ByteOrder.bigEndian_mod 6 now,
      ← ByteOrder.bigEndian_mod 6 now'] at hvars
  have hvalues := congrArg ByteOrder.value hvars
  rw [ByteOrder.value_bigEndian (Nat.mod_lt _ (by decide)),
    ByteOrder.value_bigEndian (Nat.mod_lt _ (by decide))] at hvalues
  exact ⟨hmessages, hvalues⟩

/-- No answer is believed for two updates whose MACs tell the two requests apart, and the two answers: where
it is, they are the same message, down to the identity that was drawn for it, signed in the same second. -/
theorem answer_unique {id' : UInt16} {changes' : List Record} {message message' : List UInt8} {now' : ℕ}
    {signed' : Tsig.Signed}
    (hrequests : ∀ one other, RequestText connection message now one →
      RequestText connection message' now' other → KeepsApart hmac connection one other)
    (hanswers : ∀ one other, AnswerText connection answer signed.mac one →
      AnswerText connection answer signed'.mac other → KeepsApart hmac connection one other)
    (hupdate : update id connection.zone changes = .ok message)
    (hsign : Tsig.sign hmac message connection.keyName connection.algorithm connection.secret now =
      .ok signed)
    (hjudged : judged hmac connection id signed now answer = .ok ())
    (hupdate' : update id' connection.zone changes' = .ok message')
    (hsign' : Tsig.sign hmac message' connection.keyName connection.algorithm connection.secret now' =
      .ok signed')
    (hjudged' : judged hmac connection id' signed' now' answer = .ok ()) :
    id = id' ∧ message = message' ∧ now % 256 ^ 6 = now' % 256 ^ 6 := by
  obtain ⟨hid, hmacs⟩ := (confirms_of_judged hjudged).unique hanswers (confirms_of_judged hjudged')
  obtain ⟨-, -, -, ⟨covered, hcovered, hmac⟩, -⟩ := sign_update hupdate hsign
  obtain ⟨-, -, -, ⟨covered', hcovered', hmac'⟩, -⟩ := sign_update hupdate' hsign'
  have hone : RequestText connection message now (message ++ covered) := ⟨covered, hcovered, rfl⟩
  have hother : RequestText connection message' now' (message' ++ covered') := ⟨covered', hcovered', rfl⟩
  rw [hmac, hmac'] at hmacs
  have hsame := hrequests _ _ hone hother hmacs
  rw [← hsame] at hother
  exact ⟨hid, hone.unique hother⟩

end

/-! ## A server that holds the key -/

/-- A connection to a server of a zone. -/
def sample : Connection := ⟨⟨.v4 ⟨192, 0, 2, 1⟩, 53⟩, "example", "key", .hmacSha256, [1]⟩

/-- A way to make MACs that tells keys and messages apart. -/
def sampleHmac (_ : TsigAlgorithm) (key message : List UInt8) : List UInt8 := Tsig.paired key message

/-- The request that is sent at some time. -/
def sampleRequest (id : UInt16) (values : List String) (now : ℕ) : Except Halt Tsig.Signed := do
  let message ← (update id "example" (Record.deleteTxtSet "_acme-challenge.example" ::
    values.map (added "_acme-challenge.example"))).mapError .failure
  Tsig.sign sampleHmac message "key" .hmacSha256 [1] now

/-- What a server answers that has made the update with this MAC. -/
def sampleAnswer (id : UInt16) (now : ℕ) (mac : List UInt8) : Except Halt (List UInt8) := do
  let stripped := (⟨id, 0xA800, #v[0, 0, 0, 0]⟩ : Header).write []
  let covered ← (Tsig.variablesOf "key" .hmacSha256 now 0 []).mapError .failure
  Tsig.append stripped "key" .hmacSha256 now
    (sampleHmac .hmacSha256 [1] (Tsig.digested mac stripped covered)) id

/-- A server that makes every update. -/
def sampleOutside (values : List String) : Outside Unit where
  draw _ := (.ok 7, ())
  clock _ := (.ok 1700000000, ())
  send _ _ _ :=
    match sampleRequest 7 values 1700000000 >>= fun signed => sampleAnswer 7 1700000000 signed.mac with
    | .ok answer => (.ok (u16 (UInt16.ofNat answer.length) ++ answer), ())
    | .error _ => (.error "connection reset", ())

theorem sample_published : (publish (sampleOutside ["token"]) sampleHmac sample "_acme-challenge.example"
    ["token"]).run () = (.ok (), ()) := by
  have hok : ((publish (sampleOutside ["token"]) sampleHmac sample "_acme-challenge.example"
      ["token"]).run ()).1.isOk = true := by decide +kernel
  rcases hrun : (publish (sampleOutside ["token"]) sampleHmac sample "_acme-challenge.example"
    ["token"]).run () with ⟨error | done, w⟩
  · rw [hrun] at hok
    cases hok
  · rfl

theorem publish_confirmed_sample : ∃ request signature answer, Requests sampleHmac request sample 7 1700000000
    [Record.deleteTxtSet "_acme-challenge.example", added "_acme-challenge.example" "token"] signature ∧
      Confirms sampleHmac sample 7 signature.mac 1700000000 answer := by
  obtain ⟨_, _, _, _, request, signature, _, answer, hid, hnow, hrequests, -, -, -, hconfirms⟩ :=
    publish_confirmed sample_published
  obtain rfl := Except.ok.inj (Prod.mk.inj hid).1
  obtain rfl := Except.ok.inj (Prod.mk.inj hnow).1
  exact ⟨request, signature, answer, hrequests, hconfirms⟩

theorem answer_unique_sample : ∃ message signed answer,
    judged sampleHmac sample 7 signed 1700000000 answer = .ok () ∧
    (7 : UInt16) = 7 ∧ message = message ∧ 1700000000 % 256 ^ 6 = 1700000000 % 256 ^ 6 ∧
      Tsig.sign sampleHmac message "key" .hmacSha256 [1] 1700000000 = .ok signed := by
  obtain ⟨records, _, -, happly⟩ := Acting.bind_eq_ok sample_published
  obtain ⟨_, _, message, signed, _, answer, _, _, hid, hnow, hupdate, hsign, -, -, -, hjudged⟩ :=
    apply_eq_ok happly
  obtain rfl := Except.ok.inj (Prod.mk.inj hid).1
  obtain rfl := Except.ok.inj (Prod.mk.inj hnow).1
  obtain ⟨hids, hmessages, htimes⟩ :=
    answer_unique (fun _ _ _ _ h => (Tsig.paired_injective h).2)
      (fun _ _ _ _ h => (Tsig.paired_injective h).2)
      hupdate hsign hjudged hupdate hsign hjudged
  exact ⟨message, signed, answer, hjudged, hids, hmessages, htimes, hsign⟩

end Rfc2136

end EkEk.Tls
