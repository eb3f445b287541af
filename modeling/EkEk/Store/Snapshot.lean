import Mathlib.Data.Finmap
import EkEk.Config.Config

/-!
# The replicated state

Reference: `crates/ek-ek-store/src/` (`store.rs`, `membership.rs`, `order.rs`, `cluster.rs`,
`secret.rs`, `version.rs`, `journal.rs`).

A `Snapshot` is everything a node holds: the configuration, the key material it refers to, and what
the cluster keeps about itself (its authority, the join tokens it issued, the nodes it removed and
the certificate orders it runs). It is read and written whole. The ordered maps of the source are
finite maps, and its sets are finite sets.
-/

namespace EkEk.Store

/-- Key material. -/
structure Secret where
  expose : List UInt8
deriving DecidableEq, Repr

/-! ## Join tokens -/

/-- The public half of a join token, which names its record. -/
structure TokenId where
  asStr : String
deriving DecidableEq, Repr

/-- One join token, as the cluster holds it. -/
structure JoinRecord where
  secretDigest : String
  expiresAtUnix : ℤ
  usedBy : Option NodeId
  issuedBy : String
  issuedAtUnix : ℤ
deriving DecidableEq, Repr

/-- Whether the token has run out. -/
def JoinRecord.expired (record : JoinRecord) (now : ℤ) : Prop := record.expiresAtUnix ≤ now

instance (record : JoinRecord) (now : ℤ) : Decidable (record.expired now) :=
  inferInstanceAs (Decidable (record.expiresAtUnix ≤ now))

/-! ## Certificate orders -/

inductive OrderChallenge where
  | http01
  | dns01
deriving DecidableEq, Repr

/-- One certificate order, as the cluster holds it. -/
structure OrderRecord where
  names : List String
  challenge : OrderChallenge
  orderUrl : Option String
  key : SecretId
  answers : Finmap fun _ : String => String
  drivenBy : Option NodeId
  startedAtUnix : ℤ
deriving DecidableEq

/-! ## The state -/

/-- What identifies a cluster to its own nodes. -/
structure ClusterIdentity where
  authorityPem : String
deriving DecidableEq, Repr

/-- A complete state. -/
structure Snapshot where
  config : Config
  secrets : Finmap fun _ : SecretId => Secret
  cluster : Option ClusterIdentity
  joins : Finmap fun _ : TokenId => JoinRecord
  removed : Finset NodeId
  orders : Finmap fun _ : CertificateId => OrderRecord
deriving DecidableEq

namespace Snapshot

/-- A state with a configuration and nothing else. -/
def new (config : Config) : Snapshot where
  config := config
  secrets := ∅
  cluster := none
  joins := ∅
  removed := ∅
  orders := ∅

def withJoin (state : Snapshot) (id : TokenId) (record : JoinRecord) : Snapshot :=
  { state with joins := state.joins.insert id record }

def withSecret (state : Snapshot) (id : SecretId) (secret : Secret) : Snapshot :=
  { state with secrets := state.secrets.insert id secret }

def withCluster (state : Snapshot) (identity : ClusterIdentity) : Snapshot :=
  { state with cluster := some identity }

/-- The node a token was used by. -/
def usedBy (state : Snapshot) (id : TokenId) : Option NodeId :=
  (state.joins.lookup id).bind JoinRecord.usedBy

end Snapshot

/-! ## What travels with a write -/

/-- Who made a change and why. -/
structure Change where
  author : String
  description : String
deriving DecidableEq, Repr

/-- One row of the audit log. -/
structure AuditRecord where
  recordedAtUnix : ℤ
  actor : String
  action : String
  subject : Option String
  detail : Option String
deriving DecidableEq, Repr

end EkEk.Store
