import EkEk.Store.Database

/-!
# A state as it travels

Reference: `crates/ek-ek-raft/src/types.rs`.

The types of the store do not serialise, so a state that travels is turned into types that do, and back
into the store's own where it arrives: a map for a map under bare names, a list for a set, and every
record field by field. Key material travels in the clear.

`state_survives` puts the representations together: the tables of a database, the wire types and the
JSON text of them, and a database under another key. Everything survives, except for the order of the
versions of an import, which a database gives back by their numbers.
-/

namespace EkEk.Raft

open Store

/-! ## The wire types -/

/-- Who changed the configuration, and why, as it travels. -/
structure WireChange where
  author : String
  description : String
deriving DecidableEq

/-- How a certificate authority is answered, as it travels. -/
inductive WireChallenge where
  | http01
  | dns01
deriving DecidableEq

/-- The record of an order, as it travels. -/
structure WireOrder where
  names : List String
  challenge : WireChallenge
  orderUrl : Option String
  key : String
  answers : Finmap fun _ : String => String
  drivenBy : Option String
  startedAtUnix : ℤ
deriving DecidableEq

/-- The record of a join token, as it travels. -/
structure WireJoin where
  secretDigest : String
  expiresAtUnix : ℤ
  usedBy : Option String
  issuedBy : String
  issuedAtUnix : ℤ
deriving DecidableEq

/-- A store state, as it travels. -/
structure WireSnapshot where
  config : Config
  secrets : Finmap fun _ : String => List UInt8
  cluster : Option String
  joins : Finmap fun _ : String => WireJoin
  removed : List String
  orders : Finmap fun _ : String => WireOrder
deriving DecidableEq

/-- A version of the configuration, as it travels, with its document as text. -/
structure WireVersion where
  id : ℤ
  recordedAtUnix : ℤ
  author : String
  description : String
  schemaVersion : UInt32
  restoredFrom : Option ℤ
  document : String
deriving DecidableEq

/-- An entry of the audit log, as it travels. -/
structure WireAudit where
  recordedAtUnix : ℤ
  actor : String
  action : String
  subject : Option String
  detail : Option String
deriving DecidableEq

/-- Everything a node that catches up receives. -/
structure WireState where
  snapshot : Option WireSnapshot
  versions : List WireVersion
  audit : List WireAudit
deriving DecidableEq

/-! ## To the wire, and back -/

/-- A change, where it arrives. -/
def WireChange.change (change : WireChange) : Change := ⟨change.author, change.description⟩

/-- A challenge, to the wire. -/
def WireChallenge.of : OrderChallenge → WireChallenge
  | .http01 => .http01
  | .dns01 => .dns01

/-- A challenge, where it arrives. -/
def WireChallenge.challenge : WireChallenge → OrderChallenge
  | .http01 => .http01
  | .dns01 => .dns01

/-- The record of an order, to the wire. -/
def WireOrder.of (record : OrderRecord) : WireOrder where
  names := record.names
  challenge := .of record.challenge
  orderUrl := record.orderUrl
  key := record.key.asStr
  answers := record.answers
  drivenBy := record.drivenBy.map NodeId.asStr
  startedAtUnix := record.startedAtUnix

/-- The record of an order, where it arrives. -/
def WireOrder.record (order : WireOrder) : OrderRecord where
  names := order.names
  challenge := order.challenge.challenge
  orderUrl := order.orderUrl
  key := ⟨order.key⟩
  answers := order.answers
  drivenBy := order.drivenBy.map NodeId.mk
  startedAtUnix := order.startedAtUnix

/-- The record of a token, to the wire. -/
def WireJoin.of (record : JoinRecord) : WireJoin where
  secretDigest := record.secretDigest
  expiresAtUnix := record.expiresAtUnix
  usedBy := record.usedBy.map NodeId.asStr
  issuedBy := record.issuedBy
  issuedAtUnix := record.issuedAtUnix

/-- The record of a token, where it arrives. -/
def WireJoin.record (join : WireJoin) : JoinRecord where
  secretDigest := join.secretDigest
  expiresAtUnix := join.expiresAtUnix
  usedBy := join.usedBy.map NodeId.mk
  issuedBy := join.issuedBy
  issuedAtUnix := join.issuedAtUnix

/-- Bare names. -/
def bare : String ≃ String := .refl String

/-- A store state, to the wire. -/
def WireSnapshot.of (state : Snapshot) : WireSnapshot where
  config := state.config
  secrets := Keyed.mapped SecretId.key bare Secret.expose state.secrets
  cluster := state.cluster.map ClusterIdentity.authorityPem
  joins := Keyed.mapped TokenId.key bare WireJoin.of state.joins
  removed := Keyed.members NodeId.key state.removed
  orders := Keyed.mapped CertificateId.key bare WireOrder.of state.orders

/-- A store state, where it arrives. -/
def WireSnapshot.snapshot (state : WireSnapshot) : Snapshot where
  config := state.config
  secrets := Keyed.mapped bare SecretId.key Secret.mk state.secrets
  cluster := state.cluster.map ClusterIdentity.mk
  joins := Keyed.mapped bare TokenId.key WireJoin.record state.joins
  removed := Keyed.ofMembers NodeId.key state.removed
  orders := Keyed.mapped bare CertificateId.key WireOrder.record state.orders

/-- A version, to the wire. -/
def WireVersion.of (version : Database.StoredVersion) : WireVersion where
  id := version.id.get
  recordedAtUnix := version.recordedAtUnix
  author := version.author
  description := version.description
  schemaVersion := version.schemaVersion
  restoredFrom := version.restoredFrom.map VersionId.get
  document := version.document

/-- A version, where it arrives. -/
def WireVersion.version (version : WireVersion) : Database.StoredVersion where
  id := ⟨version.id⟩
  recordedAtUnix := version.recordedAtUnix
  author := version.author
  description := version.description
  schemaVersion := version.schemaVersion
  restoredFrom := version.restoredFrom.map VersionId.mk
  document := version.document

/-- An entry of the audit log, to the wire. -/
def WireAudit.of (record : AuditRecord) : WireAudit :=
  ⟨record.recordedAtUnix, record.actor, record.action, record.subject, record.detail⟩

/-- An entry of the audit log, where it arrives. -/
def WireAudit.record (audit : WireAudit) : AuditRecord :=
  ⟨audit.recordedAtUnix, audit.actor, audit.action, audit.subject, audit.detail⟩

/-- All that a node catches up with, to the wire. -/
def WireState.of (state : Database.FullState) : WireState where
  snapshot := state.snapshot.map WireSnapshot.of
  versions := state.versions.map WireVersion.of
  audit := state.audit.map WireAudit.of

/-- All that a node catches up with, where it arrives. -/
def WireState.state (state : WireState) : Database.FullState where
  snapshot := state.snapshot.map WireSnapshot.snapshot
  versions := state.versions.map WireVersion.version
  audit := state.audit.map WireAudit.record

/-! ## What travels arrives -/

theorem WireOrder.record_of (record : OrderRecord) : (WireOrder.of record).record = record := by
  obtain ⟨names, challenge, orderUrl, key, answers, drivenBy, startedAtUnix⟩ := record
  cases challenge <;> simp [WireOrder.of, WireOrder.record, WireChallenge.of,
    WireChallenge.challenge, Function.comp_def]

theorem WireJoin.record_of (record : JoinRecord) : (WireJoin.of record).record = record := by
  simp [WireJoin.of, WireJoin.record, Function.comp_def]

/-- A state that travelled is the state that was sent. -/
theorem WireSnapshot.snapshot_of (state : Snapshot) : (WireSnapshot.of state).snapshot = state := by
  simp only [WireSnapshot.snapshot, WireSnapshot.of, Keyed.ofMembers_members,
    Keyed.mapped_mapped WireOrder.record_of, Keyed.mapped_mapped WireJoin.record_of,
    Keyed.mapped_mapped (f := Secret.expose) (g := Secret.mk) fun _ => rfl, Option.map_map]
  simp [Function.comp_def]

theorem WireVersion.version_of (version : Database.StoredVersion) :
    (WireVersion.of version).version = version := by
  simp [WireVersion.of, WireVersion.version, Function.comp_def]

/-- Everything that travelled to a node that catches up is what was sent. -/
theorem WireState.state_of (state : Database.FullState) : (WireState.of state).state = state := by
  simp only [WireState.state, WireState.of, Option.map_map, List.map_map]
  simp [Function.comp_def, WireSnapshot.snapshot_of, WireVersion.version_of, WireAudit.of,
    WireAudit.record]

/-- A state survives every representation: the tables, the wire types and the JSON text of them, and
for everything a node holds, with its versions in order, the wire types and the tables of a node under
whatever key. -/
theorem state_survives (cipher : Cipher) (codecs : Codecs) (json : Serde WireSnapshot)
    (hcipher : cipher.Lawful) :
    (∀ (key : MasterKey) (draw : String → Except String Nonce) (database : Database)
      (snapshot : Snapshot) (change : Change) (now : ℤ), (∀ id, ∃ nonce, draw id = .ok nonce) →
      Database.Carried codecs snapshot →
      ∃ next id, database.write cipher codecs key draw snapshot change now = .ok (next, id) ∧
        next.read cipher codecs key = .ok (some snapshot)) ∧
    (∀ snapshot : Snapshot, json.Carries (.of snapshot) →
      ∃ text wire, json.toString (.of snapshot) = .ok text ∧ json.fromStr text = .ok wire ∧
        wire.snapshot = snapshot) ∧
    (∀ state : Database.FullState, (WireState.of state).state = state) ∧
    ∀ (key : MasterKey) (draw : String → Except String Nonce) (database : Database)
      (state : Database.FullState) (now : ℤ) (markers : List (String × String)),
      (∀ id, ∃ nonce, draw id = .ok nonce) →
      (∀ snapshot ∈ state.snapshot, Database.Carried codecs snapshot) →
      Database.Ascending state.versions →
      ∃ next, database.imported cipher codecs key draw state now markers = .ok next ∧
        next.exported cipher codecs key = .ok state := by
  refine ⟨?_, ?_, WireState.state_of, ?_⟩
  · intro key draw database snapshot change now hdraw hcarried
    exact database.read_writeVersion key hcipher hdraw hcarried change none now [] []
  · rintro snapshot ⟨text, hwritten, hread⟩
    exact ⟨text, .of snapshot, hwritten, hread, WireSnapshot.snapshot_of snapshot⟩
  · intro key draw database state now markers hdraw hcarried hascending
    exact database.exported_imported key hcipher hdraw hcarried hascending now markers

/-! ### A state that travels -/

/-- The JSON library at one value, with the text it writes for it. -/
def onlyJson {T : Type} [DecidableEq T] (value : T) (text : String) : Serde T where
  toString other := if other = value then .ok text else .error "another value"
  fromStr other := if other = text then .ok value else .error "another text"

theorem carries_onlyJson {T : Type} [DecidableEq T] (value : T) (text : String) :
    (onlyJson value text).Carries value :=
  ⟨text, if_pos rfl, if_pos rfl⟩

/-- A cipher that masks every byte with the first one of the key. -/
def masking : Cipher where
  encrypt key _ message _ := .ok (message.map (key.asBytes.headD 0 ^^^ ·))
  decrypt key _ message _ := .ok (message.map (key.asBytes.headD 0 ^^^ ·))

theorem lawful_masking : masking.Lawful := by
  intro key nonce message associated
  refine ⟨_, rfl, ?_⟩
  have hback : ∀ byte : UInt8, key.asBytes.headD 0 ^^^ (key.asBytes.headD 0 ^^^ byte) = byte := by
    intro byte
    rw [← UInt8.xor_assoc, UInt8.xor_self, UInt8.zero_xor]
  simp only [masking, List.map_map, Function.comp_def, hback, List.map_id_fun', id]

/-- A nonce of zeros. -/
def zeros : Nonce := ⟨.replicate nonceLength 0, List.length_replicate⟩

/-- What is written for the empty configuration. -/
def emptyText : String :=
  "\x7b\"schema_version\":1,\"nodes\":[],\"vips\":[],\"frontends\":[],\"backends\":[]," ++
  "\"certificates\":[],\"dns_providers\":[],\"acme\":null,\"stickiness_key\":\"\"," ++
  "\"log_level\":\"info\",\"certificate_expiry_warning_days\":30\x7d"

/-- A running order. -/
def running : OrderRecord := ⟨["example.org"], .http01, none, ⟨"web.order"⟩, ∅, some ⟨"node-a"⟩, 5⟩

/-- A state with something in each of its parts. -/
def kept : Snapshot where
  config := .empty
  secrets := Finmap.singleton ⟨"web.order"⟩ ⟨[1, 2]⟩
  cluster := some ⟨"authority"⟩
  joins := Finmap.singleton ⟨"0123456789abcdef"⟩ ⟨"digest", 2000, none, "admin", 1000⟩
  removed := {⟨"node-c"⟩}
  orders := Finmap.singleton ⟨"web"⟩ running

/-- What is written for it. -/
def keptText : String :=
  "\x7b\"config\":" ++ emptyText ++ ",\"secrets\":\x7b\"web.order\":[1,2]\x7d," ++
  "\"cluster\":\"authority\",\"joins\":\x7b\"0123456789abcdef\":\x7b\"secret_digest\":\"digest\"," ++
  "\"expires_at_unix\":2000,\"used_by\":null,\"issued_by\":\"admin\",\"issued_at_unix\":1000\x7d\x7d," ++
  "\"removed\":[\"node-c\"],\"orders\":\x7b\"web\":\x7b\"names\":[\"example.org\"]," ++
  "\"challenge\":\"http-01\",\"order_url\":null,\"key\":\"web.order\",\"answers\":\x7b\x7d," ++
  "\"driven_by\":\"node-a\",\"started_at_unix\":5\x7d\x7d\x7d"

/-- The JSON library at that state, as it travels. -/
def keptJson : Serde WireSnapshot := onlyJson (.of kept) keptText

/-- The JSON library at the documents of that state. -/
def keptCodecs : Codecs where
  config := onlyJson .empty emptyText
  names := onlyJson ["example.org"] "[\"example.org\"]"
  answers := onlyJson ∅ "\x7b\x7d"

theorem carried_kept : Database.Carried keptCodecs kept := by
  have horder : ∀ id order, kept.orders.lookup id = some order → order = running := by
    intro id order h
    have hid : id = ⟨"web"⟩ := by
      by_contra hne
      rw [kept, Finmap.lookup_eq_none.mpr (by simpa using hne)] at h
      nomatch h
    subst hid
    exact (Option.some.inj h).symm
  refine ⟨carries_onlyJson _ _, ?_, ?_⟩
  · intro id order h
    rw [horder id order h]
    exact carries_onlyJson _ _
  · intro id order h
    rw [horder id order h]
    exact carries_onlyJson _ _

/-- One version of that state. -/
def firstVersion : Database.StoredVersion := ⟨⟨1⟩, 10, "operator", "first", 1, none, emptyText⟩

/-- The state goes through the tables of one node, the wire and its text, and into another node. -/
theorem kept_survives :
    (∃ next id, Database.create.write masking keptCodecs ⟨[7]⟩ (fun _ => .ok zeros) kept
        ⟨"operator", "first"⟩ 10 = .ok (next, id) ∧
      next.read masking keptCodecs ⟨[7]⟩ = .ok (some kept)) ∧
    (∃ text wire, keptJson.toString (.of kept) = .ok text ∧ keptJson.fromStr text = .ok wire ∧
      wire.snapshot = kept) ∧
    (WireState.of ⟨some kept, [firstVersion], []⟩).state = ⟨some kept, [firstVersion], []⟩ ∧
    ∃ next, Database.create.imported masking keptCodecs ⟨[9]⟩ (fun _ => .ok zeros)
        ⟨some kept, [firstVersion], []⟩ 11 [] = .ok next ∧
      next.exported masking keptCodecs ⟨[9]⟩ = .ok ⟨some kept, [firstVersion], []⟩ := by
  obtain ⟨hwrite, hjson, hwire, himport⟩ := state_survives masking keptCodecs
    keptJson lawful_masking
  refine ⟨hwrite _ _ _ _ _ _ (fun _ => ⟨zeros, rfl⟩) carried_kept,
    hjson kept (carries_onlyJson _ _), hwire _,
    himport _ _ _ _ _ _ (fun _ => ⟨zeros, rfl⟩) ?_ (List.pairwise_singleton _ _)⟩
  rintro snapshot ⟨⟩
  exact carried_kept

/-- A version log that is not in order comes back in order, and one that has a number twice is not
taken in. -/
theorem unordered_log_changes :
    (∃ next, Database.create.imported masking keptCodecs ⟨[9]⟩ (fun _ => .ok zeros)
        ⟨none, [{ firstVersion with id := ⟨2⟩ }, firstVersion], []⟩ 11 [] = .ok next ∧
      next.exported masking keptCodecs ⟨[9]⟩ ≠
        .ok ⟨none, [{ firstVersion with id := ⟨2⟩ }, firstVersion], []⟩) ∧
    ∃ error, Database.create.imported masking keptCodecs ⟨[9]⟩ (fun _ => .ok zeros)
      ⟨none, [firstVersion, firstVersion], []⟩ 11 [] = .error error := by
  refine ⟨⟨_, rfl, ?_⟩, _, rfl⟩
  intro h
  have hids := congrArg (fun read : Except Error Database.FullState =>
    read.toOption.map fun state => state.versions.map fun version => version.id.get) h
  exact absurd hids (by decide)

end EkEk.Raft
