import EkEk.Lib.Keyed
import EkEk.Serde
import EkEk.Store.Journal
import EkEk.Text
import Mathlib.Data.String.Basic

/-!
# The tables

Reference: `read`, `write_version`, `export` and `import` of `crates/ek-ek-store/src/sqlite.rs` with
the schema they work on, `crypto.rs`, and `FullState` of `journal.rs`.

A state is kept in tables, a row for each of its parts, and everything of it is replaced by a write.
Key material is sealed with the node's own key, under the name it is stored by and with a number that
is drawn for every record. The documents are kept as the text the JSON library writes.

`read_writeVersion` and `exported_imported` say that what is put into the tables is read back. The
cipher and the JSON library are parameters.
-/

namespace EkEk.Store

open Checked

/-! ## Sealing -/

/-- How long a nonce is. -/
def nonceLength : ℕ := 24

/-- A number that is drawn for one record. -/
structure Nonce where
  bytes : List UInt8
  length_eq : bytes.length = nonceLength

/-- The key of one node. -/
structure MasterKey where
  asBytes : List UInt8

/-- A sealed record. -/
structure Sealed where
  nonce : List UInt8
  ciphertext : List UInt8
deriving DecidableEq

/-- The authenticated cipher: a message and what it is bound to. -/
structure Cipher where
  encrypt : MasterKey → Nonce → (message associated : List UInt8) → Except String (List UInt8)
  decrypt : MasterKey → Nonce → (message associated : List UInt8) → Except String (List UInt8)

namespace Cipher

variable (cipher : Cipher)

/-- Whatever is sealed is opened by the same key, under the name it was sealed under. -/
def Lawful : Prop := ∀ key nonce message associated, ∃ ciphertext,
  cipher.encrypt key nonce message associated = .ok ciphertext ∧
    cipher.decrypt key nonce ciphertext associated = .ok message

/-- Seal a plaintext, binding it to what it is stored under. -/
def sealing (key : MasterKey) (drawn : Except String Nonce) (associated plaintext : List UInt8) :
    Except Error Sealed := do
  let nonce ← drawn.mapError fun error =>
    ⟨.decryption, s!"the operating system refused to provide randomness: {error}"⟩
  let ciphertext ← (cipher.encrypt key nonce plaintext associated).mapError fun error =>
    ⟨.decryption, s!"sealing failed: {error}"⟩
  .ok ⟨nonce.bytes, ciphertext⟩

/-- Open a sealed record. -/
def opening (key : MasterKey) (associated : List UInt8) (record : Sealed) :
    Except Error (List UInt8) :=
  if h : record.nonce.length = nonceLength then
    (cipher.decrypt key ⟨record.nonce, h⟩ record.ciphertext associated).mapError fun error =>
      ⟨.decryption, s!"a stored record did not open: {error}"⟩
  else .error ⟨.decryption, s!"a nonce of {record.nonce.length} bytes cannot be used, " ++
    s!"{nonceLength} are required"⟩

end Cipher

/-! ## Rows -/

structure ConfigRow where
  schemaVersion : ℤ
  document : String
  updatedAt : ℤ
deriving DecidableEq

structure VersionRow where
  recordedAt : ℤ
  author : String
  description : String
  schemaVersion : ℤ
  restoredFrom : Option ℤ
  document : String
deriving DecidableEq

structure JoinRow where
  secretDigest : String
  expiresAt : ℤ
  usedBy : Option String
  issuedBy : String
  issuedAt : ℤ
deriving DecidableEq

structure OrderRow where
  names : String
  challenge : String
  orderUrl : Option String
  keyId : String
  answers : String
  drivenBy : Option String
  startedAt : ℤ
deriving DecidableEq

/-- The tables of the state, by their keys. -/
structure StateTables where
  configState : Option ConfigRow
  secret : List (String × Sealed)
  joinToken : List (String × JoinRow)
  removedNode : List String
  acmeOrder : List (String × OrderRow)
  clusterIdentity : Option String
deriving DecidableEq

/-- The database: the tables of the state, the version log by its numbers with the number the next
version gets, the audit log with the oldest first, and the tables of consensus. -/
structure Database where
  tables : StateTables
  configVersion : List (ℤ × VersionRow)
  nextVersion : ℤ
  auditLog : List AuditRecord
  journal : Journal

/-- What the JSON library does for the documents of a database. -/
structure Codecs where
  config : Serde Config
  names : Serde (List String)
  answers : Serde (Finmap fun _ : String => String)

/-! ## The keys of the rows -/

def SecretId.key : SecretId ≃ String := ⟨SecretId.asStr, SecretId.mk, fun _ => rfl, fun _ => rfl⟩

def TokenId.key : TokenId ≃ String := ⟨TokenId.asStr, TokenId.mk, fun _ => rfl, fun _ => rfl⟩

def NodeId.key : NodeId ≃ String := ⟨NodeId.asStr, NodeId.mk, fun _ => rfl, fun _ => rfl⟩

def CertificateId.key : CertificateId ≃ String :=
  ⟨CertificateId.asStr, CertificateId.mk, fun _ => rfl, fun _ => rfl⟩

/-! ## Challenges -/

namespace OrderChallenge

/-- A challenge as it is stored. -/
def key : OrderChallenge → String
  | .http01 => "http-01"
  | .dns01 => "dns-01"

/-- Read a challenge back. -/
def fromKey (value : String) : Option OrderChallenge :=
  if value = "http-01" then some .http01
  else if value = "dns-01" then some .dns01
  else none

theorem fromKey_key (challenge : OrderChallenge) : fromKey challenge.key = some challenge := by
  cases challenge <;> decide

end OrderChallenge

namespace Database

/-- One entry of the version log, with its document as it is stored. -/
structure StoredVersion where
  id : VersionId
  recordedAtUnix : ℤ
  author : String
  description : String
  schemaVersion : UInt32
  restoredFrom : Option VersionId
  document : String
deriving DecidableEq

/-- Everything a node must hold to be identical to its peers, the logs with the oldest first. -/
structure FullState where
  snapshot : Option Snapshot
  versions : List StoredVersion
  audit : List AuditRecord
deriving DecidableEq

/-- The tables of a state there is none of. -/
def cleared : StateTables := ⟨none, [], [], [], [], none⟩

/-- A database nothing was written to. -/
def create : Database := ⟨cleared, [], 1, [], .create⟩

variable (cipher : Cipher) (codecs : Codecs) (key : MasterKey)

/-! ## Rows of a state -/

/-- Seal one secret, with the nonce that is drawn for it. -/
def sealRow (draw : String → Except String Nonce) (row : String × Secret) :
    Except Error (String × Sealed) := do
  let sealed ← cipher.sealing key (draw row.1) (Text.bytes row.1) row.2.expose
  .ok (row.1, sealed)

/-- Open one secret. -/
def openRow (row : String × Sealed) : Except Error (String × Secret) := do
  let plaintext ← cipher.opening key (Text.bytes row.1) row.2
  .ok (row.1, ⟨plaintext⟩)

/-- The row of a join token. -/
def joinRow (row : String × JoinRecord) : String × JoinRow :=
  (row.1, ⟨row.2.secretDigest, row.2.expiresAtUnix, row.2.usedBy.map NodeId.asStr, row.2.issuedBy,
    row.2.issuedAtUnix⟩)

/-- Read a join token. -/
def readJoin (row : String × JoinRow) : String × JoinRecord :=
  (row.1, ⟨row.2.secretDigest, row.2.expiresAt, row.2.usedBy.map NodeId.mk, row.2.issuedBy,
    row.2.issuedAt⟩)

/-- The row of a running order. -/
def orderRow (row : String × OrderRecord) : Except Error (String × OrderRow) := do
  let names ← (codecs.names.toString row.2.names).mapError fun error =>
    ⟨.serialisation, s!"the names of an order could not be written out: {error}"⟩
  let answers ← (codecs.answers.toString row.2.answers).mapError fun error =>
    ⟨.serialisation, s!"the challenge answers could not be written out: {error}"⟩
  .ok (row.1, ⟨names, row.2.challenge.key, row.2.orderUrl, row.2.key.asStr, answers,
    row.2.drivenBy.map NodeId.asStr, row.2.startedAtUnix⟩)

/-- Read a running order. A challenge nothing recognises is a failure. -/
def readOrder (row : String × OrderRow) : Except Error (String × OrderRecord) := do
  let challenge ← found (OrderChallenge.fromKey row.2.challenge) ⟨.serialisation,
    s!"{row.1} names a challenge this build does not know: {row.2.challenge}"⟩
  let names ← (codecs.names.fromStr row.2.names).mapError fun error =>
    ⟨.serialisation, s!"the names of {row.1} could not be read: {error}"⟩
  let answers ← (codecs.answers.fromStr row.2.answers).mapError fun error =>
    ⟨.serialisation, s!"the challenge answers of {row.1} could not be read: {error}"⟩
  .ok (row.1, ⟨names, challenge, row.2.orderUrl, ⟨row.2.keyId⟩, answers,
    row.2.drivenBy.map NodeId.mk, row.2.startedAt⟩)

/-- The text a configuration is stored as. -/
def document (config : Config) : Except Error String :=
  (codecs.config.toString config).mapError fun error =>
    ⟨.serialisation, s!"the config could not be written out: {error}"⟩

/-! ## Reading -/

/-- Read the state out of its tables. -/
def readTables (tables : StateTables) : Except Error (Option Snapshot) :=
  match tables.configState with
  | none => .ok none
  | some row => do
    let config ← (codecs.config.fromStr row.document).mapError fun error =>
      ⟨.serialisation, s!"the stored config could not be read back: {error}"⟩
    let secrets ← (Keyed.ordered tables.secret).mapM (openRow cipher key)
    let orders ← (Keyed.ordered tables.acmeOrder).mapM (readOrder codecs)
    .ok (some {
      config := config
      secrets := Keyed.ofRows SecretId.key secrets
      cluster := tables.clusterIdentity.map ClusterIdentity.mk
      joins := Keyed.ofRows TokenId.key ((Keyed.ordered tables.joinToken).map readJoin)
      removed := Keyed.ofMembers NodeId.key tables.removedNode
      orders := Keyed.ofRows CertificateId.key orders })

/-- Read the state. -/
def read (database : Database) : Except Error (Option Snapshot) :=
  readTables cipher codecs key database.tables

/-- Read one entry of the version log. -/
def readVersion (row : ℤ × VersionRow) : Except Error StoredVersion :=
  if 0 ≤ row.2.schemaVersion ∧ row.2.schemaVersion < 2 ^ 32 then
    .ok ⟨⟨row.1⟩, row.2.recordedAt, row.2.author, row.2.description,
      .ofNat row.2.schemaVersion.toNat, row.2.restoredFrom.map VersionId.mk, row.2.document⟩
  else .error ⟨.storage, "a version could not be exported: " ++
    s!"Integer {row.2.schemaVersion} out of range at index 4"⟩

/-- Read everything a peer would need to become identical to this node. -/
def exported (database : Database) : Except Error FullState := do
  let snapshot ← database.read cipher codecs key
  let versions ← (Keyed.ordered database.configVersion).mapM readVersion
  .ok ⟨snapshot, versions, database.auditLog⟩

/-! ## Writing -/

/-- Keep markers. -/
def setMarkers (journal : Journal) (markers : List (String × String)) : Journal :=
  markers.foldl (fun journal marker => journal.setMarker marker.1 (some marker.2)) journal

/-- The versions past the limit, the newest of them first. -/
def doomed (versions : List (ℤ × VersionRow)) : List ℤ :=
  ((Keyed.ordered versions).reverse.drop maxVersions).map Prod.fst

/-- What pruning one version writes into the audit log. -/
def pruning (change : Change) (now : ℤ) (id : ℤ) : AuditRecord where
  recordedAtUnix := now
  actor := change.author
  action := prunedAction
  subject := some (toString id)
  detail := some s!"retention limit {maxVersions}"

/-- The tables a state is replaced by. -/
def stateTables (document : String) (sealed : List (String × Sealed))
    (orders : List (String × OrderRow)) (snapshot : Snapshot) (now : ℤ) : StateTables where
  configState := some ⟨snapshot.config.schemaVersion.get.toNat, document, now⟩
  secret := sealed
  joinToken := (Keyed.rows TokenId.key snapshot.joins).map joinRow
  removedNode := Keyed.members NodeId.key snapshot.removed
  acmeOrder := orders
  clusterIdentity := snapshot.cluster.map ClusterIdentity.authorityPem

/-- The version a write appends. -/
def appended (database : Database) (document : String) (snapshot : Snapshot) (change : Change)
    (restored : Option VersionId) (now : ℤ) : ℤ × VersionRow :=
  (database.nextVersion, ⟨now, change.author, change.description,
    snapshot.config.schemaVersion.get.toNat, restored.map VersionId.get, document⟩)

/-- The database behind a write: the state is replaced, a version is appended and the log is pruned,
and the audit rows and the markers are written. -/
def recorded (database : Database) (tables : StateTables) (version : ℤ × VersionRow)
    (change : Change) (now : ℤ) (markers : List (String × String)) (audit : List AuditRecord) :
    Database :=
  let versions := database.configVersion ++ [version]
  { tables := tables
    configVersion := versions.filter fun row => row.1 ∉ doomed versions
    nextVersion := database.nextVersion + 1
    auditLog := database.auditLog ++ (doomed versions).map (pruning change now) ++ audit
    journal := setMarkers database.journal markers }

/-- Write a state with a version of it, in one transaction. -/
def writeVersion (database : Database) (draw : String → Except String Nonce) (snapshot : Snapshot)
    (change : Change) (restored : Option VersionId) (now : ℤ) (markers : List (String × String))
    (audit : List AuditRecord) : Except Error (Database × VersionId) := do
  let document ← document codecs snapshot.config
  let sealed ← (Keyed.rows SecretId.key snapshot.secrets).mapM (sealRow cipher key draw)
  let orders ← (Keyed.rows CertificateId.key snapshot.orders).mapM (orderRow codecs)
  .ok (database.recorded (stateTables document sealed orders snapshot now)
      (database.appended document snapshot change restored now) change now markers audit,
    ⟨database.nextVersion⟩)

/-- Write a state. -/
def write (database : Database) (draw : String → Except String Nonce) (snapshot : Snapshot)
    (change : Change) (now : ℤ) : Except Error (Database × VersionId) :=
  database.writeVersion cipher codecs key draw snapshot change none now [] []

/-- The row of a version that came in. -/
def versionRow (version : StoredVersion) : ℤ × VersionRow :=
  (version.id.get, ⟨version.recordedAtUnix, version.author, version.description,
    version.schemaVersion.toNat, version.restoredFrom.map VersionId.get, version.document⟩)

/-- The tables of a state that came in. -/
def importedTables (draw : String → Except String Nonce) (now : ℤ) :
    Option Snapshot → Except Error StateTables
  | none => .ok cleared
  | some snapshot => do
    let sealed ← (Keyed.rows SecretId.key snapshot.secrets).mapM (sealRow cipher key draw)
    let orders ← (Keyed.rows CertificateId.key snapshot.orders).mapM (orderRow codecs)
    let document ← document codecs snapshot.config
    .ok (stateTables document sealed orders snapshot now)

/-- The database behind an import. The counter never goes back, since removing rows does not reset
it. -/
def replaced (database : Database) (tables : StateTables) (state : FullState)
    (markers : List (String × String)) : Database where
  tables := tables
  configVersion := state.versions.map versionRow
  nextVersion := state.versions.foldl (fun next version => max next (version.id.get + 1))
    database.nextVersion
  auditLog := state.audit
  journal := setMarkers database.journal markers

/-- Replace everything a node holds, in one transaction. Versions keep their numbers, and no two may
have the same. -/
def imported (database : Database) (draw : String → Except String Nonce) (state : FullState)
    (now : ℤ) (markers : List (String × String)) : Except Error Database := do
  let tables ← importedTables cipher codecs key draw now state.snapshot
  ensure (state.versions.map fun version => version.id.get).Nodup ⟨.storage,
    "a version could not be written: UNIQUE constraint failed: config_version.id"⟩
  .ok (database.replaced tables state markers)

/-! ## What is put in is read back -/

/-- The documents of a state survive being written out. -/
structure Carried (snapshot : Snapshot) : Prop where
  config : codecs.config.Carries snapshot.config
  names : ∀ id order, snapshot.orders.lookup id = some order → codecs.names.Carries order.names
  answers : ∀ id order, snapshot.orders.lookup id = some order → codecs.answers.Carries order.answers

section

variable {cipher codecs} {snapshot : Snapshot} {draw : String → Except String Nonce}

/-- A secret is opened by the key it was sealed with. -/
theorem openRow_sealRow (hcipher : cipher.Lawful) (row : String × Secret) {nonce : Nonce}
    (hnonce : draw row.1 = .ok nonce) : ∃ sealed, sealRow cipher key draw row = .ok sealed ∧
      sealed.1 = row.1 ∧ openRow cipher key sealed = .ok row := by
  obtain ⟨ciphertext, hencrypt, hdecrypt⟩ :=
    hcipher key nonce row.2.expose (Text.bytes row.1)
  refine ⟨(row.1, ⟨nonce.bytes, ciphertext⟩), ?_, rfl, ?_⟩
  · simp [sealRow, Cipher.sealing, hnonce, hencrypt, mapError_ok]
  · simp [openRow, Cipher.opening, nonce.length_eq, hdecrypt, mapError_ok]

theorem readJoin_joinRow (row : String × JoinRecord) : readJoin (joinRow row) = row := by
  simp [readJoin, joinRow, Function.comp_def]

/-- An order whose documents survive is read back. -/
theorem readOrder_orderRow {row : String × OrderRecord} (hnames : codecs.names.Carries row.2.names)
    (hanswers : codecs.answers.Carries row.2.answers) :
    ∃ written, orderRow codecs row = .ok written ∧ written.1 = row.1 ∧
      readOrder codecs written = .ok row := by
  obtain ⟨names, hnames, hnamesRead⟩ := hnames
  obtain ⟨answers, hanswers, hanswersRead⟩ := hanswers
  refine ⟨_, by simp [orderRow, hnames, hanswers, mapError_ok]; rfl, rfl, ?_⟩
  simp [readOrder, OrderChallenge.fromKey_key, found_some, hnamesRead, hanswersRead, mapError_ok,
    Function.comp_def]

/-- Rows that are written under their own keys, and each of which leads back, lead back together. -/
theorem rows_lead_back {α β γ : Type} [DecidableEq α] {e : α ≃ String}
    {m : Finmap fun _ : α => β} {written : String × β → Except Error (String × γ)}
    {back : String × γ → Except Error (String × β)}
    (h : ∀ row ∈ Keyed.rows e m, ∃ other, written row = .ok other ∧ other.1 = row.1 ∧
      back other = .ok row) :
    ∃ others, (Keyed.rows e m).mapM written = .ok others ∧
      (Keyed.ordered others).mapM back = .ok (Keyed.rows e m) := by
  obtain ⟨others, hothers, hrows⟩ := mapM_forall₂ h
  have hkeys : others.map Prod.fst = (Keyed.rows e m).map Prod.fst := by
    rw [← List.forall₂_eq_eq_eq, List.forall₂_map_left_iff, List.forall₂_map_right_iff]
    exact hrows.flip.imp fun _ _ hrow => hrow.1
  refine ⟨others, hothers, ?_⟩
  rw [Keyed.ordered_of_keys hkeys]
  exact mapM_of_forall₂ (hrows.imp fun _ _ hrow => hrow.2)

/-- The tables of a state can be written and are read back as the state. -/
theorem readTables_stateTables (hcipher : cipher.Lawful)
    (hdraw : ∀ id, ∃ nonce, draw id = .ok nonce) (hcarried : Carried codecs snapshot) :
    ∃ text sealed orders, document codecs snapshot.config = .ok text ∧
      (Keyed.rows SecretId.key snapshot.secrets).mapM (sealRow cipher key draw) = .ok sealed ∧
      (Keyed.rows CertificateId.key snapshot.orders).mapM (orderRow codecs) = .ok orders ∧
      ∀ now, readTables cipher codecs key (stateTables text sealed orders snapshot now) =
        .ok (some snapshot) := by
  obtain ⟨text, hwritten, hread⟩ := hcarried.config
  obtain ⟨sealed, hsealed, hopened⟩ := rows_lead_back (m := snapshot.secrets)
    (e := SecretId.key) fun row _ =>
      openRow_sealRow key hcipher row (hdraw row.1).choose_spec
  obtain ⟨orders, horders, hordersRead⟩ := rows_lead_back (m := snapshot.orders)
    (e := CertificateId.key) fun row hrow => readOrder_orderRow
      (hcarried.names _ _ (Keyed.mem_rows.mp hrow)) (hcarried.answers _ _ (Keyed.mem_rows.mp hrow))
  have hjoins : (Keyed.ordered ((Keyed.rows TokenId.key snapshot.joins).map joinRow)).map readJoin =
      Keyed.rows TokenId.key snapshot.joins := by
    rw [Keyed.ordered_of_keys (by rw [List.map_map]; rfl), List.map_map]
    refine (List.map_congr_left fun row _ => ?_).trans (List.map_id _)
    exact readJoin_joinRow row
  refine ⟨text, sealed, orders, ?_, hsealed, horders, ?_⟩
  · rw [document, hwritten]
    rfl
  · intro now
    simp only [readTables, stateTables, hread, hopened, hordersRead, hjoins, mapError_ok, ok_bind,
      Keyed.ofRows_rows, Keyed.ofMembers_members, Option.map_map]
    simp [Function.comp_def]

/-- A state that was written is read back. -/
theorem read_writeVersion (database : Database) (hcipher : cipher.Lawful)
    (hdraw : ∀ id, ∃ nonce, draw id = .ok nonce) (hcarried : Carried codecs snapshot)
    (change : Change) (restored : Option VersionId) (now : ℤ) (markers : List (String × String))
    (audit : List AuditRecord) :
    ∃ next id, database.writeVersion cipher codecs key draw snapshot change restored now markers
        audit = .ok (next, id) ∧ next.read cipher codecs key = .ok (some snapshot) := by
  obtain ⟨text, sealed, orders, htext, hsealed, horders, hread⟩ :=
    readTables_stateTables key hcipher hdraw hcarried
  refine ⟨database.recorded (stateTables text sealed orders snapshot now)
    (database.appended text snapshot change restored now) change now markers audit,
    ⟨database.nextVersion⟩, ?_, hread now⟩
  simp only [writeVersion, htext, hsealed, horders, ok_bind]

/-- A version that came in is read out as it was. -/
theorem readVersion_versionRow (version : StoredVersion) :
    readVersion (versionRow version) = .ok version := by
  have hlt : version.schemaVersion.toNat < 2 ^ 32 := version.schemaVersion.toNat_lt
  have hbound : (version.schemaVersion.toNat : ℤ) < 4294967296 := by omega
  simp [readVersion, versionRow, hbound, Function.comp_def]

/-- Versions whose numbers ascend. -/
def Ascending (versions : List StoredVersion) : Prop :=
  versions.Pairwise fun older newer => older.id.get < newer.id.get

/-- The tables of a state that came in are read back as the state. -/
theorem readTables_importedTables (hcipher : cipher.Lawful)
    (hdraw : ∀ id, ∃ nonce, draw id = .ok nonce) {snapshot : Option Snapshot}
    (hcarried : ∀ state ∈ snapshot, Carried codecs state) (now : ℤ) :
    ∃ tables, importedTables cipher codecs key draw now snapshot = .ok tables ∧
      readTables cipher codecs key tables = .ok snapshot := by
  cases snapshot with
  | none => exact ⟨_, rfl, rfl⟩
  | some snapshot =>
    obtain ⟨text, sealed, orders, htext, hsealed, horders, hread⟩ :=
      readTables_stateTables key hcipher hdraw (hcarried snapshot rfl)
    refine ⟨_, ?_, hread now⟩
    simp only [importedTables, htext, hsealed, horders, ok_bind]

/-- Everything that came in is read out as it was, as long as its versions are in order. -/
theorem exported_imported (database : Database) {state : FullState} (hcipher : cipher.Lawful)
    (hdraw : ∀ id, ∃ nonce, draw id = .ok nonce)
    (hcarried : ∀ snapshot ∈ state.snapshot, Carried codecs snapshot)
    (hascending : Ascending state.versions) (now : ℤ) (markers : List (String × String)) :
    ∃ next, database.imported cipher codecs key draw state now markers = .ok next ∧
      next.exported cipher codecs key = .ok state := by
  obtain ⟨tables, htables, hread⟩ := readTables_importedTables key hcipher hdraw hcarried now
  have hnodup : (state.versions.map fun version => version.id.get).Nodup :=
    List.pairwise_map.mpr (hascending.imp Int.ne_of_lt)
  have hversions : (Keyed.ordered (state.versions.map versionRow)).mapM readVersion =
      .ok state.versions := by
    have hordered : (state.versions.map versionRow).Pairwise
        fun first second => first.1 ≤ second.1 :=
      List.pairwise_map.mpr (hascending.imp Int.le_of_lt)
    rw [Keyed.ordered, hordered.insertionSort_eq]
    exact mapM_of_forall₂ (List.forall₂_map_right_iff.mpr
      (List.forall₂_same.mpr fun version _ => readVersion_versionRow version))
  refine ⟨database.replaced tables state markers, ?_, ?_⟩
  · rw [imported, htables, ok_bind, ensure, if_pos hnodup]
    rfl
  · simp only [exported, read, replaced, hread, hversions, ok_bind]

end

end Database

end EkEk.Store
