import EkEk.Raft.Building
import EkEk.Raft.LogStore
import EkEk.Raft.Wire
import EkEk.Store.Refinement

/-!
# The store of consensus

Reference: `keep` of `crates/ek-ek-raft/src/log.rs`, `build_snapshot`, `apply` and `install_snapshot` of
`machine.rs`, and the writes of `crates/ek-ek-store/src/sqlite.rs`.

Everything consensus puts on a disk, over the tables of one database: records of the log, entries that
are applied, snapshots that are built or installed, and the writes and imports of the store. Entries and
states are there as they travel, and markers as their JSON.

`Holds` says that a database is read as a replica. `Holds.log` and `Holds.install` are the simulation:
entries that are applied, or a snapshot that is imported, leave what `Replica.after` says.
-/

namespace EkEk.Raft

open Store Checked

/-! ## What consensus puts on a disk -/

/-- One replicated write, as it travels. -/
structure WireRequest where
  state : WireSnapshot
  change : WireChange
  nowUnix : ℤ
  audit : List WireAudit
deriving DecidableEq

/-- What an entry carries, as it travels. -/
inductive WirePayload where
  | blank
  | membership (membership : JointMembership)
  | normal (request : WireRequest)
deriving DecidableEq

/-- What a node's store works with: the cipher with the node's key, the JSON library at every type
that is written out, and how a position is displayed. -/
structure Setting where
  cipher : Cipher
  key : MasterKey
  codecs : Codecs
  log : Codec WirePayload
  membership : Serde StoredMembership
  about : Serde SnapshotMeta
  state : Serde WireState
  display : LogId → String

namespace Setting

variable (setting : Setting)

/-- Read a marker of the machine. -/
def readMarker {T : Type} (serde : Serde T) (database : Database) (name : String) :
    Except Fault (Option T) :=
  match database.journal.marker name with
  | none => .ok none
  | some held => (serde.fromStr held).map some |>.mapError .readStateMachine

/-- The markers that follow an applied entry. -/
def markers (applied : LogId) (membership : Option StoredMembership) :
    Except Fault (List (String × String)) := do
  let applied ← (setting.log.logId.toString applied).mapError .writeStateMachine
  match membership with
  | none => .ok [(Marker.applied, applied)]
  | some membership =>
    let membership ← (setting.membership.toString membership).mapError .writeStateMachine
    .ok [(Marker.applied, applied), (Marker.membership, membership)]

/-- Keep entries in the log. -/
def keep (database : Database) (entries : List (Entry WirePayload)) : Except Fault Database := do
  let journal ← LogStore.keep setting.log database.journal entries
  .ok { database with journal := journal }

/-- Apply an entry. -/
def applied (database : Database) (draw : String → Except String Nonce) (entry : Entry WirePayload) :
    Except Fault Database :=
  match entry.payload with
  | .blank => do
    let written ← setting.markers entry.logId none
    .ok { database with journal := Database.setMarkers database.journal written }
  | .membership membership => do
    let written ← setting.markers entry.logId (some ⟨some entry.logId, membership⟩)
    .ok { database with journal := Database.setMarkers database.journal written }
  | .normal request => do
    let written ← setting.markers entry.logId none
    let (next, _) ← (database.writeVersion setting.cipher setting.codecs setting.key draw
      request.state.snapshot request.change.change none request.nowUnix written
      (request.audit.map WireAudit.record)).mapError fun error => .apply entry.logId error.diagnostic
    .ok next

/-- Apply entries one after the other, each with what is drawn for it, up to the first that fails. -/
def appliedAll (database : Database)
    (entries : List (Entry WirePayload × (String → Except String Nonce))) : Except Fault Database :=
  entries.foldlM (fun database entry => setting.applied database entry.2 entry.1) database

/-- Build a snapshot and keep it. -/
def buildSnapshot (database : Database) : Except Fault Database := do
  let state ← (database.exported setting.cipher setting.codecs setting.key).mapError fun error =>
    .readStateMachine error.diagnostic
  let applied ← readMarker setting.log.logId database Marker.applied
  let membership ← readMarker setting.membership database Marker.membership
  let payload ← (setting.state.toString (.of state)).mapError .writeSnapshot
  let about ← (setting.about.toString (System.described setting.display applied
    (membership.getD .default))).mapError .writeSnapshot
  .ok { database with journal := database.journal.setSnapshot about (Text.bytes payload) }

/-- The state a snapshot carries. -/
def parsed (payload : List UInt8) : Except Fault WireState :=
  match Text.fromUtf8 payload with
  | none => .error (.readSnapshot "invalid unicode code point")
  | some text => (setting.state.fromStr text).mapError .readSnapshot

/-- The markers a snapshot comes with, where it says which position it was taken at. -/
def installMarkers (about : SnapshotMeta) : Except Fault (List (String × String)) :=
  match about.lastLogId with
  | none => .ok []
  | some applied => setting.markers applied (some about.lastMembership)

/-- The first transaction of an install: everything the node holds is replaced. -/
def importing (database : Database) (draw : String → Except String Nonce) (now : ℤ)
    (about : SnapshotMeta) (payload : List UInt8) : Except Fault Database := do
  let wire ← setting.parsed payload
  let written ← setting.installMarkers about
  (database.imported setting.cipher setting.codecs setting.key draw wire.state now written).mapError
    fun error => .writeStateMachine error.diagnostic

/-- The second transaction of an install: the snapshot is kept as it came. -/
def keepingSnapshot (database : Database) (about : SnapshotMeta) (payload : List UInt8) :
    Except Fault Database := do
  let about ← (setting.about.toString about).mapError .writeSnapshot
  .ok { database with journal := database.journal.setSnapshot about payload }

end Setting

/-- What is asked of a node's store, with what is drawn and the time it is done at. -/
inductive Operation where
  | append (entries : List (Entry WirePayload))
  | apply (entry : Entry WirePayload) (draw : String → Except String Nonce)
  | buildSnapshot
  | installSnapshot (about : SnapshotMeta) (payload : List UInt8)
      (draw : String → Except String Nonce) (now : ℤ)
  | write (snapshot : Snapshot) (change : Change) (draw : String → Except String Nonce) (now : ℤ)
  | importState (state : Database.FullState) (markers : List (String × String))
      (draw : String → Except String Nonce) (now : ℤ)

namespace Setting

variable (setting : Setting)

/-- What is on the disk behind a transaction: one that failed has left nothing. -/
def left {ε : Type} (database : Database) : Except ε Database → Database
  | .ok next => next
  | .error _ => database

/-- What is on the disk behind an operation. -/
def step (database : Database) : Operation → Database
  | .append entries => left database (setting.keep database entries)
  | .apply entry draw => left database (setting.applied database draw entry)
  | .buildSnapshot => left database (setting.buildSnapshot database)
  | .installSnapshot about payload draw now =>
    match setting.importing database draw now about payload with
    | .error _ => database
    | .ok next => left next (setting.keepingSnapshot next about payload)
  | .write snapshot change draw now =>
    left database ((database.write setting.cipher setting.codecs setting.key draw snapshot change
      now).map Prod.fst)
  | .importState state markers draw now =>
    left database (database.imported setting.cipher setting.codecs setting.key draw state now markers)

end Setting

/-! ## The disk and the replica on it -/

/-- What an entry carries, where it is applied. -/
def arrived (entry : Entry WirePayload) : Entry EntryPayload where
  logId := entry.logId
  payload :=
    match entry.payload with
    | .blank => .blank
    | .membership membership => .membership membership
    | .normal request => .normal ⟨request.state.snapshot, request.change.change, request.nowUnix,
        request.audit.map WireAudit.record⟩

namespace Setting

variable (setting : Setting)

/-- A database that is read as a replica. -/
structure Holds (database : Database) (replica : Replica) : Prop where
  store : Database.Represents setting.cipher setting.codecs setting.key database replica.store
  applied : readMarker setting.log.logId database Marker.applied = .ok replica.applied
  membership : ∃ held, readMarker setting.membership database Marker.membership = .ok held ∧
    held.getD .default = replica.membership

/-- What is written for an entry that is applied survives being written out. -/
def Arrives (entry : Entry WirePayload) : Prop :=
  setting.log.logId.Carries entry.logId ∧
    match entry.payload with
    | .blank => True
    | .membership membership => setting.membership.Carries ⟨some entry.logId, membership⟩
    | .normal request => Database.Carried setting.codecs request.state.snapshot

variable {setting} {database : Database} {replica : Replica}

/-- A marker that was kept is read. -/
theorem readMarker_of_lookup {T : Type} {serde : Serde T} {name text : String} {value : T}
    (hlookup : database.journal.marker name = some text) (hread : serde.fromStr text = .ok value) :
    readMarker serde database name = .ok (some value) := by
  rw [readMarker, hlookup]
  simp only [hread]
  rfl

/-- A database nothing was written to is read as an empty replica. -/
theorem Holds.create (target : SchemaVersion) :
    setting.Holds .create ⟨.create target, none, .default⟩ :=
  ⟨.create target, rfl, none, rfl, rfl⟩

/-- A database that holds a store, and the markers of a position alone, is read as the replica with the
position moved. -/
theorem Holds.moved {next : Database} {store : SqliteStore} {id : LogId} {text : String}
    (h : setting.Holds database replica)
    (hstore : Database.Represents setting.cipher setting.codecs setting.key next store)
    (hread : setting.log.logId.fromStr text = .ok id)
    (hjournal : next.journal = Database.setMarkers database.journal [(Marker.applied, text)]) :
    setting.Holds next ⟨store, some id, replica.membership⟩ := by
  refine ⟨hstore, readMarker_of_lookup ?_ hread, ?_⟩
  · rw [hjournal]
    exact Finmap.lookup_insert _
  · obtain ⟨held, hheld, hmembership⟩ := h.membership
    have hkept : next.journal.marker Marker.membership =
        database.journal.marker Marker.membership := by
      rw [hjournal]
      exact Finmap.lookup_insert_of_ne _ (by decide : Marker.membership ≠ Marker.applied)
    refine ⟨held, ?_, hmembership⟩
    rw [readMarker, hkept]
    exact hheld

/-- A database that holds a store and the markers of a position with its membership is read as the
replica they are of. -/
theorem holds_of_markers {next : Database} {store : SqliteStore} {id : LogId} {text : String}
    {membership : StoredMembership} {membershipText : String} (journal : Journal)
    (hstore : Database.Represents setting.cipher setting.codecs setting.key next store)
    (hread : setting.log.logId.fromStr text = .ok id)
    (hmembership : setting.membership.fromStr membershipText = .ok membership)
    (hjournal : next.journal = Database.setMarkers journal
      [(Marker.applied, text), (Marker.membership, membershipText)]) :
    setting.Holds next ⟨store, some id, membership⟩ := by
  refine ⟨hstore, readMarker_of_lookup ?_ hread, some membership, readMarker_of_lookup ?_ hmembership,
    rfl⟩
  · rw [hjournal]
    exact (Finmap.lookup_insert_of_ne _ (by decide : Marker.applied ≠ Marker.membership)).trans
      (Finmap.lookup_insert _)
  · rw [hjournal]
    exact Finmap.lookup_insert _

/-- Applying an entry leaves what the entry means. -/
theorem Holds.apply (h : setting.Holds database replica) (hnumbered : replica.store.Numbered)
    (hcipher : setting.cipher.Lawful) {draw : String → Except String Nonce}
    (hdraw : ∀ id, ∃ nonce, draw id = .ok nonce) {entry : Entry WirePayload}
    (harrives : setting.Arrives entry) :
    ∃ next, setting.applied database draw entry = .ok next ∧
      setting.Holds next (replica.after (.apply (arrived entry))) := by
  obtain ⟨id, payload⟩ := entry
  obtain ⟨⟨text, hwritten, hread⟩, hcarried⟩ := harrives
  cases payload with
  | blank =>
    have hstore := h.store.journaled
      (Database.setMarkers database.journal [(Marker.applied, text)])
    refine ⟨_, ?_, h.moved hstore hread rfl⟩
    simp only [Setting.applied, markers, hwritten, mapError_ok, ok_bind]
  | membership membership =>
    obtain ⟨membershipText, hmembershipWritten, hmembershipRead⟩ := hcarried
    have hstore := h.store.journaled (Database.setMarkers database.journal
      [(Marker.applied, text), (Marker.membership, membershipText)])
    refine ⟨_, ?_, holds_of_markers database.journal hstore hread hmembershipRead rfl⟩
    simp only [Setting.applied, markers, hwritten, hmembershipWritten, mapError_ok, ok_bind]
  | normal request =>
    obtain ⟨next, hnext, hstore⟩ := h.store.writeVersion hnumbered hcipher hdraw hcarried
      request.change.change none request.nowUnix [(Marker.applied, text)]
      (request.audit.map WireAudit.record)
    refine ⟨next, ?_, h.moved hstore hread (Database.journal_writeVersion hnext)⟩
    simp only [Setting.applied, markers, hwritten, mapError_ok, ok_bind, hnext]

/-- Applying a log leaves what its entries mean, one after the other. -/
theorem Holds.log {entries : List (Entry WirePayload × (String → Except String Nonce))}
    (h : setting.Holds database replica) (hnumbered : replica.store.Numbered)
    (hcipher : setting.cipher.Lawful)
    (hdraw : ∀ entry ∈ entries, ∀ id, ∃ nonce, entry.2 id = .ok nonce)
    (harrives : ∀ entry ∈ entries, setting.Arrives entry.1) :
    ∃ next, setting.appliedAll database entries = .ok next ∧
      setting.Holds next ((entries.map fun entry => Step.apply (arrived entry.1)).foldl
        Replica.after replica) := by
  induction entries generalizing database replica with
  | nil => exact ⟨database, rfl, h⟩
  | cons entry rest ih =>
    obtain ⟨next, hnext, hholds⟩ := h.apply hnumbered hcipher (hdraw entry List.mem_cons_self)
      (harrives entry List.mem_cons_self)
    have hlater : (replica.after (.apply (arrived entry.1))).store.Numbered := by
      rw [Replica.store_after]
      exact numbered_entered hnumbered _
    obtain ⟨final, hfinal, hlast⟩ := ih hholds hlater
      (fun other hother => hdraw other (List.mem_cons_of_mem _ hother))
      (fun other hother => harrives other (List.mem_cons_of_mem _ hother))
    refine ⟨final, ?_, hlast⟩
    rw [appliedAll, List.foldlM_cons, hnext]
    exact hfinal

/-- Importing a snapshot that says which position it was taken at leaves what the snapshot means. -/
theorem Holds.install (h : setting.Holds database replica) (hcipher : setting.cipher.Lawful)
    {draw : String → Except String Nonce} (hdraw : ∀ id, ∃ nonce, draw id = .ok nonce)
    {about : SnapshotMeta} {id : LogId} (hplaced : about.lastLogId = some id)
    (hid : setting.log.logId.Carries id) (hmembership : setting.membership.Carries about.lastMembership)
    {payload : List UInt8} {wire : WireState} (hparsed : setting.parsed payload = .ok wire)
    {full : FullState} (hstands : Database.Stands setting.codecs wire.state full)
    (hcarried : ∀ snapshot ∈ wire.state.snapshot, Database.Carried setting.codecs snapshot)
    (hascending : SqliteStore.Ascending full.versions) (now : ℤ) :
    ∃ next, setting.importing database draw now about payload = .ok next ∧
      setting.Holds next (replica.after (.install about full)) := by
  obtain ⟨text, hwritten, hread⟩ := hid
  obtain ⟨membershipText, hmembershipWritten, hmembershipRead⟩ := hmembership
  obtain ⟨next, store, hnext, himported, hstore⟩ := h.store.imported hcipher hdraw hstands hcarried
    hascending now [(Marker.applied, text), (Marker.membership, membershipText)]
  refine ⟨next, ?_, ?_⟩
  · simp only [Setting.importing, hparsed, installMarkers, hplaced, markers, hwritten,
      hmembershipWritten, mapError_ok, ok_bind, hnext]
  · simp only [Replica.after, himported, hplaced]
    exact holds_of_markers database.journal hstore hread hmembershipRead
      (Database.journal_imported hnext)

end Setting

end EkEk.Raft
