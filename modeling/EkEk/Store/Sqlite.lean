import EkEk.Store.Snapshot
import Mathlib.Data.List.Sort

/-!
# The version log

Reference: `crates/ek-ek-store/src/sqlite.rs` and `version.rs`.

A store keeps the current state, a log of the configurations it has held, and an audit log. Every
write replaces the state whole, appends one version and prunes the log to its limit, all in one
transaction. A rollback is such a write: the configuration comes from a kept version and everything
else, certificates included, from the current state.

The stored documents are kept as the configurations they read back to, and the key material as it was
before sealing. A store numbers its versions one after the other (`Numbered`), and what one store reads
out can replace what another one holds (`imported_exported`).
-/

namespace EkEk.Store

/-- How many versions are kept. -/
def maxVersions : ℕ := 100

/-- The audit action a pruned version leaves. -/
def prunedAction : String := "version.pruned"

@[ext]
structure VersionId where
  get : ℤ
deriving DecidableEq, Repr

/-- One entry of the version log, with the configuration it holds. -/
structure Version where
  id : VersionId
  recordedAtUnix : ℤ
  author : String
  description : String
  schemaVersion : SchemaVersion
  restoredFrom : Option VersionId
  document : Config
deriving DecidableEq, Repr

inductive ErrorKind where
  | storage
  | decryption
  | serialisation
  | unknownVersion
  | schemaMismatch
deriving DecidableEq, Repr

structure Error where
  kind : ErrorKind
  diagnostic : String
deriving DecidableEq, Repr

/-- Everything a node must hold to be identical to its peers: its state, and the version log and the
audit log with the oldest first. -/
structure FullState where
  snapshot : Option Snapshot
  versions : List Version
  audit : List AuditRecord
deriving DecidableEq

/-- A store: its current state, the version log with the newest first, the number the next version
gets, the audit log with the oldest first, and the schema it reads. -/
structure SqliteStore where
  state : Option Snapshot
  versions : List Version
  nextVersion : ℤ
  audit : List AuditRecord
  target : SchemaVersion

namespace SqliteStore

/-- A store nothing was written to. -/
def create (target : SchemaVersion) : SqliteStore where
  state := none
  versions := []
  nextVersion := 1
  audit := []
  target := target

/-- The version a write appends. -/
def appended (store : SqliteStore) (snapshot : Snapshot) (change : Change)
    (restored : Option VersionId) (now : ℤ) : Version where
  id := ⟨store.nextVersion⟩
  recordedAtUnix := now
  author := change.author
  description := change.description
  schemaVersion := snapshot.config.schemaVersion
  restoredFrom := restored
  document := snapshot.config

/-- What pruning one version writes into the audit log. -/
def pruning (change : Change) (now : ℤ) (version : Version) : AuditRecord where
  recordedAtUnix := now
  actor := change.author
  action := prunedAction
  subject := some (toString version.id.get)
  detail := some s!"retention limit {maxVersions}"

/-- Replace the state, append a version and prune the log, in one transaction. -/
def writeVersion (store : SqliteStore) (snapshot : Snapshot) (change : Change)
    (restored : Option VersionId) (now : ℤ) (audit : List AuditRecord) : SqliteStore × VersionId :=
  let version := store.appended snapshot change restored now
  let versions := version :: store.versions
  ({ store with
      state := some snapshot
      versions := versions.take maxVersions
      nextVersion := store.nextVersion + 1
      audit := store.audit ++ (versions.drop maxVersions).map (pruning change now) ++ audit },
    version.id)

/-- Apply one replicated write. -/
def applyWrite (store : SqliteStore) (snapshot : Snapshot) (change : Change) (now : ℤ)
    (audit : List AuditRecord) : SqliteStore × VersionId :=
  store.writeVersion snapshot change none now audit

/-- A kept version, by its number. -/
def version (store : SqliteStore) (id : VersionId) : Option Version :=
  store.versions.find? fun version => version.id = id

/-- The state a rollback writes: the restored configuration with everything that is not the
operator's taken from the current state. -/
def rolledBack (current : Snapshot) (restored : Config) : Snapshot :=
  { current with config := { restored with certificates := current.config.certificates } }

/-- The refusal of a version that is not in the log. -/
def unknownVersion (id : VersionId) : Error :=
  ⟨.unknownVersion, s!"version {id.get} is not in the log"⟩

/-- The state a rollback to a version would write, or why there is none. -/
def restoring (store : SqliteStore) (id : VersionId) : Except Error Snapshot :=
  match store.version id with
  | none => .error (unknownVersion id)
  | some version =>
    if version.schemaVersion ≠ store.target then
      .error ⟨.schemaMismatch, s!"version {id.get} was written against schema " ++
        s!"{version.schemaVersion.get} and this store reads {store.target.get}"⟩
    else
      match store.state with
      | none => .error ⟨.unknownVersion, "there is no current state to roll back from"⟩
      | some current => .ok (rolledBack current version.document)

/-- Return to the configuration an earlier version holds. -/
def rollBackTo (store : SqliteStore) (id : VersionId) (change : Change) (now : ℤ) :
    Except Error (SqliteStore × VersionId) :=
  (store.restoring id).map fun snapshot => store.writeVersion snapshot change (some id) now []

/-! ### The whole of a store -/

/-- Everything a node holds that its peers have to hold too, oldest first. -/
def exported (store : SqliteStore) : FullState := ⟨store.state, store.versions.reverse, store.audit⟩

/-- The number behind all that were ever given, once versions came in under their own numbers. -/
def nextAfter (next : ℤ) (versions : List Version) : ℤ :=
  versions.foldl (fun next version => max next (version.id.get + 1)) next

/-- Replace everything a store holds. Versions keep their numbers, and no two may have the same. The
counter never goes back, since removing rows does not reset it. -/
def imported (store : SqliteStore) (state : FullState) : Except Error SqliteStore :=
  if (state.versions.map fun version => version.id).Nodup then
    .ok { store with
      state := state.snapshot
      versions := state.versions.insertionSort fun first second => second.id.get ≤ first.id.get
      nextVersion := nextAfter store.nextVersion state.versions
      audit := state.audit }
  else .error ⟨.storage, "a version could not be written"⟩

/-- What a rollback that succeeds has found. -/
theorem restoring_eq_ok {store : SqliteStore} {id : VersionId} {snapshot : Snapshot}
    (h : store.restoring id = .ok snapshot) :
    ∃ version current, store.version id = some version ∧ version.schemaVersion = store.target ∧
      store.state = some current ∧ snapshot = rolledBack current version.document := by
  rw [restoring] at h
  split at h
  · nomatch h
  · rename_i version hversion
    split at h
    · nomatch h
    · rename_i hschema
      split at h
      · nomatch h
      · rename_i current hstate
        exact ⟨version, current, hversion, not_not.mp hschema, hstate, (Except.ok.inj h).symm⟩

section

variable {store : SqliteStore} {id : VersionId} {version : Version}

theorem restoring_unknown (h : store.version id = none) :
    store.restoring id = .error (unknownVersion id) := by
  rw [restoring, h]

theorem restoring_mismatch (h : store.version id = some version)
    (hschema : version.schemaVersion ≠ store.target) : ∃ error, store.restoring id = .error error := by
  rw [restoring, h]
  exact ⟨_, if_pos hschema⟩

theorem restoring_stateless (h : store.version id = some version)
    (hschema : version.schemaVersion = store.target) (hstate : store.state = none) :
    store.restoring id = .error ⟨.unknownVersion, "there is no current state to roll back from"⟩ := by
  rw [restoring, h]
  dsimp only
  rw [if_neg (not_not.mpr hschema), hstate]

theorem restoring_current (h : store.version id = some version)
    (hschema : version.schemaVersion = store.target) {current : Snapshot}
    (hstate : store.state = some current) :
    store.restoring id = .ok (rolledBack current version.document) := by
  rw [restoring, h]
  dsimp only
  rw [if_neg (not_not.mpr hschema), hstate]

end

/-! ### The numbers of the versions -/

/-- Versions whose numbers ascend, as they are read out. -/
def Ascending (versions : List Version) : Prop :=
  versions.Pairwise fun older newer => older.id.get < newer.id.get

/-- A store numbers its versions one after the other: the numbers descend from the newest version on,
and the next number is the one behind it. -/
structure Numbered (store : SqliteStore) : Prop where
  ascending : Ascending store.versions.reverse
  next : store.nextVersion = store.versions.head?.elim 1 fun version => version.id.get + 1
  positive : 1 ≤ store.nextVersion

theorem nodup_of_ascending {versions : List Version} (h : Ascending versions) :
    (versions.map fun version => version.id).Nodup := by
  refine List.pairwise_map.mpr (h.imp fun hlt heq => ?_)
  rw [heq] at hlt
  omega

/-- Rows that came in by ascending numbers are read newest first by turning them around. -/
theorem insertionSort_of_ascending {versions : List Version} (h : Ascending versions) :
    (versions.insertionSort fun first second => second.id.get ≤ first.id.get) = versions.reverse := by
  have hsorted : (versions.insertionSort
      fun first second => second.id.get ≤ first.id.get).Pairwise
        fun first second => second.id.get ≤ first.id.get :=
    @List.pairwise_insertionSort _ (fun first second : Version => second.id.get ≤ first.id.get) _
      ⟨fun first second => Int.le_total second.id.get first.id.get⟩
      ⟨fun _ _ _ hfirst hsecond => Int.le_trans hsecond hfirst⟩ versions
  have hreverse : versions.reverse.Pairwise fun first second => second.id.get ≤ first.id.get :=
    List.pairwise_reverse.mpr (h.imp Int.le_of_lt)
  have hnodup := nodup_of_ascending h
  refine List.Perm.eq_of_pairwise ?_ hsorted hreverse
    ((List.perm_insertionSort _ versions).trans (List.reverse_perm versions).symm)
  intro first second hfirst hsecond hle hge
  refine List.inj_on_of_nodup_map hnodup ((List.mem_insertionSort _).mp hfirst)
    (List.mem_reverse.mp hsecond) ?_
  exact VersionId.ext (Int.le_antisymm hge hle)

/-- The number behind versions that ascend is the one behind the newest. -/
theorem nextAfter_of_ascending {versions : List Version} (h : Ascending versions) (next : ℤ) :
    nextAfter next versions =
      versions.getLast?.elim next fun version => max next (version.id.get + 1) := by
  induction versions using List.reverseRecOn generalizing next with
  | nil => rfl
  | append_singleton versions last ih =>
    obtain ⟨hbefore, -, hlast⟩ := List.pairwise_append.mp h
    rw [nextAfter, List.foldl_append, List.getLast?_append_of_ne_nil _ (by simp)]
    show max (nextAfter next versions) (last.id.get + 1) = max next (last.id.get + 1)
    rw [ih hbefore]
    cases hnewest : versions.getLast? with
    | none => rfl
    | some newest =>
      have hlt := hlast newest (List.mem_of_getLast? hnewest) last (List.mem_singleton.mpr rfl)
      show max (max next (newest.id.get + 1)) (last.id.get + 1) = max next (last.id.get + 1)
      omega

theorem Numbered.create (target : SchemaVersion) : Numbered (.create target) :=
  ⟨List.Pairwise.nil, rfl, Int.le_refl 1⟩

/-- Every number a store holds is below the next one. -/
theorem Numbered.below {store : SqliteStore} (h : Numbered store) {version : Version}
    (hversion : version ∈ store.versions) : version.id.get < store.nextVersion := by
  have hnext := h.next
  have hascending := List.pairwise_reverse.mp h.ascending
  cases hversions : store.versions with
  | nil =>
    rw [hversions] at hversion
    nomatch hversion
  | cons newest rest =>
    rw [hversions] at hversion hnext hascending
    rw [hnext]
    show version.id.get < newest.id.get + 1
    rcases List.mem_cons.mp hversion with rfl | hrest
    · omega
    · have hlt := (List.pairwise_cons.mp hascending).1 version hrest
      omega

theorem Numbered.writeVersion {store : SqliteStore} (h : Numbered store) (snapshot : Snapshot)
    (change : Change) (restored : Option VersionId) (now : ℤ) (audit : List AuditRecord) :
    Numbered (store.writeVersion snapshot change restored now audit).1 := by
  have hpositive := h.positive
  refine ⟨?_, rfl, ?_⟩
  · refine List.pairwise_reverse.mpr (List.Pairwise.sublist (List.take_sublist maxVersions _) ?_)
    exact List.pairwise_cons.mpr ⟨fun version hversion => h.below hversion, List.pairwise_reverse.mp h.ascending⟩
  · show 1 ≤ store.nextVersion + 1
    omega

/-- What one store reads out can replace another, and comes back out as it was. The next number is the
same on both where the counter of the other was not past it. -/
theorem imported_exported {own source : SqliteStore} (h : Numbered source)
    (hpositive : 1 ≤ own.nextVersion) (hnext : own.nextVersion ≤ source.nextVersion) :
    ∃ store, own.imported source.exported = .ok store ∧ store.exported = source.exported ∧
      store.nextVersion = source.nextVersion := by
  refine ⟨_, if_pos (nodup_of_ascending h.ascending), ?_, ?_⟩
  · simp [exported, insertionSort_of_ascending h.ascending]
  · show nextAfter own.nextVersion source.versions.reverse = source.nextVersion
    rw [nextAfter_of_ascending h.ascending, List.getLast?_reverse]
    have hcounter := h.next
    cases hnewest : source.versions.head? with
    | none =>
      rw [hnewest] at hcounter
      exact Int.le_antisymm hnext (hcounter ▸ hpositive)
    | some newest =>
      rw [hnewest] at hcounter
      show max own.nextVersion (newest.id.get + 1) = source.nextVersion
      rw [hcounter] at hnext ⊢
      exact max_eq_right hnext

end SqliteStore

end EkEk.Store
