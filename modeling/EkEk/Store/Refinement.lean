import EkEk.Store.Database

/-!
# The tables keep the version log

Reference: `write_version`, `append_version`, `prune`, `export` and `import` of
`crates/ek-ek-store/src/sqlite.rs`.

`SqliteStore` is a store as the cluster sees it: a state, a log of configurations and an audit log.
`Database` is the tables they are in. A database represents a store when the store is what is read out
of it, and a write or an import of the one is followed by the other. What is proved of stores holds of
the tables for that reason.
-/

namespace EkEk.Store

open Checked

namespace Database

variable (cipher : Cipher) (codecs : Codecs) (key : MasterKey)

/-- A row of the version log keeps a version. -/
structure Keeps (row : ℤ × VersionRow) (version : Version) : Prop where
  id : row.1 = version.id.get
  recordedAt : row.2.recordedAt = version.recordedAtUnix
  author : row.2.author = version.author
  description : row.2.description = version.description
  schemaVersion : row.2.schemaVersion = version.schemaVersion.get.toNat
  restoredFrom : row.2.restoredFrom = version.restoredFrom.map VersionId.get
  document : document codecs version.document = .ok row.2.document

/-- A database whose tables are read as a store. -/
structure Represents (database : Database) (store : SqliteStore) : Prop where
  state : database.read cipher codecs key = .ok store.state
  versions : List.Forall₂ (Keeps codecs) (Keyed.ordered database.configVersion) store.versions.reverse
  next : database.nextVersion = store.nextVersion
  audit : database.auditLog = store.audit

variable {cipher codecs key} {database : Database} {store : SqliteStore}

theorem Keeps.ids {rows : List (ℤ × VersionRow)} {versions : List Version}
    (h : List.Forall₂ (Keeps codecs) rows versions) :
    rows.map Prod.fst = versions.map fun version => version.id.get := by
  induction h with
  | nil => rfl
  | cons hrow _ ih => rw [List.map_cons, List.map_cons, hrow.id, ih]

/-- Rows of different keys that are kept apart from the last ones are the first ones. -/
theorem filter_drop {β : Type} {rows : List (ℤ × β)} (h : (rows.map Prod.fst).Nodup) (n : ℕ) :
    (rows.filter fun row => row.1 ∉ (rows.drop n).map Prod.fst) = rows.take n := by
  have hsplit := List.take_append_drop n rows
  rw [← hsplit, List.map_append] at h
  obtain ⟨-, -, hapart⟩ := List.nodup_append.mp h
  have hkept : ∀ row ∈ rows.take n, row.1 ∉ (rows.drop n).map Prod.fst := by
    intro row hrow hmem
    exact hapart row.1 (List.mem_map_of_mem hrow) row.1 hmem rfl
  have hgone : ∀ row ∈ rows.drop n, ¬ row.1 ∉ (rows.drop n).map Prod.fst := by
    intro row hrow hnot
    exact hnot (List.mem_map_of_mem hrow)
  have hfilter : ∀ p : ℤ × β → Bool,
      rows.filter p = (rows.take n).filter p ++ (rows.drop n).filter p := by
    intro p
    rw [← List.filter_append, hsplit]
  rw [hfilter, List.filter_eq_self.mpr (by simpa using hkept),
    List.filter_eq_nil_iff.mpr (by simpa using hgone), List.append_nil]

theorem Represents.create (target : SchemaVersion) :
    Represents cipher codecs key .create (.create target) :=
  ⟨rfl, .nil, rfl, rfl⟩

/-- The tables of consensus are no part of what is represented. -/
theorem Represents.journaled (h : Represents cipher codecs key database store) (journal : Journal) :
    Represents cipher codecs key { database with journal := journal } store :=
  ⟨h.state, h.versions, h.next, h.audit⟩

/-- The rows of a log whose numbers ascend are of different numbers, and in order. -/
theorem Represents.numbers (h : Represents cipher codecs key database store)
    (hnumbered : store.Numbered) :
    (Keyed.ordered database.configVersion).Pairwise fun first second => first.1 < second.1 := by
  have hids := Keeps.ids h.versions
  have hascending : (store.versions.reverse.map fun version => version.id.get).Pairwise (· < ·) :=
    List.pairwise_map.mpr hnumbered.ascending
  rw [← hids] at hascending
  exact List.pairwise_map.mp hascending

/-- The log with a version that is appended: it goes behind all others. -/
theorem Represents.strict_append (h : Represents cipher codecs key database store)
    (hnumbered : store.Numbered) (row : VersionRow) :
    (Keyed.ordered database.configVersion ++ [(database.nextVersion, row)]).Pairwise
      fun first second => first.1 < second.1 := by
  refine List.pairwise_append.mpr ⟨h.numbers hnumbered, List.pairwise_singleton _ _, ?_⟩
  intro other hother last hlast
  have hid : other.1 ∈ store.versions.reverse.map fun version => version.id.get := by
    rw [← Keeps.ids h.versions]
    exact List.mem_map_of_mem hother
  obtain ⟨version, hversion, hget⟩ := List.mem_map.mp hid
  rw [List.mem_singleton.mp hlast, ← hget, h.next]
  exact hnumbered.below (List.mem_reverse.mp hversion)

section

variable {rows rows' : List (ℤ × VersionRow)}

theorem nodup_of_strict (h : rows.Pairwise fun first second => first.1 < second.1) :
    (rows.map Prod.fst).Nodup :=
  List.pairwise_map.mpr (h.imp Int.ne_of_lt)

theorem ordered_of_strict (hperm : rows.Perm rows')
    (h : rows'.Pairwise fun first second => first.1 < second.1) : Keyed.ordered rows = rows' :=
  Keyed.ordered_eq hperm ((hperm.map Prod.fst).nodup_iff.mpr (nodup_of_strict h))
    (h.imp Int.le_of_lt)

/-- Pruning removes the oldest rows. -/
theorem doomed_eq (hperm : rows.Perm rows')
    (h : rows'.Pairwise fun first second => first.1 < second.1) :
    doomed rows = (rows'.reverse.drop maxVersions).map Prod.fst := by
  rw [doomed, ordered_of_strict hperm h]

/-- Pruning leaves the newest rows. -/
theorem ordered_pruned (hperm : rows.Perm rows')
    (h : rows'.Pairwise fun first second => first.1 < second.1) :
    Keyed.ordered (rows.filter fun row => row.1 ∉ doomed rows) =
      (rows'.reverse.take maxVersions).reverse := by
  have hnodup : (rows'.reverse.map Prod.fst).Nodup :=
    ((List.reverse_perm rows').map Prod.fst).nodup_iff.mpr (nodup_of_strict h)
  have hkept : rows'.reverse.filter (fun row => row.1 ∉ doomed rows) =
      rows'.reverse.take maxVersions := by
    simp only [doomed_eq hperm h]
    exact filter_drop hnodup maxVersions
  refine ordered_of_strict ?_ ?_
  · refine ((hperm.trans (List.reverse_perm rows').symm).filter _).trans ?_
    rw [hkept]
    exact (List.reverse_perm _).symm
  · refine List.pairwise_reverse.mpr (List.Pairwise.sublist (List.take_sublist _ _) ?_)
    exact List.pairwise_reverse.mpr h

end

/-- A write to the tables is a write to the store they represent. -/
theorem Represents.writeVersion (h : Represents cipher codecs key database store)
    (hnumbered : store.Numbered) (hcipher : cipher.Lawful) {draw : String → Except String Nonce}
    (hdraw : ∀ id, ∃ nonce, draw id = .ok nonce) {snapshot : Snapshot}
    (hcarried : Carried codecs snapshot) (change : Change) (restored : Option VersionId) (now : ℤ)
    (markers : List (String × String)) (audit : List AuditRecord) :
    ∃ next, database.writeVersion cipher codecs key draw snapshot change restored now markers audit =
        .ok (next, (store.writeVersion snapshot change restored now audit).2) ∧
      Represents cipher codecs key next (store.writeVersion snapshot change restored now audit).1 := by
  obtain ⟨text, sealed, orders, htext, hsealed, horders, hread⟩ :=
    readTables_stateTables key hcipher hdraw hcarried
  have hrow : Keeps codecs (database.appended text snapshot change restored now)
      (store.appended snapshot change restored now) :=
    ⟨h.next, rfl, rfl, rfl, rfl, rfl, htext⟩
  -- the log before pruning, in the order of its numbers
  have hstrict := h.strict_append hnumbered
    (database.appended text snapshot change restored now).2
  have hperm : (database.configVersion ++ [database.appended text snapshot change restored now]).Perm
      (Keyed.ordered database.configVersion ++
        [database.appended text snapshot change restored now]) :=
    (List.perm_insertionSort _ _).symm.append_right _
  have hlog : List.Forall₂ (Keeps codecs) (Keyed.ordered database.configVersion ++
        [database.appended text snapshot change restored now]).reverse
      (store.appended snapshot change restored now :: store.versions) := by
    rw [List.reverse_append, List.reverse_singleton, List.singleton_append]
    refine .cons hrow ?_
    rw [← List.forall₂_reverse_iff, List.reverse_reverse]
    exact h.versions
  refine ⟨database.recorded (stateTables text sealed orders snapshot now)
    (database.appended text snapshot change restored now) change now markers audit, ?_, ?_⟩
  · simp only [Database.writeVersion, htext, hsealed, horders, ok_bind]
    rw [h.next]
    rfl
  · refine ⟨hread now, ?_, ?_, ?_⟩
    · show List.Forall₂ (Keeps codecs) (Keyed.ordered (List.filter _ _)) _
      rw [ordered_pruned hperm hstrict, List.forall₂_reverse_iff]
      exact List.forall₂_take maxVersions hlog
    · show database.nextVersion + 1 = store.nextVersion + 1
      rw [h.next]
    · have hids := Keeps.ids (List.forall₂_drop maxVersions hlog)
      show database.auditLog ++ (doomed _).map (pruning change now) ++ audit =
        store.audit ++ _ ++ audit
      rw [doomed_eq hperm hstrict, hids, h.audit, List.map_map]
      rfl

/-- A write keeps its markers and leaves the other tables of consensus. -/
theorem journal_writeVersion {draw : String → Except String Nonce} {snapshot : Snapshot}
    {change : Change} {restored : Option VersionId} {now : ℤ} {markers : List (String × String)}
    {audit : List AuditRecord} {next : Database} {id : VersionId}
    (h : database.writeVersion cipher codecs key draw snapshot change restored now markers audit =
      .ok (next, id)) : next.journal = setMarkers database.journal markers := by
  rw [Database.writeVersion] at h
  simp only [bind_eq_ok] at h
  obtain ⟨_, -, _, -, _, -, hnext⟩ := h
  obtain ⟨rfl, -⟩ := Prod.mk.injEq .. ▸ Except.ok.inj hnext
  rfl

/-! ### Everything a node holds -/

/-- What is read out of the tables is what is read out of a store. -/
structure Stands (codecs : Codecs) (state : FullState) (full : Store.FullState) : Prop where
  snapshot : state.snapshot = full.snapshot
  versions : List.Forall₂ (fun stored version => Keeps codecs (versionRow stored) version)
    state.versions full.versions
  audit : state.audit = full.audit

/-- A row that keeps a version is read out. -/
theorem readVersion_of_keeps {row : ℤ × VersionRow} {version : Version}
    (h : Keeps codecs row version) :
    ∃ stored, readVersion row = .ok stored ∧ versionRow stored = row := by
  obtain ⟨number, recordedAt, author, description, schemaVersion, restoredFrom, document⟩ := row
  obtain rfl : schemaVersion = version.schemaVersion.get.toNat := h.schemaVersion
  have hlt : version.schemaVersion.get.toNat < 2 ^ 32 := version.schemaVersion.get.toNat_lt
  have hbound : (version.schemaVersion.get.toNat : ℤ) < 4294967296 := by omega
  refine ⟨⟨⟨number⟩, recordedAt, author, description, version.schemaVersion.get,
    restoredFrom.map VersionId.mk, document⟩, ?_, ?_⟩
  · simp [readVersion, hbound]
  · simp [versionRow, Function.comp_def]

theorem readVersions_of_keeps {rows : List (ℤ × VersionRow)} {versions : List Version}
    (h : List.Forall₂ (Keeps codecs) rows versions) :
    ∃ stored, rows.mapM readVersion = .ok stored ∧
      List.Forall₂ (fun stored version => Keeps codecs (versionRow stored) version) stored
        versions := by
  induction h with
  | nil => exact ⟨[], rfl, .nil⟩
  | cons hrow _ ih =>
    obtain ⟨stored, hstored, hback⟩ := readVersion_of_keeps hrow
    obtain ⟨rest, hrest, hkept⟩ := ih
    refine ⟨stored :: rest, ?_, .cons (hback.symm ▸ hrow) hkept⟩
    rw [List.mapM_cons, hstored, ok_bind, hrest, ok_bind]
    rfl

/-- The tables are read out as the store they represent. -/
theorem Represents.exported (h : Represents cipher codecs key database store) :
    ∃ state, database.exported cipher codecs key = .ok state ∧
      Stands codecs state store.exported := by
  obtain ⟨stored, hstored, hkept⟩ := readVersions_of_keeps h.versions
  refine ⟨⟨store.state, stored, store.audit⟩, ?_, rfl, hkept, rfl⟩
  simp only [Database.exported, h.state, hstored, ok_bind, h.audit]

/-- An import into the tables is an import into the store they represent. -/
theorem Represents.imported (h : Represents cipher codecs key database store)
    (hcipher : cipher.Lawful) {draw : String → Except String Nonce}
    (hdraw : ∀ id, ∃ nonce, draw id = .ok nonce) {state : FullState} {full : Store.FullState}
    (hstands : Stands codecs state full)
    (hcarried : ∀ snapshot ∈ state.snapshot, Carried codecs snapshot)
    (hascending : SqliteStore.Ascending full.versions) (now : ℤ) (markers : List (String × String)) :
    ∃ next next', database.imported cipher codecs key draw state now markers = .ok next ∧
      store.imported full = .ok next' ∧ Represents cipher codecs key next next' := by
  have hkept : List.Forall₂ (Keeps codecs) (state.versions.map versionRow) full.versions :=
    List.forall₂_map_left_iff.mpr hstands.versions
  have hids : (state.versions.map fun version => version.id.get) =
      full.versions.map fun version => version.id.get := by
    rw [← Keeps.ids hkept, List.map_map]
    rfl
  have hstrict : (state.versions.map versionRow).Pairwise
      fun first second => first.1 < second.1 := by
    refine List.pairwise_map.mp ?_
    rw [Keeps.ids hkept]
    exact List.pairwise_map.mpr hascending
  have hnodup : (state.versions.map fun version => version.id.get).Nodup := by
    rw [hids]
    exact List.pairwise_map.mpr (hascending.imp Int.ne_of_lt)
  obtain ⟨tables, htables, hread⟩ := readTables_importedTables key hcipher hdraw hcarried now
  refine ⟨database.replaced tables state markers, _, ?_,
    if_pos (SqliteStore.nodup_of_ascending hascending), ?_, ?_, ?_, hstands.audit⟩
  · rw [Database.imported, htables, ok_bind, ensure, if_pos hnodup]
    rfl
  · show readTables cipher codecs key tables = .ok full.snapshot
    rw [hread, hstands.snapshot]
  · show List.Forall₂ (Keeps codecs) (Keyed.ordered (state.versions.map versionRow)) _
    rw [ordered_of_strict (List.Perm.refl _) hstrict]
    simpa [SqliteStore.insertionSort_of_ascending hascending] using hkept
  · show state.versions.foldl _ database.nextVersion = SqliteStore.nextAfter store.nextVersion _
    have hcounter := congrArg (List.foldl (fun next number => max next (number + 1))
      store.nextVersion) hids
    rw [List.foldl_map, List.foldl_map] at hcounter
    rw [h.next]
    exact hcounter

/-- An import keeps its markers and leaves the other tables of consensus. -/
theorem journal_imported {draw : String → Except String Nonce} {state : FullState} {now : ℤ}
    {markers : List (String × String)} {next : Database}
    (h : database.imported cipher codecs key draw state now markers = .ok next) :
    next.journal = setMarkers database.journal markers := by
  rw [Database.imported] at h
  simp only [bind_eq_ok] at h
  obtain ⟨_, -, _, -, hnext⟩ := h
  obtain rfl := Except.ok.inj hnext
  rfl

end Database

end EkEk.Store
