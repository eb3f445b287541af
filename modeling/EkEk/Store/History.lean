import EkEk.Store.Refinement

/-!
# Going back, in the tables

Reference: `version_schema`, `version_config` and `roll_back_to` of
`crates/ek-ek-store/src/sqlite.rs`.

A rollback looks a version up by its number, refuses it if it was written against another schema than
this store reads, and writes its document with everything else taken from the current state.
`Represents.rollBackTo` says that the tables follow the store they represent.
-/

namespace EkEk.Store

open Checked

namespace Database

/-- A stored schema version, as it is read back. -/
def schemaOf (value : ℤ) : Except Error SchemaVersion :=
  if 0 ≤ value ∧ value < 2 ^ 32 then .ok ⟨.ofNat value.toNat⟩
  else .error ⟨.serialisation, s!"a stored schema version of {value} cannot be read"⟩

/-- The row of a version. -/
def versionAt (database : Database) (id : VersionId) : Option (ℤ × VersionRow) :=
  database.configVersion.find? fun row => row.1 = id.get

/-- The schema a version was written against. -/
def versionSchema (database : Database) (id : VersionId) : Except Error (Option SchemaVersion) :=
  match database.versionAt id with
  | none => .ok none
  | some row => (schemaOf row.2.schemaVersion).map some

/-- The configuration a version holds. -/
def versionConfig (codecs : Codecs) (database : Database) (id : VersionId) :
    Except Error (Option Config) :=
  match database.versionAt id with
  | none => .ok none
  | some row => ((codecs.config.fromStr row.2.document).map some).mapError fun error =>
    ⟨.serialisation, s!"version {id.get} could not be read back: {error}"⟩

variable (cipher : Cipher) (codecs : Codecs) (key : MasterKey)

/-- Return to the configuration an earlier version holds. -/
def rollBackTo (target : SchemaVersion) (database : Database) (draw : String → Except String Nonce)
    (id : VersionId) (change : Change) (now : ℤ) : Except Error (Database × VersionId) := do
  let stored ← database.versionSchema id
  let stored ← found stored (SqliteStore.unknownVersion id)
  ensure (stored = target) ⟨.schemaMismatch, s!"version {id.get} was written against schema " ++
    s!"{stored.get} and this store reads {target.get}"⟩
  let restored ← database.versionConfig codecs id
  let restored ← found restored (SqliteStore.unknownVersion id)
  let current ← database.read cipher codecs key
  let current ← found current ⟨.unknownVersion, "there is no current state to roll back from"⟩
  database.writeVersion cipher codecs key draw (SqliteStore.rolledBack current restored) change
    (some id) now [] []

variable {cipher codecs key} {database : Database}

/-! ## Schemas -/

@[simp] theorem schemaOf_toNat (version : SchemaVersion) : schemaOf version.get.toNat = .ok version := by
  have hlt : version.get.toNat < 2 ^ 32 := version.get.toNat_lt
  rw [schemaOf, if_pos ⟨by omega, by exact_mod_cast hlt⟩]
  simp

theorem schemaOf_eq_ok {value : ℤ} {version : SchemaVersion} :
    schemaOf value = .ok version ↔ value = version.get.toNat := by
  constructor
  · intro h
    rw [schemaOf] at h
    split at h
    · rename_i hbounds
      obtain rfl := Except.ok.inj h
      obtain ⟨n, rfl⟩ := Int.eq_ofNat_of_zero_le hbounds.1
      have hlt : n < 4294967296 := by exact_mod_cast hbounds.2
      simp [Nat.mod_eq_of_lt hlt]
    · cases h
  · rintro rfl
    exact schemaOf_toNat version

/-! ## Refusals -/

section

/-- Reading and writing a state does not refuse a schema. -/
theorem read_fails (database : Database) :
    Fails (fun error => error.kind ≠ .schemaMismatch) (database.read cipher codecs key) := by
  rw [read, readTables]
  split
  · exact .ok none
  · refine .bind (.mapError (fun _ => ErrorKind.noConfusion) _) fun _ => .bind (.mapM (fun row => ?_) _) fun _ =>
      .bind (.mapM (fun row => ?_) _) fun _ => .ok _
    · refine .bind ?_ fun _ => .ok _
      rw [Cipher.opening]
      split
      · exact .mapError (fun _ => ErrorKind.noConfusion) _
      · exact .error ErrorKind.noConfusion
    · exact .bind (.found ErrorKind.noConfusion _) fun _ => .bind (.mapError (fun _ => ErrorKind.noConfusion) _) fun _ =>
        .bind (.mapError (fun _ => ErrorKind.noConfusion) _) fun _ => .ok _

theorem writeVersion_fails (database : Database) (draw : String → Except String Nonce)
    (snapshot : Snapshot) (change : Change) (restored : Option VersionId) (now : ℤ)
    (markers : List (String × String)) (audit : List AuditRecord) :
    Fails (fun error => error.kind ≠ .schemaMismatch)
      (database.writeVersion cipher codecs key draw snapshot change restored now markers audit) := by
  refine .bind (.mapError (fun _ => ErrorKind.noConfusion) _) fun _ => .bind (.mapM (fun row => ?_) _) fun _ =>
    .bind (.mapM (fun row => ?_) _) fun _ => .ok _
  · exact .bind (.bind (.mapError (fun _ => ErrorKind.noConfusion) _) fun _ =>
      .bind (.mapError (fun _ => ErrorKind.noConfusion) _) fun _ => .ok _) fun _ => .ok _
  · exact .bind (.mapError (fun _ => ErrorKind.noConfusion) _) fun _ =>
      .bind (.mapError (fun _ => ErrorKind.noConfusion) _) fun _ => .ok _

theorem versionSchema_fails (database : Database) (id : VersionId) :
    Fails (fun error => error.kind ≠ .schemaMismatch) (database.versionSchema id) := by
  rw [versionSchema]
  split
  · exact .ok none
  · rw [schemaOf]
    split
    · exact .ok _
    · exact .error ErrorKind.noConfusion

theorem versionConfig_fails (database : Database) (id : VersionId) :
    Fails (fun error => error.kind ≠ .schemaMismatch) (database.versionConfig codecs id) := by
  rw [versionConfig]
  split
  · exact .ok none
  · exact .mapError (fun _ => ErrorKind.noConfusion) _

/-- A version is refused for its schema exactly when it was written against another one. -/
theorem rollBackTo_mismatch_iff {target : SchemaVersion} {draw : String → Except String Nonce}
    {id : VersionId} {change : Change} {now : ℤ} :
    (∃ error, database.rollBackTo cipher codecs key target draw id change now = .error error ∧
      error.kind = .schemaMismatch) ↔
      ∃ stored, database.versionSchema id = .ok (some stored) ∧ stored ≠ target := by
  rw [rollBackTo]
  cases hstored : database.versionSchema id with
  | error error =>
    refine iff_of_false ?_ (by simp)
    rintro ⟨_, ⟨⟩, hkind⟩
    exact versionSchema_fails database id error hstored hkind
  | ok stored =>
    cases stored with
    | none =>
      refine iff_of_false ?_ (by simp)
      rintro ⟨_, ⟨⟩, hkind⟩
      cases hkind
    | some stored =>
      simp only [ok_bind, found_some]
      by_cases htarget : stored = target
      · refine iff_of_false ?_ (by simp [htarget])
        rintro ⟨error, herror, hkind⟩
        refine Fails.bind (p := fun error : Error => error.kind ≠ .schemaMismatch) ?_ (fun _ => ?_)
          error herror hkind
        · rw [ensure, if_pos htarget]
          exact .ok ()
        · exact .bind (versionConfig_fails database id) fun _ => .bind (.found ErrorKind.noConfusion _) fun _ =>
            .bind (read_fails database) fun _ => .bind (.found ErrorKind.noConfusion _) fun _ =>
              writeVersion_fails database draw _ change (some id) now [] []
      · refine iff_of_true ?_ ⟨stored, rfl, htarget⟩
        rw [ensure, if_neg htarget]
        exact ⟨_, rfl, rfl⟩

end

/-! ## What was written -/

/-- What a write that succeeds has done. -/
theorem writeVersion_eq_ok {draw : String → Except String Nonce} {snapshot : Snapshot}
    {change : Change} {restored : Option VersionId} {now : ℤ} {markers : List (String × String)}
    {audit : List AuditRecord} {next : Database} {id : VersionId}
    (h : database.writeVersion cipher codecs key draw snapshot change restored now markers audit =
      .ok (next, id)) :
    ∃ text sealed orders, document codecs snapshot.config = .ok text ∧
      next = database.recorded (stateTables text sealed orders snapshot now)
        (database.appended text snapshot change restored now) change now markers audit ∧
      id = ⟨database.nextVersion⟩ := by
  simp only [writeVersion, bind_eq_ok, Except.ok.injEq, Prod.mk.injEq] at h
  obtain ⟨text, htext, sealed, -, orders, -, rfl, rfl⟩ := h
  exact ⟨text, sealed, orders, htext, rfl, rfl⟩

/-- A rollback that succeeds is a write. -/
theorem rollBackTo_eq_ok {target : SchemaVersion} {draw : String → Except String Nonce}
    {id given : VersionId} {change : Change} {now : ℤ} {next : Database}
    (h : database.rollBackTo cipher codecs key target draw id change now = .ok (next, given)) :
    ∃ row restored current, database.versionAt id = some row ∧
      codecs.config.fromStr row.2.document = .ok restored ∧
      database.read cipher codecs key = .ok (some current) ∧
      database.writeVersion cipher codecs key draw (SqliteStore.rolledBack current restored) change
        (some id) now [] [] = .ok (next, given) := by
  simp only [rollBackTo, bind_eq_ok, found_eq_ok] at h
  obtain ⟨_, -, _, -, _, -, held, hconfig, restored, rfl, held, hread, current, rfl, hwrite⟩ := h
  rw [versionConfig] at hconfig
  cases hrow : database.versionAt id with
  | none =>
    rw [hrow] at hconfig
    cases hconfig
  | some row =>
    rw [hrow] at hconfig
    simp only [mapError_eq_ok, map_eq_ok, Option.some.injEq, exists_eq_right] at hconfig
    exact ⟨row, restored, current, rfl, hconfig, hread, hwrite⟩

/-! ## The store the tables represent -/

variable {store : SqliteStore} {id : VersionId}

theorem Represents.nodup (h : Represents cipher codecs key database store)
    (hnumbered : store.Numbered) : (database.configVersion.map Prod.fst).Nodup :=
  ((List.perm_insertionSort _ _).map Prod.fst).nodup_iff.mp (nodup_of_strict (h.numbers hnumbered))

/-- A version the store has is in the tables. -/
theorem Represents.versionAt (h : Represents cipher codecs key database store)
    (hnumbered : store.Numbered) {version : Version} (hversion : store.version id = some version) :
    ∃ row, database.versionAt id = some row ∧ Keeps codecs row version := by
  have hmem := List.mem_reverse.mpr (List.mem_of_find?_eq_some hversion)
  have hid : version.id = id := by simpa using List.find?_some hversion
  obtain ⟨row, hrow, hkeeps⟩ := exists_of_forall₂ h.versions.flip hmem
  refine ⟨row, (Keyed.find?_eq_some (h.nodup hnumbered)).mpr ⟨Keyed.mem_ordered.mp hrow, ?_⟩, hkeeps⟩
  rw [hkeeps.id, hid]

/-- A version the store does not have is not in the tables. -/
theorem Represents.versionAt_none (h : Represents cipher codecs key database store)
    (hnumbered : store.Numbered) (hversion : store.version id = none) :
    database.versionAt id = none := by
  refine Option.eq_none_iff_forall_ne_some.mpr fun row hrow => ?_
  obtain ⟨hmem, hid⟩ := (Keyed.find?_eq_some (h.nodup hnumbered)).mp hrow
  obtain ⟨version, hkept, hkeeps⟩ := exists_of_forall₂ h.versions (Keyed.mem_ordered.mpr hmem)
  have hsame : version.id = id := VersionId.ext (hkeeps.id.symm.trans hid)
  exact absurd (decide_eq_true hsame)
    (List.find?_eq_none.mp hversion version (List.mem_reverse.mp hkept))

/-- A rollback in the tables is a rollback of the store they represent, and is refused with it. -/
theorem Represents.rollBackTo (h : Represents cipher codecs key database store)
    (hnumbered : store.Numbered) (hcipher : cipher.Lawful) {draw : String → Except String Nonce}
    (hdraw : ∀ id, ∃ nonce, draw id = .ok nonce)
    (hdocuments : ∀ version ∈ store.versions, codecs.config.Carries version.document)
    (hcarried : ∀ snapshot, store.restoring id = .ok snapshot → Carried codecs snapshot)
    (change : Change) (now : ℤ) :
    Both (fun next next' => next.2 = next'.2 ∧ Represents cipher codecs key next.1 next'.1)
      (database.rollBackTo cipher codecs key store.target draw id change now)
      (store.rollBackTo id change now) := by
  rw [Database.rollBackTo, SqliteStore.rollBackTo, versionSchema, versionConfig]
  cases hversion : store.version id with
  | none =>
    rw [h.versionAt_none hnumbered hversion, SqliteStore.restoring_unknown hversion]
    exact .error _ _
  | some version =>
    obtain ⟨row, hrow, hkeeps⟩ := h.versionAt hnumbered hversion
    obtain ⟨text, htext, hread⟩ := hdocuments version (List.mem_of_find?_eq_some hversion)
    -- the tables hold the text of the document, the store the document
    have hdocument : row.2.document = text := by
      have hkept := hkeeps.document
      rw [document, htext] at hkept
      exact (Except.ok.inj hkept).symm
    have hschema : schemaOf row.2.schemaVersion = .ok version.schemaVersion :=
      schemaOf_eq_ok.mpr hkeeps.schemaVersion
    simp only [hrow, hschema, hdocument, hread, Except.map, mapError_ok, ok_bind, found_some, h.state]
    by_cases htarget : version.schemaVersion = store.target
    · rw [ensure, if_pos htarget, ok_bind]
      cases hstate : store.state with
      | none =>
        rw [SqliteStore.restoring_stateless hversion htarget hstate]
        exact .error _ _
      | some current =>
        have hrestoring := SqliteStore.restoring_current hversion htarget hstate
        obtain ⟨next, hnext, hrepresents⟩ := h.writeVersion hnumbered hcipher hdraw
          (hcarried _ hrestoring) change (some id) now [] []
        rw [found_some, ok_bind, hnext, hrestoring]
        exact .ok ⟨rfl, hrepresents⟩
    · obtain ⟨error, hrestoring⟩ := SqliteStore.restoring_mismatch hversion htarget
      rw [ensure, if_neg htarget, hrestoring]
      exact .error _ _

end Database

end EkEk.Store
