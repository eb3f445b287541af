import EkEk.Json
import EkEk.Store.History

/-!
# Bringing a database forward

Reference: `crates/ek-ek-store/src/migration.rs`, and `open_with_migrations`, `bring_forward` and
`migrate_row` of `sqlite.rs`.

A store that was written under an older schema is brought forward when it is opened. The steps run on
the stored documents and not on configurations, in one transaction over the state and every version of
the log. Whether there is anything to do is decided by the schema of the state alone.

`migration_complete_iff` says when everything is at the schema the steps arrive at afterwards, and that
a database is left alone by a migration that fails. The JSON library and the backup are parameters.
-/

namespace EkEk

namespace Store

open Checked

/-- One step from the schema below it to the schema it names. -/
structure Migration where
  toVersion : SchemaVersion
  apply : Value → Except Error Value

/-- Every step this build knows. Schema 1 is the first. -/
def migrations : List Migration := []

/-- The schema steps lead to from another one. A step that leads no higher is passed over. -/
def reaching (start : SchemaVersion) (steps : List Migration) : SchemaVersion :=
  steps.foldl (fun reached step => if step.toVersion.get ≤ reached.get then reached else step.toVersion) start

/-- The schema a set of steps arrives at. -/
def targetVersion (steps : List Migration) : SchemaVersion := reaching .current steps

/-- The schema version a stored document carries. -/
def documentVersion (document : Value) : Except Error SchemaVersion := do
  let value ← found ((document.get "schema_version").bind Value.asU64)
    ⟨.serialisation, "a stored document carries no schema version"⟩
  if value.toNat < 2 ^ 32 then .ok ⟨value.toUInt32⟩
  else .error ⟨.serialisation, s!"a schema version of {value} cannot be read"⟩

def setVersion (document : Value) (version : SchemaVersion) : Except Error Value :=
  match document with
  | .object members =>
    .ok (.object (Value.insert "schema_version" (.number (.posInt version.get.toUInt64)) members))
  | _ => .error ⟨.serialisation, "a stored document is not an object"⟩

/-- Run one step, unless the document is past it. -/
def migrateStep (reached : Value × SchemaVersion) (step : Migration) :
    Except Error (Value × SchemaVersion) :=
  if step.toVersion.get ≤ reached.2.get then .ok reached
  else do
    let document ← step.apply reached.1
    let document ← setVersion document step.toVersion
    .ok (document, step.toVersion)

/-- Run every step a document still needs. -/
def migrateDocument (steps : List Migration) (document : Value) :
    Except Error (Value × SchemaVersion) := do
  let written ← documentVersion document
  ensure (written.get ≤ (targetVersion steps).get) ⟨.schemaMismatch,
    s!"a record written against schema {written.get} cannot be read by a build that reaches " ++
      s!"{(targetVersion steps).get}"⟩
  steps.foldlM migrateStep (document, written)

/-! ### What the steps lead to -/

section

variable {start : SchemaVersion} {steps : List Migration} {step : Migration}

theorem reaching_cons : reaching start (step :: steps) =
    reaching (if step.toVersion.get ≤ start.get then start else step.toVersion) steps := rfl

theorem le_reaching (start : SchemaVersion) (steps : List Migration) :
    start.get ≤ (reaching start steps).get := by
  induction steps generalizing start with
  | nil => exact UInt32.le_refl _
  | cons step steps ih =>
    rw [reaching_cons]
    split
    · exact ih start
    · rename_i h
      have hlt : start.get ≤ step.toVersion.get := UInt32.le_of_lt (UInt32.not_le.mp h)
      exact UInt32.le_trans hlt (ih step.toVersion)

theorem to_le_reaching (h : step ∈ steps) : step.toVersion.get ≤ (reaching start steps).get := by
  induction steps generalizing start with
  | nil => cases h
  | cons head steps ih =>
    rw [reaching_cons]
    rcases List.mem_cons.mp h with rfl | hrest
    · split
      · rename_i hle
        exact UInt32.le_trans hle (le_reaching start steps)
      · exact le_reaching step.toVersion steps
    · exact ih hrest

/-- What the steps lead to is where they start or what one of them names. -/
theorem reaching_cases (start : SchemaVersion) (steps : List Migration) :
    reaching start steps = start ∨ ∃ step ∈ steps, step.toVersion = reaching start steps := by
  induction steps generalizing start with
  | nil => exact .inl rfl
  | cons step steps ih =>
    rw [reaching_cons]
    split
    · rcases ih start with h | ⟨other, hother, h⟩
      · exact .inl h
      · exact .inr ⟨other, List.mem_cons_of_mem _ hother, h⟩
    · rcases ih step.toVersion with h | ⟨other, hother, h⟩
      · exact .inr ⟨step, List.mem_cons_self, h.symm⟩
      · exact .inr ⟨other, List.mem_cons_of_mem _ hother, h⟩

/-- The steps lead to a schema that none of them goes past exactly when one of them names it or it is
where they start. -/
theorem reaching_eq_iff {target : SchemaVersion} (hstart : start.get ≤ target.get)
    (hsteps : ∀ step ∈ steps, step.toVersion.get ≤ target.get) :
    reaching start steps = target ↔ start = target ∨ ∃ step ∈ steps, step.toVersion = target := by
  have hle : (reaching start steps).get ≤ target.get := by
    rcases reaching_cases start steps with h | ⟨step, hstep, h⟩
    · rwa [h]
    · rw [← h]
      exact hsteps step hstep
  constructor
  · rintro rfl
    rcases reaching_cases start steps with h | ⟨step, hstep, h⟩
    · exact .inl h.symm
    · exact .inr ⟨step, hstep, h⟩
  · intro h
    have hge : target.get ≤ (reaching start steps).get := by
      rcases h with rfl | ⟨step, hstep, rfl⟩
      · exact le_reaching start steps
      · exact to_le_reaching hstep
    have hget : (reaching start steps).get = target.get := UInt32.le_antisymm hle hge
    cases hreach : reaching start steps
    cases target
    simp_all

end

@[simp] theorem documentVersion_setVersion {document result : Value} {version : SchemaVersion}
    (h : setVersion document version = .ok result) : documentVersion result = .ok version := by
  obtain ⟨members, rfl⟩ : ∃ members, document = .object members := by
    cases document with
    | object members => exact ⟨members, rfl⟩
    | null => cases h
    | bool value => cases h
    | number value => cases h
    | string value => cases h
    | array elements => cases h
  obtain rfl := Except.ok.inj h
  have hlt : version.get.toUInt64.toNat < 2 ^ 32 := by
    rw [UInt32.toNat_toUInt64]
    exact version.get.toNat_lt
  rw [documentVersion, Value.get, Value.lookup_insert, Option.bind_some, Value.asU64, found_some,
    ok_bind, if_pos hlt]
  simp

theorem migrateSteps_eq_ok {steps : List Migration} {document result : Value}
    {written reached : SchemaVersion} (hversion : documentVersion document = .ok written)
    (h : steps.foldlM migrateStep (document, written) = .ok (result, reached)) :
    reached = reaching written steps ∧ documentVersion result = .ok reached := by
  induction steps generalizing document written with
  | nil =>
    obtain ⟨rfl, rfl⟩ := Prod.mk.injEq .. ▸ Except.ok.inj h
    exact ⟨rfl, hversion⟩
  | cons step steps ih =>
    rw [List.foldlM_cons, bind_eq_ok] at h
    obtain ⟨⟨middle, at'⟩, hstep, hrest⟩ := h
    rw [migrateStep] at hstep
    rw [reaching_cons]
    split at hstep
    · rename_i hle
      obtain ⟨rfl, rfl⟩ := Prod.mk.injEq .. ▸ Except.ok.inj hstep
      rw [if_pos hle]
      exact ih hversion hrest
    · -- whatever a step does to the document, its schema is set afterwards
      rename_i hgt
      simp only [bind_eq_ok, Except.ok.injEq, Prod.mk.injEq] at hstep
      obtain ⟨applied, -, set, hset, rfl, rfl⟩ := hstep
      rw [if_neg hgt]
      exact ih (documentVersion_setVersion hset) hrest

/-- A document that was brought forward carries the schema it reached. -/
theorem migrateDocument_eq_ok {steps : List Migration} {document result : Value}
    {reached : SchemaVersion} (h : migrateDocument steps document = .ok (result, reached)) :
    ∃ written, documentVersion document = .ok written ∧ written.get ≤ (targetVersion steps).get ∧
      reached = reaching written steps ∧ documentVersion result = .ok reached := by
  simp only [migrateDocument, bind_eq_ok, ensure_eq_ok] at h
  obtain ⟨written, hversion, _, hle, hsteps⟩ := h
  obtain ⟨hreached, hresult⟩ := migrateSteps_eq_ok hversion hsteps
  exact ⟨written, hversion, hle, hreached, hresult⟩

/-- The steps of this build take a document that is not too new, and leave it as it is. -/
theorem migrateDocument_migrations {document : Value} {moved : Value × SchemaVersion} :
    migrateDocument migrations document = .ok moved ↔
      documentVersion document = .ok moved.2 ∧ moved.2.get ≤ SchemaVersion.current.get ∧
        moved.1 = document := by
  have hsteps : ∀ reached, migrations.foldlM migrateStep reached = .ok reached := fun _ => rfl
  simp only [migrateDocument, bind_eq_ok, ensure_eq_ok, hsteps, Except.ok.injEq]
  constructor
  · rintro ⟨written, hwritten, _, hle, rfl⟩
    exact ⟨hwritten, hle, rfl⟩
  · rintro ⟨hwritten, hle, hsame⟩
    exact ⟨moved.2, hwritten, (), hle, Prod.ext hsame.symm rfl⟩

/-- A document comes to the target exactly when it is there or one of the steps leads there. -/
theorem reached_eq_target_iff {steps : List Migration} {written : SchemaVersion}
    (h : written.get ≤ (targetVersion steps).get) :
    reaching written steps = targetVersion steps ↔
      written = targetVersion steps ∨ ∃ step ∈ steps, step.toVersion = targetVersion steps :=
  reaching_eq_iff h fun _ hstep => to_le_reaching hstep

/-! ## The tables -/

namespace Database

variable (json : Serde Value) (steps : List Migration)

/-- Read one stored document, run the steps over it and write it out again. -/
def migrateText (text : String) : Except Error (String × SchemaVersion) := do
  let value ← (json.fromStr text).mapError fun error =>
    ⟨.serialisation, s!"a stored document could not be read for migration: {error}"⟩
  let moved ← migrateDocument steps value
  let migrated ← (json.toString moved.1).mapError fun error =>
    ⟨.serialisation, s!"a migrated document could not be written out: {error}"⟩
  .ok (migrated, moved.2)

/-- Bring the row of the state forward. -/
def migrateState (tables : StateTables) : Except Error StateTables :=
  match tables.configState with
  | none => .ok tables
  | some row => do
    let moved ← migrateText json steps row.document
    .ok { tables with
      configState := some { row with document := moved.1, schemaVersion := moved.2.get.toNat } }

/-- Bring the row of one version forward. -/
def migrateVersion (rows : List (ℤ × VersionRow)) (id : ℤ) : Except Error (List (ℤ × VersionRow)) :=
  match rows.find? fun row => row.1 = id with
  | none => .ok rows
  | some row => do
    -- the update goes by the number, to every row that has it
    let moved ← migrateText json steps row.2.document
    .ok (rows.map fun row => if row.1 = id then
      (row.1, { row.2 with document := moved.1, schemaVersion := moved.2.get.toNat }) else row)

/-- Bring the state and every version forward, by ascending numbers. -/
def migrateRows (database : Database) : Except Error Database := do
  let tables ← migrateState json steps database.tables
  let versions ← ((Keyed.ordered database.configVersion).map Prod.fst).foldlM
    (migrateVersion json steps) database.configVersion
  .ok { database with tables := tables, configVersion := versions }

/-- Run a transaction. One that fails leaves the database as it was. -/
def transact (body : Database → Except Error Database) (database : Database) :
    Database × Except Error Unit :=
  match body database with
  | .ok after => (after, .ok ())
  | .error error => (database, .error error)

/-- The schema the stored state was written against. -/
def storedSchemaVersion (database : Database) : Except Error (Option SchemaVersion) :=
  match database.tables.configState with
  | none => .ok none
  | some row => (schemaOf row.schemaVersion).map some

/-- Run every step the stored records still need. The outcomes of the backup and of the commit are
given. -/
def bringForward (backup commit : Except Error Unit) (database : Database) :
    Database × Except Error Unit :=
  match database.storedSchemaVersion with
  | .error error => (database, .error error)
  | .ok none => (database, .ok ())
  | .ok (some stored) =>
    if (targetVersion steps).get < stored.get then
      (database, .error ⟨.schemaMismatch, "the stored config was written against schema " ++
        s!"{stored.get} and this build reaches {(targetVersion steps).get}"⟩)
    else if stored = targetVersion steps then (database, .ok ())
    else
      match backup with
      | .error error => (database, .error error)
      | .ok () => transact (fun database => do
          let after ← migrateRows json steps database
          commit
          .ok after) database

/-- Open a database, bringing it forward: the schema it reads from then on. -/
def openWithMigrations (backup commit : Except Error Unit) (database : Database) :
    Database × Except Error SchemaVersion :=
  let forward := bringForward json steps backup commit database
  (forward.1, forward.2.map fun () => targetVersion steps)

variable {json steps} {database : Database} {backup commit : Except Error Unit}

/-- The state is behind a schema. -/
def Behind (target : SchemaVersion) (database : Database) : Prop :=
  ∃ row, database.tables.configState = some row ∧ row.schemaVersion < target.get.toNat

/-- What opening can do: fail and leave the database, find nothing to do, or bring every row forward. -/
theorem openWithMigrations_cases (json : Serde Value) (steps : List Migration)
    (backup commit : Except Error Unit) (database : Database) :
    (∃ error, openWithMigrations json steps backup commit database = (database, .error error)) ∨
    ((∀ row, database.tables.configState = some row →
        row.schemaVersion = (targetVersion steps).get.toNat) ∧
      openWithMigrations json steps backup commit database = (database, .ok (targetVersion steps))) ∨
    (Behind (targetVersion steps) database ∧ ∃ after, migrateRows json steps database = .ok after ∧
      openWithMigrations json steps backup commit database = (after, .ok (targetVersion steps))) := by
  rw [openWithMigrations, bringForward.eq_def, storedSchemaVersion]
  cases hstate : database.tables.configState with
  | none =>
    exact .inr (.inl ⟨(fun _ hrow => nomatch hrow), rfl⟩)
  | some row =>
    cases hstored : schemaOf row.schemaVersion with
    | error error =>
      simp only [hstored]
      exact .inl ⟨error, rfl⟩
    | ok stored =>
      simp only [hstored, Except.map]
      obtain hschema := schemaOf_eq_ok.mp hstored
      by_cases hnewer : (targetVersion steps).get < stored.get
      · rw [if_pos hnewer]
        exact .inl ⟨_, rfl⟩
      · rw [if_neg hnewer]
        have hle : stored.get.toNat ≤ (targetVersion steps).get.toNat :=
          UInt32.le_iff_toNat_le.mp (UInt32.not_lt.mp hnewer)
        by_cases htarget : stored = targetVersion steps
        · rw [if_pos htarget]
          refine .inr (.inl ⟨fun other hother => ?_, rfl⟩)
          obtain rfl := Option.some.inj hother
          rw [hschema, htarget]
        · rw [if_neg htarget]
          have hbehind : Behind (targetVersion steps) database := by
            refine ⟨row, hstate, ?_⟩
            have hne : stored.get.toNat ≠ (targetVersion steps).get.toNat := fun heq =>
              htarget (SchemaVersion.ext (UInt32.toNat_inj.mp heq))
            rw [hschema]
            omega
          -- from here on a failure rolls the transaction back
          cases backup with
          | error error => exact .inl ⟨error, rfl⟩
          | ok u =>
            dsimp only [transact]
            cases hrows : migrateRows json steps database with
            | error error => exact .inl ⟨error, rfl⟩
            | ok after =>
              cases commit with
              | error error => exact .inl ⟨error, rfl⟩
              | ok u => exact .inr (.inr ⟨hbehind, after, rfl, rfl⟩)

/-- A database whose state is at the target is opened as it is. -/
theorem openWithMigrations_level (hlevel : ∀ row, database.tables.configState = some row →
    row.schemaVersion = (targetVersion steps).get.toNat) :
    openWithMigrations json steps backup commit database = (database, .ok (targetVersion steps)) := by
  rw [openWithMigrations, bringForward.eq_def, storedSchemaVersion]
  cases hstate : database.tables.configState with
  | none => rfl
  | some row =>
    simp only [schemaOf_eq_ok.mpr (hlevel row hstate), Except.map, UInt32.lt_irrefl, if_true, if_false]

/-- A database whose state is behind is brought forward where the steps, the backup and the commit
succeed. -/
theorem openWithMigrations_behind {row : ConfigRow} {stored : SchemaVersion} {after : Database}
    (hrow : database.tables.configState = some row)
    (hschema : row.schemaVersion = stored.get.toNat) (hlt : stored.get < (targetVersion steps).get)
    (hrows : migrateRows json steps database = .ok after) :
    openWithMigrations json steps (.ok ()) (.ok ()) database = (after, .ok (targetVersion steps)) := by
  have hnewer : ¬ (targetVersion steps).get < stored.get := UInt32.lt_asymm hlt
  have hother : stored ≠ targetVersion steps := by
    rintro rfl
    exact UInt32.lt_irrefl _ hlt
  rw [openWithMigrations, bringForward.eq_def, storedSchemaVersion]
  simp only [hrow, schemaOf_eq_ok.mpr hschema, Except.map, if_neg hnewer, if_neg hother, transact,
    hrows, ok_bind]

/-! ### What every row comes to -/

/-- The schema and the document of every row. -/
def stored (database : Database) : List (ℤ × String) :=
  (database.tables.configState.map fun row => (row.schemaVersion, row.document)).toList ++
    database.configVersion.map fun row => (row.2.schemaVersion, row.2.document)

/-- A version that was brought forward. -/
def Forwarded (json : Serde Value) (steps : List Migration) (row row' : ℤ × VersionRow) : Prop :=
  ∃ moved, migrateText json steps row.2.document = .ok moved ∧
    row' = (row.1, { row.2 with document := moved.1, schemaVersion := moved.2.get.toNat })

theorem migrateVersion_eq_ok {rows rows' : List (ℤ × VersionRow)} {id : ℤ}
    (hkeys : (rows.map Prod.fst).Nodup) (h : migrateVersion json steps rows id = .ok rows') :
    List.Forall₂ (fun row row' => if row.1 = id then Forwarded json steps row row' else row' = row)
      rows rows' := by
  rw [migrateVersion] at h
  cases hfind : rows.find? fun row => row.1 = id with
  | none =>
    rw [hfind] at h
    obtain rfl := Except.ok.inj h
    refine List.forall₂_same.mpr fun row hrow => ?_
    have hother : row.1 ≠ id := fun heq =>
      absurd (decide_eq_true heq) (List.find?_eq_none.mp hfind row hrow)
    rw [if_neg hother]
  | some held =>
    rw [hfind] at h
    simp only [bind_eq_ok, Except.ok.injEq] at h
    obtain ⟨moved, hmoved, rfl⟩ := h
    refine List.forall₂_map_right_iff.mpr (List.forall₂_same.mpr fun row hrow => ?_)
    split
    · rename_i hid
      obtain ⟨hheld, hheldId⟩ := (Keyed.find?_eq_some hkeys).mp hfind
      obtain rfl := List.inj_on_of_nodup_map hkeys hheld hrow (hheldId.trans hid.symm)
      exact ⟨moved, hmoved, rfl⟩
    · rfl

theorem forall₂_keys {R : ℤ × VersionRow → ℤ × VersionRow → Prop}
    {rows rows' : List (ℤ × VersionRow)} (h : List.Forall₂ R rows rows')
    (hkey : ∀ row row', R row row' → row'.1 = row.1) : rows'.map Prod.fst = rows.map Prod.fst := by
  induction h with
  | nil => rfl
  | cons hrow _ ih => rw [List.map_cons, List.map_cons, hkey _ _ hrow, ih]

theorem migrateVersions_eq_ok {rows rows' : List (ℤ × VersionRow)} {ids : List ℤ}
    (hids : ids.Nodup) (hkeys : (rows.map Prod.fst).Nodup)
    (h : ids.foldlM (migrateVersion json steps) rows = .ok rows') :
    List.Forall₂ (fun row row' => if row.1 ∈ ids then Forwarded json steps row row' else row' = row)
      rows rows' := by
  induction ids generalizing rows with
  | nil =>
    obtain rfl := Except.ok.inj h
    exact List.forall₂_same.mpr fun row _ => rfl
  | cons id ids ih =>
    obtain ⟨hnew, hids⟩ := List.nodup_cons.mp hids
    rw [List.foldlM_cons, bind_eq_ok] at h
    obtain ⟨middle, hfirst, hrest⟩ := h
    have hone := migrateVersion_eq_ok hkeys hfirst
    have hsame : middle.map Prod.fst = rows.map Prod.fst := by
      refine forall₂_keys hone fun row row' hrow => ?_
      split at hrow
      · obtain ⟨_, -, rfl⟩ := hrow
        rfl
      · rw [hrow]
    have hothers := ih hids (hsame ▸ hkeys) hrest
    refine forall₂_trans (fun row moved row' hrow hrow' => ?_) hone hothers
    by_cases hid : row.1 = id
    · -- no later number is this one, so the row is not moved twice
      rw [if_pos hid] at hrow
      have hkey : moved.1 = id := by
        obtain ⟨_, -, rfl⟩ := hrow
        exact hid
      rw [if_neg (hkey ▸ hnew)] at hrow'
      rw [if_pos (hid ▸ List.mem_cons_self), hrow']
      exact hrow
    · rw [if_neg hid] at hrow
      rw [hrow] at hrow'
      simpa [hid] using hrow'

/-- Every row of a database that was brought forward has its document moved by the steps. -/
theorem migrateRows_eq_ok {after : Database} (hkeys : (database.configVersion.map Prod.fst).Nodup)
    (h : migrateRows json steps database = .ok after) :
    migrateState json steps database.tables = .ok after.tables ∧
      List.Forall₂ (Forwarded json steps) database.configVersion after.configVersion ∧
      after = { database with tables := after.tables, configVersion := after.configVersion } := by
  simp only [migrateRows, bind_eq_ok, Except.ok.injEq] at h
  obtain ⟨tables, htables, versions, hversions, rfl⟩ := h
  refine ⟨htables, ?_, rfl⟩
  have hids : ((Keyed.ordered database.configVersion).map Prod.fst).Nodup :=
    ((List.perm_insertionSort _ _).map Prod.fst).nodup_iff.mpr hkeys
  have hlisted : ∀ row ∈ database.configVersion,
      row.1 ∈ (Keyed.ordered database.configVersion).map Prod.fst := fun row hrow =>
    List.mem_map_of_mem (Keyed.mem_ordered.mpr hrow)
  refine ((List.forall₂_and_left _ _).mpr ⟨hlisted, migrateVersions_eq_ok hids hkeys hversions⟩).imp ?_
  rintro row row' ⟨hrow, hmoved⟩
  rwa [if_pos hrow] at hmoved

/-- A document carries a schema. -/
def Carries (json : Serde Value) (version : SchemaVersion) (document : String) : Prop :=
  ∃ value, json.fromStr document = .ok value ∧ documentVersion value = .ok version

/-- A row is at a schema: it says so, and so does its document. -/
def Arrived (json : Serde Value) (version : SchemaVersion) (record : ℤ × String) : Prop :=
  record.1 = version.get.toNat ∧ Carries json version record.2

/-- The schema and the document of a row that was brought forward. -/
def Moved (json : Serde Value) (steps : List Migration) (record record' : ℤ × String) : Prop :=
  ∃ moved, migrateText json steps record.2 = .ok moved ∧ record' = ((moved.2.get.toNat : ℤ), moved.1)

theorem stored_migrateRows {after : Database} (hkeys : (database.configVersion.map Prod.fst).Nodup)
    (h : migrateRows json steps database = .ok after) :
    List.Forall₂ (Moved json steps) database.stored after.stored := by
  obtain ⟨hstate, hversions, -⟩ := migrateRows_eq_ok hkeys h
  refine List.rel_append ?_ ?_
  · rw [migrateState] at hstate
    cases hrow : database.tables.configState with
    | none =>
      rw [hrow] at hstate
      obtain hsame := Except.ok.inj hstate
      rw [← hsame, hrow]
      exact .nil
    | some row =>
      rw [hrow] at hstate
      simp only [bind_eq_ok, Except.ok.injEq] at hstate
      obtain ⟨moved, hmoved, hafter⟩ := hstate
      rw [← hafter]
      exact .cons ⟨moved, hmoved, rfl⟩ .nil
  · rw [List.forall₂_map_left_iff, List.forall₂_map_right_iff]
    refine hversions.imp ?_
    rintro row _ ⟨moved, hmoved, rfl⟩
    exact ⟨moved, hmoved, rfl⟩

/-- A row that was brought forward is at the target exactly when a step leads there or its document was
there before. -/
theorem Moved.arrived_iff
    (hjson : ∀ value text, json.toString value = .ok text → json.fromStr text = .ok value)
    {record record' : ℤ × String} (h : Moved json steps record record') :
    Arrived json (targetVersion steps) record' ↔
      (∃ step ∈ steps, step.toVersion = targetVersion steps) ∨
        Carries json (targetVersion steps) record.2 := by
  obtain ⟨moved, hmoved, rfl⟩ := h
  simp only [migrateText, bind_eq_ok, mapError_eq_ok, Except.ok.injEq] at hmoved
  obtain ⟨value, hvalue, ⟨result, reached⟩, hdocument, text, htext, rfl⟩ := hmoved
  obtain ⟨written, hwritten, hle, hreached, hresult⟩ := migrateDocument_eq_ok hdocument
  have harrived : Arrived json (targetVersion steps) (reached.get.toNat, text) ↔
      reached = targetVersion steps := by
    constructor
    · rintro ⟨hcolumn, -⟩
      exact SchemaVersion.ext (UInt32.toNat_inj.mp (Int.ofNat_inj.mp hcolumn))
    · rintro rfl
      exact ⟨rfl, result, hjson result text htext, hresult⟩
  have hcarries : Carries json (targetVersion steps) record.2 ↔ written = targetVersion steps := by
    constructor
    · rintro ⟨other, hother, hversion⟩
      obtain rfl := Except.ok.inj (hvalue.symm.trans hother)
      exact Except.ok.inj (hwritten.symm.trans hversion)
    · rintro rfl
      exact ⟨value, hvalue, hwritten⟩
  rw [harrived, hcarries, hreached, reached_eq_target_iff hle, or_comm]

/-- Everything that is stored is at a schema, and no kept version is refused for its own. -/
structure Complete (json : Serde Value) (target : SchemaVersion) (database : Database) : Prop where
  stored : ∀ record ∈ database.stored, Arrived json target record
  rollBacks : ∀ row ∈ database.configVersion, ∀ cipher codecs key draw change now error,
    database.rollBackTo cipher codecs key target draw ⟨row.1⟩ change now = .error error →
      error.kind ≠ .schemaMismatch

theorem complete_iff {target : SchemaVersion} :
    Complete json target database ↔ ∀ record ∈ database.stored, Arrived json target record := by
  refine ⟨Complete.stored, fun h => ⟨h, ?_⟩⟩
  intro row hrow cipher codecs key draw change now error herror hkind
  obtain ⟨stored, hstored, hother⟩ := rollBackTo_mismatch_iff.mp ⟨error, herror, hkind⟩
  rw [versionSchema] at hstored
  cases hfound : database.versionAt ⟨row.1⟩ with
  | none =>
    rw [hfound] at hstored
    cases hstored
  | some held =>
    rw [hfound] at hstored
    obtain ⟨version, hversion, hsame⟩ := map_eq_ok.mp hstored
    obtain rfl := Option.some.inj hsame
    have hmem : (held.2.schemaVersion, held.2.document) ∈ database.stored :=
      List.mem_append_right _ (List.mem_map_of_mem (List.mem_of_find?_eq_some hfound))
    have hcolumn : held.2.schemaVersion = target.get.toNat := (h _ hmem).1
    rw [schemaOf_eq_ok.mpr hcolumn] at hversion
    exact hother (Except.ok.inj hversion).symm

/-- The steps cover a database: if its state is behind, one of them arrives at the target or every
document is there, and otherwise every row is at the target. -/
def Covered (json : Serde Value) (steps : List Migration) (database : Database) : Prop :=
  (Behind (targetVersion steps) database →
    (∃ step ∈ steps, step.toVersion = targetVersion steps) ∨
      ∀ record ∈ database.stored, Carries json (targetVersion steps) record.2) ∧
  (¬ Behind (targetVersion steps) database →
    ∀ record ∈ database.stored, Arrived json (targetVersion steps) record)

/-- Opening a database leaves it alone when it fails. When it succeeds, everything that is stored is at
the schema the steps arrive at exactly when the steps cover the database. -/
theorem migration_complete_iff (json : Serde Value)
    (hjson : ∀ value text, json.toString value = .ok text → json.fromStr text = .ok value)
    (steps : List Migration) (backup commit : Except Error Unit) (database : Database)
    (hkeys : (database.configVersion.map Prod.fst).Nodup) :
    (∀ error, (openWithMigrations json steps backup commit database).2 = .error error →
      (openWithMigrations json steps backup commit database).1 = database) ∧
    ((openWithMigrations json steps backup commit database).2 = .ok (targetVersion steps) →
      (Complete json (targetVersion steps)
          (openWithMigrations json steps backup commit database).1 ↔ Covered json steps database)) := by
  rcases openWithMigrations_cases json steps backup commit database with
    ⟨error, hopen⟩ | ⟨hlevel, hopen⟩ | ⟨hbehind, after, hrows, hopen⟩
  · rw [hopen]
    exact ⟨fun _ _ => rfl, (fun h => nomatch h)⟩
  · have hlevel : ¬ Behind (targetVersion steps) database := by
      rintro ⟨row, hrow, hlt⟩
      rw [hlevel row hrow] at hlt
      omega
    rw [hopen]
    refine ⟨fun _ _ => rfl, fun _ => ?_⟩
    rw [complete_iff]
    exact ⟨fun h => ⟨fun hbehind => absurd hbehind hlevel, fun _ => h⟩, fun h => h.2 hlevel⟩
  · rw [hopen]
    refine ⟨(fun _ h => nomatch h), fun _ => ?_⟩
    have hmoved := stored_migrateRows hkeys hrows
    rw [complete_iff]
    constructor
    · intro h
      refine ⟨fun _ => ?_, fun hlevel => absurd hbehind hlevel⟩
      by_cases hstep : ∃ step ∈ steps, step.toVersion = targetVersion steps
      · exact .inl hstep
      · refine .inr fun record hrecord => ?_
        obtain ⟨record', hrecord', hrow⟩ := exists_of_forall₂ hmoved hrecord
        exact ((hrow.arrived_iff hjson).mp (h record' hrecord')).resolve_left hstep
    · rintro ⟨hcovered, -⟩ record' hrecord'
      obtain ⟨record, hrecord, hrow⟩ := exists_of_forall₂ hmoved.flip hrecord'
      refine (Moved.arrived_iff hjson hrow).mpr ?_
      exact (hcovered hbehind).imp id fun hall => hall record hrecord

/-! ### A log of two schemas -/

/-- A document that holds nothing but its schema. -/
def schemaText (version : ℕ) : String := "\x7b\"schema_version\":" ++ toString version ++ "\x7d"

/-- The value of such a document. -/
def schemaValue (version : UInt64) : Value := .object [("schema_version", .number (.posInt version))]

/-- The JSON library on documents that hold the schema 1 or 2 and nothing else. -/
def schemaJson : Serde Value where
  toString value :=
    match value with
    | .object [(name, .number (.posInt version))] =>
      if name = "schema_version" ∧ (version = 1 ∨ version = 2) then .ok (schemaText version.toNat)
      else .error "not a schema"
    | _ => .error "not a schema"
  fromStr text :=
    if text = schemaText 1 then .ok (schemaValue 1)
    else if text = schemaText 2 then .ok (schemaValue 2)
    else .error "not a schema"

theorem schemaJson_reads (value : Value) (text : String) (h : schemaJson.toString value = .ok text) :
    schemaJson.fromStr text = .ok value := by
  simp only [schemaJson] at h
  split at h
  · rename_i name version
    split at h
    · rename_i hschema
      obtain ⟨rfl, rfl | rfl⟩ := hschema
      · obtain rfl := Except.ok.inj h
        rfl
      · obtain rfl := Except.ok.inj h
        rfl
    · cases h
  · cases h

/-- The step to schema 2, which changes nothing else. -/
def toSecond : List Migration := [⟨⟨2⟩, fun document => .ok document⟩]

/-- A database with a version of schema 1, and a version and a state of another one. -/
def twoVersions (schema : ℕ) : Database :=
  { create with
    tables := { cleared with configState := some ⟨schema, schemaText schema, 2⟩ }
    configVersion := [(1, ⟨1, "admin", "first", 1, none, schemaText 1⟩),
      (2, ⟨2, "admin", "second", schema, none, schemaText schema⟩)]
    nextVersion := 3 }

/-- A database of one schema is brought forward as a whole. -/
theorem twoVersions_forward : Complete schemaJson ⟨2⟩
    (openWithMigrations schemaJson toSecond (.ok ()) (.ok ()) (twoVersions 1)).1 := by
  have hopen : (openWithMigrations schemaJson toSecond (.ok ()) (.ok ()) (twoVersions 1)).2 =
      .ok (targetVersion toSecond) := rfl
  have hbehind : Behind (targetVersion toSecond) (twoVersions 1) := ⟨_, rfl, by decide⟩
  refine ((migration_complete_iff schemaJson schemaJson_reads toSecond (.ok ()) (.ok ())
    (twoVersions 1) (by decide)).2 hopen).mpr ⟨fun _ => .inl ?_, fun h => absurd hbehind h⟩
  exact ⟨_, List.mem_cons_self, rfl⟩

/-- Where the state is at the target already, the version before it is left at the schema it was
written under, and cannot be returned to. -/
theorem twoVersions_left_behind :
    (openWithMigrations schemaJson toSecond (.ok ()) (.ok ()) (twoVersions 2)) =
      (twoVersions 2, .ok ⟨2⟩) ∧
    ¬ Complete schemaJson ⟨2⟩ (twoVersions 2) ∧
    ∀ cipher codecs key draw change now, ∃ error,
      (twoVersions 2).rollBackTo cipher codecs key ⟨2⟩ draw ⟨1⟩ change now = .error error ∧
        error.kind = .schemaMismatch := by
  have hrollBack : ∀ cipher codecs key draw change now, ∃ error,
      (twoVersions 2).rollBackTo cipher codecs key ⟨2⟩ draw ⟨1⟩ change now = .error error ∧
        error.kind = .schemaMismatch :=
    fun _ _ _ _ _ _ => rollBackTo_mismatch_iff.mpr ⟨⟨1⟩, rfl, by decide⟩
  refine ⟨rfl, fun hcomplete => ?_, hrollBack⟩
  have harrived := hcomplete.stored (1, schemaText 1) (by decide)
  exact absurd harrived.1 (by decide)

end Database

end Store

end EkEk
