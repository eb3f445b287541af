import EkEk.Config.Validation
import EkEk.Store.Log

/-!
# Starting again

Reference: `open` and `bring_forward` of `crates/ek-ek-store/src/sqlite.rs`, with the calls that write
(`write`, `apply_write`, `roll_back_to` and `import`), and `SchemaVersion` of
`crates/ek-ek-config/src/config.rs`.

Whatever was written before a node goes down has to be read when it comes up again. A write takes the
schema version of its document as it is, and opening a database refuses what is newer than it knows.
`starts_again_iff` says which databases are opened with the state that was committed last.

What the JSON library does for a configuration and for a plain value has to go together. `Laws` is what
is relied on.
-/

namespace EkEk.Store.Restart

open Checked Database

/-- Reading a document as a value and as a configuration goes together. -/
structure Laws (json : Serde Value) (codecs : Codecs) : Prop where
  /-- What is written for a value is read as that value. -/
  back : ∀ value text, json.toString value = .ok text → json.fromStr text = .ok value
  /-- A value that was read can be written. -/
  out : ∀ value text, json.fromStr text = .ok value → ∃ text', json.toString value = .ok text'
  /-- A configuration is a value. -/
  value : ∀ config text, codecs.config.fromStr text = .ok config → ∃ value, json.fromStr text = .ok value
  /-- Both have the same schema version. -/
  schema : ∀ config value text, codecs.config.fromStr text = .ok config →
    json.fromStr text = .ok value → documentVersion value = .ok config.schemaVersion
  /-- Writing the value again does not change the configuration. -/
  same : ∀ config value text text', codecs.config.fromStr text = .ok config →
    json.fromStr text = .ok value → json.toString value = .ok text' →
      codecs.config.fromStr text' = .ok config

/-! ## Runs -/

variable (cipher : Cipher) (codecs : Codecs) (key : MasterKey) (json : Serde Value)

inductive Input where
  | call (call : Log.Call) (storage : Except Error Unit)
  | importFull (draw : String → Except String Nonce) (state : Database.FullState) (now : ℤ)
      (markers : List (String × String)) (storage : Except Error Unit)
  | reopen (backup commit : Except Error Unit)

/-- A database, and the state that was committed last. -/
structure Node where
  database : Database
  committed : Option Snapshot

def create : Node := ⟨.create, none⟩

/-- The state a call is to commit. -/
def wanted (s : Node) : Log.Call → Option Snapshot
  | .write _ snapshot _ _ => some snapshot
  | .applyWrite _ snapshot _ _ _ _ => some snapshot
  | .rollBackTo _ id _ _ => s.committed.bind fun current =>
    (s.database.versionConfig codecs id).toOption.join.map (SqliteStore.rolledBack current)

def step (s : Node) : Input → Node
  | .call call storage =>
    match Log.answer cipher codecs key s.database call storage with
    | .ok (database, _) => ⟨database, wanted codecs s call⟩
    | .error _ => s
  | .importFull draw state now markers storage =>
    match Log.settled storage (s.database.imported cipher codecs key draw state now markers) with
    | .ok database => ⟨database, state.snapshot⟩
    | .error _ => s
  | .reopen backup commit =>
    { s with database := (openWithMigrations json migrations backup commit s.database).1 }

/-- The documents of what comes in are read back by the JSON library: those of a state that is to be
committed, and those of the versions of an import, which carry the schema version they say. -/
def Readable (s : Node) : Input → Prop
  | .call call _ => ∀ snapshot, wanted codecs s call = some snapshot → Carried codecs snapshot
  | .importFull _ state _ _ _ => (∀ snapshot ∈ state.snapshot, Carried codecs snapshot) ∧
    ∀ version ∈ state.versions, ∃ config, codecs.config.fromStr version.document = .ok config ∧
      config.schemaVersion.get = version.schemaVersion
  | .reopen _ _ => True

/-- Nothing that is stored is past the schema this build knows, or at least the state is there and
nothing has to be brought forward. -/
def Startable (database : Database) : Prop :=
  ∀ row, database.tables.configState = some row →
    row.schemaVersion = SchemaVersion.current.get.toNat ∨
      row.schemaVersion < SchemaVersion.current.get.toNat ∧
        ∀ version ∈ database.configVersion,
          version.2.schemaVersion ≤ SchemaVersion.current.get.toNat

/-- The database is opened, with the state that was committed last. -/
def StartsAgain (s : Node) : Prop :=
  ∃ after, openWithMigrations json migrations (.ok ()) (.ok ()) s.database = (after, .ok .current) ∧
    after.read cipher codecs key = .ok s.committed

/-! ## What is stored -/

/-- A row whose document is a configuration of the schema it says. -/
def Holds (schemaVersion : ℤ) (document : String) : Prop :=
  ∃ config, codecs.config.fromStr document = .ok config ∧
    schemaVersion = config.schemaVersion.get.toNat

structure Sound (s : Node) : Prop where
  read : s.database.read cipher codecs key = .ok s.committed
  state : ∀ row, s.database.tables.configState = some row →
    Holds codecs row.schemaVersion row.document
  versions : ∀ row ∈ s.database.configVersion, Holds codecs row.2.schemaVersion row.2.document
  keys : (s.database.configVersion.map Prod.fst).Nodup
  below : ∀ row ∈ s.database.configVersion, row.1 < s.database.nextVersion

variable {cipher codecs key json}

theorem Sound.create : Sound cipher codecs key create :=
  ⟨rfl, fun _ h => absurd h (Option.some_ne_none _).symm, fun _ h => absurd h List.not_mem_nil, .nil,
    fun _ h => absurd h List.not_mem_nil⟩

/-! ### Bringing a document forward -/

section

variable (laws : Laws json codecs) {config : Config} {text : String}

include laws

/-- A document that is brought forward is the same configuration. -/
theorem migrateText_holds (hconfig : codecs.config.fromStr text = .ok config)
    {moved : String × SchemaVersion} (h : migrateText json migrations text = .ok moved) :
    codecs.config.fromStr moved.1 = .ok config ∧ moved.2 = config.schemaVersion ∧
      config.schemaVersion.get ≤ SchemaVersion.current.get := by
  simp only [migrateText, bind_eq_ok, mapError_eq_ok, migrateDocument_migrations,
    Except.ok.injEq] at h
  obtain ⟨value, hvalue, ⟨result, reached⟩, ⟨hreached, hle, rfl⟩, written, hwritten, rfl⟩ := h
  obtain rfl := Except.ok.inj (hreached.symm.trans (laws.schema config result text hconfig hvalue))
  exact ⟨laws.same config result text written hconfig hvalue hwritten, rfl, hle⟩

/-- A document that is not past the schema this build knows can be brought forward. -/
theorem exists_migrateText (hconfig : codecs.config.fromStr text = .ok config)
    (hle : config.schemaVersion.get ≤ SchemaVersion.current.get) :
    ∃ moved, migrateText json migrations text = .ok moved := by
  obtain ⟨value, hvalue⟩ := laws.value config text hconfig
  obtain ⟨text', htext'⟩ := laws.out value text hvalue
  have hdocument : migrateDocument migrations value = .ok (value, config.schemaVersion) :=
    migrateDocument_migrations.mpr ⟨laws.schema config value text hconfig hvalue, hle, rfl⟩
  refine ⟨(text', config.schemaVersion), ?_⟩
  rw [migrateText, hvalue, mapError_ok, ok_bind, hdocument, ok_bind, htext']
  rfl

/-- A document that can be brought forward. -/
def Fit (codecs : Codecs) (document : String) : Prop :=
  ∃ config, codecs.config.fromStr document = .ok config ∧
    config.schemaVersion.get ≤ SchemaVersion.current.get

theorem exists_migrateVersion {rows : List (ℤ × VersionRow)}
    (hrows : ∀ row ∈ rows, Fit codecs row.2.document) (id : ℤ) :
    ∃ rows', migrateVersion json migrations rows id = .ok rows' ∧
      ∀ row ∈ rows', Fit codecs row.2.document := by
  rw [migrateVersion]
  cases hfind : rows.find? fun row => row.1 = id with
  | none => exact ⟨rows, rfl, hrows⟩
  | some held =>
    obtain ⟨config, hconfig, hle⟩ := hrows held (List.mem_of_find?_eq_some hfind)
    obtain ⟨moved, hmoved⟩ := exists_migrateText laws hconfig hle
    obtain ⟨hread, -, -⟩ := migrateText_holds laws hconfig hmoved
    refine ⟨_, by dsimp only; rw [hmoved, ok_bind], fun row hrow => ?_⟩
    obtain ⟨before, hbefore, rfl⟩ := List.mem_map.mp hrow
    split
    · exact ⟨config, hread, hle⟩
    · exact hrows before hbefore

theorem exists_migrateRows {database : Database}
    (hstate : ∀ row, database.tables.configState = some row → Fit codecs row.document)
    (hversions : ∀ row ∈ database.configVersion, Fit codecs row.2.document) :
    ∃ after, migrateRows json migrations database = .ok after := by
  have htables : ∃ tables, migrateState json migrations database.tables = .ok tables := by
    rw [migrateState]
    cases hrow : database.tables.configState with
    | none => exact ⟨_, rfl⟩
    | some row =>
      obtain ⟨config, hconfig, hle⟩ := hstate row hrow
      obtain ⟨moved, hmoved⟩ := exists_migrateText laws hconfig hle
      exact ⟨_, by dsimp only; rw [hmoved, ok_bind]⟩
  have hfold : ∀ (ids : List ℤ) (rows : List (ℤ × VersionRow)),
      (∀ row ∈ rows, Fit codecs row.2.document) →
      ∃ rows', ids.foldlM (migrateVersion json migrations) rows = .ok rows' := by
    intro ids
    induction ids with
    | nil => exact fun rows _ => ⟨rows, rfl⟩
    | cons id ids ih =>
      intro rows hrows
      obtain ⟨middle, hmiddle, hfit⟩ := exists_migrateVersion laws hrows id
      obtain ⟨rows', hrows'⟩ := ih middle hfit
      exact ⟨rows', by rw [List.foldlM_cons, hmiddle, ok_bind, hrows']⟩
  obtain ⟨tables, htables⟩ := htables
  obtain ⟨rows', hrows'⟩ := hfold ((Keyed.ordered database.configVersion).map Prod.fst) _ hversions
  exact ⟨_, by rw [migrateRows, htables, ok_bind, hrows', ok_bind]⟩

end

/-- What is read of a state does not depend on how its document is written. -/
theorem readTables_row {tables : StateTables} {row row' : ConfigRow}
    (hrow : tables.configState = some row)
    (hsame : codecs.config.fromStr row'.document = codecs.config.fromStr row.document) :
    readTables cipher codecs key { tables with configState := some row' } =
      readTables cipher codecs key tables := by
  simp only [readTables, hrow, hsame]

/-! ### Writing -/

section

variable {draw : String → Except String Nonce}

/-- The numbers that were drawn, and some number in place of those that were not. -/
def drawn (draw : String → Except String Nonce) (id : String) : Except String Nonce :=
  .ok ((draw id).toOption.getD ⟨.replicate nonceLength (.ofNat 0), List.length_replicate⟩)

theorem sealRow_drawn (row : String × Secret) (sealed : String × Sealed)
    (h : sealRow cipher key draw row = .ok sealed) :
    sealRow cipher key (drawn draw) row = .ok sealed := by
  simp only [sealRow, Cipher.sealing, bind_eq_ok, mapError_eq_ok] at h
  obtain ⟨record, ⟨nonce, hnonce, ciphertext, hciphertext, hrecord⟩, hsealed⟩ := h
  simp only [sealRow, Cipher.sealing, drawn, hnonce, Except.toOption, Option.getD_some, mapError_ok,
    ok_bind, hciphertext, hrecord, hsealed]

/-- A write that succeeds is read back. -/
theorem read_of_writeVersion (hcipher : cipher.Lawful) {database next : Database}
    {snapshot : Snapshot} (hcarried : Carried codecs snapshot) {change : Change}
    {restored : Option VersionId} {now : ℤ} {markers : List (String × String)}
    {audit : List AuditRecord} {id : VersionId}
    (h : database.writeVersion cipher codecs key draw snapshot change restored now markers audit =
      .ok (next, id)) : next.read cipher codecs key = .ok (some snapshot) := by
  have hdraw : ∀ id, ∃ nonce, drawn draw id = .ok nonce := fun _ => ⟨_, rfl⟩
  obtain ⟨next', id', hnext', hread⟩ := database.read_writeVersion key hcipher hdraw hcarried change
    restored now markers audit
  have hsame : database.writeVersion cipher codecs key (drawn draw) snapshot change restored now
      markers audit = .ok (next, id) := by
    simp only [writeVersion, bind_eq_ok] at h
    obtain ⟨text, htext, sealed, hsealed, orders, horders, hdone⟩ := h
    simp only [writeVersion, htext, mapM_mono sealRow_drawn hsealed, horders, ok_bind]
    exact hdone
  obtain ⟨rfl, -⟩ := Prod.mk.injEq .. ▸ Except.ok.inj (hnext'.symm.trans hsame)
  exact hread

/-- An import that succeeds is read back. -/
theorem readTables_of_importedTables (hcipher : cipher.Lawful) {snapshot : Option Snapshot}
    (hcarried : ∀ state ∈ snapshot, Carried codecs state) {now : ℤ} {tables : StateTables}
    (h : importedTables cipher codecs key draw now snapshot = .ok tables) :
    readTables cipher codecs key tables = .ok snapshot := by
  have hdraw : ∀ id, ∃ nonce, drawn draw id = .ok nonce := fun _ => ⟨_, rfl⟩
  obtain ⟨tables', htables', hread⟩ := readTables_importedTables key hcipher hdraw hcarried now
  have hsame : importedTables cipher codecs key (drawn draw) now snapshot = .ok tables := by
    cases snapshot with
    | none => exact h
    | some snapshot =>
      simp only [importedTables, bind_eq_ok] at h
      obtain ⟨sealed, hsealed, orders, horders, text, htext, hdone⟩ := h
      simp only [importedTables, htext, mapM_mono sealRow_drawn hsealed, horders, ok_bind]
      exact hdone
  rw [← Except.ok.inj (htables'.symm.trans hsame)]
  exact hread

/-- The document of a state that survives being written is its configuration. -/
theorem holds_document {snapshot : Snapshot} (hcarried : Carried codecs snapshot) {text : String}
    (h : document codecs snapshot.config = .ok text) :
    Holds codecs snapshot.config.schemaVersion.get.toNat text := by
  obtain ⟨written, hwritten, hread⟩ := hcarried.config
  rw [document, hwritten] at h
  obtain rfl := Except.ok.inj h
  exact ⟨snapshot.config, hread, rfl⟩

end

section

variable {s : Node}

/-- State tables that were brought forward are read as before. -/
theorem Sound.migratedState (laws : Laws json codecs) (h : Sound cipher codecs key s)
    {tables : StateTables} (hstate : migrateState json migrations s.database.tables = .ok tables) :
    readTables cipher codecs key tables = .ok s.committed ∧
      ∀ row, tables.configState = some row → Holds codecs row.schemaVersion row.document := by
  rw [migrateState] at hstate
  cases hrow : s.database.tables.configState with
  | none =>
    rw [hrow] at hstate
    obtain rfl : s.database.tables = tables := Except.ok.inj hstate
    exact ⟨h.read, h.state⟩
  | some row =>
    rw [hrow] at hstate
    simp only [bind_eq_ok, Except.ok.injEq] at hstate
    obtain ⟨moved, hmoved, rfl⟩ := hstate
    obtain ⟨config, hconfig, -⟩ := h.state row hrow
    obtain ⟨hread, hschema, -⟩ := migrateText_holds laws hconfig hmoved
    refine ⟨?_, ?_⟩
    · -- the text of the document is new, the configuration in it is not
      rw [readTables_row hrow (hread.trans hconfig.symm)]
      exact h.read
    · rintro _ ⟨⟩
      exact ⟨config, hread, by rw [hschema]⟩

/-- A database that was brought forward holds the same state and the same versions. -/
theorem Sound.migrated (laws : Laws json codecs) (h : Sound cipher codecs key s) {after : Database}
    (hrows : migrateRows json migrations s.database = .ok after) :
    Sound cipher codecs key ⟨after, s.committed⟩ := by
  obtain ⟨hstate, hversions, hafter⟩ := migrateRows_eq_ok h.keys hrows
  obtain ⟨hread, hheld⟩ := h.migratedState laws hstate
  have hnext : after.nextVersion = s.database.nextVersion := by rw [hafter]
  have hids : after.configVersion.map Prod.fst = s.database.configVersion.map Prod.fst := by
    refine forall₂_keys hversions ?_
    rintro row _ ⟨moved, -, rfl⟩
    rfl
  refine ⟨hread, hheld, ?_, hids ▸ h.keys, ?_⟩
  · intro row' hrow'
    obtain ⟨row, hrow, moved, hmoved, rfl⟩ := exists_of_forall₂ hversions.flip hrow'
    obtain ⟨config, hconfig, -⟩ := h.versions row hrow
    obtain ⟨hread, hschema, -⟩ := migrateText_holds laws hconfig hmoved
    exact ⟨config, hread, by rw [hschema]⟩
  · intro row hrow
    have hid : row.1 ∈ s.database.configVersion.map Prod.fst := hids ▸ List.mem_map_of_mem hrow
    obtain ⟨before, hbefore, hsame⟩ := List.mem_map.mp hid
    show row.1 < after.nextVersion
    rw [hnext, ← hsame]
    exact h.below before hbefore

/-- Opening a database keeps what it holds. -/
theorem Sound.reopen (laws : Laws json codecs) (h : Sound cipher codecs key s)
    (backup commit : Except Error Unit) : Sound cipher codecs key { s with
      database := (openWithMigrations json migrations backup commit s.database).1 } := by
  rcases openWithMigrations_cases json migrations backup commit s.database with
    ⟨error, hopen⟩ | ⟨-, hopen⟩ | ⟨-, after, hrows, hopen⟩
  · rw [hopen]
    exact h
  · rw [hopen]
    exact h
  · rw [hopen]
    exact h.migrated laws hrows

/-- A row is not past a schema where its document is not. -/
theorem fit_iff {schemaVersion : ℤ} {document : String} (h : Holds codecs schemaVersion document) :
    Fit codecs document ↔ schemaVersion ≤ SchemaVersion.current.get.toNat := by
  obtain ⟨config, hconfig, rfl⟩ := h
  rw [Int.ofNat_le, ← UInt32.le_iff_toNat_le]
  constructor
  · rintro ⟨other, hother, hle⟩
    obtain rfl := Except.ok.inj (hconfig.symm.trans hother)
    exact hle
  · intro hle
    exact ⟨config, hconfig, hle⟩

theorem Sound.startsAgain_iff (laws : Laws json codecs) (h : Sound cipher codecs key s) :
    StartsAgain cipher codecs key json s ↔ Startable s.database := by
  constructor
  · rintro ⟨after, hstarts, -⟩ row hrow
    rcases openWithMigrations_cases json migrations (.ok ()) (.ok ()) s.database with
      ⟨error, hopen⟩ | ⟨hlevel, -⟩ | ⟨⟨other, hother, hlt⟩, moved, hrows, -⟩
    · rw [hopen] at hstarts
      cases (Prod.mk.inj hstarts).2
    · exact .inl (hlevel row hrow)
    · obtain rfl := Option.some.inj (hrow.symm.trans hother)
      refine .inr ⟨hlt, fun version hversion => ?_⟩
      -- every version went through the steps, which refuse a document that is past them
      obtain ⟨-, hversions, -⟩ := migrateRows_eq_ok h.keys hrows
      obtain ⟨_, -, text, htext, -⟩ := exists_of_forall₂ hversions hversion
      obtain ⟨config, hconfig, hschema⟩ := h.versions version hversion
      obtain ⟨-, -, hle⟩ := migrateText_holds laws hconfig htext
      exact (fit_iff ⟨config, hconfig, hschema⟩).mp ⟨config, hconfig, hle⟩
  · intro hstartable
    cases hrow : s.database.tables.configState with
    | none =>
      refine ⟨s.database, openWithMigrations_level fun row hsome => ?_, h.read⟩
      rw [hrow] at hsome
      cases hsome
    | some row =>
      rcases hstartable row hrow with hlevel | ⟨hlt, hversions⟩
      · refine ⟨s.database, openWithMigrations_level fun other hother => ?_, h.read⟩
        obtain rfl := Option.some.inj (hrow.symm.trans hother)
        exact hlevel
      · have hfit : ∀ row, s.database.tables.configState = some row → Fit codecs row.document := by
          intro other hother
          obtain rfl := Option.some.inj (hrow.symm.trans hother)
          exact (fit_iff (h.state row hrow)).mpr (Int.le_of_lt hlt)
        obtain ⟨after, hrows⟩ := exists_migrateRows laws hfit fun version hversion =>
          (fit_iff (h.versions version hversion)).mpr (hversions version hversion)
        obtain ⟨config, -, hschema⟩ := h.state row hrow
        have hbehind : config.schemaVersion.get < SchemaVersion.current.get := by
          rw [hschema] at hlt
          exact UInt32.lt_iff_toNat_lt.mpr (Int.ofNat_lt.mp hlt)
        exact ⟨after, openWithMigrations_behind hrow hschema hbehind hrows, (h.migrated laws hrows).read⟩

/-- A new row has a number of its own. -/
theorem Sound.nodup_append (h : Sound cipher codecs key s) (row : VersionRow) :
    ((s.database.configVersion ++ [(s.database.nextVersion, row)]).map Prod.fst).Nodup := by
  rw [List.map_append]
  refine List.nodup_append.mpr ⟨h.keys, List.nodup_singleton _, ?_⟩
  intro number hnumber other hother heq
  obtain ⟨held, hheld, rfl⟩ := List.mem_map.mp hnumber
  have hbelow := h.below held hheld
  rw [heq, List.mem_singleton.mp hother] at hbelow
  exact Int.lt_irrefl _ hbelow

/-- A write of a state that survives being written is what the node has then committed. -/
theorem Sound.written (hcipher : cipher.Lawful) (h : Sound cipher codecs key s)
    {draw : String → Except String Nonce} {snapshot : Snapshot} (hcarried : Carried codecs snapshot)
    {change : Change} {restored : Option VersionId} {now : ℤ} {markers : List (String × String)}
    {audit : List AuditRecord} {next : Database} {id : VersionId}
    (hwrite : s.database.writeVersion cipher codecs key draw snapshot change restored now markers
      audit = .ok (next, id)) : Sound cipher codecs key ⟨next, some snapshot⟩ := by
  have hread := read_of_writeVersion hcipher hcarried hwrite
  obtain ⟨text, sealed, orders, htext, rfl, -⟩ := writeVersion_eq_ok hwrite
  have hnew := holds_document hcarried htext
  have hkept : ∀ row ∈ (s.database.recorded (stateTables text sealed orders snapshot now)
      (s.database.appended text snapshot change restored now) change now markers audit).configVersion,
      row ∈ s.database.configVersion ∨ row = s.database.appended text snapshot change restored now := by
    intro row hrow
    simpa using List.mem_of_mem_filter hrow
  refine ⟨hread, ?_, ?_, ?_, ?_⟩
  · rintro row ⟨⟩
    exact hnew
  · intro row hrow
    rcases hkept row hrow with hbefore | rfl
    · exact h.versions row hbefore
    · exact hnew
  · exact (h.nodup_append _).sublist (List.filter_sublist.map _)
  · intro row hrow
    show row.1 < s.database.nextVersion + 1
    rcases hkept row hrow with hbefore | rfl
    · have hbelow := h.below row hbefore
      omega
    · show s.database.nextVersion < s.database.nextVersion + 1
      omega

theorem le_foldl_next (versions : List StoredVersion) (next : ℤ) :
    next ≤ versions.foldl (fun next version => max next (version.id.get + 1)) next ∧
      ∀ version ∈ versions,
        version.id.get < versions.foldl (fun next version => max next (version.id.get + 1)) next := by
  induction versions generalizing next with
  | nil => exact ⟨Int.le_refl _, fun _ h => absurd h List.not_mem_nil⟩
  | cons version versions ih =>
    obtain ⟨hle, hall⟩ := ih (max next (version.id.get + 1))
    rw [List.foldl_cons]
    refine ⟨by omega, fun other hother => ?_⟩
    rcases List.mem_cons.mp hother with rfl | hrest
    · omega
    · exact hall other hrest

/-- An import is what the node has then committed. -/
theorem Sound.imported (hcipher : cipher.Lawful) {draw : String → Except String Nonce}
    {state : Database.FullState} {now : ℤ} {markers : List (String × String)}
    (hcarried : ∀ snapshot ∈ state.snapshot, Carried codecs snapshot)
    (hversions : ∀ version ∈ state.versions, ∃ config,
      codecs.config.fromStr version.document = .ok config ∧
        config.schemaVersion.get = version.schemaVersion)
    {next : Database}
    (himport : s.database.imported cipher codecs key draw state now markers = .ok next) :
    Sound cipher codecs key ⟨next, state.snapshot⟩ := by
  simp only [Database.imported, bind_eq_ok, ensure_eq_ok, Except.ok.injEq] at himport
  obtain ⟨tables, htables, _, hnodup, rfl⟩ := himport
  refine ⟨readTables_of_importedTables hcipher hcarried htables, ?_, ?_, ?_, ?_⟩
  · intro row hrow
    have hstored : tables.configState = some row := hrow
    cases hsnapshot : state.snapshot with
    | none =>
      rw [hsnapshot] at htables
      obtain rfl := Except.ok.inj htables
      cases hstored
    | some snapshot =>
      rw [hsnapshot] at htables
      simp only [importedTables, bind_eq_ok, Except.ok.injEq] at htables
      obtain ⟨sealed, -, orders, -, text, htext, rfl⟩ := htables
      obtain rfl := Option.some.inj hstored
      exact holds_document (hcarried snapshot hsnapshot) htext
  · intro row hrow
    obtain ⟨version, hversion, rfl⟩ := List.mem_map.mp hrow
    obtain ⟨config, hconfig, hschema⟩ := hversions version hversion
    exact ⟨config, hconfig, by rw [hschema]; rfl⟩
  · show ((state.versions.map versionRow).map Prod.fst).Nodup
    rw [List.map_map]
    exact hnodup
  · intro row hrow
    obtain ⟨version, hversion, rfl⟩ := List.mem_map.mp hrow
    exact (le_foldl_next state.versions s.database.nextVersion).2 version hversion

theorem Sound.step (hcipher : cipher.Lawful) (laws : Laws json codecs) (h : Sound cipher codecs key s)
    {input : Input} (hreadable : Readable codecs s input) :
    Sound cipher codecs key (step cipher codecs key json s input) := by
  cases input with
  | reopen backup commit => exact h.reopen laws backup commit
  | importFull draw state now markers storage =>
    rw [Restart.step]
    split
    · rename_i next hdone
      exact Sound.imported hcipher hreadable.1 hreadable.2 (Log.settled_eq_ok hdone)
    · exact h
  | call call storage =>
    rw [Restart.step]
    split
    · rename_i next id hanswer
      have hperform := Log.settled_eq_ok hanswer
      cases call with
      | write draw snapshot change now => exact h.written hcipher (hreadable snapshot rfl) hperform
      | applyWrite draw snapshot change now markers audit =>
        exact h.written hcipher (hreadable snapshot rfl) hperform
      | rollBackTo draw id change now =>
        obtain ⟨row, restored, current, hrow, hconfig, hread, hwrite⟩ := rollBackTo_eq_ok hperform
        -- a rollback writes a mixture of what is committed and what it restores
        have hcommitted : s.committed = some current := Except.ok.inj (h.read.symm.trans hread)
        have hversion : s.database.versionConfig codecs id = .ok (some restored) := by
          rw [versionConfig, hrow]
          dsimp only
          rw [hconfig]
          rfl
        have hwanted : wanted codecs s (.rollBackTo draw id change now) =
            some (SqliteStore.rolledBack current restored) := by
          rw [wanted, hcommitted, hversion]
          rfl
        rw [hwanted]
        exact h.written hcipher (hreadable _ hwanted) hwrite
    · exact h

end

/-- After any sequence of writes, rollbacks, imports and restarts, the database is opened with the state
that was committed last exactly when that state is at the schema this build knows, or is behind it
together with every version of the log. -/
theorem starts_again_iff (cipher : Cipher) (codecs : Codecs) (key : MasterKey) (json : Serde Value)
    (hcipher : cipher.Lawful) (laws : Laws json codecs) (inputs : List Input)
    (hreadable : Runs.Along (step cipher codecs key json) (Readable codecs) create inputs) :
    StartsAgain cipher codecs key json (Runs.run (step cipher codecs key json) create inputs) ↔
      Startable (Runs.run (step cipher codecs key json) create inputs).database := by
  have hsound : Sound cipher codecs key (Runs.run (step cipher codecs key json) create inputs) :=
    hreadable.inv (fun _ _ h hinput => h.step hcipher laws hinput) .create
  exact hsound.startsAgain_iff laws

/-! ### A node that starts again -/

/-- What is written for the value of the empty configuration, with its members by their names. -/
def sortedText : String :=
  "\x7b\"acme\":null,\"backends\":[],\"certificate_expiry_warning_days\":30,\"certificates\":[]," ++
  "\"dns_providers\":[],\"frontends\":[],\"log_level\":\"info\",\"nodes\":[],\"schema_version\":1," ++
  "\"stickiness_key\":\"\",\"vips\":[]\x7d"

/-- The names of its members. -/
def memberNames : List String :=
  ["acme", "backends", "certificate_expiry_warning_days", "certificates", "dns_providers", "frontends",
    "log_level", "nodes", "schema_version", "stickiness_key", "vips"]

/-- The value itself. -/
def emptyValue : Value :=
  .object [("acme", .null), ("backends", .array []),
    ("certificate_expiry_warning_days", .number (.posInt 30)), ("certificates", .array []),
    ("dns_providers", .array []), ("frontends", .array []), ("log_level", .string "info"),
    ("nodes", .array []), ("schema_version", .number (.posInt 1)), ("stickiness_key", .string ""),
    ("vips", .array [])]

/-- The JSON library at that value. -/
def emptyJson : Serde Value where
  toString value :=
    match value with
    | .object [(n1, .null), (n2, .array []), (n3, .number (.posInt days)), (n4, .array []),
        (n5, .array []), (n6, .array []), (n7, .string level), (n8, .array []),
        (n9, .number (.posInt schema)), (n10, .string key), (n11, .array [])] =>
      if [n1, n2, n3, n4, n5, n6, n7, n8, n9, n10, n11] = memberNames ∧ days = 30 ∧ level = "info" ∧
          schema = 1 ∧ key = "" then .ok sortedText
      else .error "another value"
    | _ => .error "another value"
  fromStr text :=
    if text = Raft.emptyText ∨ text = sortedText then .ok emptyValue else .error "another text"

/-- The JSON library at the empty configuration, whichever way it was written. -/
def emptyCodecs : Codecs where
  config := {
    toString := (Raft.onlyJson .empty Raft.emptyText).toString
    fromStr := fun text =>
      if text = Raft.emptyText ∨ text = sortedText then .ok .empty else .error "another text" }
  names := Raft.keptCodecs.names
  answers := Raft.keptCodecs.answers

theorem eq_emptyValue {value : Value} {text : String} (h : emptyJson.toString value = .ok text) :
    value = emptyValue ∧ text = sortedText := by
  simp only [emptyJson] at h
  split at h
  · split at h
    · rename_i hmembers
      obtain ⟨hnames, rfl, rfl, rfl, rfl⟩ := hmembers
      simp only [memberNames, List.cons.injEq, and_true] at hnames
      obtain ⟨rfl, rfl, rfl, rfl, rfl, rfl, rfl, rfl, rfl, rfl, rfl⟩ := hnames
      exact ⟨rfl, (Except.ok.inj h).symm⟩
    · cases h
  · cases h

theorem fromStr_value {text : String} (h : text = Raft.emptyText ∨ text = sortedText) :
    emptyJson.fromStr text = .ok emptyValue := if_pos h

theorem fromStr_config {text : String} (h : text = Raft.emptyText ∨ text = sortedText) :
    emptyCodecs.config.fromStr text = .ok .empty := if_pos h

theorem eq_of_fromStr {value : Value} {text : String} (h : emptyJson.fromStr text = .ok value) :
    value = emptyValue := by
  simp only [emptyJson] at h
  split at h
  · exact (Except.ok.inj h).symm
  · cases h

theorem eq_empty {config : Config} {text : String} (h : emptyCodecs.config.fromStr text = .ok config) :
    (text = Raft.emptyText ∨ text = sortedText) ∧ config = .empty := by
  simp only [emptyCodecs] at h
  split at h
  · rename_i htext
    exact ⟨htext, (Except.ok.inj h).symm⟩
  · cases h

theorem laws_empty : Laws emptyJson emptyCodecs where
  back value text h := by
    obtain ⟨rfl, rfl⟩ := eq_emptyValue h
    exact fromStr_value (.inr rfl)
  out value text h := by
    obtain rfl := eq_of_fromStr h
    exact ⟨sortedText, rfl⟩
  value config text h := ⟨emptyValue, fromStr_value (eq_empty h).1⟩
  schema config value text hconfig hvalue := by
    obtain ⟨-, rfl⟩ := eq_empty hconfig
    obtain rfl := eq_of_fromStr hvalue
    rfl
  same config value text text' hconfig hvalue htext' := by
    obtain ⟨-, rfl⟩ := eq_empty hconfig
    obtain ⟨-, rfl⟩ := eq_emptyValue htext'
    exact fromStr_config (.inr rfl)

/-- A write of the empty configuration. -/
def writeEmpty : List Input :=
  [.call (.write (fun _ => .ok Raft.zeros) (.new .empty) ⟨"admin", "first"⟩ 1) (.ok ())]

theorem carried_new {config : Config} {codecs : Codecs} (h : codecs.config.Carries config) :
    Carried codecs (.new config) :=
  ⟨h, fun _ _ horder => absurd horder (by simp [Snapshot.new]),
    fun _ _ horder => absurd horder (by simp [Snapshot.new])⟩

theorem writeEmpty_starts_again : StartsAgain Raft.masking emptyCodecs ⟨[7]⟩ emptyJson
    (Runs.run (step Raft.masking emptyCodecs ⟨[7]⟩ emptyJson) create writeEmpty) := by
  have hcarries : emptyCodecs.config.Carries .empty := by
    refine ⟨Raft.emptyText, ?_, fromStr_config (.inl rfl)⟩
    simp only [emptyCodecs, Raft.onlyJson, if_true]
  have hstate : (Runs.run (step Raft.masking emptyCodecs ⟨[7]⟩ emptyJson) create
      writeEmpty).database.tables.configState.map ConfigRow.schemaVersion = some 1 := by
    decide +kernel
  refine (starts_again_iff Raft.masking emptyCodecs ⟨[7]⟩ emptyJson Raft.lawful_masking laws_empty
    writeEmpty ⟨?_, trivial⟩).mpr ?_
  · rintro snapshot ⟨⟩
    exact carried_new hcarries
  · intro row hrow
    rw [hrow] at hstate
    exact .inl (Option.some.inj hstate)

/-! ### A node that does not -/

/-- A configuration of a schema this build does not know. -/
def ahead : Config := { Config.empty with schemaVersion := ⟨2⟩ }

/-- What is written for it. -/
def aheadText : String :=
  "\x7b\"schema_version\":2,\"nodes\":[],\"vips\":[],\"frontends\":[],\"backends\":[]," ++
  "\"certificates\":[],\"dns_providers\":[],\"acme\":null,\"stickiness_key\":\"\"," ++
  "\"log_level\":\"info\",\"certificate_expiry_warning_days\":30\x7d"

/-- The JSON library at its documents. -/
def aheadCodecs : Codecs := { Raft.keptCodecs with config := Raft.onlyJson ahead aheadText }

/-- The configuration is accepted and written, and the database is never opened again. -/
theorem ahead_never_starts : Validation.validate ahead = .ok () ∧
    ∃ after id, Database.create.write Raft.masking aheadCodecs ⟨[7]⟩ (fun _ => .ok Raft.zeros)
        (.new ahead) ⟨"admin", "ahead"⟩ 1 = .ok (after, id) ∧
      ∀ json backup commit, ∃ error,
        openWithMigrations json migrations backup commit after = (after, .error error) ∧
          error.kind = .schemaMismatch := by
  refine ⟨by decide, ?_⟩
  have hcarried : Carried aheadCodecs (.new ahead) :=
    carried_new (Raft.carries_onlyJson ahead aheadText)
  have hdraw : ∀ id : String, ∃ nonce, (fun _ => .ok Raft.zeros : String → Except String Nonce) id =
      .ok nonce := fun _ => ⟨Raft.zeros, rfl⟩
  obtain ⟨after, id, hwrite, -⟩ := Database.create.read_writeVersion ⟨[7]⟩ Raft.lawful_masking hdraw
    hcarried ⟨"admin", "ahead"⟩ none 1 [] []
  refine ⟨after, id, hwrite, fun json backup commit => ?_⟩
  obtain ⟨text, sealed, orders, -, rfl, -⟩ := writeVersion_eq_ok hwrite
  exact ⟨_, rfl, rfl⟩

end EkEk.Store.Restart
