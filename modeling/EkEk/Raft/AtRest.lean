import EkEk.Raft.Disk

/-!
# Key material at rest

Reference: `keep` of `crates/ek-ek-raft/src/log.rs`, `build_snapshot`, `apply` and `install_snapshot` of
`machine.rs`, and the writes of `crates/ek-ek-store/src/sqlite.rs`.

The secrets of a state are sealed where they reach their own table. The record of an entry and the data
of a snapshot are the JSON of a state that travels, and the secrets are in it as they are.

`nothing_unsealed` compares two runs that differ in the bytes of secrets only. Their databases are the
same but for the sealed values whenever no record and no snapshot carries a secret with a byte in it;
`record_shows_a_secret` is what the log keeps otherwise.
-/

namespace EkEk.Raft

open Store Checked

/-! ## Two runs -/

/-- Two states that differ in the bytes of secrets only. -/
structure SnapshotTwin (first second : Snapshot) : Prop where
  config : first.config = second.config
  secrets : ∀ id, Option.Rel (fun one other => one.expose.length = other.expose.length)
    (first.secrets.lookup id) (second.secrets.lookup id)
  cluster : first.cluster = second.cluster
  joins : first.joins = second.joins
  removed : first.removed = second.removed
  orders : first.orders = second.orders

/-- Two states on their way that differ in the bytes of secrets only. -/
structure WireTwin (first second : WireSnapshot) : Prop where
  config : first.config = second.config
  secrets : ∀ id, Option.Rel (fun one other => one.length = other.length)
    (first.secrets.lookup id) (second.secrets.lookup id)
  cluster : first.cluster = second.cluster
  joins : first.joins = second.joins
  removed : first.removed = second.removed
  orders : first.orders = second.orders

/-- The same of everything a node holds. -/
structure FullTwin (first second : Database.FullState) : Prop where
  snapshot : Option.Rel SnapshotTwin first.snapshot second.snapshot
  versions : first.versions = second.versions
  audit : first.audit = second.audit

/-- The same of everything a node that catches up receives. -/
structure StateTwin (first second : WireState) : Prop where
  snapshot : Option.Rel WireTwin first.snapshot second.snapshot
  versions : first.versions = second.versions
  audit : first.audit = second.audit

/-- The same of two entries. -/
inductive EntryTwin : Entry WirePayload → Entry WirePayload → Prop
  | same (entry : Entry WirePayload) : EntryTwin entry entry
  | normal (id : LogId) {first second : WireSnapshot} (h : WireTwin first second)
      (change : WireChange) (now : ℤ) (audit : List WireAudit) :
      EntryTwin ⟨id, .normal ⟨first, change, now, audit⟩⟩ ⟨id, .normal ⟨second, change, now, audit⟩⟩

/-- Two operations that differ in the bytes of secrets only. A payload is the same, or the text of two
states that do. -/
inductive OperationTwin (state : Serde WireState) : Operation → Operation → Prop
  | append {first second : List (Entry WirePayload)} (h : List.Forall₂ EntryTwin first second) :
      OperationTwin state (.append first) (.append second)
  | apply {first second : Entry WirePayload} (h : EntryTwin first second)
      (draw : String → Except String Nonce) :
      OperationTwin state (.apply first draw) (.apply second draw)
  | buildSnapshot : OperationTwin state .buildSnapshot .buildSnapshot
  | installSame (about : SnapshotMeta) (payload : List UInt8)
      (draw : String → Except String Nonce) (now : ℤ) :
      OperationTwin state (.installSnapshot about payload draw now)
        (.installSnapshot about payload draw now)
  | installSnapshot {first second : WireState} (h : StateTwin first second) {one other : String}
      (hone : state.toString first = .ok one) (hreadOne : state.fromStr one = .ok first)
      (hother : state.toString second = .ok other) (about : SnapshotMeta)
      (draw : String → Except String Nonce) (now : ℤ) :
      OperationTwin state (.installSnapshot about (Text.bytes one) draw now)
        (.installSnapshot about (Text.bytes other) draw now)
  | write {first second : Snapshot} (h : SnapshotTwin first second) (change : Change)
      (draw : String → Except String Nonce) (now : ℤ) :
      OperationTwin state (.write first change draw now) (.write second change draw now)
  | importState {first second : Database.FullState} (h : FullTwin first second)
      (markers : List (String × String)) (draw : String → Except String Nonce) (now : ℤ) :
      OperationTwin state (.importState first markers draw now) (.importState second markers draw now)

/-- A database with the sealed values left out. -/
def unsealed (database : Database) : Database :=
  { database with tables := { database.tables with
      secret := database.tables.secret.map fun row => (row.1, ⟨[], []⟩) } }

/-! ## What must not be written out -/

/-- A state on its way has no secret with a byte in it. -/
def WireSnapshot.Bare (state : WireSnapshot) : Prop :=
  ∀ id bytes, state.secrets.lookup id = some bytes → bytes = []

namespace Setting

variable (setting : Setting)

/-- A database has no secret with a byte in it. -/
def Hollow (database : Database) : Prop :=
  ∀ row ∈ database.tables.secret, ∀ opened,
    Database.openRow setting.cipher setting.key row = .ok opened → opened.2.expose = []

/-- Neither a record of the log nor a snapshot that is kept carries a secret with a byte in it. -/
def Unexposed (database : Database) : Operation → Prop
  | .append entries => ∀ entry ∈ entries, ∀ request, entry.payload = .normal request →
    request.state.Bare
  | .buildSnapshot => setting.Hollow database
  | .installSnapshot _ payload _ _ => ∀ wire, setting.parsed payload = .ok wire →
    ∀ state ∈ wire.snapshot, state.Bare
  | _ => True

end Setting

/-! ## States that differ in their secrets -/

section

variable {first second : Snapshot} {one other : WireSnapshot}

theorem SnapshotTwin.refl (snapshot : Snapshot) : SnapshotTwin snapshot snapshot := by
  refine ⟨rfl, fun id => ?_, rfl, rfl, rfl, rfl⟩
  cases snapshot.secrets.lookup id with
  | none => exact .none
  | some secret => exact .some rfl

theorem FullTwin.refl (state : Database.FullState) : FullTwin state state := by
  refine ⟨?_, rfl, rfl⟩
  cases state.snapshot with
  | none => exact .none
  | some snapshot => exact .some (.refl snapshot)

/-- States that differ in their secrets only arrive as such. -/
theorem WireTwin.snapshot (h : WireTwin one other) : SnapshotTwin one.snapshot other.snapshot := by
  obtain ⟨hconfig, hsecrets, hcluster, hjoins, hremoved, horders⟩ := h
  refine ⟨hconfig, fun id => ?_, ?_, ?_, ?_, ?_⟩
  · have hid := hsecrets id.asStr
    have hlookup : ∀ secrets : Finmap fun _ : String => List UInt8,
        (Keyed.mapped bare SecretId.key Secret.mk secrets).lookup (SecretId.key.symm id.asStr) =
          (secrets.lookup id.asStr).map Secret.mk :=
      fun secrets => Keyed.lookup_mapped Secret.mk id.asStr
    show Option.Rel _ ((Keyed.mapped bare SecretId.key Secret.mk one.secrets).lookup
        (SecretId.key.symm id.asStr))
      ((Keyed.mapped bare SecretId.key Secret.mk other.secrets).lookup
        (SecretId.key.symm id.asStr))
    rw [hlookup, hlookup]
    generalize one.secrets.lookup id.asStr = held at hid ⊢
    generalize other.secrets.lookup id.asStr = held' at hid ⊢
    cases hid with
    | none => exact .none
    | some hlength => exact .some hlength
  · simp only [WireSnapshot.snapshot, hcluster]
  · simp only [WireSnapshot.snapshot, hjoins]
  · simp only [WireSnapshot.snapshot, hremoved]
  · simp only [WireSnapshot.snapshot, horders]

/-- A state without a byte in its secrets differs from none that differs in those only. -/
theorem WireTwin.eq_of_bare (h : WireTwin one other) (hbare : one.Bare) : one = other := by
  have hsecrets : one.secrets = other.secrets := by
    refine Finmap.ext_lookup fun id => ?_
    have hid := h.secrets id
    have hempty := hbare id
    generalize one.secrets.lookup id = held at hid hempty ⊢
    generalize other.secrets.lookup id = held' at hid ⊢
    cases hid with
    | none => rfl
    | some hlength =>
      obtain rfl := hempty _ rfl
      rw [List.eq_nil_of_length_eq_zero hlength.symm]
  obtain ⟨config, secrets, cluster, joins, removed, orders⟩ := one
  obtain ⟨config', secrets', cluster', joins', removed', orders'⟩ := other
  obtain ⟨rfl, -, rfl, rfl, rfl, rfl⟩ := h
  obtain rfl : secrets = secrets' := hsecrets
  rfl

theorem StateTwin.eq_of_bare {one other : WireState} (h : StateTwin one other)
    (hbare : ∀ state ∈ one.snapshot, state.Bare) : one = other := by
  obtain ⟨snapshot, versions, audit⟩ := one
  obtain ⟨snapshot', versions', audit'⟩ := other
  obtain ⟨hsnapshot, rfl, rfl⟩ := h
  cases hsnapshot with
  | none => rfl
  | some htwin => rw [htwin.eq_of_bare (hbare _ rfl)]

theorem EntryTwin.eq_of_bare {one other : Entry WirePayload} (h : EntryTwin one other)
    (hbare : ∀ request, one.payload = .normal request → request.state.Bare) : one = other := by
  cases h with
  | same => rfl
  | normal id htwin change now audit => rw [htwin.eq_of_bare (hbare _ rfl)]

theorem entries_eq_of_bare {one other : List (Entry WirePayload)}
    (h : List.Forall₂ EntryTwin one other)
    (hbare : ∀ entry ∈ one, ∀ request, entry.payload = .normal request → request.state.Bare) :
    one = other := by
  induction h with
  | nil => rfl
  | cons hentry _ ih =>
    rw [hentry.eq_of_bare (hbare _ List.mem_cons_self),
      ih fun entry hmem => hbare entry (List.mem_cons_of_mem _ hmem)]

end

/-! ## Databases that differ in what is sealed -/

namespace Setting

variable (setting : Setting)

/-- Two sealed secrets of one name, of the same length. -/
def SealedTwin (one other : String × Sealed) : Prop :=
  one.1 = other.1 ∧ ∃ plain plain' : Secret,
    Database.openRow setting.cipher setting.key one = .ok (one.1, plain) ∧
    Database.openRow setting.cipher setting.key other = .ok (other.1, plain') ∧
    plain.expose.length = plain'.expose.length

/-- Tables that differ in what is sealed only. -/
structure TablesTwin (one other : StateTables) : Prop where
  configState : one.configState = other.configState
  secret : List.Forall₂ setting.SealedTwin one.secret other.secret
  joinToken : one.joinToken = other.joinToken
  removedNode : one.removedNode = other.removedNode
  acmeOrder : one.acmeOrder = other.acmeOrder
  clusterIdentity : one.clusterIdentity = other.clusterIdentity

/-- Databases that differ in what is sealed only. -/
structure Shadowed (one other : Database) : Prop where
  tables : setting.TablesTwin one.tables other.tables
  configVersion : one.configVersion = other.configVersion
  nextVersion : one.nextVersion = other.nextVersion
  auditLog : one.auditLog = other.auditLog
  journal : one.journal = other.journal

variable {setting} {one other : Database}

theorem SealedTwin.keys {rows rows' : List (String × Sealed)}
    (h : List.Forall₂ setting.SealedTwin rows rows') : rows.map Prod.fst = rows'.map Prod.fst := by
  induction h with
  | nil => rfl
  | cons hrow _ ih => rw [List.map_cons, List.map_cons, hrow.1, ih]

/-- Nothing but the sealed values tells the databases apart. -/
theorem Shadowed.unsealed (h : setting.Shadowed one other) : unsealed one = Raft.unsealed other := by
  have hkeys := SealedTwin.keys h.tables.secret
  obtain ⟨⟨configState, secret, joinToken, removedNode, acmeOrder, clusterIdentity⟩, configVersion,
    nextVersion, auditLog, journal⟩ := one
  obtain ⟨⟨configState', secret', joinToken', removedNode', acmeOrder', clusterIdentity'⟩,
    configVersion', nextVersion', auditLog', journal'⟩ := other
  obtain ⟨⟨rfl, -, rfl, rfl, rfl, rfl⟩, rfl, rfl, rfl, rfl⟩ := h
  have hrows : (secret.map fun row => (row.1, (⟨[], []⟩ : Sealed))) =
      secret'.map fun row => (row.1, ⟨[], []⟩) := by
    have hmap := congrArg (List.map fun name => (name, (⟨[], []⟩ : Sealed))) hkeys
    rwa [List.map_map, List.map_map] at hmap
  simp only [Raft.unsealed, hrows]

/-- Sealing secrets of the same length gets through for both or for neither. -/
theorem sealed_twins (hcipher : setting.cipher.Lawful) (draw : String → Except String Nonce)
    {first second : Snapshot} (h : SnapshotTwin first second) :
    Both (List.Forall₂ setting.SealedTwin)
      ((Keyed.rows SecretId.key first.secrets).mapM
        (Database.sealRow setting.cipher setting.key draw))
      ((Keyed.rows SecretId.key second.secrets).mapM
        (Database.sealRow setting.cipher setting.key draw)) := by
  refine Both.mapM (Keyed.rows_forall₂ h.secrets) ?_
  rintro ⟨name, plain⟩ ⟨name', plain'⟩ ⟨rfl, hlength⟩
  cases hdraw : draw name with
  | error error =>
    simp only [Database.sealRow, Cipher.sealing, hdraw, mapError_error]
    exact .error _ _
  | ok nonce =>
    obtain ⟨sealed, hsealed, hname, hopened⟩ :=
      Database.openRow_sealRow setting.key hcipher (name, plain) hdraw
    obtain ⟨sealed', hsealed', hname', hopened'⟩ :=
      Database.openRow_sealRow setting.key hcipher (name, plain') hdraw
    rw [hsealed, hsealed']
    refine .ok ⟨hname.trans hname'.symm, plain, plain', ?_, ?_, hlength⟩
    · rw [hopened, hname]
    · rw [hopened', hname']

theorem stateTables_twins {first second : Snapshot} (h : SnapshotTwin first second)
    {sealed sealed' : List (String × Sealed)}
    (hsealed : List.Forall₂ setting.SealedTwin sealed sealed') (document : String)
    (orders : List (String × OrderRow)) (now : ℤ) :
    setting.TablesTwin (Database.stateTables document sealed orders first now)
      (Database.stateTables document sealed' orders second now) := by
  refine ⟨?_, hsealed, ?_, ?_, rfl, ?_⟩
  · simp only [Database.stateTables, h.config]
  · simp only [Database.stateTables, h.joins]
  · simp only [Database.stateTables, h.removed]
  · simp only [Database.stateTables, h.cluster]

/-- A write of states that differ in their secrets only leaves databases that differ in what is sealed
only. -/
theorem Shadowed.writeVersion (h : setting.Shadowed one other) (hcipher : setting.cipher.Lawful)
    {first second : Snapshot} (htwin : SnapshotTwin first second)
    (draw : String → Except String Nonce) (change : Change) (restored : Option VersionId) (now : ℤ)
    (markers : List (String × String)) (audit : List AuditRecord) :
    Both (fun left right => setting.Shadowed left.1 right.1)
      (one.writeVersion setting.cipher setting.codecs setting.key draw first change restored now
        markers audit)
      (other.writeVersion setting.cipher setting.codecs setting.key draw second change restored now
        markers audit) := by
  rw [Database.writeVersion, Database.writeVersion, htwin.config, htwin.orders]
  refine Both.bind_same fun document => ?_
  refine (sealed_twins hcipher draw htwin).bind fun sealed sealed' hsealed => ?_
  refine Both.bind_same fun orders => .ok ?_
  have hversion : one.appended document first change restored now =
      other.appended document second change restored now := by
    simp only [Database.appended, h.nextVersion, htwin.config]
  rw [hversion]
  refine ⟨stateTables_twins htwin hsealed document orders now, ?_, ?_, ?_, ?_⟩
  · simp only [Database.recorded, h.configVersion]
  · simp only [Database.recorded, h.nextVersion]
  · simp only [Database.recorded, h.configVersion, h.auditLog]
  · simp only [Database.recorded, h.journal]

/-- The same of an import. -/
theorem Shadowed.imported (h : setting.Shadowed one other) (hcipher : setting.cipher.Lawful)
    {first second : Database.FullState} (htwin : FullTwin first second)
    (draw : String → Except String Nonce) (now : ℤ) (markers : List (String × String)) :
    Both setting.Shadowed
      (one.imported setting.cipher setting.codecs setting.key draw first now markers)
      (other.imported setting.cipher setting.codecs setting.key draw second now markers) := by
  have htables : Both setting.TablesTwin
      (Database.importedTables setting.cipher setting.codecs setting.key draw now first.snapshot)
      (Database.importedTables setting.cipher setting.codecs setting.key draw now
        second.snapshot) := by
    have hsnapshot := htwin.snapshot
    generalize first.snapshot = held at hsnapshot ⊢
    generalize second.snapshot = held' at hsnapshot ⊢
    cases hsnapshot with
    | none => exact .ok ⟨rfl, .nil, rfl, rfl, rfl, rfl⟩
    | some hstate =>
      simp only [Database.importedTables, hstate.config, hstate.orders]
      refine (sealed_twins hcipher draw hstate).bind fun sealed sealed' hsealed => ?_
      refine Both.bind_same fun orders => Both.bind_same fun document => .ok ?_
      exact stateTables_twins hstate hsealed document orders now
  rw [Database.imported, Database.imported, htwin.versions]
  refine htables.bind fun tables tables' hpair => Both.bind_same fun _ => .ok ?_
  refine ⟨hpair, ?_, ?_, htwin.audit, ?_⟩
  · simp only [Database.replaced, htwin.versions]
  · simp only [Database.replaced, htwin.versions, h.nextVersion]
  · simp only [Database.replaced, h.journal]

/-- A change to the tables of consensus is the same on both. -/
theorem Shadowed.journaled (h : setting.Shadowed one other) (journal : Journal) :
    setting.Shadowed { one with journal := journal } { other with journal := journal } :=
  ⟨h.tables, h.configVersion, h.nextVersion, h.auditLog, rfl⟩

theorem Shadowed.keep (h : setting.Shadowed one other) (entries : List (Entry WirePayload)) :
    Both setting.Shadowed (setting.keep one entries) (setting.keep other entries) := by
  rw [Setting.keep, Setting.keep, h.journal]
  exact Both.bind_same fun journal => .ok (h.journaled journal)

theorem Shadowed.applied (h : setting.Shadowed one other) (hcipher : setting.cipher.Lawful)
    {entry entry' : Entry WirePayload} (htwin : EntryTwin entry entry')
    (draw : String → Except String Nonce) :
    Both setting.Shadowed (setting.applied one draw entry) (setting.applied other draw entry') := by
  have hnormal : ∀ (id : LogId) (first second : WireSnapshot) (change : WireChange) (now : ℤ)
      (audit : List WireAudit), SnapshotTwin first.snapshot second.snapshot →
      Both setting.Shadowed (setting.applied one draw ⟨id, .normal ⟨first, change, now, audit⟩⟩)
        (setting.applied other draw ⟨id, .normal ⟨second, change, now, audit⟩⟩) := by
    intro id first second change now audit hstates
    refine Both.bind_same fun written => ?_
    exact ((h.writeVersion hcipher hstates draw change.change none now written _).mapError _ _).bind
      fun left right hpair => .ok hpair
  cases htwin with
  | same =>
    obtain ⟨id, payload⟩ := entry
    cases payload with
    | blank =>
      simp only [Setting.applied, h.journal]
      exact Both.bind_same fun written => .ok (h.journaled _)
    | membership membership =>
      simp only [Setting.applied, h.journal]
      exact Both.bind_same fun written => .ok (h.journaled _)
    | normal request => exact hnormal id request.state request.state _ _ _ (.refl _)
  | normal id hstates change now audit => exact hnormal id _ _ change now audit hstates.snapshot

/-- Secrets without a byte in them are opened as such, and so are those of the same length. -/
theorem opened_of_hollow {rows rows' : List (String × Sealed)}
    (h : List.Forall₂ setting.SealedTwin rows rows')
    (hhollow : ∀ row ∈ rows, ∀ opened,
      Database.openRow setting.cipher setting.key row = .ok opened → opened.2.expose = []) :
    (∀ row ∈ rows, Database.openRow setting.cipher setting.key row = .ok (row.1, ⟨[]⟩)) ∧
    ∀ row ∈ rows', Database.openRow setting.cipher setting.key row = .ok (row.1, ⟨[]⟩) := by
  induction h with
  | nil => exact ⟨fun _ hrow => (nomatch hrow), fun _ hrow => (nomatch hrow)⟩
  | cons hrow _ ih =>
    obtain ⟨-, ⟨plain⟩, ⟨plain'⟩, hopened, hopened', hlength⟩ := hrow
    obtain rfl : plain = [] := hhollow _ List.mem_cons_self _ hopened
    obtain rfl : plain' = [] := List.eq_nil_of_length_eq_zero hlength.symm
    obtain ⟨hrest, hrest'⟩ := ih fun row hmem => hhollow row (List.mem_cons_of_mem _ hmem)
    exact ⟨List.forall_mem_cons.mpr ⟨hopened, hrest⟩, List.forall_mem_cons.mpr ⟨hopened', hrest'⟩⟩

/-- Databases without a byte in their secrets read out the same. -/
theorem Shadowed.exported (h : setting.Shadowed one other) (hhollow : setting.Hollow one) :
    one.exported setting.cipher setting.codecs setting.key =
      other.exported setting.cipher setting.codecs setting.key := by
  obtain ⟨hopened, hopened'⟩ := opened_of_hollow h.tables.secret hhollow
  have hsecrets : (Keyed.ordered one.tables.secret).mapM
        (Database.openRow setting.cipher setting.key) =
      (Keyed.ordered other.tables.secret).mapM (Database.openRow setting.cipher setting.key) := by
    have hkeys : (Keyed.ordered one.tables.secret).map Prod.fst =
        (Keyed.ordered other.tables.secret).map Prod.fst := by
      rw [Keyed.map_fst_ordered, Keyed.map_fst_ordered, SealedTwin.keys h.tables.secret]
    have hrows := congrArg (List.map fun name => (name, (⟨[]⟩ : Secret))) hkeys
    rw [List.map_map, List.map_map] at hrows
    rw [mapM_eq_ok fun row hrow => hopened row (Keyed.mem_ordered.mp hrow),
      mapM_eq_ok fun row hrow => hopened' row (Keyed.mem_ordered.mp hrow)]
    exact congrArg Except.ok hrows
  have htables := h.tables
  simp only [Database.exported, Database.read, Database.readTables, htables.configState, hsecrets,
    htables.acmeOrder, htables.clusterIdentity, htables.joinToken, htables.removedNode,
    h.configVersion, h.auditLog]

/-- A snapshot that is built of them is the same. -/
theorem Shadowed.buildSnapshot (h : setting.Shadowed one other) (hhollow : setting.Hollow one) :
    Both setting.Shadowed (setting.buildSnapshot one) (setting.buildSnapshot other) := by
  rw [Setting.buildSnapshot, Setting.buildSnapshot, h.exported hhollow]
  simp only [readMarker, h.journal]
  refine Both.bind_same fun state => Both.bind_same fun applied => Both.bind_same fun membership => ?_
  refine Both.bind_same fun payload => Both.bind_same fun about => .ok ?_
  exact h.journaled _

theorem Shadowed.importing (h : setting.Shadowed one other) (hcipher : setting.cipher.Lawful)
    (draw : String → Except String Nonce) (now : ℤ) (about : SnapshotMeta) (payload : List UInt8) :
    Both setting.Shadowed (setting.importing one draw now about payload)
      (setting.importing other draw now about payload) := by
  refine Both.bind_same fun wire => Both.bind_same fun written => ?_
  exact (h.imported hcipher (.refl wire.state) draw now written).mapError _ _

theorem Shadowed.left {ε ε' : Type} (h : setting.Shadowed one other) {result : Except ε Database}
    {result' : Except ε' Database} (hboth : Both setting.Shadowed result result') :
    setting.Shadowed (Setting.left one result) (Setting.left other result') := by
  cases hboth with
  | ok hnext => exact hnext
  | error => exact h

theorem parsed_bytes {text : String} {wire : WireState} (h : setting.state.fromStr text = .ok wire) :
    setting.parsed (Text.bytes text) = .ok wire := by
  simp only [parsed, Text.fromUtf8_bytes, h, mapError_ok]

/-- An operation that exposes no secret keeps two databases apart in what is sealed only. -/
theorem Shadowed.step {operation operation' : Operation} (h : setting.Shadowed one other)
    (hcipher : setting.cipher.Lawful) (htwin : OperationTwin setting.state operation operation')
    (hunexposed : setting.Unexposed one operation) :
    setting.Shadowed (setting.step one operation) (setting.step other operation') := by
  have hinstall : ∀ about payload draw now, setting.Shadowed
      (setting.step one (.installSnapshot about payload draw now))
      (setting.step other (.installSnapshot about payload draw now)) := by
    intro about payload draw now
    have himporting := h.importing hcipher draw now about payload
    simp only [Setting.step]
    generalize setting.importing one draw now about payload = result at himporting ⊢
    generalize setting.importing other draw now about payload = result' at himporting ⊢
    cases himporting with
    | error => exact h
    | ok hnext =>
      refine hnext.left (Both.bind_same fun text => .ok ?_)
      rw [hnext.journal]
      exact hnext.journaled _
  cases htwin with
  | append hentries =>
    obtain rfl := entries_eq_of_bare hentries hunexposed
    exact h.left (h.keep _)
  | apply hentry draw => exact h.left (h.applied hcipher hentry draw)
  | buildSnapshot => exact h.left (h.buildSnapshot hunexposed)
  | installSame about payload draw now => exact hinstall about payload draw now
  | installSnapshot hstate hone hread hother about draw now =>
    obtain rfl := hstate.eq_of_bare (hunexposed _ (parsed_bytes hread))
    obtain rfl := Except.ok.inj (hone.symm.trans hother)
    exact hinstall about _ draw now
  | write hsnapshot change draw now =>
    refine h.left ?_
    have hboth := h.writeVersion hcipher hsnapshot draw change none now [] []
    exact hboth.bind fun _ _ hpair => .ok hpair
  | importState hstate markers draw now => exact h.left (h.imported hcipher hstate draw now markers)

/-- Two runs that differ in the bytes of secrets only leave databases that are the same but for the
sealed values, if no record of the log and no snapshot that is kept carries a secret with a byte in
it. -/
theorem nothing_unsealed (setting : Setting) (hcipher : setting.cipher.Lawful)
    (first second : List Operation)
    (htwin : List.Forall₂ (OperationTwin setting.state) first second)
    (hunexposed : Runs.Along setting.step setting.Unexposed .create first) :
    unsealed (Runs.run setting.step .create first) =
      Raft.unsealed (Runs.run setting.step .create second) := by
  have hstart : setting.Shadowed .create .create :=
    ⟨⟨rfl, .nil, rfl, rfl, rfl, rfl⟩, rfl, rfl, rfl, rfl⟩
  have hstep : ∀ one other operation operation', setting.Shadowed one other →
      OperationTwin setting.state operation operation' → setting.Unexposed one operation →
      setting.Shadowed (setting.step one operation) (setting.step other operation') :=
    fun _ _ _ _ h hpair hmeets => h.step hcipher hpair hmeets
  exact (Runs.Along.rel hstep hstart htwin hunexposed).unsealed

end Setting

/-! ### Two disks -/

/-- Maps with one entry each are related where the entries are. -/
theorem rel_singleton {κ β : Type} [DecidableEq κ] {R : β → β → Prop} {key : κ} {one other : β}
    (h : R one other) (id : κ) :
    Option.Rel R ((Finmap.singleton key one : Finmap fun _ : κ => β).lookup id)
      ((Finmap.singleton key other : Finmap fun _ : κ => β).lookup id) := by
  by_cases hid : id = key
  · subst hid
    simpa using Option.Rel.some h
  · rw [Finmap.lookup_eq_none.mpr ((Finmap.mem_singleton _ _ _).not.mpr hid),
      Finmap.lookup_eq_none.mpr ((Finmap.mem_singleton _ _ _).not.mpr hid)]
    exact .none

/-- The first entry of a log, with a state that has a key in it. -/
def exposing (bytes : List UInt8) : Entry WirePayload :=
  ⟨Machine.idAt 1, .normal ⟨⟨.empty, Finmap.singleton "web.key" bytes, none, ∅, [], ∅⟩,
    ⟨"operator", "first"⟩, 10, []⟩⟩

/-- What is written for its identity. -/
def idText : String := "\x7b\"leader_id\":\x7b\"term\":1,\"node_id\":7\x7d,\"index\":1\x7d"

/-- What is written for it before the key. -/
def recordHead : String :=
  "\x7b\"log_id\":" ++ idText ++ ",\"payload\":\x7b\"Normal\":\x7b\"state\":\x7b\"config\":" ++
  emptyText ++ ",\"secrets\":\x7b\"web.key\":"

/-- What is written for it behind the key. -/
def recordTail : String :=
  "\x7d,\"cluster\":null,\"joins\":\x7b\x7d,\"removed\":[],\"orders\":\x7b\x7d\x7d,\"change\":" ++
  "\x7b\"author\":\"operator\",\"description\":\"first\"\x7d,\"now_unix\":10,\"audit\":[]\x7d\x7d\x7d"

/-- What is written for it. -/
def recordText (bytes : List UInt8) : String := recordHead ++ toString bytes ++ recordTail

/-- The JSON library at such entries and at one that carries nothing. -/
def entryJson : Serde (Entry WirePayload) where
  toString entry :=
    match entry.payload with
    | .normal request => .ok (recordText ((request.state.secrets.lookup "web.key").getD []))
    | _ => .ok ("\x7b\"log_id\":" ++ idText ++ ",\"payload\":\"Blank\"\x7d")
  fromStr _ := .error "not read"

/-- A node's store, with the JSON library at what an empty database is written out as. -/
def disk : Setting where
  cipher := masking
  key := ⟨[7]⟩
  codecs := keptCodecs
  log := ⟨entryJson, onlyJson (Machine.idAt 1) idText⟩
  membership := onlyJson .default
    "\x7b\"log_id\":null,\"membership\":\x7b\"configs\":[],\"nodes\":\x7b\x7d\x7d\x7d"
  about := onlyJson ⟨none, .default, "empty"⟩ ("\x7b\"last_log_id\":null,\"last_membership\":" ++
    "\x7b\"log_id\":null,\"membership\":\x7b\"configs\":[],\"nodes\":\x7b\x7d\x7d\x7d," ++
    "\"snapshot_id\":\"empty\"\x7d")
  state := onlyJson ⟨none, [], []⟩ "\x7b\"snapshot\":null,\"versions\":[],\"audit\":[]\x7d"
  display := System.named

/-- A snapshot of an empty database, an entry that carries nothing, and a write with a key in it. -/
def sealing (bytes : List UInt8) : List Operation :=
  [.buildSnapshot, .append [⟨Machine.idAt 1, .blank⟩],
    .apply ⟨Machine.idAt 1, .blank⟩ (fun _ => .ok zeros),
    .write { kept with secrets := Finmap.singleton ⟨"web.order"⟩ ⟨bytes⟩ } ⟨"operator", "first"⟩
      (fun _ => .ok zeros) 10]

/-- The key is told from no other one of its length, but for what is sealed. -/
theorem nothing_unsealed_sealing :
    unsealed (Runs.run disk.step .create (sealing [1, 2])) =
      unsealed (Runs.run disk.step .create (sealing [3, 4])) := by
  have hsecrets : SnapshotTwin { kept with secrets := Finmap.singleton ⟨"web.order"⟩ ⟨[1, 2]⟩ }
      { kept with secrets := Finmap.singleton ⟨"web.order"⟩ ⟨[3, 4]⟩ } := by
    exact ⟨rfl, rel_singleton rfl, rfl, rfl, rfl, rfl⟩
  refine Setting.nothing_unsealed disk lawful_masking (sealing [1, 2]) (sealing [3, 4]) ?_ ?_
  · exact .cons .buildSnapshot (.cons (.append (.cons (.same _) .nil))
      (.cons (.apply (.same _) _) (.cons (.write hsecrets _ _ _) .nil)))
  · refine ⟨fun _ hrow => (nomatch hrow), ?_, trivial, trivial, trivial⟩
    rintro entry hentry request hrequest
    obtain rfl := List.mem_singleton.mp hentry
    nomatch hrequest

/-- Two logs whose one record carries a key of one byte are told apart by that byte. -/
theorem record_shows_a_secret :
    List.Forall₂ (OperationTwin disk.state) [.append [exposing [1]]] [.append [exposing [2]]] ∧
    unsealed (Runs.run disk.step .create [.append [exposing [1]]]) ≠
      unsealed (Runs.run disk.step .create [.append [exposing [2]]]) := by
  have hstates : WireTwin ⟨.empty, Finmap.singleton "web.key" [1], none, ∅, [], ∅⟩
      ⟨.empty, Finmap.singleton "web.key" [2], none, ∅, [], ∅⟩ :=
    ⟨rfl, rel_singleton rfl, rfl, rfl, rfl, rfl⟩
  have htwin : EntryTwin (exposing [1]) (exposing [2]) := .normal _ hstates _ _ _
  constructor
  · exact .cons (.append (.cons htwin .nil)) .nil
  · intro h
    have hlogs := congrArg (fun database => database.journal.log.map Prod.snd) h
    have hrecords : recordText [1] = recordText [2] := List.singleton_injective hlogs
    have hkeys : toString ([1] : List UInt8) = toString ([2] : List UInt8) :=
      (String.append_right_inj _).mp ((String.append_left_inj _).mp hrecords)
    exact absurd hkeys (by decide)

end EkEk.Raft
