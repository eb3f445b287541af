import EkEk.Lib.Retained
import EkEk.Lib.Runs
import EkEk.Raft.Wire
import EkEk.Store.Migration

/-!
# The version log over whole runs

Reference: `append_version`, `prune`, `versions`, `roll_back_to` and `prunings` of
`crates/ek-ek-store/src/sqlite.rs`, and `version.rs`.

Every write appends one version, removes the versions past the limit and notes every removal, over three
tables in one transaction. A ledger goes along with the database: the rows as they were first written,
and the audit rows that came in with a write. `log_faithful` compares the two after any sequence of
writes, rollbacks and restarts, whatever of it fails.

A restart may write a document out again. It is the same JSON value then, and the text of it may not be.
-/

namespace EkEk.Store.Log

open Checked Database

variable (cipher : Cipher) (codecs : Codecs) (key : MasterKey) (json : Serde Value)

/-! ## Calls -/

/-- What is asked of the store. -/
inductive Call where
  | write (draw : String → Except String Nonce) (snapshot : Snapshot) (change : Change) (now : ℤ)
  | applyWrite (draw : String → Except String Nonce) (snapshot : Snapshot) (change : Change) (now : ℤ)
      (markers : List (String × String)) (audit : List AuditRecord)
  | rollBackTo (draw : String → Except String Nonce) (id : VersionId) (change : Change) (now : ℤ)

/-- The audit rows that come in with a call. -/
def Call.audit : Call → List AuditRecord
  | .applyWrite _ _ _ _ _ audit => audit
  | _ => []

/-- What a call does if the storage lets it. -/
def perform (database : Database) : Call → Except Error (Database × VersionId)
  | .write draw snapshot change now => database.write cipher codecs key draw snapshot change now
  | .applyWrite draw snapshot change now markers audit =>
    database.writeVersion cipher codecs key draw snapshot change none now markers audit
  | .rollBackTo draw id change now =>
    database.rollBackTo cipher codecs key (targetVersion migrations) draw id change now

/-- What comes of a transaction, with the outcome of the storage given. -/
def settled {α : Type} (storage : Except Error Unit) (done : Except Error α) : Except Error α := do
  let done ← done
  storage
  .ok done

/-- Where a call ends well, what was done is its result. -/
theorem settled_eq_ok {α : Type} {storage : Except Error Unit} {done : Except Error α} {result : α}
    (h : settled storage done = .ok result) : done = .ok result := by
  simp only [settled, bind_eq_ok, Except.ok.injEq] at h
  obtain ⟨_, hdone, _, -, rfl⟩ := h
  exact hdone

/-- What a call is answered. -/
def answer (database : Database) (call : Call) (storage : Except Error Unit) :
    Except Error (Database × VersionId) :=
  settled storage (perform cipher codecs key database call)

/-- A call with how the storage took it, or a new start. -/
inductive Input where
  | call (call : Call) (storage : Except Error Unit)
  | reopen (backup commit : Except Error Unit)

/-- A database, the rows of every version that was ever written with the oldest first, and the audit rows
that came in. -/
structure Ledger where
  database : Database
  written : List (ℤ × VersionRow)
  handed : List AuditRecord

def create : Ledger := ⟨.create, [], []⟩

/-- One call. What was written is what stands under the number that was answered. -/
def step (s : Ledger) : Input → Ledger
  | .call call storage =>
    match answer cipher codecs key s.database call storage with
    | .ok (database, id) =>
      ⟨database, s.written ++ (database.versionAt id).toList, s.handed ++ call.audit⟩
    | .error _ => s
  | .reopen backup commit =>
    { s with database := (openWithMigrations json migrations backup commit s.database).1 }

/-! ## What is proved -/

/-- A row is as it was written: its document is the same value. -/
structure Unchanged (row row' : ℤ × VersionRow) : Prop where
  id : row'.1 = row.1
  recordedAt : row'.2.recordedAt = row.2.recordedAt
  author : row'.2.author = row.2.author
  description : row'.2.description = row.2.description
  restoredFrom : row'.2.restoredFrom = row.2.restoredFrom
  document : json.fromStr row'.2.document = json.fromStr row.2.document

/-- A record of the removal of one version. -/
def Removes (id : ℤ) (record : AuditRecord) : Prop :=
  record.action = prunedAction ∧ record.subject = some (toString id)

instance (id : ℤ) (record : AuditRecord) : Decidable (Removes id record) :=
  inferInstanceAs (Decidable (_ ∧ _))

/-- The log is what the ledger says: numbers go up, the newest versions are there as they were written,
and of each of the others one removal was noted besides what came in. -/
structure Faithful (s : Ledger) : Prop where
  numbers : s.written.Pairwise fun older newer => older.1 < newer.1
  log : List.Forall₂ (Unchanged json) (Retained.kept maxVersions s.written)
    (Keyed.ordered s.database.configVersion)
  removals : ∀ row ∈ Retained.gone maxVersions s.written,
    s.database.auditLog.countP (Removes row.1 ·) = s.handed.countP (Removes row.1 ·) + 1

/-- A call that succeeds adds one version under its number, which is higher than any before, and one that
fails changes nothing. A restart adds nothing. -/
def Adds (s : Ledger) : Input → Prop
  | .call call storage =>
    (∀ error, answer cipher codecs key s.database call storage = .error error →
      step cipher codecs key json s (.call call storage) = s) ∧
    ∀ after id, answer cipher codecs key s.database call storage = .ok (after, id) →
      ∃ row, (step cipher codecs key json s (.call call storage)).written =
          s.written ++ [(id.get, row)] ∧ ∀ other ∈ s.written, other.1 < id.get
  | .reopen backup commit =>
    (step cipher codecs key json s (.reopen backup commit)).written = s.written

variable {cipher codecs key json}

theorem Unchanged.refl (row : ℤ × VersionRow) : Unchanged json row row := ⟨rfl, rfl, rfl, rfl, rfl, rfl⟩

theorem Unchanged.trans {row row' row'' : ℤ × VersionRow} (h : Unchanged json row row')
    (h' : Unchanged json row' row'') : Unchanged json row row'' :=
  ⟨h'.id.trans h.id, h'.recordedAt.trans h.recordedAt, h'.author.trans h.author,
    h'.description.trans h.description, h'.restoredFrom.trans h.restoredFrom,
    h'.document.trans h.document⟩

theorem Unchanged.ids {rows rows' : List (ℤ × VersionRow)}
    (h : List.Forall₂ (Unchanged json) rows rows') : rows'.map Prod.fst = rows.map Prod.fst :=
  forall₂_keys h fun _ _ hrow => hrow.id

/-- What every call that succeeds comes to. -/
theorem perform_eq_ok {database after : Database} {call : Call} {id : VersionId}
    (h : perform cipher codecs key database call = .ok (after, id)) :
    ∃ tables row change now markers, id = ⟨database.nextVersion⟩ ∧
      after = database.recorded tables (database.nextVersion, row) change now markers call.audit := by
  cases call with
  | write draw snapshot change now =>
    obtain ⟨text, sealed, orders, -, hafter, hid⟩ := writeVersion_eq_ok h
    exact ⟨_, _, change, now, [], hid, hafter⟩
  | applyWrite draw snapshot change now markers audit =>
    obtain ⟨text, sealed, orders, -, hafter, hid⟩ := writeVersion_eq_ok h
    exact ⟨_, _, change, now, markers, hid, hafter⟩
  | rollBackTo draw id change now =>
    obtain ⟨_, _, _, -, -, -, hwrite⟩ := rollBackTo_eq_ok h
    obtain ⟨text, sealed, orders, -, hafter, hid⟩ := writeVersion_eq_ok hwrite
    exact ⟨_, _, change, now, [], hid, hafter⟩

/-! ### Pruning -/

section

variable {rows : List (ℤ × VersionRow)} (hstrict : rows.Pairwise fun older newer => older.1 < newer.1)

include hstrict

/-- Rows that stand in order are in order. -/
theorem ordered_eq_self : Keyed.ordered rows = rows := ordered_of_strict (List.Perm.refl _) hstrict

/-- Pruning leaves the versions that are kept. -/
theorem pruned_eq : (rows.filter fun row => row.1 ∉ doomed rows) = Retained.kept maxVersions rows := by
  have hpruned := ordered_pruned (List.Perm.refl rows) hstrict
  rw [List.take_reverse, List.reverse_reverse] at hpruned
  rw [Retained.kept, ← hpruned]
  exact (ordered_eq_self (hstrict.sublist List.filter_sublist)).symm

/-- The versions that are pruned are the ones that are gone. -/
theorem doomed_eq_gone : doomed rows = (Retained.gone maxVersions rows).reverse.map Prod.fst := by
  rw [doomed_eq (List.Perm.refl rows) hstrict, List.drop_reverse]
  rfl

end

/-! ### The invariant -/

/-- What every step keeps. -/
structure Sound (json : Serde Value) (s : Ledger) : Prop where
  numbers : s.written.Pairwise fun older newer => older.1 < newer.1
  below : ∀ row ∈ s.written, 0 ≤ row.1 ∧ row.1 < s.database.nextVersion
  next : 0 ≤ s.database.nextVersion
  log : List.Forall₂ (Unchanged json) (Retained.kept maxVersions s.written) s.database.configVersion
  removals : ∃ records, List.Forall₂ (fun row record => Removes row.1 record)
    (Retained.gone maxVersions s.written) records ∧
    s.database.auditLog.Perm (s.handed ++ records)

theorem Sound.create : Sound json create :=
  ⟨.nil, fun _ h => absurd h List.not_mem_nil, by decide, .nil, [], .nil, .nil⟩

section

variable {s : Ledger}

/-- The rows of the log ascend with what was written. -/
theorem Sound.strict (h : Sound json s) :
    s.database.configVersion.Pairwise fun older newer => older.1 < newer.1 := by
  have hids : (s.database.configVersion.map Prod.fst).Pairwise (· < ·) := by
    rw [Unchanged.ids h.log]
    exact List.pairwise_map.mpr (h.numbers.sublist (List.drop_sublist _ _))
  exact List.pairwise_map.mp hids

/-- A new row goes behind the rows of the log. -/
theorem Sound.strict_append (h : Sound json s) (row : VersionRow) :
    (s.database.configVersion ++ [(s.database.nextVersion, row)]).Pairwise
      fun older newer => older.1 < newer.1 := by
  refine List.pairwise_append.mpr ⟨h.strict, List.pairwise_singleton _ _, ?_⟩
  intro other hother last hlast
  have hid : other.1 ∈ (Retained.kept maxVersions s.written).map Prod.fst := by
    rw [← Unchanged.ids h.log]
    exact List.mem_map_of_mem hother
  obtain ⟨held, hheld, hsame⟩ := List.mem_map.mp hid
  rw [List.mem_singleton.mp hlast, ← hsame]
  exact (h.below held (List.mem_of_mem_drop hheld)).2

/-- The order of the journal aside, what was handed in comes first and what was removed behind it. -/
theorem perm_removals {journal handed removed : List AuditRecord} {doomed gone : List (ℤ × VersionRow)}
    {record : ℤ × VersionRow → AuditRecord} (hperm : journal.Perm (handed ++ removed))
    (hdoomed : doomed.Perm gone) (audit : List AuditRecord) :
    (journal ++ (doomed.map record ++ audit)).Perm
      (handed ++ audit ++ (removed ++ gone.map record)) := by
  have hlater : (doomed.map record ++ audit).Perm (audit ++ gone.map record) :=
    ((hdoomed.map record).append_right audit).trans List.perm_append_comm
  refine (hperm.append hlater).trans ?_
  rw [List.append_assoc, List.append_assoc]
  refine List.Perm.append_left handed ?_
  rw [← List.append_assoc, ← List.append_assoc]
  exact List.perm_append_comm.append_right _

/-- A write appends its row to what was written, and prunes the log with it. -/
theorem Sound.recorded (h : Sound json s) (tables : StateTables) (row : VersionRow) (change : Change)
    (now : ℤ) (markers : List (String × String)) (audit : List AuditRecord) :
    Sound json ⟨s.database.recorded tables (s.database.nextVersion, row) change now markers audit,
      s.written ++ [(s.database.nextVersion, row)], s.handed ++ audit⟩ := by
  have hnext := h.next
  have hstrict := h.strict_append row
  have hgrown : List.Forall₂ (Unchanged json)
      (Retained.kept maxVersions s.written ++ [(s.database.nextVersion, row)])
      (s.database.configVersion ++ [(s.database.nextVersion, row)]) :=
    List.rel_append h.log (.cons (.refl _) .nil)
  obtain ⟨records, hrecords, hperm⟩ := h.removals
  refine ⟨?_, ?_, by show 0 ≤ s.database.nextVersion + 1; omega, ?_, ?_⟩
  · refine List.pairwise_append.mpr ⟨h.numbers, List.pairwise_singleton _ _, ?_⟩
    intro other hother last hlast
    rw [List.mem_singleton.mp hlast]
    exact (h.below other hother).2
  · intro other hother
    show 0 ≤ other.1 ∧ other.1 < s.database.nextVersion + 1
    rcases List.mem_append.mp hother with hbefore | hlast
    · have hbelow := h.below other hbefore
      omega
    · rw [List.mem_singleton.mp hlast]
      exact ⟨hnext, by omega⟩
  · show List.Forall₂ _ _ (List.filter _ _)
    rw [Retained.kept_concat, pruned_eq hstrict]
    exact Retained.kept_forall₂ hgrown
  · -- what is removed now comes behind what was removed before
    refine ⟨records ++ (Retained.gone maxVersions
      (s.database.configVersion ++ [(s.database.nextVersion, row)])).map
        fun row => pruning change now row.1, ?_, ?_⟩
    · rw [Retained.gone_concat]
      refine List.rel_append hrecords (List.forall₂_map_right_iff.mpr ?_)
      exact (Retained.gone_forall₂ hgrown).imp fun row row' hrow =>
        ⟨rfl, congrArg (fun id => some (toString id)) hrow.id⟩
    · show (s.database.auditLog ++ (doomed _).map (pruning change now) ++ audit).Perm _
      rw [doomed_eq_gone hstrict, List.map_map, List.append_assoc]
      exact perm_removals hperm (List.reverse_perm _) audit

/-- A document that is written out again without any step is the same value. -/
theorem migrateText_nil
    (hjson : ∀ value text, json.toString value = .ok text → json.fromStr text = .ok value)
    {text : String} {moved : String × SchemaVersion}
    (h : migrateText json migrations text = .ok moved) : json.fromStr moved.1 = json.fromStr text := by
  simp only [migrateText, bind_eq_ok, mapError_eq_ok, migrateDocument_migrations,
    Except.ok.injEq] at h
  obtain ⟨value, hvalue, result, ⟨-, -, hsame⟩, written, hwritten, rfl⟩ := h
  rw [hvalue]
  exact hjson value written (hsame ▸ hwritten)

/-- A restart leaves every row as it was written. -/
theorem Sound.reopen
    (hjson : ∀ value text, json.toString value = .ok text → json.fromStr text = .ok value)
    (h : Sound json s) (backup commit : Except Error Unit) :
    Sound json { s with
      database := (openWithMigrations json migrations backup commit s.database).1 } := by
  rcases openWithMigrations_cases json migrations backup commit s.database with
    ⟨error, hopen⟩ | ⟨-, hopen⟩ | ⟨-, after, hrows, hopen⟩
  · rw [hopen]
    exact h
  · rw [hopen]
    exact h
  · rw [hopen]
    obtain ⟨-, hversions, hafter⟩ := migrateRows_eq_ok (nodup_of_strict h.strict) hrows
    have hnext : after.nextVersion = s.database.nextVersion := by rw [hafter]
    have haudit : after.auditLog = s.database.auditLog := by rw [hafter]
    refine ⟨h.numbers, ?_, ?_, ?_, ?_⟩
    · show ∀ row ∈ s.written, 0 ≤ row.1 ∧ row.1 < after.nextVersion
      rw [hnext]
      exact h.below
    · show 0 ≤ after.nextVersion
      rw [hnext]
      exact h.next
    · refine forall₂_trans (fun _ _ _ hfirst hsecond => hfirst.trans hsecond) h.log (hversions.imp ?_)
      rintro row _ ⟨moved, hmoved, rfl⟩
      exact ⟨rfl, rfl, rfl, rfl, rfl, migrateText_nil hjson hmoved⟩
    · show ∃ records, _ ∧ after.auditLog.Perm _
      rw [haudit]
      exact h.removals

/-- What a call that succeeds leaves, and the row it wrote. -/
theorem answer_eq_ok {call : Call} {storage : Except Error Unit} {after : Database} {id : VersionId}
    (h : Sound json s) (hanswer : answer cipher codecs key s.database call storage = .ok (after, id)) :
    ∃ tables row change now markers, id = ⟨s.database.nextVersion⟩ ∧
      after = s.database.recorded tables (s.database.nextVersion, row) change now markers call.audit ∧
      after.versionAt id = some (s.database.nextVersion, row) := by
  obtain ⟨tables, row, change, now, markers, rfl, rfl⟩ := perform_eq_ok (settled_eq_ok hanswer)
  refine ⟨tables, row, change, now, markers, rfl, rfl, ?_⟩
  have hstrict := h.strict_append row
  have hversions : (s.database.recorded tables (s.database.nextVersion, row) change now markers
      call.audit).configVersion = Retained.kept maxVersions
        (s.database.configVersion ++ [(s.database.nextVersion, row)]) := pruned_eq hstrict
  rw [versionAt, hversions]
  have hkept := Retained.mem_kept_concat maxVersions s.database.configVersion
    (s.database.nextVersion, row) (by decide)
  exact (Keyed.find?_eq_some
    (nodup_of_strict (hstrict.sublist (List.drop_sublist _ _)))).mpr ⟨hkept, rfl⟩

theorem step_of_answer {call : Call} {storage : Except Error Unit} {after : Database} {id : VersionId}
    (h : answer cipher codecs key s.database call storage = .ok (after, id)) :
    step cipher codecs key json s (.call call storage) =
      ⟨after, s.written ++ (after.versionAt id).toList, s.handed ++ call.audit⟩ := by
  rw [step, h]

theorem step_of_error {call : Call} {storage : Except Error Unit} {error : Error}
    (h : answer cipher codecs key s.database call storage = .error error) :
    step cipher codecs key json s (.call call storage) = s := by
  rw [step, h]

/-- Every input keeps the log sound. -/
theorem Sound.step
    (hjson : ∀ value text, json.toString value = .ok text → json.fromStr text = .ok value)
    (h : Sound json s) (input : Input) : Sound json (step cipher codecs key json s input) := by
  cases input with
  | reopen backup commit => exact h.reopen hjson backup commit
  | call call storage =>
    cases hanswer : answer cipher codecs key s.database call storage with
    | error error =>
      rw [step_of_error hanswer]
      exact h
    | ok done =>
      obtain ⟨after, id⟩ := done
      rw [step_of_answer hanswer]
      obtain ⟨tables, row, change, now, markers, -, rfl, hrow⟩ := answer_eq_ok h hanswer
      rw [hrow]
      exact h.recorded tables row change now markers call.audit

theorem Sound.adds (h : Sound json s) (input : Input) : Adds cipher codecs key json s input := by
  cases input with
  | reopen backup commit => rfl
  | call call storage =>
    refine ⟨fun error hanswer => step_of_error hanswer, fun after id hanswer => ?_⟩
    obtain ⟨tables, row, change, now, markers, rfl, -, hrow⟩ := answer_eq_ok h hanswer
    rw [step_of_answer hanswer, hrow]
    exact ⟨row, rfl, fun other hother => (h.below other hother).2⟩

/-! ### One record for each removal -/

/-- Numbers that are not negative are told apart by how they are written. -/
theorem toString_inj {a b : ℤ} (ha : 0 ≤ a) (hb : 0 ≤ b) : toString a = toString b ↔ a = b := by
  obtain ⟨m, rfl⟩ := Int.eq_ofNat_of_zero_le ha
  obtain ⟨n, rfl⟩ := Int.eq_ofNat_of_zero_le hb
  refine ⟨fun h => ?_, fun h => by rw [h]⟩
  have hdigits := congrArg (fun text : String => Nat.ofDigitChars 10 text.toList 0)
    (show m.repr = n.repr from h)
  simpa [Nat.toList_repr] using hdigits

theorem countP_removes {rows : List (ℤ × VersionRow)} {records : List AuditRecord} {id : ℤ}
    (h : List.Forall₂ (fun row record => Removes row.1 record) rows records) (hid : 0 ≤ id)
    (hrows : ∀ row ∈ rows, 0 ≤ row.1) :
    records.countP (Removes id ·) = (rows.map Prod.fst).count id := by
  induction h with
  | nil => rfl
  | @cons row record rows records hrow _ ih =>
    obtain ⟨haction, hsubject⟩ := hrow
    have hnonneg := hrows row List.mem_cons_self
    have hsame : Removes id record ↔ row.1 = id := by
      rw [Removes, hsubject, Option.some.injEq, toString_inj hnonneg hid]
      exact and_iff_right haction
    have hrest := ih fun other hother => hrows other (List.mem_cons_of_mem _ hother)
    rw [List.countP_cons, List.map_cons, List.count_cons, hrest]
    simp only [hsame, decide_eq_true_eq, beq_iff_eq]

theorem Sound.faithful (h : Sound json s) : Faithful json s := by
  refine ⟨h.numbers, ?_, fun row hrow => ?_⟩
  · rw [ordered_eq_self h.strict]
    exact h.log
  · obtain ⟨records, hrecords, hperm⟩ := h.removals
    have hwritten : ∀ other ∈ Retained.gone maxVersions s.written, 0 ≤ other.1 := fun other hother =>
      (h.below other (List.mem_of_mem_take hother)).1
    have hnodup : ((Retained.gone maxVersions s.written).map Prod.fst).Nodup :=
      nodup_of_strict (h.numbers.sublist (List.take_sublist _ _))
    rw [hperm.countP_eq, List.countP_append, countP_removes hrecords (hwritten row hrow) hwritten,
      List.count_eq_one_of_mem hnodup (List.mem_map_of_mem hrow)]

end

/-- After any sequence of writes, rollbacks and restarts, and whatever of it failed, the log is what the
ledger says, and the next call adds one version or nothing. -/
theorem log_faithful (cipher : Cipher) (codecs : Codecs) (key : MasterKey) (json : Serde Value)
    (hjson : ∀ value text, json.toString value = .ok text → json.fromStr text = .ok value)
    (inputs : List Input) :
    Faithful json (Runs.run (step cipher codecs key json) create inputs) ∧
      ∀ input, Adds cipher codecs key json (Runs.run (step cipher codecs key json) create inputs)
        input := by
  have hsound : Sound json (Runs.run (step cipher codecs key json) create inputs) :=
    Runs.run_inv (fun _ input h => h.step hjson input) .create inputs
  exact ⟨hsound.faithful, hsound.adds⟩

/-- A write, a restart, a write that the storage fails, and a rollback to the first version. -/
def thereAndBack : List Input :=
  [.call (.write (fun _ => .ok Raft.zeros) (.new .empty) ⟨"admin", "first"⟩ 1) (.ok ()),
    .reopen (.ok ()) (.ok ()),
    .call (.write (fun _ => .ok Raft.zeros) (.new .empty) ⟨"admin", "second"⟩ 2)
      (.error ⟨.storage, "disk full"⟩),
    .call (.rollBackTo (fun _ => .ok Raft.zeros) ⟨1⟩ ⟨"admin", "undo"⟩ 3) (.ok ())]

theorem thereAndBack_faithful :
    (Runs.run (step Raft.masking Raft.keptCodecs ⟨[7]⟩ schemaJson) create thereAndBack).written.map
        Prod.fst = [1, 2] ∧
      Faithful schemaJson
        (Runs.run (step Raft.masking Raft.keptCodecs ⟨[7]⟩ schemaJson) create thereAndBack) :=
  ⟨by decide +kernel, (log_faithful Raft.masking Raft.keptCodecs ⟨[7]⟩ schemaJson schemaJson_reads
    thereAndBack).1⟩

end EkEk.Store.Log
