import EkEk.Lib.Checked
import EkEk.Store.Sqlite

/-!
# The journal

Reference: the `Journal` implementation of `crates/ek-ek-store/src/sqlite.rs`, and `journal.rs`.

The tables consensus keeps beside the configuration: a numbered log of records, a few named markers,
and one snapshot. Positions are unsigned numbers of 64 bits above and signed ones in the database, so
a position is checked on its way in. The log is kept in the order of its positions, which is the
order every query reads it in.
-/

namespace EkEk.Store

/-- One record of the replication log. -/
structure Record where
  index : UInt64
  payload : String
deriving DecidableEq, Repr

namespace Marker

def purged : String := "purged"

def applied : String := "applied"

def membership : String := "membership"

end Marker

/-- The largest position the database holds. -/
def mostPosition : ℕ := 2 ^ 63 - 1

/-- A position as the database keeps it. -/
def asI64 (value : UInt64) : Except Error ℕ :=
  if value.toNat ≤ mostPosition then .ok value.toNat
  else .error ⟨.storage, s!"a log position of {value} is beyond what this store holds"⟩

/-- Put a row at a position, in place of the one that is there. -/
def upsert (position : ℕ) (payload : String) : List (ℕ × String) → List (ℕ × String)
  | [] => [(position, payload)]
  | row :: rest =>
    if row.1 < position then row :: upsert position payload rest
    else if row.1 = position then (position, payload) :: rest
    else (position, payload) :: row :: rest

/-- The tables consensus keeps: the log by its positions, the markers by their names, and the
snapshot with what is said about it. -/
structure Journal where
  log : List (ℕ × String)
  markers : Finmap fun _ : String => String
  snapshot : Option (String × List UInt8)

namespace Journal

def create : Journal := ⟨[], ∅, none⟩

/-- Append records, all of them or none. -/
def append (journal : Journal) (records : List Record) : Except Error Journal := do
  let log ← records.foldlM (fun log record => do
    let position ← asI64 record.index
    .ok (upsert position record.payload log)) journal.log
  .ok { journal with log := log }

/-- The records from a position and below another one. -/
def records (journal : Journal) (first last : UInt64) : Except Error (List Record) := do
  let first ← asI64 first
  let last ← asI64 last
  .ok ((journal.log.filter fun row => first ≤ row.1 ∧ row.1 < last).map fun row =>
    ⟨.ofNat row.1, row.2⟩)

/-- The lowest and the highest position still held. -/
def span (journal : Journal) : Option (UInt64 × UInt64) :=
  match journal.log.head?, journal.log.getLast? with
  | some first, some last => some (.ofNat first.1, .ofNat last.1)
  | _, _ => none

/-- Remove every record from a position upward. -/
def truncateFrom (journal : Journal) (index : UInt64) : Except Error Journal := do
  let position ← asI64 index
  .ok { journal with log := journal.log.filter fun row => row.1 < position }

/-- Remove every record up to a position. -/
def purgeUpto (journal : Journal) (index : UInt64) : Except Error Journal := do
  let position ← asI64 index
  .ok { journal with log := journal.log.filter fun row => position < row.1 }

/-- Keep a named value, or forget it. -/
def setMarker (journal : Journal) (name : String) : Option String → Journal
  | some value => { journal with markers := journal.markers.insert name value }
  | none => { journal with markers := journal.markers.erase name }

def marker (journal : Journal) (name : String) : Option String := journal.markers.lookup name

def setSnapshot (journal : Journal) (about : String) (data : List UInt8) : Journal :=
  { journal with snapshot := some (about, data) }

end Journal

section

variable {position : ℕ} {value : UInt64}

theorem asI64_eq_ok : asI64 value = .ok position ↔ value.toNat ≤ mostPosition ∧ value.toNat = position := by
  rw [asI64]
  split
  · rename_i h
    simp [h]
  · rename_i h
    simp [h]

theorem asI64_of_le (h : value.toNat ≤ mostPosition) : asI64 value = .ok value.toNat :=
  asI64_eq_ok.mpr ⟨h, rfl⟩

/-- A row above all others goes to the end. -/
theorem upsert_of_lt {rows : List (ℕ × String)} (h : ∀ row ∈ rows, row.1 < position)
    (payload : String) : upsert position payload rows = rows ++ [(position, payload)] := by
  induction rows with
  | nil => rfl
  | cons row rest ih =>
    rw [upsert, if_pos (h row List.mem_cons_self),
      ih fun other hother => h other (List.mem_cons_of_mem _ hother), List.cons_append]

namespace Journal

variable {journal : Journal}

/-- Records above everything that is held, in the order of their positions, go to the end. -/
theorem append_of_lt {records : List Record}
    (hbound : ∀ record ∈ records, record.index.toNat ≤ mostPosition)
    (hsorted : records.Pairwise fun first second => first.index.toNat < second.index.toNat)
    (habove : ∀ row ∈ journal.log, ∀ record ∈ records, row.1 < record.index.toNat) :
    journal.append records = .ok { journal with
      log := journal.log ++ records.map fun record => (record.index.toNat, record.payload) } := by
  have hfold : ∀ log, (∀ row ∈ log, ∀ record ∈ records, row.1 < record.index.toNat) →
      records.foldlM (fun log record => do
        let position ← asI64 record.index
        .ok (upsert position record.payload log)) log =
      (.ok (log ++ records.map fun record => (record.index.toNat, record.payload)) :
        Except Error (List (ℕ × String))) := by
    clear habove
    induction records with
    | nil =>
      intro log _
      simp [pure, Except.pure]
    | cons record rest ih =>
      intro log habove
      rw [List.pairwise_cons] at hsorted
      have hrow : ∀ row ∈ log, row.1 < record.index.toNat :=
        fun row hrow => habove row hrow record List.mem_cons_self
      rw [List.foldlM_cons, asI64_of_le (hbound record List.mem_cons_self)]
      simp only [Checked.ok_bind]
      rw [upsert_of_lt hrow, ih (fun other hother => hbound other (List.mem_cons_of_mem _ hother))
        hsorted.2, List.map_cons, List.append_assoc, List.singleton_append]
      intro row hmem other hother
      rcases List.mem_append.mp hmem with hmem | hmem
      · exact habove row hmem other (List.mem_cons_of_mem _ hother)
      · rw [List.mem_singleton.mp hmem]
        exact hsorted.1 other hother
  rw [append, hfold journal.log habove]
  rfl

theorem records_of_le {first last : UInt64} (hfirst : first.toNat ≤ mostPosition)
    (hlast : last.toNat ≤ mostPosition) :
    journal.records first last = .ok ((journal.log.filter fun row =>
      first.toNat ≤ row.1 ∧ row.1 < last.toNat).map fun row => ⟨.ofNat row.1, row.2⟩) := by
  rw [records, asI64_of_le hfirst, asI64_of_le hlast]
  rfl

/-- Records can be read exactly where both ends of the range are positions of the database. -/
theorem records_fails_iff {first last : UInt64} : (∃ error, journal.records first last = .error error) ↔
    ¬ (first.toNat ≤ mostPosition ∧ last.toNat ≤ mostPosition) := by
  constructor
  · rintro ⟨error, herror⟩ ⟨hfirst, hlast⟩
    rw [records_of_le hfirst hlast] at herror
    cases herror
  · intro h
    cases hread : journal.records first last with
    | error error => exact ⟨error, rfl⟩
    | ok read =>
      rw [records] at hread
      simp only [Checked.bind_eq_ok, asI64_eq_ok] at hread
      obtain ⟨_, ⟨hfirst, -⟩, _, ⟨hlast, -⟩, -⟩ := hread
      exact absurd ⟨hfirst, hlast⟩ h

end Journal

end

end EkEk.Store
