import Mathlib.Data.List.Nodup

/-!
# Maps as rows

A finite map as the list of its rows, no two of them with one key. The order of the rows is the order
the keys came in. Nothing is said of it: what a map holds is said by which rows are in it.
-/

/-- A finite map, row by row. -/
structure Assoc (κ β : Type) where
  rows : List (κ × β)
  nodup : (rows.map Prod.fst).Nodup
deriving DecidableEq, Repr

namespace Assoc

variable {κ β : Type} [DecidableEq κ]

/-- A map with nothing in it. -/
def empty : Assoc κ β := ⟨[], List.nodup_nil⟩

/-- What is held under a key. -/
def get (m : Assoc κ β) (key : κ) : Option β := (m.rows.find? fun row => row.1 = key).map Prod.snd

/-- The rows with one of them put in, in the place of the one with its key if there is one. -/
def put (rows : List (κ × β)) (key : κ) (value : β) : List (κ × β) :=
  if key ∈ rows.map Prod.fst then rows.map fun row => if row.1 = key then (key, value) else row
  else rows ++ [(key, value)]

theorem map_fst_put (rows : List (κ × β)) (key : κ) (value : β) :
    (put rows key value).map Prod.fst =
      if key ∈ rows.map Prod.fst then rows.map Prod.fst else rows.map Prod.fst ++ [key] := by
  rw [put]
  split
  · rw [List.map_map]
    refine List.map_congr_left fun row _ => ?_
    by_cases h : row.1 = key
    · simp [h]
    · simp [h]
  · simp

/-- Put a value under a key. -/
def insert (m : Assoc κ β) (key : κ) (value : β) : Assoc κ β where
  rows := put m.rows key value
  nodup := by
    rw [map_fst_put]
    split
    · exact m.nodup
    · rename_i hnew
      exact List.nodup_append.mpr ⟨m.nodup, List.nodup_singleton _, fun a ha b hb heq =>
        hnew (List.mem_singleton.mp hb ▸ heq ▸ ha)⟩

/-- Keep the rows that pass a test. -/
def retain (m : Assoc κ β) (keep : κ → β → Bool) : Assoc κ β where
  rows := m.rows.filter fun row => keep row.1 row.2
  nodup := m.nodup.sublist (List.filter_sublist.map _)

/-- Take a key out. -/
def remove (m : Assoc κ β) (key : κ) : Assoc κ β := m.retain fun other _ => other ≠ key

variable {m : Assoc κ β} {key : κ} {value : β} {row : κ × β}

theorem get_eq_some : m.get key = some value ↔ (key, value) ∈ m.rows := by
  rw [get, Option.map_eq_some_iff]
  constructor
  · rintro ⟨row, hfind, rfl⟩
    have hkey : row.1 = key := by simpa using List.find?_some hfind
    rw [← hkey]
    exact List.mem_of_find?_eq_some hfind
  · intro hmem
    have hsome : (m.rows.find? fun row => row.1 = key).isSome :=
      List.find?_isSome.mpr ⟨_, hmem, decide_eq_true rfl⟩
    obtain ⟨row, hfind⟩ := Option.isSome_iff_exists.mp hsome
    have hkey : row.1 = key := by simpa using List.find?_some hfind
    have hrow := List.inj_on_of_nodup_map m.nodup (List.mem_of_find?_eq_some hfind) hmem hkey
    exact ⟨row, hfind, congrArg Prod.snd hrow⟩

theorem mem_insert : row ∈ (m.insert key value).rows ↔
    row = (key, value) ∨ row ∈ m.rows ∧ row.1 ≠ key := by
  show row ∈ put m.rows key value ↔ _
  rw [put]
  split
  · rename_i hin
    rw [List.mem_map]
    constructor
    · rintro ⟨old, hold, rfl⟩
      by_cases h : old.1 = key
      · exact .inl (if_pos h)
      · rw [if_neg h]
        exact .inr ⟨hold, h⟩
    · rintro (rfl | ⟨hold, hkey⟩)
      · obtain ⟨old, hold, rfl⟩ := List.mem_map.mp hin
        exact ⟨old, hold, if_pos rfl⟩
      · exact ⟨row, hold, if_neg hkey⟩
  · rename_i hnew
    rw [List.mem_append, List.mem_singleton]
    constructor
    · rintro (hold | rfl)
      · exact .inr ⟨hold, fun hkey => hnew (hkey ▸ List.mem_map_of_mem hold)⟩
      · exact .inl rfl
    · rintro (rfl | ⟨hold, -⟩)
      · exact .inr rfl
      · exact .inl hold

omit [DecidableEq κ] in
@[simp] theorem mem_retain {keep : κ → β → Bool} :
    row ∈ (m.retain keep).rows ↔ row ∈ m.rows ∧ keep row.1 row.2 = true :=
  List.mem_filter

theorem mem_remove : row ∈ (m.remove key).rows ↔ row ∈ m.rows ∧ row.1 ≠ key := by
  simp [remove]

omit [DecidableEq κ] in
theorem rows_nodup (m : Assoc κ β) : m.rows.Nodup := List.Nodup.of_map _ m.nodup

omit [DecidableEq κ] in
/-- No two rows have one key. -/
theorem eq_of_fst_eq {other : κ × β} (h : row ∈ m.rows) (hother : other ∈ m.rows)
    (hkey : row.1 = other.1) : row = other :=
  List.inj_on_of_nodup_map m.nodup h hother hkey

theorem nodup_cons_remove (m : Assoc κ β) (key : κ) (value : β) :
    ((key, value) :: (m.remove key).rows).Nodup :=
  List.nodup_cons.mpr ⟨fun hmem => (mem_remove.mp hmem).2 rfl, (m.remove key).rows_nodup⟩

/-- A row, and the rows that are left without it. -/
theorem perm_cons_remove (h : (key, value) ∈ m.rows) :
    m.rows.Perm ((key, value) :: (m.remove key).rows) := by
  refine (List.perm_ext_iff_of_nodup m.rows_nodup (m.nodup_cons_remove key value)).mpr fun row => ?_
  rw [List.mem_cons, mem_remove]
  constructor
  · intro hrow
    by_cases hkey : row.1 = key
    · exact .inl (eq_of_fst_eq hrow h hkey)
    · exact .inr ⟨hrow, hkey⟩
  · rintro (rfl | ⟨hrow, -⟩)
    · exact h
    · exact hrow

/-- A row that is put in, and the rows that were there under other keys. -/
theorem insert_perm (m : Assoc κ β) (key : κ) (value : β) :
    (m.insert key value).rows.Perm ((key, value) :: (m.remove key).rows) := by
  refine (List.perm_ext_iff_of_nodup (m.insert key value).rows_nodup
    (m.nodup_cons_remove key value)).mpr fun row => ?_
  rw [List.mem_cons, mem_remove, mem_insert]

/-- A key that is not there is not taken out. -/
theorem rows_remove_of_none (h : m.get key = none) : (m.remove key).rows = m.rows := by
  refine List.filter_eq_self.mpr fun row hrow => decide_eq_true fun hkey => ?_
  have hget : m.get key = some row.2 := get_eq_some.mpr (hkey ▸ hrow)
  exact absurd (h.symm.trans hget) (Option.some_ne_none row.2).symm

/-- What is found after a row was put in. -/
theorem get_insert (m : Assoc κ β) (key : κ) (value : β) (other : κ) :
    (m.insert key value).get other = if other = key then some value else m.get other := by
  refine Option.ext fun found => ?_
  rw [get_eq_some, mem_insert]
  split <;> rename_i h
  · rw [h, Option.some_inj]
    constructor
    · rintro (heq | ⟨-, hne⟩)
      · exact (Prod.mk.inj heq).2.symm
      · exact absurd rfl hne
    · rintro rfl
      exact .inl rfl
  · rw [get_eq_some]
    constructor
    · rintro (heq | ⟨hmem, -⟩)
      · exact absurd (Prod.mk.inj heq).1 h
      · exact hmem
    · exact fun hmem => .inr ⟨hmem, h⟩

end Assoc
