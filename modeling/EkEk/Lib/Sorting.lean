import Mathlib.Data.List.Sort
import Mathlib.Data.List.TakeWhile

/-!
# Sorting

What a list sorted by a relation is, up to the order it came in. Elements the relation does not tell
apart keep the order they came in, so two orders of one list sort alike only when there are no such
elements in it.
-/

namespace Sorting

variable {α : Type*} {r : α → α → Prop} [DecidableRel r]

/-- The relation tells the elements of a list apart. -/
def Apart (r : α → α → Prop) (l : List α) : Prop := ∀ a ∈ l, ∀ b ∈ l, r a b → r b a → a = b

/-- A list sorts the same in every order. -/
theorem insertionSort_eq_of_perm [Std.Total r] [IsTrans α r] {l l' : List α} (h : Apart r l)
    (hperm : l.Perm l') : l.insertionSort r = l'.insertionSort r := by
  refine List.Perm.eq_of_pairwise ?_ (List.pairwise_insertionSort r l) (List.pairwise_insertionSort r l')
    ((List.perm_insertionSort r l).trans (hperm.trans (List.perm_insertionSort r l').symm))
  intro a b ha hb
  exact h a ((List.mem_insertionSort r).mp ha) b (hperm.mem_iff.mpr ((List.mem_insertionSort r).mp hb))

/-- One element more goes somewhere between the others. -/
theorem insertionSort_cons_eq_append (a : α) (l : List α) :
    ∃ before after, l.insertionSort r = before ++ after ∧
      (a :: l).insertionSort r = before ++ a :: after ∧ ∀ b ∈ before, ¬ r a b := by
  refine ⟨(l.insertionSort r).takeWhile fun b => decide ¬ r a b,
    (l.insertionSort r).dropWhile fun b => decide ¬ r a b, List.takeWhile_append_dropWhile.symm, ?_, ?_⟩
  · rw [List.insertionSort_cons, List.orderedInsert_eq_take_drop]
  · intro b hb
    simpa using List.mem_takeWhile_imp hb

/-- Leaving out what does not pass a test and sorting can be done in either order. -/
theorem filter_insertionSort [Std.Total r] [IsTrans α r] (p : α → Bool) (l : List α) (h : Apart r l) :
    (l.insertionSort r).filter p = (l.filter p).insertionSort r := by
  refine List.Perm.eq_of_pairwise ?_ ((List.pairwise_insertionSort r l).sublist List.filter_sublist)
    (List.pairwise_insertionSort r _)
    (((List.perm_insertionSort r l).filter p).trans (List.perm_insertionSort r (l.filter p)).symm)
  intro a b ha hb
  exact h a ((List.mem_insertionSort r).mp (List.mem_of_mem_filter ha)) b
    (List.mem_of_mem_filter ((List.mem_insertionSort r).mp hb))

/-! ## Sorting by a key -/

section

variable {κ : Type*} [LinearOrder κ] {key : α → κ}

/-- Compare by a key. -/
def By (key : α → κ) (a b : α) : Prop := key a ≤ key b

instance : DecidableRel (By key) := fun a b => inferInstanceAs (Decidable (key a ≤ key b))

instance : Std.Total (By key) := ⟨fun a b => le_total (key a) (key b)⟩

instance : IsTrans α (By key) := ⟨fun _ _ _ => le_trans⟩

/-- Different keys tell elements apart. -/
theorem apart_by {l : List α} (h : (l.map key).Nodup) : Apart (By key) l := fun _ ha _ hb hab hba =>
  List.inj_on_of_nodup_map h ha hb (le_antisymm hab hba)

end

end Sorting
