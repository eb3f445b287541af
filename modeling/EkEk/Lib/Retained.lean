import Mathlib.Data.List.Forall2

/-!
# A list that is kept to a limit

A list grows at its end and loses its oldest elements when it gets longer than a limit. What is `kept` of
the whole list and what is `gone` from it can be computed element by element: `kept_concat` and
`gone_concat` say what one more element does, given only what was kept before it. Lists that are related
element by element are kept to a limit in the same places.
-/

namespace Retained

variable {α : Type*} (limit : ℕ) (l : List α) (x : α)

/-- The newest elements, up to the limit. -/
def kept : List α := l.drop (l.length - limit)

/-- The elements past the limit. -/
def gone : List α := l.take (l.length - limit)

/-- Nothing is lost but what is in front. -/
theorem gone_append_kept : gone limit l ++ kept limit l = l := List.take_append_drop _ _

/-- As many are kept as there are, up to the limit. -/
@[simp] theorem length_kept : (kept limit l).length = min l.length limit := by
  rw [kept, List.length_drop]
  omega

/-- One more element than was there, seen from what was kept. -/
theorem concat_eq : l ++ [x] = gone limit l ++ (kept limit l ++ [x]) := by
  rw [← List.append_assoc, gone_append_kept]

theorem length_concat : (l ++ [x]).length - limit =
    (gone limit l).length + ((kept limit l ++ [x]).length - limit) := by
  rw [gone, List.length_take, List.length_append, List.length_append, length_kept, List.length_singleton]
  omega

/-- Whether the front was cut off before does not change what is kept behind one more. -/
theorem kept_concat : kept limit (l ++ [x]) = kept limit (kept limit l ++ [x]) := by
  conv_lhs => rw [kept, length_concat, concat_eq limit l x]
  rw [List.drop_append, List.drop_eq_nil_of_le (Nat.le_add_right _ _), List.nil_append,
    Nat.add_sub_cancel_left]
  rfl

/-- What is gone behind one more is what was gone before, and what goes for it. -/
theorem gone_concat : gone limit (l ++ [x]) = gone limit l ++ gone limit (kept limit l ++ [x]) := by
  conv_lhs => rw [gone, length_concat, concat_eq limit l x]
  rw [List.take_append, List.take_of_length_le (Nat.le_add_right _ _), Nat.add_sub_cancel_left]
  rfl

/-- The newest element is kept. -/
theorem mem_kept_concat (h : 0 < limit) : x ∈ kept limit (l ++ [x]) := by
  have hle : (l ++ [x]).length - limit ≤ l.length := by
    rw [List.length_append, List.length_singleton]
    omega
  rw [kept, List.drop_append_of_le_length hle]
  exact List.mem_append_right _ List.mem_cons_self

section

variable {limit l} {β : Type*} {R : α → β → Prop} {l' : List β}

/-- What is kept of related lists is related. -/
theorem kept_forall₂ (h : List.Forall₂ R l l') : List.Forall₂ R (kept limit l) (kept limit l') := by
  rw [kept, kept, ← h.length_eq]
  exact List.forall₂_drop _ h

theorem gone_forall₂ (h : List.Forall₂ R l l') : List.Forall₂ R (gone limit l) (gone limit l') := by
  rw [gone, gone, ← h.length_eq]
  exact List.forall₂_take _ h

end

end Retained
