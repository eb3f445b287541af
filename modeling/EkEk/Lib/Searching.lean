import Mathlib.Data.List.Infix

/-!
# Looking for a pattern in a list

`find` is where a pattern first stands in a list. When no occurrence of the pattern lies across the joint
of two lists, looking through the one and then through the other is looking through both
(`find_append`).
-/

namespace Searching

variable {α : Type*} [DecidableEq α] {pattern l r : List α} {i : ℕ}

/-- Where a pattern first stands. -/
def find (pattern : List α) : List α → Option ℕ
  | [] => if pattern = [] then some 0 else none
  | a :: l => if pattern.isPrefixOf (a :: l) then some 0 else (find pattern l).map (· + 1)

/-- No occurrence of a pattern that begins in the first list ends in the second. -/
def Parted (pattern l r : List α) : Prop := ∀ i < l.length, pattern <+: l.drop i ++ r → pattern <+: l.drop i

omit [DecidableEq α] in
theorem Parted.tail {a : α} (h : Parted pattern (a :: l) r) : Parted pattern l r := fun i hi hbegins =>
  h (i + 1) (Nat.succ_lt_succ hi) hbegins

omit [DecidableEq α] in
/-- No occurrence goes on into a list that begins with what the pattern does not have. -/
theorem parted_of_head (h : ∀ a ∈ r.head?, a ∉ pattern) : Parted pattern l r := by
  intro i hi hbegins
  by_cases hlength : pattern.length ≤ (l.drop i).length
  · exact List.prefix_of_prefix_length_le hbegins (List.prefix_append _ r) hlength
  · cases r with
    | nil => rwa [List.append_nil] at hbegins
    | cons a r =>
      have hfront : l.drop i ++ [a] <+: pattern := by
        have hlonger : l.drop i ++ [a] <+: l.drop i ++ a :: r := ⟨r, by simp⟩
        refine List.prefix_of_prefix_length_le hlonger hbegins ?_
        rw [List.length_append, List.length_singleton]
        omega
      exact absurd (hfront.subset (by simp)) (h a rfl)

/-- A pattern stands where it is found. -/
theorem prefix_of_find (h : find pattern l = some i) : pattern <+: l.drop i := by
  induction l generalizing i with
  | nil =>
    rw [find] at h
    split at h <;> rename_i hnil
    · rw [hnil]
      exact List.nil_prefix
    · cases h
  | cons a l ih =>
    rw [find] at h
    split at h <;> rename_i hbegins
    · rw [← Option.some.inj h]
      exact List.isPrefixOf_iff_prefix.mp hbegins
    · obtain ⟨j, hj, rfl⟩ := Option.map_eq_some_iff.mp h
      exact ih hj

theorem le_length_of_find (h : find pattern l = some i) : i ≤ l.length := by
  induction l generalizing i with
  | nil =>
    rw [find] at h
    split at h
    · exact (Option.some.inj h).ge
    · cases h
  | cons a l ih =>
    rw [find] at h
    split at h
    · exact (Option.some.inj h).symm ▸ Nat.zero_le _
    · obtain ⟨j, hj, rfl⟩ := Option.map_eq_some_iff.mp h
      exact Nat.succ_le_succ (ih hj)

theorem add_length_le_of_find (h : find pattern l = some i) : i + pattern.length ≤ l.length := by
  have := (prefix_of_find h).length_le
  have := le_length_of_find h
  rw [List.length_drop] at *
  omega

/-- Something is found when the pattern stands in the list. -/
theorem isSome_find_iff : (find pattern l).isSome ↔ pattern <:+: l := by
  induction l with
  | nil =>
    rw [find, List.infix_nil]
    split <;> simp_all
  | cons a l ih =>
    rw [find, List.infix_cons_iff, ← ih, ← List.isPrefixOf_iff_prefix]
    split <;> simp_all

/-- A pattern is not found where it stands nowhere. -/
theorem find_eq_none_iff : find pattern l = none ↔ ¬ pattern <:+: l := by
  rw [← isSome_find_iff, Option.not_isSome_iff_eq_none]

/-- Looking through two lists is looking through the one and then through the other. -/
theorem find_append (hne : pattern ≠ []) (h : Parted pattern l r) :
    find pattern (l ++ r) = (find pattern l).or ((find pattern r).map (· + l.length)) := by
  induction l with
  | nil => simp [find, hne]
  | cons a l ih =>
    rw [List.cons_append, find, find]
    by_cases hbegins : pattern <+: a :: l
    · have hall : pattern <+: a :: (l ++ r) := hbegins.trans (List.prefix_append (a :: l) r)
      rw [if_pos (List.isPrefixOf_iff_prefix.mpr hbegins), if_pos (List.isPrefixOf_iff_prefix.mpr hall)]
      rfl
    · have hnot : ¬ pattern <+: a :: (l ++ r) := fun hall => hbegins (h 0 (Nat.succ_pos _) hall)
      rw [if_neg (mt List.isPrefixOf_iff_prefix.mp hbegins), if_neg (mt List.isPrefixOf_iff_prefix.mp hnot),
        ih h.tail]
      cases find pattern l <;> cases find pattern r <;> simp [Nat.add_assoc]

/-- What is found in a list is found in what begins with it. -/
theorem find_append_of_some (h : find pattern l = some i) (r : List α) : find pattern (l ++ r) = some i := by
  induction l generalizing i with
  | nil =>
    rw [find] at h
    split at h <;> rename_i hnil
    · subst hnil
      cases r <;> simpa [find] using h
    · cases h
  | cons a l ih =>
    rw [find] at h
    rw [List.cons_append, find]
    split at h <;> rename_i hbegins
    · have hall : pattern <+: a :: (l ++ r) :=
        (List.isPrefixOf_iff_prefix.mp hbegins).trans (List.prefix_append (a :: l) r)
      rw [if_pos (List.isPrefixOf_iff_prefix.mpr hall)]
      exact h
    · obtain ⟨j, hj, rfl⟩ := Option.map_eq_some_iff.mp h
      -- What is found further on fits in the list, so an occurrence here would too.
      have hnot : ¬ pattern <+: a :: (l ++ r) := by
        intro hall
        have hlength := add_length_le_of_find hj
        refine hbegins (List.isPrefixOf_iff_prefix.mpr (List.prefix_of_prefix_length_le hall
          (List.prefix_append (a :: l) r) ?_))
        rw [List.length_cons]
        omega
      rw [if_neg (mt List.isPrefixOf_iff_prefix.mp hnot), ih hj]
      rfl

end Searching
