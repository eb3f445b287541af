import Mathlib.Data.List.Infix

/-!
# Streaks

How many times in a row a history ended with one and the same answer, and what a switch does that two
streaks throw: so many of one answer in a row throw it, and so many of the other one throw it back.
`Thrown` says so of a whole history. The equations for one more answer are what a counter that starts
anew at every change can be held against.
-/

namespace Streaks

variable {α : Type*} [DecidableEq α] {a b : α} {n : ℕ} {history : List α}

/-- How many times in a row an answer was given last. -/
def streak (a : α) (history : List α) : ℕ := (history.reverse.takeWhile fun answer => answer = a).length

@[simp] theorem streak_nil (a : α) : streak a [] = 0 := rfl

@[simp] theorem streak_concat_self (a : α) (history : List α) :
    streak a (history ++ [a]) = streak a history + 1 := by
  rw [streak, List.reverse_append, List.reverse_singleton, List.singleton_append,
    List.takeWhile_cons_of_pos (by simp), List.length_cons, streak]

@[simp] theorem streak_concat_of_ne (h : b ≠ a) (history : List α) :
    streak a (history ++ [b]) = 0 := by
  rw [streak, List.reverse_append, List.reverse_singleton, List.singleton_append,
    List.takeWhile_cons_of_neg (by simpa using h), List.length_nil]

/-- The streaks of an answer that a history ends with. -/
theorem replicate_suffix_iff : List.replicate n a <:+ history ↔ n ≤ streak a history := by
  induction history using List.reverseRecOn generalizing n with
  | nil =>
    rw [List.suffix_nil, List.replicate_eq_nil_iff, streak_nil, Nat.le_zero]
  | append_singleton history last ih =>
    cases n with
    | zero => exact iff_of_true List.nil_suffix (Nat.zero_le _)
    | succ n =>
      rw [List.replicate_succ']
      by_cases h : last = a
      · subst h
        rw [List.suffix_append_self_iff, ih, streak_concat_self, Nat.succ_le_succ_iff]
      · rw [streak_concat_of_ne h]
        refine iff_of_false ?_ (Nat.not_succ_le_zero n)
        rintro ⟨front, happend⟩
        rw [← List.append_assoc] at happend
        exact h (List.cons.inj (List.append_inj_right' happend rfl)).1.symm

omit [DecidableEq α] in
/-- A streak does not reach back over another answer. -/
theorem suffix_of_suffix_append (h : a ≠ b) {front after : List α}
    (hsuffix : List.replicate n b <:+ front ++ a :: after) : List.replicate n b <:+ after := by
  rcases List.suffix_or_suffix_of_suffix hsuffix (List.suffix_append front (a :: after)) with
    hinside | haround
  · rcases List.suffix_cons_iff.mp hinside with heq | hafter
    · exact absurd (List.eq_of_mem_replicate (heq ▸ List.mem_cons_self)) h
    · exact hafter
  · exact absurd (List.eq_of_mem_replicate (haround.subset List.mem_cons_self)) h

/-- A streak of the first answer was given, and none of the second one since. -/
def Thrown (a b : α) (down up : ℕ) (history : List α) : Prop :=
  ∃ before after, history = before ++ List.replicate down a ++ after ∧
    ¬ List.replicate up b <:+: after

variable {down up : ℕ}

omit [DecidableEq α] in
theorem not_thrown_nil (hdown : 0 < down) : ¬ Thrown a b down up [] := by
  rintro ⟨before, after, hnil, -⟩
  have hlength := congrArg List.length hnil
  simp only [List.length_nil, List.length_append, List.length_replicate] at hlength
  omega

/-- One more of the first answer. -/
theorem thrown_concat_first (h : a ≠ b) (hup : 0 < up) : Thrown a b down up (history ++ [a]) ↔
    Thrown a b down up history ∨ down ≤ streak a (history ++ [a]) := by
  constructor
  · rintro ⟨before, after, happend, hnone⟩
    rcases List.eq_nil_or_concat' after with rfl | ⟨after, last, rfl⟩
    · refine .inr (replicate_suffix_iff.mp ⟨before, ?_⟩)
      rw [happend, List.append_nil]
    · rw [← List.append_assoc] at happend
      refine .inl ⟨before, after, List.append_inj_left' happend rfl, fun hinfix => hnone ?_⟩
      exact hinfix.trans (List.prefix_append after [last]).isInfix
  · rintro (⟨before, after, rfl, hnone⟩ | hstreak)
    · refine ⟨before, after ++ [a], (List.append_assoc _ _ _), fun hinfix => ?_⟩
      rcases List.infix_concat_iff.mp hinfix with hsuffix | hearlier
      · have hend := suffix_of_suffix_append h hsuffix
        rw [List.suffix_nil, List.replicate_eq_nil_iff] at hend
        omega
      · exact hnone hearlier
    · obtain ⟨before, happend⟩ := replicate_suffix_iff.mpr hstreak
      refine ⟨before, [], by rw [happend, List.append_nil], fun hinfix => ?_⟩
      rw [List.infix_nil, List.replicate_eq_nil_iff] at hinfix
      omega

/-- One more of the second answer. -/
theorem thrown_concat_second (h : a ≠ b) (hdown : 0 < down) : Thrown a b down up (history ++ [b]) ↔
    Thrown a b down up history ∧ streak b (history ++ [b]) < up := by
  obtain ⟨fewer, rfl⟩ := Nat.exists_eq_succ_of_ne_zero hdown.ne'
  have hsplit : ∀ before after : List α, before ++ List.replicate (fewer + 1) a ++ after =
      (before ++ List.replicate fewer a) ++ a :: after := fun before after => by
    rw [List.replicate_succ']
    simp
  constructor
  · rintro ⟨before, after, happend, hnone⟩
    have hstreak : streak b (history ++ [b]) < up := by
      by_contra hlong
      have hsuffix := replicate_suffix_iff.mpr (not_lt.mp hlong)
      rw [happend, hsplit] at hsuffix
      exact hnone (suffix_of_suffix_append h hsuffix).isInfix
    rcases List.eq_nil_or_concat' after with rfl | ⟨after, last, rfl⟩
    · rw [hsplit] at happend
      exact absurd (List.cons.inj (List.append_inj_right' happend rfl)).1.symm h
    · rw [← List.append_assoc] at happend
      refine ⟨⟨before, after, List.append_inj_left' happend rfl, fun hinfix => hnone ?_⟩, hstreak⟩
      exact hinfix.trans (List.prefix_append after [last]).isInfix
  · rintro ⟨⟨before, after, rfl, hnone⟩, hstreak⟩
    refine ⟨before, after ++ [b], (List.append_assoc _ _ _), fun hinfix => ?_⟩
    rcases List.infix_concat_iff.mp hinfix with hsuffix | hearlier
    · refine absurd (replicate_suffix_iff.mp (hsuffix.trans ?_)) (not_le.mpr hstreak)
      exact ⟨_, (List.append_assoc _ _ _).symm⟩
    · exact hnone hearlier

end Streaks
