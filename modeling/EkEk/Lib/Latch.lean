import Mathlib.Data.List.Basic

/-!
# Latches

A latch is a mark that one signal puts up and another takes down, each only when it changes something.
`Latched on off mark signals` is the history of such a mark: what has been signalled so far, with the
mark it has left. Whatever keeps it signals `on` and `off` in turn, starting with `on`, and its mark
says whether an `on` still stands.
-/

namespace Latch

variable {α : Type*} {on off : α} {mark : Bool} {signals : List α}

/-- The two signals in turn, starting with the first. -/
def Alternates : α → α → List α → Prop
  | _, _, [] => True
  | on, off, signal :: rest => signal = on ∧ Alternates off on rest

/-- The first signal has been given since the second was given last. -/
def Stands (on off : α) (signals : List α) : Prop :=
  ∃ before after, signals = before ++ on :: after ∧ off ∉ after

/-- The signals a mark has given, and the mark they left. -/
inductive Latched (on off : α) : Bool → List α → Prop where
  | new : Latched on off false []
  | raised {signals : List α} (h : Latched on off false signals) : Latched on off true (signals ++ [on])
  | cleared {signals : List α} (h : Latched on off true signals) :
    Latched on off false (signals ++ [off])

/-- What puts the mark up, and signals it if it was not up. -/
theorem Latched.raise (h : Latched on off mark signals) :
    Latched on off true (signals ++ if mark then [] else [on]) := by
  cases mark with
  | false => exact h.raised
  | true => exact (List.append_nil signals).symm ▸ h

/-- What takes the mark down, and signals it if it was not down. -/
theorem Latched.clear (h : Latched on off mark signals) :
    Latched on off false (signals ++ if mark then [off] else []) := by
  cases mark with
  | false => exact (List.append_nil signals).symm ▸ h
  | true => exact h.cleared

/-- What puts the mark up where that is due, and signals it if it was not up. -/
theorem Latched.raiseIf (h : Latched on off mark signals) (due : Bool) :
    Latched on off (mark || (due && !mark)) (signals ++ if due && !mark then [on] else []) := by
  cases mark with
  | true =>
    rw [Bool.not_true, Bool.and_false]
    exact h.raise
  | false =>
    cases due with
    | true => exact h.raise
    | false => exact h.clear

/-- Which signal comes next is decided by how many there have been. -/
theorem Alternates.concat (h : Alternates on off signals) :
    Alternates on off (signals ++ [if signals.length % 2 = 0 then on else off]) := by
  induction signals generalizing on off with
  | nil => exact ⟨rfl, trivial⟩
  | cons signal rest ih =>
    refine ⟨h.1, ?_⟩
    have hnext := ih h.2
    have hparity : (signal :: rest).length % 2 = 0 ↔ ¬ rest.length % 2 = 0 := by
      rw [List.length_cons]
      omega
    by_cases hrest : rest.length % 2 = 0
    · rw [if_pos hrest] at hnext
      rw [if_neg (fun heven => hparity.mp heven hrest)]
      exact hnext
    · rw [if_neg hrest] at hnext
      rw [if_pos (hparity.mpr hrest)]
      exact hnext

theorem Latched.length (h : Latched on off mark signals) : signals.length % 2 = mark.toNat := by
  induction h with
  | new => rfl
  | raised _ ih =>
    rw [List.length_append, List.length_singleton]
    rw [Bool.toNat_false] at ih
    rw [Bool.toNat_true]
    omega
  | cleared _ ih =>
    rw [List.length_append, List.length_singleton]
    rw [Bool.toNat_true] at ih
    rw [Bool.toNat_false]
    omega

theorem Latched.alternates (h : Latched on off mark signals) : Alternates on off signals := by
  induction h with
  | new => trivial
  | @raised signals h ih =>
    have heven : signals.length % 2 = 0 := h.length
    have hnext := ih.concat
    rw [if_pos heven] at hnext
    exact hnext
  | @cleared signals h ih =>
    have hodd : signals.length % 2 = 1 := h.length
    have hnext := ih.concat
    rw [if_neg (by omega)] at hnext
    exact hnext

theorem not_stands_concat (hne : on ≠ off) (signals : List α) : ¬ Stands on off (signals ++ [off]) := by
  rintro ⟨before, after, happend, hafter⟩
  rcases List.eq_nil_or_concat after with rfl | ⟨front, last, rfl⟩
  · exact hne (List.append_inj_right' happend rfl |> List.cons.inj |>.1).symm
  · rw [List.concat_eq_append] at hafter happend
    have hlast : [off] = [last] := by
      rw [← List.cons_append, ← List.append_assoc] at happend
      exact List.append_inj_right' happend rfl
    exact hafter (List.mem_append_right _ (hlast ▸ List.mem_singleton_self off))

/-- The mark is up exactly as long as the signal that puts it up stands. -/
theorem Latched.stands_iff (hne : on ≠ off) (h : Latched on off mark signals) :
    Stands on off signals ↔ mark = true := by
  cases h with
  | new =>
    refine iff_of_false ?_ Bool.false_ne_true
    rintro ⟨before, after, hnil, -⟩
    exact absurd hnil.symm (by simp)
  | raised h => exact iff_of_true ⟨_, [], rfl, List.not_mem_nil⟩ rfl
  | cleared h => exact iff_of_false (not_stands_concat hne _) Bool.false_ne_true

end Latch
