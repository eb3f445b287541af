import Mathlib.Algebra.Order.BigOperators.Group.List
import Mathlib.Data.Int.Order.Basic
import Mathlib.Tactic.Ring

/-!
# How often something is tried again

The times of tries that all went wrong, the latest of them first. `Paced` says that every try waited for
as long as the number of tries before it asks for, on a clock that stops at `top`; then the tries together
span at least the sum of the waits (`Paced.span`). `Polled` is about the other direction: something that is
looked at often enough, and that holds back no longer than a wait after it was last done, is done again and
again (`Polled.lt`).
-/

namespace Pacing

/-! ## No sooner -/

section

variable (wait : ℕ → ℤ) (top : ℤ)

/-- The waits behind the first tries. -/
def spent (tries : ℕ) : ℤ := ((List.range tries).map fun earlier => wait (earlier + 1)).sum

/-- Each try came after the wait that the tries before it ask for. -/
def Paced : List ℤ → Prop
  | [] | [_] => True
  | later :: earlier :: before =>
    min (earlier + wait (before.length + 1)) top ≤ later ∧ Paced (earlier :: before)

end

variable {wait : ℕ → ℤ} {top : ℤ}

@[simp] theorem spent_zero : spent wait 0 = 0 := rfl

/-- One try more is paid with its wait. -/
theorem spent_succ (tries : ℕ) : spent wait (tries + 1) = spent wait tries + wait (tries + 1) := by
  rw [spent, List.range_succ, List.map_append, List.sum_append, List.map_singleton, List.sum_singleton,
    spent]

/-- A try is paced where it waited for the one before it, and that one was paced. -/
theorem paced_cons {later earlier : ℤ} {before : List ℤ} : Paced wait top (later :: earlier :: before) ↔
    min (earlier + wait (before.length + 1)) top ≤ later ∧ Paced wait top (earlier :: before) := Iff.rfl

/-- Tries that are paced span the waits between them. -/
theorem Paced.span (hwait : ∀ tries, 0 ≤ wait tries) {later : ℤ} {before : List ℤ}
    (h : Paced wait top (later :: before)) :
    min ((later :: before).getLast (List.cons_ne_nil later before) + spent wait before.length) top ≤
      later := by
  induction before generalizing later with
  | nil =>
    rw [List.getLast_singleton, List.length_nil, spent_zero, Int.add_zero]
    exact Int.min_le_left later top
  | cons earlier before ih =>
    obtain ⟨hstep, hrest⟩ := h
    have hfirst := ih hrest
    have hnonneg := hwait (before.length + 1)
    rw [List.getLast_cons (List.cons_ne_nil earlier before), List.length_cons, spent_succ]
    omega

/-! ## No later -/

/-- Something was looked at first at a time and is looked at again at most `gap` later each time. It was
done when it was first looked at, and each time it was not, it was done less than `wait` before. How often
it was done is counted. -/
inductive Polled (gap wait first : ℤ) : (now last : ℤ) → ℕ → Prop
  | first {times : ℕ} (htimes : 0 < times) : Polled gap wait first first first times
  | done {now last next : ℤ} {times more : ℕ} (h : Polled gap wait first now last times) (hnow : now ≤ next)
      (hgap : next ≤ now + gap) (hmore : 0 < more) : Polled gap wait first next next (times + more)
  | waits {now last next : ℤ} {times : ℕ} (h : Polled gap wait first now last times) (hnow : now ≤ next)
      (hwait : next < last + wait) : Polled gap wait first next last times

variable {gap pause first now last : ℤ} {times : ℕ}

theorem Polled.last_le (h : Polled gap pause first now last times) : last ≤ now := by
  induction h with
  | first => exact Int.le_refl first
  | done => exact Int.le_refl _
  | waits _ hnow _ ih => exact Int.le_trans ih hnow

theorem Polled.first_le (h : Polled gap pause first now last times) : first ≤ now := by
  induction h with
  | first => exact Int.le_refl first
  | done _ hnow _ _ ih => exact Int.le_trans ih hnow
  | waits _ hnow _ ih => exact Int.le_trans ih hnow

/-- What is looked at often enough is done once in every wait and gap. -/
theorem Polled.lt (hgap : 0 ≤ gap) (hpause : 0 < pause) (h : Polled gap pause first now last times) :
    now - first < times * (pause + gap) := by
  suffices hlast : now < last + pause ∧ last - first ≤ (times - 1) * (pause + gap) by
    calc now - first < pause + (times - 1) * (pause + gap) := by omega
      _ ≤ times * (pause + gap) := by
        rw [Int.sub_mul]
        omega
  induction h with
  | @first times htimes =>
    refine ⟨by omega, ?_⟩
    rw [Int.sub_self]
    exact Int.mul_nonneg (by omega) (by omega)
  | @done now last next times more _ _ hnext hmore ih =>
    obtain ⟨hnow, hlast⟩ := ih
    refine ⟨by omega, ?_⟩
    have hfew : (times : ℤ) ≤ (times + more : ℕ) - 1 := by omega
    calc next - first ≤ pause + gap + (times - 1) * (pause + gap) := by omega
      _ = times * (pause + gap) := by ring
      _ ≤ ((times + more : ℕ) - 1) * (pause + gap) := Int.mul_le_mul_of_nonneg_right hfew (by omega)
  | waits _ _ hwait ih => exact ⟨hwait, ih.2⟩

end Pacing
