import Mathlib.Data.List.Basic

/-!
# Steps that are made of transactions

A step of a machine commits a list of transactions one after the other, and a crash may stop the
machine between any two of them. `cut` says where so many transactions end: how many whole steps they
are, and how many transactions of the next step. `crashed_eq` is the normal form every statement about
a crash goes through.
-/

namespace Crash

variable {σ ι : Type*} (transactions : ι → List (σ → σ))

/-- Commit transactions one after the other. -/
def commit (s : σ) (ts : List (σ → σ)) : σ := ts.foldl (fun s t => t s) s

/-- Carry steps through. -/
def runs (s : σ) (steps : List ι) : σ := steps.foldl (fun s step => commit s (transactions step)) s

/-- What is left when a machine stops after so many transactions. -/
def crashed (s : σ) (steps : List ι) (k : ℕ) : σ := commit s ((steps.flatMap transactions).take k)

/-- How many whole steps so many transactions are, and how many transactions of the next step. -/
def cut : List ι → ℕ → ℕ × ℕ
  | [], _ => (0, 0)
  | step :: rest, k =>
    if k < (transactions step).length then (0, k)
    else ((cut rest (k - (transactions step).length)).1 + 1,
      (cut rest (k - (transactions step).length)).2)

theorem commit_append (s : σ) (first second : List (σ → σ)) :
    commit s (first ++ second) = commit (commit s first) second :=
  List.foldl_append

theorem cut_le (steps : List ι) (k : ℕ) : (cut transactions steps k).1 ≤ steps.length := by
  induction steps generalizing k with
  | nil => exact Nat.le_refl 0
  | cons step rest ih =>
    rw [cut]
    split
    · exact Nat.zero_le _
    · exact Nat.succ_le_succ (ih _)

variable {transactions}

/-- A machine that stopped has carried through so many steps and begun the next one. -/
theorem crashed_eq (s : σ) (steps : List ι) (k : ℕ) :
    crashed transactions s steps k =
      commit (runs transactions s (steps.take (cut transactions steps k).1))
        ((steps[(cut transactions steps k).1]?.elim [] transactions).take
          (cut transactions steps k).2) := by
  induction steps generalizing s k with
  | nil => simp [crashed, cut, commit, runs]
  | cons step rest ih =>
    rw [crashed, List.flatMap_cons]
    by_cases h : k < (transactions step).length
    · rw [cut, if_pos h, List.take_append_of_le_length (Nat.le_of_lt h)]
      rfl
    · have hle : (transactions step).length ≤ k := Nat.le_of_not_lt h
      rw [cut, if_neg h, List.take_append, List.take_of_length_le hle, commit_append]
      exact ih (commit s (transactions step)) (k - (transactions step).length)

end Crash
