import Mathlib.Data.List.Basic

/-!
# Lines

What a reader makes of a string that it takes line by line: the parts between the line ends, and what
follows the last one if there is anything.
-/

namespace Lines

variable {β : Type*} [DecidableEq β] {stop : β}

/-- The lines of a string. -/
def lines (stop : β) (string : List β) : List (List β) :=
  let parts := string.splitOn stop
  if parts.getLast?.any List.isEmpty then parts.dropLast else parts

/-- An empty text has no lines. -/
theorem lines_nil : lines stop ([] : List β) = [] := by
  rw [lines, List.splitOn_nil]
  rfl

/-- A line that is ended is the first of the text. -/
theorem lines_append {line : List β} (hline : stop ∉ line) (rest : List β) :
    lines stop (line ++ stop :: rest) = line :: lines stop rest := by
  have hne : rest.splitOn stop ≠ [] := List.splitOn_ne_nil _ _
  rw [lines, List.splitOn_append_cons_self_of_not_mem hline, List.getLast?_cons_of_ne_nil hne,
    List.dropLast_cons_of_ne_nil hne, lines]
  split <;> rfl

/-- A text without a break is one line. -/
theorem lines_eq_singleton {line : List β} (hline : stop ∉ line) (hne : line ≠ []) :
    lines stop line = [line] := by
  rw [lines, List.splitOn_eq_singleton hline]
  exact if_neg fun hempty => hne (List.isEmpty_iff.mp hempty)

/-- Lines that were written one after the other. -/
theorem lines_flatMap {written : List (List β)} (h : ∀ line ∈ written, stop ∉ line) :
    lines stop (written.flatMap fun line => line ++ [stop]) = written := by
  induction written with
  | nil => exact lines_nil
  | cons line written ih =>
    obtain ⟨hline, hwritten⟩ := List.forall_mem_cons.mp h
    rw [List.flatMap_cons, List.append_assoc, List.singleton_append, lines_append hline, ih hwritten]

end Lines
