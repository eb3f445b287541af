import Mathlib.Data.List.Basic
import Mathlib.Data.Nat.Basic

/-!
# Records of stated lengths

A string of records in which each one says in its head how long it is, and the next one begins at the next
multiple of an alignment. `walk` reads such a string from the front, and stops at a record whose length is
too small for its header or too large for what is left.

`walk_flatten` is the way back: records laid out one behind the other are read as they were. `walkAt` is
the same walk by position, with every sum of positions checked against a bound and every range against the
string. `walkAt_eq` says that it neither leaves the string nor runs over the bound, and that it ends.
-/

namespace Records

variable {β : Type}

/-- The next multiple, which is the number itself if it is one. -/
def nextMultipleOf (n align : ℕ) : ℕ := (n + (align - 1)) / align * align

theorem le_nextMultipleOf {align : ℕ} (h : 0 < align) (n : ℕ) : n ≤ nextMultipleOf n align := by
  have hdiv := Nat.div_add_mod (n + (align - 1)) align
  have hmod := Nat.mod_lt (n + (align - 1)) h
  rw [Nat.mul_comm] at hdiv
  rw [nextMultipleOf]
  omega

theorem nextMultipleOf_lt {align : ℕ} (h : 0 < align) (n : ℕ) : nextMultipleOf n align < n + align := by
  have hle := Nat.div_mul_le_self (n + (align - 1)) align
  rw [nextMultipleOf]
  omega

theorem nextMultipleOf_eq_self {n align : ℕ} (h : 0 < align) (hdvd : align ∣ n) :
    nextMultipleOf n align = n := by
  obtain ⟨count, rfl⟩ := hdvd
  rw [nextMultipleOf, Nat.mul_add_div h, Nat.div_eq_of_lt (Nat.sub_lt h Nat.one_pos), Nat.add_zero,
    Nat.mul_comm]

/-- How records lie in a string. -/
structure Layout (β : Type) where
  /-- The least a record takes. -/
  header : ℕ
  /-- How much of a record its length is read from. -/
  head : ℕ
  size : List β → ℕ
  align : ℕ
  head_le : head ≤ header
  header_pos : 0 < header
  align_pos : 0 < align

namespace Layout

variable (layout : Layout β)

/-- The records of a string, and whether it ended without one of an impossible length. -/
def walk (string : List β) : List (List β) × Bool :=
  if layout.header ≤ string.length then
    if layout.size (string.take layout.head) < layout.header ∨
        string.length < layout.size (string.take layout.head) then ([], false)
    else
      let length := layout.size (string.take layout.head)
      let later := walk (string.drop (nextMultipleOf length layout.align))
      (string.take length :: later.1, later.2)
  else ([], true)
termination_by string.length
decreasing_by
  have hpos := layout.header_pos
  have hle := le_nextMultipleOf layout.align_pos (layout.size (string.take layout.head))
  rw [List.length_drop]
  omega

/-- A record that says how long it is, and ends where the next one may begin. -/
structure Fits (record : List β) : Prop where
  header : layout.header ≤ record.length
  size : layout.size (record.take layout.head) = record.length
  align : layout.align ∣ record.length

variable {layout}

/-- A record is long enough for its header and lies in the string. -/
theorem length_of_mem_walk {string record : List β} (h : record ∈ (layout.walk string).1) :
    layout.header ≤ record.length ∧ record.length ≤ string.length := by
  fun_induction walk layout string with
  | case1 string hroom hbad => exact absurd h List.not_mem_nil
  | case2 string hroom hgood length later ih =>
    rcases List.mem_cons.mp h with rfl | hlater
    · rw [List.length_take]
      omega
    · obtain ⟨hheader, hle⟩ := ih hlater
      rw [List.length_drop] at hle
      exact ⟨hheader, Nat.le_trans hle (Nat.sub_le _ _)⟩
  | case3 string hroom => exact absurd h List.not_mem_nil

/-- Records laid out one behind the other are read as they were. -/
theorem walk_flatten {records : List (List β)} (h : ∀ record ∈ records, layout.Fits record) :
    layout.walk records.flatten = (records, true) := by
  induction records with
  | nil =>
    have hpos := layout.header_pos
    rw [walk, if_neg]
    exact Nat.not_le.mpr hpos
  | cons record rest ih =>
    obtain ⟨hheader, hsize, halign⟩ := h record List.mem_cons_self
    have hrest := ih fun other hother => h other (List.mem_cons_of_mem _ hother)
    have hhead : (record ++ rest.flatten).take layout.head = record.take layout.head :=
      List.take_append_of_le_length (Nat.le_trans layout.head_le hheader)
    have hnext : nextMultipleOf record.length layout.align = record.length :=
      nextMultipleOf_eq_self layout.align_pos halign
    rw [List.flatten_cons, walk, hhead, hsize]
    dsimp only
    rw [hnext, List.length_append, if_pos (by omega), if_neg (by omega), List.drop_left, List.take_left,
      hrest]

end Layout

/-! ## By position -/

/-- A part of a string, if it lies in it. -/
def slice (string : List β) (start stop : ℕ) : Option (List β) :=
  if start ≤ stop ∧ stop ≤ string.length then some ((string.drop start).take (stop - start)) else none

theorem slice_eq {string : List β} {start length : ℕ} (h : start + length ≤ string.length) :
    slice string start (start + length) = some ((string.drop start).take length) := by
  rw [slice, if_pos ⟨Nat.le_add_right _ _, h⟩, Nat.add_sub_cancel_left]

/-- A sum that has to stay below a bound. -/
def addBelow (bound x y : ℕ) : Option ℕ := if x + y < bound then some (x + y) else none

theorem addBelow_eq {bound x y : ℕ} (h : x + y < bound) : addBelow bound x y = some (x + y) := if_pos h

/-- `Layout.walk` by position. It takes one unit of fuel for each record. -/
def walkAt (bound : ℕ) (layout : Layout β) (string : List β) : ℕ → ℕ → Option (List (List β) × Bool)
  | 0, _ => none
  | fuel + 1, position => do
    let limit ← addBelow bound position layout.header
    if limit ≤ string.length then
      let stop ← addBelow bound position layout.head
      let head ← slice string position stop
      if layout.size head < layout.header then some ([], false)
      else
        let stop ← addBelow bound position (layout.size head)
        if string.length < stop then some ([], false)
        else
          let record ← slice string position stop
          let step ← addBelow bound 0 (nextMultipleOf (layout.size head) layout.align)
          let next ← addBelow bound position step
          let later ← walkAt bound layout string fuel next
          some (record :: later.1, later.2)
    else some ([], true)

theorem walkAt_eq {bound largest : ℕ} {layout : Layout β} {string : List β}
    (hsize : ∀ head, head.length = layout.head → layout.size head ≤ largest)
    (hbound : string.length + layout.header + 2 * layout.align + largest < bound) {fuel position : ℕ}
    (hfuel : string.length < position + fuel) (hpositive : 0 < fuel)
    (hposition : position ≤ string.length + layout.align) :
    walkAt bound layout string fuel position = some (layout.walk (string.drop position)) := by
  induction fuel generalizing position with
  | zero => exact absurd hpositive (Nat.lt_irrefl 0)
  | succ fuel ih =>
    have hpos := layout.header_pos
    have hheadLe := layout.head_le
    rw [walkAt, addBelow_eq (by omega), Option.bind_eq_bind, Option.bind_some, Layout.walk,
      List.length_drop]
    by_cases hroom : position + layout.header ≤ string.length
    · have hhead : ((string.drop position).take layout.head).length = layout.head := by
        rw [List.length_take, List.length_drop]
        omega
      have hlargest := hsize _ hhead
      generalize hlength : layout.size ((string.drop position).take layout.head) = length at hlargest
      have hnext := nextMultipleOf_lt layout.align_pos length
      have hstep := le_nextMultipleOf layout.align_pos length
      rw [if_pos hroom, if_pos (by omega), addBelow_eq (by omega), Option.bind_eq_bind, Option.bind_some,
        slice_eq (by omega), Option.bind_eq_bind, Option.bind_some, hlength]
      by_cases hshort : length < layout.header
      · rw [if_pos hshort, if_pos (.inl hshort)]
      · rw [if_neg hshort, addBelow_eq (by omega), Option.bind_some]
        by_cases hlong : string.length < position + length
        · rw [if_pos hlong, if_pos (.inr (by omega))]
        · rw [if_neg hlong, if_neg (by omega), slice_eq (by omega), Option.bind_some,
            addBelow_eq (by omega), Option.bind_some, Nat.zero_add, addBelow_eq (by omega), Option.bind_some,
            ih (by omega) (by omega) (by omega), Option.bind_some]
          dsimp only
          rw [List.drop_drop]
    · rw [if_neg hroom, if_neg (by omega)]

end Records
