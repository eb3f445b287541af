import EkEk.Log.Frame
import Mathlib.Data.List.Find

/-!
# The scan before a header

Reference: `crates/ek-ek-log/src/mask.rs`.

A header stands behind a line break. What the scan finds at a position before it ends before the header or
behind its value, and it is found there whatever the value is (`uniform_hit`), as long as nothing in the
value ends it early or is part of a private key block.
-/

namespace EkEk.Mask

open Searching (find)

/-! ## Values -/

/-- What the scan needs of a value to pass over it. -/
structure Fine (value : List UInt8) : Prop extends Plain value where
  ne_nil : value ≠ []
  starts : ∀ byte ∈ value.head?, isAsciiWhitespace byte = false
  dashes : ¬ CLOSE <:+: value.map toAsciiLowercase
  key : ¬ PRIVATE_KEY <:+: value.map toAsciiLowercase

/-- A header, and what comes after its value. -/
def line (name value after : List UInt8) : List UInt8 := name ++ 58 :: 32 :: (value ++ after)

/-- A byte of a name. -/
theorem name_byte {name : List UInt8} (hname : name.map toAsciiLowercase ∈ SECRET) {byte : UInt8}
    (h : byte ∈ name) :
    ends byte = false ∧ byte ≠ 92 ∧ byte ≠ 58 ∧ byte ≠ 61 ∧ isAsciiWhitespace byte = false := by
  have hnone : ∀ other ∈ ([34, 13, 10, 44, 125, 41, 92, 58, 61, 32, 9, 12] : List UInt8), ∀ name ∈ SECRET,
      toAsciiLowercase other ∉ name := forall_of_all (by decide)
  have hbyte : byte ∉ ([34, 13, 10, 44, 125, 41, 92, 58, 61, 32, 9, 12] : List UInt8) := fun hmem =>
    hnone byte hmem _ hname (List.mem_map_of_mem h)
  simp only [List.mem_cons, List.not_mem_nil, or_false, not_or] at hbyte
  simp [ends, isAsciiWhitespace, hbyte]

theorem name_ne_nil {name : List UInt8} (hname : name.map toAsciiLowercase ∈ SECRET) : name ≠ [] := by
  rintro rfl
  exact (secret_ascii _ hname).1 rfl

theorem plain_append {front text : List UInt8} (hfront : ∀ byte ∈ front, ends byte = false ∧ byte ≠ 92)
    (h : Plain text) : Plain (front ++ text) := by
  induction front with
  | nil => exact h
  | cons byte front ih =>
    rw [List.forall_mem_cons] at hfront
    obtain ⟨hclosed, hunbroken⟩ := ih hfront.2
    refine ⟨?_, fun lineBreak hbreak => ?_⟩
    · rw [List.cons_append, List.forall_mem_cons]
      exact ⟨hfront.1.1, hclosed⟩
    · rw [List.cons_append, List.infix_cons_iff, not_or]
      refine ⟨fun hbegins => ?_, hunbroken lineBreak hbreak⟩
      obtain ⟨first, tail, rfl, hfirst⟩ := Broken.exists_cons ⟨lineBreak, hbreak, List.prefix_rfl⟩
      obtain ⟨rfl, -⟩ := List.cons_prefix_cons.mp hbegins
      obtain rfl | rfl | rfl := hfirst
      · exact absurd hfront.1.1 (by decide)
      · exact absurd hfront.1.1 (by decide)
      · exact hfront.1.2 rfl

/-- No value ends in a header. -/
theorem Fine.header {name value : List UInt8} (h : Fine value) (hname : name.map toAsciiLowercase ∈ SECRET) :
    Plain (name ++ 58 :: 32 :: value) := by
  have hseparator : ∀ byte ∈ [58, 32], ends byte = false ∧ byte ≠ 92 := forall_of_all (by decide)
  refine plain_append (fun byte hbyte => ?_) (plain_append hseparator h.toPlain)
  obtain ⟨hends, hne, -⟩ := name_byte hname hbyte
  exact ⟨hends, hne⟩

/-- A mark of a private key block. None of them is part of a name or crosses the end of one. -/
structure Mark (pattern : List UInt8) : Prop where
  inside : Inline pattern
  ne_nil : pattern ≠ []
  noColon : 58 ∉ pattern
  noEscape : 92 ∉ pattern
  noBlank : pattern.head? ≠ some 32
  noName : ∀ name ∈ SECRET, ¬ pattern <:+: name

theorem mark_close : Mark CLOSE := by
  constructor <;> decide

theorem mark_end : Mark END := by
  constructor <;> decide

theorem mark_key : Mark PRIVATE_KEY := by
  constructor <;> decide

/-- No part of a private key block is in a fine value. -/
theorem Fine.dashes_end {value : List UInt8} (h : Fine value) : ¬ END <:+: value.map toAsciiLowercase := by
  intro hwithin
  have hbegins : CLOSE <+: END := by decide
  exact h.dashes (hbegins.isInfix.trans hwithin)

section

variable {name after : List UInt8} (hname : name.map toAsciiLowercase ∈ SECRET)
  (hafter : ∀ byte ∈ after.head?, byte = 13 ∨ byte = 10 ∨ byte = 92)

include hname hafter

/-- A mark that is found in a header is found behind its value. -/
theorem Mark.find_line {pattern value : List UInt8} (h : Mark pattern)
    (hvalue : ¬ pattern <:+: value.map toAsciiLowercase) :
    find pattern ((line name value after).map toAsciiLowercase) =
      (find pattern (after.map toAsciiLowercase)).map (· + (name.length + 2 + value.length)) := by
  have hsplit : (line name value after).map toAsciiLowercase =
      (name.map toAsciiLowercase ++ 58 :: 32 :: value.map toAsciiLowercase) ++
        after.map toAsciiLowercase := by
    simp [line, show toAsciiLowercase 58 = 58 by decide, show toAsciiLowercase 32 = 32 by decide]
  have hhead : ∀ byte ∈ (after.map toAsciiLowercase).head?, byte ∉ pattern := by
    intro byte hbyte
    rw [List.head?_map] at hbyte
    obtain ⟨first, hfirst, rfl⟩ := Option.map_eq_some_iff.mp hbyte
    obtain rfl | rfl | rfl := hafter first hfirst
    · exact h.inside.noReturn
    · exact h.inside.noNewline
    · exact h.noEscape
  have hcolon : ¬ pattern <:+: 58 :: 32 :: value.map toAsciiLowercase := by
    obtain ⟨first, others, rfl⟩ := List.exists_cons_of_ne_nil h.ne_nil
    rw [List.infix_cons_iff, List.infix_cons_iff, List.cons_prefix_cons, List.cons_prefix_cons]
    rintro (⟨rfl, -⟩ | ⟨rfl, -⟩ | hwithin)
    · exact h.noColon List.mem_cons_self
    · exact h.noBlank rfl
    · exact hvalue hwithin
  have hnone : find pattern (name.map toAsciiLowercase ++ 58 :: 32 :: value.map toAsciiLowercase) = none := by
    rw [Searching.find_append h.ne_nil (Searching.parted_of_head (by simpa using h.noColon)),
      Searching.find_eq_none_iff.mpr (h.noName _ hname), Searching.find_eq_none_iff.mpr hcolon]
    rfl
  rw [hsplit, Searching.find_append h.ne_nil (Searching.parted_of_head hhead), hnone, Option.none_or]
  simp only [List.length_append, List.length_cons, List.length_map]
  congr 1
  funext i
  omega

end

/-! ## What is found before a value does not depend on it -/

section

variable {text name after lower : List UInt8} (hname : name.map toAsciiLowercase ∈ SECRET)
  (hlower : LineEnd lower) (hafter : ∀ byte ∈ after.head?, byte = 13 ∨ byte = 10 ∨ byte = 92)

/-- A position that is found in a text with a header behind it, for each value of the header: none, one in
the text with some room behind it, or one behind the value. -/
def Placed (text name : List UInt8) (room : ℕ) (f : List UInt8 → Option ℕ) : Prop :=
  (∀ value, Fine value → f value = none) ∨
    (∃ n, n + room ≤ text.length ∧ ∀ value, Fine value → f value = some n) ∨
    ∃ k, ∀ value, Fine value → f value = some (text.length + (name.length + 2 + value.length) + k)

theorem placed_none {room : ℕ} : Placed text name room fun _ => none := .inl fun _ _ => rfl

theorem placed_text {room n : ℕ} (h : n + room ≤ text.length) : Placed text name room fun _ => some n :=
  .inr (.inl ⟨n, h, fun _ _ => rfl⟩)

theorem placed_value {room : ℕ} (k : ℕ) :
    Placed text name room fun value => some (text.length + (name.length + 2 + value.length) + k) :=
  .inr (.inr ⟨k, fun _ _ => rfl⟩)

theorem Placed.congr {room : ℕ} {f g : List UInt8 → Option ℕ} (h : Placed text name room f)
    (hsame : ∀ value, Fine value → g value = f value) : Placed text name room g := by
  obtain h | ⟨n, hn, h⟩ | ⟨k, h⟩ := h
  · exact .inl fun value hvalue => (hsame value hvalue).trans (h value hvalue)
  · exact .inr (.inl ⟨n, hn, fun value hvalue => (hsame value hvalue).trans (h value hvalue)⟩)
  · exact .inr (.inr ⟨k, fun value hvalue => (hsame value hvalue).trans (h value hvalue)⟩)

/-- What is found from a position that was found. -/
theorem Placed.bind {room room' : ℕ} {f : List UInt8 → Option ℕ} {g : List UInt8 → ℕ → Option ℕ}
    (h : Placed text name room f)
    (hinside : ∀ n, n + room ≤ text.length → Placed text name room' fun value => g value n)
    (hbehind : ∀ k, Placed text name room' fun value =>
      g value (text.length + (name.length + 2 + value.length) + k)) :
    Placed text name room' fun value => (f value).bind (g value) := by
  obtain h | ⟨n, hn, h⟩ | ⟨k, h⟩ := h
  · refine placed_none.congr fun value hvalue => ?_
    rw [h value hvalue, Option.bind_none]
  · refine (hinside n hn).congr fun value hvalue => ?_
    rw [h value hvalue, Option.bind_some]
  · refine (hbehind k).congr fun value hvalue => ?_
    rw [h value hvalue, Option.bind_some]

/-- Where the room behind a position ends. -/
theorem Placed.map_add {room : ℕ} {f : List UInt8 → Option ℕ} (h : Placed text name room f) :
    Placed text name 0 fun value => (f value).map (· + room) := by
  obtain h | ⟨n, hn, h⟩ | ⟨k, h⟩ := h
  · refine placed_none.congr fun value hvalue => ?_
    rw [h value hvalue, Option.map_none]
  · refine (placed_text (n := n + room) (by omega)).congr fun value hvalue => ?_
    rw [h value hvalue, Option.map_some]
  · refine (placed_value (k + room)).congr fun value hvalue => ?_
    rw [h value hvalue, Option.map_some, Nat.add_assoc _ k]

/-- Where a pattern stands from a position on. -/
def findFrom (pattern rest : List UInt8) (start : ℕ) : Option ℕ :=
  (find pattern (rest.drop start)).map (start + ·)

/-- A text and a header line, split where the value ends. -/
theorem append_line (lower name value after : List UInt8) :
    lower ++ (line name value after).map toAsciiLowercase =
      (lower ++ (name ++ 58 :: 32 :: value).map toAsciiLowercase) ++ after.map toAsciiLowercase := by
  simp [line]

theorem length_append_value (lower name value : List UInt8) :
    (lower ++ (name ++ 58 :: 32 :: value).map toAsciiLowercase).length =
      lower.length + (name.length + 2 + value.length) := by
  simp only [List.length_append, List.length_map, List.length_cons]
  omega

theorem drop_line (lower name value after : List UInt8) (k : ℕ) :
    (lower ++ (line name value after).map toAsciiLowercase).drop
      (lower.length + (name.length + 2 + value.length) + k) = (after.map toAsciiLowercase).drop k := by
  rw [append_line, ← length_append_value, ← List.drop_drop, List.drop_left]

theorem take_line (lower name value after : List UInt8) (k : ℕ) :
    (lower ++ (line name value after).map toAsciiLowercase).take
      (lower.length + (name.length + 2 + value.length) + k) =
        lower ++ (line name value (after.take k)).map toAsciiLowercase := by
  rw [append_line, append_line, ← length_append_value, List.take_length_add_append, List.map_take]

/-- Behind the value a mark is found wherever it is found in what comes after. -/
theorem placed_behind (lower name after pattern : List UInt8) (room k : ℕ) :
    Placed lower name room fun value =>
    findFrom pattern (lower ++ (line name value after).map toAsciiLowercase)
      (lower.length + (name.length + 2 + value.length) + k) := by
  cases hfind : find pattern ((after.map toAsciiLowercase).drop k) with
  | none =>
    refine placed_none.congr fun value _ => ?_
    rw [findFrom, drop_line, hfind, Option.map_none]
  | some i =>
    refine (placed_value (k + i)).congr fun value _ => ?_
    rw [findFrom, drop_line, hfind, Option.map_some, Nat.add_assoc _ k]

include hname hlower hafter

/-- A mark is found in the text before a header or behind its value. -/
theorem Mark.find_frame {pattern value : List UInt8} (h : Mark pattern)
    (hvalue : ¬ pattern <:+: value.map toAsciiLowercase) :
    find pattern (lower ++ (line name value after).map toAsciiLowercase) =
      (find pattern lower).or ((find pattern (after.map toAsciiLowercase)).map fun i =>
        lower.length + (name.length + 2 + value.length) + i) := by
  rw [h.inside.find_append h.ne_nil hlower, h.find_line hname hafter hvalue, Option.map_map]
  congr 2
  funext i
  simp only [Function.comp_apply]
  omega

theorem Mark.placed_inside {pattern : List UInt8} (h : Mark pattern)
    (hfine : ∀ value, Fine value → ¬ pattern <:+: value.map toAsciiLowercase) {n : ℕ}
    (hn : n < lower.length) :
    Placed lower name pattern.length fun value =>
      findFrom pattern (lower ++ (line name value after).map toAsciiLowercase) n := by
  have hframe (value : List UInt8) (hvalue : Fine value) :=
    h.find_frame hname (hlower.drop hn) hafter (hfine value hvalue)
  have hlength : (lower.drop n).length = lower.length - n := List.length_drop
  cases hfind : find pattern (lower.drop n) with
  | some i =>
    have hle := Searching.add_length_le_of_find hfind
    refine (placed_text (n := n + i) (by omega)).congr fun value hvalue => ?_
    rw [findFrom, List.drop_append_of_le_length hn.le, hframe value hvalue, hfind, Option.some_or,
      Option.map_some]
  | none =>
    cases hbehind : find pattern (after.map toAsciiLowercase) with
    | none =>
      refine placed_none.congr fun value hvalue => ?_
      rw [findFrom, List.drop_append_of_le_length hn.le, hframe value hvalue, hfind, hbehind]
      rfl
    | some i =>
      refine (placed_value i).congr fun value hvalue => ?_
      rw [findFrom, List.drop_append_of_le_length hn.le, hframe value hvalue, hfind, hbehind, Option.none_or,
        Option.map_some, Option.map_some]
      congr 1
      omega

omit hname hlower hafter in
/-- A private key block with positions in the place of lengths. -/
theorem block_eq (rest : List UInt8) : block rest =
    if OPEN.isPrefixOf rest then (findFrom CLOSE rest OPEN.length).bind fun headEnd =>
      if (find PRIVATE_KEY (rest.take headEnd)).isSome then (findFrom END rest headEnd).bind fun last =>
        (findFrom CLOSE rest (last + CLOSE.length)).map (· + CLOSE.length)
      else none
    else none := by
  have hadd (a b c d : ℕ) : a + (b + c) + d + d = c + b + d + a + d := by omega
  simp only [block, findFrom, Option.bind_map, Option.map_map, Function.comp_def, Nat.add_comm _ OPEN.length,
    hadd, Nat.add_comm _ (OPEN.length + _)]

/-- Where a block ends is looked for in the text before a header and behind its value. -/
theorem placed_last {n : ℕ} (hn : n < lower.length) : Placed lower name 0 fun value =>
    (findFrom END (lower ++ (line name value after).map toAsciiLowercase) n).bind fun last =>
      (findFrom CLOSE (lower ++ (line name value after).map toAsciiLowercase) (last + CLOSE.length)).map
        (· + CLOSE.length) := by
  have hlonger : CLOSE.length < END.length := by decide
  refine (mark_end.placed_inside hname hlower hafter (fun _ => Fine.dashes_end) hn).bind
    (fun last hlast => ?_) (fun k => ?_)
  · have hinside : last + CLOSE.length < lower.length := by omega
    exact (mark_close.placed_inside hname hlower hafter (fun _ => Fine.dashes) hinside).map_add
  · simp only [Nat.add_assoc _ k]
    exact (placed_behind lower name after CLOSE CLOSE.length (k + CLOSE.length)).map_add

omit hname hlower hafter in
/-- A block whose head ends behind the value ends there too. -/
theorem placed_last_behind (lower name after : List UInt8) (k : ℕ) : Placed lower name 0 fun value =>
    (findFrom END (lower ++ (line name value after).map toAsciiLowercase)
      (lower.length + (name.length + 2 + value.length) + k)).bind fun last =>
      (findFrom CLOSE (lower ++ (line name value after).map toAsciiLowercase) (last + CLOSE.length)).map
        (· + CLOSE.length) := by
  cases hlast : find END ((after.map toAsciiLowercase).drop k) with
  | none =>
    refine placed_none.congr fun value _ => ?_
    rw [findFrom, drop_line, hlast]
    rfl
  | some i =>
    have hclose := placed_behind lower name after CLOSE CLOSE.length (k + i + CLOSE.length)
    refine hclose.map_add.congr fun value _ => ?_
    rw [findFrom, drop_line, hlast, Option.map_some, Option.bind_some]
    simp only [Nat.add_assoc]

omit hname hlower in
theorem head_take (k : ℕ) : ∀ byte ∈ (after.take k).head?, byte = 13 ∨ byte = 10 ∨ byte = 92 := by
  intro byte hbyte
  rw [List.head?_take] at hbyte
  split at hbyte
  · cases hbyte
  · exact hafter byte hbyte

/-- A private key block ends in the text before a header or behind its value. -/
theorem placed_block : Placed lower name 0 fun value =>
    block (lower ++ (line name value after).map toAsciiLowercase) := by
  have hopen (value : List UInt8) :=
    marks_inline.1.prefix_iff hlower ((line name value after).map toAsciiLowercase)
  simp only [block_eq, List.isPrefixOf_iff_prefix, hopen]
  by_cases hbegins : OPEN <+: lower
  · simp only [hbegins, if_true]
    have hfits : OPEN.length < lower.length :=
      marks_inline.1.length_lt hlower (hbegins.trans (List.prefix_append lower []))
    have hpos : 0 < CLOSE.length := by decide
    refine (mark_close.placed_inside hname hlower hafter (fun _ => Fine.dashes) hfits).bind
      (fun headEnd hheadEnd => ?_) (fun k => ?_)
    · have hinside : headEnd < lower.length := by omega
      simp only [List.take_append_of_le_length hinside.le]
      split
      · exact placed_last hname hlower hafter hinside
      · exact placed_none
    · -- The key may stand in the text before the header or behind its value.
      have hkey (value : List UInt8) (hvalue : Fine value) :
          (find PRIVATE_KEY ((lower ++ (line name value after).map toAsciiLowercase).take
            (lower.length + (name.length + 2 + value.length) + k))).isSome =
          ((find PRIVATE_KEY lower).isSome ||
            (find PRIVATE_KEY ((after.take k).map toAsciiLowercase)).isSome) := by
        rw [take_line, mark_key.find_frame hname hlower (head_take hafter k) hvalue.key, Option.isSome_or,
          Option.isSome_map]
      by_cases hfound : ((find PRIVATE_KEY lower).isSome ||
          (find PRIVATE_KEY ((after.take k).map toAsciiLowercase)).isSome) = true
      · refine (placed_last_behind lower name after k).congr fun value hvalue => ?_
        rw [hkey value hvalue, if_pos hfound]
      · refine placed_none.congr fun value hvalue => ?_
        rw [hkey value hvalue, if_neg hfound]
  · simp only [hbegins, if_false]
    exact placed_none

end

/-! ## What the mask takes the place of -/

section

variable {text name after : List UInt8} (hname : name.map toAsciiLowercase ∈ SECRET) (htext : LineEnd text)
  (hafter : Broken after)

/-- What is found in a text with a header behind it, for each value of the header: nothing, something that
ends in the text, or something that ends behind the value. -/
def Uniform (text name : List UInt8) (f : List UInt8 → Option (ℕ × ℕ)) : Prop :=
  (∀ value, Fine value → f value = none) ∨
    (∃ kept stop, kept ≤ text.length ∧ stop ≤ text.length ∧
      ∀ value, Fine value → f value = some (kept, stop)) ∨
    ∃ kept k, kept ≤ text.length ∧ ∀ value, Fine value →
      f value = some (kept, text.length + (name.length + 2 + value.length) + k)

theorem uniform_none : Uniform text name fun _ => none := .inl fun _ _ => rfl

theorem Uniform.congr {f g : List UInt8 → Option (ℕ × ℕ)} (h : Uniform text name f)
    (hsame : ∀ value, g value = f value) : Uniform text name g := by
  rwa [funext hsame]

/-- What is found further on in the text. -/
theorem Uniform.shift {n : ℕ} (hn : n ≤ text.length) {f : List UInt8 → Option (ℕ × ℕ)}
    (h : Uniform (text.drop n) name f) :
    Uniform text name fun value => (f value).map fun found => (n + found.1, n + found.2) := by
  have hlength : (text.drop n).length = text.length - n := List.length_drop
  obtain h | ⟨kept, stop, hkept, hstop, h⟩ | ⟨kept, k, hkept, h⟩ := h
  · exact .inl fun value hfine => by simp only [h value hfine, Option.map_none]
  · exact .inr (.inl ⟨n + kept, n + stop, by omega, by omega, fun value hfine => by
      simp only [h value hfine, Option.map_some]⟩)
  · refine .inr (.inr ⟨n + kept, k, by omega, fun value hfine => ?_⟩)
    simp only [h value hfine, Option.map_some, Option.some.injEq, Prod.mk.injEq, true_and]
    omega

theorem Uniform.or {f g : List UInt8 → Option (ℕ × ℕ)} (hf : Uniform text name f) (hg : Uniform text name g) :
    Uniform text name fun value => (f value).or (g value) := by
  obtain hf | ⟨kept, stop, hkept, hstop, hf⟩ | ⟨kept, k, hkept, hf⟩ := hf
  · refine hg.imp ?_ (Or.imp ?_ ?_)
    · exact fun hg value hfine => by simp only [hf value hfine, Option.none_or, hg value hfine]
    · exact fun ⟨kept, stop, hkept, hstop, hg⟩ => ⟨kept, stop, hkept, hstop, fun value hfine => by
        simp only [hf value hfine, Option.none_or, hg value hfine]⟩
    · exact fun ⟨kept, k, hkept, hg⟩ => ⟨kept, k, hkept, fun value hfine => by
        simp only [hf value hfine, Option.none_or, hg value hfine]⟩
  · exact .inr (.inl ⟨kept, stop, hkept, hstop,
      fun value hfine => by simp only [hf value hfine, Option.some_or]⟩)
  · exact .inr (.inr ⟨kept, k, hkept, fun value hfine => by simp only [hf value hfine, Option.some_or]⟩)

/-- A stretch that begins at once. -/
theorem Placed.uniform {lower : List UInt8} (hlength : lower.length = text.length) {f : List UInt8 → Option ℕ}
    (h : Placed lower name 0 f) : Uniform text name fun value => (f value).map fun stop => (0, stop) := by
  obtain h | ⟨n, hn, h⟩ | ⟨k, h⟩ := h
  · exact .inl fun value hfine => by simp only [h value hfine, Option.map_none]
  · exact .inr (.inl ⟨0, n, Nat.zero_le _, by omega, fun value hfine => by
      simp only [h value hfine, Option.map_some]⟩)
  · exact .inr (.inr ⟨0, k, Nat.zero_le _, fun value hfine => by
      simp only [h value hfine, Option.map_some, hlength]⟩)

theorem line_eq (name value after : List UInt8) :
    line name value after = (name ++ 58 :: 32 :: value) ++ after := by
  simp [line]

include hname in
/-- A header begins with its name. -/
theorem dropWhile_line (value after : List UInt8) :
    (line name value after).dropWhile isAsciiWhitespace = line name value after ∧
      ∃ byte rest, line name value after = byte :: rest ∧ ¬ (byte == 58 || byte == 61) = true := by
  obtain ⟨byte, rest, rfl⟩ := List.exists_cons_of_ne_nil (name_ne_nil hname)
  obtain ⟨-, -, hcolon, hequals, hblank⟩ := name_byte hname List.mem_cons_self
  refine ⟨?_, byte, _, rfl, by simp [hcolon, hequals]⟩
  rw [line, List.cons_append, List.dropWhile_cons_of_neg (by simp [hblank])]

/-- The blanks at the front of a text with a header behind it. -/
theorem dropWhile_append_line (hname : name.map toAsciiLowercase ∈ SECRET) (text value after : List UInt8) :
    (text ++ line name value after).dropWhile isAsciiWhitespace =
      text.dropWhile isAsciiWhitespace ++ line name value after := by
  rw [List.dropWhile_append]
  split <;> rename_i hempty
  · rw [List.isEmpty_iff.mp hempty, (dropWhile_line hname value after).1, List.nil_append]
  · rfl

include hname htext in
/-- What follows a secret name in the text before a header. -/
theorem afterName_append (value after : List UInt8) :
    afterName (text ++ line name value after) = afterName text ++ line name value after := by
  have hhead : (text ++ line name value after).head? = text.head? :=
    List.head?_append_of_ne_nil _ htext.ne_nil
  rw [afterName, afterName, hhead]
  split <;> rename_i hquote
  · obtain ⟨tail, rfl⟩ : ∃ tail, text = 34 :: tail := List.head?_eq_some_iff.mp (by simpa using hquote)
    exact dropWhile_append_line hname tail value after
  · exact dropWhile_append_line hname text value after

include htext in
theorem lineEnd_afterName : afterName text = [] ∨ LineEnd (afterName text) := by
  rw [afterName]
  split <;> rename_i hquote
  · obtain ⟨tail, rfl⟩ : ∃ tail, text = 34 :: tail := List.head?_eq_some_iff.mp (by simpa using hquote)
    refine (htext.tail ?_).dropWhile _
    rintro rfl
    obtain h | h | h := htext
    · simpa using breaks_singleton h
    · simp at h
    · simp at h
  · exact htext.dropWhile _

include hname htext hafter in
/-- A value that begins in the text before a header ends there, or where the value of the header does. -/
theorem uniform_span : Uniform text name fun value => span (text ++ line name value after) := by
  have happend (value : List UInt8) :
      afterName (text ++ line name value after) = afterName text ++ line name value after :=
    afterName_append hname htext value after
  have hfirst (value : List UInt8) := dropWhile_line hname value after
  cases hnamed : afterName text with
  | nil =>
    refine .inl fun value _ => ?_
    obtain ⟨-, byte, rest, hline, hbyte⟩ := hfirst value
    have hcons : afterName (text ++ line name value after) = byte :: rest := by
      rw [happend, hnamed, List.nil_append, hline]
    exact span_eq_none hcons hbyte
  | cons separator rest =>
    have hcons (value : List UInt8) :
        afterName (text ++ line name value after) = separator :: (rest ++ line name value after) := by
      rw [happend, hnamed, List.cons_append]
    by_cases hseparator : (separator == 58 || separator == 61) = true
    · have hrest : Breaks rest := by
        have hend : LineEnd (separator :: rest) := by
          have hrest := lineEnd_afterName htext
          rw [hnamed] at hrest
          exact hrest.resolve_left (List.cons_ne_nil _ _)
        obtain h | h | h := hend
        · refine (h.tail ?_).2 ?_
          · rintro rfl
            obtain rfl | rfl := breaks_singleton h <;> cases hseparator
          · rintro rfl
            cases hseparator
        · rw [(List.cons.inj h).1] at hseparator
          cases hseparator
        · rw [(List.cons.inj h).1] at hseparator
          cases hseparator
      obtain hopen | hbreaks := hrest.dropWhile
      · -- The value is the whole header.
        refine .inr (.inr ⟨text.length, 0, le_rfl, fun value hvalue => ?_⟩)
        obtain ⟨inner, hinner, hle, hstripped⟩ := stripped_plain (hvalue.header hname) hafter
        dsimp only
        rw [span_eq_some (hcons value) hseparator, dropWhile_append_line hname, hopen, List.nil_append,
          line_eq, hstripped, valueLength_broken hinner hafter]
        simp only [List.length_append, List.length_cons, Option.some.injEq, Prod.mk.injEq] at hle ⊢
        omega
      · have hstripped (value : List UInt8) := (stripped_breaks hbreaks (line name value after)).2.2
        obtain ⟨hinner, hle, -⟩ := stripped_breaks hbreaks []
        have hsuffix := (List.dropWhile_suffix isAsciiWhitespace (l := rest)).length_le
        have hlength : rest.length < text.length := by
          obtain ⟨front, hfront, -⟩ := afterName_suffix text
          have := congrArg List.length hfront
          rw [hnamed, List.length_append, List.length_cons] at this
          omega
        obtain ⟨-, hstop⟩ := valueLength_breaks (stripped (rest.dropWhile isAsciiWhitespace)).2 hinner []
        refine .inr (.inl ⟨text.length - (rest.dropWhile isAsciiWhitespace).length,
          text.length - (stripped (rest.dropWhile isAsciiWhitespace)).1.length +
            valueLength (stripped (rest.dropWhile isAsciiWhitespace)).2
              (stripped (rest.dropWhile isAsciiWhitespace)).1,
          Nat.sub_le _ _, by omega, fun value _ => ?_⟩)
        dsimp only
        rw [span_eq_some (hcons value) hseparator, dropWhile_append_line hname, hstripped,
          (valueLength_breaks _ hinner _).1]
        simp only [List.length_append, Option.some.injEq, Prod.mk.injEq]
        omega
    · exact .inl fun value _ => span_eq_none (hcons value) hseparator

include htext in
/-- Which secret name a text begins with does not depend on what follows its line. -/
theorem secret_append (before rest : List UInt8) :
    secret before ((text ++ rest).map toAsciiLowercase) = secret before (text.map toAsciiLowercase) := by
  rw [secret, secret, List.map_append]
  congr 1
  refine List.find?_congr fun name hname => ?_
  have hinline := secret_inline name hname
  by_cases hbegins : name <+: text.map toAsciiLowercase
  · have hlt := hinline.length_lt htext.lowercase
      (hbegins.trans (List.prefix_append _ (rest.map toAsciiLowercase)))
    have hall := hbegins.trans (List.prefix_append _ (rest.map toAsciiLowercase))
    rw [List.isPrefixOf_iff_prefix.mpr hbegins, List.isPrefixOf_iff_prefix.mpr hall,
      List.getElem?_append_left hlt]
  · have hnot := mt (hinline.prefix_iff htext.lowercase (rest.map toAsciiLowercase)).mp hbegins
    rw [Bool.eq_false_iff.mpr (mt List.isPrefixOf_iff_prefix.mp hbegins),
      Bool.eq_false_iff.mpr (mt List.isPrefixOf_iff_prefix.mp hnot)]
    rfl

include hname htext hafter in
theorem uniform_valueOf (before : List UInt8) :
    Uniform text name fun value => valueOf before (text ++ line name value after) := by
  have hsecret (value : List UInt8) :=
    secret_append htext (before.map toAsciiLowercase) (line name value after)
  cases hfound : secret (before.map toAsciiLowercase) (text.map toAsciiLowercase) with
  | none =>
    refine uniform_none.congr fun value => ?_
    rw [valueOf, hsecret, hfound, Option.bind_none]
  | some found =>
    obtain ⟨hmem, hbegins⟩ := isPrefixOf_of_secret hfound
    have hlt := (secret_inline found hmem).length_lt htext.lowercase (hbegins.trans (List.prefix_append _ []))
    rw [List.length_map] at hlt
    refine ((uniform_span hname (htext.drop hlt) hafter).shift hlt.le).congr fun value => ?_
    rw [valueOf, hsecret, hfound, Option.bind_some, List.drop_append_of_le_length hlt.le]

include hname htext hafter in
/-- What is found in the text before a header does not depend on its value. -/
theorem uniform_hit (before : List UInt8) :
    Uniform text name fun value => hit before (text ++ line name value after) := by
  have hlength : (text.map toAsciiLowercase).length = text.length := List.length_map _
  have hblock := (placed_block hname htext.lowercase hafter.head).uniform hlength
  refine ((uniform_valueOf hname htext hafter before).or hblock).congr fun value => ?_
  rw [hit, List.map_append]

end

end EkEk.Mask
