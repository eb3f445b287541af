import EkEk.Log.Mask

/-!
# The scan, byte by byte

Reference: `crates/ek-ek-log/src/mask.rs`.

What the scan does at a position is said here of the bytes before it and the bytes from it on, with
lengths in the place of positions. No part of a text is then taken at a position, so nothing can panic.
`message_eq` is that the scan of the source never panics and writes the same.
-/

namespace EkEk.Mask

open Text (bytes)
open Searching (find)

/-! ## What stands at a position -/

/-- Whether what came before is over. The bytes before are read from the last one on. -/
def boundary : List UInt8 → Bool
  | [] => true
  | byte :: earlier =>
    ((byte == 110 || byte == 114 || byte == 116) && earlier.head? == some 92) ||
      (!isAsciiAlphanumeric byte && byte != 95)

/-- The secret name that the rest begins with. -/
def secret (before rest : List UInt8) : Option (List UInt8) :=
  if boundary before then
    SECRET.find? fun name => name.isPrefixOf rest && (rest[name.length]?).all boundaryAfter
  else none

/-- A wrapper taken off what is left. -/
def strip (held : List UInt8 × Bool) (wrapper : List UInt8) : List UInt8 × Bool :=
  if wrapper.isPrefixOf held.1 then (held.1.drop wrapper.length, held.2 || wrapper.getLast? == some 34)
  else held

/-- What is left of a value without its wrappers, and whether one of them was a quote. -/
def stripped (value : List UInt8) : List UInt8 × Bool := wrappers.foldl strip (value, false)

/-- What follows a name without the quote that closes it and the blanks behind that. -/
def afterName (rest : List UInt8) : List UInt8 :=
  (if rest.head? == some 34 then rest.tail else rest).dropWhile isAsciiWhitespace

/-- How far the value is from the name and how far its end is. -/
def span (rest : List UInt8) : Option (ℕ × ℕ) :=
  match afterName rest with
  | [] => none
  | separator :: value =>
    if separator == 58 || separator == 61 then
      let value := value.dropWhile isAsciiWhitespace
      some (rest.length - value.length, rest.length - (stripped value).1.length +
        valueLength (stripped value).2 (stripped value).1)
    else none

/-- How long the private key block is that the rest begins with. -/
def block (rest : List UInt8) : Option ℕ :=
  if OPEN.isPrefixOf rest then
    (find CLOSE (rest.drop OPEN.length)).bind fun closed =>
      let headEnd := closed + OPEN.length
      if (find PRIVATE_KEY (rest.take headEnd)).isSome then
        (find END (rest.drop headEnd)).bind fun last =>
          (find CLOSE (rest.drop (last + headEnd + CLOSE.length))).map fun closed =>
            closed + (last + headEnd) + CLOSE.length + CLOSE.length
      else none
  else none

/-- The value of the secret that the rest begins with. -/
def valueOf (before rest : List UInt8) : Option (ℕ × ℕ) :=
  (secret (before.map toAsciiLowercase) (rest.map toAsciiLowercase)).bind fun name =>
    (span (rest.drop name.length)).map fun found => (name.length + found.1, name.length + found.2)

/-- What the mask takes the place of: how many bytes are kept before it and how many are left behind. -/
def hit (before rest : List UInt8) : Option (ℕ × ℕ) :=
  (valueOf before rest).or ((block (rest.map toAsciiLowercase)).map fun stop => (0, stop))

/-- The bytes from a position on with the secrets masked. -/
def masked (before : List UInt8) : List UInt8 → List UInt8
  | [] => []
  | byte :: rest =>
    match hit before (byte :: rest) with
    | some (kept, stop) => (byte :: rest).take kept ++ MASK ++
      masked (((byte :: rest).take stop).reverse ++ before) (rest.drop (stop - 1))
    | none => byte :: masked (byte :: before) rest
termination_by rest => rest.length
decreasing_by all_goals simp; try omega

/-! ## Characters -/

/-- The bytes of one character. -/
def IsChar (c : List UInt8) : Prop :=
  ∃ first others, c = first :: others ∧ isContinuation first = false ∧ charLen first = c.length ∧
    ∀ byte ∈ others, isContinuation byte = true

/-- The bytes of some characters. -/
inductive Chars : List UInt8 → Prop
  | nil : Chars []
  | cons {c rest : List UInt8} (first : IsChar c) (others : Chars rest) : Chars (c ++ rest)

theorem isContinuation_ofNat {n : ℕ} (h : n < 256) :
    isContinuation (UInt8.ofNat n) = (decide (128 ≤ n) && decide (n < 192)) := by
  simp [isContinuation, UInt8.le_iff_toNat_le, UInt8.lt_iff_toNat_lt, Nat.mod_eq_of_lt h]

theorem charLen_ofNat {n : ℕ} (h : n < 256) : charLen (UInt8.ofNat n) =
    if n < 128 then 1 else if 192 ≤ n ∧ n ≤ 223 then 2 else if 224 ≤ n ∧ n ≤ 239 then 3 else 4 := by
  simp [charLen, UInt8.le_iff_toNat_le, UInt8.lt_iff_toNat_lt, Nat.mod_eq_of_lt h]

/-- Six bits of a character make a byte that continues one. -/
theorem isContinuation_six (n : ℕ) : isContinuation (UInt8.ofNat (n % 64 + 128)) = true := by
  rw [isContinuation_ofNat (by omega), decide_eq_true (by omega), decide_eq_true (by omega), Bool.true_and]

/-- A character is encoded as the bytes of one. -/
theorem isChar_utf8EncodeChar (c : Char) : IsChar (String.utf8EncodeChar c) := by
  rw [String.utf8EncodeChar]
  generalize c.val.toNat = v
  have hsix := isContinuation_six
  split
  · refine ⟨_, _, rfl, ?_, ?_, by simp⟩
    · rw [isContinuation_ofNat (by omega), decide_eq_false (by omega), Bool.false_and]
    · rw [charLen_ofNat (by omega), if_pos (by omega)]
      rfl
  · split
    · refine ⟨_, _, rfl, ?_, ?_, ?_⟩
      · rw [isContinuation_ofNat (by omega), decide_eq_false (p := _ < 192) (by omega), Bool.and_false]
      · rw [charLen_ofNat (by omega), if_neg (by omega), if_pos (by omega)]
        rfl
      · simp only [List.forall_mem_singleton, hsix]
    · split
      · refine ⟨_, _, rfl, ?_, ?_, ?_⟩
        · rw [isContinuation_ofNat (by omega), decide_eq_false (p := _ < 192) (by omega), Bool.and_false]
        · rw [charLen_ofNat (by omega), if_neg (by omega), if_neg (by omega), if_pos (by omega)]
          rfl
        · simp only [List.forall_mem_cons, hsix, true_and]
          exact List.forall_mem_nil _
      · refine ⟨_, _, rfl, ?_, ?_, ?_⟩
        · rw [isContinuation_ofNat (by omega), decide_eq_false (p := _ < 192) (by omega), Bool.and_false]
        · rw [charLen_ofNat (by omega), if_neg (by omega), if_neg (by omega), if_neg (by omega)]
          rfl
        · simp only [List.forall_mem_cons, hsix, true_and]
          exact List.forall_mem_nil _

/-- The bytes of a text are those of its characters. -/
theorem chars_bytes (s : String) : Chars (bytes s) := by
  rw [Text.bytes_eq_flatMap]
  induction s.toList with
  | nil => exact .nil
  | cons c chars ih => exact .cons (isChar_utf8EncodeChar c) ih

/-- The rest of a text is characters where no byte of it goes on with one. -/
theorem Chars.drop {text : List UInt8} (h : Chars text) {front rest : List UInt8}
    (htext : text = front ++ rest)
    (hrest : ∀ byte ∈ rest.head?, isContinuation byte = false) : Chars rest := by
  induction h generalizing front with
  | nil =>
    rw [(List.append_eq_nil_iff.mp htext.symm).2]
    exact .nil
  | @cons c others hc hothers ih =>
    by_cases hlength : c.length ≤ front.length
    · obtain ⟨middle, rfl, hmiddle⟩ : ∃ middle, front = c ++ middle ∧ others = middle ++ rest := by
        obtain ⟨middle, hmiddle⟩ := List.prefix_of_prefix_length_le (List.prefix_append c others)
          (htext ▸ List.prefix_append front rest) hlength
        rw [← hmiddle, List.append_assoc] at htext
        exact ⟨middle, hmiddle.symm, List.append_cancel_left htext⟩
      exact ih hmiddle
    · -- The rest begins inside a character, so it begins where the character does.
      obtain ⟨first, tail, rfl, hfirst, hlen, htail⟩ := hc
      cases front with
      | nil =>
        rw [List.nil_append] at htext
        rw [← htext]
        exact .cons ⟨first, tail, rfl, hfirst, hlen, htail⟩ hothers
      | cons other front =>
        have hlt : front.length < tail.length := by simpa using hlength
        have hdrop : rest = tail.drop front.length ++ others := by
          have := congrArg (List.drop (front.length + 1)) htext
          simpa [List.drop_append_of_le_length hlt.le] using this.symm
        have hhead : rest.head? = some tail[front.length] := by
          rw [hdrop, List.drop_eq_getElem_cons hlt]
          rfl
        have := htail _ (List.getElem_mem hlt)
        rw [hrest _ hhead] at this
        cases this

/-- A text begins with a character. -/
theorem Chars.first {byte : UInt8} {rest : List UInt8} (h : Chars (byte :: rest)) :
    isContinuation byte = false ∧ ∃ others after, rest = others ++ after ∧ charLen byte = others.length + 1 ∧
      (∀ other ∈ others, isContinuation other = true) ∧ Chars after := by
  generalize htext : byte :: rest = text at h
  cases h with
  | nil => cases htext
  | cons hc hothers =>
    obtain ⟨first, tail, rfl, hfirst, hlen, htail⟩ := hc
    obtain ⟨rfl, rfl⟩ := List.cons.inj htext
    exact ⟨hfirst, tail, _, rfl, hlen, htail, hothers⟩

/-- A character that begins with an ASCII byte is that byte. -/
theorem Chars.tail {byte : UInt8} {rest : List UInt8} (h : Chars (byte :: rest)) (hbyte : byte < 128) :
    Chars rest := by
  obtain ⟨-, others, after, rfl, hlen, -, hafter⟩ := h.first
  rw [charLen, if_pos hbyte] at hlen
  rw [List.length_eq_zero_iff.mp (by omega : others.length = 0)]
  exact hafter

/-- Bytes of one-byte characters can be taken off the front. -/
theorem Chars.drop_ascii {front rest : List UInt8} (h : Chars (front ++ rest))
    (hfront : ∀ byte ∈ front, byte < 128) : Chars rest := by
  induction front with
  | nil => exact h
  | cons byte front ih =>
    rw [List.forall_mem_cons] at hfront
    exact ih (h.tail hfront.1) hfront.2

/-- What is so of each byte of a list that is written out. -/
theorem forall_of_all {p : UInt8 → Prop} [DecidablePred p] {l : List UInt8} (h : (l.all fun byte => p byte) = true) :
    ∀ byte ∈ l, p byte := fun byte hbyte => of_decide_eq_true (List.all_eq_true.mp h byte hbyte)

/-- Only ASCII bytes have another byte for their lower case, and that is one too. -/
theorem toAsciiLowercase_cases (byte : UInt8) :
    toAsciiLowercase byte = byte ∨ byte < 128 ∧ toAsciiLowercase byte < 128 := by
  rw [toAsciiLowercase]
  split <;> rename_i h
  · simp only [Bool.and_eq_true, decide_eq_true_eq, UInt8.le_iff_toNat_le, UInt8.lt_iff_toNat_lt] at h ⊢
    refine .inr ⟨lt_of_le_of_lt h.2 (by decide), ?_⟩
    rw [UInt8.toNat_add]
    have hupper : byte.toNat ≤ 90 := h.2
    show (byte.toNat + 32) % 256 < 128
    omega
  · exact .inl rfl

/-- No ASCII byte is inside a character. -/
theorem isContinuation_ascii {byte : UInt8} (h : byte < 128) : isContinuation byte = false := by
  rw [isContinuation, decide_eq_false (UInt8.not_le.mpr h), Bool.false_and]

/-- Lower case leaves the bytes inside of characters alone. -/
theorem isContinuation_toAsciiLowercase (byte : UInt8) :
    isContinuation (toAsciiLowercase byte) = isContinuation byte := by
  obtain h | ⟨h, hlower⟩ := toAsciiLowercase_cases byte
  · rw [h]
  · rw [isContinuation_ascii h, isContinuation_ascii hlower]

/-- Lower case changes no length of a character. -/
theorem charLen_toAsciiLowercase (byte : UInt8) : charLen (toAsciiLowercase byte) = charLen byte := by
  obtain h | ⟨h, hlower⟩ := toAsciiLowercase_cases byte
  · rw [h]
  · rw [charLen, charLen, if_pos h, if_pos hlower]

/-- A text in lower case is made of characters. -/
theorem Chars.lowercase {text : List UInt8} (h : Chars text) : Chars (text.map toAsciiLowercase) := by
  induction h with
  | nil => exact .nil
  | cons hc _ ih =>
    obtain ⟨first, tail, rfl, hfirst, hlen, htail⟩ := hc
    rw [List.map_append]
    refine .cons ⟨toAsciiLowercase first, tail.map toAsciiLowercase, rfl, ?_, ?_, ?_⟩ ih
    · rwa [isContinuation_toAsciiLowercase]
    · rwa [charLen_toAsciiLowercase, List.length_map]
    · intro byte hbyte
      obtain ⟨other, hother, rfl⟩ := List.mem_map.mp hbyte
      rw [isContinuation_toAsciiLowercase]
      exact htail other hother

/-! ## Nothing panics -/

/-- A text can be cut where what follows is made of characters. -/
theorem isCharBoundary_of_chars {text : List UInt8} {index : ℕ} (hle : index ≤ text.length)
    (h : Chars (text.drop index)) : isCharBoundary text index = true := by
  rw [isCharBoundary, Bool.or_eq_true]
  refine .inr ?_
  cases hbyte : text[index]? with
  | none =>
    have := List.getElem?_eq_none_iff.mp hbyte
    simp
    omega
  | some byte =>
    obtain ⟨hlt, hget⟩ := List.getElem?_eq_some_iff.mp hbyte
    rw [List.drop_eq_getElem_cons hlt, hget] at h
    simp [h.first.1]

/-- Such a cut does not panic. -/
theorem sliceFrom_eq {text : List UInt8} {index : ℕ} (hle : index ≤ text.length)
    (h : Chars (text.drop index)) : sliceFrom text index = some (text.drop index) :=
  if_pos (isCharBoundary_of_chars hle h)

/-- A slice between two such cuts does not panic. -/
theorem slice_eq {text : List UInt8} {start length : ℕ} (hle : start + length ≤ text.length)
    (hstart : Chars (text.drop start)) (hstop : Chars ((text.drop start).drop length)) :
    slice text start (start + length) = some ((text.drop start).take length) := by
  rw [List.drop_drop] at hstop
  rw [slice, if_pos, List.drop_take, Nat.add_sub_cancel_left]
  simp [isCharBoundary_of_chars hle hstop, isCharBoundary_of_chars (by omega) hstart]

/-- The code looks back over the bytes before a position. -/
theorem boundaryBefore_eq {text : List UInt8} {position : ℕ} (hle : position ≤ text.length) :
    boundaryBefore text position = some (boundary (text.take position).reverse) := by
  cases position with
  | zero => rfl
  | succ position =>
    have hbyte : text[position]? = some text[position] := List.getElem?_eq_getElem hle
    have hhead : (text.take position).reverse.head? = if position = 0 then none else text[position - 1]? := by
      rw [List.head?_reverse, List.getLast?_take]
      split
      · rfl
      · rw [List.getElem?_eq_getElem (by omega)]
        rfl
    rw [List.take_add_one, hbyte, boundaryBefore, if_neg (Nat.succ_ne_zero _), Option.toList_some,
      List.reverse_append, List.reverse_singleton, List.singleton_append, boundary, hhead]
    simp only [Nat.add_sub_cancel, hbyte]
    cases position with
    | zero => simp
    | succ position =>
      generalize text[position + 1] = byte
      simp only [Nat.add_sub_cancel, Option.bind_eq_bind, Option.bind_some, Nat.succ_ne_zero, if_false]
      grind

/-- What stands at a position at which a character begins. -/
theorem secretAt_eq {lower : List UInt8} {position : ℕ} (hle : position ≤ lower.length)
    (h : Chars (lower.drop position)) :
    secretAt lower position = some (secret (lower.take position).reverse (lower.drop position)) := by
  rw [secretAt, boundaryBefore_eq hle, secret, sliceFrom_eq hle h]
  simp only [Option.bind_eq_bind, Option.bind_some, List.getElem?_drop]
  split <;> rfl

/-- Blanks are skipped. -/
theorem drop_skipWhitespace (text : List UInt8) (position : ℕ) :
    text.drop (skipWhitespace text position) = (text.drop position).dropWhile isAsciiWhitespace := by
  rw [skipWhitespace, ← List.drop_drop]
  generalize text.drop position = rest
  calc rest.drop (rest.takeWhile isAsciiWhitespace).length
      = (rest.takeWhile isAsciiWhitespace ++ rest.dropWhile isAsciiWhitespace).drop
          (rest.takeWhile isAsciiWhitespace).length := by rw [List.takeWhile_append_dropWhile]
    _ = rest.dropWhile isAsciiWhitespace := List.drop_left

theorem skipWhitespace_le {text : List UInt8} {position : ℕ} (hle : position ≤ text.length) :
    skipWhitespace text position ≤ text.length := by
  have := (List.takeWhile_prefix (p := isAsciiWhitespace) (l := text.drop position)).length_le
  rw [List.length_drop] at this
  rw [skipWhitespace]
  omega

/-- Taking wrappers off at a position takes them off what stands there. -/
theorem foldlM_unwrap {text : List UInt8} (wrappers : List (List UInt8)) (held : ℕ × Bool)
    (hle : held.1 ≤ text.length) :
    ∃ opened quoted, wrappers.foldlM (unwrap text) held = some (opened, quoted) ∧
      held.1 ≤ opened ∧ opened ≤ text.length ∧
      wrappers.foldl strip (text.drop held.1, held.2) = (text.drop opened, quoted) := by
  induction wrappers generalizing held with
  | nil => exact ⟨held.1, held.2, rfl, le_rfl, hle, rfl⟩
  | cons wrapper wrappers ih =>
    rw [List.foldlM_cons, List.foldl_cons, unwrap, if_neg (by omega), strip]
    split <;> rename_i hbegins
    · have hlength := (List.isPrefixOf_iff_prefix.mp hbegins).length_le
      rw [List.length_drop] at hlength
      obtain ⟨opened, quoted, hfold, hbehind, hopened, hstrip⟩ :=
        ih (held.1 + wrapper.length, held.2 || wrapper.getLast? == some 34) (by dsimp only; omega)
      refine ⟨opened, quoted, hfold, (Nat.le_add_right _ _).trans hbehind, hopened, ?_⟩
      rw [← hstrip, List.drop_drop]
    · exact ih held hle

/-- A name with a separator behind it has a value. -/
theorem span_eq_some {rest value : List UInt8} {separator : UInt8}
    (hname : afterName rest = separator :: value)
    (hseparator : (separator == 58 || separator == 61) = true) : span rest =
      some (rest.length - (value.dropWhile isAsciiWhitespace).length,
        rest.length - (stripped (value.dropWhile isAsciiWhitespace)).1.length +
          valueLength (stripped (value.dropWhile isAsciiWhitespace)).2
            (stripped (value.dropWhile isAsciiWhitespace)).1) := by
  rw [span, hname]
  exact if_pos hseparator

/-- A name that no separator follows has no value. -/
theorem span_eq_none {rest value : List UInt8} {separator : UInt8}
    (hname : afterName rest = separator :: value)
    (hseparator : ¬ (separator == 58 || separator == 61) = true) : span rest = none := by
  rw [span, hname]
  exact if_neg hseparator

/-- A name at the end has no value. -/
theorem span_nil {rest : List UInt8} (hname : afterName rest = []) : span rest = none := by
  rw [span, hname]

/-- The code finds the value that `span` does, and does not panic. -/
theorem valueSpan_eq {text : List UInt8} {position : ℕ} (hle : position ≤ text.length) :
    valueSpan text position = some ((span (text.drop position)).map fun found =>
      (position + found.1, position + found.2)) := by
  rw [valueSpan]
  generalize hunquoted : (if text[position]? == some 34 then position + 1 else position) = unquoted
  have hle' : position ≤ unquoted ∧ unquoted ≤ text.length := by
    rw [← hunquoted]
    split <;> rename_i h
    · obtain ⟨hlt, -⟩ := List.getElem?_eq_some_iff.mp (by simpa using h)
      omega
    · omega
  have hafter : text.drop (skipWhitespace text unquoted) = afterName (text.drop position) := by
    rw [drop_skipWhitespace, afterName, List.head?_drop, ← hunquoted]
    split
    · rw [List.tail_drop]
    · rfl
  have hskip := skipWhitespace_le hle'.2
  have hhead : text[skipWhitespace text unquoted]? = (afterName (text.drop position)).head? := by
    rw [← hafter, List.head?_drop]
  dsimp only
  rw [hhead]
  cases hname : afterName (text.drop position) with
  | nil =>
    rw [span_nil hname]
    rfl
  | cons separator value =>
    by_cases hseparator : separator == 58 || separator == 61
    · have hvalue : text.drop (skipWhitespace text (skipWhitespace text unquoted + 1)) =
          value.dropWhile isAsciiWhitespace := by
        rw [drop_skipWhitespace, ← List.tail_drop, hafter, hname, List.tail_cons]
      have hlt : skipWhitespace text unquoted < text.length := by
        have := congrArg List.length (hafter.trans hname)
        rw [List.length_drop, List.length_cons] at this
        omega
      have hstart : skipWhitespace text (skipWhitespace text unquoted + 1) ≤ text.length :=
        skipWhitespace_le hlt
      have hposition : position ≤ skipWhitespace text (skipWhitespace text unquoted + 1) := by
        rw [skipWhitespace, skipWhitespace]
        omega
      obtain ⟨opened, quoted, hfold, hbehind, hopened, hstrip⟩ := foldlM_unwrap wrappers
        (skipWhitespace text (skipWhitespace text unquoted + 1), false) hstart
      have hstripped : stripped (value.dropWhile isAsciiWhitespace) = (text.drop opened, quoted) := by
        rw [stripped, ← hvalue]
        exact hstrip
      have hsome : ((separator :: value).head? == some 58 || (separator :: value).head? == some 61) = true :=
        hseparator
      dsimp only at hbehind
      rw [if_pos hsome, span_eq_some hname hseparator, hfold, hstripped, ← hvalue]
      simp only [Option.bind_eq_bind, Option.bind_some, Option.pure_def, Option.map_some, Option.some.injEq,
        Prod.mk.injEq, List.length_drop]
      constructor <;> omega
    · have hnone : ¬ ((separator :: value).head? == some 58 || (separator :: value).head? == some 61) = true :=
        hseparator
      rw [if_neg hnone, span_eq_none hname hseparator]
      rfl

/-- A character begins where an ASCII text is found. -/
theorem Chars.drop_find {rest pattern : List UInt8} {i : ℕ} (h : Chars rest) (hne : pattern ≠ [])
    (hascii : ∀ byte ∈ pattern, byte < 128) (hfind : find pattern rest = some i) :
    Chars (rest.drop i) ∧ Chars (rest.drop (i + pattern.length)) := by
  obtain ⟨after, hafter⟩ := Searching.prefix_of_find hfind
  have hfirst : Chars (rest.drop i) := by
    refine h.drop (List.take_append_drop i rest).symm ?_
    obtain ⟨first, others, rfl⟩ := List.exists_cons_of_ne_nil hne
    rw [← hafter]
    intro byte hbyte
    rw [List.cons_append, List.head?_cons, Option.mem_some_iff] at hbyte
    subst hbyte
    have := hascii first List.mem_cons_self
    simp [isContinuation, ← UInt8.not_lt, this]
  refine ⟨hfirst, ?_⟩
  have hdrop : rest.drop (i + pattern.length) = after := by
    rw [← List.drop_drop, ← hafter, List.drop_left]
  rw [hdrop]
  rw [← hafter] at hfirst
  exact hfirst.drop_ascii hascii

/-- The marks of a private key are ASCII. -/
theorem ascii_marks : (∀ byte ∈ OPEN, byte < 128) ∧ (∀ byte ∈ CLOSE, byte < 128) ∧
    ∀ byte ∈ END, byte < 128 :=
  ⟨forall_of_all (by decide), forall_of_all (by decide), forall_of_all (by decide)⟩

theorem chars_head {rest : List UInt8} (h : Chars rest) (hbegins : OPEN.isPrefixOf rest) :
    Chars (rest.drop OPEN.length) := by
  obtain ⟨head, rfl⟩ := List.isPrefixOf_iff_prefix.mp hbegins
  rw [List.drop_left]
  exact h.drop_ascii ascii_marks.1

/-- A character begins where the head of a block ends. -/
theorem chars_headEnd {rest : List UInt8} (h : Chars rest) (hbegins : OPEN.isPrefixOf rest) {closed : ℕ}
    (hclosed : find CLOSE (rest.drop OPEN.length) = some closed) :
    Chars (rest.drop (closed + OPEN.length)) := by
  rw [Nat.add_comm, ← List.drop_drop]
  exact ((chars_head h hbegins).drop_find (by decide) ascii_marks.2.1 hclosed).1

/-- A character begins behind the dashes that begin the end of a block. -/
theorem chars_tail {rest : List UInt8} {headEnd last : ℕ} (h : Chars (rest.drop headEnd))
    (hlast : find END (rest.drop headEnd) = some last) :
    Chars (rest.drop (last + headEnd + CLOSE.length)) := by
  have hsplit : END = CLOSE ++ END.drop CLOSE.length := by decide
  have hchars := (h.drop_find (by decide) ascii_marks.2.2 hlast).1
  obtain ⟨after, hafter⟩ := Searching.prefix_of_find hlast
  rw [hsplit, List.append_assoc] at hafter
  rw [← hafter] at hchars
  rw [Nat.add_comm last, ← List.drop_drop, ← List.drop_drop, ← hafter, List.drop_left]
  exact hchars.drop_ascii ascii_marks.2.1

/-- The code finds the private key that `block` does, and does not panic. -/
theorem pemKeyAt_eq {lower : List UInt8} {position : ℕ} (hle : position ≤ lower.length)
    (h : Chars (lower.drop position)) :
    pemKeyAt lower position = some ((block (lower.drop position)).map fun stop => position + stop) := by
  have hlength : (lower.drop position).length = lower.length - position := List.length_drop
  rw [pemKeyAt, block, sliceFrom_eq hle h]
  simp only [Option.bind_eq_bind, Option.bind_some]
  by_cases hbegins : OPEN.isPrefixOf (lower.drop position)
  · have hfits := (List.isPrefixOf_iff_prefix.mp hbegins).length_le
    have hhead := chars_head h hbegins
    rw [if_pos hbegins, if_pos hbegins, sliceFrom_eq (by omega) (by rwa [← List.drop_drop]),
      ← List.drop_drop]
    simp only [Option.bind_some]
    cases hclosed : find CLOSE ((lower.drop position).drop OPEN.length) with
    | none => rfl
    | some closed =>
      have hclosedle := Searching.add_length_le_of_find hclosed
      rw [List.length_drop] at hclosedle
      have hheadEnd := chars_headEnd h hbegins hclosed
      have habsolute : closed + position + OPEN.length = position + (closed + OPEN.length) := by omega
      simp only [habsolute, Option.bind_some]
      rw [slice_eq (by omega) h hheadEnd]
      simp only [Option.bind_some]
      by_cases hkey : (find PRIVATE_KEY ((lower.drop position).take (closed + OPEN.length))).isSome = true
      · rw [if_pos hkey, if_pos hkey, sliceFrom_eq (by omega) (by rwa [← List.drop_drop]), ← List.drop_drop]
        simp only [Option.bind_some]
        cases hlast : find END ((lower.drop position).drop (closed + OPEN.length)) with
        | none => rfl
        | some last =>
          have hlastle := Searching.add_length_le_of_find hlast
          rw [List.length_drop] at hlastle
          have hendlen : CLOSE.length ≤ END.length := by decide
          have habsolute : last + (position + (closed + OPEN.length)) + CLOSE.length =
            position + (last + (closed + OPEN.length) + CLOSE.length) := by omega
          simp only [habsolute, Option.bind_some]
          rw [sliceFrom_eq (by omega) (by rw [← List.drop_drop]; exact chars_tail hheadEnd hlast),
            ← List.drop_drop]
          simp only [Option.bind_some]
          cases hagain : find CLOSE
              ((lower.drop position).drop (last + (closed + OPEN.length) + CLOSE.length)) with
          | none => rfl
          | some again =>
            have hagainle := Searching.add_length_le_of_find hagain
            rw [List.length_drop] at hagainle
            simp only [Option.pure_def, Option.map_some, Option.some.injEq]
            omega
      · rw [if_neg hkey, if_neg hkey]
        rfl
  · rw [if_neg hbegins, if_neg hbegins]
    rfl

/-! ## What is found stands between characters -/

/-- What is taken for a secret begins with one of the names. -/
theorem isPrefixOf_of_secret {before rest name : List UInt8} (h : secret before rest = some name) :
    name ∈ SECRET ∧ name <+: rest := by
  rw [secret] at h
  split at h
  · have hmem := List.mem_of_find?_eq_some h
    have hholds := List.find?_some h
    rw [Bool.and_eq_true] at hholds
    exact ⟨hmem, List.isPrefixOf_iff_prefix.mp hholds.1⟩
  · cases h

theorem isAsciiWhitespace_lt {byte : UInt8} (h : isAsciiWhitespace byte = true) : byte < 128 := by
  have hall : ∀ blank ∈ ([32, 9, 10, 12, 13] : List UInt8), blank < 128 := forall_of_all (by decide)
  exact hall byte (by simpa [isAsciiWhitespace, or_assoc] using h)

theorem takeWhile_ascii (rest : List UInt8) : ∀ byte ∈ rest.takeWhile isAsciiWhitespace, byte < 128 :=
  fun _ hbyte => isAsciiWhitespace_lt (List.mem_takeWhile_imp hbyte)

/-- What is skipped behind a name is ASCII. -/
theorem afterName_suffix (rest : List UInt8) :
    ∃ front, rest = front ++ afterName rest ∧ ∀ byte ∈ front, byte < 128 := by
  rw [afterName]
  split <;> rename_i h
  · obtain ⟨tail, rfl⟩ : ∃ tail, rest = 34 :: tail := List.head?_eq_some_iff.mp (by simpa using h)
    refine ⟨34 :: tail.takeWhile isAsciiWhitespace, ?_, ?_⟩
    · rw [List.tail_cons, List.cons_append, List.takeWhile_append_dropWhile]
    · rw [List.forall_mem_cons]
      exact ⟨by decide, takeWhile_ascii tail⟩
  · exact ⟨rest.takeWhile isAsciiWhitespace, List.takeWhile_append_dropWhile.symm, takeWhile_ascii rest⟩

/-- What is taken off as wrappers is ASCII. -/
theorem foldl_strip_suffix {wrappers : List (List UInt8)}
    (hascii : ∀ wrapper ∈ wrappers, ∀ byte ∈ wrapper, byte < 128)
    (held : List UInt8 × Bool) :
    ∃ front, held.1 = front ++ (wrappers.foldl strip held).1 ∧ ∀ byte ∈ front, byte < 128 := by
  induction wrappers generalizing held with
  | nil => exact ⟨[], rfl, List.forall_mem_nil _⟩
  | cons wrapper wrappers ih =>
    rw [List.forall_mem_cons] at hascii
    rw [List.foldl_cons]
    obtain ⟨front, hfront, hbytes⟩ := ih hascii.2 (strip held wrapper)
    by_cases hbegins : wrapper.isPrefixOf held.1
    · obtain ⟨after, hafter⟩ := List.isPrefixOf_iff_prefix.mp hbegins
      have hstrip : (strip held wrapper).1 = after := by
        rw [strip, if_pos hbegins, ← hafter]
        exact List.drop_left
      rw [hstrip] at hfront
      refine ⟨wrapper ++ front, ?_, ?_⟩
      · rw [List.append_assoc, ← hfront, hafter]
      · rw [List.forall_mem_append]
        exact ⟨hascii.1, hbytes⟩
    · have hstrip : strip held wrapper = held := if_neg hbegins
      rw [hstrip] at hfront
      rw [hstrip] at ⊢
      exact ⟨front, hfront, hbytes⟩

theorem wrappers_ascii : ∀ wrapper ∈ wrappers, ∀ byte ∈ wrapper, byte < 128 := by
  have hall : (wrappers.all fun wrapper => wrapper.all fun byte => byte < 128) = true := by decide
  exact fun wrapper hwrapper => forall_of_all (List.all_eq_true.mp hall wrapper hwrapper)

/-- What stands around a value is ASCII. -/
theorem stripped_suffix (value : List UInt8) :
    ∃ front, value = front ++ (stripped value).1 ∧ ∀ byte ∈ front, byte < 128 :=
  foldl_strip_suffix wrappers_ascii (value, false)

/-- The six bytes a value ends at. -/
theorem ends_iff {byte : UInt8} : ends byte = true ↔ byte ∈ ([34, 13, 10, 44, 125, 41] : List UInt8) := by
  simp [ends, or_assoc]

theorem ends_lt {byte : UInt8} (h : ends byte = true) : byte < 128 := by
  have hall : ∀ byte ∈ ([34, 13, 10, 44, 125, 41] : List UInt8), byte < 128 := forall_of_all (by decide)
  exact hall byte (ends_iff.mp h)

/-- An escaped line break begins with a backslash. -/
theorem escapedBreak_head {byte : UInt8} {rest : List UInt8} (h : escapedBreak (byte :: rest) = true) :
    byte = 92 := by
  rw [escapedBreak, Bool.or_eq_true, List.isPrefixOf_iff_prefix, List.isPrefixOf_iff_prefix] at h
  obtain h | h := h <;> exact (List.cons_prefix_cons.mp h).1.symm

/-- A value ends before an ASCII byte, or behind it when that is a quote. -/
theorem valueLength_spec (quoted : Bool) (value : List UInt8) : ∃ m ≤ value.length,
    (∀ byte ∈ (value.drop m).head?, byte < 128) ∧ (valueLength quoted value = m ∨
      (value.drop m).head? = some 34 ∧ valueLength quoted value = m + 1) := by
  induction value with
  | nil => exact ⟨0, le_rfl, by simp, .inl rfl⟩
  | cons byte rest ih =>
    rw [valueLength]
    split <;> rename_i hescaped
    · refine ⟨0, Nat.zero_le _, ?_, .inl rfl⟩
      rw [List.drop_zero, List.head?_cons, escapedBreak_head hescaped]
      simp
    · split <;> rename_i hends
      · refine ⟨0, Nat.zero_le _, ?_, ?_⟩
        · rw [List.drop_zero, List.head?_cons]
          simpa using ends_lt hends
        · split <;> rename_i hquote
          · rw [Bool.and_eq_true, beq_iff_eq] at hquote
            exact .inr ⟨by rw [List.drop_zero, List.head?_cons, hquote.2], rfl⟩
          · exact .inl rfl
      · obtain ⟨m, hm, hhead, hlength⟩ := ih
        refine ⟨m + 1, Nat.succ_le_succ hm, hhead, ?_⟩
        rw [List.drop_succ_cons]
        exact hlength.imp (congrArg (· + 1)) (And.imp_right (congrArg (· + 1)))

/-- A value ends between two characters. -/
theorem chars_drop_valueLength (quoted : Bool) {value : List UInt8} (h : Chars value) :
    valueLength quoted value ≤ value.length ∧ Chars (value.drop (valueLength quoted value)) := by
  obtain ⟨m, hm, hhead, hlength⟩ := valueLength_spec quoted value
  have hchars : Chars (value.drop m) := by
    refine h.drop (List.take_append_drop m value).symm fun byte hbyte => ?_
    have := hhead byte hbyte
    simp [isContinuation, ← UInt8.not_lt, this]
  obtain hlength | ⟨hquote, hlength⟩ := hlength
  · rw [hlength]
    exact ⟨hm, hchars⟩
  · obtain ⟨tail, htail⟩ := List.head?_eq_some_iff.mp hquote
    have hdrop : value.drop (m + 1) = tail := by
      rw [← List.drop_drop, htail, List.drop_succ_cons, List.drop_zero]
    have := congrArg List.length htail
    rw [List.length_drop, List.length_cons] at this
    rw [htail] at hchars
    rw [hlength, hdrop]
    exact ⟨by omega, hchars.tail (by decide)⟩

/-- A value that is found lies in the text, between characters. -/
theorem span_spec {rest : List UInt8} (h : Chars rest) {found : ℕ × ℕ} (hspan : span rest = some found) :
    found.1 ≤ rest.length ∧ found.2 ≤ rest.length ∧ Chars (rest.drop found.1) ∧ Chars (rest.drop found.2) := by
  obtain ⟨front, hfront, hascii⟩ := afterName_suffix rest
  cases hname : afterName rest with
  | nil =>
    rw [span_nil hname] at hspan
    cases hspan
  | cons separator value =>
    by_cases hseparator : (separator == 58 || separator == 61) = true
    · rw [span_eq_some hname hseparator] at hspan
      obtain rfl := Option.some.inj hspan
      have hlt : separator < 128 := by
        rw [Bool.or_eq_true, beq_iff_eq, beq_iff_eq] at hseparator
        obtain rfl | rfl := hseparator <;> decide
      obtain ⟨opener, hopener, hopened⟩ := stripped_suffix (value.dropWhile isAsciiWhitespace)
      have hvalue : rest = (front ++ separator :: value.takeWhile isAsciiWhitespace) ++
          value.dropWhile isAsciiWhitespace := by
        rw [List.append_assoc, List.cons_append, List.takeWhile_append_dropWhile, ← hname]
        exact hfront
      have hbefore : ∀ byte ∈ front ++ separator :: value.takeWhile isAsciiWhitespace, byte < 128 := by
        rw [List.forall_mem_append, List.forall_mem_cons]
        exact ⟨hascii, hlt, takeWhile_ascii value⟩
      have hchars : Chars (value.dropWhile isAsciiWhitespace) := (hvalue ▸ h).drop_ascii hbefore
      have hlength := congrArg List.length hvalue
      have hopenlength := congrArg List.length hopener
      rw [List.length_append] at hlength hopenlength
      have hinside : Chars (stripped (value.dropWhile isAsciiWhitespace)).1 := by
        rw [hopener] at hchars
        exact hchars.drop_ascii hopened
      obtain ⟨hle, hend⟩ := chars_drop_valueLength (stripped (value.dropWhile isAsciiWhitespace)).2 hinside
      have hstart : rest.drop (rest.length - (value.dropWhile isAsciiWhitespace).length) =
          value.dropWhile isAsciiWhitespace := by
        rw [show rest.length - (value.dropWhile isAsciiWhitespace).length =
          (front ++ separator :: value.takeWhile isAsciiWhitespace).length by omega]
        conv_lhs => rw [hvalue]
        exact List.drop_left
      have hstop : rest.drop (rest.length - (stripped (value.dropWhile isAsciiWhitespace)).1.length) =
          (stripped (value.dropWhile isAsciiWhitespace)).1 := by
        rw [show rest.length - (stripped (value.dropWhile isAsciiWhitespace)).1.length =
          rest.length - (value.dropWhile isAsciiWhitespace).length + opener.length by omega,
          ← List.drop_drop, hstart]
        conv_lhs => rw [hopener]
        exact List.drop_left
      refine ⟨by dsimp only; omega, by dsimp only; omega, ?_, ?_⟩
      · rw [hstart]
        exact hchars
      · rw [← List.drop_drop, hstop]
        exact hend
    · rw [span_eq_none hname hseparator] at hspan
      cases hspan

/-- The secret names are ASCII, and none is empty. -/
theorem secret_ascii : ∀ name ∈ SECRET, name ≠ [] ∧ ∀ byte ∈ name, byte < 128 := by
  have hne : ∀ name ∈ SECRET, name ≠ [] := by decide
  have hall : (SECRET.all fun name => name.all fun byte => byte < 128) = true := by decide
  exact fun name hname => ⟨hne name hname, forall_of_all (List.all_eq_true.mp hall name hname)⟩

theorem toAsciiLowercase_lt {byte : UInt8} (h : toAsciiLowercase byte < 128) : byte < 128 := by
  obtain hsame | ⟨hbyte, -⟩ := toAsciiLowercase_cases byte
  · rwa [hsame] at h
  · exact hbyte

/-- A text that is ASCII in lower case is ASCII. -/
theorem exists_of_prefix_lowercase {name rest : List UInt8} (h : name <+: rest.map toAsciiLowercase)
    (hascii : ∀ byte ∈ name, byte < 128) :
    ∃ front, rest = front ++ rest.drop name.length ∧ front.map toAsciiLowercase = name ∧
      ∀ byte ∈ front, byte < 128 := by
  have htake := List.prefix_iff_eq_take.mp h
  rw [← List.map_take] at htake
  refine ⟨rest.take name.length, (List.take_append_drop _ _).symm, htake.symm, fun byte hbyte => ?_⟩
  refine toAsciiLowercase_lt (hascii _ ?_)
  rw [htake]
  exact List.mem_map_of_mem hbyte

/-- The value of a secret lies in the text, between characters, and behind the name. -/
theorem valueOf_spec {before rest : List UInt8} (h : Chars rest) {found : ℕ × ℕ}
    (hfound : valueOf before rest = some found) : found.1 ≤ rest.length ∧ found.2 ≤ rest.length ∧
      0 < found.2 ∧ Chars (rest.drop found.1) ∧ Chars (rest.drop found.2) := by
  rw [valueOf] at hfound
  obtain ⟨name, hname, hspan⟩ := Option.bind_eq_some_iff.mp hfound
  obtain ⟨inside, hinside, rfl⟩ := Option.map_eq_some_iff.mp hspan
  obtain ⟨hmem, hbegins⟩ := isPrefixOf_of_secret hname
  obtain ⟨hne, hascii⟩ := secret_ascii name hmem
  obtain ⟨front, hfront, -, hbytes⟩ := exists_of_prefix_lowercase hbegins hascii
  have hrest : Chars (rest.drop name.length) := by
    rw [hfront] at h
    exact h.drop_ascii hbytes
  have hlength := hbegins.length_le
  rw [List.length_map] at hlength
  have hpos := List.length_pos_iff.mpr hne
  obtain ⟨hstart, hstop, hstartchars, hstopchars⟩ := span_spec hrest hinside
  rw [List.length_drop] at hstart hstop
  rw [List.drop_drop] at hstartchars hstopchars
  dsimp only
  exact ⟨by omega, by omega, by omega, hstartchars, hstopchars⟩

/-- A private key has its three marks, in this order. -/
theorem block_eq_some {rest : List UInt8} {stop : ℕ} (h : block rest = some stop) : OPEN.isPrefixOf rest ∧
    ∃ closed last again, find CLOSE (rest.drop OPEN.length) = some closed ∧
      find END (rest.drop (closed + OPEN.length)) = some last ∧
      find CLOSE (rest.drop (last + (closed + OPEN.length) + CLOSE.length)) = some again ∧
      stop = last + (closed + OPEN.length) + CLOSE.length + (again + CLOSE.length) := by
  rw [block] at h
  split at h <;> rename_i hbegins
  · obtain ⟨closed, hclosed, h⟩ := Option.bind_eq_some_iff.mp h
    dsimp only at h
    split at h
    · obtain ⟨last, hlast, h⟩ := Option.bind_eq_some_iff.mp h
      obtain ⟨again, hagain, rfl⟩ := Option.map_eq_some_iff.mp h
      exact ⟨hbegins, closed, last, again, hclosed, hlast, hagain, by omega⟩
    · cases h
  · cases h

/-- A private key is not empty. -/
theorem block_pos {rest : List UInt8} {stop : ℕ} (h : block rest = some stop) : 0 < stop := by
  obtain ⟨-, closed, last, again, -, -, -, rfl⟩ := block_eq_some h
  have hpos : 0 < CLOSE.length := by decide
  omega

/-- A private key ends in the text, between characters. -/
theorem block_spec {rest : List UInt8} (h : Chars rest) {stop : ℕ} (hblock : block rest = some stop) :
    stop ≤ rest.length ∧ Chars (rest.drop stop) := by
  obtain ⟨hbegins, closed, last, again, hclosed, hlast, hagain, rfl⟩ := block_eq_some hblock
  have hbehind := chars_tail (chars_headEnd h hbegins hclosed) hlast
  have hchars := (hbehind.drop_find (by decide) ascii_marks.2.1 hagain).2
  have hle := Searching.add_length_le_of_find hagain
  have hpos : 0 < CLOSE.length := by decide
  rw [List.length_drop] at hle
  rw [List.drop_drop] at hchars
  exact ⟨by omega, hchars⟩

/-- A text has a character where the text in lower case has one. -/
theorem chars_of_lowercase {rest : List UInt8} (h : Chars rest) {stop : ℕ}
    (hstop : Chars ((rest.map toAsciiLowercase).drop stop)) : Chars (rest.drop stop) := by
  refine h.drop (List.take_append_drop stop rest).symm fun byte hbyte => ?_
  obtain ⟨tail, htail⟩ := List.head?_eq_some_iff.mp hbyte
  rw [← List.map_drop, htail, List.map_cons] at hstop
  rw [← isContinuation_toAsciiLowercase]
  exact hstop.first.1

/-! ## The scan of the source -/

/-- The bytes a secret name or a private key begins with. -/
def starters : List UInt8 := [97, 112, 99, 115, 120, 98, 45]

/-- Every secret begins with a byte of `starters`. -/
theorem starters_spec : (∀ name ∈ SECRET, ∃ byte ∈ starters, ∃ rest, name = byte :: rest) ∧
    ∃ byte ∈ starters, ∃ rest, OPEN = byte :: rest := by
  refine ⟨fun name hname => ?_, 45, by decide, OPEN.tail, by decide⟩
  have hheads : ∀ name ∈ SECRET, name.headD 0 ∈ starters ∧ name = name.headD 0 :: name.tail := by
    decide
  exact ⟨_, (hheads name hname).1, _, (hheads name hname).2⟩

/-- No name begins with another byte. -/
theorem secret_eq_none {before rest : List UInt8} {byte : UInt8} (h : byte ∉ starters) :
    secret before (byte :: rest) = none := by
  rw [secret]
  split
  · refine List.find?_eq_none.mpr fun name hname hholds => ?_
    obtain ⟨first, hfirst, others, rfl⟩ := starters_spec.1 name hname
    rw [Bool.and_eq_true, List.isPrefixOf_iff_prefix] at hholds
    exact h ((List.cons_prefix_cons.mp hholds.1).1 ▸ hfirst)
  · rfl

/-- Nor does a private key. -/
theorem block_eq_none {rest : List UInt8} {byte : UInt8} (h : byte ∉ starters) :
    block (byte :: rest) = none := by
  refine if_neg fun hbegins => ?_
  obtain ⟨first, hfirst, others, hopen⟩ := starters_spec.2
  rw [hopen, List.isPrefixOf_iff_prefix] at hbegins
  exact h ((List.cons_prefix_cons.mp hbegins).1 ▸ hfirst)

/-- Nothing is found at a byte that no name begins with. -/
theorem hit_eq_none {before rest : List UInt8} {byte : UInt8} (h : toAsciiLowercase byte ∉ starters) :
    hit before (byte :: rest) = none := by
  rw [hit, valueOf, List.map_cons, secret_eq_none h, block_eq_none h]
  rfl

/-- Where no secret begins, a byte is kept. -/
theorem masked_of_none {before rest : List UInt8} {byte : UInt8} (h : hit before (byte :: rest) = none) :
    masked before (byte :: rest) = byte :: masked (byte :: before) rest := by
  rw [masked, h]

/-- Where one begins, the mask takes its place. -/
theorem masked_of_some {before rest : List UInt8} {kept stop : ℕ} (h : hit before rest = some (kept, stop))
    (hpos : 0 < stop) (hne : rest ≠ []) : masked before rest =
      rest.take kept ++ MASK ++ masked ((rest.take stop).reverse ++ before) (rest.drop stop) := by
  obtain ⟨byte, rest, rfl⟩ := List.exists_cons_of_ne_nil hne
  obtain ⟨stop, rfl⟩ := Nat.exists_eq_succ_of_ne_zero hpos.ne'
  rw [masked, h]
  rfl

/-- The bytes a character goes on with are left as they are. -/
theorem masked_continuation {before others rest : List UInt8}
    (h : ∀ byte ∈ others, isContinuation byte = true) :
    masked before (others ++ rest) = others ++ masked (others.reverse ++ before) rest := by
  have hstarters : ∀ first ∈ starters, isContinuation first = false := forall_of_all (by decide)
  have hall (byte : UInt8) (hbyte : isContinuation byte = true) : toAsciiLowercase byte ∉ starters := by
    intro hmem
    have := hstarters _ hmem
    rw [isContinuation_toAsciiLowercase, hbyte] at this
    cases this
  induction others generalizing before with
  | nil => rfl
  | cons byte others ih =>
    rw [List.forall_mem_cons] at h
    rw [List.cons_append, masked_of_none (hit_eq_none (hall byte h.1)), ih h.2, List.reverse_cons,
      List.append_assoc]
    rfl

/-- The code finds the value that `valueOf` does, and does not panic. -/
theorem spanAt_eq {text : List UInt8} {position : ℕ} (hle : position ≤ text.length)
    (h : Chars (text.drop position)) : spanAt text (text.map toAsciiLowercase) position =
      some ((valueOf (text.take position).reverse (text.drop position)).map fun found =>
        (position + found.1, position + found.2)) := by
  have hlower : Chars ((text.map toAsciiLowercase).drop position) := by
    rw [← List.map_drop]
    exact h.lowercase
  rw [spanAt, secretAt_eq (by rwa [List.length_map]) hlower, valueOf, List.map_reverse, List.map_take,
    List.map_drop]
  simp only [Option.bind_eq_bind, Option.bind_some]
  cases hname : secret ((text.map toAsciiLowercase).take position).reverse
      ((text.map toAsciiLowercase).drop position) with
  | none => rfl
  | some name =>
    have hlength := (isPrefixOf_of_secret hname).2.length_le
    rw [List.length_drop, List.length_map] at hlength
    dsimp only
    rw [valueSpan_eq (by omega), ← List.drop_drop, Option.bind_some, Option.map_map]
    congr 2
    funext found
    simp [Nat.add_assoc]

theorem reverse_take_add (text : List UInt8) (position stop : ℕ) :
    (text.take (position + stop)).reverse =
      ((text.drop position).take stop).reverse ++ (text.take position).reverse := by
  rw [List.take_add, List.reverse_append]

/-- The scan writes what the bytes from its position on are masked to. -/
theorem scan_eq {text : List UInt8} {rounds position : ℕ} {out : List UInt8} (hle : position ≤ text.length)
    (h : Chars (text.drop position)) (hrounds : text.length - position < rounds) :
    scan text (text.map toAsciiLowercase) rounds position out =
      some (out ++ masked (text.take position).reverse (text.drop position)) := by
  induction rounds generalizing position out with
  | zero => omega
  | succ rounds ih =>
    have hlength : (text.drop position).length = text.length - position := List.length_drop
    rw [scan]
    cases hfirst : text[position]? with
    | none =>
      have hend := List.getElem?_eq_none_iff.mp hfirst
      rw [List.drop_eq_nil_of_le hend, masked, List.append_nil]
    | some first =>
      obtain ⟨hlt, hget⟩ := List.getElem?_eq_some_iff.mp hfirst
      have hcons : text.drop position = first :: text.drop (position + 1) := by
        rw [List.drop_eq_getElem_cons hlt, hget]
      dsimp only
      rw [spanAt_eq hle h]
      cases hvalue : valueOf (text.take position).reverse (text.drop position) with
      | some found =>
        obtain ⟨kept, stop⟩ := found
        obtain ⟨hkept, hstop, hpos, hkeptchars, hstopchars⟩ := valueOf_spec h hvalue
        have hhit : hit (text.take position).reverse (text.drop position) = some (kept, stop) := by
          rw [hit, hvalue]
          rfl
        simp only [Option.bind_eq_bind, Option.bind_some, Option.map_some]
        rw [slice_eq (by omega) h hkeptchars, Option.bind_some,
          ih (by omega) (by rwa [← List.drop_drop]) (by omega),
          masked_of_some hhit hpos (by rw [hcons]; exact List.cons_ne_nil _ _), reverse_take_add,
          List.drop_drop]
        simp only [List.append_assoc]
      | none =>
        simp only [Option.bind_eq_bind, Option.bind_some, Option.map_none]
        rw [pemKeyAt_eq (by rwa [List.length_map]) (by rw [← List.map_drop]; exact h.lowercase),
          Option.bind_some, ← List.map_drop]
        cases hblock : block ((text.drop position).map toAsciiLowercase) with
        | some stop =>
          obtain ⟨hstop, hchars⟩ := block_spec h.lowercase hblock
          have hpos := block_pos hblock
          have hhit : hit (text.take position).reverse (text.drop position) = some (0, stop) := by
            rw [hit, hvalue, hblock]
            rfl
          rw [List.length_map] at hstop
          rw [Option.map_some]
          dsimp only
          rw [ih (by omega) (by rw [← List.drop_drop]; exact chars_of_lowercase h hchars) (by omega),
            masked_of_some hhit hpos (by rw [hcons]; exact List.cons_ne_nil _ _), reverse_take_add,
            List.drop_drop, List.take_zero, List.nil_append, List.append_assoc]
        | none =>
          have hhit : hit (text.take position).reverse (text.drop position) = none := by
            rw [hit, hvalue, hblock]
            rfl
          rw [hcons] at h hhit hlength ⊢
          obtain ⟨-, others, after, hafter, hlen, hothers, hchars⟩ := h.first
          have hstop : min (position + charLen first) text.length = position + charLen first := by
            have := congrArg List.length hafter
            rw [List.length_append] at this
            rw [List.length_cons] at hlength
            omega
          have hdrop : text.drop (position + charLen first) = after := by
            rw [hlen, Nat.add_comm others.length, ← Nat.add_assoc, ← List.drop_drop, hafter, List.drop_left]
          have htake : (text.drop position).take (charLen first) = first :: others := by
            rw [hcons, hlen, List.take_succ_cons, hafter, List.take_left]
          simp only [Option.map_none]
          rw [hstop, slice_eq (by omega) (by rwa [hcons]) (by rwa [List.drop_drop, hdrop]), Option.bind_some,
            ih (by omega) (by rwa [hdrop]) (by omega), masked_of_none hhit, hafter,
            masked_continuation hothers, reverse_take_add, htake, hdrop, List.reverse_cons,
            List.append_assoc, List.append_assoc]
          rfl

/-- Masking never panics, whatever the message. -/
theorem message_eq (text : String) : message text = some (masked [] (bytes text)) :=
  scan_eq (Nat.zero_le _) (chars_bytes text) (Nat.lt_succ_self _)

end EkEk.Mask
