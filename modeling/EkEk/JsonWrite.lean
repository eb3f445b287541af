import EkEk.JsonText
import Mathlib.Data.List.DropRight

/-!
# Writing JSON

What the JSON library writes a value as: without blanks, with the control characters, the quote and the
backslash of a string escaped. How a number that is no integer is written is a parameter.

`value_write` reads back what was written, whatever follows it, and `fromStr_truncated` says that an array or
an object that was cut off is never taken for another one.
-/

namespace EkEk.Json

/-! ## Strings -/

/-- A control character, by its number. -/
def control (c : Char) : List Char :=
  ['\\', 'u', '0', '0', Nat.digitChar (c.toNat / 16), Nat.digitChar (c.toNat % 16)]

/-- How a character stands in a string, given those that a letter stands for. -/
def escapedBy (short : Char → Option Char) (c : Char) : List Char :=
  match short c with
  | some letter => ['\\', letter]
  | none => if c.toNat < 32 then control c else [c]

/-- The characters that a letter stands for. -/
def short : Char → Option Char
  | '"' => some '"'
  | '\\' => some '\\'
  | '\x08' => some 'b'
  | '\x0c' => some 'f'
  | '\n' => some 'n'
  | '\r' => some 'r'
  | '\t' => some 't'
  | _ => none

/-- How the library writes a character. -/
def escaped : Char → List Char := escapedBy short

/-- A way to write characters that is undone when they are read. -/
def Escapes (write : Char → List Char) : Prop :=
  ∀ c, (write c = [c] ∧ c ≠ '"' ∧ c ≠ '\\' ∧ 32 ≤ c.toNat) ∨
    ∃ letters, write c = '\\' :: letters ∧ (∀ letter ∈ letters, 32 ≤ letter.toNat) ∧
      ∀ rest, escape (letters ++ rest) = some (c, rest)

/-- A control character is read back from its four digits. -/
theorem escape_control {c : Char} (h : c.toNat < 32) (rest : List Char) :
    escape ('u' :: '0' :: '0' :: Nat.digitChar (c.toNat / 16) :: Nat.digitChar (c.toNat % 16) :: rest) =
      some (c, rest) := by
  have hdigit : ∀ n < 16, hexValue (Nat.digitChar n) = some n := by decide
  have hunit : ((0 * 16 + 0) * 16 + c.toNat / 16) * 16 + c.toNat % 16 = c.toNat := by omega
  rw [escape, hex4, hdigit _ (by omega), hdigit _ (by omega)]
  show unicode (((0 * 16 + 0) * 16 + c.toNat / 16) * 16 + c.toNat % 16) rest = _
  unfold unicode
  rw [hunit, if_pos (.inl (by omega)), Char.ofNat_toNat]

/-- Letters that are read as what they stand for are enough, as long as there is one for the quote and one for
the backslash. -/
theorem escapes_by {short : Char → Option Char}
    (hshort : ∀ c letter, short c = some letter →
      32 ≤ letter.toNat ∧ ∀ rest, escape (letter :: rest) = some (c, rest))
    (hquote : short '"' ≠ none) (hbackslash : short '\\' ≠ none) : Escapes (escapedBy short) := by
  intro c
  unfold escapedBy
  split
  · rename_i letter h
    obtain ⟨hspace, hescape⟩ := hshort c letter h
    exact .inr ⟨[letter], rfl, by simpa using hspace, hescape⟩
  · rename_i h
    split
    · rename_i hcontrol
      have hdigit : ∀ n < 16, 32 ≤ (Nat.digitChar n).toNat := by decide
      refine .inr ⟨_, rfl, ?_, fun rest => escape_control hcontrol rest⟩
      simp only [List.forall_mem_cons]
      exact ⟨by decide, by decide, by decide, hdigit _ (by omega), hdigit _ (by omega), by simp⟩
    · rename_i hspace
      refine .inl ⟨rfl, ?_, ?_, not_lt.mp hspace⟩
      · rintro rfl
        exact hquote h
      · rintro rfl
        exact hbackslash h

/-- What `serde_json` escapes, it reads back. -/
theorem escapes_escaped : Escapes escaped := by
  refine escapes_by (fun c letter h => ?_) (by decide) (by decide)
  unfold short at h
  split at h
  all_goals cases h
  all_goals exact ⟨by decide, fun rest => rfl⟩

section

variable {write : Char → List Char}

/-- A text is read back up to the quote behind it, escapes and all. -/
theorem characters_escaped (h : Escapes write) (text rest : List Char) {fuel : ℕ}
    (hfuel : text.length < fuel) :
    characters fuel (text.flatMap write ++ '"' :: rest) = some (text, rest) := by
  induction text generalizing fuel with
  | nil =>
    obtain ⟨fuel, rfl⟩ := Nat.exists_eq_succ_of_ne_zero (Nat.pos_iff_ne_zero.mp hfuel)
    rfl
  | cons c text ih =>
    obtain ⟨fuel, rfl⟩ := Nat.exists_eq_succ_of_ne_zero (Nat.ne_zero_of_lt hfuel)
    have hrest := ih (Nat.lt_of_succ_lt_succ hfuel)
    rw [List.flatMap_cons, List.append_assoc]
    rcases h c with ⟨hself, hquote, hbackslash, hcontrol⟩ | ⟨letters, hletters, -, hescape⟩
    · rw [hself, List.singleton_append, characters, if_neg hquote, if_neg hbackslash,
        if_neg (not_lt.mpr hcontrol), hrest]
      rfl
    · rw [hletters, List.cons_append, characters, if_neg (by decide), if_pos rfl, hescape]
      show (characters fuel _).map _ = _
      rw [hrest]
      rfl

/-- Every character is written with at least one. -/
theorem length_le_flatMap (h : Escapes write) (text : List Char) :
    text.length ≤ (text.flatMap write).length := by
  induction text with
  | nil => exact le_rfl
  | cons c text ih =>
    have hone : 1 ≤ (write c).length := by
      rcases h c with ⟨hself, -⟩ | ⟨letters, hletters, -⟩
      · rw [hself]
        exact le_rfl
      · rw [hletters, List.length_cons]
        exact Nat.le_add_left 1 _
    rw [List.flatMap_cons, List.length_append, List.length_cons]
    omega

/-- A text that was escaped is read as it was. -/
theorem string_escaped (h : Escapes write) (text : String) (rest : List Char) :
    string (text.toList.flatMap write ++ '"' :: rest) = some (text, rest) := by
  have hlength := length_le_flatMap h text.toList
  rw [string, characters_escaped h]
  · exact congrArg (fun text => some (text, rest)) String.ofList_toList
  · rw [List.length_append, List.length_cons]
    omega

/-- No control character stands in a string. -/
theorem space_le_flatMap (h : Escapes write) {text : List Char} {c : Char} (hc : c ∈ text.flatMap write) :
    32 ≤ c.toNat := by
  obtain ⟨letter, -, hletter⟩ := List.mem_flatMap.mp hc
  rcases h letter with ⟨hself, -, -, hspace⟩ | ⟨letters, hletters, hspace, -⟩
  · rw [hself] at hletter
    rw [List.mem_singleton.mp hletter]
    exact hspace
  · rw [hletters] at hletter
    rcases List.mem_cons.mp hletter with rfl | hmem
    · decide
    · exact hspace c hmem

end

/-! ## Numbers -/

/-- What may follow a number. -/
def Ends (rest : List Char) : Prop :=
  ∀ c ∈ rest.head?, isDigit c = false ∧ c ≠ '.' ∧ c ≠ 'e' ∧ c ≠ 'E'

theorem ends_nil : Ends [] := by simp [Ends]

theorem ends_cons {c : Char} {rest : List Char} (h : c = ',' ∨ c = ']' ∨ c = '\x7d') : Ends (c :: rest) := by
  intro c' hc'
  rw [List.head?_cons, Option.mem_some_iff] at hc'
  subst hc'
  rcases h with rfl | rfl | rfl <;> decide

/-- A number is written in digits. -/
theorem isDigit_toDigits {n : ℕ} {c : Char} (h : c ∈ Nat.toDigits 10 n) : isDigit c = true := by
  have hdigit := Nat.isDigit_of_mem_toDigits (by decide) (by decide) h
  rw [Char.isDigit, Bool.and_eq_true, decide_eq_true_iff, decide_eq_true_iff] at hdigit
  rw [isDigit, Bool.and_eq_true, decide_eq_true_iff, decide_eq_true_iff]
  exact hdigit

/-- Digits are read up to what ends a number. -/
theorem someDigits_append {digits rest : List Char} (hne : digits ≠ [])
    (hdigits : ∀ c ∈ digits, isDigit c = true) (hrest : Ends rest) :
    someDigits (digits ++ rest) = some (digits, rest) := by
  have hnone : rest.takeWhile isDigit = [] ∧ rest.dropWhile isDigit = rest := by
    cases rest with
    | nil => exact ⟨rfl, rfl⟩
    | cons c rest =>
      have hc := (hrest c rfl).1
      exact ⟨List.takeWhile_cons_of_neg (by rw [hc]; exact Bool.false_ne_true),
        List.dropWhile_cons_of_neg (by rw [hc]; exact Bool.false_ne_true)⟩
  rw [someDigits, List.span_eq_takeWhile_dropWhile, List.takeWhile_append_of_pos hdigits,
    List.dropWhile_append_of_pos hdigits, hnone.1, hnone.2, List.append_nil]
  exact if_neg hne

/-- A number is read back from its digits. -/
theorem natural_toDigits (n : ℕ) : natural (Nat.toDigits 10 n) = n := by
  have hfold (digits : List Char) (start : ℕ) :
      digits.foldl (fun n c => n * 10 + (c.toNat - 48)) start = Nat.ofDigitChars 10 digits start := by
    rw [Nat.ofDigitChars_eq_foldl]
    exact congrArg (fun f => digits.foldl f start) (funext fun _ => funext fun _ => by rw [Nat.mul_comm]; rfl)
  rw [natural, hfold, Nat.ofDigitChars_toDigits (by decide) (by decide)]

/-- A number begins with a zero only if it is one. -/
theorem head_toDigits {n : ℕ} (h : 0 < n) : (Nat.toDigits 10 n).head? ≠ some '0' := by
  induction n using Nat.strong_induction_on with
  | _ n ih =>
    rw [Nat.toDigits_eq_if (by decide)]
    split
    · have hdigit : ∀ n < 10, 0 < n → Nat.digitChar n ≠ '0' := by decide
      rw [List.head?_cons]
      exact fun heq => hdigit n ‹_› h (Option.some.inj heq)
    · rw [List.head?_append_of_ne_nil _ Nat.toDigits_ne_nil]
      exact ih (n / 10) (by omega) (by omega)

/-- No number of several digits starts with a zero. -/
theorem no_leading_zero (n : ℕ) :
    ¬ (1 < (Nat.toDigits 10 n).length ∧ (Nat.toDigits 10 n).head? = some '0') := by
  rintro ⟨hlength, hhead⟩
  rcases Nat.eq_zero_or_pos n with rfl | hpos
  · exact absurd hlength (by decide)
  · exact head_toDigits hpos hhead

theorem fraction_ends {rest : List Char} (h : Ends rest) : fraction rest = some (false, rest) := by
  unfold fraction
  split
  · exact absurd rfl (h '.' rfl).2.1
  · rfl

theorem exponent_ends {rest : List Char} (h : Ends rest) : exponent rest = some (false, rest) := by
  cases rest with
  | nil => rfl
  | cons c rest =>
    unfold exponent
    exact if_neg (not_or.mpr (h c rfl).2.2)

variable {float : String → Option UInt64}

/-- A number without a sign is read back. -/
theorem number_posInt (value : UInt64) {rest : List Char} (h : Ends rest) :
    number float (Nat.toDigits 10 value.toNat ++ rest) = some (.posInt value, rest) := by
  have hhead : ¬ (Nat.toDigits 10 value.toNat ++ rest).head? = some '-' := by
    rw [List.head?_append_of_ne_nil _ Nat.toDigits_ne_nil]
    intro hminus
    exact absurd (isDigit_toDigits (List.mem_of_mem_head? hminus)) (by decide)
  unfold number
  simp only [hhead, if_false]
  rw [someDigits_append Nat.toDigits_ne_nil (fun _ => isDigit_toDigits) h, Option.bind_some,
    if_neg (no_leading_zero _), fraction_ends h, Option.bind_some, exponent_ends h, Option.bind_some]
  dsimp only
  rw [natural_toDigits, if_neg (by simpa using value.toNat_lt), UInt64.ofNat_toNat]

/-- A negative number is read back. -/
theorem number_negInt {value : Int64} (hneg : value.toInt < 0) {rest : List Char} (h : Ends rest) :
    number float ('-' :: (Nat.toDigits 10 value.toInt.natAbs ++ rest)) = some (.negInt value, rest) := by
  have hle := value.le_toInt
  unfold number
  simp only [List.head?_cons, if_true, List.tail_cons]
  rw [someDigits_append Nat.toDigits_ne_nil (fun _ => isDigit_toDigits) h, Option.bind_some,
    if_neg (no_leading_zero _), fraction_ends h, Option.bind_some, exponent_ends h, Option.bind_some]
  dsimp only
  rw [natural_toDigits, if_neg (by simp; omega), Int.ofNat_natAbs_of_nonpos hneg.le, Int.neg_neg,
    Int64.ofInt_toInt]

/-! ## Values -/

/-- A string, between its quotes. -/
def quoted (esc : Char → List Char) (text : String) : List Char := '"' :: (text.toList.flatMap esc ++ ['"'])

variable (esc : Char → List Char) (ryu : UInt64 → List Char)

mutual

/-- How a value is written. -/
def write : Value → List Char
  | .null => ['n', 'u', 'l', 'l']
  | .bool true => ['t', 'r', 'u', 'e']
  | .bool false => ['f', 'a', 'l', 's', 'e']
  | .number (.posInt value) => Nat.toDigits 10 value.toNat
  | .number (.negInt value) => '-' :: Nat.toDigits 10 value.toInt.natAbs
  | .number (.float bits) => ryu bits
  | .string text => quoted esc text
  | .array elements => '[' :: (writeElements elements ++ [']'])
  | .object members => '\x7b' :: (writeMembers members ++ ['\x7d'])

/-- The elements of a list, with commas between them. -/
def writeElements : List Value → List Char
  | [] => []
  | element :: elements =>
    write element ++ if elements.isEmpty then [] else ',' :: writeElements elements

/-- The members of an object, with commas between them. -/
def writeMembers : List (String × Value) → List Char
  | [] => []
  | (name, value) :: members =>
    quoted esc name ++ ':' :: (write value ++ if members.isEmpty then [] else ',' :: writeMembers members)

end

/-- `serde_json::to_string`. -/
def toText (value : Value) : String := String.ofList (write escaped ryu value)

mutual

/-- A value as it is read: the members of an object go by their names. -/
def normal : Value → Value
  | .array elements => .array (normalElements elements)
  | .object members => .object (gathered (normalMembers members))
  | value => value

/-- Every element of a list, as it is read back. -/
def normalElements : List Value → List Value
  | [] => []
  | element :: elements => normal element :: normalElements elements

/-- Every member of an object, as it is read back. -/
def normalMembers : List (String × Value) → List (String × Value)
  | [] => []
  | (name, value) :: members => (name, normal value) :: normalMembers members

end

mutual

/-- How many arrays and objects stand in each other. -/
def deep : Value → ℕ
  | .array elements => deepElements elements + 1
  | .object members => deepMembers members + 1
  | _ => 0

/-- How deep the deepest element of a list is. -/
def deepElements : List Value → ℕ
  | [] => 0
  | element :: elements => max (deep element) (deepElements elements)

/-- How deep the deepest member of an object is. -/
def deepMembers : List (String × Value) → ℕ
  | [] => 0
  | (_, value) :: members => max (deep value) (deepMembers members)

end

mutual

/-- A value with integers for numbers. -/
def Whole : Value → Prop
  | .number (.posInt _) => True
  | .number (.negInt value) => value.toInt < 0
  | .number (.float _) => False
  | .array elements => WholeElements elements
  | .object members => WholeMembers members
  | _ => True

/-- Every number in a list is a whole one. -/
def WholeElements : List Value → Prop
  | [] => True
  | element :: elements => Whole element ∧ WholeElements elements

/-- Every number in an object is a whole one. -/
def WholeMembers : List (String × Value) → Prop
  | [] => True
  | (_, value) :: members => Whole value ∧ WholeMembers members

end

variable {esc ryu} {depth : ℕ}

/-- A digit or a minus starts a number. -/
theorem value_number {c : Char} (hc : isDigit c = true ∨ c = '-') (rest : List Char) :
    value float depth (c :: rest) = (number float (c :: rest)).map fun (number, rest) =>
    (.number number, rest) := by
  have hblank : isBlank c = false := by
    by_contra h
    rw [Bool.not_eq_false, isBlank, Bool.or_eq_true, Bool.or_eq_true, Bool.or_eq_true, decide_eq_true_iff,
      decide_eq_true_iff, decide_eq_true_iff, decide_eq_true_iff] at h
    rcases h with ((rfl | rfl) | rfl) | rfl <;> revert hc <;> decide
  have hne {other : Char} {rest' : List Char} (hother : ¬ (isDigit other = true ∨ other = '-')) :
      c :: rest ≠ other :: rest' := fun heq => hother ((List.cons_eq_cons.mp heq).1 ▸ hc)
  rw [value.eq_def, skip_of_head hblank]
  split
  · exact absurd ‹_› (hne (by decide))
  · exact absurd ‹_› (hne (by decide))
  · exact absurd ‹_› (hne (by decide))
  · exact absurd ‹_› (hne (by decide))
  · exact absurd ‹_› (hne (by decide))
  · exact absurd ‹_› (hne (by decide))
  · rfl

theorem toDigits_cons (n : ℕ) : ∃ c rest, Nat.toDigits 10 n = c :: rest ∧ isDigit c = true := by
  obtain ⟨c, rest, hdigits⟩ := List.exists_cons_of_ne_nil (Nat.toDigits_ne_nil (n := n) (b := 10))
  exact ⟨c, rest, hdigits, isDigit_toDigits (hdigits ▸ List.mem_cons_self)⟩

/-- A text is read back from its quotes. -/
theorem value_quoted (hesc : Escapes esc) (text : String) (rest : List Char) :
    value float depth (quoted esc text ++ rest) = some (.string text, rest) := by
  rw [quoted, List.cons_append, List.append_assoc, List.singleton_append, value.eq_def, skip_of_head rfl]
  show (string _).map _ = _
  rw [string_escaped hesc]
  rfl

/-- A member is read back up to its colon, and its value behind it. -/
theorem members_quoted (hesc : Escapes esc) {α : Type} {read : List Char → Option (α × List Char)} {fuel : ℕ}
    (name : String)
    (chars : List Char) :
    members read (fuel + 1) (quoted esc name ++ ':' :: chars) =
      (read chars).bind fun (value, rest) =>
        match skip rest with
        | ',' :: rest =>
          (members read fuel rest).map fun (members, rest) => ((name, value) :: members, rest)
        | '\x7d' :: rest => some ([(name, value)], rest)
        | _ => none := by
  rw [quoted, List.cons_append, List.append_assoc, List.singleton_append, members, skip_of_head rfl]
  show (string _).bind _ = _
  rw [string_escaped hesc]
  rfl

/-- What a value begins with. -/
theorem write_cons (esc : Char → List Char) (ryu : UInt64 → List Char) {v : Value} (h : Whole v) :
    ∃ c rest, write esc ryu v = c :: rest ∧ isBlank c = false ∧ c ≠ ']' ∧ c ≠ '\x7d' := by
  have hdigit {c : Char} (hc : isDigit c = true) : isBlank c = false ∧ c ≠ ']' ∧ c ≠ '\x7d' := by
    refine ⟨?_, ?_, ?_⟩
    · by_contra hblank
      rw [Bool.not_eq_false, isBlank, Bool.or_eq_true, Bool.or_eq_true, Bool.or_eq_true, decide_eq_true_iff,
        decide_eq_true_iff, decide_eq_true_iff, decide_eq_true_iff] at hblank
      rcases hblank with ((rfl | rfl) | rfl) | rfl <;> revert hc <;> decide
    · rintro rfl
      revert hc
      decide
    · rintro rfl
      revert hc
      decide
  match v with
  | .null => exact ⟨_, _, rfl, by decide⟩
  | .bool true => exact ⟨_, _, rfl, by decide⟩
  | .bool false => exact ⟨_, _, rfl, by decide⟩
  | .number (.posInt n) =>
    obtain ⟨c, rest, hcons, hc⟩ := toDigits_cons n.toNat
    exact ⟨c, rest, hcons, hdigit hc⟩
  | .number (.negInt n) => exact ⟨_, _, rfl, by decide⟩
  | .number (.float bits) => exact absurd h (by simp [Whole])
  | .string text => exact ⟨_, _, rfl, by decide⟩
  | .array elements => exact ⟨_, _, rfl, by decide⟩
  | .object members => exact ⟨_, _, rfl, by decide⟩

theorem writeElements_cons (element next : Value) (others : List Value) :
    writeElements esc ryu (element :: next :: others) =
      write esc ryu element ++ ',' :: writeElements esc ryu (next :: others) := by
  rw [writeElements]
  rfl

theorem writeMembers_cons (name : String) (v : Value) (next : String × Value)
    (others : List (String × Value)) :
    writeMembers esc ryu ((name, v) :: next :: others) =
      quoted esc name ++ ':' :: (write esc ryu v ++ ',' :: writeMembers esc ryu (next :: others)) := by
  rw [writeMembers]
  rfl

/-- An element takes at least one character. -/
theorem length_writeElements (esc : Char → List Char) (ryu : UInt64 → List Char) {found : List Value}
    (h : WholeElements found) :
    found.length ≤ (writeElements esc ryu found).length := by
  induction found with
  | nil => exact le_rfl
  | cons element elements ih =>
    obtain ⟨c, rest, hcons, -⟩ := write_cons esc ryu h.1
    have hrest := ih h.2
    rw [writeElements, hcons]
    split
    · rename_i hempty
      rw [List.isEmpty_iff.mp hempty, List.append_nil, List.length_singleton, List.length_cons]
      omega
    · rw [List.length_append, List.length_cons, List.length_cons, List.length_cons]
      omega

/-- A member takes at least one character. -/
theorem length_writeMembers (esc : Char → List Char) (ryu : UInt64 → List Char)
    (found : List (String × Value)) :
    found.length ≤ (writeMembers esc ryu found).length := by
  induction found with
  | nil => exact le_rfl
  | cons member members ih =>
    obtain ⟨name, v⟩ := member
    rw [writeMembers, quoted]
    split
    · rename_i hempty
      rw [List.isEmpty_iff.mp hempty]
      simp only [List.length_append, List.length_cons, List.length_nil]
      omega
    · simp only [List.length_append, List.length_cons]
      omega

mutual

/-- What was written is read back, whatever follows it. -/
theorem value_write (hesc : Escapes esc) (v : Value) (hwhole : Whole v) {depth : ℕ} (hdepth : deep v ≤ depth)
    {rest : List Char}
    (hrest : Ends rest) : value float depth (write esc ryu v ++ rest) = some (normal v, rest) := by
  match v with
  | .null =>
    rw [value.eq_def]
    rfl
  | .bool true =>
    rw [value.eq_def]
    rfl
  | .bool false =>
    rw [value.eq_def]
    rfl
  | .number (.posInt n) =>
    obtain ⟨c, digits, hcons, hc⟩ := toDigits_cons n.toNat
    rw [write, hcons, List.cons_append, value_number (.inl hc), ← List.cons_append, ← hcons,
      number_posInt n hrest]
    rfl
  | .number (.negInt n) =>
    rw [write, List.cons_append, value_number (.inr rfl), number_negInt hwhole hrest]
    rfl
  | .number (.float bits) => exact hwhole.elim
  | .string text => exact value_quoted hesc text rest
  | .array elements =>
    rw [deep] at hdepth
    obtain ⟨depth, rfl⟩ := Nat.exists_eq_add_one.mpr (Nat.zero_lt_of_lt hdepth)
    rw [write, List.cons_append, List.append_assoc, List.singleton_append]
    cases elements with
    | nil => exact value_no_elements rest
    | cons element elements =>
      obtain ⟨c, more, hcons, hblank, hbracket, -⟩ := write_cons esc ryu hwhole.1
      have hlength := length_writeElements esc ryu hwhole
      have hread := elements_write hesc (element :: elements) (List.cons_ne_nil _ _) hwhole
        (Nat.le_of_succ_le_succ hdepth) rest
        (writeElements esc ryu (element :: elements) ++ ']' :: rest).length
        (hlength.trans (by rw [List.length_append]; exact Nat.le_add_right _ _))
      rw [value_elements, hread]
      · rfl
      · intro other
        rw [writeElements, hcons, List.cons_append, List.cons_append, skip_of_head hblank]
        exact fun heq => hbracket (List.cons_eq_cons.mp heq).1
  | .object members =>
    rw [deep] at hdepth
    obtain ⟨depth, rfl⟩ := Nat.exists_eq_add_one.mpr (Nat.zero_lt_of_lt hdepth)
    rw [write, List.cons_append, List.append_assoc, List.singleton_append]
    cases members with
    | nil =>
      rw [value.eq_def]
      rfl
    | cons member members =>
      have hlength := length_writeMembers esc ryu (member :: members)
      have hread := members_write hesc (member :: members) (List.cons_ne_nil _ _) hwhole
        (Nat.le_of_succ_le_succ hdepth) rest
        (writeMembers esc ryu (member :: members) ++ '\x7d' :: rest).length
        (hlength.trans (by rw [List.length_append]; exact Nat.le_add_right _ _))
      obtain ⟨name, v⟩ := member
      rw [writeMembers, quoted, List.cons_append, List.cons_append] at hread ⊢
      rw [value_members]
      rw [List.length_cons] at hread
      rw [hread]
      rfl

/-- A list is read back element by element. -/
theorem elements_write (hesc : Escapes esc) (found : List Value) (hne : found ≠ [])
    (hwhole : WholeElements found) {depth : ℕ}
    (hdepth : deepElements found ≤ depth) (rest : List Char) (fuel : ℕ)
    (hfuel : found.length ≤ fuel) :
    elements (value float depth) fuel (writeElements esc ryu found ++ ']' :: rest) =
      some (normalElements found, rest) := by
  match found with
  | [] => exact absurd rfl hne
  | element :: others =>
    obtain ⟨fuel, rfl⟩ := Nat.exists_eq_succ_of_ne_zero (Nat.ne_zero_of_lt hfuel)
    cases others with
    | nil =>
      rw [writeElements, List.append_assoc]
      exact elements_last (value_write hesc element hwhole.1 ((le_max_left _ _).trans hdepth)
        (ends_cons (.inr (.inl rfl))))
    | cons next others =>
      rw [writeElements_cons, List.append_assoc, List.cons_append,
        elements_cons (value_write hesc element hwhole.1 ((le_max_left _ _).trans hdepth)
          (ends_cons (.inl rfl))),
        elements_write hesc (next :: others) (List.cons_ne_nil _ _) hwhole.2 ((le_max_right _ _).trans hdepth)
          rest fuel
          (Nat.le_of_succ_le_succ hfuel)]
      rfl

/-- An object is read back member by member. -/
theorem members_write (hesc : Escapes esc) (found : List (String × Value)) (hne : found ≠ [])
    (hwhole : WholeMembers found) {depth : ℕ}
    (hdepth : deepMembers found ≤ depth) (rest : List Char) (fuel : ℕ)
    (hfuel : found.length ≤ fuel) :
    members (value float depth) fuel (writeMembers esc ryu found ++ '\x7d' :: rest) =
      some (normalMembers found, rest) := by
  match found with
  | [] => exact absurd rfl hne
  | (name, v) :: others =>
    obtain ⟨fuel, rfl⟩ := Nat.exists_eq_succ_of_ne_zero (Nat.ne_zero_of_lt hfuel)
    cases others with
    | nil =>
      rw [writeMembers, List.append_assoc, List.cons_append, List.append_assoc, members_quoted hesc,
        value_write hesc v hwhole.1 ((le_max_left _ _).trans hdepth) (by exact ends_cons (.inr (.inr rfl)))]
      rfl
    | cons next others =>
      rw [writeMembers_cons, List.append_assoc, List.cons_append, List.append_assoc, List.cons_append,
        members_quoted hesc,
        value_write hesc v hwhole.1 ((le_max_left _ _).trans hdepth) (ends_cons (.inl rfl)), Option.bind_some]
      show (members _ fuel _).map _ = _
      rw [members_write hesc (next :: others) (List.cons_ne_nil _ _) hwhole.2
        ((le_max_right _ _).trans hdepth) rest fuel
          (Nat.le_of_succ_le_succ hfuel)]
      rfl

end

/-- A document is read back as it was written. -/
theorem fromStr_write (hesc : Escapes esc) {v : Value} (hwhole : Whole v) (hdepth : deep v ≤ deepest) :
    fromStr float (String.ofList (write esc ryu v)) = some (normal v) := by
  apply fromStr_eq_some
  rw [String.toList_ofList, ← List.append_nil (write esc ryu v)]
  exact value_write hesc v hwhole hdepth ends_nil

/-- What `serde_json` writes it reads back. -/
theorem fromStr_toText {v : Value} (hwhole : Whole v) (hdepth : deep v ≤ deepest) :
    fromStr float (toText ryu v) = some (normal v) := fromStr_write escapes_escaped hwhole hdepth

/-! ## No line breaks -/

theorem space_le_toDigits {n : ℕ} {c : Char} (h : c ∈ Nat.toDigits 10 n) : 32 ≤ c.toNat := by
  have hdigit := isDigit_toDigits h
  rw [isDigit, Bool.and_eq_true, decide_eq_true_iff] at hdigit
  have : 48 ≤ c.toNat := Char.le_def.mp hdigit.1
  omega

/-- No control character stands in a text that is written. -/
theorem space_le_quoted (hesc : Escapes esc) {text : String} {c : Char} (h : c ∈ quoted esc text) :
    32 ≤ c.toNat := by
  rw [quoted, List.mem_cons, List.mem_append, List.mem_singleton] at h
  rcases h with rfl | hmem | rfl
  · decide
  · exact space_le_flatMap hesc hmem
  · decide

mutual

/-- Nothing that is written has a control character in it. -/
theorem space_le_write (hesc : Escapes esc) (v : Value) (h : Whole v ∨ ∀ bits, ∀ c ∈ ryu bits, 32 ≤ c.toNat) :
    ∀ c ∈ write esc ryu v, 32 ≤ c.toNat := by
  match v with
  | .null => simp [write]
  | .bool true => simp [write]
  | .bool false => simp [write]
  | .number (.posInt n) => exact fun c hc => space_le_toDigits hc
  | .number (.negInt n) =>
    intro c hc
    rcases List.mem_cons.mp hc with rfl | hmem
    · decide
    · exact space_le_toDigits hmem
  | .number (.float bits) => exact (h.resolve_left fun hwhole => hwhole) bits
  | .string text => exact fun c hc => space_le_quoted hesc hc
  | .array elements =>
    intro c hc
    rw [write, List.mem_cons, List.mem_append, List.mem_singleton] at hc
    rcases hc with rfl | hmem | rfl
    · decide
    · exact space_le_elements hesc elements h c hmem
    · decide
  | .object members =>
    intro c hc
    rw [write, List.mem_cons, List.mem_append, List.mem_singleton] at hc
    rcases hc with rfl | hmem | rfl
    · decide
    · exact space_le_members hesc members h c hmem
    · decide

/-- No control character stands in a list that is written. -/
theorem space_le_elements (hesc : Escapes esc) (found : List Value)
    (h : WholeElements found ∨ ∀ bits, ∀ c ∈ ryu bits, 32 ≤ c.toNat) :
    ∀ c ∈ writeElements esc ryu found, 32 ≤ c.toNat := by
  match found with
  | [] => simp [writeElements]
  | element :: others =>
    intro c hc
    rw [writeElements, List.mem_append] at hc
    rcases hc with hmem | hmem
    · exact space_le_write hesc element (h.imp_left And.left) c hmem
    · split at hmem
      · cases hmem
      · rcases List.mem_cons.mp hmem with rfl | hmem
        · decide
        · exact space_le_elements hesc others (h.imp_left And.right) c hmem

/-- No control character stands in an object that is written. -/
theorem space_le_members (hesc : Escapes esc) (found : List (String × Value))
    (h : WholeMembers found ∨ ∀ bits, ∀ c ∈ ryu bits, 32 ≤ c.toNat) :
    ∀ c ∈ writeMembers esc ryu found, 32 ≤ c.toNat := by
  match found with
  | [] => simp [writeMembers]
  | (name, v) :: others =>
    intro c hc
    rw [writeMembers, List.mem_append, List.mem_cons, List.mem_append] at hc
    rcases hc with hmem | rfl | hmem | hmem
    · exact space_le_quoted hesc hmem
    · decide
    · exact space_le_write hesc v (h.imp_left And.left) c hmem
    · split at hmem
      · cases hmem
      · rcases List.mem_cons.mp hmem with rfl | hmem
        · decide
        · exact space_le_members hesc others (h.imp_left And.right) c hmem

end

/-! ## What was cut off -/

variable {chars rest : List Char}

/-- What stands behind something that is not blank is not skipped. -/
theorem skip_append (h : skip chars ≠ []) (more : List Char) : skip (chars ++ more) = skip chars ++ more := by
  rw [skip, List.dropWhile_append, if_neg (by simpa [skip] using h)]
  rfl

theorem skip_skip (chars : List Char) : skip (skip chars) = skip chars := List.dropWhile_idempotent _ chars

/-- Four digits are read whatever stands behind them. -/
theorem hex4_append {unit : ℕ} (h : hex4 chars = some (unit, rest)) (more : List Char) :
    hex4 (chars ++ more) = some (unit, rest ++ more) := by
  unfold hex4 at h
  split at h
  · rename_i a b c d tail
    obtain ⟨va, ha, h⟩ := Option.bind_eq_some_iff.mp h
    obtain ⟨vb, hb, h⟩ := Option.bind_eq_some_iff.mp h
    obtain ⟨vc, hc, h⟩ := Option.bind_eq_some_iff.mp h
    obtain ⟨vd, hd, h⟩ := Option.map_eq_some_iff.mp h
    obtain ⟨rfl, rfl⟩ := Prod.mk.inj h
    simp only [List.cons_append, hex4, ha, hb, hc, hd, Option.bind_some, Option.map_some]
  · cases h

theorem unicode_append {unit : ℕ} {c : Char} (h : unicode unit chars = some (c, rest)) (more : List Char) :
    unicode unit (chars ++ more) = some (c, rest ++ more) := by
  unfold unicode at h ⊢
  split at h
  · rename_i hunit
    obtain ⟨rfl, rfl⟩ := Prod.mk.inj (Option.some.inj h)
    exact if_pos hunit
  · rename_i hunit
    rw [if_neg hunit]
    split at h
    · cases h
    · rename_i hlow
      rw [if_neg hlow]
      split at h
      · rename_i tail
        obtain ⟨⟨low, left⟩, hhex, h⟩ := Option.bind_eq_some_iff.mp h
        simp only [List.cons_append, hex4_append hhex, Option.bind_some]
        dsimp only at h
        split at h
        · rename_i hpair
          obtain ⟨rfl, rfl⟩ := Prod.mk.inj (Option.some.inj h)
          exact if_pos hpair
        · cases h
      · cases h

theorem escape_append {c : Char} (h : escape chars = some (c, rest)) (more : List Char) :
    escape (chars ++ more) = some (c, rest ++ more) := by
  unfold escape at h
  split at h
  · obtain ⟨⟨unit, left⟩, hhex, h⟩ := Option.bind_eq_some_iff.mp h
    simp only [List.cons_append, escape, hex4_append hhex, Option.bind_some]
    exact unicode_append h more
  · obtain ⟨rfl, rfl⟩ := Prod.mk.inj (Option.some.inj h)
    rfl
  · obtain ⟨rfl, rfl⟩ := Prod.mk.inj (Option.some.inj h)
    rfl
  · obtain ⟨rfl, rfl⟩ := Prod.mk.inj (Option.some.inj h)
    rfl
  · obtain ⟨rfl, rfl⟩ := Prod.mk.inj (Option.some.inj h)
    rfl
  · obtain ⟨rfl, rfl⟩ := Prod.mk.inj (Option.some.inj h)
    rfl
  · obtain ⟨rfl, rfl⟩ := Prod.mk.inj (Option.some.inj h)
    rfl
  · obtain ⟨rfl, rfl⟩ := Prod.mk.inj (Option.some.inj h)
    rfl
  · obtain ⟨rfl, rfl⟩ := Prod.mk.inj (Option.some.inj h)
    rfl
  · cases h

/-- A string that has ended is the same whatever follows. -/
theorem characters_more {fuel fuel' : ℕ} {text : List Char} (h : characters fuel chars = some (text, rest))
    (hfuel : fuel ≤ fuel') (more : List Char) :
    characters fuel' (chars ++ more) = some (text, rest ++ more) := by
  induction fuel generalizing fuel' chars text with
  | zero => cases h
  | succ fuel ih =>
    obtain ⟨fuel', rfl⟩ := Nat.exists_eq_succ_of_ne_zero (Nat.ne_zero_of_lt hfuel)
    cases chars with
    | nil => cases h
    | cons c tail =>
      rw [List.cons_append, characters]
      rw [characters] at h
      split at h
      · rename_i hquote
        obtain ⟨rfl, rfl⟩ := Prod.mk.inj (Option.some.inj h)
        exact if_pos hquote
      · rename_i hquote
        rw [if_neg hquote]
        split at h
        · rename_i hbackslash
          obtain ⟨⟨letter, left⟩, hescape, h⟩ := Option.bind_eq_some_iff.mp h
          obtain ⟨⟨others, end_⟩, hothers, h⟩ := Option.map_eq_some_iff.mp h
          obtain ⟨rfl, rfl⟩ := Prod.mk.inj h
          rw [if_pos hbackslash, escape_append hescape, Option.bind_some]
          dsimp only
          rw [ih hothers (Nat.le_of_succ_le_succ hfuel)]
          rfl
        · rename_i hbackslash
          rw [if_neg hbackslash]
          split at h
          · cases h
          · rename_i hcontrol
            obtain ⟨⟨others, end_⟩, hothers, h⟩ := Option.map_eq_some_iff.mp h
            obtain ⟨rfl, rfl⟩ := Prod.mk.inj h
            rw [if_neg hcontrol, ih hothers (Nat.le_of_succ_le_succ hfuel)]
            rfl

/-- A text is read whatever stands behind it. -/
theorem string_more {text : String} (h : string chars = some (text, rest)) (more : List Char) :
    string (chars ++ more) = some (text, rest ++ more) := by
  obtain ⟨⟨letters, left⟩, hletters, h⟩ := Option.map_eq_some_iff.mp h
  obtain ⟨rfl, rfl⟩ := Prod.mk.inj h
  rw [string, characters_more hletters (by rw [List.length_append]; omega)]
  rfl

/-- Digits that end before the text does are read whatever stands behind it. -/
theorem someDigits_more {digits : List Char} (h : someDigits chars = some (digits, rest)) (hrest : rest ≠ [])
    (more : List Char) : someDigits (chars ++ more) = some (digits, rest ++ more) := by
  rw [someDigits, List.span_eq_takeWhile_dropWhile] at h ⊢
  dsimp only at h ⊢
  split at h
  · cases h
  · rename_i hne
    obtain ⟨rfl, rfl⟩ := Prod.mk.inj (Option.some.inj h)
    have hsplit := List.takeWhile_append_dropWhile (p := isDigit) (l := chars)
    obtain ⟨c, left, hleft⟩ := List.exists_cons_of_ne_nil hrest
    have hc : isDigit c = false := by
      have := List.head?_dropWhile_not isDigit chars
      rw [hleft] at this
      simpa using this
    have hdigits : ∀ digit ∈ chars.takeWhile isDigit, isDigit digit = true :=
      fun digit hdigit => List.mem_takeWhile_imp hdigit
    rw [hleft] at hsplit ⊢
    rw [← hsplit, List.append_assoc, List.takeWhile_append_of_pos hdigits,
      List.dropWhile_append_of_pos hdigits,
      List.cons_append, List.takeWhile_cons_of_neg (by rw [hc]; exact Bool.false_ne_true),
      List.dropWhile_cons_of_neg (by rw [hc]; exact Bool.false_ne_true), List.append_nil]
    rw [hsplit]
    exact if_neg hne

/-- What can still follow in a number that has ended has been looked at. -/
theorem fraction_more {there : Bool} (h : fraction chars = some (there, rest)) (hrest : rest ≠ [])
    (more : List Char) : fraction (chars ++ more) = some (there, rest ++ more) := by
  unfold fraction at h
  split at h
  · obtain ⟨⟨digits, left⟩, hdigits, h⟩ := Option.map_eq_some_iff.mp h
    obtain ⟨rfl, rfl⟩ := Prod.mk.inj h
    rw [List.cons_append, fraction, someDigits_more hdigits hrest]
    rfl
  · rename_i hpoint
    obtain ⟨rfl, rfl⟩ := Prod.mk.inj (Option.some.inj h)
    obtain ⟨c, left, rfl⟩ := List.exists_cons_of_ne_nil hrest
    unfold fraction
    split
    · rename_i heq
      exact absurd (by rw [(List.cons_eq_cons.mp heq).1]) (hpoint left)
    · rfl

theorem exponent_more {there : Bool} (h : exponent chars = some (there, rest)) (hrest : rest ≠ [])
    (more : List Char) : exponent (chars ++ more) = some (there, rest ++ more) := by
  unfold exponent at h
  split at h
  · rename_i c tail
    unfold exponent
    rw [List.cons_append]
    dsimp only
    split at h
    · rename_i hpower
      obtain ⟨⟨digits, left⟩, hdigits, h⟩ := Option.map_eq_some_iff.mp h
      obtain ⟨rfl, rfl⟩ := Prod.mk.inj h
      rw [if_pos hpower]
      split at hdigits
      · exact congrArg (Option.map fun read => (true, read.2)) (someDigits_more hdigits hrest more)
      · exact congrArg (Option.map fun read => (true, read.2)) (someDigits_more hdigits hrest more)
      · rename_i hplus hminus
        have htail : tail ≠ [] := by
          rintro rfl
          cases hdigits
        obtain ⟨first, others, rfl⟩ := List.exists_cons_of_ne_nil htail
        have hmore := someDigits_more hdigits hrest more
        rw [List.cons_append] at hmore ⊢
        split
        · rename_i heq
          exact absurd (by rw [(List.cons_eq_cons.mp heq).1]) (hplus others)
        · rename_i heq
          exact absurd (by rw [(List.cons_eq_cons.mp heq).1]) (hminus others)
        · rw [hmore]
          rfl
    · rename_i hpower
      obtain ⟨rfl, rfl⟩ := Prod.mk.inj (Option.some.inj h)
      exact if_neg hpower
  · obtain ⟨-, rfl⟩ := Prod.mk.inj (Option.some.inj h)
    exact absurd rfl hrest

/-- A number that something follows has ended. -/
theorem number_more {n : Number} (h : number float chars = some (n, rest)) (hrest : rest ≠ [])
    (more : List Char) : number float (chars ++ more) = some (n, rest ++ more) := by
  have hlength := length_number h
  have hchars : chars ≠ [] := List.ne_nil_of_length_pos (Nat.zero_lt_of_lt hlength)
  have htext : (chars ++ more).take ((chars ++ more).length - (rest ++ more).length) =
      chars.take (chars.length - rest.length) := by
    rw [List.length_append, List.length_append, Nat.add_sub_add_right,
      List.take_append_of_le_length (Nat.sub_le _ _)]
  unfold number at h ⊢
  simp only [List.head?_append_of_ne_nil _ hchars, List.tail_append_of_ne_nil hchars]
  by_cases hnegative : chars.head? = some '-'
  all_goals
    simp only [hnegative, if_true, if_false] at h ⊢
    obtain ⟨⟨whole, left⟩, hwhole, h⟩ := Option.bind_eq_some_iff.mp h
    dsimp only at h
    split at h
    · cases h
    rename_i hzero
    obtain ⟨⟨decimals, left'⟩, hdecimals, h⟩ := Option.bind_eq_some_iff.mp h
    obtain ⟨⟨power, left''⟩, hpower, h⟩ := Option.bind_eq_some_iff.mp h
    dsimp only at hpower h
    have hlast : left'' = rest := by
      split at h
      · obtain ⟨bits, -, heq⟩ := Option.map_eq_some_iff.mp h
        exact (Prod.mk.inj heq).2
      · exact (Prod.mk.inj (Option.some.inj h)).2
    subst hlast
    have hleft' : left' ≠ [] := by
      rintro rfl
      exact hrest (Prod.mk.inj (Option.some.inj hpower)).2.symm
    have hleft : left ≠ [] := by
      rintro rfl
      exact hleft' (Prod.mk.inj (Option.some.inj hdecimals)).2.symm
    rw [someDigits_more hwhole hleft, Option.bind_some]
    dsimp only
    rw [if_neg hzero, fraction_more hdecimals hleft', Option.bind_some, exponent_more hpower hrest,
      Option.bind_some]
    dsimp only
    rw [htext]
    split at h
    · rename_i hfloat
      obtain ⟨bits, hbits, heq⟩ := Option.map_eq_some_iff.mp h
      rw [if_pos hfloat, hbits, ← (Prod.mk.inj heq).1]
      rfl
    · rename_i hfloat
      rw [if_neg hfloat, ← (Prod.mk.inj (Option.some.inj h)).1]

/-- A reader that has come to an end before the end of the text, and would have whatever followed it. -/
def Settles {α : Type} (read : List Char → Option (α × List Char)) : Prop :=
  ∀ chars found rest, read chars = some (found, rest) → rest ≠ [] →
    ∀ more, read (chars ++ more) = some (found, rest ++ more)

theorem skip_ne_nil {c : Char} {left : List Char} (h : skip chars = c :: left) : skip chars ≠ [] := by
  rw [h]
  exact List.cons_ne_nil _ _

theorem ne_nil_of_skip {c : Char} {left : List Char} (h : skip chars = c :: left) : chars ≠ [] := by
  rintro rfl
  cases h

/-- A list is read whatever stands behind it. -/
theorem elements_more {α : Type} {read : List Char → Option (α × List Char)} (hread : Settles read)
    {fuel fuel' : ℕ} {found : List α} (h : elements read fuel chars = some (found, rest))
    (hfuel : fuel ≤ fuel')
    (more : List Char) : elements read fuel' (chars ++ more) = some (found, rest ++ more) := by
  induction fuel generalizing fuel' chars found with
  | zero => cases h
  | succ fuel ih =>
    obtain ⟨fuel', rfl⟩ := Nat.exists_eq_succ_of_ne_zero (Nat.ne_zero_of_lt hfuel)
    rw [elements] at h ⊢
    obtain ⟨⟨element, left⟩, helement, h⟩ := Option.bind_eq_some_iff.mp h
    dsimp only at h
    split at h
    · rename_i behind hskip
      obtain ⟨⟨others, end_⟩, hothers, h⟩ := Option.map_eq_some_iff.mp h
      obtain ⟨rfl, rfl⟩ := Prod.mk.inj h
      rw [hread _ _ _ helement (ne_nil_of_skip hskip), Option.bind_some]
      dsimp only
      rw [skip_append (skip_ne_nil hskip), hskip, List.cons_append]
      show (elements read fuel' _).map _ = _
      rw [ih hothers (Nat.le_of_succ_le_succ hfuel)]
      rfl
    · rename_i behind hskip
      obtain ⟨rfl, rfl⟩ := Prod.mk.inj (Option.some.inj h)
      rw [hread _ _ _ helement (ne_nil_of_skip hskip), Option.bind_some]
      dsimp only
      rw [skip_append (skip_ne_nil hskip), hskip]
      rfl
    · cases h

/-- An object is read whatever stands behind it. -/
theorem members_more {α : Type} {read : List Char → Option (α × List Char)} (hread : Settles read)
    {fuel fuel' : ℕ} {found : List (String × α)} (h : members read fuel chars = some (found, rest))
    (hfuel : fuel ≤ fuel') (more : List Char) :
    members read fuel' (chars ++ more) = some (found, rest ++ more) := by
  induction fuel generalizing fuel' chars found with
  | zero => cases h
  | succ fuel ih =>
    obtain ⟨fuel', rfl⟩ := Nat.exists_eq_succ_of_ne_zero (Nat.ne_zero_of_lt hfuel)
    rw [members] at h ⊢
    split at h
    · rename_i behind hskip
      obtain ⟨⟨name, named⟩, hname, h⟩ := Option.bind_eq_some_iff.mp h
      rw [skip_append (skip_ne_nil hskip), hskip, List.cons_append]
      show (string _).bind _ = _
      rw [string_more hname, Option.bind_some]
      dsimp only at h ⊢
      split at h
      · rename_i colon hcolon
        obtain ⟨⟨value, left⟩, hvalue, h⟩ := Option.bind_eq_some_iff.mp h
        rw [skip_append (skip_ne_nil hcolon), hcolon, List.cons_append]
        dsimp only at h
        show (read _).bind _ = _
        split at h
        · rename_i comma hcomma
          obtain ⟨⟨others, end_⟩, hothers, h⟩ := Option.map_eq_some_iff.mp h
          obtain ⟨rfl, rfl⟩ := Prod.mk.inj h
          rw [hread _ _ _ hvalue (ne_nil_of_skip hcomma), Option.bind_some]
          dsimp only
          rw [skip_append (skip_ne_nil hcomma), hcomma, List.cons_append]
          show (members read fuel' _).map _ = _
          rw [ih hothers (Nat.le_of_succ_le_succ hfuel)]
          rfl
        · rename_i brace hbrace
          obtain ⟨rfl, rfl⟩ := Prod.mk.inj (Option.some.inj h)
          rw [hread _ _ _ hvalue (ne_nil_of_skip hbrace), Option.bind_some]
          dsimp only
          rw [skip_append (skip_ne_nil hbrace), hbrace]
          rfl
        · cases h
      · cases h
    · cases h

/-- A number begins with a digit or a sign. -/
theorem number_head {n : Number} (h : number float chars = some (n, rest)) :
    ∃ c left, chars = c :: left ∧ (isDigit c = true ∨ c = '-') := by
  unfold number at h
  cases chars with
  | nil => cases h
  | cons c left =>
    refine ⟨c, left, rfl, ?_⟩
    by_cases hminus : c = '-'
    · exact .inr hminus
    · left
      simp only [List.head?_cons, Option.some.injEq, hminus, if_false] at h
      obtain ⟨⟨whole, behind⟩, hwhole, -⟩ := Option.bind_eq_some_iff.mp h
      rw [someDigits, List.span_eq_takeWhile_dropWhile] at hwhole
      by_contra hdigit
      rw [List.takeWhile_cons_of_neg hdigit] at hwhole
      cases hwhole

theorem value_skip (chars : List Char) : value float depth (skip chars) = value float depth chars := by
  rw [value.eq_def, skip_skip, ← value.eq_def]

/-- Nothing is read from blanks. -/
theorem value_blank (h : skip chars = []) : value float depth chars = none := by
  rw [value.eq_def, h]
  rfl

/-- A bracket starts a list. -/
theorem value_array (chars : List Char) :
    value float (depth + 1) ('[' :: chars) =
      if (skip chars).head? = some ']' then some (.array [], (skip chars).tail)
      else (elements (value float depth) chars.length chars).map fun (found, rest) =>
      (.array found, rest) := by
  rw [value.eq_def, skip_of_head rfl]
  -- The first character settles the branch; what follows it is still looked at.
  conv_lhs => whnf
  split
  · rename_i rest heq
    rw [heq]
    rfl
  · rename_i hne
    rw [if_neg fun hhead => ?_]
    obtain ⟨rest, heq⟩ := List.head?_eq_some_iff.mp hhead
    exact hne rest heq

/-- A brace starts an object. -/
theorem value_object (chars : List Char) :
    value float (depth + 1) ('\x7b' :: chars) =
      if (skip chars).head? = some '\x7d' then some (.object [], (skip chars).tail)
      else (members (value float depth) chars.length chars).map
        fun (found, rest) => (.object (gathered found), rest) := by
  rw [value.eq_def, skip_of_head rfl]
  conv_lhs => whnf
  split
  · rename_i rest heq
    rw [heq]
    rfl
  · rename_i hne
    rw [if_neg fun hhead => ?_]
    obtain ⟨rest, heq⟩ := List.head?_eq_some_iff.mp hhead
    exact hne rest heq

theorem elements_ne_blank {α : Type} {read : List Char → Option (α × List Char)}
    (hread : ∀ chars, skip chars = [] → read chars = none) {fuel : ℕ} {found : List α × List Char}
    (h : elements read fuel chars = some found) : skip chars ≠ [] := by
  intro hempty
  cases fuel with
  | zero => cases h
  | succ fuel =>
    rw [elements, hread chars hempty] at h
    cases h

theorem members_ne_blank {α : Type} {read : List Char → Option (α × List Char)} {fuel : ℕ}
    {found : List (String × α) × List Char} (h : members read fuel chars = some found) : skip chars ≠ [] := by
  intro hempty
  cases fuel with
  | zero => cases h
  | succ fuel =>
    rw [members, hempty] at h
    cases h

/-- A value that has ended is the same whatever follows, given that the values in it are. Only a number has
not ended where the text does. -/
theorem value_more_of {depth : ℕ} (hread : ∀ inner, depth = inner + 1 → Settles (value float inner))
    {v : Value}
    (h : value float depth chars = some (v, rest)) (hends : rest ≠ [] ∨ ∀ n, v ≠ .number n)
    (more : List Char) :
    value float depth (chars ++ more) = some (v, rest ++ more) := by
  have hskip : skip chars ≠ [] := by
    intro hempty
    rw [value_blank hempty] at h
    cases h
  have hwhole := h
  rw [← value_skip] at hwhole
  rw [← value_skip, skip_append hskip]
  have hlonger (behind : List Char) : behind.length ≤ (behind ++ more).length := by
    rw [List.length_append]
    exact Nat.le_add_right _ _
  rw [value.eq_def] at h
  split at h
  · rename_i behind heq
    obtain ⟨rfl, rfl⟩ := Prod.mk.inj (Option.some.inj h)
    rw [heq, value.eq_def]
    rfl
  · rename_i behind heq
    obtain ⟨rfl, rfl⟩ := Prod.mk.inj (Option.some.inj h)
    rw [heq, value.eq_def]
    rfl
  · rename_i behind heq
    obtain ⟨rfl, rfl⟩ := Prod.mk.inj (Option.some.inj h)
    rw [heq, value.eq_def]
    rfl
  · rename_i behind heq
    obtain ⟨⟨text, left⟩, htext, h⟩ := Option.map_eq_some_iff.mp h
    obtain ⟨rfl, rfl⟩ := Prod.mk.inj h
    rw [heq, List.cons_append, value.eq_def, skip_of_head rfl]
    show (string _).map _ = _
    rw [string_more htext]
    rfl
  · rename_i behind heq
    cases depth with
    | zero => cases h
    | succ inner =>
      rw [heq, value_array] at hwhole
      rw [heq, List.cons_append, value_array]
      split at hwhole
      · rename_i hbracket
        obtain ⟨left, hleft⟩ := List.head?_eq_some_iff.mp hbracket
        obtain ⟨rfl, rfl⟩ := Prod.mk.inj (Option.some.inj hwhole)
        rw [skip_append (skip_ne_nil hleft), hleft]
        rfl
      · rename_i hbracket
        obtain ⟨⟨found, left⟩, hfound, hwhole⟩ := Option.map_eq_some_iff.mp hwhole
        obtain ⟨rfl, rfl⟩ := Prod.mk.inj hwhole
        have hbehind := elements_ne_blank (fun _ => value_blank) hfound
        rw [skip_append hbehind, List.head?_append_of_ne_nil _ hbehind, if_neg hbracket,
          elements_more (hread inner rfl) hfound (hlonger behind)]
        rfl
  · rename_i behind heq
    cases depth with
    | zero => cases h
    | succ inner =>
      rw [heq, value_object] at hwhole
      rw [heq, List.cons_append, value_object]
      split at hwhole
      · rename_i hbrace
        obtain ⟨left, hleft⟩ := List.head?_eq_some_iff.mp hbrace
        obtain ⟨rfl, rfl⟩ := Prod.mk.inj (Option.some.inj hwhole)
        rw [skip_append (skip_ne_nil hleft), hleft]
        rfl
      · rename_i hbrace
        obtain ⟨⟨found, left⟩, hfound, hwhole⟩ := Option.map_eq_some_iff.mp hwhole
        obtain ⟨rfl, rfl⟩ := Prod.mk.inj hwhole
        have hbehind := members_ne_blank hfound
        rw [skip_append hbehind, List.head?_append_of_ne_nil _ hbehind, if_neg hbrace,
          members_more (hread inner rfl) hfound (hlonger behind)]
        rfl
  · obtain ⟨⟨n, left⟩, hn, h⟩ := Option.map_eq_some_iff.mp h
    obtain ⟨rfl, rfl⟩ := Prod.mk.inj h
    have hleft : left ≠ [] := hends.resolve_right fun hne => hne n rfl
    obtain ⟨c, tail, hcons, hc⟩ := number_head hn
    have hmore := number_more hn hleft more
    rw [hcons, List.cons_append] at hmore ⊢
    rw [value_number hc, hmore]
    rfl

/-- A value that ended before the text did is the same whatever stands behind it. -/
theorem settles_value (depth : ℕ) : Settles (value float depth) := by
  induction depth with
  | zero =>
    intro chars v rest h hrest more
    exact value_more_of (fun inner heq => by cases heq) h (.inl hrest) more
  | succ depth ih =>
    intro chars v rest h hrest more
    refine value_more_of (fun inner heq => ?_) h (.inl hrest) more
    obtain rfl := Nat.succ.inj heq
    exact ih

/-- A value that is not a number is read whatever stands behind it. -/
theorem value_more {v : Value} (h : value float depth chars = some (v, rest)) (hv : ∀ n, v ≠ .number n)
    (more : List Char) : value float depth (chars ++ more) = some (v, rest ++ more) :=
  value_more_of (fun inner _ => settles_value inner) h (.inr hv) more

/-- What a number begins with is no bracket and no brace. -/
theorem head_of_number {n : Number} (h : value float depth chars = some (.number n, rest)) :
    ∃ c left, skip chars = c :: left ∧ (isDigit c = true ∨ c = '-') := by
  rw [value.eq_def] at h
  split at h
  · cases h
  · cases h
  · cases h
  · obtain ⟨_, -, h⟩ := Option.map_eq_some_iff.mp h
    cases h
  · split at h
    · cases h
    · split at h
      · cases h
      · obtain ⟨_, -, h⟩ := Option.map_eq_some_iff.mp h
        cases h
  · split at h
    · cases h
    · split at h
      · cases h
      · obtain ⟨_, -, h⟩ := Option.map_eq_some_iff.mp h
        cases h
  · obtain ⟨⟨n, left⟩, hn, -⟩ := Option.map_eq_some_iff.mp h
    exact number_head hn

/-- An array or an object that was cut off is not read at all. -/
theorem fromStr_truncated (hesc : Escapes esc) {v : Value} (hwhole : Whole v) (hdepth : deep v ≤ deepest)
    (hv : (∃ elements, v = .array elements) ∨ ∃ members, v = .object members) {cut more : List Char}
    (hcut : cut ++ more = write esc ryu v) (hmore : more ≠ []) :
    fromStr float (String.ofList cut) = none := by
  obtain ⟨c, tail, hcons, hc⟩ : ∃ c tail, write esc ryu v = c :: tail ∧ (c = '[' ∨ c = '\x7b') := by
    rcases hv with ⟨elements, rfl⟩ | ⟨members, rfl⟩
    · exact ⟨'[', _, rfl, .inl rfl⟩
    · exact ⟨'\x7b', _, rfl, .inr rfl⟩
  rw [fromStr, String.toList_ofList]
  cases hread : value float deepest cut with
  | none => rfl
  | some found =>
    obtain ⟨v', left⟩ := found
    exfalso
    have hnumber : ∀ n, v' ≠ .number n := by
      rintro n rfl
      obtain ⟨c', left', hskip, hc'⟩ := head_of_number hread
      cases cut with
      | nil => cases hskip
      | cons first cut =>
        rw [List.cons_append, hcons] at hcut
        obtain ⟨rfl, -⟩ := List.cons_eq_cons.mp hcut
        rw [skip_of_head (by rcases hc with rfl | rfl <;> decide)] at hskip
        obtain ⟨rfl, -⟩ := List.cons_eq_cons.mp hskip
        rcases hc with rfl | rfl <;> revert hc' <;> decide
    have hall := value_more hread hnumber more
    have hwritten : value float deepest (write esc ryu v ++ []) = some (normal v, []) :=
      value_write hesc v hwhole hdepth ends_nil
    rw [hcut] at hall
    rw [List.append_nil, hall] at hwritten
    exact hmore (List.append_eq_nil_iff.mp (Prod.mk.inj (Option.some.inj hwritten)).2).2

end EkEk.Json
