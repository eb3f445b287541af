import EkEk.Json
import Mathlib.Data.List.TakeDrop

/-!
# Reading JSON

The grammar of RFC 8259, as the JSON library reads it: the last member of a name stands, control
characters and unpaired surrogates are refused, and arrays and objects are nested up to a limit. How a
number that is no integer of 64 bits is rounded is a parameter.

`Value.size` is how long a value is when it is printed without blanks and without escapes.
`size_le_of_fromStr` says that no text is shorter than what is read from it, and that a text of just this
length has no character in its strings that would have to be escaped.
-/

namespace EkEk.Json

/-! ## Tokens -/

/-- The blanks of JSON. -/
def isBlank (c : Char) : Bool := c = ' ' || c = '\n' || c = '\t' || c = '\r'

/-- What follows the blanks. -/
def skip (chars : List Char) : List Char := chars.dropWhile isBlank

/-- A digit of a number. -/
def isDigit (c : Char) : Bool := '0' ≤ c && c ≤ '9'

/-- The value of a hex digit. -/
def hexValue (c : Char) : Option ℕ :=
  if isDigit c then some (c.toNat - 48)
  else if 'a' ≤ c && c ≤ 'f' then some (c.toNat - 87)
  else if 'A' ≤ c && c ≤ 'F' then some (c.toNat - 55)
  else none

/-- Four hex digits. -/
def hex4 : List Char → Option (ℕ × List Char)
  | a :: b :: c :: d :: rest =>
    (hexValue a).bind fun a => (hexValue b).bind fun b => (hexValue c).bind fun c =>
      (hexValue d).map fun d => (((a * 16 + b) * 16 + c) * 16 + d, rest)
  | _ => none

/-- The character a code unit and, where it is the first of two, the one behind it stand for. -/
def unicode (unit : ℕ) (rest : List Char) : Option (Char × List Char) :=
  if unit < 0xD800 ∨ 0xDFFF < unit then some (Char.ofNat unit, rest)
  else if 0xDC00 ≤ unit then none
  else
    match rest with
    | '\\' :: 'u' :: rest => (hex4 rest).bind fun (low, rest) =>
      if 0xDC00 ≤ low ∧ low ≤ 0xDFFF then
        some (Char.ofNat (0x10000 + (unit - 0xD800) * 0x400 + (low - 0xDC00)), rest)
      else none
    | _ => none

/-- The character behind a backslash. -/
def escape : List Char → Option (Char × List Char)
  | 'u' :: rest => (hex4 rest).bind fun (unit, rest) => unicode unit rest
  | '"' :: rest => some ('"', rest)
  | '\\' :: rest => some ('\\', rest)
  | '/' :: rest => some ('/', rest)
  | 'b' :: rest => some (Char.ofNat 8, rest)
  | 'f' :: rest => some (Char.ofNat 12, rest)
  | 'n' :: rest => some ('\n', rest)
  | 'r' :: rest => some ('\r', rest)
  | 't' :: rest => some ('\t', rest)
  | _ => none

/-- The characters of a string, up to the quote that ends it. -/
def characters : ℕ → List Char → Option (List Char × List Char)
  | 0, _ | _, [] => none
  | fuel + 1, c :: rest =>
    if c = '"' then some ([], rest)
    else if c = '\\' then (escape rest).bind fun (c, rest) =>
      (characters fuel rest).map fun (text, rest) => (c :: text, rest)
    else if c.toNat < 32 then none
    else (characters fuel rest).map fun (text, rest) => (c :: text, rest)

/-- A string, behind the quote that begins it. -/
def string (chars : List Char) : Option (String × List Char) :=
  (characters (chars.length + 1) chars).map fun (text, rest) => (String.ofList text, rest)

/-- The number of some digits. -/
def natural (digits : List Char) : ℕ := digits.foldl (fun n c => n * 10 + (c.toNat - 48)) 0

/-- At least one digit behind a sign or a point. -/
def someDigits (chars : List Char) : Option (List Char × List Char) :=
  let (digits, rest) := chars.span isDigit
  if digits = [] then none else some (digits, rest)

/-- Whether there are digits behind a point. -/
def fraction : List Char → Option (Bool × List Char)
  | '.' :: rest => (someDigits rest).map fun (_, rest) => (true, rest)
  | rest => some (false, rest)

/-- Whether there is a power of ten. -/
def exponent : List Char → Option (Bool × List Char)
  | c :: rest =>
    if c = 'e' ∨ c = 'E' then
      let digits := match rest with
        | '+' :: digits | '-' :: digits => digits
        | digits => digits
      (someDigits digits).map fun (_, rest) => (true, rest)
    else some (false, c :: rest)
  | [] => some (false, [])

variable (float : String → Option UInt64)

/-- A number. What is no integer of 64 bits is left to the rounding. -/
def number (chars : List Char) : Option (Number × List Char) :=
  let negative := chars.head? = some '-'
  (someDigits (if negative then chars.tail else chars)).bind fun (whole, rest) =>
    if 1 < whole.length ∧ whole.head? = some '0' then none
    else (fraction rest).bind fun (decimals, rest) => (exponent rest).bind fun (power, rest) =>
      let value := natural whole
      if decimals ∨ power ∨ (if negative then value = 0 ∨ 2 ^ 63 < value else 2 ^ 64 ≤ value) then
        (float (String.ofList (chars.take (chars.length - rest.length)))).map fun bits =>
          (.float bits, rest)
      else if negative then some (.negInt (Int64.ofInt (-value)), rest)
      else some (.posInt (UInt64.ofNat value), rest)

/-! ## Values -/

/-- The elements of an array, up to the bracket that ends it. -/
def elements {α : Type} (read : List Char → Option (α × List Char)) :
    ℕ → List Char → Option (List α × List Char)
  | 0, _ => none
  | fuel + 1, chars =>
    (read chars).bind fun (element, rest) =>
      match skip rest with
      | ',' :: rest => (elements read fuel rest).map fun (elements, rest) => (element :: elements, rest)
      | ']' :: rest => some ([element], rest)
      | _ => none

/-- The members of an object, up to the brace that ends it. -/
def members {α : Type} (read : List Char → Option (α × List Char)) :
    ℕ → List Char → Option (List (String × α) × List Char)
  | 0, _ => none
  | fuel + 1, chars =>
    match skip chars with
    | '"' :: rest => (string rest).bind fun (name, rest) =>
      match skip rest with
      | ':' :: rest => (read rest).bind fun (value, rest) =>
        match skip rest with
        | ',' :: rest => (members read fuel rest).map fun (members, rest) => ((name, value) :: members, rest)
        | '\x7d' :: rest => some ([(name, value)], rest)
        | _ => none
      | _ => none
    | _ => none

/-- The members of an object, the last one of a name in the place of the ones before it. -/
def gathered (members : List (String × Value)) : List (String × Value) :=
  members.foldl (fun held (name, value) => Value.insert name value held) []

/-- A value, nested so many times. -/
def value (depth : ℕ) (chars : List Char) : Option (Value × List Char) :=
  match skip chars with
  | 'n' :: 'u' :: 'l' :: 'l' :: rest => some (.null, rest)
  | 't' :: 'r' :: 'u' :: 'e' :: rest => some (.bool true, rest)
  | 'f' :: 'a' :: 'l' :: 's' :: 'e' :: rest => some (.bool false, rest)
  | '"' :: rest => (string rest).map fun (text, rest) => (.string text, rest)
  | '[' :: rest =>
    match depth with
    | 0 => none
    | depth + 1 =>
      match skip rest with
      | ']' :: rest => some (.array [], rest)
      | _ => (elements (value depth) rest.length rest).map fun (elements, rest) => (.array elements, rest)
  | '\x7b' :: rest =>
    match depth with
    | 0 => none
    | depth + 1 =>
      match skip rest with
      | '\x7d' :: rest => some (.object [], rest)
      | _ => (members (value depth) rest.length rest).map fun (members, rest) =>
        (.object (gathered members), rest)
  | rest => (number float rest).map fun (number, rest) => (.number number, rest)

/-- How many arrays and objects may stand in each other. -/
def deepest : ℕ := 127

/-- A whole document. -/
def fromStr (text : String) : Option Value :=
  (value float deepest text.toList).bind fun (value, rest) => if skip rest = [] then some value else none

/-! ## How long a value is -/

/-- A text that can stand in a string as it is. -/
def Unescaped (text : String) : Prop := ∀ c ∈ text.toList, c ≠ '"' ∧ c ≠ '\\' ∧ 32 ≤ c.toNat

instance (text : String) : Decidable (Unescaped text) :=
  List.decidableBAll (fun c => c ≠ '"' ∧ c ≠ '\\' ∧ 32 ≤ c.toNat) text.toList

mutual

/-- The characters a value takes at least. -/
def size : Value → ℕ
  | .null | .bool true => 4
  | .bool false => 5
  | .number _ => 1
  | .string text => text.length + 2
  | .array elements => 1 + max 1 (sizes elements)
  | .object members => 1 + max 1 (memberSizes members)

/-- The characters of some elements, each with what follows it. -/
def sizes : List Value → ℕ
  | [] => 0
  | element :: elements => size element + 1 + sizes elements

/-- The sizes of the members of an object, with their names. -/
def memberSizes : List (String × Value) → ℕ
  | [] => 0
  | (name, value) :: members => name.length + 3 + size value + 1 + memberSizes members

end

mutual

/-- A value whose strings can stand as they are. -/
def Plain : Value → Prop
  | .string text => Unescaped text
  | .array elements => AllPlain elements
  | .object members => MembersPlain members
  | _ => True

/-- No text in a list has to be escaped. -/
def AllPlain : List Value → Prop
  | [] => True
  | element :: elements => Plain element ∧ AllPlain elements

/-- No text in an object has to be escaped, the names included. -/
def MembersPlain : List (String × Value) → Prop
  | [] => True
  | (name, value) :: members => (Unescaped name ∧ Plain value) ∧ MembersPlain members

end

/-- What was read takes so many characters at least, and is as it should be if it takes no more. -/
def Costs (cost : ℕ) (plain : Prop) (chars rest : List Char) : Prop :=
  cost + rest.length ≤ chars.length ∧ (cost + rest.length = chars.length → plain)

/-- What is read in two parts costs what the parts do. -/
theorem Costs.append {cost cost' : ℕ} {plain plain' : Prop} {chars middle rest : List Char}
    (h : Costs cost plain chars middle) (h' : Costs cost' plain' middle rest) :
    Costs (cost + cost') (plain ∧ plain') chars rest := by
  obtain ⟨hle, hplain⟩ := h
  obtain ⟨hle', hplain'⟩ := h'
  exact ⟨by omega, fun heq => ⟨hplain (by omega), hplain' (by omega)⟩⟩

/-- What costs less is as it should be where the cost is what the dearer one was. -/
theorem Costs.mono {cost cost' : ℕ} {plain plain' : Prop} {chars rest : List Char}
    (h : Costs cost plain chars rest) (hcost : cost' ≤ cost) (hplain : plain → plain') :
    Costs cost' plain' chars rest := by
  obtain ⟨hle, hthen⟩ := h
  exact ⟨by omega, fun heq => hplain (hthen (by omega))⟩

/-- Blanks and single characters in front only make it longer. -/
theorem Costs.prepend {cost : ℕ} (count : ℕ) {plain : Prop} {chars chars' rest : List Char}
    (h : Costs cost plain chars rest) (hlength : chars.length + count ≤ chars'.length) :
    Costs (cost + count) plain chars' rest := by
  obtain ⟨hle, hplain⟩ := h
  exact ⟨by omega, fun heq => hplain (by omega)⟩

/-- Blanks cost nothing. -/
theorem length_skip_le (chars : List Char) : (skip chars).length ≤ chars.length :=
  (List.dropWhile_sublist _).length_le

/-- What is left behind the blanks and some characters. -/
theorem length_of_skip (head : List Char) {chars rest : List Char} (h : skip chars = head ++ rest) :
    rest.length + head.length ≤ chars.length := by
  have hle := length_skip_le chars
  rw [h, List.length_append] at hle
  omega

/-- Four digits take four characters. -/
theorem length_hex4 {chars rest : List Char} {unit : ℕ} (h : hex4 chars = some (unit, rest)) :
    chars.length = rest.length + 4 := by
  rw [hex4.eq_def] at h
  split at h
  · simp only [Option.bind_eq_some_iff, Option.map_eq_some_iff] at h
    obtain ⟨a, -, b, -, c, -, d, -, h⟩ := h
    obtain ⟨-, rfl⟩ := Prod.mk.inj h
    rfl
  · cases h

theorem length_unicode {unit : ℕ} {chars rest : List Char} {c : Char}
    (h : unicode unit chars = some (c, rest)) : rest.length ≤ chars.length := by
  rw [unicode.eq_def] at h
  split at h
  · obtain ⟨-, rfl⟩ := Prod.mk.inj (Option.some.inj h)
    exact le_rfl
  · split at h
    · cases h
    · split at h
      · rename_i low
        obtain ⟨⟨second, left⟩, hsecond, h⟩ := Option.bind_eq_some_iff.mp h
        have hlength := length_hex4 hsecond
        dsimp only at h
        split at h
        · obtain ⟨-, rfl⟩ := Prod.mk.inj (Option.some.inj h)
          simp only [List.length_cons]
          omega
        · cases h
      · cases h

/-- An escape takes at least one. -/
theorem length_escape {chars rest : List Char} {c : Char} (h : escape chars = some (c, rest)) :
    rest.length < chars.length := by
  rw [escape.eq_def] at h
  split at h
  · obtain ⟨⟨unit, left⟩, hunit, h⟩ := Option.bind_eq_some_iff.mp h
    have hlength := length_hex4 hunit
    have hleft := length_unicode h
    simp only [List.length_cons]
    omega
  all_goals
    first
    | cases h; done
    | obtain ⟨-, rfl⟩ := Prod.mk.inj (Option.some.inj h)
      exact Nat.lt_succ_self _

/-- A string is no longer than what is written for it, and nothing is escaped where it is as long. -/
theorem costs_characters {fuel : ℕ} {chars rest text : List Char}
    (h : characters fuel chars = some (text, rest)) :
    Costs (text.length + 1) (∀ c ∈ text, c ≠ '"' ∧ c ≠ '\\' ∧ 32 ≤ c.toNat) chars rest := by
  induction fuel generalizing chars text with
  | zero => cases h
  | succ fuel ih =>
    cases chars with
    | nil => cases h
    | cons c chars =>
      rw [characters] at h
      split at h
      · obtain ⟨rfl, rfl⟩ := Prod.mk.inj (Option.some.inj h)
        exact ⟨(Nat.add_comm ..).le, fun _ c hc => absurd hc List.not_mem_nil⟩
      · rename_i hquote
        split at h
        · obtain ⟨⟨d, left⟩, hescape, h⟩ := Option.bind_eq_some_iff.mp h
          obtain ⟨⟨later, end'⟩, hlater, heq⟩ := Option.map_eq_some_iff.mp h
          obtain ⟨rfl, rfl⟩ := Prod.mk.inj heq
          have hshort := length_escape hescape
          have hle := (ih hlater).1
          simp only [List.length_cons] at hle ⊢
          exact ⟨by simp only [List.length_cons]; omega, fun heq => by
            simp only [List.length_cons] at heq; omega⟩
        · rename_i hbackslash
          split at h
          · cases h
          · rename_i hcontrol
            obtain ⟨⟨later, end'⟩, hlater, heq⟩ := Option.map_eq_some_iff.mp h
            obtain ⟨rfl, rfl⟩ := Prod.mk.inj heq
            refine ((ih hlater).prepend 1 le_rfl).mono le_rfl ?_
            rintro hplain d hd
            rcases List.mem_cons.mp hd with rfl | hd
            · exact ⟨hquote, hbackslash, not_lt.mp hcontrol⟩
            · exact hplain d hd

/-- A text takes as many characters as it has, unless some are escaped. -/
theorem costs_string {chars rest : List Char} {text : String} (h : string chars = some (text, rest)) :
    Costs (text.length + 1) (Unescaped text) chars rest := by
  obtain ⟨⟨read, left⟩, hread, heq⟩ := Option.map_eq_some_iff.mp h
  obtain ⟨rfl, rfl⟩ := Prod.mk.inj heq
  have hcosts := costs_characters hread
  rw [Unescaped, String.toList_ofList, String.length_ofList]
  exact hcosts

/-- Digits take at least one character. -/
theorem length_someDigits {chars digits rest : List Char} (h : someDigits chars = some (digits, rest)) :
    rest.length < chars.length := by
  rw [someDigits, List.span_eq_takeWhile_dropWhile] at h
  dsimp only at h
  split at h
  · cases h
  · rename_i hsome
    obtain ⟨-, rfl⟩ := Prod.mk.inj (Option.some.inj h)
    have hboth := congrArg List.length (List.takeWhile_append_dropWhile (p := isDigit) (l := chars))
    rw [List.length_append] at hboth
    have hpos := List.length_pos_iff.mpr hsome
    omega

theorem length_fraction {chars rest : List Char} {there : Bool}
    (h : fraction chars = some (there, rest)) : rest.length ≤ chars.length := by
  rw [fraction.eq_def] at h
  split at h
  · obtain ⟨⟨digits, left⟩, hdigits, heq⟩ := Option.map_eq_some_iff.mp h
    obtain ⟨-, rfl⟩ := Prod.mk.inj heq
    exact (length_someDigits hdigits).le.trans (Nat.le_succ _)
  · obtain ⟨-, rfl⟩ := Prod.mk.inj (Option.some.inj h)
    exact le_rfl

theorem length_exponent {chars rest : List Char} {there : Bool}
    (h : exponent chars = some (there, rest)) : rest.length ≤ chars.length := by
  rw [exponent.eq_def] at h
  split at h
  · split at h
    · obtain ⟨⟨digits, left⟩, hdigits, heq⟩ := Option.map_eq_some_iff.mp h
      obtain ⟨-, rfl⟩ := Prod.mk.inj heq
      have hshort := length_someDigits hdigits
      split at hshort <;> simp only [List.length_cons] at hshort ⊢ <;> omega
    · obtain ⟨-, rfl⟩ := Prod.mk.inj (Option.some.inj h)
      exact le_rfl
  · obtain ⟨-, rfl⟩ := Prod.mk.inj (Option.some.inj h)
    exact le_rfl

/-- A number takes at least one character. -/
theorem length_number {float : String → Option UInt64} {chars rest : List Char} {n : Number}
    (h : number float chars = some (n, rest)) : rest.length < chars.length := by
  rw [number] at h
  obtain ⟨⟨whole, left⟩, hwhole, h⟩ := Option.bind_eq_some_iff.mp h
  have hdigits : left.length < chars.length := by
    have hshort := length_someDigits hwhole
    split at hshort
    · rw [List.length_tail] at hshort
      omega
    · exact hshort
  dsimp only at h
  split at h
  · cases h
  · obtain ⟨⟨decimals, behind⟩, hdecimals, h⟩ := Option.bind_eq_some_iff.mp h
    obtain ⟨⟨power, last⟩, hpower, h⟩ := Option.bind_eq_some_iff.mp h
    have hlast : last.length < chars.length :=
      ((length_exponent hpower).trans (length_fraction hdecimals)).trans_lt hdigits
    dsimp only at h
    have hends : ∀ {n' : Number}, some (n', last) = some (n, rest) → rest.length < chars.length := by
      intro n' heq
      obtain ⟨-, rfl⟩ := Prod.mk.inj (Option.some.inj heq)
      exact hlast
    by_cases hnegative : chars.head? = some '-'
    all_goals
      simp only [hnegative, if_true, if_false] at h
      split at h
      · obtain ⟨bits, -, heq⟩ := Option.map_eq_some_iff.mp h
        exact hends (congrArg some heq)
      · exact hends h

/-- A list costs what its elements do. -/
theorem costs_elements {read : List Char → Option (Value × List Char)}
    (hread : ∀ {chars rest element}, read chars = some (element, rest) →
      Costs (size element) (Plain element) chars rest)
    {fuel : ℕ} {chars rest : List Char} {found : List Value}
    (h : elements read fuel chars = some (found, rest)) :
    found ≠ [] ∧ Costs (sizes found) (AllPlain found) chars rest := by
  induction fuel generalizing chars found with
  | zero => cases h
  | succ fuel ih =>
    rw [elements] at h
    obtain ⟨⟨element, left⟩, helement, h⟩ := Option.bind_eq_some_iff.mp h
    dsimp only at h
    split at h
    · rename_i later hskip
      obtain ⟨⟨others, last⟩, hothers, heq⟩ := Option.map_eq_some_iff.mp h
      obtain ⟨rfl, rfl⟩ := Prod.mk.inj heq
      have hcomma : later.length + 1 ≤ left.length := length_of_skip [','] hskip
      have hcosts := (hread helement).append ((ih hothers).2.prepend 1 hcomma)
      refine ⟨List.cons_ne_nil _ _, hcosts.mono ?_ (fun h => h)⟩
      simp only [sizes]
      omega
    · rename_i later hskip
      obtain ⟨rfl, rfl⟩ := Prod.mk.inj (Option.some.inj h)
      refine ⟨List.cons_ne_nil _ _, ?_⟩
      have hend : Costs 1 True left later :=
        ⟨(Nat.add_comm ..).le.trans (length_of_skip [']'] hskip), fun _ => trivial⟩
      exact ((hread helement).append hend).mono (by simp only [sizes]; omega)
        (fun h => ⟨h.1, trivial⟩)
    · cases h

/-- An object costs what its members do. -/
theorem costs_members {read : List Char → Option (Value × List Char)}
    (hread : ∀ {chars rest element}, read chars = some (element, rest) →
      Costs (size element) (Plain element) chars rest)
    {fuel : ℕ} {chars rest : List Char} {found : List (String × Value)}
    (h : members read fuel chars = some (found, rest)) :
    found ≠ [] ∧ Costs (memberSizes found) (MembersPlain found) chars rest := by
  induction fuel generalizing chars found with
  | zero => cases h
  | succ fuel ih =>
    rw [members] at h
    split at h
    · rename_i named hquote
      have hquote : named.length + 1 ≤ chars.length := length_of_skip ['"'] hquote
      obtain ⟨⟨name, behind⟩, hname, h⟩ := Option.bind_eq_some_iff.mp h
      dsimp only at h
      split at h
      · rename_i held hcolon
        have hcolon : held.length + 1 ≤ behind.length := length_of_skip [':'] hcolon
        obtain ⟨⟨value, left⟩, hvalue, h⟩ := Option.bind_eq_some_iff.mp h
        have hmember := ((costs_string hname).prepend 1 hquote).append
          ((hread hvalue).prepend 1 hcolon)
        dsimp only at h
        split at h
        · rename_i later hskip
          have hcomma : later.length + 1 ≤ left.length := length_of_skip [','] hskip
          obtain ⟨⟨others, last⟩, hothers, heq⟩ := Option.map_eq_some_iff.mp h
          obtain ⟨rfl, rfl⟩ := Prod.mk.inj heq
          have hcosts := hmember.append ((ih hothers).2.prepend 1 hcomma)
          refine ⟨List.cons_ne_nil _ _, hcosts.mono ?_ (fun h => h)⟩
          simp only [memberSizes]
          omega
        · rename_i later hskip
          have hbrace : later.length + 1 ≤ left.length := length_of_skip ['\x7d'] hskip
          obtain ⟨rfl, rfl⟩ := Prod.mk.inj (Option.some.inj h)
          have hend : Costs 1 True left later :=
            ⟨(Nat.add_comm ..).le.trans hbrace, fun _ => trivial⟩
          refine ⟨List.cons_ne_nil _ _, (hmember.append hend).mono ?_ (fun h => ⟨h.1, trivial⟩)⟩
          simp only [memberSizes]
          omega
        · cases h
      · cases h
    · cases h

theorem memberSizes_insert_le (name : String) (value : Value) (held : List (String × Value)) :
    memberSizes (Value.insert name value held) ≤ memberSizes ((name, value) :: held) := by
  induction held with
  | nil => exact le_rfl
  | cons member held ih =>
    obtain ⟨other, kept⟩ := member
    rw [Value.insert]
    simp only [memberSizes] at ih ⊢
    split
    · simp only [memberSizes]
      omega
    · split <;> simp only [memberSizes] <;> omega

theorem membersPlain_insert {name : String} {value : Value} {held : List (String × Value)}
    (hmember : Unescaped name ∧ Plain value) (hheld : MembersPlain held) :
    MembersPlain (Value.insert name value held) := by
  induction held with
  | nil => exact ⟨hmember, trivial⟩
  | cons member held ih =>
    obtain ⟨hother, hheld'⟩ := hheld
    rw [Value.insert]
    split
    · exact ⟨hmember, hheld'⟩
    · split
      · exact ⟨hmember, hother, hheld'⟩
      · exact ⟨hother, ih hheld'⟩

/-- A name that comes twice only makes an object smaller. -/
theorem memberSizes_gathered_le (members : List (String × Value)) :
    memberSizes (gathered members) ≤ memberSizes members := by
  suffices hfold : ∀ held : List (String × Value),
      memberSizes (members.foldl (fun held (name, value) => Value.insert name value held) held)
        ≤ memberSizes members + memberSizes held from (hfold []).trans_eq (Nat.add_zero _)
  intro held
  induction members generalizing held with
  | nil => exact (Nat.zero_add _).ge
  | cons member members ih =>
    obtain ⟨name, value⟩ := member
    have hinsert := memberSizes_insert_le name value held
    have hrest := ih (Value.insert name value held)
    rw [List.foldl_cons]
    simp only [memberSizes] at hinsert hrest ⊢
    omega

/-- What is left of the members is as plain as they were. -/
theorem membersPlain_gathered {members : List (String × Value)} (h : MembersPlain members) :
    MembersPlain (gathered members) := by
  suffices hfold : ∀ held : List (String × Value), MembersPlain held →
      MembersPlain (members.foldl (fun held (name, value) => Value.insert name value held) held) from
    hfold [] trivial
  intro held hheld
  induction members generalizing held with
  | nil => exact hheld
  | cons member members ih =>
    obtain ⟨hmember, hrest⟩ := h
    exact ih hrest _ (membersPlain_insert hmember hheld)

theorem one_le_sizes {found : List Value} (h : found ≠ []) : 1 ≤ sizes found := by
  obtain ⟨element, others, rfl⟩ := List.exists_cons_of_ne_nil h
  simp only [sizes]
  omega

/-- An element has a size of at least one. -/
theorem length_le_sizes (found : List Value) : found.length ≤ sizes found := by
  induction found with
  | nil => exact le_rfl
  | cons element found ih =>
    simp only [List.length_cons, sizes]
    omega

theorem one_le_memberSizes {found : List (String × Value)} (h : found ≠ []) :
    1 ≤ memberSizes found := by
  obtain ⟨⟨name, value⟩, others, rfl⟩ := List.exists_cons_of_ne_nil h
  simp only [memberSizes]
  omega

/-- A value is no longer than what it was read from, and needs no escapes where it is as long. -/
theorem costs_value {float : String → Option UInt64} {depth : ℕ} {chars rest : List Char} {v : Value}
    (h : value float depth chars = some (v, rest)) : Costs (size v) (Plain v) chars rest := by
  induction depth using Nat.strong_induction_on generalizing chars rest v with
  | h depth ih =>
    rw [value.eq_def] at h
    split at h
    · rename_i left hskip
      obtain ⟨rfl, rfl⟩ := Prod.mk.inj (Option.some.inj h)
      exact ⟨(Nat.add_comm ..).le.trans (length_of_skip ['n', 'u', 'l', 'l'] hskip), fun _ => trivial⟩
    · rename_i left hskip
      obtain ⟨rfl, rfl⟩ := Prod.mk.inj (Option.some.inj h)
      exact ⟨(Nat.add_comm ..).le.trans (length_of_skip ['t', 'r', 'u', 'e'] hskip), fun _ => trivial⟩
    · rename_i left hskip
      obtain ⟨rfl, rfl⟩ := Prod.mk.inj (Option.some.inj h)
      exact ⟨(Nat.add_comm ..).le.trans (length_of_skip ['f', 'a', 'l', 's', 'e'] hskip),
        fun _ => trivial⟩
    · rename_i left hskip
      obtain ⟨⟨text, last⟩, htext, heq⟩ := Option.map_eq_some_iff.mp h
      obtain ⟨rfl, rfl⟩ := Prod.mk.inj heq
      exact ((costs_string htext).prepend 1 (length_of_skip ['"'] hskip)).mono le_rfl (fun h => h)
    · rename_i left hskip
      have hopen : left.length + 1 ≤ chars.length := length_of_skip ['['] hskip
      split at h
      · cases h
      · rename_i depth
        split at h
        · rename_i last hend
          have hclose : last.length + 1 ≤ left.length := length_of_skip [']'] hend
          obtain ⟨rfl, rfl⟩ := Prod.mk.inj (Option.some.inj h)
          exact ⟨(show 2 + last.length ≤ chars.length by omega), fun _ => trivial⟩
        · obtain ⟨⟨found, last⟩, hfound, heq⟩ := Option.map_eq_some_iff.mp h
          obtain ⟨rfl, rfl⟩ := Prod.mk.inj heq
          obtain ⟨hsome, hcosts⟩ := costs_elements (ih depth (Nat.lt_succ_self _)) hfound
          have hpos := one_le_sizes hsome
          refine (hcosts.prepend 1 hopen).mono ?_ (fun h => h)
          simp only [size]
          omega
    · rename_i left hskip
      have hopen : left.length + 1 ≤ chars.length := length_of_skip ['\x7b'] hskip
      split at h
      · cases h
      · rename_i depth
        split at h
        · rename_i last hend
          have hclose : last.length + 1 ≤ left.length := length_of_skip ['\x7d'] hend
          obtain ⟨rfl, rfl⟩ := Prod.mk.inj (Option.some.inj h)
          exact ⟨(show 2 + last.length ≤ chars.length by omega), fun _ => trivial⟩
        · obtain ⟨⟨found, last⟩, hfound, heq⟩ := Option.map_eq_some_iff.mp h
          obtain ⟨rfl, rfl⟩ := Prod.mk.inj heq
          obtain ⟨hsome, hcosts⟩ := costs_members (ih depth (Nat.lt_succ_self _)) hfound
          have hpos := one_le_memberSizes hsome
          have hless := memberSizes_gathered_le found
          refine (hcosts.prepend 1 hopen).mono ?_ membersPlain_gathered
          simp only [size]
          omega
    · obtain ⟨⟨read, last⟩, hread, heq⟩ := Option.map_eq_some_iff.mp h
      obtain ⟨rfl, rfl⟩ := Prod.mk.inj heq
      have hshort := (length_number hread).trans_le (length_skip_le chars)
      exact ⟨by simp only [size]; omega, fun _ => trivial⟩

/-- No text is shorter than what is read from it, and what is read from a text of just its length needs
no escapes. -/
theorem size_le_of_fromStr {float : String → Option UInt64} {text : String} {v : Value}
    (h : fromStr float text = some v) :
    size v ≤ text.length ∧ (size v = text.length → Plain v) := by
  obtain ⟨⟨read, rest⟩, hread, h⟩ := Option.bind_eq_some_iff.mp h
  dsimp only at h
  split at h
  · obtain rfl := Option.some.inj h
    obtain ⟨hle, hplain⟩ := costs_value hread
    rw [String.length_toList] at hle hplain
    exact ⟨by omega, fun heq => hplain (by omega)⟩
  · cases h

/-! ## Reading what is written without blanks -/

/-- Nothing is skipped in front of something that is not blank. -/
theorem skip_of_head {c : Char} {rest : List Char} (h : isBlank c = false) :
    skip (c :: rest) = c :: rest := by
  rw [skip, List.dropWhile_cons_of_neg (by rw [h]; exact Bool.false_ne_true)]

/-- Characters that stand as they are come through. -/
theorem characters_append {text : List Char} (h : ∀ c ∈ text, c ≠ '"' ∧ c ≠ '\\' ∧ 32 ≤ c.toNat)
    (rest : List Char) {fuel : ℕ} (hfuel : text.length < fuel) :
    characters fuel (text ++ '"' :: rest) = some (text, rest) := by
  induction text generalizing fuel with
  | nil =>
    obtain ⟨fuel, rfl⟩ := Nat.exists_eq_succ_of_ne_zero (Nat.pos_iff_ne_zero.mp hfuel)
    rfl
  | cons c text ih =>
    obtain ⟨fuel, rfl⟩ := Nat.exists_eq_succ_of_ne_zero (Nat.ne_zero_of_lt hfuel)
    obtain ⟨⟨hquote, hbackslash, hcontrol⟩, htext⟩ := List.forall_mem_cons.mp h
    rw [List.cons_append, characters, if_neg hquote, if_neg hbackslash, if_neg (not_lt.mpr hcontrol),
      ih htext (Nat.lt_of_succ_lt_succ hfuel)]
    rfl

/-- A text without escapes is read up to its closing quote. -/
theorem string_append {text : String} (h : Unescaped text) (rest : List Char) :
    string (text.toList ++ '"' :: rest) = some (text, rest) := by
  rw [string, characters_append h rest (by simp only [List.length_append, List.length_cons]; omega)]
  exact congrArg (fun text => some (text, rest)) (String.ofList_toList)

section

variable {float : String → Option UInt64} {depth : ℕ}

theorem value_true (rest : List Char) :
    value float depth ('t' :: 'r' :: 'u' :: 'e' :: rest) = some (.bool true, rest) := by
  rw [value.eq_def]
  rfl

/-- A value that is such a text is read. -/
theorem value_string {text : String} (h : Unescaped text) (rest : List Char) :
    value float depth ('"' :: (text.toList ++ '"' :: rest)) = some (.string text, rest) := by
  rw [value.eq_def, skip_of_head rfl]
  show (string _).map _ = _
  rw [string_append h]
  rfl

/-- An empty list is read. -/
theorem value_no_elements (rest : List Char) :
    value float (depth + 1) ('[' :: ']' :: rest) = some (.array [], rest) := by
  rw [value.eq_def, skip_of_head rfl]
  rfl

/-- An array that does not end right away. -/
theorem value_elements {chars : List Char} (h : ∀ rest, skip chars ≠ ']' :: rest) :
    value float (depth + 1) ('[' :: chars) =
      (elements (value float depth) chars.length chars).map
        fun (found, rest) => (.array found, rest) := by
  rw [value.eq_def, skip_of_head rfl]
  show (match skip chars with
    | ']' :: rest => some (Value.array [], rest)
    | _ => _) = _
  split
  · rename_i rest heq
    exact absurd heq (h rest)
  · rfl

/-- An object whose first member is no blank away from its brace. -/
theorem value_members (rest : List Char) :
    value float (depth + 1) ('\x7b' :: '"' :: rest) =
      (members (value float depth) (rest.length + 1) ('"' :: rest)).map
        fun (found, rest) => (.object (gathered found), rest) := by
  rw [value.eq_def, skip_of_head rfl]
  rfl

/-- There is room for two members in it. -/
theorem exists_value_members {rest : List Char} (h : rest ≠ []) :
    ∃ fuel, value float (depth + 1) ('\x7b' :: '"' :: rest) =
      (members (value float depth) (fuel + 2) ('"' :: rest)).map
        fun (found, rest) => (.object (gathered found), rest) := by
  obtain ⟨fuel, hfuel⟩ := Nat.exists_eq_succ_of_ne_zero (List.length_pos_iff.mpr h).ne'
  exact ⟨fuel, by rw [value_members, hfuel]⟩

/-- An element is read, and then the others. -/
theorem elements_cons {α : Type} {read : List Char → Option (α × List Char)} {fuel : ℕ}
    {chars rest : List Char} {element : α} (h : read chars = some (element, ',' :: rest)) :
    elements read (fuel + 1) chars =
      (elements read fuel rest).map fun (others, rest) => (element :: others, rest) := by
  rw [elements, h]
  rfl

theorem elements_last {α : Type} {read : List Char → Option (α × List Char)} {fuel : ℕ}
    {chars rest : List Char} {element : α} (h : read chars = some (element, ']' :: rest)) :
    elements read (fuel + 1) chars = some ([element], rest) := by
  rw [elements, h]
  rfl

theorem members_named {α : Type} {read : List Char → Option (α × List Char)} {fuel : ℕ}
    {chars : List Char} {name : String} (hname : Unescaped name) :
    members read (fuel + 1) ('"' :: (name.toList ++ '"' :: ':' :: chars)) =
      (read chars).bind fun (value, rest) =>
        match skip rest with
        | ',' :: rest =>
          (members read fuel rest).map fun (members, rest) => ((name, value) :: members, rest)
        | '\x7d' :: rest => some ([(name, value)], rest)
        | _ => none := by
  rw [members, skip_of_head rfl]
  show (string _).bind _ = _
  rw [string_append hname]
  rfl

/-- A member is read, and then the others. -/
theorem members_cons {α : Type} {read : List Char → Option (α × List Char)} {fuel : ℕ}
    {chars rest : List Char} {name : String} {held : α} (hname : Unescaped name)
    (h : read chars = some (held, ',' :: rest)) :
    members read (fuel + 1) ('"' :: (name.toList ++ '"' :: ':' :: chars)) =
      (members read fuel rest).map fun (others, rest) => ((name, held) :: others, rest) := by
  rw [members_named hname, h]
  rfl

theorem members_last {α : Type} {read : List Char → Option (α × List Char)} {fuel : ℕ}
    {chars rest : List Char} {name : String} {held : α} (hname : Unescaped name)
    (h : read chars = some (held, '\x7d' :: rest)) :
    members read (fuel + 1) ('"' :: (name.toList ++ '"' :: ':' :: chars)) =
      some ([(name, held)], rest) := by
  rw [members_named hname, h]
  rfl

/-- A document is what is read of the text, where nothing is left of it. -/
theorem fromStr_eq_some {text : String} {v : Value}
    (h : value float deepest text.toList = some (v, [])) : fromStr float text = some v := by
  rw [fromStr, h]
  rfl

end

/-! ## Members by name -/

theorem mem_of_lookup {name : String} {v : Value} {members : List (String × Value)}
    (h : members.lookup name = some v) : (name, v) ∈ members := by
  obtain ⟨before, after, hmembers, -⟩ := List.lookup_eq_some_iff.mp h
  rw [hmembers]
  exact List.mem_append_right _ List.mem_cons_self

theorem mem_insert {name : String} {v : Value} {members : List (String × Value)}
    {member : String × Value} (h : member ∈ Value.insert name v members) :
    member = (name, v) ∨ member ∈ members := by
  induction members with
  | nil => exact .inl (List.mem_singleton.mp h)
  | cons held members ih =>
    obtain ⟨other, kept⟩ := held
    rw [Value.insert] at h
    split at h
    · exact (List.mem_cons.mp h).imp_right (List.mem_cons_of_mem _)
    · split at h
      · exact List.mem_cons.mp h
      · rcases List.mem_cons.mp h with hheld | hrest
        · exact .inr (List.mem_cons.mpr (.inl hheld))
        · exact (ih hrest).imp_right (List.mem_cons_of_mem _)

/-- The members of an object are among those that were read. -/
theorem mem_of_mem_gathered {members : List (String × Value)} {member : String × Value}
    (h : member ∈ gathered members) : member ∈ members := by
  suffices hfold : ∀ held : List (String × Value),
      member ∈ members.foldl (fun held (name, value) => Value.insert name value held) held →
        member ∈ members ∨ member ∈ held from
    (hfold [] h).resolve_right List.not_mem_nil
  clear h
  intro held h
  induction members generalizing held with
  | nil => exact .inr h
  | cons first members ih =>
    rcases ih _ h with hmem | hmem
    · exact .inl (List.mem_cons_of_mem _ hmem)
    · rcases mem_insert hmem with rfl | hmem
      · exact .inl List.mem_cons_self
      · exact .inr hmem

/-- A member takes its part of its object. -/
theorem memberSizes_of_mem {name : String} {v : Value} {members : List (String × Value)}
    (h : (name, v) ∈ members) : name.length + 3 + size v + 1 ≤ memberSizes members := by
  induction members with
  | nil => exact absurd h List.not_mem_nil
  | cons member members ih =>
    obtain ⟨other, held⟩ := member
    simp only [memberSizes]
    rcases List.mem_cons.mp h with heq | hmem
    · obtain ⟨rfl, rfl⟩ := Prod.mk.inj heq
      omega
    · have hrest := ih hmem
      omega

theorem MembersPlain.of_mem {name : String} {v : Value} {members : List (String × Value)}
    (h : MembersPlain members) (hmem : (name, v) ∈ members) : Plain v := by
  induction members with
  | nil => exact absurd hmem List.not_mem_nil
  | cons member members ih =>
    rcases List.mem_cons.mp hmem with heq | hmem
    · obtain ⟨rfl, rfl⟩ := Prod.mk.inj heq
      exact h.1.2
    · exact ih h.2 hmem

end EkEk.Json
