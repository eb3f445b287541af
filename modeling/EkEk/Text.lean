import Mathlib.Data.List.DropRight
import Mathlib.Data.List.TakeDrop

/-!
# Text

The string operations of the standard library the crates use, on the characters of a string.
-/

namespace EkEk.Text

/-- The characters the Unicode property `White_Space` holds of. -/
def isWhitespace (c : Char) : Bool :=
  (9 ≤ c.toNat && c.toNat ≤ 13) || c.toNat == 0x20 || c.toNat == 0x85 || c.toNat == 0xA0 ||
    c.toNat == 0x1680 || (0x2000 ≤ c.toNat && c.toNat ≤ 0x200A) || c.toNat == 0x2028 ||
    c.toNat == 0x2029 || c.toNat == 0x202F || c.toNat == 0x205F || c.toNat == 0x3000

/-- A string without the whitespace at its two ends. -/
def trim (s : String) : String :=
  String.ofList ((s.toList.dropWhile isWhitespace).rdropWhile isWhitespace)

/-- A string without the occurrences of a character at its end. -/
def trimEndMatches (s : String) (c : Char) : String := String.ofList (s.toList.rdropWhile (· == c))

/-- The parts of a string between the occurrences of a character. There is always at least one. -/
def split (s : String) (c : Char) : List String := (s.toList.splitOn c).map String.ofList

/-- What stands before and after the first character that passes a test. -/
def splitOnce (s : String) (p : Char → Bool) : Option (String × String) :=
  match s.toList.span fun c => !p c with
  | (before, _ :: after) => some (String.ofList before, String.ofList after)
  | (_, []) => none

/-- What follows another string at the front. -/
def stripPrefix (s front : String) : Option String :=
  if front.toList.isPrefixOf s.toList then some (String.ofList (s.toList.drop front.toList.length))
  else none

/-- A lower case hex digit. -/
def isHex (c : Char) : Bool := ('0' ≤ c && c ≤ '9') || ('a' ≤ c && c ≤ 'f')

/-- A string of so many bytes, every one of them a lower case hex digit. -/
def hexOfLength (s : String) (bytes : ℕ) : Prop := s.utf8ByteSize = bytes ∧ s.toList.all isHex

instance (s : String) (bytes : ℕ) : Decidable (hexOfLength s bytes) :=
  inferInstanceAs (Decidable (_ ∧ _))

/-- The digit of a number below sixteen. -/
def hexDigit (n : Fin 16) : Char :=
  if n < 10 then Char.ofNat (48 + n) else Char.ofNat (87 + n)

/-- The two digits of a byte. -/
def hexByte (byte : UInt8) : List Char :=
  [hexDigit ⟨byte.toNat / 16, by have := byte.toNat_lt; omega⟩,
    hexDigit ⟨byte.toNat % 16, by omega⟩]

/-- Bytes in lower case hex, two digits each. -/
def hex (bytes : List UInt8) : String := String.ofList (bytes.flatMap hexByte)

/-- The bytes of a string. -/
def bytes (s : String) : List UInt8 := s.toByteArray.data.toList

/-- The string so many bytes are, if they are one. -/
def fromUtf8 (bytes : List UInt8) : Option String := String.fromUTF8? bytes.toByteArray

theorem trim_eq_self {s : String} (h : ∀ c ∈ s.toList, isWhitespace c = false) : trim s = s := by
  have hleft : s.toList.dropWhile isWhitespace = s.toList := by
    rw [List.dropWhile_eq_self_iff]
    intro hpos
    simp [h _ (List.getElem_mem hpos)]
  have hright : s.toList.rdropWhile isWhitespace = s.toList := by
    rw [List.rdropWhile_eq_self_iff]
    intro hne
    simp [h _ (List.getLast_mem hne)]
  rw [trim, hleft, hright, String.ofList_toList]

/-- What stands before the first separator is the first part. -/
theorem split_append {s : String} {c : Char} (h : c ∉ s.toList) (rest : String) :
    split (s ++ String.singleton c ++ rest) c = s :: split rest c := by
  have hlist : (s ++ String.singleton c ++ rest).toList = s.toList ++ c :: rest.toList := by simp
  rw [split, hlist, List.splitOn_append_cons_self_of_not_mem h, List.map_cons, String.ofList_toList,
    split]

/-- A string without the separator is its own only part. -/
theorem split_eq_self {s : String} {c : Char} (h : c ∉ s.toList) : split s c = [s] := by
  rw [split, List.splitOn_eq_singleton h, List.map_cons, String.ofList_toList, List.map_nil]

theorem isWhitespace_of_isHex {c : Char} (h : isHex c = true) : isWhitespace c = false := by
  simp only [isHex, Bool.or_eq_true, Bool.and_eq_true, decide_eq_true_eq, Char.le_def,
    UInt32.le_iff_toNat_le] at h
  simp only [isWhitespace, Char.toNat]
  have h0 : ('0' : Char).val.toNat = 48 := rfl
  have h9 : ('9' : Char).val.toNat = 57 := rfl
  have ha : ('a' : Char).val.toNat = 97 := rfl
  have hf : ('f' : Char).val.toNat = 102 := rfl
  simp only [h0, h9, ha, hf] at h
  simp only [Bool.or_eq_false_iff, Bool.and_eq_false_iff, decide_eq_false_iff_not, beq_eq_false_iff_ne,
    ne_eq]
  omega

theorem isHex_hexDigit : ∀ n : Fin 16, isHex (hexDigit n) = true := by decide

theorem utf8Size_hexDigit : ∀ n : Fin 16, (hexDigit n).utf8Size = 1 := by decide

/-- Printing bytes in hex gives two digits for each byte. -/
theorem hexOfLength_hex (bytes : List UInt8) : hexOfLength (hex bytes) (2 * bytes.length) := by
  constructor
  · induction bytes with
    | nil => rfl
    | cons byte rest ih =>
      have hbyte : (String.ofList (hexByte byte)).utf8ByteSize = 2 := by
        simp [hexByte, String.ofList_cons, String.utf8ByteSize_singleton, utf8Size_hexDigit]
      rw [hex, List.flatMap_cons, String.ofList_append, String.utf8ByteSize_append, hbyte, ← hex, ih,
        List.length_cons]
      omega
  · simp only [hex, String.toList_ofList, List.all_flatMap, List.all_eq_true]
    intro byte _
    simp [hexByte, isHex_hexDigit]

/-! ## Lines and words -/

/-- A line without the carriage return in front of its end. -/
def stripReturn (line : List Char) : List Char :=
  if line.getLast? = some (Char.ofNat 13) then line.dropLast else line

/-- The lines of a text. What follows the last line end is one more if there is anything. -/
def lines (s : String) : List String :=
  let parts := s.toList.splitOn (Char.ofNat 10)
  let last := (parts.getLast?.filter (· ≠ [])).toList
  (parts.dropLast.map stripReturn ++ last).map String.ofList

/-- The parts of a text between white space. -/
def splitWhitespace (s : String) : List String :=
  ((s.toList.splitOnP isWhitespace).filter (· ≠ [])).map String.ofList

/-- A text from its end to its beginning. -/
def reversed (s : String) : String := String.ofList s.toList.reverse

/-- What stands before and after the last occurrence of a character. -/
def rsplitOnce (s : String) (c : Char) : Option (String × String) :=
  (splitOnce (reversed s) (· = c)).map fun (after, before) => (reversed before, reversed after)

/-- A line that ends as it should is the first line, and the rest has the others. -/
theorem lines_append {line : String} (hnewline : Char.ofNat 10 ∉ line.toList)
    (hreturn : Char.ofNat 13 ∉ line.toList) (rest : String) :
    lines (line ++ String.singleton (Char.ofNat 10) ++ rest) = line :: lines rest := by
  have hlist : (line ++ String.singleton (Char.ofNat 10) ++ rest).toList =
      line.toList ++ Char.ofNat 10 :: rest.toList := by simp
  have hstrip : stripReturn line.toList = line.toList :=
    if_neg fun hlast => hreturn (List.mem_of_getLast? hlast)
  have hne : rest.toList.splitOn (Char.ofNat 10) ≠ [] := List.splitOn_ne_nil _ _
  obtain ⟨part, parts, hparts⟩ := List.exists_cons_of_ne_nil hne
  rw [lines, hlist, List.splitOn_append_cons_self_of_not_mem hnewline, lines, hparts]
  show String.ofList (stripReturn line.toList) :: _ = _
  rw [hstrip, String.ofList_toList]
  rfl

/-- White space is where a text can be cut. -/
theorem splitWhitespace_append (s t : String) {c : Char} (h : isWhitespace c = true) :
    splitWhitespace (s ++ String.singleton c ++ t) = splitWhitespace s ++ splitWhitespace t := by
  have hlist : (s ++ String.singleton c ++ t).toList = s.toList ++ c :: t.toList := by simp
  rw [splitWhitespace, hlist, List.splitOnP_append_cons _ _ h, List.filter_append, List.map_append]
  rfl

/-- A text without white space is one word. -/
theorem splitWhitespace_eq_self {s : String} (hne : s ≠ "")
    (h : ∀ c ∈ s.toList, isWhitespace c = false) : splitWhitespace s = [s] := by
  have hlist : s.toList ≠ [] := fun hnil => hne (String.toList_eq_nil_iff.mp hnil)
  rw [splitWhitespace, List.splitOnP_eq_singleton h, List.filter_cons, if_pos (decide_eq_true hlist)]
  exact congrArg (fun word => [word]) String.ofList_toList

theorem splitOnce_eq_some {s before after : String} {c : Char} :
    splitOnce s (· = c) = some (before, after) ↔
      s.toList = before.toList ++ c :: after.toList ∧ c ∉ before.toList := by
  rw [splitOnce, List.span_eq_takeWhile_dropWhile]
  constructor
  · intro h
    have hparts := List.takeWhile_append_dropWhile (p := fun d => !decide (d = c)) (l := s.toList)
    have hhead := List.head?_dropWhile_not (fun d => !decide (d = c)) s.toList
    split at h
    · rename_i front sep back hspan
      obtain ⟨rfl, hdrop⟩ := Prod.mk.inj hspan
      obtain ⟨rfl, rfl⟩ := Prod.mk.inj (Option.some.inj h)
      rw [hdrop] at hparts hhead
      obtain rfl : sep = c := by simpa using hhead
      rw [String.toList_ofList, String.toList_ofList, hparts]
      refine ⟨rfl, fun hmem => ?_⟩
      have hnot := List.mem_takeWhile_imp hmem
      simp at hnot
    · cases h
  · rintro ⟨hs, hbefore⟩
    have hall : ∀ d ∈ before.toList, (!decide (d = c)) = true := by
      intro d hd
      simpa using fun h : d = c => hbefore (h ▸ hd)
    rw [hs, List.takeWhile_append_of_pos hall, List.dropWhile_append_of_pos hall]
    simp

theorem toList_reversed (s : String) : (reversed s).toList = s.toList.reverse :=
  String.toList_ofList

theorem reversed_reversed (s : String) : reversed (reversed s) = s := by
  rw [reversed, toList_reversed, List.reverse_reverse, String.ofList_toList]

/-- What is cut off behind the last occurrence has none. -/
theorem rsplitOnce_eq_some {s before after : String} {c : Char} :
    rsplitOnce s c = some (before, after) ↔
      s.toList = before.toList ++ c :: after.toList ∧ c ∉ after.toList := by
  have hcut : rsplitOnce s c = some (before, after) ↔
      splitOnce (reversed s) (· = c) = some (reversed after, reversed before) := by
    rw [rsplitOnce, Option.map_eq_some_iff]
    constructor
    · rintro ⟨⟨last, first⟩, hsplit, heq⟩
      obtain ⟨rfl, rfl⟩ := Prod.mk.inj heq
      rw [hsplit, reversed_reversed, reversed_reversed]
    · intro hsplit
      exact ⟨_, hsplit, Prod.ext (reversed_reversed before) (reversed_reversed after)⟩
  rw [hcut, splitOnce_eq_some, toList_reversed, toList_reversed, toList_reversed, List.mem_reverse,
    ← List.reverse_inj]
  simp

/-! ## Bytes -/

theorem bytes_append (s t : String) : bytes (s ++ t) = bytes s ++ bytes t := by
  simp [bytes, String.toByteArray_append, ByteArray.data_append]

theorem bytes_eq_flatMap (s : String) : bytes s = s.toList.flatMap String.utf8EncodeChar := by
  rw [bytes, ← String.utf8Encode_toList, List.utf8Encode, List.toList_data_toByteArray]

/-- The bytes of a string are that string. -/
theorem fromUtf8_bytes (s : String) : fromUtf8 (bytes s) = some s := by
  have harray : (bytes s).toByteArray = s.toByteArray := by
    apply ByteArray.ext
    rw [← Array.toList_inj, List.toList_data_toByteArray, bytes]
  have hvalid : s.toByteArray.IsValidUTF8 := s.isValidUTF8
  rw [fromUtf8, harray, String.fromUTF8?, dif_pos hvalid]
  rfl

theorem bytes_injective : Function.Injective bytes := by
  intro first second h
  have hread := congrArg fromUtf8 h
  rw [fromUtf8_bytes, fromUtf8_bytes] at hread
  exact Option.some.inj hread

/-- Only the bytes of a string are that string. -/
theorem fromUtf8_eq_some {b : List UInt8} {s : String} : fromUtf8 b = some s ↔ b = bytes s := by
  constructor
  · intro h
    rw [fromUtf8, String.fromUTF8?] at h
    split at h
    · obtain rfl := Option.some.inj h
      simp [bytes, String.fromUTF8]
    · nomatch h
  · rintro rfl
    exact fromUtf8_bytes s

/-- A byte with its top bit set is none of ASCII. -/
theorem or_ne_newline (b : UInt8) {mask : UInt8} (h : mask.toBitVec[7] = true) :
    b ||| mask ≠ 10 := by
  intro heq
  have hbit := congrArg (fun byte : UInt8 => byte.toBitVec[7]) heq
  simp [h] at hbit

/-- Only the newline itself has its byte in it. -/
theorem eq_newline_of_mem {c : Char} (h : 10 ∈ String.utf8EncodeChar c) : c = Char.ofNat 10 := by
  rcases c.utf8Size_eq with hsize | hsize | hsize | hsize
  · rw [String.utf8EncodeChar_eq_singleton hsize, List.mem_singleton] at h
    rw [Char.utf8Size_eq_one_iff, UInt32.le_iff_toNat_le] at hsize
    have hval : c.val.toNat % 256 = 10 := by
      rw [← UInt32.toNat_toUInt8, ← h]
      rfl
    have hten : c.val.toNat = 10 := by
      have hbound : (127 : UInt32).toNat = 127 := rfl
      omega
    apply Char.ext
    apply UInt32.toNat_inj.mp
    rw [hten]
    rfl
  · rw [String.utf8EncodeChar_eq_cons_cons hsize] at h
    simp only [List.mem_cons, List.not_mem_nil, or_false] at h
    rcases h with h | h <;> exact absurd h.symm (or_ne_newline _ rfl)
  · rw [String.utf8EncodeChar_eq_cons_cons_cons hsize] at h
    simp only [List.mem_cons, List.not_mem_nil, or_false] at h
    rcases h with h | h | h <;> exact absurd h.symm (or_ne_newline _ rfl)
  · rw [String.utf8EncodeChar_eq_cons_cons_cons_cons hsize] at h
    simp only [List.mem_cons, List.not_mem_nil, or_false] at h
    rcases h with h | h | h | h <;> exact absurd h.symm (or_ne_newline _ rfl)

/-- A string without a newline has no byte of one. -/
theorem newline_notMem_bytes {s : String} (h : Char.ofNat 10 ∉ s.toList) : 10 ∉ bytes s := by
  intro hmem
  rw [bytes_eq_flatMap, List.mem_flatMap] at hmem
  obtain ⟨c, hc, hbyte⟩ := hmem
  exact h (eq_newline_of_mem hbyte ▸ hc)

/-! ## ASCII -/

/-- A text of ASCII. -/
def IsAscii (s : String) : Prop := ∀ c ∈ s.toList, c.toNat < 128

theorem IsAscii.append {s t : String} (hs : IsAscii s) (ht : IsAscii t) : IsAscii (s ++ t) := by
  intro c hc
  rw [String.toList_append] at hc
  exact (List.mem_append.mp hc).elim (hs c) (ht c)

theorem utf8EncodeChar_of_lt {c : Char} (h : c.toNat < 128) :
    String.utf8EncodeChar c = [UInt8.ofNat c.toNat] := by
  have hsize : c.utf8Size = 1 := Char.utf8Size_eq_one_iff.mpr (UInt32.le_iff_toNat_le.mpr (Nat.le_of_lt_succ h))
  rw [String.utf8EncodeChar_eq_singleton hsize]
  rfl

/-- One byte for each character. -/
theorem bytes_of_ascii {s : String} (h : IsAscii s) :
    bytes s = s.toList.map fun c => UInt8.ofNat c.toNat := by
  rw [bytes_eq_flatMap, List.map_eq_flatMap]
  exact List.flatMap_congr fun c hc => utf8EncodeChar_of_lt (h c hc)

theorem length_bytes_of_ascii {s : String} (h : IsAscii s) : (bytes s).length = s.toList.length := by
  rw [bytes_of_ascii h, List.length_map]

theorem mem_bytes_of_ascii {s : String} (h : IsAscii s) {c : Char} (hc : c.toNat < 128) :
    UInt8.ofNat c.toNat ∈ bytes s ↔ c ∈ s.toList := by
  rw [bytes_of_ascii h, List.mem_map]
  constructor
  · rintro ⟨other, hother, heq⟩
    have hvalue := congrArg UInt8.toNat heq
    have hlow := h other hother
    rw [UInt8.toNat_ofNat', UInt8.toNat_ofNat', Nat.mod_eq_of_lt (by omega), Nat.mod_eq_of_lt (by omega)]
      at hvalue
    have hsame : other = c := Char.ext (UInt32.toNat_inj.mp hvalue)
    exact hsame ▸ hother
  · exact fun hmem => ⟨c, hmem, rfl⟩

end EkEk.Text
