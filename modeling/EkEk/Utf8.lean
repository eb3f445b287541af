import EkEk.Text

/-!
# Text that may not be UTF-8

`fromUtf8Lossy` is `String::from_utf8_lossy`: every longest stretch of bytes that could have begun a
character and did not become one is read as the replacement character.
-/

namespace EkEk.Text

/-- What some bytes begin with, if it is a character. -/
def decodeChar (bytes : List UInt8) : Option Char := ByteArray.utf8DecodeChar? bytes.toByteArray 0

/-- How many bytes follow the first one of a character, and between which two the next one lies. -/
def followers (first : UInt8) : ℕ × UInt8 × UInt8 :=
  if first < 0xC2 then (0, 0x80, 0xBF)
  else if first ≤ 0xDF then (1, 0x80, 0xBF)
  else if first = 0xE0 then (2, 0xA0, 0xBF)
  else if first = 0xED then (2, 0x80, 0x9F)
  else if first ≤ 0xEF then (2, 0x80, 0xBF)
  else if first = 0xF0 then (3, 0x90, 0xBF)
  else if first ≤ 0xF3 then (3, 0x80, 0xBF)
  else if first = 0xF4 then (3, 0x80, 0x8F)
  else (0, 0x80, 0xBF)

/-- How many of the bytes can follow. -/
def following : ℕ × UInt8 × UInt8 → List UInt8 → ℕ
  | (count + 1, low, high), byte :: rest =>
    if low ≤ byte ∧ byte ≤ high then following (count, 0x80, 0xBF) rest + 1 else 0
  | _, _ => 0

/-- The characters of some bytes. -/
def lossy : ℕ → List UInt8 → List Char
  | fuel + 1, first :: rest =>
    match decodeChar (first :: rest) with
    | some c => c :: lossy fuel ((first :: rest).drop c.utf8Size)
    | none => Char.ofNat 0xFFFD :: lossy fuel (rest.drop (following (followers first) rest))
  | _, _ => []

def fromUtf8Lossy (bytes : List UInt8) : String := String.ofList (lossy bytes.length bytes)

theorem decodeChar_append (c : Char) (rest : List UInt8) :
    decodeChar (String.utf8EncodeChar c ++ rest) = some c := by
  rw [decodeChar, List.toByteArray_append]
  exact ByteArray.utf8DecodeChar?_utf8EncodeChar_append

theorem lossy_bytes (chars : List Char) {fuel : ℕ}
    (hfuel : (chars.flatMap String.utf8EncodeChar).length ≤ fuel) :
    lossy fuel (chars.flatMap String.utf8EncodeChar) = chars := by
  induction chars generalizing fuel with
  | nil => cases fuel <;> rfl
  | cons c chars ih =>
    rw [List.flatMap_cons] at hfuel ⊢
    have hlength : (String.utf8EncodeChar c).length = c.utf8Size := String.length_utf8EncodeChar c
    have hpos := c.utf8Size_pos
    obtain ⟨first, others, hbytes⟩ := List.exists_cons_of_length_pos (hlength ▸ hpos)
    rw [List.length_append] at hfuel
    obtain ⟨fuel, rfl⟩ := Nat.exists_eq_succ_of_ne_zero (by omega : fuel ≠ 0)
    have hdecoded := decodeChar_append c (chars.flatMap String.utf8EncodeChar)
    have hdrop : (String.utf8EncodeChar c ++ chars.flatMap String.utf8EncodeChar).drop c.utf8Size =
        chars.flatMap String.utf8EncodeChar := by rw [← hlength, List.drop_left]
    rw [hbytes, List.cons_append] at hdecoded hdrop ⊢
    rw [lossy, hdecoded]
    dsimp only
    rw [hdrop, ih (by omega)]

/-- The bytes of a string are read as it. -/
theorem fromUtf8Lossy_bytes (s : String) : fromUtf8Lossy (bytes s) = s := by
  rw [fromUtf8Lossy, bytes_eq_flatMap, lossy_bytes _ le_rfl, String.ofList_toList]

example : fromUtf8Lossy [0x61, 0xE2, 0x82, 0x41, 0xED, 0xA0, 0x80, 0xC3, 0xA9] =
    "a\uFFFDA\uFFFD\uFFFD\uFFFDé" := by decide +kernel

/-- Characters whose bytes are the first of the bytes of others are the first of those. -/
theorem prefix_of_flatMap {chars others : List Char} {more : List UInt8}
    (h : chars.flatMap String.utf8EncodeChar ++ more = others.flatMap String.utf8EncodeChar) : chars <+: others := by
  induction chars generalizing others with
  | nil => exact List.nil_prefix
  | cons c chars ih =>
    rw [List.flatMap_cons, List.append_assoc] at h
    have hfirst := decodeChar_append c (chars.flatMap String.utf8EncodeChar ++ more)
    cases others with
    | nil =>
      have hnone : decodeChar [] = none := by decide
      rw [h, List.flatMap_nil, hnone] at hfirst
      cases hfirst
    | cons d others =>
      rw [List.flatMap_cons] at h
      rw [h, decodeChar_append] at hfirst
      obtain rfl := Option.some.inj hfirst
      exact List.cons_prefix_cons.mpr ⟨rfl, ih (List.append_cancel_left h)⟩

end EkEk.Text
