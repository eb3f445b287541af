import EkEk.Config.Validation
import EkEk.Lib.Checked
import EkEk.Text
import Mathlib.Tactic.IntervalCases

/-!
# The data of a probe

Reference: `payload` of `crates/ek-ek-dataplane/src/probe.rs`.

What a probe sends and expects is text, or bytes written out in hex. The hex is decoded where the probe
runs: white space is dropped, and every two bytes of what is left are read as one number. Cutting a
string inside a character is a panic, which ends the process.

`decodes_iff` says what is decoded to the bytes it spells: pairs of hex digits. No check of a document
looks at the data of a probe.
-/

namespace EkEk.Dataplane

open Checked

/-- How decoding ends where it does not succeed. -/
inductive Broken where
  | error (reason : String)
  | panic
deriving DecidableEq, Repr

/-! ## Strings, by their bytes -/

/-- How many bytes a string has. -/
def utf8Length (text : List Char) : ℕ := (text.map Char.utf8Size).sum

/-- A string before and behind so many bytes, if they end with a character. -/
def splitAtByte : List Char → ℕ → Option (List Char × List Char)
  | text, 0 => some ([], text)
  | [], _ + 1 => none
  | c :: rest, n + 1 =>
    if c.utf8Size ≤ n + 1 then
      (splitAtByte rest (n + 1 - c.utf8Size)).map fun split => (c :: split.1, split.2)
    else none

/-- The part of a string between two of its bytes. It panics where one of them is inside a
character. -/
def sliceBytes (text : List Char) (start stop : ℕ) : Except Broken (List Char) := do
  let (_, behind) ← found (splitAtByte text start) .panic
  let (taken, _) ← found (splitAtByte behind (stop - start)) .panic
  .ok taken

/-- The value of a hex digit. -/
def toDigit (c : Char) : Option ℕ :=
  if '0' ≤ c ∧ c ≤ '9' then some (c.toNat - 48)
  else if 'a' ≤ c ∧ c ≤ 'f' then some (c.toNat - 87)
  else if 'A' ≤ c ∧ c ≤ 'F' then some (c.toNat - 55)
  else none

/-- The number some digits spell, as long as it is a byte. -/
def fromDigits (digits : List Char) : Option ℕ :=
  digits.foldlM (fun value c => do
    let digit ← toDigit c
    if value * 16 + digit < 256 then some (value * 16 + digit) else none) 0

/-- Read a byte in hex. A sign in front of the digits is read over. -/
def fromStrRadix : List Char → Option UInt8
  | [] => none
  | ['+'] => none
  -- a sign counts as one of the two digits of a byte
  | '+' :: digits => (fromDigits digits).map UInt8.ofNat
  | digits => (fromDigits digits).map UInt8.ofNat

/-! ## Decoding -/

/-- Hex data without its white space. -/
def cleaned (digits : String) : List Char :=
  digits.toList.filter fun c => ¬ Text.isWhitespace c

/-- One byte of hex data. -/
def pairAt (text : List Char) (position : ℕ) : Except Broken UInt8 := do
  let pair ← sliceBytes text position (position + 2)
  found (fromStrRadix pair) (.error "hex data has a digit that is not hex")

/-- Decode the data of a probe into the bytes that go on the wire. -/
def payload : ProbePayload → Except Broken (List UInt8)
  | .text text => .ok (Text.bytes text)
  | .hex digits =>
    let text := cleaned digits
    if utf8Length text % 2 ≠ 0 then .error (.error "hex data has an odd number of digits")
    else (List.range (utf8Length text / 2)).mapM fun i => pairAt text (2 * i)

/-- Data that is decoded, hex data to the bytes it spells: two digits for every byte, white space and
the case of letters aside. -/
def Decodes (data : ProbePayload) : Prop :=
  ∃ bytes, payload data = .ok bytes ∧
    ∀ digits, data = .hex digits → Text.hex bytes = String.ofList ((cleaned digits).map Char.toLower)

/-- Data that is text, or hex digits in pairs. -/
def Spelled : ProbePayload → Prop
  | .text _ => True
  | .hex digits => (∀ c ∈ cleaned digits, Validation.isAsciiHexdigit c) ∧ 2 ∣ (cleaned digits).length

/-! ## Digits -/

/-- The hex digits, one by one. -/
def hexDigits : List Char := "0123456789abcdefABCDEF".toList

theorem mem_hexDigits {c : Char} (h : Validation.isAsciiHexdigit c = true) : c ∈ hexDigits := by
  have hchar : c = Char.ofNat c.toNat := (Char.ofNat_toNat c).symm
  simp only [Validation.isAsciiHexdigit, Bool.or_eq_true, Bool.and_eq_true, decide_eq_true_eq,
    Char.le_def, UInt32.le_iff_toNat_le] at h
  have hnat : c.val.toNat = c.toNat := rfl
  rw [hnat] at h
  generalize c.toNat = n at h hchar
  subst hchar
  rcases h with (⟨hlow, hhigh⟩ | ⟨hlow, hhigh⟩) | ⟨hlow, hhigh⟩
  · change 48 ≤ n at hlow
    change n ≤ 57 at hhigh
    interval_cases n <;> decide
  · change 97 ≤ n at hlow
    change n ≤ 102 at hhigh
    interval_cases n <;> decide
  · change 65 ≤ n at hlow
    change n ≤ 70 at hhigh
    interval_cases n <;> decide

theorem utf8Size_of_mem_hexDigits : ∀ c ∈ hexDigits, c.utf8Size = 1 := by
  have hall : hexDigits.all (fun c => c.utf8Size == 1) = true := by decide
  exact fun c hc => eq_of_beq (List.all_eq_true.mp hall c hc)

theorem toDigit_of_mem_hexDigits : ∀ c ∈ hexDigits, c ≠ '+' ∧
    ∃ d : Fin 16, toDigit c = some d.val ∧ Text.hexDigit d = c.toLower := by
  have hall : hexDigits.all (fun c => decide (c ≠ '+' ∧
      ∃ d : Fin 16, toDigit c = some d.val ∧ Text.hexDigit d = c.toLower)) = true := by decide
  exact fun c hc => of_decide_eq_true (List.all_eq_true.mp hall c hc)

/-- Two digits are read as the byte they are printed for. -/
theorem fromStrRadix_pair {a b : Char} (ha : a ∈ hexDigits) (hb : b ∈ hexDigits) :
    ∃ byte, fromStrRadix [a, b] = some byte ∧ Text.hexByte byte = [a.toLower, b.toLower] := by
  obtain ⟨hplus, high, hhigh, hhighPrinted⟩ := toDigit_of_mem_hexDigits a ha
  obtain ⟨-, low, hlow, hlowPrinted⟩ := toDigit_of_mem_hexDigits b hb
  have hfirst : 0 * 16 + (high : ℕ) < 256 := by omega
  have hsecond : (0 * 16 + (high : ℕ)) * 16 + (low : ℕ) < 256 := by omega
  have hdigits : fromDigits [a, b] = some ((0 * 16 + (high : ℕ)) * 16 + low) := by
    simp only [fromDigits, List.foldlM_cons, List.foldlM_nil, hhigh, hlow, Option.bind_eq_bind,
      Option.bind_some, if_pos hfirst, if_pos hsecond]
    rfl
  have hbyte : (UInt8.ofNat ((0 * 16 + (high : ℕ)) * 16 + low)).toNat = high * 16 + low := by
    rw [UInt8.toNat_ofNat_of_lt' hsecond]
    omega
  refine ⟨UInt8.ofNat ((0 * 16 + (high : ℕ)) * 16 + low), ?_, ?_⟩
  · rw [fromStrRadix, hdigits]
    · rfl
    · nofun
    · exact fun h => hplus (List.cons.inj h).1
    · exact fun _ h => hplus (List.cons.inj h).1
  · have hdiv : (high * 16 + low : ℕ) / 16 = high := by omega
    have hmod : (high * 16 + low : ℕ) % 16 = low := by omega
    simp only [Text.hexByte, hbyte, hdiv, hmod, Fin.eta, hhighPrinted, hlowPrinted]

theorem toNat_toLower (c : Char) :
    c.toLower.toNat = if 65 ≤ c.toNat ∧ c.toNat ≤ 90 then c.toNat + 32 else c.toNat := by
  have hval : c.val.toNat = c.toNat := rfl
  have hbounds : (c.val ≥ 'A'.val ∧ c.val ≤ 'Z'.val) ↔ 65 ≤ c.toNat ∧ c.toNat ≤ 90 := by
    simp only [ge_iff_le, UInt32.le_iff_toNat_le, hval]
    exact Iff.rfl
  by_cases hupper : c.val ≥ 'A'.val ∧ c.val ≤ 'Z'.val
  · have hlower : c.toLower.val = c.val + ('a'.val - 'A'.val) := congrArg Char.val (dif_pos hupper)
    have hshift : ('a'.val - 'A'.val).toNat = 32 := rfl
    have hbound := (hbounds.mp hupper).2
    rw [if_pos (hbounds.mp hupper)]
    show c.toLower.val.toNat = c.toNat + 32
    rw [hlower, UInt32.toNat_add, hshift, hval]
    omega
  · have hlower : c.toLower = c := dif_neg hupper
    rw [hlower, if_neg (mt hbounds.mpr hupper)]

/-- Only hex digits have hex digits for their lower case. -/
theorem isAsciiHexdigit_of_toLower {c : Char} (h : Text.isHex c.toLower = true) :
    Validation.isAsciiHexdigit c = true := by
  simp only [Text.isHex, Validation.isAsciiHexdigit, Bool.or_eq_true, Bool.and_eq_true,
    decide_eq_true_eq, Char.le_def, UInt32.le_iff_toNat_le] at h ⊢
  have hlower : c.toLower.val.toNat = c.toLower.toNat := rfl
  have hval : c.val.toNat = c.toNat := rfl
  rw [hlower, toNat_toLower] at h
  rw [hval]
  change (48 ≤ _ ∧ _ ≤ 57) ∨ (97 ≤ _ ∧ _ ≤ 102) at h
  show ((48 ≤ c.toNat ∧ c.toNat ≤ 57) ∨ (97 ≤ c.toNat ∧ c.toNat ≤ 102)) ∨
    (65 ≤ c.toNat ∧ c.toNat ≤ 70)
  split at h <;> omega

/-! ## What is decoded -/

section

variable {text : List Char}

theorem utf8Length_cons {c : Char} (h : c.utf8Size = 1) (text : List Char) :
    utf8Length (c :: text) = utf8Length text + 1 := by
  rw [utf8Length, List.map_cons, List.sum_cons, h, Nat.add_comm]
  rfl

theorem splitAtByte_cons {c : Char} (h : c.utf8Size = 1) (text : List Char) (n : ℕ) :
    splitAtByte (c :: text) (n + 1) =
      (splitAtByte text n).map fun split => (c :: split.1, split.2) := by
  rw [splitAtByte, h, if_pos (Nat.le_add_left 1 n), Nat.add_sub_cancel]

/-- Behind two characters of one byte each, a string is read as if they were not there. -/
theorem pairAt_cons {a b : Char} (ha : a.utf8Size = 1) (hb : b.utf8Size = 1) (text : List Char)
    (position : ℕ) : pairAt (a :: b :: text) (position + 2) = pairAt text position := by
  have hsplit : splitAtByte (a :: b :: text) (position + 2) =
      (splitAtByte text position).map fun split => (a :: b :: split.1, split.2) := by
    rw [splitAtByte_cons ha, splitAtByte_cons hb, Option.map_map]
    rfl
  have hwidth : position + 2 + 2 - (position + 2) = position + 2 - position := by omega
  simp only [pairAt, sliceBytes, hsplit, hwidth]
  cases splitAtByte text position <;> rfl

/-- Pairs of hex digits are decoded to the bytes they spell. -/
theorem pairs_decode (hdigits : ∀ c ∈ text, Validation.isAsciiHexdigit c)
    (heven : 2 ∣ text.length) :
    utf8Length text = text.length ∧
      ∃ bytes, (List.range (text.length / 2)).mapM (fun i => pairAt text (2 * i)) = .ok bytes ∧
        bytes.flatMap Text.hexByte = text.map Char.toLower := by
  induction text using List.twoStepInduction with
  | nil => exact ⟨rfl, [], rfl, rfl⟩
  | singleton c =>
    rw [List.length_singleton] at heven
    omega
  | cons_cons a b text ih _ =>
    -- digits have one byte each, so positions in bytes are positions in characters
    have ha := mem_hexDigits (hdigits a List.mem_cons_self)
    have hb := mem_hexDigits (hdigits b (List.mem_cons_of_mem _ List.mem_cons_self))
    have hsizeA := utf8Size_of_mem_hexDigits a ha
    have hsizeB := utf8Size_of_mem_hexDigits b hb
    have hrest : 2 ∣ text.length := by
      rw [List.length_cons, List.length_cons] at heven
      omega
    obtain ⟨hlength, bytes, hbytes, hprinted⟩ := ih
      (fun c hc => hdigits c (List.mem_cons_of_mem _ (List.mem_cons_of_mem _ hc))) hrest
    obtain ⟨byte, hbyte, hbytePrinted⟩ := fromStrRadix_pair ha hb
    have hfirst : pairAt (a :: b :: text) (2 * 0) = .ok byte := by
      have hsplit : splitAtByte (a :: b :: text) 2 = some ([a, b], text) := by
        rw [splitAtByte_cons hsizeA, splitAtByte_cons hsizeB, splitAtByte]
        rfl
      have hstart : splitAtByte (a :: b :: text) 0 = some ([], a :: b :: text) := by
        rw [splitAtByte]
      simp only [pairAt, sliceBytes, Nat.mul_zero, hstart, Nat.zero_add, Nat.sub_zero, hsplit,
        found_some, ok_bind, hbyte]
    have hlater : ∀ i, pairAt (a :: b :: text) (2 * (i + 1)) = pairAt text (2 * i) :=
      fun i => pairAt_cons hsizeA hsizeB text (2 * i)
    have hcount : (a :: b :: text).length / 2 = text.length / 2 + 1 := by
      rw [List.length_cons, List.length_cons]
      omega
    refine ⟨?_, byte :: bytes, ?_, ?_⟩
    · rw [utf8Length_cons hsizeA, utf8Length_cons hsizeB, hlength]
      rfl
    · rw [hcount, List.range_succ_eq_map, List.mapM_cons, hfirst, ok_bind, List.mapM_map]
      simp only [Function.comp_def, hlater, hbytes, ok_bind]
      rfl
    · rw [List.flatMap_cons, hbytePrinted, hprinted]
      rfl

end

/-- Data is decoded to the bytes it spells exactly when it is text or pairs of hex digits. -/
theorem decodes_iff (data : ProbePayload) : Decodes data ↔ Spelled data := by
  cases data with
  | text text => exact iff_of_true ⟨Text.bytes text, rfl, nofun⟩ trivial
  | hex digits =>
    constructor
    · rintro ⟨bytes, hpayload, hspelled⟩
      have hprinted := hspelled digits rfl
      -- bytes are printed in hex digits, two for each of them
      obtain ⟨hsize, hhex⟩ := Text.hexOfLength_hex bytes
      rw [hprinted, String.toList_ofList, List.all_map, List.all_eq_true] at hhex
      have hdigits : ∀ c ∈ cleaned digits, Validation.isAsciiHexdigit c :=
        fun c hc => isAsciiHexdigit_of_toLower (hhex c hc)
      refine ⟨hdigits, bytes.length, ?_⟩
      have hlist : bytes.flatMap Text.hexByte = (cleaned digits).map Char.toLower :=
        String.ofList_injective hprinted
      have hlength := congrArg List.length hlist
      have hpairs : (bytes.flatMap Text.hexByte).length = 2 * bytes.length := by
        rw [List.length_flatMap]
        simp [Text.hexByte, Nat.mul_comm]
      rw [hpairs, List.length_map] at hlength
      exact hlength.symm
    · rintro ⟨hdigits, heven⟩
      obtain ⟨hlength, bytes, hbytes, hprinted⟩ := pairs_decode hdigits heven
      refine ⟨bytes, ?_, ?_⟩
      · rw [payload, hlength, if_neg (by omega)]
        exact hbytes
      · rintro _ ⟨⟩
        rw [Text.hex, hprinted]

/-- What a document probes with: the data of every probe that sends something and waits for an
answer. -/
def probed (config : Config) : List ProbePayload :=
  config.backends.flatMap fun backend =>
    match backend.healthCheck.map HealthCheck.probe with
    | some (.sendExpect send expect _) => [send, expect]
    | _ => []

/-- Every probe of a document can be sent and compared as it was written exactly when its data is text
or pairs of hex digits. -/
theorem probes_decode_iff (config : Config) :
    (∀ data ∈ probed config, Decodes data) ↔ ∀ data ∈ probed config, Spelled data :=
  forall₂_congr fun data _ => decodes_iff data

/-- A document with one pool whose probe sends hex data. -/
def sending (digits : String) : Config :=
  { Config.empty with
    backends := [{
      id := ⟨"pool"⟩
      members := [⟨⟨"one"⟩, .v4 ⟨10, 0, 0, 1⟩, 80, 1, .enabled⟩]
      algorithm := .roundRobin
      healthCheck := some ⟨.sendExpect (.hex digits) (.text "") .tcp, 1000, 1000, 1, 1⟩
      stickiness := .disabled
      connectionPooling := .enabled
      connectionPoolSize := 0
      connectionLifetimeSeconds := 0 }] }

/-- A letter of two bytes between two digits is cut in half, in a document that is accepted. -/
theorem sending_panics : Validation.validate (sending "1é2") = .ok () ∧
    ProbePayload.hex "1é2" ∈ probed (sending "1é2") ∧ payload (.hex "1é2") = .error .panic := by
  refine ⟨?_, List.mem_cons_self, by decide⟩
  decide

end EkEk.Dataplane
