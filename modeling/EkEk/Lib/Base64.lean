import Mathlib.Data.List.Basic
import Mathlib.Data.UInt

/-!
# Bytes by six bits

Bytes are taken three at a time, as four groups of six bits; what is missing of the last group is zero. With
a letter for each group and a sign in the place of each group that is missing, this is the encoding of RFC
4648. `bytes_sextets` is the way back.
-/

namespace Base64

/-- The groups of six bits of some bytes. -/
def sextets : List UInt8 → List ℕ
  | a :: b :: c :: rest =>
    a.toNat / 4 :: (a.toNat % 4 * 16 + b.toNat / 16) :: (b.toNat % 16 * 4 + c.toNat / 64) ::
      c.toNat % 64 :: sextets rest
  | [a, b] => [a.toNat / 4, a.toNat % 4 * 16 + b.toNat / 16, b.toNat % 16 * 4]
  | [a] => [a.toNat / 4, a.toNat % 4 * 16]
  | [] => []

/-- The bytes of some groups. -/
def bytes : List ℕ → List UInt8
  | p :: q :: r :: s :: rest =>
    UInt8.ofNat (p * 4 + q / 16) :: UInt8.ofNat (q % 16 * 16 + r / 4) :: UInt8.ofNat (r % 4 * 64 + s) ::
      bytes rest
  | [p, q, r] => [UInt8.ofNat (p * 4 + q / 16), UInt8.ofNat (q % 16 * 16 + r / 4)]
  | [p, q] => [UInt8.ofNat (p * 4 + q / 16)]
  | _ => []

theorem sextets_lt (text : List UInt8) : ∀ n ∈ sextets text, n < 64 := by
  induction text using sextets.induct with
  | case1 a b c rest ih =>
    have ha := a.toNat_lt
    have hb := b.toNat_lt
    have hc := c.toNat_lt
    simp only [sextets, List.forall_mem_cons]
    exact ⟨by omega, by omega, by omega, by omega, ih⟩
  | case2 a b =>
    have ha := a.toNat_lt
    have hb := b.toNat_lt
    simp only [sextets, List.forall_mem_cons]
    exact ⟨by omega, by omega, by omega, by simp⟩
  | case3 a =>
    have ha := a.toNat_lt
    simp only [sextets, List.forall_mem_cons]
    exact ⟨by omega, by omega, by simp⟩
  | case4 => simp [sextets]

/-- A byte lies in two groups, or three bytes in four. -/
theorem first_byte (a : UInt8) {n : ℕ} (h : n < 16) :
    UInt8.ofNat (a.toNat / 4 * 4 + (a.toNat % 4 * 16 + n) / 16) = a := by
  rw [show a.toNat / 4 * 4 + (a.toNat % 4 * 16 + n) / 16 = a.toNat by omega, UInt8.ofNat_toNat]

theorem second_byte (m : ℕ) (b : UInt8) {n : ℕ} (h : n < 4) :
    UInt8.ofNat ((m * 16 + b.toNat / 16) % 16 * 16 + (b.toNat % 16 * 4 + n) / 4) = b := by
  have hb := b.toNat_lt
  rw [show (m * 16 + b.toNat / 16) % 16 * 16 + (b.toNat % 16 * 4 + n) / 4 = b.toNat by omega,
    UInt8.ofNat_toNat]

theorem third_byte (m : ℕ) (c : UInt8) :
    UInt8.ofNat ((m * 4 + c.toNat / 64) % 4 * 64 + c.toNat % 64) = c := by
  have hc := c.toNat_lt
  rw [show (m * 4 + c.toNat / 64) % 4 * 64 + c.toNat % 64 = c.toNat by omega, UInt8.ofNat_toNat]

/-- The bytes come back from their groups. -/
theorem bytes_sextets (text : List UInt8) : bytes (sextets text) = text := by
  induction text using sextets.induct with
  | case1 a b c rest ih =>
    have hb := b.toNat_lt
    have hc := c.toNat_lt
    rw [sextets, bytes, ih, first_byte a (by omega), second_byte _ b (by omega), third_byte]
  | case2 a b =>
    have hb := b.toNat_lt
    have hsecond := second_byte (a.toNat % 4) b (Nat.zero_lt_succ 3)
    rw [Nat.add_zero] at hsecond
    rw [sextets, bytes, first_byte a (by omega), hsecond]
  | case3 a =>
    have hfirst := first_byte a (Nat.zero_lt_succ 15)
    rw [Nat.add_zero] at hfirst
    rw [sextets, bytes, hfirst]
  | case4 => rfl

/-! ## Letters -/

/-- The letters of the standard alphabet. -/
def standard : List Char := "ABCDEFGHIJKLMNOPQRSTUVWXYZabcdefghijklmnopqrstuvwxyz0123456789+/".toList

/-- The letter of a group. -/
def letter (alphabet : List Char) (n : ℕ) : Char := alphabet.getD n '='

/-- The group of a letter. -/
def groupOf (alphabet : List Char) (c : Char) : Option ℕ := alphabet.findIdx? (· = c)

/-- Bytes in letters, four for every three bytes begun. -/
def encode (text : List UInt8) : List Char :=
  (sextets text).map (letter standard) ++ List.replicate ((3 - text.length % 3) % 3) '='

/-- The bytes of letters without padding. -/
def decode (alphabet : List Char) (letters : List Char) : Option (List UInt8) :=
  (letters.mapM (groupOf alphabet)).map bytes

/-- Letters that are read as the groups they are for give the bytes back. -/
theorem decode_letters {alphabet : List Char} (h : ∀ n < 64, groupOf alphabet (letter alphabet n) = some n)
    (text : List UInt8) : decode alphabet ((sextets text).map (letter alphabet)) = some text := by
  have hall : ∀ groups : List ℕ, (∀ n ∈ groups, n < 64) →
      (groups.map (letter alphabet)).mapM (groupOf alphabet) = some groups := by
    intro groups hgroups
    induction groups with
    | nil => rfl
    | cons n groups ih =>
      obtain ⟨hn, hrest⟩ := List.forall_mem_cons.mp hgroups
      rw [List.map_cons, List.mapM_cons, h n hn, ih hrest]
      rfl
  rw [decode, hall _ (sextets_lt text), Option.map_some, bytes_sextets]

end Base64
