import Mathlib.Data.List.Induction
import Mathlib.Tactic.Ring

/-!
# Numbers in the byte order of a machine

A machine keeps the bytes of a number with the low one first or with the high one first. What is written
in one order is read back in the same.
-/

/-- The two byte orders. -/
inductive ByteOrder where
  | little
  | big
deriving DecidableEq, Repr

namespace ByteOrder

/-- The last bytes of a number, the high one first. -/
def bigEndian : ℕ → ℕ → List UInt8
  | 0, _ => []
  | width + 1, n => bigEndian width (n / 256) ++ [UInt8.ofNat (n % 256)]

/-- The number some bytes are, the high one first. -/
def value (bytes : List UInt8) : ℕ := bytes.foldl (fun n byte => n * 256 + byte.toNat) 0

/-- The bytes of a number in the order of the machine. -/
def toBytes (order : ByteOrder) (width n : ℕ) : List UInt8 :=
  match order with
  | little => (bigEndian width n).reverse
  | big => bigEndian width n

/-- The number some bytes in the order of the machine are. -/
def ofBytes (order : ByteOrder) (bytes : List UInt8) : ℕ :=
  match order with
  | little => value bytes.reverse
  | big => value bytes

theorem length_bigEndian (width n : ℕ) : (bigEndian width n).length = width := by
  induction width generalizing n with
  | zero => rfl
  | succ width ih => rw [bigEndian, List.length_append, ih, List.length_singleton]

@[simp] theorem length_toBytes (order : ByteOrder) (width n : ℕ) :
    (order.toBytes width n).length = width := by
  cases order with
  | little => rw [toBytes, List.length_reverse, length_bigEndian]
  | big => exact length_bigEndian width n

/-- The byte that comes last counts once. -/
theorem value_append (front : List UInt8) (last : UInt8) :
    value (front ++ [last]) = value front * 256 + last.toNat := by
  rw [value, List.foldl_append]
  rfl

/-- A number that fits is read back from its bytes. -/
theorem value_bigEndian {width n : ℕ} (h : n < 256 ^ width) : value (bigEndian width n) = n := by
  induction width generalizing n with
  | zero =>
    rw [Nat.lt_one_iff.mp h]
    rfl
  | succ width ih =>
    have hless : n / 256 < 256 ^ width := by
      rw [Nat.div_lt_iff_lt_mul (by decide), ← pow_succ]
      exact h
    have hlow : (UInt8.ofNat (n % 256)).toNat = n % 256 :=
      UInt8.toNat_ofNat_of_lt' (Nat.mod_lt _ (by decide))
    rw [bigEndian, value_append, ih hless, hlow]
    omega

/-- Only the last bytes of a number are written. -/
theorem bigEndian_mod (width n : ℕ) : bigEndian width (n % 256 ^ width) = bigEndian width n := by
  induction width generalizing n with
  | zero => rfl
  | succ width ih =>
    have hhigh : n % 256 ^ (width + 1) / 256 = n / 256 % 256 ^ width := by
      rw [pow_succ', Nat.mod_mul_right_div_self]
    have hlow : n % 256 ^ (width + 1) % 256 = n % 256 :=
      Nat.mod_mod_of_dvd n ⟨256 ^ width, pow_succ' 256 width⟩
    rw [bigEndian, bigEndian, hhigh, hlow, ih]

/-- What is written is read back. -/
theorem ofBytes_toBytes (order : ByteOrder) {width n : ℕ} (h : n < 256 ^ width) :
    order.ofBytes (order.toBytes width n) = n := by
  cases order with
  | little => rw [toBytes, ofBytes, List.reverse_reverse, value_bigEndian h]
  | big => exact value_bigEndian h

/-- The number of some bytes fits them. -/
theorem value_lt (bytes : List UInt8) : value bytes < 256 ^ bytes.length := by
  induction bytes using List.reverseRecOn with
  | nil => exact Nat.one_pos
  | append_singleton front last ih =>
    have hlast := last.toNat_lt
    rw [value_append, List.length_append, List.length_singleton, pow_succ]
    omega

theorem ofBytes_lt (order : ByteOrder) (bytes : List UInt8) : order.ofBytes bytes < 256 ^ bytes.length := by
  cases order with
  | little =>
    rw [ofBytes, ← List.length_reverse]
    exact value_lt bytes.reverse
  | big => exact value_lt bytes

/-- Bytes are what is written of their number. -/
theorem bigEndian_value (bytes : List UInt8) : bigEndian bytes.length (value bytes) = bytes := by
  induction bytes using List.reverseRecOn with
  | nil => rfl
  | append_singleton front last ih =>
    have hlast := last.toNat_lt
    have hhigh : (value front * 256 + last.toNat) / 256 = value front := by omega
    have hlow : (value front * 256 + last.toNat) % 256 = last.toNat := by omega
    rw [value_append, List.length_append, List.length_singleton, bigEndian, hhigh, hlow, ih,
      UInt8.ofNat_toNat]

/-- What is read is written back. -/
theorem toBytes_ofBytes (order : ByteOrder) (bytes : List UInt8) :
    order.toBytes bytes.length (order.ofBytes bytes) = bytes := by
  cases order with
  | little => rw [toBytes, ofBytes, ← List.length_reverse, bigEndian_value, List.reverse_reverse]
  | big => exact bigEndian_value bytes

end ByteOrder
