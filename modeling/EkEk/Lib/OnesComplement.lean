import Mathlib.Data.Nat.ModEq
import Mathlib.Tactic.Ring

/-!
# One's complement sums

The arithmetic behind the Internet checksum of RFC 1071: sixteen bit big-endian words are summed,
the carries above bit fifteen are added back until none is left, and the checksum is the complement
of what remains. `fold` is the carry loop and `wordSum` the sum of the words of a byte string.

The one fact a receiver needs is `fold_add_complement`: putting the complement of the folded sum
into the message makes the folded sum all ones.
-/

namespace OnesComplement

/-- Every bit of a sixteen bit word set. -/
def ones : ℕ := 0xFFFF

/-- Add the carries above bit fifteen back in until none is left. -/
def fold (sum : ℕ) : ℕ :=
  if sum / 2 ^ 16 = 0 then sum else fold (sum % 2 ^ 16 + sum / 2 ^ 16)
termination_by sum
decreasing_by omega

theorem fold_lt (sum : ℕ) : fold sum < 2 ^ 16 := by
  induction sum using fold.induct with
  | case1 sum h => rw [fold, if_pos h]; omega
  | case2 sum h ih => rw [fold, if_neg h]; exact ih

/-- Folding keeps the residue modulo `0xFFFF`, because `2 ^ 16` is congruent to one. -/
theorem fold_modEq (sum : ℕ) : fold sum ≡ sum [MOD ones] := by
  induction sum using fold.induct with
  | case1 sum h => rw [fold, if_pos h]
  | case2 sum h ih =>
    rw [fold, if_neg h]
    refine ih.trans ?_
    have hsplit : sum = sum % 2 ^ 16 + sum / 2 ^ 16 + sum / 2 ^ 16 * ones := by
      rw [ones]; omega
    conv_rhs => rw [hsplit]
    exact (Nat.ModEq.symm (Nat.add_mul_modulus_modEq_iff.mpr rfl))

theorem fold_pos {sum : ℕ} (h : 0 < sum) : 0 < fold sum := by
  induction sum using fold.induct with
  | case1 sum hs => rw [fold, if_pos hs]; exact h
  | case2 sum hs ih => rw [fold, if_neg hs]; exact ih (by omega)

/-- A positive sum divisible by `0xFFFF` folds to all ones: zero is the other residue, and folding
never loses a positive sum. -/
theorem fold_eq_ones {sum : ℕ} (hpos : 0 < sum) (hdvd : ones ∣ sum) : fold sum = ones := by
  have hlt := fold_lt sum
  have hfold := fold_pos hpos
  have hmod : fold sum % ones = 0 := by
    rw [fold_modEq sum]; exact Nat.mod_eq_zero_of_dvd hdvd
  rw [ones] at *
  omega

theorem fold_eq_ones_iff {sum : ℕ} (hpos : 0 < sum) : fold sum = ones ↔ sum ≡ 0 [MOD ones] := by
  refine ⟨fun hfold => ?_, fun hzero => fold_eq_ones hpos ((Nat.modEq_zero_iff_dvd).mp hzero)⟩
  have hmod := fold_modEq sum
  rw [hfold] at hmod
  exact hmod.symm.trans (by simp [Nat.ModEq])

/-- Two words of one residue are the same, or the two that stand for zero. -/
theorem eq_or_swap_of_modEq {first second : ℕ} (hfirst : first ≤ ones) (hsecond : second ≤ ones)
    (h : first ≡ second [MOD ones]) :
    first = second ∨ (first = 0 ∧ second = ones) ∨ (first = ones ∧ second = 0) := by
  rw [Nat.ModEq, ones] at h
  rw [ones] at *
  omega

/-- Adding the complement of the folded sum makes the folded sum all ones. -/
theorem fold_add_complement {sum : ℕ} (hpos : 0 < sum) :
    fold (sum + (ones - fold sum)) = ones := by
  refine fold_eq_ones (by omega) ?_
  have hlt := fold_lt sum
  have hle : fold sum ≤ ones := by rw [ones]; omega
  have hmod : sum + (ones - fold sum) ≡ 0 [MOD ones] := by
    have h1 : sum + (ones - fold sum) ≡ fold sum + (ones - fold sum) [MOD ones] :=
      Nat.ModEq.add_right _ (fold_modEq sum).symm
    rw [Nat.add_sub_cancel' hle] at h1
    exact h1.trans (by simp [Nat.ModEq])
  exact (Nat.modEq_zero_iff_dvd).mp hmod

/-! ## Words of a byte string -/

/-- The sum of the big-endian sixteen bit words of a byte string, an odd last byte padded on the
right. -/
def wordSum : List UInt8 → ℕ
  | high :: low :: rest => (high.toNat * 256 + low.toNat) + wordSum rest
  | [last] => last.toNat * 256
  | [] => 0

/-- The words of a string with an even number of bytes in front are the words of both parts. -/
theorem wordSum_append {front : List UInt8} (heven : front.length % 2 = 0) (back : List UInt8) :
    wordSum (front ++ back) = wordSum front + wordSum back := by
  induction front using wordSum.induct with
  | case1 high low rest ih =>
    have hrest : rest.length % 2 = 0 := by
      simp only [List.length_cons] at heven
      omega
    simp only [List.cons_append, wordSum, ih hrest]
    omega
  | case2 last => simp at heven
  | case3 => simp [wordSum]

/-- Every pair of bytes adds at most `0xFFFF`. -/
theorem wordSum_le (bytes : List UInt8) : wordSum bytes ≤ ones * ((bytes.length + 1) / 2) := by
  induction bytes using wordSum.induct with
  | case1 high low rest ih =>
    have hhigh := high.toNat_lt
    have hlow := low.toNat_lt
    simp only [wordSum, List.length_cons]
    rw [ones] at *
    omega
  | case2 last =>
    have hlast := last.toNat_lt
    simp only [wordSum, ones, List.length_cons, List.length_nil]
    omega
  | case3 => simp [wordSum]

end OnesComplement
