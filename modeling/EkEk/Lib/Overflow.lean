import Mathlib.Algebra.Group.Int.Defs
import Mathlib.Algebra.Group.Nat.Defs

/-!
# Arithmetic on machine words

A signed word has `bits` bits besides its sign. An operation whose result has no place in a word ends a program that
was compiled with overflow checks and wraps around in one that was not. `checked` is the first and `wrapped`
the second; the integers that fit are the ones both keep (`checked_of_fits`, `wrapped_eq_self`). `saturated` is
an operation that stops at the ends of the words instead, and `saturatingAdd` the addition that does so on words
without a sign.
-/

namespace Overflow

section

variable (bits : ℕ)

/-- The integers there is a word for. -/
def Fits (n : ℤ) : Prop := -2 ^ bits ≤ n ∧ n < 2 ^ bits

instance (n : ℤ) : Decidable (Fits bits n) := inferInstanceAs (Decidable (-2 ^ bits ≤ n ∧ n < 2 ^ bits))

/-- What an operation leaves that checks whether its result fits. -/
def checked (n : ℤ) : Option ℤ := if Fits bits n then some n else none

/-- What an operation leaves that does not. -/
def wrapped (n : ℤ) : ℤ := n.bmod (2 ^ (bits + 1))

/-- Addition, where a sum that does not fit ends the program. -/
def add (a b : ℤ) : Option ℤ := checked bits (a + b)

/-- Subtraction, where a difference that does not fit ends the program. -/
def sub (a b : ℤ) : Option ℤ := checked bits (a - b)

/-- Multiplication, where a product that does not fit ends the program. -/
def mul (a b : ℤ) : Option ℤ := checked bits (a * b)

/-- What an operation leaves that stops at the ends of the words. -/
def saturated (n : ℤ) : ℤ := max (-2 ^ bits) (min n (2 ^ bits - 1))

end

variable {bits : ℕ} {a b n : ℤ}

/-- A result that fits is the result. -/
theorem checked_of_fits (h : Fits bits n) : checked bits n = some n := if_pos h

/-- A program goes on exactly from the results that fit. -/
@[simp] theorem isSome_checked : (checked bits n).isSome ↔ Fits bits n := by
  unfold checked
  split <;> simp_all

theorem add_of_fits (h : Fits bits (a + b)) : add bits a b = some (a + b) := checked_of_fits h

theorem sub_of_fits (h : Fits bits (a - b)) : sub bits a b = some (a - b) := checked_of_fits h

theorem mul_of_fits (h : Fits bits (a * b)) : mul bits a b = some (a * b) := checked_of_fits h

section

variable {α : Type} {next : ℤ → Option α}

/-! A computation goes on from an operation that does not overflow. -/

theorem add_bind (h : Fits bits (a + b)) : (add bits a b >>= next) = next (a + b) := by
  rw [add_of_fits h, Option.bind_eq_bind, Option.bind_some]

theorem sub_bind (h : Fits bits (a - b)) : (sub bits a b >>= next) = next (a - b) := by
  rw [sub_of_fits h, Option.bind_eq_bind, Option.bind_some]

theorem mul_bind (h : Fits bits (a * b)) : (mul bits a b >>= next) = next (a * b) := by
  rw [mul_of_fits h, Option.bind_eq_bind, Option.bind_some]

end

/-- With the sign, there are twice as many words. -/
theorem natCast_two_pow_succ : ((2 ^ (bits + 1) : ℕ) : ℤ) = 2 * 2 ^ bits := by
  rw [Nat.pow_succ', Int.natCast_mul, Int.natCast_pow]
  rfl

/-- What is left of an integer is the one in a word that differs from it by as many words as there are. -/
theorem wrapped_eq_iff {m : ℤ} : wrapped bits n = m ↔ Fits bits m ∧ 2 * 2 ^ bits ∣ m - n := by
  have hpos : 0 < 2 ^ (bits + 1) := Nat.two_pow_pos (bits + 1)
  unfold wrapped Fits
  rw [Int.bmod_eq_iff hpos, natCast_two_pow_succ]
  omega

/-- An operation that does not overflow is what it is on the integers. -/
theorem wrapped_eq_self : wrapped bits n = n ↔ Fits bits n := by
  rw [wrapped_eq_iff, Int.sub_self]
  exact and_iff_left (Int.dvd_zero _)

/-- An integer below the words wraps around to one above. -/
theorem wrapped_of_lt (hlow : -(3 * 2 ^ bits) ≤ n) (hhigh : n < -2 ^ bits) :
    wrapped bits n = n + 2 * 2 ^ bits := by
  refine wrapped_eq_iff.mpr ⟨⟨by omega, by omega⟩, 1, ?_⟩
  omega

/-- An integer above the words wraps around to one below. -/
theorem wrapped_of_le (hlow : 2 ^ bits ≤ n) (hhigh : n < 3 * 2 ^ bits) :
    wrapped bits n = n - 2 * 2 ^ bits := by
  refine wrapped_eq_iff.mpr ⟨⟨by omega, by omega⟩, -1, ?_⟩
  omega

/-- An operation that stops at the ends leaves at least its result, up to the largest word. -/
theorem min_le_saturated (n : ℤ) : min n (2 ^ bits - 1) ≤ saturated bits n := Int.le_max_right _ _

/-- An operation that does not go below the words leaves no more than its result. -/
theorem saturated_le (h : -2 ^ bits ≤ n) : saturated bits n ≤ n := by
  unfold saturated
  omega

/-- Stopping at the ends keeps the order. -/
theorem saturated_mono (h : a ≤ b) : saturated bits a ≤ saturated bits b := by
  unfold saturated
  omega

/-! ## Words without a sign -/

/-- A type of words without a sign: the numbers below `2 ^ bits`. -/
class Word (α : Type) where
  /-- How many bits a word has. -/
  bits : ℕ
  /-- The number that a word stands for. -/
  toNat : α → ℕ
  /-- The word that stands for a number. -/
  ofNat : ℕ → α
  toNat_ofNat {n : ℕ} (h : n < 2 ^ bits) : toNat (ofNat n) = n

instance : Word UInt32 := ⟨32, UInt32.toNat, UInt32.ofNat, UInt32.toNat_ofNat_of_lt⟩

instance : Word UInt64 := ⟨64, UInt64.toNat, UInt64.ofNat, UInt64.toNat_ofNat_of_lt⟩

/-- Addition that stays at the largest word. -/
def saturatingAdd {α : Type} [Word α] (n m : α) : α :=
  Word.ofNat (min (Word.toNat n + Word.toNat m) (2 ^ Word.bits α - 1))

/-- The sum is the one of the numbers, up to the largest of them. -/
theorem toNat_saturatingAdd {α : Type} [Word α] (n m : α) :
    Word.toNat (saturatingAdd n m) = min (Word.toNat n + Word.toNat m) (2 ^ Word.bits α - 1) := by
  have hpos : 0 < 2 ^ Word.bits α := Nat.two_pow_pos _
  exact Word.toNat_ofNat (by omega)

/-! ## Loops -/

section

variable {α β : Type} {round : α → Option β} {l : List α}

/-- A loop whose rounds all go through leaves what the rounds leave. -/
theorem mapM_of_forall {result : α → β} (h : ∀ x ∈ l, round x = some (result x)) :
    l.mapM round = some (l.map result) := by
  induction l with
  | nil => rfl
  | cons x l ih =>
    obtain ⟨hhead, htail⟩ := List.forall_mem_cons.mp h
    rw [List.mapM_cons, hhead, ih htail]
    rfl

/-- A loop that goes through does so in every round. -/
theorem isSome_of_mapM (h : (l.mapM round).isSome) {x : α} (hx : x ∈ l) : (round x).isSome := by
  induction l with
  | nil => cases hx
  | cons y l ih =>
    rw [List.mapM_cons, Option.bind_eq_bind] at h
    have hrest := Option.isSome_apply_of_isSome_bind h
    cases hx with
    | head => exact Option.isSome_of_isSome_bind h
    | tail _ hx => exact ih (Option.isSome_of_isSome_bind hrest) hx

end

end Overflow
