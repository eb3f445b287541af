import Mathlib.Data.String.Basic

/-!
# JSON values

What the JSON library reads a document into. The library itself is a parameter wherever it is used.
-/

namespace EkEk

/-- A number of a document, in the form it is kept in. -/
inductive Number where
  | posInt (value : UInt64)
  | negInt (value : Int64)
  | float (bits : UInt64)
deriving DecidableEq

/-- A JSON value. The members of an object go by their names. -/
inductive Value where
  | null
  | bool (value : Bool)
  | number (value : Number)
  | string (value : String)
  | array (elements : List Value)
  | object (members : List (String × Value))

namespace Value

/-- The number that a value is, where it is one without a sign. -/
def asU64 : Value → Option UInt64
  | .number (.posInt value) => some value
  | _ => none

/-- The value under a name, where a value is an object that has one. -/
def get (value : Value) (name : String) : Option Value :=
  match value with
  | .object members => members.lookup name
  | _ => none

/-- The text that a value is. -/
def asStr : Value → Option String
  | .string value => some value
  | _ => none

/-- The values that a value is a list of. -/
def asArray : Value → Option (List Value)
  | .array elements => some elements
  | _ => none

/-- Put a member into an object, in place of one of its name. -/
def insert (name : String) (value : Value) : List (String × Value) → List (String × Value)
  | [] => [(name, value)]
  | (held, other) :: members =>
    if name = held then (name, value) :: members
    else if name < held then (name, value) :: (held, other) :: members
    else (held, other) :: insert name value members

/-- What was inserted last is what is found. -/
theorem lookup_insert (name : String) (value : Value) (members : List (String × Value)) :
    (insert name value members).lookup name = some value := by
  induction members with
  | nil => simp [insert]
  | cons member members ih =>
    obtain ⟨held, other⟩ := member
    rw [insert]
    split
    · simp
    · rename_i hne
      split
      · simp
      · have hother : (name == held) = false := beq_eq_false_iff_ne.mpr hne
        rw [List.lookup_cons, hother, ih]

/-! ## Comparing values -/

mutual

/-- Whether two values are the same. -/
def eq : Value → Value → Bool
  | .null, .null => true
  | .bool x, .bool y => x = y
  | .number x, .number y => x = y
  | .string x, .string y => x = y
  | .array xs, .array ys => eqElements xs ys
  | .object xs, .object ys => eqMembers xs ys
  | _, _ => false

/-- Lists are compared value by value. -/
def eqElements : List Value → List Value → Bool
  | [], [] => true
  | x :: xs, y :: ys => eq x y && eqElements xs ys
  | _, _ => false

/-- Objects are compared member by member, in their order. -/
def eqMembers : List (String × Value) → List (String × Value) → Bool
  | [], [] => true
  | (name, x) :: xs, (other, y) :: ys => name = other && eq x y && eqMembers xs ys
  | _, _ => false

end

mutual

/-- The comparison is equality. -/
theorem eq_iff (x y : Value) : eq x y = true ↔ x = y := by
  cases x <;> cases y <;> simp [eq, eqElements_iff, eqMembers_iff]

theorem eqElements_iff (xs ys : List Value) : eqElements xs ys = true ↔ xs = ys := by
  cases xs <;> cases ys <;> simp [eqElements, eq_iff, eqElements_iff]

theorem eqMembers_iff (xs ys : List (String × Value)) : eqMembers xs ys = true ↔ xs = ys := by
  match xs, ys with
  | [], [] => simp [eqMembers]
  | [], _ :: _ => simp [eqMembers]
  | _ :: _, [] => simp [eqMembers]
  | (name, x) :: xs, (other, y) :: ys => simp [eqMembers, eq_iff, eqMembers_iff xs ys]

end

instance : DecidableEq Value := fun x y => decidable_of_iff _ (eq_iff x y)

end Value

end EkEk
