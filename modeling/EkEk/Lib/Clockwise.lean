import Mathlib.Data.Prod.Lex
import Mathlib.Data.List.Nodup
import Mathlib.Data.Set.Basic

/-!
# Walks around a ring

Elements of a list have a place each, and the places are in order. A walk that starts at a key goes up
from there and around: it meets what lies at the key or above it first, and the rest from the beginning.
`turn` says how late the walk comes to an element, and `IsFirst` which one of a set it meets first.

Two sets share the first one as soon as each of them has the first one of the other: what is taken out
of a ring or put into it moves nobody else.
-/

namespace Clockwise

variable {α R : Type*} [LinearOrder R] (place : α → R)

/-- How late the walk from a key comes to an element. -/
def turn (key : R) (a : α) : Bool ×ₗ R := toLex (decide (place a < key), place a)

/-- The element of a set that the walk from a key meets first. -/
structure IsFirst (key : R) (s : Set α) (a : α) : Prop where
  mem : a ∈ s
  le : ∀ b ∈ s, turn place key a ≤ turn place key b

/-- The walk from a key, once around and back over what it started with. -/
def walk (key : R) (ring : List α) : List α := (ring.filter fun a => key ≤ place a) ++ ring

/-- The elements stand in the order of their places, and no two of them at one. -/
def Sorted (ring : List α) : Prop := ring.Pairwise fun a b => place a < place b

variable {place} {key : R} {s t : Set α} {a b : α} {ring : List α} {p : α → Bool}

theorem turn_le_iff : turn place key a ≤ turn place key b ↔
    (key ≤ place a ∧ place b < key) ∨ ((place a < key ↔ place b < key) ∧ place a ≤ place b) := by
  rw [turn, turn, Prod.Lex.le_iff]
  by_cases ha : place a < key <;> by_cases hb : place b < key <;>
    simp [ha, hb, le_of_not_gt, not_le_of_gt]

/-- What the first ones of two sets have to be in for the walk to stop at one place. -/
theorem IsFirst.place_eq (ha : IsFirst place key s a) (hb : IsFirst place key t b) (hat : a ∈ t)
    (hbs : b ∈ s) : place a = place b := by
  have hturn : turn place key a = turn place key b := le_antisymm (ha.le b hbs) (hb.le a hat)
  exact (Prod.mk.inj (congrArg ofLex hturn)).2

/-- What a search through a sorted list finds is the lowest that passes. -/
theorem Sorted.find?_eq_some (h : Sorted place ring) : ring.find? p = some a ↔
    a ∈ ring ∧ p a = true ∧ ∀ b ∈ ring, p b = true → place a ≤ place b := by
  constructor
  · intro hfind
    refine ⟨List.mem_of_find?_eq_some hfind, List.find?_some hfind, fun b hb hpass => ?_⟩
    obtain ⟨-, before, after, rfl, hbefore⟩ := List.find?_eq_some_iff_append.mp hfind
    rcases List.mem_append.mp hb with hearly | hlate
    · exact absurd hpass (by simpa using hbefore b hearly)
    · rcases List.mem_cons.mp hlate with rfl | hafter
      · exact le_rfl
      · exact ((List.pairwise_cons.mp (List.pairwise_append.mp h).2.1).1 b hafter).le
  · rintro ⟨hmem, hpass, hleast⟩
    obtain ⟨found, hfind⟩ := Option.isSome_iff_exists.mp (List.find?_isSome.mpr ⟨a, hmem, hpass⟩)
    obtain ⟨-, before, after, rfl, hbefore⟩ := List.find?_eq_some_iff_append.mp hfind
    have hle := hleast found (by simp) (List.find?_some hfind)
    rcases List.mem_append.mp hmem with hearly | hlate
    · exact absurd hpass (by simpa using hbefore a hearly)
    · rcases List.mem_cons.mp hlate with rfl | hafter
      · exact hfind
      · exact absurd ((List.pairwise_cons.mp (List.pairwise_append.mp h).2.1).1 a hafter) (not_lt.mpr hle)

theorem Sorted.filter (h : Sorted place ring) (q : α → Bool) : Sorted place (ring.filter q) :=
  List.Pairwise.sublist List.filter_sublist h

/-- A walk over a sorted ring that looks for what passes a test stops at the first of what passes it. -/
theorem Sorted.find?_walk_eq_some (h : Sorted place ring) :
    (walk place key ring).find? p = some a ↔
      IsFirst place key {a | a ∈ ring ∧ p a = true} a := by
  rw [walk, List.find?_append, Option.or_eq_some_iff, (h.filter _).find?_eq_some, h.find?_eq_some,
    List.find?_eq_none]
  constructor
  · rintro (⟨hmem, hpass, hleast⟩ | ⟨hnone, hmem, hpass, hleast⟩)
    · obtain ⟨hring, hkey⟩ := List.mem_filter.mp hmem
      refine ⟨⟨hring, hpass⟩, fun b hb => turn_le_iff.mpr ?_⟩
      have hkey : key ≤ place a := of_decide_eq_true hkey
      rcases lt_or_ge (place b) key with hbelow | habove
      · exact .inl ⟨hkey, hbelow⟩
      · refine .inr ⟨iff_of_false (not_lt.mpr hkey) (not_lt.mpr habove), ?_⟩
        exact hleast b (List.mem_filter.mpr ⟨hb.1, decide_eq_true habove⟩) hb.2
    · refine ⟨⟨hmem, hpass⟩, fun b hb => turn_le_iff.mpr (.inr ⟨?_, hleast b hb.1 hb.2⟩)⟩
      -- nothing at the key or above it passes
      have hbelow : ∀ c ∈ ring, p c = true → place c < key := fun c hc hpass => not_le.mp fun hle =>
        hnone c (List.mem_filter.mpr ⟨hc, decide_eq_true hle⟩) hpass
      exact iff_of_true (hbelow a hmem hpass) (hbelow b hb.1 hb.2)
  · rintro ⟨⟨hmem, hpass⟩, hfirst⟩
    rcases lt_or_ge (place a) key with hbelow | habove
    · refine .inr ⟨fun b hb hpassb => ?_, hmem, hpass, fun b hb hpassb => ?_⟩
      · obtain ⟨hring, hkey⟩ := List.mem_filter.mp hb
        have hkey : key ≤ place b := of_decide_eq_true hkey
        rcases turn_le_iff.mp (hfirst b ⟨hring, hpassb⟩) with ⟨hle, -⟩ | ⟨hiff, -⟩
        · exact absurd hbelow (not_lt.mpr hle)
        · exact absurd (hiff.mp hbelow) (not_lt.mpr hkey)
      · rcases turn_le_iff.mp (hfirst b ⟨hb, hpassb⟩) with ⟨hle, -⟩ | ⟨-, hle⟩
        · exact absurd hbelow (not_lt.mpr hle)
        · exact hle
    · refine .inl ⟨List.mem_filter.mpr ⟨hmem, decide_eq_true habove⟩, hpass, fun b hb hpassb => ?_⟩
      obtain ⟨hring, hkey⟩ := List.mem_filter.mp hb
      have hkey : key ≤ place b := of_decide_eq_true hkey
      rcases turn_le_iff.mp (hfirst b ⟨hring, hpassb⟩) with ⟨-, hlt⟩ | ⟨-, hle⟩
      · exact absurd hlt (not_lt.mpr hkey)
      · exact hle

/-- It comes back with nothing only where nothing passes. -/
theorem find?_walk_eq_none : (walk place key ring).find? p = none ↔ ∀ a ∈ ring, ¬ p a = true := by
  rw [walk, List.find?_eq_none]
  constructor
  · exact fun h a ha => h a (List.mem_append_right _ ha)
  · intro h a ha
    rcases List.mem_append.mp ha with hfilter | hring
    · exact h a (List.mem_filter.mp hfilter).1
    · exact h a hring

end Clockwise
