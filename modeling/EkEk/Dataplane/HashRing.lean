import EkEk.Lib.Clockwise
import EkEk.Text
import Mathlib.Data.UInt

/-!
# Consistent hashing

Reference: `crates/ek-ek-dataplane/src/hashring.rs`.

Every member has 160 points on a ring, placed by a hash of its identity. A key belongs to the member of
the first point from its own position on, or of the first one at all. Points are kept in order, each
with the place of its member in the list the ring was built from.
-/

namespace EkEk.Dataplane

/-- Virtual points each member takes on the ring. -/
def replicas : ℕ := 160

/-- The offset basis of FNV-1a. -/
def offsetBasis : UInt64 := 0xcbf29ce484222325

/-- The prime of FNV-1a. -/
def prime : UInt64 := 0x00000100000001b3

/-- Hash bytes the same way on every release and every machine. -/
def hash (bytes : List UInt8) : UInt64 :=
  bytes.foldl (fun value byte => (value ^^^ byte.toUInt64) * prime) offsetBasis

/-- A ring of members. -/
structure HashRing where
  points : List (UInt64 × ℕ)
deriving DecidableEq, Repr

namespace HashRing

/-- Put a point in its place. A point that is there already gets the new member. -/
def insert (point : UInt64) (index : ℕ) : List (UInt64 × ℕ) → List (UInt64 × ℕ)
  | [] => [(point, index)]
  | first :: rest =>
    if point < first.1 then (point, index) :: first :: rest
    else if point = first.1 then (point, index) :: rest
    else first :: insert point index rest

/-- The points of one member. -/
def pointsOf (member : String) : List UInt64 :=
  (List.range replicas).map fun replica => hash (Text.bytes (member ++ "#" ++ toString replica))

/-- Build a ring from member identities, in the order they were given. -/
def build (members : List String) : HashRing where
  points := members.zipIdx.foldl (fun points member =>
    (pointsOf member.1).foldl (fun points point => insert point member.2 points) points) []

/-- A ring with nobody on it. -/
def empty : HashRing := ⟨[]⟩

/-- The first member from the key's position on that is acceptable, going around once. -/
def pickWhere (ring : HashRing) (key : UInt64) (acceptable : ℕ → Bool) : Option ℕ :=
  (((ring.points.filter fun point => key ≤ point.1) ++ ring.points).map Prod.snd).find? acceptable

/-! ## Which points a ring has -/

open Clockwise

/-- Where a point of the ring is. -/
def place (row : UInt64 × ℕ) : ℕ := row.1.toNat

/-- A member's point that no member behind it took over. -/
def Owns (members : List String) (point : UInt64) (index : ℕ) : Prop :=
  ∃ member, members[index]? = some member ∧ point ∈ pointsOf member ∧
    ∀ later other, index < later → members[later]? = some other → point ∉ pointsOf other

variable {point : UInt64} {index : ℕ} {row : UInt64 × ℕ} {rows : List (UInt64 × ℕ)}
  {members : List String}

theorem mem_insert (h : Sorted place rows) :
    row ∈ insert point index rows ↔ row = (point, index) ∨ row ∈ rows ∧ row.1 ≠ point := by
  induction rows with
  | nil => simp [insert]
  | cons first rest ih =>
    obtain ⟨hfirst, hrest⟩ := List.pairwise_cons.mp h
    rw [insert]
    split
    · rename_i hlt
      -- every point of the ring is above the new one
      have habove : ∀ other ∈ first :: rest, other.1 ≠ point := by
        intro other hother heq
        have hlt : point.toNat < first.1.toNat := UInt64.lt_iff_toNat_lt.mp hlt
        rcases List.mem_cons.mp hother with rfl | hlater
        · exact absurd (heq ▸ hlt) (lt_irrefl _)
        · have hlater : first.1.toNat < other.1.toNat := hfirst other hlater
          rw [heq] at hlater
          exact absurd hlt hlater.not_gt
      rw [List.mem_cons]
      exact or_congr_right ⟨fun hmem => ⟨hmem, habove row hmem⟩, And.left⟩
    · split
      · rename_i heq
        have hne : ∀ other ∈ rest, other.1 ≠ point := by
          intro other hother hsame
          have hlt : first.1.toNat < other.1.toNat := hfirst other hother
          rw [hsame, heq] at hlt
          exact absurd hlt (lt_irrefl _)
        rw [List.mem_cons, List.mem_cons]
        refine or_congr_right ⟨fun hmem => ⟨.inr hmem, hne row hmem⟩, ?_⟩
        rintro ⟨rfl | hmem, hother⟩
        · exact absurd heq.symm hother
        · exact hmem
      · rename_i hne
        rw [List.mem_cons, ih hrest, List.mem_cons]
        constructor
        · rintro (rfl | rfl | ⟨hmem, hother⟩)
          · exact .inr ⟨.inl rfl, fun heq => hne heq.symm⟩
          · exact .inl rfl
          · exact .inr ⟨.inr hmem, hother⟩
        · rintro (rfl | ⟨rfl | hmem, hother⟩)
          · exact .inr (.inl rfl)
          · exact .inl rfl
          · exact .inr (.inr ⟨hmem, hother⟩)

theorem sorted_insert (h : Sorted place rows) : Sorted place (insert point index rows) := by
  induction rows with
  | nil => exact List.pairwise_singleton _ _
  | cons first rest ih =>
    obtain ⟨hfirst, hrest⟩ := List.pairwise_cons.mp h
    rw [insert]
    split
    · rename_i hlt
      refine List.pairwise_cons.mpr ⟨fun other hother => ?_, h⟩
      have hlt : point.toNat < first.1.toNat := UInt64.lt_iff_toNat_lt.mp hlt
      rcases List.mem_cons.mp hother with rfl | hlater
      · exact hlt
      · exact hlt.trans (hfirst other hlater)
    · split
      · rename_i heq
        refine List.pairwise_cons.mpr ⟨fun other hother => ?_, hrest⟩
        show point.toNat < other.1.toNat
        exact heq ▸ hfirst other hother
      · rename_i hnlt hne
        refine List.pairwise_cons.mpr ⟨fun other hother => ?_, ih hrest⟩
        rcases (mem_insert hrest).mp hother with rfl | ⟨hmem, -⟩
        · have hle : first.1.toNat ≤ point.toNat :=
            not_lt.mp fun hlt => hnlt (UInt64.lt_iff_toNat_lt.mpr hlt)
          exact lt_of_le_of_ne hle fun heq => hne (UInt64.toNat_inj.mp heq.symm)
        · exact hfirst other hmem

/-- All points of one member go in together. -/
theorem mem_insertAll (index : ℕ) (points : List UInt64) (h : Sorted place rows) :
    Sorted place (points.foldl (fun rows point => insert point index rows) rows) ∧
      ∀ row, (row ∈ points.foldl (fun rows point => insert point index rows) rows ↔
        row.1 ∈ points ∧ row.2 = index ∨ row ∈ rows ∧ row.1 ∉ points) := by
  induction points generalizing rows with
  | nil => exact ⟨h, fun row => by simp⟩
  | cons point points ih =>
    have hinserted : Sorted place (insert point index rows) := sorted_insert h
    obtain ⟨hsorted, hmem⟩ := ih hinserted
    refine ⟨hsorted, fun row => (hmem row).trans ?_⟩
    rw [mem_insert h, List.mem_cons]
    obtain ⟨place, holder⟩ := row
    simp only [Prod.mk.injEq]
    by_cases hin : place ∈ points
    · simp [hin]
    · simp only [hin, false_and, or_false, not_false_eq_true, and_true, false_or]

/-- One more member at the end of the list. -/
theorem build_concat (members : List String) (member : String) :
    (build (members ++ [member])).points = (pointsOf member).foldl
      (fun rows point => insert point members.length rows) (build members).points := by
  rw [build, build, List.zipIdx_append, List.foldl_append]
  simp

/-- The last member owns all its points, and takes them from the others. -/
theorem owns_concat {last : String} : Owns (members ++ [last]) point index ↔
    point ∈ pointsOf last ∧ index = members.length ∨
      Owns members point index ∧ point ∉ pointsOf last := by
  have hlast : (members ++ [last])[members.length]? = some last := by simp
  constructor
  · rintro ⟨member, hmember, hpoint, hnobody⟩
    rcases lt_trichotomy index members.length with hlt | rfl | hgt
    · rw [List.getElem?_append_left hlt] at hmember
      refine .inr ⟨⟨member, hmember, hpoint, fun later other hlater hother => ?_⟩,
        hnobody _ last hlt hlast⟩
      refine hnobody later other hlater ?_
      rwa [List.getElem?_append_left (List.getElem?_eq_some_iff.mp hother).1]
    · obtain rfl : last = member := Option.some.inj (hlast.symm.trans hmember)
      exact .inl ⟨hpoint, rfl⟩
    · have hout := (List.getElem?_eq_some_iff.mp hmember).1
      rw [List.length_append, List.length_singleton] at hout
      omega
  · rintro (⟨hpoint, rfl⟩ | ⟨⟨member, hmember, hpoint, hnobody⟩, hfree⟩)
    · refine ⟨last, hlast, hpoint, fun later other hlater hother => ?_⟩
      have hout := (List.getElem?_eq_some_iff.mp hother).1
      rw [List.length_append, List.length_singleton] at hout
      omega
    · have hlt := (List.getElem?_eq_some_iff.mp hmember).1
      refine ⟨member, by rwa [List.getElem?_append_left hlt], hpoint, ?_⟩
      intro later other hlater hother
      rcases lt_trichotomy later members.length with hin | rfl | hgt
      · exact hnobody later other hlater (by rwa [List.getElem?_append_left hin] at hother)
      · exact Option.some.inj (hlast.symm.trans hother) ▸ hfree
      · have hout := (List.getElem?_eq_some_iff.mp hother).1
        rw [List.length_append, List.length_singleton] at hout
        omega

/-- A ring has the points its members own, in order. -/
theorem build_spec (members : List String) : Sorted place (build members).points ∧
    ∀ point index, (point, index) ∈ (build members).points ↔ Owns members point index := by
  induction members using List.reverseRecOn with
  | nil =>
    refine ⟨List.Pairwise.nil, fun point index => iff_of_false List.not_mem_nil ?_⟩
    rintro ⟨member, hnone, -⟩
    exact absurd hnone.symm (Option.some_ne_none member)
  | append_singleton members last ih =>
    obtain ⟨hsorted, hmem⟩ := ih
    rw [build_concat]
    obtain ⟨hall, hin⟩ := mem_insertAll members.length (pointsOf last) hsorted
    refine ⟨hall, fun point index => ?_⟩
    rw [hin, hmem, owns_concat]

/-- The rows a key may be sent to. -/
def passing (members : List String) (acceptable : ℕ → Bool) : Set (UInt64 × ℕ) :=
  {row | Owns members row.1 row.2 ∧ acceptable row.2 = true}

theorem pickWhere_eq (ring : HashRing) (key : UInt64) (acceptable : ℕ → Bool) :
    ring.pickWhere key acceptable =
      ((walk place key.toNat ring.points).find? fun row => acceptable row.2).map Prod.snd := by
  rw [pickWhere, List.find?_map]
  rfl

/-- The ring picks whoever owns the first point, from the key's position on, that an acceptable member
has. -/
theorem pickWhere_eq_some (members : List String) (key : UInt64) {acceptable : ℕ → Bool} :
    (build members).pickWhere key acceptable = some index ↔
      ∃ point, IsFirst place key.toNat (passing members acceptable) (point, index) := by
  obtain ⟨hsorted, hmem⟩ := build_spec members
  have hrows : {row | row ∈ (build members).points ∧ acceptable row.2 = true} =
      passing members acceptable := by
    ext row
    exact and_congr_left fun _ => hmem row.1 row.2
  rw [pickWhere_eq, Option.map_eq_some_iff]
  constructor
  · rintro ⟨row, hfind, rfl⟩
    exact ⟨row.1, hrows ▸ hsorted.find?_walk_eq_some.mp hfind⟩
  · rintro ⟨point, hfirst⟩
    exact ⟨(point, index), hsorted.find?_walk_eq_some.mpr (hrows ▸ hfirst), rfl⟩

/-- It picks nobody only where no acceptable member owns a point. -/
theorem pickWhere_eq_none (members : List String) (key : UInt64) {acceptable : ℕ → Bool} :
    (build members).pickWhere key acceptable = none ↔
      ∀ point index, Owns members point index → ¬ acceptable index = true := by
  obtain ⟨-, hmem⟩ := build_spec members
  rw [pickWhere_eq, Option.map_eq_none_iff, find?_walk_eq_none]
  constructor
  · exact fun h point index howns => h (point, index) ((hmem point index).mpr howns)
  · exact fun h row hrow => h row.1 row.2 ((hmem row.1 row.2).mp hrow)

/-- A point of a member is owned by somebody. -/
theorem exists_owns {member : String} (hmember : member ∈ members) (hpoint : point ∈ pointsOf member) :
    ∃ index, Owns members point index := by
  induction members using List.reverseRecOn with
  | nil => exact absurd hmember List.not_mem_nil
  | append_singleton members last ih =>
    by_cases hlast : point ∈ pointsOf last
    · exact ⟨members.length, owns_concat.mpr (.inl ⟨hlast, rfl⟩)⟩
    · rcases List.mem_append.mp hmember with hearly | hlate
      · obtain ⟨index, howns⟩ := ih hearly
        exact ⟨index, owns_concat.mpr (.inr ⟨howns, hlast⟩)⟩
      · exact absurd (List.mem_singleton.mp hlate ▸ hpoint) hlast

/-- A point has one owner. -/
theorem Owns.unique {other : ℕ} (h : Owns members point index) (h' : Owns members point other) :
    index = other := by
  obtain ⟨member, hmember, hpoint, hnobody⟩ := h
  obtain ⟨member', hmember', hpoint', hnobody'⟩ := h'
  rcases lt_trichotomy index other with hlt | heq | hgt
  · exact absurd hpoint' (hnobody other member' hlt hmember')
  · exact heq
  · exact absurd hpoint (hnobody' index member hgt hmember)

/-! ## Members with points of their own -/

/-- No two of the members share a point. -/
def Apart (members : List String) : Prop :=
  ∀ a ∈ members, ∀ b ∈ members, a ≠ b → ∀ point ∈ pointsOf a, point ∉ pointsOf b

theorem Apart.mono {fewer : List String} (h : Apart members) (hsubset : fewer ⊆ members) : Apart fewer :=
  fun a ha b hb => h a (hsubset ha) b (hsubset hb)

/-- Where no two members share a point, each owns all of its points. -/
theorem Apart.exists_owns (h : Apart members) {member : String} (hmember : member ∈ members)
    (hpoint : point ∈ pointsOf member) :
    ∃ index, Owns members point index ∧ members[index]? = some member := by
  obtain ⟨index, howns⟩ := HashRing.exists_owns hmember hpoint
  have ⟨owner, howner, hown, _⟩ := howns
  by_cases heq : owner = member
  · exact ⟨index, howns, heq ▸ howner⟩
  · exact absurd hpoint (h owner (List.mem_of_getElem? howner) member hmember heq point hown)

theorem hash_append (first second : List UInt8) :
    hash (first ++ second) = second.foldl (fun value byte => (value ^^^ byte.toUInt64) * prime)
      (hash first) := by
  rw [hash, List.foldl_append, hash]

/-- The hash of an identity is all that its points depend on. -/
theorem pointsOf_congr {member other : String}
    (h : hash (Text.bytes member) = hash (Text.bytes other)) : pointsOf member = pointsOf other := by
  refine List.map_congr_left fun replica _ => ?_
  simp only [Text.bytes_append, hash_append, h]

theorem pointsOf_ne_nil (member : String) : ∃ point, point ∈ pointsOf member :=
  ⟨_, List.mem_map_of_mem (List.mem_range.mpr (by decide : 0 < replicas))⟩

end HashRing

end EkEk.Dataplane
