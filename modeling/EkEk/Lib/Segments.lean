import Mathlib.Data.List.Basic

/-!
# Lists in segments

A separator parts a list into segments, the way a path is parted into its components. `AtOrBelow` says
that one list is another, or goes on behind it where a segment ends. `splitOn_prefix_iff` says the same
about the segments: those of the one are the first segments of the other.
-/

namespace Segments

variable {α : Type*} {sep : α}

/-- A path is another one, or goes on behind it at a separator. -/
def AtOrBelow (sep : α) (front path : List α) : Prop :=
  ∃ rest, path = front ++ rest ∧ (rest = [] ∨ front.getLast? = some sep ∨ rest.head? = some sep)

theorem AtOrBelow.refl (front : List α) : AtOrBelow sep front front :=
  ⟨[], (List.append_nil front).symm, .inl rfl⟩

/-- What is below something below is below. -/
theorem AtOrBelow.trans {front middle path : List α} (h : AtOrBelow sep front middle)
    (h' : AtOrBelow sep middle path) : AtOrBelow sep front path := by
  obtain ⟨first, rfl, hfirst⟩ := h
  obtain ⟨rest, rfl, hrest⟩ := h'
  refine ⟨first ++ rest, List.append_assoc _ _ _, ?_⟩
  rcases hfirst with rfl | hend | hhead
  · simpa using hrest
  · exact .inr (.inl hend)
  · refine .inr (.inr ?_)
    rw [List.head?_append, hhead]
    rfl

/-- What ends in a separator takes whatever begins with it. -/
theorem prefix_iff_atOrBelow {front path : List α} (hend : front.getLast? = some sep) :
    AtOrBelow sep front path ↔ front <+: path := by
  constructor
  · rintro ⟨rest, rfl, -⟩
    exact List.prefix_append front rest
  · rintro ⟨rest, rfl⟩
    exact ⟨rest, rfl, .inr (.inl hend)⟩

/-- Two joined lists are joined by a separator. -/
theorem intercalate_append {A B : List (List α)} (hA : A ≠ []) (hB : B ≠ []) :
    [sep].intercalate (A ++ B) = [sep].intercalate A ++ sep :: [sep].intercalate B := by
  induction A with
  | nil => exact absurd rfl hA
  | cons first later ih =>
    cases later with
    | nil => rw [List.singleton_append, List.intercalate_cons_of_ne_nil hB,
        List.intercalate_singleton, List.append_assoc, List.singleton_append]
    | cons second later =>
      have hne : second :: later ≠ [] := List.cons_ne_nil _ _
      rw [List.cons_append, List.intercalate_cons_of_ne_nil (List.append_ne_nil_of_left_ne_nil hne _),
        ih hne, List.intercalate_cons_of_ne_nil hne]
      simp only [List.append_assoc]

/-- The segments one behind the other, each behind a separator. -/
def rooted (sep : α) (parts : List (List α)) : List α := parts.flatMap (sep :: ·)

/-- An empty part at the end is a separator at the end. -/
theorem rooted_append_singleton (parts : List (List α)) :
    rooted sep (parts ++ [[]]) = rooted sep parts ++ [sep] := by
  rw [rooted, List.flatMap_append]
  rfl

/-- A rooted path starts with a separator. -/
theorem head?_rooted {parts : List (List α)} (h : parts ≠ []) : (rooted sep parts).head? = some sep := by
  cases parts with
  | nil => exact absurd rfl h
  | cons first later => rfl

theorem rooted_eq_cons {parts : List (List α)} (h : parts ≠ []) :
    rooted sep parts = sep :: [sep].intercalate parts := by
  induction parts with
  | nil => exact absurd rfl h
  | cons first later ih =>
    cases later with
    | nil => rw [rooted, List.flatMap_singleton, List.intercalate_singleton]
    | cons second later =>
      have hne : second :: later ≠ [] := List.cons_ne_nil _ _
      rw [rooted, List.flatMap_cons, ← rooted, ih hne, List.intercalate_cons_of_ne_nil hne,
        List.append_assoc]
      rfl

section

variable [DecidableEq α]

theorem splitOn_append_rooted {part : List α} {parts : List (List α)} (hpart : sep ∉ part)
    (h : ∀ part ∈ parts, sep ∉ part) : (part ++ rooted sep parts).splitOn sep = part :: parts := by
  induction parts generalizing part with
  | nil =>
    rw [rooted, List.flatMap_nil, List.append_nil]
    exact List.splitOn_eq_singleton hpart
  | cons first later ih =>
    rw [rooted, List.flatMap_cons, List.cons_append,
      List.splitOn_append_cons_self_of_not_mem hpart, ← rooted,
      ih (h first List.mem_cons_self) fun part hmem => h part (List.mem_cons_of_mem first hmem)]

/-- A rooted path is split into its parts, behind an empty one. -/
theorem splitOn_rooted {parts : List (List α)} (h : ∀ part ∈ parts, sep ∉ part) :
    (rooted sep parts).splitOn sep = [] :: parts :=
  splitOn_append_rooted List.not_mem_nil h

/-- No segment has the separator in it. -/
theorem notMem_of_mem_splitOn {path part : List α} (h : part ∈ path.splitOn sep) : sep ∉ part := by
  induction path generalizing part with
  | nil =>
    rw [List.splitOn_nil, List.mem_singleton] at h
    exact h ▸ List.not_mem_nil
  | cons first later ih =>
    rw [List.splitOn_cons_eq_if_modifyHead] at h
    split at h
    · rcases List.mem_cons.mp h with rfl | hlater
      · exact List.not_mem_nil
      · exact ih hlater
    · rename_i hfirst
      obtain ⟨head, parts, hparts⟩ := List.exists_cons_of_ne_nil (List.splitOn_ne_nil sep later)
      rw [hparts] at h ih
      rcases List.mem_cons.mp h with rfl | hlater
      · intro hmem
        rcases List.mem_cons.mp hmem with rfl | hhead
        · exact hfirst (beq_iff_eq.mpr rfl)
        · exact ih List.mem_cons_self hhead
      · exact ih (List.mem_cons_of_mem head hlater)

/-- What begins with the separator is its segments, each behind a separator. -/
theorem splitOn_of_head {path : List α} (h : path.head? = some sep) :
    ∃ parts, parts ≠ [] ∧ path.splitOn sep = [] :: parts ∧ path = rooted sep parts := by
  obtain ⟨later, rfl⟩ := List.head?_eq_some_iff.mp h
  refine ⟨later.splitOn sep, List.splitOn_ne_nil sep later, ?_, ?_⟩
  · exact List.splitOn_append_cons_self_of_not_mem List.not_mem_nil later
  · rw [rooted_eq_cons (List.splitOn_ne_nil sep later), List.intercalate_splitOn]

/-- A list ends with the separator where its last segment is empty and not the only one. -/
theorem getLast?_eq_sep_iff {path : List α} :
    path.getLast? = some sep ↔ path ≠ [] ∧ (path.splitOn sep).getLast? = some [] := by
  constructor
  · intro h
    obtain ⟨front, rfl⟩ := List.getLast?_eq_some_iff.mp h
    refine ⟨List.append_ne_nil_of_right_ne_nil _ (List.cons_ne_nil _ _), ?_⟩
    rw [List.splitOn_append_cons_self, List.splitOn_nil, List.getLast?_concat]
  · rintro ⟨hne, h⟩
    obtain ⟨parts, hparts⟩ := List.getLast?_eq_some_iff.mp h
    have hpath : [sep].intercalate (parts ++ [[]]) = path := hparts ▸ List.intercalate_splitOn sep
    cases parts with
    | nil => exact absurd hpath.symm hne
    | cons first later =>
      rw [intercalate_append (List.cons_ne_nil _ _) (List.cons_ne_nil _ _),
        List.intercalate_singleton] at hpath
      rw [← hpath, List.getLast?_concat]

/-- A path stands at or below another one exactly where it has its segments first. -/
theorem splitOn_prefix_iff {front path : List α} (hend : front.getLast? ≠ some sep) :
    front.splitOn sep <+: path.splitOn sep ↔ AtOrBelow sep front path := by
  constructor
  · rintro ⟨more, hmore⟩
    have hpath : [sep].intercalate (front.splitOn sep ++ more) = path :=
      hmore ▸ List.intercalate_splitOn sep
    cases more with
    | nil =>
      rw [List.append_nil, List.intercalate_splitOn] at hpath
      exact hpath ▸ .refl front
    | cons first later =>
      rw [intercalate_append (List.splitOn_ne_nil sep front) (List.cons_ne_nil _ _),
        List.intercalate_splitOn] at hpath
      exact ⟨_, hpath.symm, .inr (.inr rfl)⟩
  · rintro ⟨rest, rfl, rfl | hlast | hhead⟩
    · exact (List.append_nil front).symm ▸ List.prefix_rfl
    · exact absurd hlast hend
    · obtain ⟨later, rfl⟩ := List.head?_eq_some_iff.mp hhead
      rw [List.splitOn_append_cons_self]
      exact List.prefix_append _ _

end

end Segments
