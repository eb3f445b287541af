import EkEk.Config.Template
import EkEk.Dataplane.Route
import EkEk.Lib.Segments

/-!
# What a path is matched as

Reference: `path_matches`, `normalise` and `percent_decode` of `crates/ek-ek-dataplane/src/route.rs`.

A rule names the front of a path, and a client writes the path. Between the two stands `normalise`: what
is matched has no component that moves elsewhere, so that its components are where the client ends up.
`resolve` follows the components of the decoded path one by one, and `normalise_resolves` is that a rule
in normal form takes a path exactly when its components are the first ones of that place.
-/

namespace EkEk.Dataplane.Route

open Segments

variable {toLowercase : String → String}

/-- Whether a path ends with a separator. -/
def EndsInSlash (path : String) : Prop := path.toList.getLast? = some '/'

instance (path : String) : Decidable (EndsInSlash path) :=
  inferInstanceAs (Decidable (path.toList.getLast? = some '/'))

/-- A path whose components are where it leads. What stands before the first separator and behind the
last one is no component. -/
structure NormalForm (path : String) : Prop where
  rooted : path.toList.head? = some '/'
  nonempty : ∀ part ∈ (Text.split path '/').tail.dropLast, part ≠ ""
  named : ∀ part ∈ Text.split path '/', part ≠ "." ∧ part ≠ ".."

/-- The components of a path. -/
def components (path : String) : List String := (Text.split path '/').filter (· ≠ "")

/-- The path of a request without what follows it. -/
def pathPart (path : String) : String :=
  match Text.splitOnce path fun c => c = '?' || c = '#' with
  | some (before, _) => before
  | none => path

/-- The path of a request with its escapes decoded. -/
def decodedPath (path : String) : String := percentDecode (pathPart path)

/-- The bytes the path of a request decodes to. -/
def decodedBytes (path : String) : List UInt8 := decodeBytes (Text.bytes (pathPart path))

/-- Where parts lead, one after the other, from a place whose own components are given innermost
first. -/
def resolve : List String → List String → List String
  | up, [] => up.reverse
  | up, part :: rest =>
    if part = "" ∨ part = "." then resolve up rest
    else if part = ".." then resolve up.tail rest
    else resolve (part :: up) rest

/-! ## Matching on a boundary -/

theorem stripPrefix_eq_some {s front rest : String} :
    Text.stripPrefix s front = some rest ↔ s.toList = front.toList ++ rest.toList := by
  rw [Text.stripPrefix]
  split
  · rename_i h
    obtain ⟨later, hlater⟩ := List.isPrefixOf_iff_prefix.mp h
    rw [← hlater, List.drop_left, Option.some.injEq, List.append_cancel_left_eq]
    exact ⟨fun h => h ▸ String.toList_ofList.symm, fun h => h ▸ String.ofList_toList⟩
  · rename_i h
    refine ⟨fun h => absurd h.symm (Option.some_ne_none rest), fun hs => absurd ?_ h⟩
    exact List.isPrefixOf_iff_prefix.mpr ⟨rest.toList, hs.symm⟩

/-- What the comparison of a prefix with a path says. -/
theorem boundary_iff {start path : String} :
    (path = start || match Text.stripPrefix path start with
      | some rest => start.toList.getLast? = some '/' || rest.toList.head? = some '/'
      | none => false) = true ↔ AtOrBelow '/' start.toList path.toList := by
  rw [Bool.or_eq_true, decide_eq_true_eq]
  constructor
  · rintro (rfl | h)
    · exact .refl _
    · split at h
      · rename_i rest hstrip
        rw [Bool.or_eq_true, decide_eq_true_eq, decide_eq_true_eq] at h
        exact ⟨rest.toList, stripPrefix_eq_some.mp hstrip, .inr h⟩
      · cases h
  · rintro ⟨rest, hpath, hrest⟩
    have hstrip : Text.stripPrefix path start = some (String.ofList rest) := by
      rw [stripPrefix_eq_some, String.toList_ofList]
      exact hpath
    rw [hstrip]
    rcases hrest with rfl | hboundary
    · left
      rw [List.append_nil] at hpath
      exact String.toList_inj.mp hpath
    · right
      dsimp only
      rw [String.toList_ofList, Bool.or_eq_true, decide_eq_true_eq, decide_eq_true_eq]
      exact hboundary

theorem pathMatches_sensitive_iff {start path : String} :
    pathMatches toLowercase start path .sensitive = true ↔
      AtOrBelow '/' start.toList path.toList :=
  boundary_iff

theorem pathMatches_insensitive_iff {start path : String} :
    pathMatches toLowercase start path .insensitive = true ↔
      AtOrBelow '/' (toLowercase start).toList (toLowercase path).toList :=
  boundary_iff

/-! ## Taking one part after the other -/

/-- A part that leads into a place of its own. -/
def IsComponent (part : String) : Prop :=
  '/' ∉ part.toList ∧ part ≠ "" ∧ part ≠ "." ∧ part ≠ ".."

theorem components_climb {parts : List String} {part : String}
    (h : ∀ component ∈ parts, IsComponent component) (hpart : '/' ∉ part.toList) :
    ∀ component ∈ climb parts part, IsComponent component := by
  rw [climb]
  split
  · exact h
  · rename_i hmoves
    split
    · exact fun component hcomponent => h component (List.mem_of_mem_dropLast hcomponent)
    · rename_i hup
      intro component hcomponent
      rcases List.mem_append.mp hcomponent with hbefore | hnew
      · exact h component hbefore
      · obtain rfl := List.mem_singleton.mp hnew
        exact ⟨hpart, fun h => hmoves (.inl h), fun h => hmoves (.inr h), hup⟩

theorem components_foldl_climb {parts arriving : List String}
    (h : ∀ component ∈ parts, IsComponent component) (harriving : ∀ part ∈ arriving, '/' ∉ part.toList) :
    ∀ component ∈ arriving.foldl climb parts, IsComponent component := by
  induction arriving generalizing parts with
  | nil => exact h
  | cons part later ih =>
    refine ih (components_climb h (harriving part List.mem_cons_self)) fun part hpart => ?_
    exact harriving part (List.mem_cons_of_mem _ hpart)

/-- The parts that are collected are the place that is reached. -/
theorem foldl_climb_eq_resolve (up arriving : List String) :
    arriving.foldl climb up.reverse = resolve up arriving := by
  induction arriving generalizing up with
  | nil => rfl
  | cons part later ih =>
    rw [List.foldl_cons, climb, resolve]
    split
    · exact ih up
    · split
      · rw [List.dropLast_reverse]
        exact ih up.tail
      · rw [← List.reverse_cons]
        exact ih (part :: up)

theorem slash_notMem_of_mem_split {path part : String} (h : part ∈ Text.split path '/') :
    '/' ∉ part.toList := by
  obtain ⟨segment, hsegment, rfl⟩ := List.mem_map.mp h
  rw [String.toList_ofList]
  exact notMem_of_mem_splitOn hsegment

theorem isComponent_of_mem_resolve {path part : String}
    (h : part ∈ resolve [] (Text.split path '/')) : IsComponent part := by
  rw [← foldl_climb_eq_resolve] at h
  exact components_foldl_climb (by simp) (fun part => slash_notMem_of_mem_split) part h

/-! ## The form of a path -/

/-- Strings, each behind a separator. -/
theorem toList_join_map (parts : List String) :
    (String.join (parts.map fun part => "/" ++ part)).toList =
      rooted '/' (parts.map String.toList) := by
  induction parts with
  | nil => rfl
  | cons part later ih =>
    rw [List.map_cons, String.join_cons, String.toList_append, ih]
    simp [rooted]

theorem normalise_eq (path : String) :
    normalise path =
      let parts := resolve [] (Text.split (decodedPath path) '/')
      if parts = [] then "/"
      else
        let out := String.join (parts.map fun part => "/" ++ part)
        if EndsInSlash (decodedPath path) then out ++ "/" else out := by
  rw [← foldl_climb_eq_resolve]
  rfl

/-- What follows the components of a path: nothing, or the empty part behind a last separator. -/
def ending (path : String) : List String :=
  if resolve [] (Text.split (decodedPath path) '/') = [] ∨ EndsInSlash (decodedPath path) then [""] else []

theorem eq_empty_of_mem_ending {path part : String} (h : part ∈ ending path) : part = "" := by
  rw [ending] at h
  split at h
  · exact List.mem_singleton.mp h
  · cases h

theorem toList_normalise (path : String) :
    (normalise path).toList =
      rooted '/' ((resolve [] (Text.split (decodedPath path) '/') ++ ending path).map String.toList) := by
  rw [normalise_eq]
  dsimp only
  split
  · rename_i hroot
    rw [ending, if_pos (Or.inl hroot), hroot]
    rfl
  · rename_i hdeep
    split
    · rename_i hend
      rw [ending, if_pos (Or.inr hend), List.map_append, String.toList_append, toList_join_map]
      exact (rooted_append_singleton _).symm
    · rename_i hend
      rw [ending, if_neg (not_or_intro hdeep hend), List.append_nil, toList_join_map]

theorem split_normalise (path : String) :
    Text.split (normalise path) '/' =
      "" :: (resolve [] (Text.split (decodedPath path) '/') ++ ending path) := by
  have hmap : String.ofList ∘ String.toList = id := funext fun part => String.ofList_toList
  rw [Text.split, toList_normalise, splitOn_rooted]
  · rw [List.map_cons, List.map_map, hmap, List.map_id, String.ofList_nil]
  · intro segment hsegment
    obtain ⟨part, hpart, rfl⟩ := List.mem_map.mp hsegment
    rcases List.mem_append.mp hpart with hplace | hend
    · exact (isComponent_of_mem_resolve hplace).1
    · rw [eq_empty_of_mem_ending hend]
      exact List.not_mem_nil

theorem normalForm_normalise (path : String) : NormalForm (normalise path) := by
  have hparts : ∀ part ∈ resolve [] (Text.split (decodedPath path) '/'), IsComponent part :=
    fun part => isComponent_of_mem_resolve
  refine ⟨?_, fun part hpart => ?_, fun part hpart => ?_⟩
  · rw [toList_normalise]
    refine head?_rooted fun hnil => ?_
    obtain ⟨hplace, hend⟩ := List.append_eq_nil_iff.mp (List.map_eq_nil_iff.mp hnil)
    rw [ending, if_pos (Or.inl hplace)] at hend
    cases hend
  · rw [split_normalise, List.tail_cons, ending] at hpart
    split at hpart
    · rw [List.dropLast_concat] at hpart
      exact (hparts part hpart).2.1
    · rw [List.append_nil] at hpart
      exact (hparts part (List.mem_of_mem_dropLast hpart)).2.1
  · rw [split_normalise] at hpart
    rcases List.mem_cons.mp hpart with rfl | hpart
    · decide
    · rcases List.mem_append.mp hpart with hplace | hend
      · exact (hparts part hplace).2.2
      · rw [eq_empty_of_mem_ending hend]
        decide

/-- A path ends with a separator where its last part is empty and not the only one. -/
theorem endsInSlash_iff {path : String} :
    EndsInSlash path ↔ path ≠ "" ∧ (Text.split path '/').getLast? = some "" := by
  have hlast : (Text.split path '/').getLast? = some "" ↔
      (path.toList.splitOn '/').getLast? = some [] := by
    rw [Text.split, List.getLast?_map, Option.map_eq_some_iff]
    constructor
    · rintro ⟨segment, hsegment, hempty⟩
      rw [hsegment, String.ofList_eq_empty_iff.mp hempty]
    · exact fun h => ⟨[], h, rfl⟩
  rw [EndsInSlash, getLast?_eq_sep_iff, hlast, ne_eq, ne_eq, String.toList_eq_nil_iff]

/-- A last separator is that of the root or the one that was asked for. -/
theorem endsInSlash_normalise {path : String} (h : EndsInSlash (normalise path)) :
    normalise path = "/" ∨ EndsInSlash (decodedPath path) := by
  by_cases hroot : resolve [] (Text.split (decodedPath path) '/') = []
  · left
    rw [normalise_eq]
    exact if_pos hroot
  · refine .inr (by_contra fun hend => ?_)
    have hsplit := (endsInSlash_iff.mp h).2
    rw [split_normalise, ending, if_neg (not_or_intro hroot hend), List.append_nil,
      List.getLast?_cons_of_ne_nil hroot] at hsplit
    exact (isComponent_of_mem_resolve (List.mem_of_getLast? hsplit)).2.1 rfl

/-- The parts of a path in normal form that does not end with a separator are its components. -/
theorem NormalForm.split_eq {path : String} (h : NormalForm path) (hend : ¬ EndsInSlash path) :
    Text.split path '/' = "" :: components path := by
  obtain ⟨segments, hne, hsegments, -⟩ := splitOn_of_head h.rooted
  have hsplit : Text.split path '/' = "" :: segments.map String.ofList := by
    rw [Text.split, hsegments, List.map_cons, String.ofList_nil]
  have hpath : path ≠ "" := by
    rintro rfl
    cases h.rooted
  have hparts : ∀ part ∈ segments.map String.ofList, part ≠ "" := by
    intro part hpart hempty
    have hmapped : segments.map String.ofList ≠ [] := fun hnil => hne (List.map_eq_nil_iff.mp hnil)
    rw [← List.dropLast_append_getLast hmapped] at hpart
    rcases List.mem_append.mp hpart with hinner | hlast
    · refine h.nonempty part ?_ hempty
      rwa [hsplit, List.tail_cons]
    · refine hend (endsInSlash_iff.mpr ⟨hpath, ?_⟩)
      rw [hsplit, List.getLast?_cons_of_ne_nil hmapped, List.getLast?_eq_getLast_of_ne_nil hmapped,
        ← List.mem_singleton.mp hlast, hempty]
  rw [components, hsplit, List.filter_cons_of_neg (by decide),
    List.filter_eq_self.mpr fun part hpart => decide_eq_true (hparts part hpart)]

/-- The components of a path in normal form are the first ones of a place and of what follows them
exactly where they are the first ones of the place. -/
theorem prefix_ending_iff {parts place : List String} {path : String}
    (h : ∀ part ∈ parts, part ≠ "") : parts <+: place ++ ending path ↔ parts <+: place := by
  constructor
  · intro hprefix
    rw [ending] at hprefix
    split at hprefix
    · rcases List.prefix_concat_iff.mp hprefix with rfl | hplace
      · exact absurd rfl (h "" (List.mem_append_right _ (List.mem_singleton_self "")))
      · exact hplace
    · rwa [List.append_nil] at hprefix
  · exact fun hplace => hplace.trans (List.prefix_append place _)

/-- Every path is matched in normal form, and a rule whose own path is in normal form takes it exactly
when the components of the rule are the first ones of where the decoded path leads. -/
theorem normalise_resolves (toLowercase : String → String) (path : String) :
    NormalForm (normalise path) ∧
      (EndsInSlash (normalise path) → normalise path = "/" ∨ EndsInSlash (decodedPath path)) ∧
      ∀ start, NormalForm start → (EndsInSlash start → start = "/") →
        (pathMatches toLowercase start (normalise path) .sensitive = true ↔
          components start <+: resolve [] (Text.split (decodedPath path) '/')) := by
  refine ⟨normalForm_normalise path, endsInSlash_normalise, fun start hstart hroot => ?_⟩
  rw [pathMatches_sensitive_iff]
  by_cases hend : EndsInSlash start
  · have hcomponents : components "/" = [] := by decide
    obtain rfl := hroot hend
    rw [prefix_iff_atOrBelow hend, hcomponents]
    obtain ⟨rest, hrest⟩ := List.head?_eq_some_iff.mp (normalForm_normalise path).rooted
    exact ⟨fun _ => List.nil_prefix, fun _ => ⟨rest, hrest.symm⟩⟩
  · have hnonempty : ∀ part ∈ components start, part ≠ "" := fun part hpart =>
      of_decide_eq_true (List.mem_filter.mp hpart).2
    have hsplit : start.toList.splitOn '/' <+: (normalise path).toList.splitOn '/' ↔
        Text.split start '/' <+: Text.split (normalise path) '/' :=
      (List.prefix_map_iff_of_injective fun _ _ => String.ofList_inj.mp).symm
    rw [← splitOn_prefix_iff hend, hsplit, hstart.split_eq hend, split_normalise, List.cons_prefix_cons,
      prefix_ending_iff hnonempty, and_iff_right rfl]

/-! ## Writing a path in another way -/

/-- What a path decodes to, if that is text. -/
theorem decodedPath_eq (path : String) :
    decodedPath path = (Text.fromUtf8 (decodedBytes path)).getD (pathPart path) := rfl

/-- The form a path is matched in depends on nothing but the decoded path. -/
theorem normalise_congr {path path' : String} (h : decodedPath path = decodedPath path') :
    normalise path = normalise path' := by
  rw [normalise_eq, normalise_eq, h]

/-- Writing a path with other escapes changes neither the rule it falls under nor the answer to a
challenge, as long as what it decodes to is text. -/
theorem decide_reencoded (toLowercase : String → String) {path path' : String}
    (h : decodedBytes path = decodedBytes path')
    (htext : (Text.fromUtf8 (decodedBytes path)).isSome) :
    (∀ frontend host, decide toLowercase frontend host path = decide toLowercase frontend host path') ∧
      ∀ challenges port, reply challenges port path = reply challenges port path' := by
  obtain ⟨text, htext⟩ := Option.isSome_iff_exists.mp htext
  have hnormalise : normalise path = normalise path' := by
    apply normalise_congr
    rw [decodedPath_eq, decodedPath_eq, ← h, htext, Option.getD_some, Option.getD_some]
  constructor
  · intro frontend host
    rw [decide, decide, hnormalise]
  · intro challenges port
    rw [reply, reply, hnormalise]

/-- A frontend that redirects what stands under one path. -/
def redirecting (start : String) : Frontend :=
  Templates.httpsFrontend "web" ⟨"vip"⟩ []
    [⟨none, some start, .sensitive, .redirect .permanent, none⟩] ⟨"web"⟩ 30

theorem decide_reencoded_owa : decodedBytes "/%6Fwa?a" = decodedBytes "/o%77a" ∧
    (Text.fromUtf8 (decodedBytes "/%6Fwa?a")).isSome ∧
    decide String.toLower (redirecting "/owa") none "/%6Fwa?a" =
      decide String.toLower (redirecting "/owa") none "/o%77a" := by
  have hbytes : decodedBytes "/%6Fwa?a" = decodedBytes "/o%77a" := by decide +kernel
  have htext : (Text.fromUtf8 (decodedBytes "/%6Fwa?a")).isSome := by decide +kernel
  exact ⟨hbytes, htext, (decide_reencoded String.toLower hbytes htext).1 _ _⟩

/-- What decodes to no text is left as it arrived, and two ways of writing it stay two paths. -/
theorem undecodable_falls_apart : decodedBytes "/%ff" = decodedBytes "/%FF" ∧
    decide String.toLower (redirecting "/%FF") none "/%ff" ≠
      decide String.toLower (redirecting "/%FF") none "/%FF" := by
  decide +kernel

end EkEk.Dataplane.Route
