import Mathlib.Data.Finmap
import Mathlib.Data.Finset.Sort

/-!
# Finite maps as rows

A finite map written down as a list of rows in the order of their keys, and read back row by row. The
keys of the map are wrapped keys of the rows, which `e` takes off and puts on again. Reading the rows
of a map gives the map, whatever wraps its keys.
-/

namespace Keyed

variable {α κ : Type*} {β : Type*} [DecidableEq α] [LinearOrder κ] (e : α ≃ κ)

/-- The keys of the rows, in order. -/
def keys (m : Finmap fun _ : α => β) : List κ := (m.keys.map e.toEmbedding).sort (· ≤ ·)

/-- The rows of a map, in the order of their keys. -/
def rows (m : Finmap fun _ : α => β) : List (κ × β) :=
  (keys e m).filterMap fun key => (m.lookup (e.symm key)).map fun value => (key, value)

/-- The map that rows are of. The last row of a key counts. -/
def ofRows (rows : List (κ × β)) : Finmap fun _ : α => β :=
  rows.foldl (fun m row => m.insert (e.symm row.1) row.2) ∅

/-- Rows of a table, read in the order of their keys. -/
def ordered (rows : List (κ × β)) : List (κ × β) :=
  rows.insertionSort fun first second => first.1 ≤ second.1

/-- The members of a set, in order. -/
def members (s : Finset α) : List κ := (s.map e.toEmbedding).sort (· ≤ ·)

/-- The set that members are of. -/
def ofMembers (members : List κ) : Finset α := (members.map e.symm).toFinset

variable {e} {m : Finmap fun _ : α => β}

omit [DecidableEq α] in
theorem mem_keys {key : κ} : key ∈ keys e m ↔ e.symm key ∈ m := by
  rw [keys, Finset.mem_sort, Finset.mem_map]
  constructor
  · rintro ⟨a, ha, rfl⟩
    simpa using Finmap.mem_keys.mp ha
  · intro h
    exact ⟨e.symm key, Finmap.mem_keys.mpr h, e.apply_symm_apply key⟩

theorem mem_rows {key : κ} {value : β} :
    (key, value) ∈ rows e m ↔ m.lookup (e.symm key) = some value := by
  rw [rows, List.mem_filterMap]
  constructor
  · rintro ⟨other, -, hlookup⟩
    obtain ⟨held, hheld, heq⟩ := Option.map_eq_some_iff.mp hlookup
    obtain ⟨rfl, rfl⟩ := Prod.mk.injEq .. ▸ heq
    exact hheld
  · intro h
    refine ⟨key, mem_keys.mpr (Finmap.mem_of_lookup_eq_some h), ?_⟩
    rw [h]
    rfl

/-- The keys of the rows are the keys of the map, each of them once and in order. -/
theorem map_fst_rows : (rows e m).map Prod.fst = keys e m := by
  rw [rows, List.map_filterMap]
  refine (List.filterMap_congr fun key hkey => ?_).trans List.filterMap_some
  obtain ⟨value, hvalue⟩ := Option.isSome_iff_exists.mp
    (Finmap.lookup_isSome.mpr (mem_keys.mp hkey))
  rw [hvalue]
  rfl

theorem nodup_rows : ((rows e m).map Prod.fst).Nodup := by
  rw [map_fst_rows]
  exact Finset.sort_nodup _ _

/-- A map that rows of different keys are of holds what they say. -/
theorem lookup_ofRows {rows : List (κ × β)} (h : (rows.map Prod.fst).Nodup) {key : κ} {value : β} :
    (ofRows e rows).lookup (e.symm key) = some value ↔ (key, value) ∈ rows := by
  induction rows using List.reverseRecOn with
  | nil => simp [ofRows]
  | append_singleton rows row ih =>
    rw [List.map_append] at h
    obtain ⟨hbefore, -, hnew⟩ := List.nodup_append.mp h
    rw [ofRows, List.foldl_append]
    show ((ofRows e rows).insert (e.symm row.1) row.2).lookup (e.symm key) = some value ↔ _
    by_cases hkey : key = row.1
    · subst hkey
      rw [Finmap.lookup_insert, List.mem_append, List.mem_singleton]
      have hout : (row.1, value) ∉ rows := fun hmem =>
        hnew row.1 (List.mem_map.mpr ⟨_, hmem, rfl⟩) row.1 (List.mem_singleton.mpr rfl) rfl
      constructor
      · rintro ⟨⟩
        exact .inr rfl
      · rintro (hmem | heq)
        · exact absurd hmem hout
        · rw [← heq]
    · rw [Finmap.lookup_insert_of_ne _ (e.symm.injective.ne hkey), ih hbefore, List.mem_append,
        List.mem_singleton]
      refine ⟨.inl, ?_⟩
      rintro (hmem | heq)
      · exact hmem
      · exact absurd (congrArg Prod.fst heq) hkey

/-- A map is read back from its rows. -/
@[simp] theorem ofRows_rows : ofRows e (rows e m) = m := by
  refine Finmap.ext_lookup fun a => Option.ext fun value => ?_
  have h : (ofRows e (rows e m)).lookup (e.symm (e a)) = some value ↔ (e a, value) ∈ rows e m :=
    lookup_ofRows nodup_rows
  rw [mem_rows, e.symm_apply_apply] at h
  exact h

/-- A set is read back from its members. -/
@[simp] theorem ofMembers_members (s : Finset α) : ofMembers e (members e s) = s := by
  ext a
  simp only [ofMembers, members, List.mem_toFinset, List.mem_map, Finset.mem_sort, Finset.mem_map_equiv]
  constructor
  · rintro ⟨key, hkey, rfl⟩
    exact hkey
  · intro ha
    exact ⟨e a, by simpa using ha, e.symm_apply_apply a⟩

/-- Rows that go by the keys of a map, in their order, are in order. -/
theorem ordered_of_keys {γ : Type*} {rows' : List (κ × γ)}
    (h : rows'.map Prod.fst = (rows e m).map Prod.fst) : ordered rows' = rows' := by
  have hsorted : (rows'.map Prod.fst).Pairwise (· ≤ ·) := by
    rw [h, map_fst_rows]
    exact Finset.pairwise_sort _ _
  exact (List.pairwise_map.mp hsorted).insertionSort_eq

/-- Rows of different keys that are in order are what other rows come to in their order. -/
theorem ordered_eq {rows rows' : List (κ × β)} (hperm : rows.Perm rows')
    (hnodup : (rows.map Prod.fst).Nodup)
    (hsorted : rows'.Pairwise fun first second => first.1 ≤ second.1) : ordered rows = rows' := by
  have hordered : (ordered rows).Pairwise fun first second => first.1 ≤ second.1 :=
    @List.pairwise_insertionSort _ (fun first second : κ × β => first.1 ≤ second.1) _
      ⟨fun first second => le_total first.1 second.1⟩ ⟨fun _ _ _ => le_trans⟩ rows
  refine List.Perm.eq_of_pairwise ?_ hordered hsorted
    ((List.perm_insertionSort _ rows).trans hperm)
  intro first second hfirst hsecond hle hge
  exact List.inj_on_of_nodup_map hnodup ((List.mem_insertionSort _).mp hfirst)
    (hperm.mem_iff.mpr hsecond) (le_antisymm hle hge)

/-- Where keys are told apart, what is found under a key is what is there with it. -/
theorem find?_eq_some {γ ι : Type*} [DecidableEq ι] {l : List γ} {key : γ → ι}
    (h : (l.map key).Nodup) {k : ι} {x : γ} :
    (l.find? fun y => key y = k) = some x ↔ x ∈ l ∧ key x = k := by
  constructor
  · intro hfind
    exact ⟨List.mem_of_find?_eq_some hfind, by simpa using List.find?_some hfind⟩
  · rintro ⟨hmem, rfl⟩
    cases hfind : l.find? fun y => key y = key x with
    | none => exact absurd (decide_eq_true rfl) (List.find?_eq_none.mp hfind x hmem)
    | some y =>
      have hkey : key y = key x := by simpa using List.find?_some hfind
      rw [List.inj_on_of_nodup_map h (List.mem_of_find?_eq_some hfind) hmem hkey]

theorem mem_ordered {rows : List (κ × β)} {row : κ × β} : row ∈ ordered rows ↔ row ∈ rows :=
  List.mem_insertionSort _

/-- The keys of ordered rows depend on the keys of the rows only. -/
theorem map_fst_ordered (rows : List (κ × β)) :
    (ordered rows).map Prod.fst = (rows.map Prod.fst).insertionSort (· ≤ ·) :=
  List.map_insertionSort _ _ _ _ fun _ _ _ _ => Iff.rfl

/-- Maps that hold related values under the same keys have related rows. -/
theorem rows_forall₂ {γ : Type*} {m' : Finmap fun _ : α => γ} {R : β → γ → Prop}
    (h : ∀ a, Option.Rel R (m.lookup a) (m'.lookup a)) :
    List.Forall₂ (fun row row' => row.1 = row'.1 ∧ R row.2 row'.2) (rows e m) (rows e m') := by
  have hkeys : keys e m = keys e m' := by
    have hmem : m.keys = m'.keys := by
      ext a
      rw [Finmap.mem_keys, Finmap.mem_keys, ← Finmap.lookup_isSome, ← Finmap.lookup_isSome]
      have ha := h a
      generalize m.lookup a = held at ha ⊢
      generalize m'.lookup a = held' at ha ⊢
      cases ha <;> rfl
    rw [keys, keys, hmem]
  rw [rows, rows, ← hkeys]
  induction keys e m with
  | nil => exact .nil
  | cons key keys ih =>
    have hkey := h (e.symm key)
    rw [List.filterMap_cons, List.filterMap_cons]
    generalize m.lookup (e.symm key) = held at hkey ⊢
    generalize m'.lookup (e.symm key) = held' at hkey ⊢
    cases hkey with
    | none => exact ih
    | some hrel => exact .cons ⟨rfl, hrel⟩ ih

section

variable {α' γ : Type*} [DecidableEq α'] {e' : α' ≃ κ}

/-- Another map by the same keys, wrapped another way, with every value turned into another. -/
def mapped (e : α ≃ κ) (e' : α' ≃ κ) (f : β → γ) (m : Finmap fun _ : α => β) :
    Finmap fun _ : α' => γ :=
  ofRows e' ((rows e m).map fun row => (row.1, f row.2))

theorem lookup_mapped (f : β → γ) (key : κ) :
    (mapped e e' f m).lookup (e'.symm key) = (m.lookup (e.symm key)).map f := by
  have hnodup : (((rows e m).map fun row => (row.1, f row.2)).map Prod.fst).Nodup := by
    rw [List.map_map]
    exact nodup_rows (e := e) (m := m)
  refine Option.ext fun value => ?_
  rw [mapped, lookup_ofRows hnodup, List.mem_map, Option.map_eq_some_iff]
  constructor
  · rintro ⟨⟨other, held⟩, hmem, heq⟩
    obtain ⟨rfl, rfl⟩ := Prod.mk.injEq .. ▸ heq
    exact ⟨held, mem_rows.mp hmem, rfl⟩
  · rintro ⟨held, hheld, rfl⟩
    exact ⟨(key, held), mem_rows.mpr hheld, rfl⟩

/-- Values that are turned back come to where they were. -/
theorem mapped_mapped {f : β → γ} {g : γ → β} (h : ∀ value, g (f value) = value) :
    mapped e' e g (mapped e e' f m) = m := by
  refine Finmap.ext_lookup fun a => ?_
  obtain ⟨key, rfl⟩ := e.symm.surjective a
  rw [lookup_mapped, lookup_mapped, Option.map_map]
  cases m.lookup (e.symm key) with
  | none => rfl
  | some value => exact congrArg some (h value)

end

end Keyed
