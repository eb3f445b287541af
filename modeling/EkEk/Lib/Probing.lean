import Mathlib.Data.Finset.Card
import Mathlib.Data.ZMod.Basic

/-!
# Open addressing

Keys are placed one after another. Every key has a list of slots it tries, its probes, and gets the
first of them that nobody has. Nothing is assumed of the probes in the first part: whatever they are,
leaving a key out leaves at most one slot out (`fill_of_short`), and putting one in moves another key
exactly when it gets a slot that was in use (`assign_insert_iff`).

In the second part the slots are a ring and a key tries the slots from its home on. `mem_fill_iff` says
which slots are in use then by counting homes: those with an arc of the ring that ends in them and has
at least as many homes in it as slots. The order the keys came in is not part of that.
-/

namespace Probing

variable {κ α : Type*} [DecidableEq α] (probes : κ → List α)

/-- The first probe of a key that is not taken. -/
def place (taken : Finset α) (key : κ) : Option α := (probes key).find? (· ∉ taken)

/-- Place keys one after another. A key that finds nothing is left out. -/
def assign : Finset α → List κ → List (κ × α)
  | _, [] => []
  | taken, key :: keys =>
    match place probes taken key with
    | some slot => (key, slot) :: assign (insert slot taken) keys
    | none => assign taken keys

/-- What is taken once keys have been placed. -/
def fill (taken : Finset α) (keys : List κ) : Finset α :=
  taken ∪ ((assign probes taken keys).map Prod.snd).toFinset

variable {probes} {taken : Finset α} {key : κ} {keys : List κ} {slot : α}

theorem place_eq_some : place probes taken key = some slot ↔
    slot ∉ taken ∧ ∃ before after, probes key = before ++ slot :: after ∧ ∀ x ∈ before, x ∈ taken := by
  simp [place, List.find?_eq_some_iff_append]

theorem place_eq_none : place probes taken key = none ↔ ∀ x ∈ probes key, x ∈ taken := by
  simp [place]

/-- A key goes on as before if a slot is taken that it did not get. -/
theorem place_insert_of_ne {other : α} (h : place probes taken key ≠ some other) :
    place probes (insert other taken) key = place probes taken key := by
  cases hplace : place probes taken key with
  | none =>
    exact place_eq_none.mpr fun x hx => Finset.mem_insert_of_mem (place_eq_none.mp hplace x hx)
  | some slot =>
    obtain ⟨hfree, before, after, heq, hbefore⟩ := place_eq_some.mp hplace
    have hne : slot ≠ other := fun hsame => h (hplace.trans (congrArg some hsame))
    refine place_eq_some.mpr ⟨?_, before, after, heq, fun x hx => ?_⟩
    · simp [hne, hfree]
    · exact Finset.mem_insert_of_mem (hbefore x hx)

/-- The first probe is taken if it can be. -/
theorem place_of_head {rest : List α} (hprobes : probes key = slot :: rest) (hfree : slot ∉ taken) :
    place probes taken key = some slot :=
  place_eq_some.mpr ⟨hfree, [], rest, hprobes, fun _ h => absurd h List.not_mem_nil⟩

theorem assign_cons_of_some (h : place probes taken key = some slot) (keys : List κ) :
    assign probes taken (key :: keys) = (key, slot) :: assign probes (insert slot taken) keys := by
  rw [assign, h]

theorem assign_cons_of_none (h : place probes taken key = none) (keys : List κ) :
    assign probes taken (key :: keys) = assign probes taken keys := by
  rw [assign, h]

theorem fill_cons_of_some (h : place probes taken key = some slot) (keys : List κ) :
    fill probes taken (key :: keys) = fill probes (insert slot taken) keys := by
  rw [fill, fill, assign_cons_of_some h, List.map_cons, List.toFinset_cons, Finset.union_insert,
    Finset.insert_union]

theorem fill_cons_of_none (h : place probes taken key = none) (keys : List κ) :
    fill probes taken (key :: keys) = fill probes taken keys := by
  rw [fill, fill, assign_cons_of_none h]

theorem subset_fill : taken ⊆ fill probes taken keys := Finset.subset_union_left

theorem mem_fill_of_mem_assign {entry : κ × α} (h : entry ∈ assign probes taken keys) :
    entry.2 ∈ fill probes taken keys :=
  Finset.mem_union_right _ (List.mem_toFinset.mpr (List.mem_map_of_mem h))

theorem exists_mem_assign (h : slot ∈ fill probes ∅ keys) :
    ∃ entry ∈ assign probes ∅ keys, entry.2 = slot := by
  rw [fill, Finset.empty_union, List.mem_toFinset] at h
  exact List.mem_map.mp h

theorem assign_append (taken : Finset α) (first second : List κ) :
    assign probes taken (first ++ second) =
      assign probes taken first ++ assign probes (fill probes taken first) second := by
  induction first generalizing taken with
  | nil => simp [assign, fill]
  | cons key first ih =>
    cases h : place probes taken key with
    | none => rw [List.cons_append, assign_cons_of_none h, assign_cons_of_none h, ih,
        fill_cons_of_none h]
    | some slot => rw [List.cons_append, assign_cons_of_some h, assign_cons_of_some h, ih,
        fill_cons_of_some h, List.cons_append]

theorem fill_append (taken : Finset α) (first second : List κ) :
    fill probes taken (first ++ second) = fill probes (fill probes taken first) second := by
  rw [fill, assign_append, List.map_append, List.toFinset_append, ← Finset.union_assoc]
  rfl

/-- Where a key was placed, and that everything it tried before was in use. -/
theorem exists_of_mem_assign {entry : κ × α} (h : entry ∈ assign probes taken keys) :
    entry.1 ∈ keys ∧ entry.2 ∉ taken ∧ ∃ before after, probes entry.1 = before ++ entry.2 :: after ∧
      ∀ x ∈ before, x ∈ fill probes taken keys := by
  induction keys generalizing taken with
  | nil => exact absurd h List.not_mem_nil
  | cons key keys ih =>
    cases hplace : place probes taken key with
    | none =>
      rw [assign_cons_of_none hplace] at h
      obtain ⟨hkey, hfree, hbefore⟩ := ih h
      rw [fill_cons_of_none hplace]
      exact ⟨List.mem_cons_of_mem _ hkey, hfree, hbefore⟩
    | some slot =>
      rw [assign_cons_of_some hplace] at h
      rw [fill_cons_of_some hplace]
      rcases List.mem_cons.mp h with rfl | hlater
      · obtain ⟨hfree, before, after, heq, hbefore⟩ := place_eq_some.mp hplace
        exact ⟨List.mem_cons_self, hfree, before, after, heq, fun x hx =>
          subset_fill (Finset.mem_insert_of_mem (hbefore x hx))⟩
      · obtain ⟨hkey, hfree, hbefore⟩ := ih hlater
        exact ⟨List.mem_cons_of_mem _ hkey, fun hin => hfree (Finset.mem_insert_of_mem hin), hbefore⟩

/-- No slot is given to two keys. -/
theorem nodup_assign : ((assign probes taken keys).map Prod.snd).Nodup := by
  induction keys generalizing taken with
  | nil => exact List.nodup_nil
  | cons key keys ih =>
    cases hplace : place probes taken key with
    | none =>
      rw [assign_cons_of_none hplace]
      exact ih
    | some slot =>
      rw [assign_cons_of_some hplace, List.map_cons, List.nodup_cons]
      refine ⟨fun hin => ?_, ih⟩
      obtain ⟨entry, hentry, rfl⟩ := List.mem_map.mp hin
      exact (exists_of_mem_assign hentry).2.1 (Finset.mem_insert_self _ _)

/-! ## Room for everybody -/

section

variable {n : ℕ} (hprobes : ∀ key, (probes key).Nodup ∧ (probes key).length = n)
include hprobes

theorem exists_place (hroom : taken.card < n) (key : κ) :
    ∃ slot, place probes taken key = some slot := by
  refine Option.ne_none_iff_exists'.mp fun hnone => ?_
  obtain ⟨hnodup, hlength⟩ := hprobes key
  have hsubset : (probes key).toFinset ⊆ taken := fun x hx =>
    place_eq_none.mp hnone x (List.mem_toFinset.mp hx)
  have hcard := Finset.card_le_card hsubset
  rw [List.toFinset_card_of_nodup hnodup, hlength] at hcard
  omega

/-- Every key is placed as long as there are no more keys than slots. -/
theorem map_fst_assign (hroom : taken.card + keys.length ≤ n) :
    (assign probes taken keys).map Prod.fst = keys := by
  induction keys generalizing taken with
  | nil => rfl
  | cons key keys ih =>
    rw [List.length_cons] at hroom
    obtain ⟨slot, hplace⟩ := exists_place hprobes (by omega : taken.card < n) key
    have hcard : (insert slot taken).card = taken.card + 1 :=
      Finset.card_insert_of_notMem (place_eq_some.mp hplace).1
    rw [assign_cons_of_some hplace, List.map_cons, ih (by omega)]

theorem card_fill (hroom : keys.length ≤ n) : (fill probes ∅ keys).card = keys.length := by
  have hkeys := congrArg List.length (@map_fst_assign _ _ _ _ ∅ keys _ hprobes (by simpa using hroom))
  rw [List.length_map] at hkeys
  rw [fill, Finset.empty_union, List.toFinset_card_of_nodup nodup_assign, List.length_map, hkeys]

/-- Fewer keys than slots leave one for the next key. -/
theorem exists_place_fill (hroom : keys.length < n) (key : κ) :
    ∃ slot, place probes (fill probes ∅ keys) key = some slot := by
  refine exists_place hprobes ?_ key
  rwa [card_fill hprobes hroom.le]

end

/-! ## One key more or less -/

/-- One slot less is taken, or none. -/
def Short (taken less : Finset α) : Prop := taken = less ∨ ∃ slot, slot ∉ less ∧ taken = insert slot less

theorem Short.subset {less : Finset α} (h : Short taken less) : less ⊆ taken := by
  rcases h with rfl | ⟨slot, -, rfl⟩
  · exact Finset.Subset.refl _
  · exact Finset.subset_insert _ _

/-- What one key does where one slot less is taken: it is placed as before, or in the slot that was
missing. -/
theorem Short.cons {less : Finset α} (h : Short taken less) (key : κ) :
    Short (fill probes taken [key]) (fill probes less [key]) := by
  rcases h with rfl | ⟨missing, hmissing, rfl⟩
  · exact .inl rfl
  · by_cases hplace : place probes less key = some missing
    · -- the key gets the missing slot, and whatever it had before is missing instead
      rw [fill_cons_of_some hplace]
      cases hother : place probes (insert missing less) key with
      | none =>
        rw [fill_cons_of_none hother]
        exact .inl (by simp [fill, assign])
      | some other =>
        rw [fill_cons_of_some hother]
        exact .inr ⟨other, by simpa [fill, assign] using (place_eq_some.mp hother).1,
          by simp [fill, assign]⟩
    · have hsame := place_insert_of_ne hplace
      cases hheld : place probes less key with
      | none =>
        rw [hheld] at hsame
        rw [fill_cons_of_none hheld, fill_cons_of_none hsame]
        exact .inr ⟨missing, by simpa [fill, assign] using hmissing, by simp [fill, assign]⟩
      | some slot =>
        rw [hheld] at hsame hplace
        rw [fill_cons_of_some hheld, fill_cons_of_some hsame]
        refine .inr ⟨missing, ?_, by simp [fill, assign, Finset.insert_comm]⟩
        have hne : missing ≠ slot := fun heq => hplace (congrArg some heq.symm)
        simp [fill, assign, hne, hmissing]

variable (probes) in
/-- Where one slot less is taken, one slot less is in use in the end, and whoever had the first of its
probes has it still. -/
theorem fill_of_short {less : Finset α} (h : Short taken less) (keys : List κ) :
    Short (fill probes taken keys) (fill probes less keys) ∧
      ∀ entry ∈ assign probes taken keys, (probes entry.1).head? = some entry.2 →
        entry ∈ assign probes less keys := by
  induction keys generalizing taken less with
  | nil =>
    refine ⟨?_, fun entry hentry => absurd hentry List.not_mem_nil⟩
    simpa [fill, assign] using h
  | cons key keys ih =>
    obtain ⟨hshort, hkept⟩ := ih (h.cons key)
    have happend : ∀ taken : Finset α, assign probes taken (key :: keys) =
        assign probes taken [key] ++ assign probes (fill probes taken [key]) keys :=
      fun taken => assign_append taken [key] keys
    refine ⟨?_, fun entry hentry hhead => ?_⟩
    · rw [← List.singleton_append, fill_append, fill_append]
      exact hshort
    · rw [happend] at hentry ⊢
      rcases List.mem_append.mp hentry with hthis | hlater
      · refine List.mem_append_left _ ?_
        obtain ⟨hkey, hfree, -⟩ := exists_of_mem_assign hthis
        rw [List.mem_singleton.mp hkey] at hhead
        obtain ⟨rest, hprobes⟩ : ∃ rest, probes key = entry.2 :: rest :=
          List.head?_eq_some_iff.mp hhead
        have hplace := place_of_head hprobes fun hin => hfree (h.subset hin)
        rw [assign_cons_of_some hplace, assign]
        exact List.mem_singleton.mpr (Prod.ext (List.mem_singleton.mp hkey) rfl)
      · exact List.mem_append_right _ (hkept entry hlater hhead)

/-- Taking a slot beforehand moves nobody exactly when nobody would have got it. -/
theorem assign_insert_iff (hfree : slot ∉ taken) :
    assign probes (insert slot taken) keys = assign probes taken keys ↔
      slot ∉ fill probes taken keys := by
  constructor
  · intro hsame hin
    rcases Finset.mem_union.mp hin with htaken | hgiven
    · exact hfree htaken
    · obtain ⟨entry, hentry, rfl⟩ := List.mem_map.mp (List.mem_toFinset.mp hgiven)
      rw [← hsame] at hentry
      exact (exists_of_mem_assign hentry).2.1 (Finset.mem_insert_self _ _)
  · intro hout
    induction keys generalizing taken with
    | nil => rfl
    | cons key keys ih =>
      cases hplace : place probes taken key with
      | none =>
        have hsame : place probes (insert slot taken) key = none := by
          rw [place_insert_of_ne (by rw [hplace]; exact (Option.some_ne_none _).symm), hplace]
        rw [fill_cons_of_none hplace] at hout
        rw [assign_cons_of_none hplace, assign_cons_of_none hsame, ih hfree hout]
      | some given =>
        rw [fill_cons_of_some hplace] at hout
        have hne : given ≠ slot := by
          rintro rfl
          exact hout (subset_fill (Finset.mem_insert_self _ _))
        have hsame : place probes (insert slot taken) key = some given := by
          rw [place_insert_of_ne (by rw [hplace]; exact fun h => hne (Option.some.inj h)), hplace]
        rw [assign_cons_of_some hplace, assign_cons_of_some hsame, Finset.insert_comm,
          ih (by simp [hfree, hne.symm]) hout]

/-- A key put in somewhere moves none of the others exactly when its slot was not in use without it. -/
theorem assign_subset_iff {first second : List κ}
    (hplace : place probes (fill probes taken first) key = some slot) (hkey : key ∉ second) :
    assign probes taken (first ++ second) ⊆ assign probes taken (first ++ key :: second) ↔
      slot ∉ fill probes taken (first ++ second) := by
  have hfree := (place_eq_some.mp hplace).1
  have hnew : assign probes taken (first ++ key :: second) = assign probes taken first ++
      (key, slot) :: assign probes (insert slot (fill probes taken first)) second := by
    rw [assign_append, assign_cons_of_some hplace]
  rw [fill_append]
  constructor
  · intro hsubset hin
    rcases Finset.mem_union.mp hin with htaken | hgiven
    · exact hfree htaken
    · obtain ⟨entry, hentry, hslot⟩ := List.mem_map.mp (List.mem_toFinset.mp hgiven)
      have hold : entry ∈ assign probes taken (first ++ key :: second) := by
        refine hsubset ?_
        rw [assign_append]
        exact List.mem_append_right _ hentry
      have hthis : (key, slot) ∈ assign probes taken (first ++ key :: second) := by
        rw [hnew]
        exact List.mem_append_right _ List.mem_cons_self
      have hsame : entry = (key, slot) := List.inj_on_of_nodup_map nodup_assign hold hthis hslot
      rw [hsame] at hentry
      exact hkey (exists_of_mem_assign hentry).1
  · intro hout
    rw [hnew, (assign_insert_iff hfree).mpr hout, assign_append]
    exact List.append_subset.mpr ⟨List.subset_append_left _ _,
      List.subset_append_of_subset_right _ (List.subset_cons_self _ _)⟩

/-! ## Slots in a ring -/

section Ring

variable {n : ℕ}

/-- The homes among the `k + 1` slots of a ring that end in a slot. -/
def InArc (slot : ZMod n) (k : ℕ) (home : ZMod n) : Prop := ∃ j, j ≤ k ∧ home = slot - j

instance (slot : ZMod n) (k : ℕ) (home : ZMod n) : Decidable (InArc slot k home) :=
  inferInstanceAs (Decidable (∃ j, j ≤ k ∧ home = slot - j))

/-- Some arc of the ring ends in a slot and has more homes in it than the slots before it can take. -/
def Filled (homes : List (ZMod n)) (slot : ZMod n) : Prop :=
  ∃ k, k < n ∧ k < homes.countP fun home => decide (InArc slot k home)

instance (homes : List (ZMod n)) (slot : ZMod n) : Decidable (Filled homes slot) :=
  inferInstanceAs (Decidable (∃ k, k < n ∧ k < homes.countP fun home => decide (InArc slot k home)))

/-- The order of the homes does not matter. -/
theorem filled_congr {homes homes' : List (ZMod n)} (h : homes.Perm homes') (slot : ZMod n) :
    Filled homes slot ↔ Filled homes' slot :=
  exists_congr fun _ => by rw [h.countP_eq]

/-- From every slot each other one is less than a round away. -/
theorem exists_sub [NeZero n] (slot other : ZMod n) : ∃ j, j < n ∧ other = slot - (j : ℕ) := by
  refine ⟨(slot - other).val, ZMod.val_lt _, ?_⟩
  rw [ZMod.natCast_val, ZMod.cast_id', id_eq, sub_sub_cancel]

variable {ring : ZMod n → α} {home : κ → ZMod n}
  (hprobes : ∀ key, probes key = (List.range n).map fun i => ring (home key + (i : ℕ)))
include hprobes

omit [DecidableEq α] in
/-- The probes before a slot are those from the home of the key to it. -/
theorem exists_of_probes_eq {before after : List α} (h : probes key = before ++ slot :: after) :
    ∃ i, i < n ∧ slot = ring (home key + (i : ℕ)) ∧ ∀ j < i, ring (home key + (j : ℕ)) ∈ before := by
  rw [hprobes] at h
  have hlength : before.length < n := by
    have := congrArg List.length h
    simp at this
    omega
  have hget : ∀ j, j < n → (before ++ slot :: after)[j]? = some (ring (home key + (j : ℕ))) := by
    intro j hj
    rw [← h, List.getElem?_map, List.getElem?_range hj, Option.map_some]
  refine ⟨before.length, hlength, ?_, fun j hj => ?_⟩
  · have := hget _ hlength
    rw [List.getElem?_append_right le_rfl, Nat.sub_self] at this
    simpa using this
  · have := hget j (by omega)
    rw [List.getElem?_append_left hj] at this
    exact List.mem_of_getElem? this

/-- A key that tries the slots from its home on has the slots between its home and its own in use. -/
theorem home_of_mem_assign {entry : κ × α} (h : entry ∈ assign probes ∅ keys) :
    ∃ i, i < n ∧ entry.2 = ring (home entry.1 + (i : ℕ)) ∧
      ∀ j < i, ring (home entry.1 + (j : ℕ)) ∈ fill probes ∅ keys := by
  obtain ⟨-, -, before, after, heq, hbefore⟩ := exists_of_mem_assign h
  obtain ⟨i, hi, hslot, hprobe⟩ := exists_of_probes_eq hprobes heq
  exact ⟨i, hi, hslot, fun j hj => hbefore _ (hprobe j hj)⟩

/-- Where a key goes is free in a fuller ring as well exactly when the slots from its home on are in use
up to the same one there. -/
theorem notMem_iff_of_place {more : Finset α} (hplace : place probes taken key = some slot) :
    slot ∉ more ↔ ∀ k < n, (∀ j < k, ring (home key + (j : ℕ)) ∈ taken) →
      ring (home key + (k : ℕ)) ∈ more → ring (home key + (k : ℕ)) ∈ taken := by
  obtain ⟨hfree, before, after, heq, hbefore⟩ := place_eq_some.mp hplace
  obtain ⟨i, hi, rfl, hprobe⟩ := exists_of_probes_eq hprobes heq
  constructor
  · intro hout k _ hused hmore
    rcases Nat.lt_trichotomy k i with hlt | rfl | hgt
    · exact hbefore _ (hprobe k hlt)
    · exact absurd hmore hout
    · exact absurd (hused i hgt) hfree
  · intro hend hmore
    exact hfree (hend i hi (fun j hj => hbefore _ (hprobe j hj)) hmore)

variable (hring : Function.Injective ring)
include hring

omit [DecidableEq α] in
/-- The probes go once around the ring. -/
theorem probes_nodup (key : κ) : (probes key).Nodup ∧ (probes key).length = n := by
  rw [hprobes]
  refine ⟨List.Nodup.map_on (fun i hi j hj heq => ?_) List.nodup_range, by simp⟩
  have hcast : (i : ZMod n) = (j : ℕ) := add_left_cancel (hring heq)
  rw [ZMod.natCast_eq_natCast_iff', Nat.mod_eq_of_lt (List.mem_range.mp hi),
    Nat.mod_eq_of_lt (List.mem_range.mp hj)] at hcast
  exact hcast

/-- Homes in an arc are counted by the slots their keys got. -/
theorem countP_inArc (hroom : keys.length ≤ n) (slot : ZMod n) (k : ℕ) :
    ((keys.map home).countP fun h => decide (InArc slot k h)) =
      (((assign probes ∅ keys).filter fun entry => decide (InArc slot k (home entry.1))).map
        Prod.snd).toFinset.card := by
  have hkeys : (assign probes ∅ keys).map Prod.fst = keys :=
    map_fst_assign (probes_nodup hprobes hring) (by simpa using hroom)
  rw [List.toFinset_card_of_nodup (nodup_assign.sublist (List.filter_sublist.map _)), List.length_map,
    ← List.countP_eq_length_filter, List.countP_map]
  conv_lhs => rw [← hkeys]
  rw [List.countP_map]
  rfl

/-- A slot with enough homes before it is in use: whoever does not get it got one of the slots before
it, and there are too few of these. -/
theorem mem_fill_of_filled (hroom : keys.length ≤ n) {slot : ZMod n}
    (h : Filled (keys.map home) slot) : ring slot ∈ fill probes ∅ keys := by
  by_contra hfree
  obtain ⟨k, -, hcount⟩ := h
  rw [countP_inArc hprobes hring hroom] at hcount
  have hsubset : (((assign probes ∅ keys).filter fun entry =>
      decide (InArc slot k (home entry.1))).map Prod.snd).toFinset ⊆
      (Finset.Ico 1 (k + 1)).image fun d => ring (slot - (d : ℕ)) := by
    intro x hx
    obtain ⟨entry, hentry, rfl⟩ := List.mem_map.mp (List.mem_toFinset.mp hx)
    obtain ⟨hentry, harc⟩ := List.mem_filter.mp hentry
    obtain ⟨j, hj, hhome⟩ := of_decide_eq_true harc
    obtain ⟨i, -, hslot, hbefore⟩ := home_of_mem_assign hprobes hentry
    have hshort : i < j := by
      by_contra hlong
      rcases Nat.lt_or_eq_of_le (Nat.le_of_not_lt hlong) with hlt | rfl
      · exact hfree (by simpa [hhome] using hbefore j hlt)
      · exact hfree (by simpa [hslot, hhome] using mem_fill_of_mem_assign hentry)
    refine Finset.mem_image.mpr ⟨j - i, Finset.mem_Ico.mpr ⟨by omega, by omega⟩, ?_⟩
    rw [hslot, hhome, Nat.cast_sub hshort.le]
    exact congrArg ring (sub_add _ _ _).symm
  have hcard := (Finset.card_le_card hsubset).trans Finset.card_image_le
  rw [Nat.card_Ico] at hcard
  omega

omit [DecidableEq α] hprobes in
/-- Slots less than a round before one are different slots. -/
theorem injOn_sub (slot : ZMod n) {m : ℕ} (hm : m ≤ n) :
    Set.InjOn (fun d : ℕ => ring (slot - (d : ℕ))) (Finset.range m) := by
  intro d hd e he heq
  have hcast : (d : ZMod n) = (e : ℕ) := sub_right_injective (hring heq)
  rw [Finset.coe_range, Set.mem_Iio] at hd he
  rwa [ZMod.natCast_eq_natCast_iff', Nat.mod_eq_of_lt (by omega), Nat.mod_eq_of_lt (by omega)] at hcast

/-- The keys of the slots in use from one back to one that is free have their homes there as well. -/
theorem filled_of_mem_fill [NeZero n] (hroom : keys.length ≤ n) {slot : ZMod n}
    (h : ring slot ∈ fill probes ∅ keys) : Filled (keys.map home) slot := by
  have hexists : ∃ m, m = n ∨ ring (slot - (m : ℕ)) ∉ fill probes ∅ keys := ⟨n, .inl rfl⟩
  obtain ⟨m, hend, hleast⟩ : ∃ m, (m = n ∨ ring (slot - (m : ℕ)) ∉ fill probes ∅ keys) ∧
      ∀ d < m, ¬(d = n ∨ ring (slot - (d : ℕ)) ∉ fill probes ∅ keys) :=
    ⟨Nat.find hexists, Nat.find_spec hexists, fun d hd => Nat.find_min hexists hd⟩
  have hused : ∀ d < m, ring (slot - (d : ℕ)) ∈ fill probes ∅ keys := fun d hd =>
    not_not.mp fun hfree => hleast d hd (.inr hfree)
  have hround : m ≤ n := not_lt.mp fun hlt => hleast n hlt (.inl rfl)
  have hpos : 0 < m := by
    rcases Nat.eq_zero_or_pos m with rfl | hpos
    · rcases hend with hzero | hfree
      · exact absurd hzero.symm (NeZero.ne n)
      · exact absurd (by simpa using h) hfree
    · exact hpos
  refine ⟨m - 1, by omega, ?_⟩
  rw [countP_inArc hprobes hring hroom]
  refine Nat.lt_of_lt_of_le (by omega : m - 1 < m) ?_
  have hsubset : ((Finset.range m).image fun d => ring (slot - (d : ℕ))) ⊆
      (((assign probes ∅ keys).filter fun entry =>
        decide (InArc slot (m - 1) (home entry.1))).map Prod.snd).toFinset := by
    intro x hx
    obtain ⟨d, hd, rfl⟩ := Finset.mem_image.mp hx
    have hlt := Finset.mem_range.mp hd
    obtain ⟨entry, hentry, hslot⟩ := exists_mem_assign (hused d hlt)
    refine List.mem_toFinset.mpr (List.mem_map.mpr ⟨entry, List.mem_filter.mpr ⟨hentry, ?_⟩, hslot⟩)
    refine decide_eq_true ?_
    obtain ⟨i, -, hprobe, hbefore⟩ := home_of_mem_assign hprobes hentry
    have hhome : home entry.1 = slot - ((d + i : ℕ) : ZMod n) := by
      have := hring (hprobe.symm.trans hslot)
      rw [Nat.cast_add, ← sub_sub, ← this, add_sub_cancel_right]
    rcases hend with rfl | hfree
    · obtain ⟨j, hj, heq⟩ := exists_sub slot (home entry.1)
      exact ⟨j, by omega, heq⟩
    · -- a home before the free slot would have tried it
      refine ⟨d + i, ?_, hhome⟩
      by_contra hfar
      refine hfree ?_
      have := hbefore (d + i - m) (by omega)
      rwa [hhome, sub_add, ← Nat.cast_sub (by omega), Nat.sub_sub_self (by omega)] at this
  have hcard := Finset.card_le_card hsubset
  rwa [Finset.card_image_of_injOn (injOn_sub hring slot hround), Finset.card_range] at hcard

/-- Which slots are in use: those with enough homes right before them. -/
theorem mem_fill_iff [NeZero n] (hroom : keys.length ≤ n) (slot : ZMod n) :
    ring slot ∈ fill probes ∅ keys ↔ Filled (keys.map home) slot :=
  ⟨filled_of_mem_fill hprobes hring hroom, mem_fill_of_filled hprobes hring hroom⟩

end Ring

end Probing
