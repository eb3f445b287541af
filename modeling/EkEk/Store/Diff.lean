import EkEk.Config.Accepted
import EkEk.Config.Rendered
import Mathlib.Data.List.Sort

/-!
# Comparing two documents

Reference: `crates/ek-ek-store/src/diff.rs`.

The objects of a kind are put into a map by their identities, and two passes go over the maps: one over
what was there before and one over what is there after. Each pass is in order. What the first finds need
not come before what the second finds, which `in_order_iff` is about.
-/

namespace EkEk.Diff

open Serialize Rendered

/-- A kind of object, in the order the kinds are compared in. -/
inductive ObjectKind where
  | node
  | vip
  | frontend
  | backend
  | certificate
  | dnsProvider
deriving DecidableEq, Repr

/-- The kinds, as they are declared. -/
def ObjectKind.all : List ObjectKind := [.node, .vip, .frontend, .backend, .certificate, .dnsProvider]

/-- No kind is left out. -/
theorem ObjectKind.mem_all (kind : ObjectKind) : kind ∈ all := by cases kind <;> decide

/-- The kinds are in the order they are declared in. -/
instance : LT ObjectKind := ⟨fun x y => x.ctorIdx < y.ctorIdx⟩

instance (x y : ObjectKind) : Decidable (x < y) := inferInstanceAs (Decidable (x.ctorIdx < y.ctorIdx))

/-- What became of an object. -/
inductive ObjectChange where
  | added
  | removed
  | modified
deriving DecidableEq, Repr

/-- One object that is not the same on both sides. -/
structure DiffEntry where
  kind : ObjectKind
  id : String
  change : ObjectChange
deriving DecidableEq, Repr

/-- What changed between two documents. -/
structure ConfigDiff where
  entries : List DiffEntry
deriving DecidableEq, Repr

/-- Nothing changed. -/
def ConfigDiff.isEmpty (diff : ConfigDiff) : Bool := diff.entries.isEmpty

/-- The objects of a list by their identities. None of them fails to be rendered. -/
def index {T : Type} [Serialize T] (identity : T → String) (items : List T) : List (String × Value) :=
  items.foldl (fun indexed item => Value.insert (identity item) (toValue item) indexed) []

/-- What became of an object that was there before. -/
def became (kind : ObjectKind) (after : List (String × Value)) (row : String × Value) : Option DiffEntry :=
  match after.lookup row.1 with
  | none => some ⟨kind, row.1, .removed⟩
  | some new => if new = row.2 then none else some ⟨kind, row.1, .modified⟩

/-- An object that was not there before. -/
def appeared (kind : ObjectKind) (before : List (String × Value)) (row : String × Value) : Option DiffEntry :=
  if (before.lookup row.1).isSome then none else some ⟨kind, row.1, .added⟩

/-- One kind of object on both sides: what was there before first, and then what was not. -/
def compare (kind : ObjectKind) (before after : List (String × Value)) : List DiffEntry :=
  before.filterMap (became kind after) ++ after.filterMap (appeared kind before)

/-- The objects of every kind, before and after. -/
def diff (before after : Config) : ConfigDiff where
  entries :=
    compare .node (index (fun node => node.id.asStr) before.nodes)
      (index (fun node => node.id.asStr) after.nodes) ++
    compare .vip (index (fun vip => vip.id.asStr) before.vips)
      (index (fun vip => vip.id.asStr) after.vips) ++
    compare .frontend (index (fun frontend => frontend.id.asStr) before.frontends)
      (index (fun frontend => frontend.id.asStr) after.frontends) ++
    compare .backend (index (fun backend => backend.id.asStr) before.backends)
      (index (fun backend => backend.id.asStr) after.backends) ++
    compare .certificate (index (fun certificate => certificate.id.asStr) before.certificates)
      (index (fun certificate => certificate.id.asStr) after.certificates) ++
    compare .dnsProvider (index (fun provider => provider.id.asStr) before.dnsProviders)
      (index (fun provider => provider.id.asStr) after.dnsProviders)

/-! ## The objects of a document -/

/-- An object of any kind. -/
inductive Object where
  | node (node : Node)
  | vip (vip : Vip)
  | frontend (frontend : Frontend)
  | backend (backend : Backend)
  | certificate (certificate : Certificate)
  | dnsProvider (provider : DnsProvider)
deriving DecidableEq, Repr

/-- The identity an object goes by. -/
def Object.id : Object → String
  | .node object => object.id.asStr
  | .vip object => object.id.asStr
  | .frontend object => object.id.asStr
  | .backend object => object.id.asStr
  | .certificate object => object.id.asStr
  | .dnsProvider object => object.id.asStr

/-- An object of any kind is rendered as itself. -/
instance : Serialize Object where
  toValue
    | .node node => toValue node
    | .vip vip => toValue vip
    | .frontend frontend => toValue frontend
    | .backend backend => toValue backend
    | .certificate certificate => toValue certificate
    | .dnsProvider provider => toValue provider

/-- The objects of a kind. -/
def objects (config : Config) : ObjectKind → List Object
  | .node => config.nodes.map .node
  | .vip => config.vips.map .vip
  | .frontend => config.frontends.map .frontend
  | .backend => config.backends.map .backend
  | .certificate => config.certificates.map .certificate
  | .dnsProvider => config.dnsProviders.map .dnsProvider

/-- The objects of a kind in their map. -/
def rows (config : Config) : ObjectKind → List (String × Value)
  | .node => index (fun node => node.id.asStr) config.nodes
  | .vip => index (fun vip => vip.id.asStr) config.vips
  | .frontend => index (fun frontend => frontend.id.asStr) config.frontends
  | .backend => index (fun backend => backend.id.asStr) config.backends
  | .certificate => index (fun certificate => certificate.id.asStr) config.certificates
  | .dnsProvider => index (fun provider => provider.id.asStr) config.dnsProviders

/-- The map of a kind is the one of its objects. -/
theorem rows_eq (config : Config) (kind : ObjectKind) :
    rows config kind = index Object.id (objects config kind) := by
  cases kind
  all_goals
    rw [rows, objects, index, index, List.foldl_map]
    rfl

/-- Two documents are compared kind by kind. -/
theorem diff_entries (before after : Config) : (diff before after).entries =
    ObjectKind.all.flatMap fun kind => compare kind (rows before kind) (rows after kind) := by
  simp only [diff, ObjectKind.all, List.flatMap_cons, List.flatMap_nil, List.append_nil, List.append_assoc,
    rows]

/-! ## What a map holds -/

/-- The rows stand in the order of their keys. -/
def Ascending (rows : List (String × Value)) : Prop := rows.Pairwise fun x y => x.1 < y.1

/-- What is found under a key is its row. -/
theorem lookup_eq_some_iff {rows : List (String × Value)} (h : Ascending rows) {key : String}
    {value : Value} :
    rows.lookup key = some value ↔ (key, value) ∈ rows := by
  induction rows with
  | nil => simp
  | cons row rows ih =>
    obtain ⟨held, other⟩ := row
    obtain ⟨hfirst, hrest⟩ := List.pairwise_cons.mp h
    rw [List.lookup_cons, List.mem_cons]
    by_cases heq : key = held
    · subst heq
      rw [beq_self_eq_true]
      constructor
      · rintro h
        exact .inl (by simpa using h.symm)
      · rintro (h | h)
        · simpa using h.symm
        · exact absurd (hfirst _ h) (lt_irrefl _)
    · rw [beq_eq_false_iff_ne.mpr heq]
      simp [heq, ih hrest]

/-- No row appears but the one that is inserted. -/
theorem mem_keys_insert {rows : List (String × Value)} {key : String} {value : Value} {row : String × Value}
    (h : row ∈ Value.insert key value rows) : row = (key, value) ∨ row ∈ rows := by
  induction rows with
  | nil => simpa [Value.insert] using h
  | cons first rows ih =>
    obtain ⟨held, other⟩ := first
    rw [Value.insert] at h
    split at h
    · obtain rfl | h := List.mem_cons.mp h
      · exact .inl rfl
      · exact .inr (List.mem_cons_of_mem _ h)
    · split at h
      · simpa using h
      · obtain rfl | h := List.mem_cons.mp h
        · exact .inr List.mem_cons_self
        · exact (ih h).imp_right (List.mem_cons_of_mem _)

/-- A row is inserted in the order of the keys. -/
theorem ascending_insert {rows : List (String × Value)} (h : Ascending rows) (key : String) (value : Value) :
    Ascending (Value.insert key value rows) := by
  induction rows with
  | nil => exact List.pairwise_singleton _ _
  | cons first rows ih =>
    obtain ⟨held, other⟩ := first
    obtain ⟨hfirst, hrest⟩ := List.pairwise_cons.mp h
    rw [Value.insert]
    split <;> rename_i heq
    · exact List.pairwise_cons.mpr ⟨heq ▸ hfirst, hrest⟩
    · split <;> rename_i hlt
      · refine List.pairwise_cons.mpr ⟨fun row hrow => ?_, h⟩
        obtain rfl | hrow := List.mem_cons.mp hrow
        · exact hlt
        · exact hlt.trans (hfirst row hrow)
      · refine List.pairwise_cons.mpr ⟨fun row hrow => ?_, ih hrest⟩
        obtain rfl | hrow := mem_keys_insert hrow
        · exact lt_of_le_of_ne (not_lt.mp hlt) (Ne.symm heq)
        · exact hfirst row hrow

/-- Under other keys, the same is found as before. -/
theorem lookup_insert_of_ne {rows : List (String × Value)} {key other : String} (h : other ≠ key)
    (value : Value) : (Value.insert key value rows).lookup other = rows.lookup other := by
  induction rows with
  | nil => simp [Value.insert, h]
  | cons first rows ih =>
    obtain ⟨held, found⟩ := first
    rw [Value.insert]
    split <;> rename_i heq
    · subst heq
      simp [List.lookup_cons, beq_eq_false_iff_ne.mpr h]
    · split
      · simp [List.lookup_cons, beq_eq_false_iff_ne.mpr h]
      · rw [List.lookup_cons, List.lookup_cons, ih]

section

variable {T : Type} [Serialize T] {identity : T → String} {items : List T}

/-- The object that comes last is inserted last. -/
theorem index_append (item : T) : index identity (items ++ [item]) =
    Value.insert (identity item) (toValue item) (index identity items) := by
  rw [index, List.foldl_append]
  rfl

/-- Every map is in the order of the identities. -/
theorem ascending_index : Ascending (index identity items) := by
  induction items using List.reverseRecOn with
  | nil => exact List.Pairwise.nil
  | append_singleton items item ih =>
    rw [index_append]
    exact ascending_insert ih _ _

/-- A map of objects of different identities holds each of them. -/
theorem lookup_index (h : (items.map identity).Nodup) {id : String} {value : Value} :
    (index identity items).lookup id = some value ↔
      ∃ item ∈ items, identity item = id ∧ toValue item = value := by
  induction items using List.reverseRecOn with
  | nil => simp [index]
  | append_singleton items item ih =>
    rw [List.map_append, List.map_singleton] at h
    obtain ⟨hitems, -, hnew⟩ := List.nodup_append.mp h
    rw [index_append]
    by_cases hid : id = identity item
    · subst hid
      rw [Value.lookup_insert]
      constructor
      · rintro h
        exact ⟨item, by simp, rfl, Option.some.inj h⟩
      · rintro ⟨other, hother, hid, rfl⟩
        obtain hother | rfl := List.mem_append.mp hother |>.imp_right List.mem_singleton.mp
        · exact absurd hid (hnew _ (List.mem_map_of_mem hother) _ (List.mem_singleton_self _))
        · rfl
    · rw [lookup_insert_of_ne hid, ih hitems]
      constructor
      · rintro ⟨other, hother, hrest⟩
        exact ⟨other, List.mem_append_left _ hother, hrest⟩
      · rintro ⟨other, hother, rfl, hrest⟩
        obtain hother | rfl := List.mem_append.mp hother |>.imp_right List.mem_singleton.mp
        · exact ⟨other, hother, rfl, hrest⟩
        · exact absurd rfl hid

/-- Where no object has an identity, nothing is found under it. -/
theorem lookup_index_eq_none (h : (items.map identity).Nodup) {id : String} :
    (index identity items).lookup id = none ↔ ∀ item ∈ items, identity item ≠ id := by
  rw [Option.eq_none_iff_forall_ne_some]
  constructor
  · rintro hnone item hitem rfl
    exact hnone _ ((lookup_index h).mpr ⟨item, hitem, rfl, rfl⟩)
  · rintro hne value hvalue
    obtain ⟨item, hitem, hid, -⟩ := (lookup_index h).mp hvalue
    exact hne item hitem hid

end

/-! ## What the two passes find -/

section

variable {kind : ObjectKind} {before after : List (String × Value)} {row : String × Value} {entry : DiffEntry}

/-- An object that was there before is reported where it is gone or rendered differently. -/
theorem became_eq_some : became kind after row = some entry ↔
    entry = ⟨kind, row.1, .removed⟩ ∧ after.lookup row.1 = none ∨
      entry = ⟨kind, row.1, .modified⟩ ∧ ∃ new, after.lookup row.1 = some new ∧ row.2 ≠ new := by
  rw [became]
  cases after.lookup row.1 with
  | none => simp [eq_comm]
  | some new =>
    by_cases h : new = row.2
    · simp [h]
    · simp [h, eq_comm]

/-- An object is reported as added where it was not there before. -/
theorem appeared_eq_some : appeared kind before row = some entry ↔
    entry = ⟨kind, row.1, .added⟩ ∧ before.lookup row.1 = none := by
  rw [appeared]
  cases before.lookup row.1 with
  | none => simp [eq_comm]
  | some old => simp

variable (hbefore : Ascending before) (hafter : Ascending after)

include hbefore hafter

/-- What is reported of a kind is read off the two maps. -/
theorem mem_compare : entry ∈ compare kind before after ↔ entry.kind = kind ∧
    match entry.change with
    | .added => before.lookup entry.id = none ∧ ∃ new, after.lookup entry.id = some new
    | .removed => (∃ old, before.lookup entry.id = some old) ∧ after.lookup entry.id = none
    | .modified => ∃ old new, before.lookup entry.id = some old ∧ after.lookup entry.id = some new ∧
        old ≠ new := by
  obtain ⟨found, id, change⟩ := entry
  rw [compare, List.mem_append, List.mem_filterMap, List.mem_filterMap]
  simp only [became_eq_some, appeared_eq_some, Prod.exists, ← lookup_eq_some_iff hbefore,
    ← lookup_eq_some_iff hafter, DiffEntry.mk.injEq]
  cases change
  · grind
  · grind
  · grind

/-- Each pass is in the order of the identities. -/
theorem pairwise_compare : (compare kind before after).Pairwise (fun x y => x.id < y.id) ↔
    ∀ x ∈ compare kind before after, ∀ y ∈ compare kind before after,
      x.change ≠ .added → y.change = .added → x.id < y.id := by
  have hheld : (before.filterMap (became kind after)).Pairwise fun x y => x.id < y.id := by
    refine hbefore.filterMap _ fun x y hlt first hfirst second hsecond => ?_
    obtain ⟨rfl, -⟩ | ⟨rfl, -⟩ := became_eq_some.mp hfirst <;>
      obtain ⟨rfl, -⟩ | ⟨rfl, -⟩ := became_eq_some.mp hsecond <;> exact hlt
  have hfresh : (after.filterMap (appeared kind before)).Pairwise fun x y => x.id < y.id := by
    refine hafter.filterMap _ fun x y hlt first hfirst second hsecond => ?_
    obtain ⟨rfl, -⟩ := appeared_eq_some.mp hfirst
    obtain ⟨rfl, -⟩ := appeared_eq_some.mp hsecond
    exact hlt
  have hchange : ∀ x ∈ before.filterMap (became kind after), x.change ≠ .added := by
    intro x hx
    obtain ⟨row, -, hrow⟩ := List.mem_filterMap.mp hx
    obtain ⟨rfl, -⟩ | ⟨rfl, -⟩ := became_eq_some.mp hrow <;> exact ObjectChange.noConfusion
  have hadded : ∀ x ∈ after.filterMap (appeared kind before), x.change = .added := by
    intro x hx
    obtain ⟨row, -, hrow⟩ := List.mem_filterMap.mp hx
    obtain ⟨rfl, -⟩ := appeared_eq_some.mp hrow
    rfl
  rw [compare, List.pairwise_append]
  constructor
  · rintro ⟨-, -, h⟩ x hx y hy hxchange hychange
    obtain hx | hx := List.mem_append.mp hx
    · obtain hy | hy := List.mem_append.mp hy
      · exact absurd hychange (hchange y hy)
      · exact h x hx y hy
    · exact absurd (hadded x hx) hxchange
  · intro h
    exact ⟨hheld, hfresh, fun x hx y hy => h x (List.mem_append_left _ hx) y (List.mem_append_right _ hy)
      (hchange x hx) (hadded y hy)⟩

end

/-- The map of every kind is in the order of the identities. -/
theorem ascending_rows (config : Config) (kind : ObjectKind) : Ascending (rows config kind) := by
  rw [rows_eq]
  exact ascending_index

/-! ## What differs between two documents -/

/-- The identities of each kind are told apart. -/
def Identified (config : Config) : Prop := ∀ kind, ((objects config kind).map Object.id).Nodup

/-- The times of the certificates are times there are in the source. -/
def Timed (config : Config) : Prop := ∀ certificate ∈ config.certificates, Dated certificate

/-- A document has an object of a kind. -/
def Has (config : Config) (kind : ObjectKind) (id : String) : Prop :=
  ∃ object ∈ objects config kind, object.id = id

/-- A document has an object of a kind and another document has not. -/
def Only (config other : Config) (kind : ObjectKind) (id : String) : Prop :=
  Has config kind id ∧ ¬ Has other kind id

/-- Two documents have objects of one kind and identity that are not the same. -/
def Differs (before after : Config) (kind : ObjectKind) (id : String) : Prop :=
  ∃ old ∈ objects before kind, ∃ new ∈ objects after kind, old.id = id ∧ new.id = id ∧ old ≠ new

/-- Two documents differ both ways alike. -/
theorem differs_comm {before after : Config} {kind : ObjectKind} {id : String} :
    Differs before after kind id ↔ Differs after before kind id := by
  constructor <;> rintro ⟨old, hold, new, hnew, hid, hid', hne⟩ <;>
    exact ⟨new, hnew, old, hold, hid', hid, hne.symm⟩

section

variable {before after : Config}

/-- An object is known from what it is rendered as, among those of its kind. -/
theorem object_inj (hbefore : Timed before) (hafter : Timed after) {kind : ObjectKind} {x y : Object}
    (hx : x ∈ objects before kind) (hy : y ∈ objects after kind) (h : toValue x = toValue y) : x = y := by
  cases kind
  case certificate =>
    obtain ⟨old, hold, rfl⟩ := List.mem_map.mp hx
    obtain ⟨new, hnew, rfl⟩ := List.mem_map.mp hy
    exact congrArg _ (certificate_inj (hbefore old hold) (hafter new hnew) h)
  all_goals
    obtain ⟨old, -, rfl⟩ := List.mem_map.mp hx
    obtain ⟨new, -, rfl⟩ := List.mem_map.mp hy
    exact congrArg _ (Faithful.inj h)

/-- What is found in the map of a kind is an object of that kind. -/
theorem lookup_rows (h : Identified before) {kind : ObjectKind} {id : String} {value : Value} :
    (rows before kind).lookup id = some value ↔
      ∃ object ∈ objects before kind, object.id = id ∧ toValue object = value := by
  rw [rows_eq]
  exact lookup_index (h kind)

/-- Nothing is found where the document has no such object. -/
theorem lookup_rows_eq_none (h : Identified before) {kind : ObjectKind} {id : String} :
    (rows before kind).lookup id = none ↔ ¬ Has before kind id := by
  rw [rows_eq, lookup_index_eq_none (h kind), Has]
  push Not
  rfl

theorem exists_lookup_rows (h : Identified before) {kind : ObjectKind} {id : String} :
    (∃ value, (rows before kind).lookup id = some value) ↔ Has before kind id := by
  rw [← Option.isSome_iff_exists, ← Option.ne_none_iff_isSome, ne_eq, lookup_rows_eq_none h, not_not]

/-- An entry comes from the comparison of its kind. -/
theorem mem_diff {entry : DiffEntry} : entry ∈ (diff before after).entries ↔
    entry ∈ compare entry.kind (rows before entry.kind) (rows after entry.kind) := by
  rw [diff_entries, List.mem_flatMap]
  constructor
  · rintro ⟨kind, -, h⟩
    have hkind := ((mem_compare (ascending_rows _ _) (ascending_rows _ _)).mp h).1
    rwa [hkind]
  · intro h
    exact ⟨entry.kind, ObjectKind.mem_all _, h⟩

section

variable (hbefore : Identified before) (hafter : Identified after) {kind : ObjectKind} {id : String}

include hbefore hafter

/-- Added is what is only in the later document. -/
theorem mem_diff_added :
    ⟨kind, id, .added⟩ ∈ (diff before after).entries ↔ Only after before kind id := by
  rw [mem_diff, mem_compare (ascending_rows _ _) (ascending_rows _ _)]
  simp only [true_and, lookup_rows_eq_none hbefore, exists_lookup_rows hafter, Only]
  exact and_comm

/-- Removed is what is only in the earlier one. -/
theorem mem_diff_removed :
    ⟨kind, id, .removed⟩ ∈ (diff before after).entries ↔ Only before after kind id := by
  rw [mem_diff, mem_compare (ascending_rows _ _) (ascending_rows _ _)]
  simp only [true_and, lookup_rows_eq_none hafter, exists_lookup_rows hbefore, Only]

/-- Modified is what is in both and not the same. -/
theorem mem_diff_modified (htimed : Timed before) (htimed' : Timed after) :
    ⟨kind, id, .modified⟩ ∈ (diff before after).entries ↔ Differs before after kind id := by
  rw [mem_diff, mem_compare (ascending_rows _ _) (ascending_rows _ _)]
  simp only [true_and, lookup_rows hbefore, lookup_rows hafter]
  constructor
  · rintro ⟨-, -, ⟨old, hold, hid, rfl⟩, ⟨new, hnew, hid', rfl⟩, hne⟩
    exact ⟨old, hold, new, hnew, hid, hid', fun h => hne (congrArg toValue h)⟩
  · rintro ⟨old, hold, new, hnew, hid, hid', hne⟩
    exact ⟨_, _, ⟨old, hold, hid, rfl⟩, ⟨new, hnew, hid', rfl⟩,
      fun h => hne (object_inj htimed htimed' hold hnew h)⟩

end

end

end EkEk.Diff
