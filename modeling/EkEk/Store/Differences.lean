import EkEk.Store.Diff

/-!
# What a comparison says of two documents

Reference: `crates/ek-ek-store/src/diff.rs`.

A comparison is to list each difference once, ordered by kind and then by identity, so that the
comparison the other way round is the same list read the other way. It lists each difference once. It is
in order only as `listed_in_order_iff` says, and it says nothing of what stands beside the objects
(`empty_iff_same_objects`).
-/

namespace EkEk.Diff

/-- The order of the entries: by kind and then by identity. -/
def DiffEntry.Before (x y : DiffEntry) : Prop := x.kind < y.kind ∨ x.kind = y.kind ∧ x.id < y.id

instance : Std.Irrefl DiffEntry.Before where
  irrefl x := by
    rintro (h | ⟨-, h⟩)
    · exact Nat.lt_irrefl _ h
    · exact lt_irrefl _ h

instance : Std.Antisymm DiffEntry.Before where
  antisymm x y := by
    rintro (hxy | ⟨hkind, hxy⟩) (hyx | ⟨hkind', hyx⟩)
    · exact absurd hxy (Nat.lt_asymm hyx)
    · exact absurd (hkind' ▸ hxy) (Nat.lt_irrefl _)
    · exact absurd (hkind ▸ hyx) (Nat.lt_irrefl _)
    · exact absurd hxy (lt_asymm hyx)

/-- The same difference, seen from the other document. -/
def DiffEntry.swap (entry : DiffEntry) : DiffEntry :=
  { entry with change := match entry.change with
    | .added => .removed
    | .removed => .added
    | .modified => .modified }

theorem DiffEntry.swap_swap (entry : DiffEntry) : entry.swap.swap = entry := by
  obtain ⟨kind, id, change⟩ := entry
  cases change <;> rfl

variable {before after : Config}

theorem pairwise_diff_iff : (diff before after).entries.Pairwise DiffEntry.Before ↔
    ∀ x ∈ (diff before after).entries, ∀ y ∈ (diff before after).entries, x.kind = y.kind →
      x.change ≠ .added → y.change = .added → x.id < y.id := by
  have hcompare (kind : ObjectKind) :
      (compare kind (rows before kind) (rows after kind)).Pairwise DiffEntry.Before ↔
        ∀ x ∈ compare kind (rows before kind) (rows after kind),
          ∀ y ∈ compare kind (rows before kind) (rows after kind),
            x.change ≠ .added → y.change = .added → x.id < y.id := by
    rw [← pairwise_compare (ascending_rows _ _) (ascending_rows _ _)]
    refine List.Pairwise.iff_of_mem fun {x y} hx hy => ?_
    have hx := ((mem_compare (ascending_rows _ _) (ascending_rows _ _)).mp hx).1
    have hy := ((mem_compare (ascending_rows _ _) (ascending_rows _ _)).mp hy).1
    rw [DiffEntry.Before, hx, hy]
    exact ⟨fun h => (h.resolve_left (Nat.lt_irrefl _)).2, fun h => .inr ⟨rfl, h⟩⟩
  have hkinds : ObjectKind.all.Pairwise fun kind kind' =>
      ∀ x ∈ compare kind (rows before kind) (rows after kind),
        ∀ y ∈ compare kind' (rows before kind') (rows after kind'), DiffEntry.Before x y := by
    refine List.Pairwise.imp ?_ (show ObjectKind.all.Pairwise fun kind kind' => kind < kind' by decide)
    intro kind kind' hlt x hx y hy
    have hx := ((mem_compare (ascending_rows _ _) (ascending_rows _ _)).mp hx).1
    have hy := ((mem_compare (ascending_rows _ _) (ascending_rows _ _)).mp hy).1
    exact .inl (hx ▸ hy ▸ hlt)
  constructor
  · intro h x hx y hy hkind
    rw [diff_entries, List.pairwise_flatMap] at h
    rw [mem_diff] at hx hy
    rw [← hkind] at hy
    exact (hcompare x.kind).mp (h.1 x.kind (ObjectKind.mem_all _)) x hx y hy
  · intro h
    rw [diff_entries, List.pairwise_flatMap]
    refine ⟨fun kind _ => (hcompare kind).mpr fun x hx y hy => ?_, hkinds⟩
    have hxkind := ((mem_compare (ascending_rows _ _) (ascending_rows _ _)).mp hx).1
    have hykind := ((mem_compare (ascending_rows _ _) (ascending_rows _ _)).mp hy).1
    refine h x ?_ y ?_ (hxkind.trans hykind.symm)
    · rw [mem_diff, hxkind]
      exact hx
    · rw [mem_diff, hykind]
      exact hy

/-! ## What a comparison is to list -/

/-- The entries a comparison of two documents is to have. -/
structure Lists (before after : Config) (entries : List DiffEntry) : Prop where
  ordered : entries.Pairwise DiffEntry.Before
  added : ∀ kind id, ⟨kind, id, .added⟩ ∈ entries ↔ Only after before kind id
  removed : ∀ kind id, ⟨kind, id, .removed⟩ ∈ entries ↔ Only before after kind id
  modified : ∀ kind id, ⟨kind, id, .modified⟩ ∈ entries ↔ Differs before after kind id

/-- A comparison lists what differs in order, and the other way round it is the same list. -/
def Documented (before after : Config) : Prop :=
  Lists before after (diff before after).entries ∧
    (diff after before).entries = (diff before after).entries.map DiffEntry.swap

/-- In no kind are there objects that only one document has and objects that only the other has, and the
identities of those that only one has come after the identities of those that differ. -/
structure Orderly (before after : Config) : Prop where
  oneSided : ∀ kind id id', Only before after kind id → ¬ Only after before kind id'
  last : ∀ kind id id', Only before after kind id ∨ Only after before kind id →
    Differs before after kind id' → id' < id

section

variable (hbefore : Identified before) (hafter : Identified after) (htimed : Timed before)
  (htimed' : Timed after)

include hbefore hafter htimed htimed'

/-- A comparison is in order when what was added comes after everything else of its kind. -/
theorem ordered_iff : (diff before after).entries.Pairwise DiffEntry.Before ↔
    ∀ kind id id', Only before after kind id ∨ Differs before after kind id →
      Only after before kind id' → id < id' := by
  rw [pairwise_diff_iff]
  constructor
  · rintro h kind id id' (hid | hid) hid'
    · exact h _ ((mem_diff_removed hbefore hafter).mpr hid) _ ((mem_diff_added hbefore hafter).mpr hid') rfl
        ObjectChange.noConfusion rfl
    · exact h _ ((mem_diff_modified hbefore hafter htimed htimed').mpr hid) _
        ((mem_diff_added hbefore hafter).mpr hid') rfl ObjectChange.noConfusion rfl
  · rintro h ⟨kind, id, change⟩ hx ⟨kind', id', change'⟩ hy (hkind : kind = kind') hchange
      (rfl : change' = .added)
    subst hkind
    have hid' := (mem_diff_added hbefore hafter).mp hy
    cases change with
    | added => exact absurd rfl hchange
    | removed => exact h kind id id' (.inl ((mem_diff_removed hbefore hafter).mp hx)) hid'
    | modified => exact h kind id id' (.inr ((mem_diff_modified hbefore hafter htimed htimed').mp hx)) hid'

/-- The comparison the other way round finds each difference again. -/
theorem mem_diff_swap {entry : DiffEntry} :
    entry ∈ (diff after before).entries ↔ entry ∈ (diff before after).entries.map DiffEntry.swap := by
  have hswap : entry ∈ (diff before after).entries.map DiffEntry.swap ↔
      entry.swap ∈ (diff before after).entries := by
    constructor
    · intro h
      obtain ⟨other, hother, rfl⟩ := List.mem_map.mp h
      rwa [DiffEntry.swap_swap]
    · intro h
      exact List.mem_map.mpr ⟨_, h, entry.swap_swap⟩
  rw [hswap]
  obtain ⟨kind, id, change⟩ := entry
  cases change with
  | added => exact (mem_diff_added hafter hbefore).trans (mem_diff_removed hbefore hafter).symm
  | removed => exact (mem_diff_removed hafter hbefore).trans (mem_diff_added hbefore hafter).symm
  | modified =>
    exact (mem_diff_modified hafter hbefore htimed' htimed).trans
      (differs_comm.trans (mem_diff_modified hbefore hafter htimed htimed').symm)

omit hbefore hafter htimed htimed' in
theorem pairwise_swap {entries : List DiffEntry} :
    (entries.map DiffEntry.swap).Pairwise DiffEntry.Before ↔ entries.Pairwise DiffEntry.Before :=
  List.pairwise_map

/-- The two comparisons are one list read two ways when both are in order. -/
theorem documented_iff : Documented before after ↔ (diff before after).entries.Pairwise DiffEntry.Before ∧
    (diff after before).entries.Pairwise DiffEntry.Before := by
  constructor
  · rintro ⟨hlists, hswap⟩
    refine ⟨hlists.ordered, ?_⟩
    rw [hswap]
    exact pairwise_swap.mpr hlists.ordered
  · rintro ⟨hordered, hordered'⟩
    refine ⟨⟨hordered, fun _ _ => mem_diff_added hbefore hafter, fun _ _ => mem_diff_removed hbefore hafter,
      fun _ _ => mem_diff_modified hbefore hafter htimed htimed'⟩, ?_⟩
    exact List.Pairwise.eq_of_mem_iff hordered' (pairwise_swap.mpr hordered)
      fun _ => mem_diff_swap hbefore hafter htimed htimed'

/-- A comparison is as documented exactly when what only one document has comes last in its kind and is
only had by one of the two. -/
theorem listed_in_order_iff : Documented before after ↔ Orderly before after := by
  rw [documented_iff hbefore hafter htimed htimed', ordered_iff hbefore hafter htimed htimed',
    ordered_iff hafter hbefore htimed' htimed]
  constructor
  · rintro ⟨hadded, hremoved⟩
    refine ⟨fun kind id id' hid hid' => ?_, ?_⟩
    · exact lt_asymm (hadded kind id id' (.inl hid) hid') (hremoved kind id' id (.inl hid') hid)
    · rintro kind id id' (hid | hid) hid'
      · exact hremoved kind id' id (.inr (differs_comm.mp hid')) hid
      · exact hadded kind id' id (.inr hid') hid
  · intro h
    constructor
    · rintro kind id id' (hid | hid) hid'
      · exact absurd hid' (h.oneSided kind id id' hid)
      · exact h.last kind id' id (.inr hid') hid
    · rintro kind id id' (hid | hid) hid'
      · exact absurd hid (h.oneSided kind id' id hid')
      · exact h.last kind id' id (.inl hid') (differs_comm.mp hid)

end

/-- A node that runs the proxy. -/
def proxyNode (id : String) (lastOctet : UInt8) : Node where
  id := ⟨id⟩
  address := .v4 ⟨10, 0, 0, lastOctet⟩
  roles := [.dataPlane]

/-- A document with nodes and nothing else. -/
def nodesOnly (nodes : List Node) : Config := { Config.empty with nodes := nodes }

theorem timed_nodesOnly (nodes : List Node) : Timed (nodesOnly nodes) := by
  intro certificate h
  simp [nodesOnly, Config.empty] at h

theorem has_nodesOnly {nodes : List Node} {kind : ObjectKind} {id : String} :
    Has (nodesOnly nodes) kind id ↔ kind = .node ∧ ∃ node ∈ nodes, node.id.asStr = id := by
  cases kind <;> simp [Has, objects, nodesOnly, Config.empty, Object.id]

theorem identified_nodesOnly {nodes : List Node} (h : (nodes.map fun node => node.id.asStr).Nodup) :
    Identified (nodesOnly nodes) := by
  intro kind
  cases kind <;> simp only [objects, nodesOnly, Config.empty, List.map_map, List.map_nil, List.nodup_nil]
  exact h

/-- A node that comes before another in the order of the identities is added and the other is changed. -/
theorem added_comes_last : ∃ before after, Identified before ∧ Identified after ∧ Timed before ∧ Timed after ∧
    ¬ Documented before after := by
  refine ⟨nodesOnly [proxyNode "node2" 2], nodesOnly [proxyNode "node1" 1, proxyNode "node2" 3],
    identified_nodesOnly (by decide +kernel), identified_nodesOnly (by decide +kernel), timed_nodesOnly _,
    timed_nodesOnly _, fun h => ?_⟩
  have hentries : (diff (nodesOnly [proxyNode "node2" 2])
      (nodesOnly [proxyNode "node1" 1, proxyNode "node2" 3])).entries =
      [⟨.node, "node2", .modified⟩, ⟨.node, "node1", .added⟩] := by decide +kernel
  have hordered := h.1.ordered
  rw [hentries] at hordered
  have hbefore : DiffEntry.Before ⟨.node, "node2", .modified⟩ ⟨.node, "node1", .added⟩ := by
    simpa using hordered
  obtain hkind | ⟨-, hid⟩ := hbefore
  · exact Nat.lt_irrefl _ hkind
  · exact absurd hid (by decide +kernel)

/-- A node that comes last is added. -/
theorem last_is_added : Documented (nodesOnly [proxyNode "node1" 1])
    (nodesOnly [proxyNode "node1" 1, proxyNode "node2" 2]) := by
  refine (listed_in_order_iff (identified_nodesOnly (by decide +kernel))
    (identified_nodesOnly (by decide +kernel)) (timed_nodesOnly _) (timed_nodesOnly _)).mpr ⟨?_, ?_⟩
  · rintro kind id id' ⟨hhas, hnot⟩ -
    obtain ⟨rfl, node, hnode, rfl⟩ := has_nodesOnly.mp hhas
    rw [List.mem_singleton.mp hnode] at hnot
    exact hnot (has_nodesOnly.mpr ⟨rfl, _, List.mem_cons_self, rfl⟩)
  · rintro kind id id' - ⟨old, hold, new, hnew, hid, hid', hne⟩
    exfalso
    cases kind
    case node =>
      rw [List.mem_singleton.mp hold] at hid hne
      obtain rfl | hnew := List.mem_cons.mp hnew
      · exact hne rfl
      · rw [List.mem_singleton.mp hnew, ← hid] at hid'
        exact absurd hid' (by decide +kernel)
    all_goals exact List.not_mem_nil hold

/-! ## A comparison that finds nothing -/

/-- Two documents have the same objects, in whatever order. -/
structure SameObjects (before after : Config) : Prop where
  nodes : before.nodes.Perm after.nodes
  vips : before.vips.Perm after.vips
  frontends : before.frontends.Perm after.frontends
  backends : before.backends.Perm after.backends
  certificates : before.certificates.Perm after.certificates
  dnsProviders : before.dnsProviders.Perm after.dnsProviders

theorem sameObjects_iff : SameObjects before after ↔
    ∀ kind, (objects before kind).Perm (objects after kind) := by
  have hmap {T : Type} {f : T → Object} (hf : Function.Injective f) {l l' : List T} :
      (l.map f).Perm (l'.map f) ↔ l.Perm l' := List.map_perm_map_iff hf
  constructor
  · intro h kind
    cases kind
    · exact h.nodes.map _
    · exact h.vips.map _
    · exact h.frontends.map _
    · exact h.backends.map _
    · exact h.certificates.map _
    · exact h.dnsProviders.map _
  · intro h
    exact ⟨(hmap fun _ _ => Object.node.inj).mp (h .node), (hmap fun _ _ => Object.vip.inj).mp (h .vip),
      (hmap fun _ _ => Object.frontend.inj).mp (h .frontend),
      (hmap fun _ _ => Object.backend.inj).mp (h .backend),
      (hmap fun _ _ => Object.certificate.inj).mp (h .certificate),
      (hmap fun _ _ => Object.dnsProvider.inj).mp (h .dnsProvider)⟩

/-- The objects of a document that is accepted go by different identities. -/
theorem identified_of_validate {config : Config} (h : Validation.validate config = .ok ()) :
    Identified config := by
  have hids := Validation.checkDuplicateIds_eq_nil.mp (Validation.validate_eq_ok.mp h).duplicateIds
  intro kind
  cases kind <;> rw [objects, List.map_map]
  · exact hids.nodes
  · exact hids.vips
  · exact hids.frontends
  · exact hids.backends
  · exact hids.certificates
  · exact hids.dnsProviders

theorem isEmpty_iff : (diff before after).isEmpty = true ↔
    ∀ kind id change, ⟨kind, id, change⟩ ∉ (diff before after).entries := by
  rw [ConfigDiff.isEmpty, List.isEmpty_iff, List.eq_nil_iff_forall_not_mem]
  exact ⟨fun h kind id change => h _, fun h entry => h entry.kind entry.id entry.change⟩

/-- Nothing is found exactly when the two documents have the same objects. -/
theorem empty_iff_same_objects (hbefore : Validation.validate before = .ok ())
    (hafter : Validation.validate after = .ok ()) (htimed : Timed before) (htimed' : Timed after) :
    (diff before after).isEmpty = true ↔ SameObjects before after := by
  have hids := identified_of_validate hbefore
  have hids' := identified_of_validate hafter
  rw [isEmpty_iff, sameObjects_iff]
  constructor
  · intro h kind
    refine (List.perm_ext_iff_of_nodup (hids kind).of_map (hids' kind).of_map).mpr fun object => ?_
    have hadded := fun id => mt (mem_diff_added hids hids').mpr (h kind id .added)
    have hremoved := fun id => mt (mem_diff_removed hids hids').mpr (h kind id .removed)
    have hmodified := fun id => mt (mem_diff_modified hids hids' htimed htimed').mpr (h kind id .modified)
    constructor
    · intro hold
      obtain ⟨new, hnew, hid⟩ := not_not.mp fun hnone => hremoved object.id ⟨⟨object, hold, rfl⟩, hnone⟩
      by_contra hne
      exact hmodified object.id ⟨object, hold, new, hnew, rfl, hid, fun heq => hne (heq ▸ hnew)⟩
    · intro hnew
      obtain ⟨old, hold, hid⟩ := not_not.mp fun hnone => hadded object.id ⟨⟨object, hnew, rfl⟩, hnone⟩
      by_contra hne
      exact hmodified object.id ⟨old, hold, object, hnew, hid, rfl, fun heq => hne (heq ▸ hold)⟩
  · intro h kind id change hentry
    have hhas : Has before kind id ↔ Has after kind id := by
      simp only [Has, (h kind).mem_iff]
    cases change with
    | added =>
      obtain ⟨hnew, hold⟩ := (mem_diff_added hids hids').mp hentry
      exact hold (hhas.mpr hnew)
    | removed =>
      obtain ⟨hold, hnew⟩ := (mem_diff_removed hids hids').mp hentry
      exact hnew (hhas.mp hold)
    | modified =>
      obtain ⟨old, hold, new, hnew, hid, hid', hne⟩ :=
        (mem_diff_modified hids hids' htimed htimed').mp hentry
      exact hne (List.inj_on_of_nodup_map (hids' kind) ((h kind).mem_iff.mp hold) hnew (hid.trans hid'.symm))

/-- Two documents are the same but for the order of their objects. -/
structure SameConfig (before after : Config) : Prop extends SameObjects before after where
  schemaVersion : before.schemaVersion = after.schemaVersion
  acme : before.acme = after.acme
  stickinessKey : before.stickinessKey = after.stickinessKey
  logLevel : before.logLevel = after.logLevel
  certificateExpiryWarningDays : before.certificateExpiryWarningDays = after.certificateExpiryWarningDays

/-- The log says more and the comparison finds nothing. -/
theorem settings_not_compared : ∃ before after, Validation.validate before = .ok () ∧
    Validation.validate after = .ok () ∧ before.schemaVersion = after.schemaVersion ∧ Timed before ∧
    Timed after ∧ (diff before after).isEmpty = true ∧ ¬ SameConfig before after := by
  refine ⟨Config.empty, { Config.empty with logLevel := .trace }, by decide +kernel, by decide +kernel, rfl,
    timed_nodesOnly [], timed_nodesOnly [], by decide +kernel, fun h => ?_⟩
  have hlevel := h.logLevel
  cases hlevel

/-- Two nodes change places. -/
theorem swapped_nodes_same : (diff (nodesOnly [proxyNode "node1" 1, proxyNode "node2" 2])
    (nodesOnly [proxyNode "node2" 2, proxyNode "node1" 1])).isEmpty = true :=
  (empty_iff_same_objects (by decide +kernel) (by decide +kernel) (timed_nodesOnly _) (timed_nodesOnly _)).mpr
    ⟨List.Perm.swap _ _ _, .rfl, .rfl, .rfl, .rfl, .rfl⟩

end EkEk.Diff
