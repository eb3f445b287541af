import EkEk.Config.Matrix
import EkEk.Lib.Keyed

/-!
# What a change to the document moves

Reference: `crates/ek-ek-config/src/matrix.rs`.

Two documents that differ in one address or in one node, and their matrices side by side. A new address
is placed among the others in the order of the identities, so those after it may find their number gone:
`numbers_kept_iff` says when that does not happen. `removal_sound` is the way back, and `join_sound`
is about a new node, which moves no number and comes in between the others in every ranking.
-/

namespace EkEk.Matrix

open Validation (vrids)
open Probing Sorting

variable (sha256 : Digest) (config : Config) {vips : List Vip} {v : Vip}

/-! ## Entries and numbers -/

/-- The entry of an address with a number is what looking it up finds. -/
theorem router_of_mem_placed (hids : (config.vips.map fun vip => vip.id).Nodup)
    (hroom : config.vips.length ≤ vrids) {row : Vip × UInt8} (h : row ∈ placed sha256 config) :
    (matrix sha256 config).router row.1.id =
      some (entry sha256 (carriers config.nodes) row.1 row.2) := by
  have hnodup := (perm_routers sha256 hroom).nodup_iff.mpr hids
  refine (Keyed.find?_eq_some hnodup).mpr ⟨?_, rfl⟩
  rw [routers_matrix]
  exact List.mem_map.mpr ⟨row, h, rfl⟩

/-- Every address has a number. -/
theorem exists_mem_placed (hroom : config.vips.length ≤ vrids) (h : v ∈ config.vips) :
    ∃ vrid, (v, vrid) ∈ placed sha256 config := by
  have hin : v ∈ (placed sha256 config).map Prod.fst := by
    rw [map_fst_placed sha256 hroom]
    exact (perm_sortedVips config).mem_iff.mpr h
  obtain ⟨row, hrow, rfl⟩ := List.mem_map.mp hin
  exact ⟨row.2, hrow⟩

/-- The numbers in use. -/
def numbers (m : Matrix) : Finset UInt8 := (m.routers.map fun router => router.vrid).toFinset

theorem numbers_matrix :
    numbers (matrix sha256 config) = fill (probes sha256) ∅ (sortedVips config) := by
  rw [numbers, routers_matrix, List.map_map, fill, Finset.empty_union]
  rfl

theorem card_numbers (hroom : config.vips.length ≤ vrids) :
    (numbers (matrix sha256 config)).card = config.vips.length := by
  rw [numbers_matrix, card_fill (probes_room sha256), (perm_sortedVips config).length_eq]
  rwa [(perm_sortedVips config).length_eq]

theorem length_of_sortedVips {before after : List Vip} (h : sortedVips config = before ++ after) :
    before.length + after.length = config.vips.length := by
  rw [← List.length_append, ← h, (perm_sortedVips config).length_eq]

/-- One address more goes somewhere between the others. -/
theorem exists_insertion (hids : (vips.map fun vip => vip.id).Nodup)
    (hadd : vips.Perm (v :: config.vips)) :
    ∃ before after, sortedVips config = before ++ after ∧
      sortedVips { config with vips } = before ++ v :: after ∧
      before.Perm (config.vips.filter fun vip => vip.id.asStr < v.id.asStr) := by
  obtain ⟨before, after, hold, hnew, hbefore⟩ :=
    insertionSort_cons_eq_append (r := By fun vip : Vip => vip.id.asStr) v config.vips
  have hsorted : sortedVips { config with vips } = before ++ v :: after := by
    rw [← hnew]
    exact insertionSort_eq_of_perm (apart_vips hids) hadd
  have hafter : ∀ vip ∈ after, v.id.asStr ≤ vip.id.asStr := by
    have hpairwise :=
      List.pairwise_insertionSort (By fun vip : Vip => vip.id.asStr) (v :: config.vips)
    rw [hnew] at hpairwise
    exact (List.pairwise_cons.mp (List.pairwise_append.mp hpairwise).2.1).1
  refine ⟨before, after, hold, hsorted, ?_⟩
  have hfilter : (before ++ after).filter (fun vip => vip.id.asStr < v.id.asStr) = before := by
    have hall : before.filter (fun vip => vip.id.asStr < v.id.asStr) = before :=
      List.filter_eq_self.mpr fun vip hvip => decide_eq_true (not_le.mp (hbefore vip hvip))
    have hnone : after.filter (fun vip => vip.id.asStr < v.id.asStr) = [] :=
      List.filter_eq_nil_iff.mpr fun vip hvip hlt =>
        absurd (of_decide_eq_true hlt) (not_lt.mpr (hafter vip hvip))
    rw [List.filter_append, hall, hnone, List.append_nil]
  have hperm := (perm_sortedVips config).filter fun vip => vip.id.asStr < v.id.asStr
  rwa [show sortedVips config = before ++ after from hold, hfilter] at hperm

/-! ## One address more -/

/-- The numbers from the first choice of a new address on are in use up to the same one, whether all
the addresses are counted or only those whose identity sorts before the new one. -/
def Undisturbed (config : Config) (v : Vip) : Prop :=
  let others := config.vips.map (choice sha256)
  let before := (config.vips.filter fun vip => vip.id.asStr < v.id.asStr).map (choice sha256)
  ∀ k < vrids, (∀ j < k, Filled before (choice sha256 v + (j : ℕ))) →
    Filled others (choice sha256 v + (k : ℕ)) → Filled before (choice sha256 v + (k : ℕ))

/-- Every address has the number it had. -/
def NumbersKept (config : Config) (before after : Matrix) : Prop :=
  ∀ vip ∈ config.vips, (after.router vip.id).map (fun router => router.vrid) =
    (before.router vip.id).map fun router => router.vrid

section

variable (hids : (vips.map fun vip => vip.id).Nodup) (hroom : vips.length ≤ vrids)
  (hadd : vips.Perm (v :: config.vips))
include hids hroom hadd

theorem numbersKept_iff_subset :
    NumbersKept config (matrix sha256 config) (matrix sha256 { config with vips }) ↔
      placed sha256 config ⊆ placed sha256 { config with vips } := by
  have hlength : config.vips.length ≤ vrids := by
    have := hadd.length_eq
    rw [List.length_cons] at this
    omega
  have hsubset : ∀ vip ∈ config.vips, vip ∈ vips := fun vip hvip =>
    hadd.mem_iff.mpr (List.mem_cons_of_mem _ hvip)
  have holdIds : (config.vips.map fun vip => vip.id).Nodup :=
    (List.nodup_cons.mp ((hadd.map _).nodup_iff.mp hids)).2
  constructor
  · intro hkept row hrow
    have hvip := mem_of_mem_placed sha256 hrow
    have hsame := hkept row.1 hvip
    rw [router_of_mem_placed sha256 config holdIds hlength hrow] at hsame
    obtain ⟨vrid, hnew⟩ := exists_mem_placed sha256 { config with vips } hroom
      (hsubset _ hvip)
    rw [router_of_mem_placed sha256 { config with vips } hids hroom hnew] at hsame
    obtain rfl : vrid = row.2 := Option.some.inj hsame
    exact hnew
  · intro hkept vip hvip
    obtain ⟨vrid, hrow⟩ := exists_mem_placed sha256 config hlength hvip
    rw [router_of_mem_placed sha256 config holdIds hlength hrow,
      router_of_mem_placed sha256 { config with vips } hids hroom (hkept hrow)]

/-- A new address leaves the numbers of the others alone exactly when no address after it has the first
number it finds free. -/
theorem numbers_kept_iff :
    NumbersKept config (matrix sha256 config) (matrix sha256 { config with vips }) ↔
      Undisturbed sha256 config v := by
  obtain ⟨before, after, hold, hnew, hbefore⟩ := exists_insertion config hids hadd
  have hlength : config.vips.length + 1 ≤ vrids := by
    rw [← List.length_cons, ← hadd.length_eq]
    exact hroom
  have hsum := length_of_sortedVips config hold
  obtain ⟨vrid, hplace⟩ := exists_place_fill (probes_room sha256) (by omega : before.length < vrids) v
  have hout : v ∉ after := by
    have hnodup := (perm_sortedVips { config with vips }).nodup_iff.mpr hids.of_map
    rw [hnew] at hnodup
    exact (List.nodup_cons.mp (List.nodup_append.mp hnodup).2.1).1
  rw [numbersKept_iff_subset sha256 config hids hroom hadd, placed, placed, hold, hnew,
    assign_subset_iff hplace hout, notMem_iff_of_place (probes_eq sha256) hplace]
  refine forall₂_congr fun k _ => ?_
  have hfirst : ∀ place, number place ∈ fill (probes sha256) ∅ before ↔
      Filled ((config.vips.filter fun vip => vip.id.asStr < v.id.asStr).map (choice sha256)) place := by
    intro place
    rw [mem_fill_iff (probes_eq sha256) number_injective (by omega)]
    exact filled_congr (hbefore.map _) place
  have hall : ∀ place, number place ∈ fill (probes sha256) ∅ (before ++ after) ↔
      Filled (config.vips.map (choice sha256)) place := by
    intro place
    rw [mem_fill_iff (probes_eq sha256) number_injective (by rw [List.length_append]; omega), ← hold]
    exact filled_congr ((perm_sortedVips config).map _) place
  rw [hfirst, hall, forall₂_congr fun j _ => hfirst _]

end

/-- An address without a preferred node. -/
def plainVip (name : String) (last : UInt8) : Vip := ⟨⟨name⟩, .v4 ⟨10, 0, 0, last⟩, 24, "eth0", none⟩

theorem ldap_kept_iff :
    NumbersKept threeAndThree (matrix Sha256.sha256 threeAndThree) (matrix Sha256.sha256
        { threeAndThree with vips := threeAndThree.vips ++ [plainVip "vip-ldap" 103] }) ↔
      Undisturbed Sha256.sha256 threeAndThree (plainVip "vip-ldap" 103) :=
  numbers_kept_iff Sha256.sha256 threeAndThree (by decide) (by decide) (by decide)

/-- Two addresses whose identities point at one number. The new one is first in the order of the
identities and takes the number of the other. -/
theorem imap_moves_web :
    ([plainVip "web" 100, plainVip "imap" 101].map fun vip => vip.id).Nodup ∧
      [plainVip "web" 100, plainVip "imap" 101].length ≤ vrids ∧
      [plainVip "web" 100, plainVip "imap" 101].Perm [plainVip "imap" 101, plainVip "web" 100] ∧
      ¬ NumbersKept { Config.empty with vips := [plainVip "web" 100] }
        (matrix Sha256.sha256 { Config.empty with vips := [plainVip "web" 100] })
        (matrix Sha256.sha256
          { Config.empty with vips := [plainVip "web" 100, plainVip "imap" 101] }) := by
  refine ⟨by decide, by decide, by decide, fun hkept => ?_⟩
  have hbefore : ((matrix Sha256.sha256 { Config.empty with vips := [plainVip "web" 100] }).router
      ⟨"web"⟩).map (fun router => router.vrid) = some 95 := by decide +kernel
  have hafter : ((matrix Sha256.sha256 { Config.empty with
      vips := [plainVip "web" 100, plainVip "imap" 101] }).router ⟨"web"⟩).map
        (fun router => router.vrid) = some 96 := by decide +kernel
  have hsame := hkept (plainVip "web" 100) List.mem_cons_self
  exact absurd (hafter.symm.trans (hsame.trans hbefore)) (by decide)

/-! ## One address less -/

/-- A document without one of its addresses. -/
def withoutVip (config : Config) (id : VipId) : Config :=
  { config with vips := config.vips.filter fun vip => vip.id ≠ id }

theorem perm_withoutVip (hids : (config.vips.map fun vip => vip.id).Nodup) (hv : v ∈ config.vips) :
    config.vips.Perm (v :: (withoutVip config v.id).vips) := by
  have herase : config.vips.erase v = (withoutVip config v.id).vips := by
    rw [hids.of_map.erase_eq_filter, withoutVip]
    refine List.filter_congr fun vip hvip => ?_
    have hiff : vip = v ↔ vip.id = v.id :=
      ⟨congrArg _, fun hid => List.inj_on_of_nodup_map hids hvip hv hid⟩
    rw [bne, beq_eq_decide, decide_eq_decide.mpr hiff]
    exact (decide_not).symm
  rw [← herase]
  exact List.perm_cons_erase hv

/-- What taking an address out leaves: whoever had its first choice has it still, and one number less
is in use. -/
theorem removal_sound (hids : (config.vips.map fun vip => vip.id).Nodup)
    (hroom : config.vips.length ≤ vrids) (hv : v ∈ config.vips) :
    (∀ router ∈ (matrix sha256 config).routers, router.vip ≠ v.id → router.vridIsFirstChoice →
      (matrix sha256 (withoutVip config v.id)).router router.vip = some router) ∧
    ∃ vrid ∈ numbers (matrix sha256 config),
      numbers (matrix sha256 (withoutVip config v.id)) = (numbers (matrix sha256 config)).erase vrid := by
  have hperm := perm_withoutVip config hids hv
  have hlength : (withoutVip config v.id).vips.length + 1 = config.vips.length := hperm.length_eq.symm
  obtain ⟨before, after, hnew, hold, -⟩ := exists_insertion (withoutVip config v.id) hids hperm
  replace hold : sortedVips config = before ++ v :: after := hold
  have hsum := length_of_sortedVips (withoutVip config v.id) hnew
  obtain ⟨slot, hplace⟩ := exists_place_fill (probes_room sha256) (by omega : before.length < vrids) v
  obtain ⟨hshort, hkept⟩ := fill_of_short (probes sha256)
    (.inr ⟨slot, (place_eq_some.mp hplace).1, rfl⟩) after
  refine ⟨fun router hrouter hother hfirst => ?_, ?_⟩
  · rw [routers_matrix] at hrouter
    obtain ⟨row, hrow, rfl⟩ := List.mem_map.mp hrouter
    have hnewIds := (List.nodup_cons.mp ((hperm.map _).nodup_iff.mp hids)).2
    refine router_of_mem_placed sha256 (withoutVip config v.id) hnewIds (by omega) ?_
    rw [placed, hnew, assign_append]
    rw [placed, hold, assign_append, assign_cons_of_some hplace] at hrow
    rcases List.mem_append.mp hrow with hearlier | hlater
    · exact List.mem_append_left _ hearlier
    · rcases List.mem_cons.mp hlater with rfl | hlater
      · exact absurd rfl hother
      · refine List.mem_append_right _ (hkept row hlater ?_)
        rw [head?_probes, of_decide_eq_true hfirst]
  · have hnumbers : numbers (matrix sha256 config) =
        fill (probes sha256) (insert slot (fill (probes sha256) ∅ before)) after := by
      rw [numbers_matrix, hold, fill_append, fill_cons_of_some hplace]
    have hfewer : numbers (matrix sha256 (withoutVip config v.id)) =
        fill (probes sha256) (fill (probes sha256) ∅ before) after := by
      rw [numbers_matrix, hnew, fill_append]
    rw [← hnumbers, ← hfewer] at hshort
    rcases hshort with heq | ⟨missing, hmissing, heq⟩
    · -- as many numbers as addresses are in use
      have hcards := congrArg Finset.card heq
      rw [card_numbers sha256 config hroom, card_numbers sha256 _ (by omega)] at hcards
      omega
    · exact ⟨missing, heq ▸ Finset.mem_insert_self _ _, by rw [heq, Finset.erase_insert hmissing]⟩

theorem mail_removed_sound :
    (∀ router ∈ (matrix Sha256.sha256 threeAndThree).routers, router.vip ≠ ⟨"vip-mail"⟩ →
      router.vridIsFirstChoice →
      (matrix Sha256.sha256 (withoutVip threeAndThree ⟨"vip-mail"⟩)).router router.vip = some router) ∧
    ∃ vrid ∈ numbers (matrix Sha256.sha256 threeAndThree),
      numbers (matrix Sha256.sha256 (withoutVip threeAndThree ⟨"vip-mail"⟩)) =
        (numbers (matrix Sha256.sha256 threeAndThree)).erase vrid :=
  removal_sound Sha256.sha256 threeAndThree (v := threeAndThree.vips.get ⟨1, by decide⟩)
    (by decide) (by decide) (by decide)

/-! ## One node more -/

section

variable {n : NodeId} {nodes : List Node}

/-- What an entry is to the one the same address had before a node joined. -/
structure Joined (n : NodeId) (before after : VirtualRouter) : Prop where
  vip : after.vip = before.vip
  vrid : after.vrid = before.vrid
  vridIsFirstChoice : after.vridIsFirstChoice = before.vridIsFirstChoice
  /-- The nodes that were there are in the order they were in. -/
  order : (after.ranking.map fun placement => placement.node).filter (fun node => node ≠ n) =
    before.ranking.map fun placement => placement.node
  holder : after.holder = before.holder ∨ after.holder = some n

/-- Moving a node to the front has nothing to do with the node that is left out. -/
theorem filter_promote {order : List NodeId} (h : order.Nodup) (preferred : NodeId) :
    (promote preferred order).filter (fun node => node ≠ n) =
      promote preferred (order.filter fun node => node ≠ n) := by
  by_cases hin : preferred ∈ order
  · rw [promote, if_pos hin, h.erase_eq_filter]
    by_cases hn : preferred = n
    · have hout : preferred ∉ order.filter fun node => node ≠ n := by simp [hn]
      rw [promote, if_neg hout, List.filter_cons_of_neg (by simp [hn]), List.filter_filter]
      exact List.filter_congr fun node _ => by simp [hn]
    · have hkept : preferred ∈ order.filter fun node => node ≠ n := by simp [hn, hin]
      rw [promote, if_pos hkept, (h.filter _).erase_eq_filter, List.filter_cons_of_pos (by simp [hn]),
        List.filter_comm]
  · have hout : preferred ∉ order.filter fun node => node ≠ n := fun h => hin (List.mem_of_mem_filter h)
    rw [promote, if_neg hin, promote, if_neg hout]

/-- Nodes are told apart in a ranking, by their identity if nothing else. -/
theorem apart_weighted {carriers : List NodeId} (h : carriers.Nodup) (vip : VipId) :
    Apart (By strength) (carriers.map fun node => (weight sha256 vip node, node)) := by
  refine apart_by ?_
  rw [List.map_map]
  refine h.map fun first second heq => ?_
  have htext : first.asStr = second.asStr := (Prod.mk.inj (toLex_inj.mp heq)).2
  cases first
  cases second
  exact congrArg NodeId.mk htext

/-- The others are ranked as they would be without the node that is left out. -/
theorem filter_order {carriers : List NodeId} (h : carriers.Nodup) (vip : VipId)
    (preferred : Option NodeId) :
    (order sha256 vip preferred carriers).filter (fun node => node ≠ n) =
      order sha256 vip preferred (carriers.filter fun node => node ≠ n) := by
  have hplain : (order sha256 vip none carriers).filter (fun node => node ≠ n) =
      order sha256 vip none (carriers.filter fun node => node ≠ n) := by
    rw [order, order, List.filter_map, filter_insertionSort _ _ (apart_weighted sha256 h vip),
      List.filter_map]
    rfl
  cases preferred with
  | none => exact hplain
  | some preferred =>
    show (promote preferred (order sha256 vip none carriers)).filter _ =
      promote preferred (order sha256 vip none (carriers.filter _))
    rw [filter_promote ((perm_order sha256 vip none carriers).nodup_iff.mpr h), hplain]

/-- The carriers without a node are those of the nodes without it. -/
theorem filter_carriers (h : (nodes.map fun node => node.id).Nodup) :
    (carriers nodes).filter (fun node => node ≠ n) =
      carriers (nodes.filter fun node => node.id ≠ n) := by
  have hids : ((nodes.filter fun node => .controlPlane ∈ node.roles).map fun node => node.id).Nodup :=
    h.sublist (List.filter_sublist.map _)
  rw [carriers, carriers, filter_insertionSort _ _ (apart_by (nodup_asStr hids)), List.filter_map,
    List.filter_comm]
  rfl

/-- A node that is left out was first in the order, or somebody else is first still. -/
theorem head?_of_filter {order : List NodeId} :
    order.head? = (order.filter fun node => node ≠ n).head? ∨ order.head? = some n := by
  cases order with
  | nil => exact .inl rfl
  | cons first rest =>
    by_cases hn : first = n
    · exact .inr (congrArg some hn)
    · refine .inl ?_
      rw [List.filter_cons_of_pos (by simp [hn])]
      rfl

variable (new : Node) (hids : (nodes.map fun node => node.id).Nodup)
  (hadd : nodes.Perm (new :: config.nodes))
include hids hadd

/-- The new node is the only one that goes. -/
theorem carriers_of_joined : carriers (nodes.filter fun node => node.id ≠ new.id) =
    carriers config.nodes := by
  have hnodup := (hadd.map fun node => node.id).nodup_iff.mp hids
  rw [List.map_cons, List.nodup_cons] at hnodup
  have hperm := hadd.filter fun node => node.id ≠ new.id
  have hothers : config.nodes.filter (fun node => node.id ≠ new.id) = config.nodes :=
    List.filter_eq_self.mpr fun node hnode =>
      decide_eq_true fun heq => hnodup.1 (List.mem_map.mpr ⟨node, hnode, heq⟩)
  rw [List.filter_cons_of_neg (by simp), hothers] at hperm
  exact (carriers_eq_of_perm hnodup.2 hperm.symm).symm

/-- A node that joins changes no number, comes in between the others in every ranking, and leaves
nothing behind when it goes. -/
theorem join_sound :
    List.Forall₂ (Joined new.id) (matrix sha256 config).routers
      (matrix sha256 { config with nodes }).routers ∧
    matrix sha256 { config with nodes := nodes.filter fun node => node.id ≠ new.id } =
      matrix sha256 config := by
  have hcarriers := carriers_of_joined config new hids hadd
  constructor
  · rw [routers_matrix, routers_matrix, List.forall₂_map_left_iff, List.forall₂_map_right_iff]
    refine List.forall₂_same.mpr fun row _ => ?_
    have hnodup : (carriers nodes).Nodup :=
      (List.perm_insertionSort _ _).nodup_iff.mpr (hids.sublist (List.filter_sublist.map _))
    have horder : (order sha256 row.1.id row.1.preferredNode (carriers nodes)).filter
        (fun node => node ≠ new.id) =
        order sha256 row.1.id row.1.preferredNode (carriers config.nodes) := by
      rw [filter_order sha256 hnodup, filter_carriers hids, hcarriers]
    refine ⟨rfl, rfl, rfl, ?_, ?_⟩
    · show ((ranking sha256 _ _ (carriers nodes)).map _).filter _ = (ranking sha256 _ _ _).map _
      rw [map_node_ranking, map_node_ranking, horder]
    · rw [holder_entry, holder_entry, ← horder]
      exact head?_of_filter
  · show Matrix.mk (routersOf sha256 (carriers (nodes.filter _)) ∅ _) = _
    rw [hcarriers]
    rfl

end

/-- A node of the control plane. -/
def plainNode (name : String) (last : UInt8) : Node := ⟨⟨name⟩, .v4 ⟨10, 0, 0, last⟩, [.controlPlane]⟩

theorem fourth_node_sound :
    List.Forall₂ (Joined ⟨"node4"⟩) (matrix Sha256.sha256 threeAndThree).routers
      (matrix Sha256.sha256 { threeAndThree with
        nodes := threeAndThree.nodes ++ [plainNode "node4" 14] }).routers ∧
    matrix Sha256.sha256 { threeAndThree with
        nodes := (threeAndThree.nodes ++ [plainNode "node4" 14]).filter fun node =>
          node.id ≠ ⟨"node4"⟩ } =
      matrix Sha256.sha256 threeAndThree :=
  join_sound Sha256.sha256 threeAndThree (plainNode "node4" 14) (by decide) (by decide)

end EkEk.Matrix
