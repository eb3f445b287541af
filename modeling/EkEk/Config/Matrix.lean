import EkEk.Config.Accepted
import EkEk.Lib.Probing
import EkEk.Lib.Sha256
import EkEk.Lib.Sorting
import EkEk.Text
import Mathlib.Data.Prod.Lex
import Mathlib.Data.String.Basic

/-!
# Which node holds which address

Reference: `crates/ek-ek-config/src/matrix.rs`.

Every node works out for itself which virtual router id an address has and in which order the nodes
take it over. The numbers are hashed: an address gets the first free number from the one its identity
points at, and the nodes are ranked by a hash of the address and the node. The hash function is a
parameter. Nothing but the examples at single addresses depends on which one it is.

`matrix_sound` says what the matrix of an accepted document is. Handing out the numbers is open
addressing on the ring of the 255 numbers, which `routersOf_eq` and `probes_eq` connect it to.
-/

namespace EkEk

/-- One node's place in the order that takes over an address. -/
structure Placement where
  node : NodeId
  priority : UInt8
deriving DecidableEq, Repr

/-- One virtual address and everything VRRP needs to move it. -/
structure VirtualRouter where
  vip : VipId
  vrid : UInt8
  ranking : List Placement
  vridIsFirstChoice : Bool
deriving DecidableEq, Repr

/-- The node that should hold the address. -/
def VirtualRouter.holder (router : VirtualRouter) : Option NodeId :=
  router.ranking.head?.map fun placement => placement.node

/-- Every virtual router a configuration describes. -/
structure Matrix where
  routers : List VirtualRouter
deriving DecidableEq, Repr

namespace Matrix

open Validation (vrids)
open Probing Sorting

/-- The priority the node that should hold an address claims it with. -/
def top : UInt8 := 200

/-- How much lower each following node claims. -/
def step : UInt8 := 10

/-- The lowest priority a node ever claims. -/
def floor : UInt8 := 1

/-- The lowest virtual router id. -/
def firstVrid : UInt8 := 1

/-- The highest virtual router id. -/
def lastVrid : UInt8 := 255

/-- The entry for one address. -/
def router (m : Matrix) (vip : VipId) : Option VirtualRouter :=
  m.routers.find? fun router => router.vip = vip

/-- A hash function with digests of 32 bytes. -/
abbrev Digest := List UInt8 → Vector UInt8 32

section

variable (sha256 : Digest)

/-- A number the same on every machine and in every release: the first eight bytes of the digest of the
parts, each with its length before it. -/
def hash (parts : List (List UInt8)) : UInt64 :=
  let message := parts.flatMap fun part => Sha256.toBytes 8 (min part.length (2 ^ 64 - 1)) ++ part
  UInt64.ofNat (Sha256.ofBytes ((sha256 message).toList.take 8))

/-- How strongly one node is drawn to one address. -/
def weight (vip : VipId) (node : NodeId) : UInt64 :=
  hash sha256 [Text.bytes "rank", Text.bytes vip.asStr, Text.bytes node.asStr]

/-- The number an address's identity points at. -/
def firstChoice (vip : VipId) : UInt8 :=
  let digest := hash sha256 [Text.bytes "vrid", Text.bytes vip.asStr]
  UInt8.ofNat (digest.toNat % vrids) + firstVrid

/-- The number so many steps after the one wanted, wrapping inside 1 to 255. -/
def candidate (wanted : UInt8) (step : ℕ) : UInt8 :=
  UInt8.ofNat (((wanted - firstVrid).toNat + step) % vrids) + firstVrid

/-- The first free number at or after the one wanted, wrapping once. -/
def freeFrom (wanted : UInt8) (taken : Finset UInt8) : Option UInt8 :=
  (List.range vrids).findSome? fun step =>
    if candidate wanted step ∈ taken then none else some (candidate wanted step)

/-- What a node at one rank claims an address with. -/
def priority (rank : ℕ) : UInt8 :=
  let drop := min (rank * step.toNat) 255
  let claimed := UInt8.ofNat (top.toNat - drop)
  if claimed < floor then floor else claimed

/-- The nodes that can hold a virtual address. -/
def carriers (nodes : List Node) : List NodeId :=
  ((nodes.filter fun node => .controlPlane ∈ node.roles).map fun node => node.id).insertionSort
    (By NodeId.asStr)

/-- Highest weight first, and the identity settles a tie. -/
def strength (entry : UInt64 × NodeId) : ℕᵒᵈ ×ₗ String :=
  toLex (OrderDual.toDual entry.1.toNat, entry.2.asStr)

/-- Move a node to the front of the order if it is in it. -/
def promote (preferred : NodeId) (order : List NodeId) : List NodeId :=
  if preferred ∈ order then preferred :: order.erase preferred else order

/-- The nodes in the order they should take one address. -/
def order (vip : VipId) (preferred : Option NodeId) (carriers : List NodeId) : List NodeId :=
  let weighted := carriers.map fun node => (weight sha256 vip node, node)
  let order := (weighted.insertionSort (By strength)).map Prod.snd
  match preferred with
  | some preferred => promote preferred order
  | none => order

/-- Every node in the order it should take one address, with what it claims the address with. -/
def ranking (vip : VipId) (preferred : Option NodeId) (carriers : List NodeId) : List Placement :=
  (order sha256 vip preferred carriers).mapIdx fun rank node => ⟨node, priority rank⟩

/-- The entry of an address that got a number. -/
def entry (carriers : List NodeId) (vip : Vip) (vrid : UInt8) : VirtualRouter where
  vip := vip.id
  vrid := vrid
  ranking := ranking sha256 vip.id vip.preferredNode carriers
  vridIsFirstChoice := decide (vrid = firstChoice sha256 vip.id)

/-- Hand out numbers to addresses one after another. An address that finds none gets no entry. -/
def routersOf (carriers : List NodeId) : Finset UInt8 → List Vip → List VirtualRouter
  | _, [] => []
  | taken, vip :: vips =>
    match freeFrom (firstChoice sha256 vip.id) taken with
    | some vrid => entry sha256 carriers vip vrid :: routersOf carriers (insert vrid taken) vips
    | none => routersOf carriers taken vips

/-- Work out the whole matrix. Addresses are taken in the order their identities sort. -/
def matrix (config : Config) : Matrix where
  routers := routersOf sha256 (carriers config.nodes) ∅
    (config.vips.insertionSort (By fun vip => vip.id.asStr))

end

/-! ## Numbers -/

section Numbers

variable (sha256 : Digest)

instance : NeZero vrids := ⟨by decide⟩

/-- The numbers an address tries. -/
def probes (vip : Vip) : List UInt8 := (List.range vrids).map (candidate (firstChoice sha256 vip.id))

/-- The place of a number among the 255. -/
def choice (vip : Vip) : ZMod vrids := ((firstChoice sha256 vip.id).toNat - 1 : ℕ)

/-- The number at a place. -/
def number (place : ZMod vrids) : UInt8 := UInt8.ofNat (place.val + 1)

theorem toNat_number (place : ZMod vrids) : (number place).toNat = place.val + 1 := by
  have hlt : place.val < 255 := ZMod.val_lt place
  rw [number, UInt8.toNat_ofNat']
  omega

theorem number_injective : Function.Injective number := by
  intro first second heq
  have h := congrArg UInt8.toNat heq
  rw [toNat_number, toNat_number] at h
  exact ZMod.val_injective _ (by omega)

theorem toNat_firstChoice (vip : VipId) :
    (firstChoice sha256 vip).toNat =
      (hash sha256 [Text.bytes "vrid", Text.bytes vip.asStr]).toNat % 255 + 1 := by
  have hone : UInt8.toNat 1 = 1 := rfl
  rw [firstChoice, UInt8.toNat_add, UInt8.toNat_ofNat', firstVrid, vrids, hone]
  omega

theorem toNat_candidate (vip : VipId) (i : ℕ) :
    (candidate (firstChoice sha256 vip) i).toNat =
      ((firstChoice sha256 vip).toNat - 1 + i) % vrids + 1 := by
  have hone : UInt8.toNat 1 = 1 := rfl
  have hchoice := toNat_firstChoice sha256 vip
  have hle : (1 : UInt8) ≤ firstChoice sha256 vip := by
    rw [UInt8.le_iff_toNat_le, hone]
    omega
  rw [candidate, UInt8.toNat_add, UInt8.toNat_ofNat', firstVrid, UInt8.toNat_sub_of_le _ _ hle, hone,
    vrids]
  omega

theorem candidate_eq (vip : Vip) (i : ℕ) :
    candidate (firstChoice sha256 vip.id) i = number (choice sha256 vip + (i : ℕ)) := by
  refine UInt8.toNat_inj.mp ?_
  rw [toNat_candidate, toNat_number, choice, ← Nat.cast_add, ZMod.val_natCast]

theorem probes_eq (vip : Vip) :
    probes sha256 vip = (List.range vrids).map fun i => number (choice sha256 vip + (i : ℕ)) :=
  List.map_congr_left fun i _ => candidate_eq sha256 vip i

theorem head?_probes (vip : Vip) : (probes sha256 vip).head? = some (firstChoice sha256 vip.id) := by
  have hzero : candidate (firstChoice sha256 vip.id) 0 = firstChoice sha256 vip.id := by
    refine UInt8.toNat_inj.mp ?_
    have hchoice := toNat_firstChoice sha256 vip.id
    rw [toNat_candidate, vrids]
    omega
  rw [probes, vrids, List.range_succ_eq_map, List.map_cons, List.head?_cons, hzero]

theorem freeFrom_eq_place (vip : Vip) (taken : Finset UInt8) :
    freeFrom (firstChoice sha256 vip.id) taken = place (probes sha256) taken vip := by
  rw [freeFrom, place, probes]
  induction List.range vrids with
  | nil => rfl
  | cons i rest ih =>
    by_cases htaken : candidate (firstChoice sha256 vip.id) i ∈ taken
    · simpa [htaken] using ih
    · simp [htaken]

/-- The entries are those of the addresses that were placed. -/
theorem routersOf_eq (carriers : List NodeId) (taken : Finset UInt8) (vips : List Vip) :
    routersOf sha256 carriers taken vips =
      (assign (probes sha256) taken vips).map fun placed => entry sha256 carriers placed.1 placed.2 := by
  induction vips generalizing taken with
  | nil => rfl
  | cons vip vips ih =>
    rw [routersOf, freeFrom_eq_place]
    cases hplace : place (probes sha256) taken vip with
    | none =>
      rw [assign_cons_of_none hplace]
      exact ih taken
    | some vrid =>
      rw [assign_cons_of_some hplace, List.map_cons, ← ih]

end Numbers

/-! ## Rankings -/

theorem toNat_priority (rank : ℕ) : (priority rank).toNat = max 1 (200 - rank * 10) := by
  have hclaimed : (UInt8.ofNat (200 - min (rank * 10) 255)).toNat = 200 - rank * 10 := by
    rw [UInt8.toNat_ofNat']
    omega
  have hone : UInt8.toNat 1 = 1 := rfl
  show (if UInt8.ofNat (200 - min (rank * 10) 255) < 1 then (1 : UInt8)
    else UInt8.ofNat (200 - min (rank * 10) 255)).toNat = _
  by_cases hlow : UInt8.ofNat (200 - min (rank * 10) 255) < 1
  · rw [if_pos hlow, hone]
    rw [UInt8.lt_iff_toNat_lt, hclaimed, hone] at hlow
    omega
  · rw [if_neg hlow, hclaimed]
    rw [UInt8.lt_iff_toNat_lt, hclaimed, hone] at hlow
    omega

theorem perm_promote (preferred : NodeId) (order : List NodeId) : (promote preferred order).Perm order := by
  rw [promote]
  split
  · rename_i hin
    exact (List.perm_cons_erase hin).symm
  · exact List.Perm.refl _

section Rankings

variable (sha256 : Digest) (vip : VipId) (preferred : Option NodeId) (carriers : List NodeId)

theorem perm_order : (order sha256 vip preferred carriers).Perm carriers := by
  have hsorted : (((carriers.map fun node => (weight sha256 vip node, node)).insertionSort
      (By strength)).map Prod.snd).Perm carriers := by
    refine ((List.perm_insertionSort _ _).map _).trans ?_
    rw [List.map_map]
    exact List.Perm.of_eq (List.map_id _)
  cases preferred with
  | none => exact hsorted
  | some preferred => exact (perm_promote preferred _).trans hsorted

theorem map_node_ranking :
    ((ranking sha256 vip preferred carriers).map fun placement => placement.node) =
      order sha256 vip preferred carriers :=
  List.ext_getElem (by simp [ranking]) (by simp [ranking])

theorem map_priority_ranking :
    ((ranking sha256 vip preferred carriers).map fun placement => placement.priority) =
      (List.range carriers.length).map priority :=
  List.ext_getElem (by simp [ranking, (perm_order sha256 vip preferred carriers).length_eq])
    (by simp [ranking])

theorem descending_ranking :
    ((ranking sha256 vip preferred carriers).map fun placement => placement.priority).Pairwise
      (· ≥ ·) := by
  rw [map_priority_ranking, List.pairwise_map]
  refine List.pairwise_lt_range.imp fun {first second} hlt => ?_
  show priority second ≤ priority first
  rw [UInt8.le_iff_toNat_le, toNat_priority, toNat_priority]
  omega

theorem claimed_ranking {placement : Placement}
    (h : placement ∈ ranking sha256 vip preferred carriers) :
    floor ≤ placement.priority ∧ placement.priority ≤ top := by
  have hin := List.mem_map_of_mem (f := fun placement : Placement => placement.priority) h
  rw [map_priority_ranking] at hin
  obtain ⟨rank, -, heq⟩ := List.mem_map.mp hin
  have hfloor : floor.toNat = 1 := rfl
  have htop : top.toNat = 200 := rfl
  rw [← heq, UInt8.le_iff_toNat_le, UInt8.le_iff_toNat_le, toNat_priority, hfloor, htop]
  omega

/-- Only from the twentyfirst rank on do nodes share a priority. -/
theorem strict_ranking :
    (((ranking sha256 vip preferred carriers).map fun placement => placement.priority).take 21).Pairwise
      (· > ·) := by
  rw [map_priority_ranking, ← List.map_take, List.take_range, List.pairwise_map]
  refine List.pairwise_lt_range.imp_of_mem fun {first second} hfirst hsecond hlt => ?_
  have hrank := List.mem_range.mp hsecond
  show priority second < priority first
  rw [UInt8.lt_iff_toNat_lt, toNat_priority, toNat_priority]
  omega

/-- The preferred node is first when it is a carrier. -/
theorem head?_order {node : NodeId} (h : node ∈ carriers) :
    (order sha256 vip (some node) carriers).head? = some node := by
  have hin : node ∈ order sha256 vip none carriers := (perm_order sha256 vip none carriers).mem_iff.mpr h
  show (promote node (order sha256 vip none carriers)).head? = _
  rw [promote, if_pos hin, List.head?_cons]

theorem holder_entry (vrid : UInt8) (row : Vip) :
    (entry sha256 carriers row vrid).holder = (order sha256 row.id row.preferredNode carriers).head? := by
  rw [VirtualRouter.holder, ← List.head?_map]
  exact congrArg List.head? (map_node_ranking sha256 row.id row.preferredNode carriers)

end Rankings

/-! ## One document -/

/-- The rows the matrix is worked out from are told apart, and there are numbers for all the addresses.
An accepted document is such. -/
structure Distinct (config : Config) : Prop where
  vips : (config.vips.map fun vip => vip.id).Nodup
  nodes : (config.nodes.map fun node => node.id).Nodup
  room : config.vips.length ≤ vrids

/-- The nodes of a document that run the control plane. -/
def controlPlane (config : Config) : List NodeId :=
  (config.nodes.filter fun node => .controlPlane ∈ node.roles).map fun node => node.id

/-- What a matrix is to its document. -/
structure Sound (config : Config) (m : Matrix) : Prop where
  /-- Every address has one entry. -/
  vips : (m.routers.map fun router => router.vip).Perm (config.vips.map fun vip => vip.id)
  /-- No two addresses have one number. -/
  vrids : (m.routers.map fun router => router.vrid).Nodup
  range : ∀ router ∈ m.routers, firstVrid ≤ router.vrid ∧ router.vrid ≤ lastVrid
  /-- Every node of the control plane is ranked once. -/
  ranking : ∀ router ∈ m.routers,
    (router.ranking.map fun placement => placement.node).Perm (controlPlane config)
  /-- The preferred node holds the address if it can. -/
  preferred : ∀ router ∈ m.routers, ∀ vip ∈ config.vips, vip.id = router.vip →
    ∀ node ∈ controlPlane config, vip.preferredNode = some node → router.holder = some node
  descending : ∀ router ∈ m.routers,
    (router.ranking.map fun placement => placement.priority).Pairwise (· ≥ ·)
  claimed : ∀ router ∈ m.routers, ∀ placement ∈ router.ranking,
    floor ≤ placement.priority ∧ placement.priority ≤ top
  strict : ∀ router ∈ m.routers,
    ((router.ranking.map fun placement => placement.priority).take 21).Pairwise (· > ·)

theorem Distinct.of_accepted {config : Config} (h : Validation.Accepted config) : Distinct config := by
  have hids := Validation.checkDuplicateIds_eq_nil.mp h.duplicateIds
  have hroom := h.vips
  rw [Validation.checkVips, List.append_eq_nil_iff] at hroom
  refine ⟨?_, ?_, ?_⟩
  · exact List.Nodup.of_map VipId.asStr (by rw [List.map_map]; exact hids.vips)
  · exact List.Nodup.of_map NodeId.asStr (by rw [List.map_map]; exact hids.nodes)
  · by_contra hmany
    rw [if_pos (by omega)] at hroom
    exact absurd hroom.1 (List.cons_ne_nil _ _)

section Document

variable (sha256 : Digest) {config : Config}

/-- The addresses of a document in the order their identities sort. -/
def sortedVips (config : Config) : List Vip := config.vips.insertionSort (By fun vip => vip.id.asStr)

theorem perm_sortedVips (config : Config) : (sortedVips config).Perm config.vips :=
  List.perm_insertionSort _ _

/-- The addresses of a document with their numbers. -/
def placed (config : Config) : List (Vip × UInt8) := assign (probes sha256) ∅ (sortedVips config)

theorem routers_matrix : (matrix sha256 config).routers =
    (placed sha256 config).map fun row => entry sha256 (carriers config.nodes) row.1 row.2 :=
  routersOf_eq sha256 _ _ _

theorem probes_room (vip : Vip) : (probes sha256 vip).Nodup ∧ (probes sha256 vip).length = vrids :=
  probes_nodup (probes_eq sha256) number_injective vip

/-- Every address gets a number. -/
theorem map_fst_placed (hroom : config.vips.length ≤ vrids) :
    (placed sha256 config).map Prod.fst = sortedVips config :=
  map_fst_assign (probes_room sha256) (by simpa [(perm_sortedVips config).length_eq] using hroom)

theorem mem_of_mem_placed {row : Vip × UInt8} (h : row ∈ placed sha256 config) : row.1 ∈ config.vips :=
  (perm_sortedVips config).mem_iff.mp (exists_of_mem_assign h).1

/-- Every address has one entry. -/
theorem perm_routers (hroom : config.vips.length ≤ vrids) :
    ((matrix sha256 config).routers.map fun router => router.vip).Perm
      (config.vips.map fun vip => vip.id) := by
  have hids : (placed sha256 config).map (fun row => row.1.id) =
      (sortedVips config).map fun vip => vip.id := by
    rw [← map_fst_placed sha256 hroom, List.map_map]
    rfl
  rw [routers_matrix, List.map_map]
  exact (List.Perm.of_eq hids).trans ((perm_sortedVips config).map _)

/-- Whatever number an address gets is one of the 255. -/
theorem exists_number {row : Vip × UInt8} (h : row ∈ placed sha256 config) :
    ∃ place, row.2 = number place := by
  obtain ⟨i, -, heq, -⟩ := home_of_mem_assign (probes_eq sha256) h
  exact ⟨_, heq⟩

theorem perm_carriers : (carriers config.nodes).Perm (controlPlane config) :=
  List.perm_insertionSort _ _

/-- The identities that lists of rows have are told apart by their text. -/
theorem nodup_asStr {ids : List NodeId} (h : ids.Nodup) : (ids.map NodeId.asStr).Nodup :=
  h.map fun first second heq => by
    cases first
    cases second
    exact congrArg NodeId.mk heq

theorem apart_vips {vips : List Vip} (h : (vips.map fun vip => vip.id).Nodup) :
    Apart (By fun vip : Vip => vip.id.asStr) vips := by
  have hinjective : Function.Injective VipId.asStr := by
    rintro ⟨first⟩ ⟨second⟩ heq
    exact congrArg VipId.mk heq
  refine apart_by ?_
  have hmap := h.map hinjective
  rwa [List.map_map] at hmap

/-- The carriers are the same in every order of the nodes. -/
theorem carriers_eq_of_perm {nodes nodes' : List Node} (h : (nodes.map fun node => node.id).Nodup)
    (hperm : nodes.Perm nodes') : carriers nodes = carriers nodes' := by
  refine insertionSort_eq_of_perm (apart_by (nodup_asStr ?_)) ((hperm.filter _).map _)
  exact h.sublist (List.filter_sublist.map _)

/-- The order of the rows is not part of the answer. -/
theorem matrix_eq_of_perm (h : Distinct config) {vips : List Vip} {nodes : List Node}
    (hvips : vips.Perm config.vips) (hnodes : nodes.Perm config.nodes) :
    matrix sha256 { config with vips, nodes } = matrix sha256 config := by
  have hsorted : vips.insertionSort (By fun vip => vip.id.asStr) = sortedVips config :=
    (insertionSort_eq_of_perm (apart_vips h.vips) hvips.symm).symm
  show Matrix.mk (routersOf sha256 (carriers nodes) ∅ (vips.insertionSort _)) = _
  rw [hsorted, ← carriers_eq_of_perm h.nodes hnodes.symm]
  rfl

/-- What every node works out alike. -/
theorem sound_matrix (h : Distinct config) : Sound config (matrix sha256 config) := by
  have hrow : ∀ router ∈ (matrix sha256 config).routers, ∃ row ∈ placed sha256 config,
      entry sha256 (carriers config.nodes) row.1 row.2 = router := by
    intro router hrouter
    rw [routers_matrix] at hrouter
    exact List.mem_map.mp hrouter
  constructor
  · exact perm_routers sha256 h.room
  · rw [routers_matrix, List.map_map]
    exact nodup_assign
  · intro router hrouter
    obtain ⟨row, hrow, rfl⟩ := hrow router hrouter
    obtain ⟨place, hplace⟩ := exists_number sha256 hrow
    have hnumber : row.2.toNat = place.val + 1 := by rw [hplace, toNat_number]
    have hlt : place.val < 255 := ZMod.val_lt place
    have hfirst : UInt8.toNat 1 = 1 := rfl
    have hlast : UInt8.toNat 255 = 255 := rfl
    show 1 ≤ row.2 ∧ row.2 ≤ 255
    rw [UInt8.le_iff_toNat_le, UInt8.le_iff_toNat_le, hnumber, hfirst, hlast]
    omega
  · intro router hrouter
    obtain ⟨row, -, rfl⟩ := hrow router hrouter
    show ((ranking sha256 row.1.id row.1.preferredNode (carriers config.nodes)).map _).Perm _
    rw [map_node_ranking]
    exact (perm_order _ _ _ _).trans perm_carriers
  · intro router hrouter vip hvip hid node hnode hpreferred
    obtain ⟨row, hrow, rfl⟩ := hrow router hrouter
    obtain rfl : vip = row.1 :=
      List.inj_on_of_nodup_map h.vips hvip (mem_of_mem_placed sha256 hrow) hid
    rw [holder_entry, hpreferred]
    exact head?_order _ _ _ (perm_carriers.mem_iff.mpr hnode)
  · intro router hrouter
    obtain ⟨row, -, rfl⟩ := hrow router hrouter
    exact descending_ranking _ _ _ _
  · intro router hrouter placement hplacement
    obtain ⟨row, -, rfl⟩ := hrow router hrouter
    exact claimed_ranking _ _ _ _ hplacement
  · intro router hrouter
    obtain ⟨row, -, rfl⟩ := hrow router hrouter
    exact strict_ranking _ _ _ _

/-- The matrix of a document whose rows are told apart: everything in it is as it should be, and it is
the same however the document lists its addresses and its nodes. -/
theorem matrix_sound (h : Distinct config) : Sound config (matrix sha256 config) ∧
    ∀ vips nodes, vips.Perm config.vips → nodes.Perm config.nodes →
      matrix sha256 { config with vips, nodes } = matrix sha256 config :=
  ⟨sound_matrix sha256 h, fun _ _ hvips hnodes => matrix_eq_of_perm sha256 h hvips hnodes⟩

/-- Three nodes, and three addresses each preferring one of them. -/
def threeAndThree : Config :=
  let node (name : String) (last : UInt8) : Node :=
    ⟨⟨name⟩, .v4 ⟨10, 0, 0, last⟩, [.controlPlane, .dataPlane]⟩
  let vip (name : String) (last : UInt8) (preferred : String) : Vip :=
    ⟨⟨name⟩, .v4 ⟨10, 0, 0, last⟩, 24, "eth0", some ⟨preferred⟩⟩
  { Config.empty with
    nodes := [node "node1" 11, node "node2" 12, node "node3" 13]
    vips := [vip "vip-web" 100 "node1", vip "vip-mail" 101 "node2", vip "vip-dns" 102 "node3"] }

theorem three_and_three_sound : Distinct threeAndThree ∧
    Sound threeAndThree (matrix Sha256.sha256 threeAndThree) := by
  have h : Distinct threeAndThree := ⟨by decide, by decide, by decide⟩
  exact ⟨h, (matrix_sound Sha256.sha256 h).1⟩

end Document

end Matrix

end EkEk
