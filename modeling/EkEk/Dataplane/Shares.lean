import EkEk.Dataplane.Balance

/-!
# Whose share a key is

Reference: `crates/ek-ek-dataplane/src/balance.rs` and `crates/ek-ek-dataplane/src/hashring.rs`.

A ring has one member at a point, and the last one that is put there stays. The points of a member follow
from the hash of its identity alone, so two members whose identities hash alike have all their points
in common, and the first of them is on no ring that the second one is on: `serves_iff` says when a pool
answers whoever it can. Where no two members share a point, a key moves only away from a member that
left and to one that came.
-/

namespace EkEk.Dataplane.Balancer

open HashRing Clockwise

/-- The identities the ring of a pool is built from. -/
def identities (pool : Backend) : List String := (enabled pool).map fun member => member.id.asStr

/-- Whether the member at a place of the ring's list is healthy. -/
def healthyAt (pool : Backend) (health : Health) (index : ℕ) : Bool :=
  (enabled pool)[index]?.any fun member => health.isHealthy pool.id member.id

/-- A choice is of a member that can take traffic, and of nobody only where there is none. -/
def Serves (pool : Backend) (health : Health) (choice : Option BackendMember) : Prop :=
  (∀ member, choice = some member → member ∈ eligible pool health) ∧
    (choice = none ↔ eligible pool health = [])

/-- Some member that can take traffic has a point that no member behind it has too. -/
def Reachable (pool : Backend) (health : Health) : Prop :=
  ∃ point index, Owns (identities pool) point index ∧ healthyAt pool health index = true

variable {b : Balancer} {pool : Backend} {health : Health} {member : BackendMember} {key : List UInt8}

theorem mem_eligible : member ∈ eligible pool health ↔
    member ∈ enabled pool ∧ health.isHealthy pool.id member.id = true :=
  List.mem_filter

theorem healthyAt_iff {index : ℕ} : healthyAt pool health index = true ↔
    ∃ member ∈ eligible pool health, (enabled pool)[index]? = some member := by
  rw [healthyAt, Option.any_eq_true]
  constructor
  · rintro ⟨member, hindex, hhealthy⟩
    exact ⟨member, mem_eligible.mpr ⟨List.mem_of_getElem? hindex, hhealthy⟩, hindex⟩
  · rintro ⟨member, heligible, hindex⟩
    exact ⟨member, hindex, (mem_eligible.mp heligible).2⟩

theorem Reachable.eligible_ne_nil (h : Reachable pool health) : eligible pool health ≠ [] := by
  obtain ⟨_, _, -, hhealthy⟩ := h
  obtain ⟨member, heligible, -⟩ := healthyAt_iff.mp hhealthy
  exact List.ne_nil_of_mem heligible

/-- Consistent hashing with somebody to choose. -/
theorem chooseBy_consistentHash (ring : HashRing) (halgorithm : pool.algorithm = .consistentHash)
    (hsome : eligible pool b.health ≠ []) : (b.chooseBy pool ring key).2 =
      (ring.pickWhere (hash key) (healthyAt pool b.health)).bind fun index => (enabled pool)[index]? := by
  simp only [chooseBy, if_neg hsome, halgorithm]
  rfl

/-- What is chosen on a ring is what the first point belongs to that a healthy member owns. -/
theorem chooseBy_ring_eq_some (halgorithm : pool.algorithm = .consistentHash) :
    (b.chooseBy pool (ringFor pool) key).2 = some member ↔
      ∃ point index, (enabled pool)[index]? = some member ∧
        IsFirst place (hash key).toNat (passing (identities pool) (healthyAt pool b.health))
          (point, index) := by
  by_cases hsome : eligible pool b.health = []
  · rw [chooseBy_of_nobody _ _ hsome]
    refine iff_of_false (Option.some_ne_none member).symm ?_
    rintro ⟨point, index, -, ⟨howns, hhealthy⟩, -⟩
    exact absurd hsome (Reachable.eligible_ne_nil ⟨point, index, howns, hhealthy⟩)
  · rw [chooseBy_consistentHash _ halgorithm hsome, Option.bind_eq_some_iff]
    constructor
    · rintro ⟨index, hpick, hmember⟩
      obtain ⟨point, hfirst⟩ := (pickWhere_eq_some (identities pool) _).mp hpick
      exact ⟨point, index, hmember, hfirst⟩
    · rintro ⟨point, index, hmember, hfirst⟩
      exact ⟨index, (pickWhere_eq_some (identities pool) _).mpr ⟨point, hfirst⟩, hmember⟩

theorem mem_eligible_of_ring (halgorithm : pool.algorithm = .consistentHash)
    (h : (b.chooseBy pool (ringFor pool) key).2 = some member) : member ∈ eligible pool b.health := by
  obtain ⟨point, index, hmember, ⟨-, hhealthy⟩, -⟩ := (chooseBy_ring_eq_some halgorithm).mp h
  obtain ⟨other, heligible, hother⟩ := healthyAt_iff.mp hhealthy
  exact Option.some.inj (hother.symm.trans hmember) ▸ heligible

/-- A ring finds somebody exactly when somebody can be found on it. -/
theorem chooseBy_ring_eq_none (halgorithm : pool.algorithm = .consistentHash) :
    (b.chooseBy pool (ringFor pool) key).2 = none ↔ ¬ Reachable pool b.health := by
  by_cases hsome : eligible pool b.health = []
  · rw [chooseBy_of_nobody _ _ hsome]
    exact iff_of_true rfl fun h => h.eligible_ne_nil hsome
  · rw [chooseBy_consistentHash _ halgorithm hsome, Option.bind_eq_none_iff]
    constructor
    · rintro hnone ⟨point, index, howns, hhealthy⟩
      cases hpick : (ringFor pool).pickWhere (hash key) (healthyAt pool b.health) with
      | none => exact (pickWhere_eq_none (identities pool) _).mp hpick point index howns hhealthy
      | some found =>
        obtain ⟨_, ⟨-, hfound⟩, -⟩ := (pickWhere_eq_some (identities pool) _).mp hpick
        obtain ⟨member, -, hmember⟩ := healthyAt_iff.mp hfound
        exact absurd ((hnone found hpick).symm.trans hmember) (Option.some_ne_none member).symm
    · intro hnone index hpick
      obtain ⟨point, ⟨howns, hhealthy⟩, -⟩ := (pickWhere_eq_some (identities pool) _).mp hpick
      exact absurd ⟨point, index, howns, hhealthy⟩ hnone

/-! ## Whether a pool answers -/

/-- A turn among the shares of some members is a turn of one of them. -/
theorem exists_mem_byWeight {members : List BackendMember} (hsome : members ≠ []) (turn : ℕ) :
    ∃ member ∈ members, (byWeight members)[turn % (byWeight members).length]? = some member := by
  obtain ⟨first, hfirst⟩ := List.exists_mem_of_ne_nil members hsome
  have hlt : turn % (byWeight members).length < (byWeight members).length := by
    rw [length_byWeight]
    exact Nat.mod_lt _ (shares_pos hfirst)
  obtain ⟨member, hmember, hshare⟩ := List.mem_flatMap.mp (List.getElem_mem hlt)
  refine ⟨member, hmember, ?_⟩
  rw [List.getElem?_eq_getElem hlt, List.eq_of_mem_replicate hshare]

theorem serves_some (heligible : member ∈ eligible pool health) : Serves pool health (some member) :=
  ⟨fun _ h => Option.some.inj h ▸ heligible,
    iff_of_false (Option.some_ne_none member) (List.ne_nil_of_mem heligible)⟩

/-- Without a ring whoever can take traffic can be chosen. -/
theorem serves_of_ne (ring : HashRing) (halgorithm : pool.algorithm ≠ .consistentHash) :
    Serves pool b.health (b.chooseBy pool ring key).2 := by
  by_cases hsome : eligible pool b.health = []
  · rw [chooseBy_of_nobody _ _ hsome]
    exact ⟨fun member h => absurd h (Option.some_ne_none member).symm, iff_of_true rfl hsome⟩
  · simp only [chooseBy, if_neg hsome]
    split
    · obtain ⟨member, hmember, heq⟩ := exists_mem_byWeight hsome b.cursor.toNat
      exact heq ▸ serves_some hmember
    · cases hleast : (eligible pool b.health).argmin fun member =>
          toLex ((totalFor b.openCounts pool.id member.id).toNat, member.id.asStr) with
      | none => exact absurd (List.argmin_eq_none.mp hleast) hsome
      | some member => exact serves_some (List.argmin_mem hleast)
    · obtain ⟨member, hmember, heq⟩ := exists_mem_byWeight hsome (hash key).toNat
      exact heq ▸ serves_some hmember
    · rename_i heq
      exact absurd heq halgorithm

/-- A pool answers whoever it can exactly when consistent hashing, where it is asked of a pool with
somebody to choose, can reach one of them. -/
theorem serves_iff (b : Balancer) (pool : Backend) (key : List UInt8) :
    Serves pool b.health (b.chooseBy pool (ringFor pool) key).2 ↔
      (pool.algorithm = .consistentHash → eligible pool b.health ≠ [] → Reachable pool b.health) := by
  by_cases halgorithm : pool.algorithm = .consistentHash
  · have hnone : (b.chooseBy pool (ringFor pool) key).2 = none ↔ ¬ Reachable pool b.health :=
      chooseBy_ring_eq_none halgorithm
    constructor
    · rintro ⟨-, hserves⟩ - hsome
      by_contra hreach
      exact hsome (hserves.mp (hnone.mpr hreach))
    · intro hreach
      refine ⟨fun member => mem_eligible_of_ring halgorithm, hnone.trans ⟨fun hnot => ?_, ?_⟩⟩
      · by_contra hsome
        exact hnot (hreach halgorithm hsome)
      · exact fun hnobody h => h.eligible_ne_nil hnobody
  · exact iff_of_true (serves_of_ne _ halgorithm) fun h => absurd h halgorithm

/-- A pool whose members are on a ring. -/
def ringPool (members : List BackendMember) : Backend :=
  ⟨⟨"web"⟩, members, .consistentHash, none, .disabled, .enabled, 0, 0⟩

/-- A balancer that knows of one member that it is down. -/
def oneDown (name : String) : Balancer :=
  ⟨0, .empty, ⟨Assoc.empty.insert (⟨"web"⟩, ⟨name⟩) ⟨false, 3, 0, 1⟩⟩⟩

/-- Two members whose identities have one hash. -/
def alike : Backend := ringPool [oneOf "8yn0iYCKYHlIj4-BwPqk", oneOf "GReLUrM4wMqfg9yzV3KQ"]

/-- The second one has every point of the first, and it is down. -/
theorem hashed_alike :
    eligible alike (oneDown "GReLUrM4wMqfg9yzV3KQ").health = [oneOf "8yn0iYCKYHlIj4-BwPqk"] ∧
      ((oneDown "GReLUrM4wMqfg9yzV3KQ").chooseBy alike (ringFor alike) (Text.bytes "10.0.0.7")).2 =
        none := by
  have hpoints : pointsOf "8yn0iYCKYHlIj4-BwPqk" = pointsOf "GReLUrM4wMqfg9yzV3KQ" :=
    pointsOf_congr (by decide +kernel)
  refine ⟨by decide, (chooseBy_ring_eq_none rfl).mpr ?_⟩
  rintro ⟨point, index, ⟨member, hmember, hpoint, hnobody⟩, hhealthy⟩
  match index with
  | 0 =>
    obtain rfl : "8yn0iYCKYHlIj4-BwPqk" = member := Option.some.inj hmember
    exact hnobody 1 _ Nat.zero_lt_one rfl (hpoints ▸ hpoint)
  | 1 => exact absurd hhealthy (by decide)
  | index + 2 => exact absurd hmember (by simp [identities, enabled, alike, ringPool, oneOf])

/-! ## Which keys move -/

/-- A member that is in service in a pool. -/
def InService (pool : Backend) (id : MemberId) : Prop := ∃ member ∈ enabled pool, member.id = id

/-- Two choices are the same, or one of them is the kind that moved. -/
def MovesOnly {α : Type} (away onto : α → Prop) (before after : Option α) : Prop :=
  before = after ∨ (∃ a, before = some a ∧ away a) ∨ ∃ a, after = some a ∧ onto a

/-- The points of some members. -/
def pointsIn (members : List BackendMember) : Set UInt64 :=
  {point | ∃ member ∈ members, point ∈ pointsOf member.id.asStr}

variable {b' : Balancer} {pool' : Backend} {member' : BackendMember}

/-- Two walks around one ring stop at the same row if each of the two rows they stop at is healthy for
both. -/
theorem chooseBy_eq_of_healthy (halgorithm : pool.algorithm = .consistentHash)
    (h : (b.chooseBy pool (ringFor pool) key).2 = some member)
    (h' : (b'.chooseBy pool (ringFor pool) key).2 = some member')
    (hstays : b'.health.isHealthy pool.id member.id = true)
    (hwas : b.health.isHealthy pool.id member'.id = true) : member = member' := by
  obtain ⟨point, index, hmember, hfirst⟩ := (chooseBy_ring_eq_some halgorithm).mp h
  obtain ⟨point', index', hmember', hfirst'⟩ := (chooseBy_ring_eq_some halgorithm).mp h'
  have hin : (point, index) ∈ passing (identities pool) (healthyAt pool b'.health) :=
    ⟨hfirst.mem.1, (Option.any_eq_true _ _).mpr ⟨member, hmember, hstays⟩⟩
  have hin' : (point', index') ∈ passing (identities pool) (healthyAt pool b.health) :=
    ⟨hfirst'.mem.1, (Option.any_eq_true _ _).mpr ⟨member', hmember', hwas⟩⟩
  have hplace : point.toNat = point'.toNat := hfirst.place_eq hfirst' hin hin'
  obtain rfl : point = point' := UInt64.toNat_inj.mp hplace
  obtain rfl := hfirst.mem.1.unique hfirst'.mem.1
  exact Option.some.inj (hmember.symm.trans hmember')

/-- Who can be chosen while he is healthy leaves no key with nobody. -/
theorem chooseBy_ne_none_of_healthy (halgorithm : pool.algorithm = .consistentHash)
    (h : (b.chooseBy pool (ringFor pool) key).2 = some member)
    (hstays : b'.health.isHealthy pool.id member.id = true) :
    (b'.chooseBy pool (ringFor pool) key).2 ≠ none := by
  obtain ⟨point, index, hmember, hfirst⟩ := (chooseBy_ring_eq_some halgorithm).mp h
  refine fun hnone => (chooseBy_ring_eq_none halgorithm).mp hnone ⟨point, index, hfirst.mem.1, ?_⟩
  exact (Option.any_eq_true _ _).mpr ⟨member, hmember, hstays⟩

/-- What one member's health changes is whether that member is chosen. -/
theorem movesOnly_of_health (halgorithm : pool.algorithm = .consistentHash) (m : MemberId)
    (hothers : ∀ id, id ≠ m → b.health.isHealthy pool.id id = b'.health.isHealthy pool.id id) :
    MovesOnly (fun member => member.id = m) (fun member => member.id = m)
      (b.chooseBy pool (ringFor pool) key).2 (b'.chooseBy pool (ringFor pool) key).2 := by
  have hhealthy : ∀ {b : Balancer} {member : BackendMember},
      (b.chooseBy pool (ringFor pool) key).2 = some member →
        b.health.isHealthy pool.id member.id = true :=
    fun h => (mem_eligible.mp (mem_eligible_of_ring halgorithm h)).2
  cases hbefore : (b.chooseBy pool (ringFor pool) key).2 with
  | none =>
    cases hafter : (b'.chooseBy pool (ringFor pool) key).2 with
    | none => exact .inl rfl
    | some member' =>
      by_cases hm : member'.id = m
      · exact .inr (.inr ⟨member', rfl, hm⟩)
      · have hwas := (hothers member'.id hm).trans (hhealthy hafter)
        exact absurd hbefore (chooseBy_ne_none_of_healthy halgorithm hafter hwas)
  | some member =>
    by_cases hm : member.id = m
    · exact .inr (.inl ⟨member, rfl, hm⟩)
    · have hstays := (hothers member.id hm).symm.trans (hhealthy hbefore)
      cases hafter : (b'.chooseBy pool (ringFor pool) key).2 with
      | none => exact absurd hafter (chooseBy_ne_none_of_healthy halgorithm hbefore hstays)
      | some member' =>
        by_cases hm' : member'.id = m
        · exact .inr (.inr ⟨member', rfl, hm'⟩)
        · have hwas := (hothers member'.id hm').trans (hhealthy hafter)
          exact .inl (congrArg some (chooseBy_eq_of_healthy halgorithm hbefore hafter hstays hwas))

/-- The choice on a ring depends on the health of the pool's members and on nothing else. -/
theorem chooseBy_ring_congr (halgorithm : pool.algorithm = .consistentHash)
    (h : ∀ id, b.health.isHealthy pool.id id = b'.health.isHealthy pool.id id) :
    (b.chooseBy pool (ringFor pool) key).2 = (b'.chooseBy pool (ringFor pool) key).2 := by
  have heligible : eligible pool b.health = eligible pool b'.health :=
    List.filter_congr fun member _ => h member.id
  have hat : healthyAt pool b.health = healthyAt pool b'.health := by
    funext index
    rw [healthyAt, healthyAt]
    simp only [h]
  by_cases hsome : eligible pool b.health = []
  · rw [chooseBy_of_nobody _ _ hsome, chooseBy_of_nobody _ _ (heligible ▸ hsome)]
  · rw [chooseBy_consistentHash _ halgorithm hsome,
      chooseBy_consistentHash _ halgorithm (heligible ▸ hsome), hat]

/-- Where no two members share a point, whoever can take traffic can be found at all of its points. -/
theorem exists_owns_healthy (hapart : Apart (identities pool)) {point : UInt64}
    (heligible : member ∈ eligible pool health) (hpoint : point ∈ pointsOf member.id.asStr) :
    ∃ index, Owns (identities pool) point index ∧ healthyAt pool health index = true := by
  obtain ⟨henabled, hhealthy⟩ := mem_eligible.mp heligible
  have hin : member.id.asStr ∈ identities pool := List.mem_map_of_mem henabled
  obtain ⟨index, howns, hplace⟩ := hapart.exists_owns hin hpoint
  -- whoever stands there has the member's identity
  rw [identities, List.getElem?_map, Option.map_eq_some_iff] at hplace
  obtain ⟨twin, htwin, hsame⟩ := hplace
  have hid : twin.id = member.id := congrArg MemberId.mk hsame
  exact ⟨index, howns, (Option.any_eq_true _ _).mpr ⟨twin, htwin, hid ▸ hhealthy⟩⟩

/-- A key goes to whoever has the first point of all members that can take traffic. -/
theorem isFirst_of_apart (halgorithm : pool.algorithm = .consistentHash)
    (hapart : Apart (identities pool)) (h : (b.chooseBy pool (ringFor pool) key).2 = some member) :
    ∃ point ∈ pointsOf member.id.asStr,
      IsFirst UInt64.toNat (hash key).toNat (pointsIn (eligible pool b.health)) point := by
  obtain ⟨point, index, hmember, hfirst⟩ := (chooseBy_ring_eq_some halgorithm).mp h
  obtain ⟨⟨owner, howner, hpoint, -⟩, -⟩ := hfirst.mem
  have hname : (identities pool)[index]? = some member.id.asStr := by
    rw [identities, List.getElem?_map, hmember, Option.map_some]
  obtain rfl : owner = member.id.asStr := Option.some.inj (howner.symm.trans hname)
  refine ⟨point, hpoint, ⟨member, mem_eligible_of_ring halgorithm h, hpoint⟩, ?_⟩
  rintro other ⟨holder, hholder, hother⟩
  obtain ⟨spot, howns, hhealthy⟩ := exists_owns_healthy hapart hholder hother
  exact hfirst.le (other, spot) ⟨howns, hhealthy⟩

theorem chooseBy_ne_none_of_apart (halgorithm : pool.algorithm = .consistentHash)
    (hapart : Apart (identities pool)) (heligible : member ∈ eligible pool b.health) :
    (b.chooseBy pool (ringFor pool) key).2 ≠ none := by
  obtain ⟨point, hpoint⟩ := pointsOf_ne_nil member.id.asStr
  obtain ⟨index, howns, hhealthy⟩ := exists_owns_healthy hapart heligible hpoint
  exact fun hnone => (chooseBy_ring_eq_none halgorithm).mp hnone ⟨point, index, howns, hhealthy⟩

section Members

variable (halgorithm : pool.algorithm = .consistentHash)
  (halgorithm' : pool'.algorithm = .consistentHash)
  (hapart : Apart (identities pool ++ identities pool'))
  (hhealth : ∀ id, InService pool id → InService pool' id →
    b.health.isHealthy pool.id id = b'.health.isHealthy pool'.id id)

include halgorithm hhealth in
/-- Whoever was chosen can take traffic in the other pool as well, if it is in service there. -/
theorem exists_eligible_of_inService (h : (b.chooseBy pool (ringFor pool) key).2 = some member)
    (hstays : InService pool' member.id) :
    ∃ twin ∈ eligible pool' b'.health, twin.id = member.id := by
  obtain ⟨henabled, hhealthy⟩ := mem_eligible.mp (mem_eligible_of_ring halgorithm h)
  have hsame := hhealth member.id ⟨member, henabled, rfl⟩ hstays
  obtain ⟨twin, htwin, hid⟩ := hstays
  exact ⟨twin, mem_eligible.mpr ⟨htwin, hid ▸ hsame ▸ hhealthy⟩, hid⟩

include halgorithm halgorithm' hapart hhealth in
/-- Two choices for one key are of one member if each of them is in service in both pools. -/
theorem id_eq_of_inService (h : (b.chooseBy pool (ringFor pool) key).2 = some member)
    (h' : (b'.chooseBy pool' (ringFor pool') key).2 = some member')
    (hstays : InService pool' member.id) (hwas : InService pool member'.id) :
    member.id = member'.id := by
  obtain ⟨twin, htwin, hid⟩ := exists_eligible_of_inService halgorithm hhealth h hstays
  obtain ⟨twin', htwin', hid'⟩ := exists_eligible_of_inService halgorithm'
    (fun id hin hout => (hhealth id hout hin).symm) h' hwas
  obtain ⟨point, hpoint, hfirst⟩ :=
    isFirst_of_apart halgorithm (hapart.mono (List.subset_append_left _ _)) h
  obtain ⟨point', hpoint', hfirst'⟩ :=
    isFirst_of_apart halgorithm' (hapart.mono (List.subset_append_right _ _)) h'
  have hplace : point.toNat = point'.toNat :=
    hfirst.place_eq hfirst' ⟨twin, htwin, hid ▸ hpoint⟩ ⟨twin', htwin', hid' ▸ hpoint'⟩
  obtain rfl : point = point' := UInt64.toNat_inj.mp hplace
  have henabled := (mem_eligible.mp (mem_eligible_of_ring halgorithm h)).1
  have henabled' := (mem_eligible.mp (mem_eligible_of_ring halgorithm' h')).1
  have hname : member.id.asStr = member'.id.asStr := by
    by_contra hne
    exact hapart _ (List.mem_append_left _ (List.mem_map_of_mem henabled)) _
      (List.mem_append_right _ (List.mem_map_of_mem henabled')) hne point hpoint hpoint'
  exact congrArg MemberId.mk hname

include halgorithm halgorithm' hapart hhealth in
/-- What a change of the members changes is whether those are chosen that came or left. -/
theorem movesOnly_of_members :
    MovesOnly (fun id => ¬ InService pool' id) (fun id => ¬ InService pool id)
      ((b.chooseBy pool (ringFor pool) key).2.map BackendMember.id)
      ((b'.chooseBy pool' (ringFor pool') key).2.map BackendMember.id) := by
  cases h : (b.chooseBy pool (ringFor pool) key).2 with
  | none =>
    cases h' : (b'.chooseBy pool' (ringFor pool') key).2 with
    | none => exact .inl rfl
    | some member' =>
      refine .inr (.inr ⟨member'.id, rfl, fun hwas => ?_⟩)
      obtain ⟨twin, htwin, -⟩ := exists_eligible_of_inService halgorithm'
        (fun id hin hout => (hhealth id hout hin).symm) h' hwas
      exact chooseBy_ne_none_of_apart halgorithm (hapart.mono (List.subset_append_left _ _)) htwin h
  | some member =>
    by_cases hstays : InService pool' member.id
    · cases h' : (b'.chooseBy pool' (ringFor pool') key).2 with
      | none =>
        obtain ⟨twin, htwin, -⟩ := exists_eligible_of_inService halgorithm hhealth h hstays
        exact absurd h'
          (chooseBy_ne_none_of_apart halgorithm' (hapart.mono (List.subset_append_right _ _)) htwin)
      | some member' =>
        by_cases hwas : InService pool member'.id
        · exact .inl (congrArg some
            (id_eq_of_inService halgorithm halgorithm' hapart hhealth h h' hstays hwas))
        · exact .inr (.inr ⟨member'.id, rfl, hwas⟩)
    · exact .inr (.inl ⟨member.id, rfl, hstays⟩)

end Members

/-- Only the share that is affected moves. A change of one member's health moves keys to and from that
member, and back when the change is taken back. A change of the members, where no two of them share a
point, moves keys to those that came into service and from those that went out of it. -/
theorem affected_share_moves (pool : Backend) (halgorithm : pool.algorithm = .consistentHash)
    (key : List UInt8) (b b' : Balancer) :
    (∀ m, (∀ id, id ≠ m → b.health.isHealthy pool.id id = b'.health.isHealthy pool.id id) →
      MovesOnly (fun member => member.id = m) (fun member => member.id = m)
        (b.chooseBy pool (ringFor pool) key).2 (b'.chooseBy pool (ringFor pool) key).2 ∧
      ∀ b'' : Balancer, (∀ id, id ≠ m → b'.health.isHealthy pool.id id = b''.health.isHealthy pool.id id) →
        b.health.isHealthy pool.id m = b''.health.isHealthy pool.id m →
          (b''.chooseBy pool (ringFor pool) key).2 = (b.chooseBy pool (ringFor pool) key).2) ∧
    ∀ pool' : Backend, pool'.algorithm = .consistentHash →
      Apart (identities pool ++ identities pool') →
      (∀ id, InService pool id → InService pool' id →
        b.health.isHealthy pool.id id = b'.health.isHealthy pool'.id id) →
      MovesOnly (fun id => ¬ InService pool' id) (fun id => ¬ InService pool id)
        ((b.chooseBy pool (ringFor pool) key).2.map BackendMember.id)
        ((b'.chooseBy pool' (ringFor pool') key).2.map BackendMember.id) := by
  refine ⟨fun m hothers => ⟨movesOnly_of_health halgorithm m hothers, fun b'' hback hm => ?_⟩,
    fun pool' halgorithm' hapart hhealth => movesOnly_of_members halgorithm halgorithm' hapart hhealth⟩
  refine chooseBy_ring_congr halgorithm fun id => ?_
  by_cases hid : id = m
  · exact hid ▸ hm.symm
  · exact ((hothers id hid).trans (hback id hid)).symm

theorem isHealthy_oneDown {name : String} {id : MemberId} (h : id ≠ ⟨name⟩) :
    (oneDown name).health.isHealthy ⟨"web"⟩ id = true := by
  have hne : ((⟨"web"⟩, ⟨name⟩) : BackendId × MemberId) ≠ (⟨"web"⟩, id) :=
    fun heq => h (Prod.mk.inj heq).2.symm
  have hget : (oneDown name).health.states.get (⟨"web"⟩, id) = none := by
    simp [oneDown, Assoc.get, Assoc.insert, Assoc.put, Assoc.empty, hne]
  rw [Health.isHealthy, hget]

/-- A pool of one member that goes down, and that is taken out of service. -/
theorem lone_member_moves :
    MovesOnly (fun member => member.id = ⟨"one"⟩) (fun member => member.id = ⟨"one"⟩)
        (new.chooseBy (ringPool [oneOf "one"]) (ringFor (ringPool [oneOf "one"])) []).2
        ((oneDown "one").chooseBy (ringPool [oneOf "one"]) (ringFor (ringPool [oneOf "one"])) []).2 ∧
      MovesOnly (fun id => ¬ InService (ringPool []) id)
        (fun id => ¬ InService (ringPool [oneOf "one"]) id)
        ((new.chooseBy (ringPool [oneOf "one"]) (ringFor (ringPool [oneOf "one"])) []).2.map
          BackendMember.id)
        (((oneDown "one").chooseBy (ringPool []) (ringFor (ringPool [])) []).2.map BackendMember.id) := by
  have hboth := affected_share_moves (ringPool [oneOf "one"]) rfl [] new (oneDown "one")
  refine ⟨(hboth.1 ⟨"one"⟩ fun id hid => (isHealthy_oneDown hid).symm).1,
    hboth.2 (ringPool []) rfl ?_ fun id _ hin => ?_⟩
  · intro a ha b hb hne
    exact absurd ((List.mem_singleton.mp ha).trans (List.mem_singleton.mp hb).symm) hne
  · obtain ⟨member, hmember, -⟩ := hin
    exact absurd hmember List.not_mem_nil

end EkEk.Dataplane.Balancer
