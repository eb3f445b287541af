import EkEk.Dataplane.HashRing
import EkEk.Dataplane.Health
import EkEk.Lib.Runs
import EkEk.Lib.Sorting
import Mathlib.Data.List.MinMax
import Mathlib.Data.Prod.Lex
import Mathlib.Data.String.Basic

/-!
# Choosing which member of a pool answers

Reference: `crates/ek-ek-dataplane/src/balance.rs`.

One balancer serves every pool of the process. It has the counts of open connections, what health
checking decided, and the cursor that round robin walks with. The cursor is one counter for all pools,
and a pool takes it modulo the number of its own shares: `window_fair` says which requests to other
pools in between leave a pool its shares.
-/

namespace EkEk.Dataplane

/-- Where a connection came from and where it went. -/
abbrev MemberKey := FrontendId × BackendId × MemberId

/-- Picks members and remembers how many connections each one is carrying. -/
structure Balancer where
  /-- Where round robin left off. -/
  cursor : UInt64
  /-- Open connections per member. -/
  openCounts : Assoc MemberKey UInt64
  health : Health
deriving DecidableEq, Repr

/-- The members an operator has left in service, in configuration order. -/
def enabled (pool : Backend) : List BackendMember :=
  pool.members.filter fun member => member.adminState = .enabled

/-- The members a pool can currently send to. -/
def eligible (pool : Backend) (health : Health) : List BackendMember :=
  (enabled pool).filter fun member => health.isHealthy pool.id member.id

/-- The share of traffic of a member. One share is the floor. -/
def share (member : BackendMember) : ℕ := max member.weight.toNat 1

/-- Expand a member list by weight. -/
def byWeight (members : List BackendMember) : List BackendMember :=
  members.flatMap fun member => List.replicate (share member) member

/-- What one member carries across every frontend. -/
def totalFor (openCounts : Assoc MemberKey UInt64) (pool : BackendId) (member : MemberId) : UInt64 :=
  ((openCounts.rows.filter fun row => row.1.2.1 = pool ∧ row.1.2.2 = member).map Prod.snd).sum

/-- The ring a pool's consistent hashing walks. -/
def ringFor (pool : Backend) : HashRing :=
  HashRing.build ((enabled pool).map fun member => member.id.asStr)

namespace Balancer

/-- Nothing open and the walk at the beginning. -/
def new : Balancer := ⟨0, .empty, .new⟩

/-- Choose a member from a key the caller decides. -/
def chooseBy (b : Balancer) (pool : Backend) (ring : HashRing) (key : List UInt8) :
    Balancer × Option BackendMember :=
  let members := eligible pool b.health
  if members = [] then (b, none)
  else
    match pool.algorithm with
    | .roundRobin =>
      let spread := byWeight members
      ({ b with cursor := b.cursor + 1 }, spread[b.cursor.toNat % spread.length]?)
    | .leastConnections =>
      -- every frontend counts, and ties break on identity
      (b, members.argmin fun member =>
        toLex ((totalFor b.openCounts pool.id member.id).toNat, member.id.asStr))
    | .sourceIpHash =>
      let spread := byWeight members
      (b, spread[(hash key).toNat % spread.length]?)
    | .consistentHash =>
      -- the ring indexes the enabled members, and those that are out are walked past
      (b, do
        let index ← ring.pickWhere (hash key) fun index =>
          (enabled pool)[index]?.any fun member => b.health.isHealthy pool.id member.id
        (enabled pool)[index]?)

/-- Choose the member that answers this request. -/
def choose (b : Balancer) (pool : Backend) (ring : HashRing) (client : IpAddr) :
    Balancer × Option BackendMember :=
  b.chooseBy pool ring (Text.bytes client.display)

/-- A connection to a member has opened. -/
def opened (b : Balancer) (frontend : FrontendId) (pool : BackendId) (member : MemberId) : Balancer :=
  let key := (frontend, pool, member)
  { b with openCounts := b.openCounts.insert key ((b.openCounts.get key).getD 0 + 1) }

/-- A connection to a member has finished. -/
def closed (b : Balancer) (frontend : FrontendId) (pool : BackendId) (member : MemberId) : Balancer :=
  let key := (frontend, pool, member)
  match b.openCounts.get key with
  | some count => { b with openCounts := b.openCounts.insert key (if count = 0 then 0 else count - 1) }
  | none => b

/-! ## Runs -/

/-- What happens to the balancer of a process. -/
inductive Event where
  | request (pool : Backend) (ring : HashRing) (key : List UInt8)
  | opened (frontend : FrontendId) (pool : BackendId) (member : MemberId)
  | closed (frontend : FrontendId) (pool : BackendId) (member : MemberId)
  | probed (pool : BackendId) (member : MemberId) (check : HealthCheck) (good : Bool)

/-- One event. -/
def step (b : Balancer) : Event → Balancer
  | .request pool ring key => (b.chooseBy pool ring key).1
  | .opened frontend pool member => b.opened frontend pool member
  | .closed frontend pool member => b.closed frontend pool member
  | .probed pool member check good => { b with health := (b.health.record pool member check good).1 }

/-- A request to a pool. -/
def Event.IsTo (id : BackendId) : Event → Prop
  | .request pool _ _ => pool.id = id
  | _ => False

instance (id : BackendId) (event : Event) : Decidable (event.IsTo id) :=
  match event with
  | .request pool _ _ => inferInstanceAs (Decidable (pool.id = id))
  | .opened _ _ _ | .closed _ _ _ | .probed _ _ _ _ => inferInstanceAs (Decidable False)

/-- What an event gets if it is a request to a pool. -/
def pick (id : BackendId) (b : Balancer) : Event → List (Option BackendMember)
  | .request pool ring key => if pool.id = id then [(b.chooseBy pool ring key).2] else []
  | _ => []

/-- What the requests to a pool get, one after another. -/
def picks (id : BackendId) : Balancer → List Event → List (Option BackendMember)
  | _, [] => []
  | b, event :: events => b.pick id event ++ picks id (b.step event) events

/-- How far an event moves the cursor: a round robin request moves it if anybody can take it, to
whatever pool it goes. -/
def advance (b : Balancer) : Event → ℕ
  | .request pool _ _ => if pool.algorithm = .roundRobin ∧ eligible pool b.health ≠ [] then 1 else 0
  | _ => 0

/-- How many requests had moved the cursor at each request to a pool, as far as the counter goes. -/
def turns (id : BackendId) : ℕ → Balancer → List Event → List ℕ
  | _, _, [] => []
  | walked, b, event :: events =>
    (if event.IsTo id then [walked % 2 ^ 64] else []) ++
      turns id (walked + b.advance event) (b.step event) events

/-- A pool that walks the same members whenever it is asked. -/
def Steady (id : BackendId) (members : List BackendMember) (b : Balancer) : Event → Prop
  | .request pool _ _ => pool.id = id → pool.algorithm = .roundRobin ∧ eligible pool b.health = members
  | _ => True

/-- The shares of the members of a pool, taken together. -/
def shares (members : List BackendMember) : ℕ := (members.map share).sum

/-- Every request to a pool comes at another of its turns. -/
def InTurn (id : BackendId) (members : List BackendMember) (b : Balancer) (events : List Event) : Prop :=
  ((turns id b.cursor.toNat b events).map fun turn => turn % shares members).Nodup

/-- Every member was chosen as often as it has shares. -/
def Fair (id : BackendId) (members : List BackendMember) (b : Balancer) (events : List Event) : Prop :=
  ∀ member ∈ members, (picks id b events).count (some member) = share member

variable {b : Balancer} {id : BackendId} {members : List BackendMember} {events : List Event}

/-- Round robin with somebody to walk to. -/
theorem chooseBy_roundRobin {pool : Backend} (ring : HashRing) (key : List UInt8)
    (halgorithm : pool.algorithm = .roundRobin) (hsome : eligible pool b.health ≠ []) :
    b.chooseBy pool ring key = ({ b with cursor := b.cursor + 1 },
      (byWeight (eligible pool b.health))[b.cursor.toNat %
        (byWeight (eligible pool b.health)).length]?) := by
  simp only [chooseBy, if_neg hsome, halgorithm]

theorem chooseBy_of_nobody {pool : Backend} (ring : HashRing) (key : List UInt8)
    (hnone : eligible pool b.health = []) : b.chooseBy pool ring key = (b, none) := by
  simp only [chooseBy, if_pos hnone]

/-- The other algorithms leave the balancer alone. -/
theorem chooseBy_fst_of_ne {pool : Backend} (ring : HashRing) (key : List UInt8)
    (halgorithm : pool.algorithm ≠ .roundRobin) : (b.chooseBy pool ring key).1 = b := by
  simp only [chooseBy]
  split
  · rfl
  · split
    · rename_i heq
      exact absurd heq halgorithm
    all_goals rfl

/-- Whoever is chosen was left in service. -/
theorem mem_enabled_of_chooseBy {pool : Backend} {ring : HashRing} {key : List UInt8}
    {member : BackendMember} (h : (b.chooseBy pool ring key).2 = some member) :
    member ∈ enabled pool := by
  have heligible : ∀ member, member ∈ eligible pool b.health → member ∈ enabled pool :=
    fun _ h => List.mem_of_mem_filter h
  have hspread : ∀ member, member ∈ byWeight (eligible pool b.health) → member ∈ enabled pool := by
    intro member hmember
    obtain ⟨other, hother, heq⟩ := List.mem_flatMap.mp hmember
    exact heligible _ (List.eq_of_mem_replicate heq ▸ hother)
  simp only [chooseBy] at h
  split at h
  · cases h
  · split at h
    · exact hspread _ (List.mem_of_getElem? h)
    · exact heligible _ (List.argmin_mem h)
    · exact hspread _ (List.mem_of_getElem? h)
    · obtain ⟨index, -, hindex⟩ := Option.bind_eq_some_iff.mp h
      exact List.mem_of_getElem? hindex

/-- The cursor counts the round robin requests of all pools. -/
theorem cursor_step (event : Event) :
    (b.step event).cursor = b.cursor + UInt64.ofNat (b.advance event) := by
  have hzero : b.cursor + UInt64.ofNat 0 = b.cursor := UInt64.toNat_inj.mp (by simp)
  cases event with
  | request pool ring key =>
    show (b.chooseBy pool ring key).1.cursor = _
    rw [advance]
    by_cases halgorithm : pool.algorithm = .roundRobin
    · by_cases hsome : eligible pool b.health = []
      · rw [chooseBy_of_nobody ring key hsome, if_neg (fun h => h.2 hsome), hzero]
      · rw [chooseBy_roundRobin ring key halgorithm hsome, if_pos ⟨halgorithm, hsome⟩]
        rfl
    · rw [chooseBy_fst_of_ne ring key halgorithm, if_neg (fun h => halgorithm h.1), hzero]
  | opened frontend pool member => exact hzero.symm
  | closed frontend pool member =>
    have hsame : (b.closed frontend pool member).cursor = b.cursor := by
      rw [closed]
      split <;> rfl
    exact hsame.trans hzero.symm
  | probed pool member check good => exact hzero.symm

theorem length_byWeight (members : List BackendMember) : (byWeight members).length = shares members := by
  simp [byWeight, shares, List.length_flatMap]

theorem length_turns (walked : ℕ) (b : Balancer) (events : List Event) :
    (turns id walked b events).length = (events.filter fun event => event.IsTo id).length := by
  induction events generalizing walked b with
  | nil => rfl
  | cons event events ih =>
    rw [turns, List.length_append, ih]
    by_cases hto : event.IsTo id
    · rw [if_pos hto, List.filter_cons_of_pos (by simpa using hto), List.length_cons, List.length_cons,
        List.length_nil]
      omega
    · rw [if_neg hto, List.filter_cons_of_neg (by simpa using hto), List.length_nil]
      omega

/-- A steady pool answers by the turn its request comes at. -/
theorem pick_eq {walked : ℕ} {event : Event} (hsteady : Steady id members b event)
    (hwalked : walked % 2 ^ 64 = b.cursor.toNat) :
    b.pick id event = (if event.IsTo id then [walked % 2 ^ 64] else []).map fun turn =>
      (byWeight members)[turn % shares members]? := by
  cases event with
  | request pool ring key =>
    by_cases hto : pool.id = id
    · obtain ⟨halgorithm, rfl⟩ := hsteady hto
      have hevent : (Event.request pool ring key).IsTo id := hto
      rw [pick, if_pos hto, if_pos hevent, hwalked, List.map_singleton]
      by_cases hsome : eligible pool b.health = []
      · rw [chooseBy_of_nobody ring key hsome, hsome]
        rfl
      · rw [chooseBy_roundRobin ring key halgorithm hsome, length_byWeight]
    · have hevent : ¬(Event.request pool ring key).IsTo id := hto
      rw [pick, if_neg hto, if_neg hevent, List.map_nil]
  | opened frontend pool member => rfl
  | closed frontend pool member => rfl
  | probed pool member check good => rfl

theorem picks_eq {walked : ℕ} (hsteady : Runs.Along step (Steady id members) b events)
    (hwalked : walked % 2 ^ 64 = b.cursor.toNat) :
    picks id b events =
      (turns id walked b events).map fun turn => (byWeight members)[turn % shares members]? := by
  induction events generalizing walked b with
  | nil => rfl
  | cons event events ih =>
    have hnext : (walked + b.advance event) % 2 ^ 64 = (b.step event).cursor.toNat := by
      rw [cursor_step, UInt64.toNat_add, ← hwalked, UInt64.toNat_ofNat']
      omega
    rw [picks, turns, List.map_append, pick_eq hsteady.1 hwalked, ih hsteady.2 hnext]

/-- As many different turns as there are shares are all of them. -/
theorem perm_range {turns : List ℕ} {n : ℕ} (hnodup : turns.Nodup) (hlength : turns.length = n)
    (hlt : ∀ turn ∈ turns, turn < n) : turns.Perm (List.range n) := by
  have hsubset : turns ⊆ List.range n := fun turn hturn => List.mem_range.mpr (hlt turn hturn)
  refine (List.Nodup.subperm hnodup hsubset).perm_of_length_le ?_
  rw [hlength, List.length_range]

theorem count_byWeight (hnodup : members.Nodup) {member : BackendMember} (h : member ∈ members) :
    (byWeight members).count member = share member := by
  induction members with
  | nil => exact absurd h List.not_mem_nil
  | cons first rest ih =>
    obtain ⟨hnew, hrest⟩ := List.nodup_cons.mp hnodup
    have hcons : (byWeight (first :: rest)).count member =
        (List.replicate (share first) first).count member + (byWeight rest).count member := by
      rw [byWeight, List.flatMap_cons, List.count_append, ← byWeight]
    rcases List.mem_cons.mp h with rfl | hlater
    · have hnone : (byWeight rest).count member = 0 := by
        refine List.count_eq_zero.mpr fun hin => ?_
        obtain ⟨other, hother, heq⟩ := List.mem_flatMap.mp hin
        exact hnew (List.eq_of_mem_replicate heq ▸ hother)
      rw [hcons, hnone, List.count_replicate_self, Nat.add_zero]
    · have hne : first ≠ member := fun heq => hnew (heq ▸ hlater)
      rw [hcons, ih hrest hlater, List.count_replicate, if_neg (by simpa using hne), Nat.zero_add]

theorem share_pos (member : BackendMember) : 0 < share member :=
  Nat.lt_of_lt_of_le Nat.zero_lt_one (Nat.le_max_right _ _)

theorem shares_pos {member : BackendMember} (h : member ∈ members) : 0 < shares members := by
  rw [← length_byWeight]
  have hin : member ∈ byWeight members :=
    List.mem_flatMap.mpr ⟨member, h, List.mem_replicate.mpr ⟨(share_pos member).ne', rfl⟩⟩
  exact List.length_pos_of_mem hin

/-- The turns of a pool that comes at each of them once are served in order of its shares. -/
theorem fair_of_inTurn (hnodup : members.Nodup) (hsteady : Runs.Along step (Steady id members) b events)
    (hlength : (events.filter fun event => event.IsTo id).length = shares members)
    (hturn : InTurn id members b events) : Fair id members b events := by
  intro member hmember
  have hpos := shares_pos hmember
  have hperm := perm_range hturn (by rw [List.length_map, length_turns, hlength])
    (by
      intro turn hin
      obtain ⟨walked, -, rfl⟩ := List.mem_map.mp hin
      exact Nat.mod_lt _ hpos)
  have hpicks : (picks id b events).Perm ((byWeight members).map some) := by
    rw [picks_eq hsteady (Nat.mod_eq_of_lt b.cursor.toNat_lt)]
    have hmap := hperm.map fun turn => (byWeight members)[turn]?
    rw [List.map_map] at hmap
    refine hmap.trans (List.Perm.of_eq ?_)
    rw [← length_byWeight]
    refine List.ext_getElem (by simp) fun i hi hi' => ?_
    simp at hi ⊢
  rw [hpicks.count_eq, List.count_map_of_injective _ _ (Option.some_injective _),
    count_byWeight hnodup hmember]

/-- Where every member has one share, two requests at one turn get one member. -/
theorem inTurn_of_fair (hone : ∀ member ∈ members, share member = 1)
    (hsteady : Runs.Along step (Steady id members) b events)
    (hlength : (events.filter fun event => event.IsTo id).length = shares members)
    (hfair : Fair id members b events) : InTurn id members b events := by
  have hpicks := picks_eq hsteady (Nat.mod_eq_of_lt b.cursor.toNat_lt)
  have hdistinct : (picks id b events).Nodup := by
    refine List.nodup_iff_count_le_one.mpr fun pick => ?_
    by_cases hin : pick ∈ picks id b events
    · obtain ⟨member, rfl, hmember⟩ : ∃ member, pick = some member ∧ member ∈ members := by
        rw [hpicks] at hin
        obtain ⟨turn, hturn, rfl⟩ := List.mem_map.mp hin
        have hlt : turn % shares members < (byWeight members).length := by
          have hpos := List.length_pos_of_mem hturn
          rw [length_turns, hlength] at hpos
          rw [length_byWeight]
          exact Nat.mod_lt _ hpos
        refine ⟨_, List.getElem?_eq_getElem hlt, ?_⟩
        obtain ⟨member, hmember, heq⟩ := List.mem_flatMap.mp (List.getElem_mem hlt)
        exact List.eq_of_mem_replicate heq ▸ hmember
      rw [hfair member hmember, hone member hmember]
    · rw [List.count_eq_zero.mpr hin]
      exact Nat.zero_le 1
  rw [hpicks] at hdistinct
  refine List.Nodup.of_map (fun turn => (byWeight members)[turn]?) ?_
  rwa [List.map_map]

/-- In every run, and for every stretch of it with as many requests to a pool as the pool has shares:
if they come at different turns each member takes its shares, and where every member has one share
that is the only way. -/
theorem window_fair (start : Balancer) (before window : List Event) (hnodup : members.Nodup)
    (hsteady : Runs.Along step (Steady id members) (Runs.run step start before) window)
    (hlength : (window.filter fun event => event.IsTo id).length = shares members) :
    (InTurn id members (Runs.run step start before) window →
      Fair id members (Runs.run step start before) window) ∧
    ((∀ member ∈ members, share member = 1) → Fair id members (Runs.run step start before) window →
      InTurn id members (Runs.run step start before) window) :=
  ⟨fair_of_inTurn hnodup hsteady hlength, fun hone => inTurn_of_fair hone hsteady hlength⟩

/-- A member of a pool of two. -/
def oneOf (name : String) : BackendMember := ⟨⟨name⟩, .v4 ⟨10, 0, 0, 1⟩, 80, 1, .enabled⟩

/-- A pool of two members that are walked in turn. -/
def pair (name : String) : Backend :=
  ⟨⟨name⟩, [oneOf "one", oneOf "two"], .roundRobin, none, .disabled, .enabled, 0, 0⟩

/-- A request to a pool of two. -/
def ask (name : String) : Event := .request (pair name) .empty []

theorem even_between_fair :
    Fair ⟨"web"⟩ [oneOf "one", oneOf "two"] .new [ask "web", ask "mail", ask "mail", ask "web"] :=
  (window_fair .new [] [ask "web", ask "mail", ask "mail", ask "web"] (by decide)
    ⟨fun _ => by decide, fun h => absurd h (by decide), fun h => absurd h (by decide),
      fun _ => by decide, trivial⟩ (by decide)).1 (by unfold InTurn; decide)

/-- Two pools of two that are asked in turn: the cursor is even whenever the first one is asked, and its
second member gets nothing. -/
theorem alternating_unfair :
    [oneOf "one", oneOf "two"].Nodup ∧
      Runs.Along step (Steady ⟨"web"⟩ [oneOf "one", oneOf "two"]) .new
        [ask "web", ask "mail", ask "web"] ∧
      ([ask "web", ask "mail", ask "web"].filter fun event => event.IsTo ⟨"web"⟩).length =
        shares [oneOf "one", oneOf "two"] ∧
      ¬ Fair ⟨"web"⟩ [oneOf "one", oneOf "two"] .new [ask "web", ask "mail", ask "web"] := by
  refine ⟨by decide, ?_, by decide, fun hfair => ?_⟩
  · exact ⟨fun _ => by decide, fun h => absurd h (by decide), fun _ => by decide, trivial⟩
  · exact absurd (hfair (oneOf "two") (by decide)) (by decide)

end Balancer

end EkEk.Dataplane
