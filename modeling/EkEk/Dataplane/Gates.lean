import EkEk.Lib.Assoc
import EkEk.Lib.Runs
import Mathlib.Data.List.GetD
import Mathlib.Data.UInt

/-!
# How many requests a pool carries at once

Reference: `Gates::gate` and `slot` of `crates/ek-ek-dataplane/src/pool.rs`, and `request_filter` of
`proxy.rs`.

A request takes the size of its pool from the snapshot it loaded, asks for the gate of the pool, waits
for a slot and gives the slot back at its end. A lookup with another size than the gate was built for
replaces the gate, and the requests at the old one stay there. `held_le` is that a gate never hands
out more slots than its size; `slots_bounded` is what follows for the slots of one size as long as no
gate is built for it while requests are still at an earlier one, and `settled_iff` that every other run
comes to a state from which the bound can be exceeded.
-/

namespace EkEk.Dataplane

/-! ## The gates -/

/-- One gate per backend pool, by the size it was built for and its semaphore, and the free slots of
every semaphore there has been. -/
structure Gates where
  gates : Assoc String (UInt32 × ℕ)
  free : List ℕ

namespace Gates

/-- An empty set of gates. -/
def new : Gates := ⟨Assoc.empty, []⟩

/-- A gate of its own for a pool. -/
def build (self : Gates) (pool : String) (size : UInt32) : Gates where
  gates := self.gates.insert pool (size, self.free.length)
  free := self.free ++ [size.toNat]

/-- The gate for a pool, built on first use and where the size is another one. -/
def gate (self : Gates) (pool : String) (size : UInt32) : Gates × Option ℕ :=
  if size = 0 then (self, none)
  else
    match self.gates.get pool with
    | some (builtFor, gate) =>
      if builtFor = size then (self, some gate)
      else (self.build pool size, some self.free.length)
    | none => (self.build pool size, some self.free.length)

/-- A lookup that builds a gate. -/
def Builds (self : Gates) (pool : String) (size : UInt32) : Prop :=
  size ≠ 0 ∧ (self.gates.get pool).map Prod.fst ≠ some size

instance (self : Gates) (pool : String) (size : UInt32) : Decidable (self.Builds pool size) :=
  inferInstanceAs (Decidable (_ ∧ _))

/-- An unlimited pool has no gate, and every other lookup finds one or builds one. -/
theorem gate_cases (self : Gates) (pool : String) (size : UInt32) :
    (size = 0 ∧ self.gate pool size = (self, none)) ∨
      (∃ gate, self.gates.get pool = some (size, gate) ∧ self.gate pool size = (self, some gate)) ∨
        (self.Builds pool size ∧
          self.gate pool size = (self.build pool size, some self.free.length)) := by
  by_cases hsize : size = 0
  · exact .inl ⟨hsize, if_pos hsize⟩
  · have hlookup : self.gate pool size = match self.gates.get pool with
        | some (builtFor, gate) =>
          if builtFor = size then (self, some gate)
          else (self.build pool size, some self.free.length)
        | none => (self.build pool size, some self.free.length) := if_neg hsize
    rw [hlookup, Builds]
    cases hget : self.gates.get pool with
    | none => exact .inr (.inr ⟨⟨hsize, by simp⟩, rfl⟩)
    | some entry =>
      obtain ⟨builtFor, gate⟩ := entry
      by_cases hbuilt : builtFor = size
      · subst hbuilt
        exact .inr (.inl ⟨gate, rfl, if_pos rfl⟩)
      · exact .inr (.inr ⟨⟨hsize, by simpa using hbuilt⟩, if_neg hbuilt⟩)

end Gates

/-! ## The requests -/

/-- A request at a gate: the pool and the size it asked with, and the gate it was given. -/
structure Ticket where
  pool : String
  size : UInt32
  gate : ℕ
deriving DecidableEq, Repr

/-- The gates with the requests around them: those with a snapshot in hand, those that wait for a slot
and those that have one. -/
structure Traffic where
  live : String → Option UInt32
  gates : Gates
  loaded : List (String × UInt32)
  waiting : List Ticket
  slots : List Ticket

/-- What can happen next. -/
inductive Move where
  | deliver (sizes : String → Option UInt32)
  | load (pool : String)
  | lookup (pool : String) (size : UInt32)
  | acquire (ticket : Ticket)
  | release (ticket : Ticket)
  | abandon (ticket : Ticket)

namespace Traffic

/-- The slots a gate has free. -/
def free (s : Traffic) (gate : ℕ) : ℕ := s.gates.free.getD gate 0

/-- A request with a snapshot in hand asks for its gate. It goes on without a slot if the pool names no
limit. -/
def lookup (s : Traffic) (pool : String) (size : UInt32) : Traffic :=
  let (gates, gate) := s.gates.gate pool size
  { s with
    gates := gates
    loaded := s.loaded.erase (pool, size)
    waiting := (gate.map fun gate => ⟨pool, size, gate⟩).toList ++ s.waiting }

/-- A request that waits takes a slot. -/
def acquire (s : Traffic) (ticket : Ticket) : Traffic :=
  { s with
    gates := { s.gates with free := s.gates.free.set ticket.gate (s.free ticket.gate - 1) }
    waiting := s.waiting.erase ticket
    slots := ticket :: s.slots }

/-- A request ends and gives its slot back. -/
def release (s : Traffic) (ticket : Ticket) : Traffic :=
  { s with
    gates := { s.gates with free := s.gates.free.set ticket.gate (s.free ticket.gate + 1) }
    slots := s.slots.erase ticket }

/-- One of the things that can happen, where it can. Any request that waits may be the next to take a
slot. -/
def step (s : Traffic) : Move → Traffic
  | .deliver sizes => { s with live := sizes }
  | .load pool => { s with loaded := ((s.live pool).map fun size => (pool, size)).toList ++ s.loaded }
  | .lookup pool size => if (pool, size) ∈ s.loaded then s.lookup pool size else s
  | .acquire ticket => if ticket ∈ s.waiting ∧ 0 < s.free ticket.gate then s.acquire ticket else s
  | .release ticket => if ticket ∈ s.slots then s.release ticket else s
  | .abandon ticket => { s with waiting := s.waiting.erase ticket }

/-- Nobody is there yet. -/
def start (live : String → Option UInt32) : Traffic := ⟨live, .new, [], [], []⟩

/-- The requests at a gate. -/
def tickets (s : Traffic) : List Ticket := s.waiting ++ s.slots

/-- The slots of a gate that are held. -/
def held (s : Traffic) (gate : ℕ) : ℕ := s.slots.countP fun ticket => ticket.gate = gate

/-- The slots of a pool that are held and were acquired through lookups with a size. -/
def heldVia (s : Traffic) (pool : String) (size : UInt32) : ℕ :=
  s.slots.countP fun ticket => ticket.pool = pool ∧ ticket.size = size

/-- No gate is built for a size while a request of the pool is still at an earlier gate of that size. -/
def Settled (s : Traffic) : Move → Prop
  | .lookup pool size => (pool, size) ∈ s.loaded → s.gates.Builds pool size →
      ∀ ticket ∈ s.tickets, ¬ (ticket.pool = pool ∧ ticket.size = size)
  | _ => True

instance (s : Traffic) : ∀ move, Decidable (s.Settled move)
  | .deliver _ => .isTrue trivial
  | .load _ => .isTrue trivial
  | .lookup pool size => inferInstanceAs (Decidable ((pool, size) ∈ s.loaded → s.gates.Builds pool size →
      ∀ ticket ∈ s.tickets, ¬ (ticket.pool = pool ∧ ticket.size = size)))
  | .acquire _ => .isTrue trivial
  | .release _ => .isTrue trivial
  | .abandon _ => .isTrue trivial

/-! ## Slots and their gates -/

/-- A gate of a size: its slots are free or held. -/
def Sized (s : Traffic) (gate : ℕ) (size : UInt32) : Prop :=
  gate < s.gates.free.length ∧ s.free gate + s.held gate = size.toNat

variable {s : Traffic}

theorem held_cons (ticket : Ticket) (slots : List Ticket) (gate : ℕ) :
    ((ticket :: slots).countP fun ticket => ticket.gate = gate) =
      (slots.countP fun ticket => ticket.gate = gate) + if ticket.gate = gate then 1 else 0 := by
  rw [List.countP_cons]
  simp

theorem free_set {free : List ℕ} {gate : ℕ} (hgate : gate < free.length) (count other : ℕ) :
    (free.set gate count).getD other 0 = if gate = other then count else free.getD other 0 := by
  rw [List.getD_eq_getElem?_getD, List.getElem?_set, if_pos hgate, List.getD_eq_getElem?_getD]
  split <;> rfl

/-- A slot that is taken is one free slot less and one held slot more. -/
theorem Sized.acquire {gate : ℕ} {size : UInt32} (h : s.Sized gate size) {ticket : Ticket}
    (hgate : ticket.gate < s.gates.free.length) (hfree : 0 < s.free ticket.gate) :
    (s.acquire ticket).Sized gate size := by
  obtain ⟨hlength, hsum⟩ := h
  have hnow : (s.acquire ticket).free gate =
      if ticket.gate = gate then s.free ticket.gate - 1 else s.free gate := free_set hgate _ gate
  have hheld : (s.acquire ticket).held gate = s.held gate + if ticket.gate = gate then 1 else 0 :=
    held_cons ticket s.slots gate
  refine ⟨(List.length_set ..).symm ▸ hlength, ?_⟩
  rw [hnow, hheld]
  split
  · rename_i heq
    subst heq
    omega
  · omega

/-- A slot that is given back is one held slot less and one free slot more. -/
theorem Sized.release {gate : ℕ} {size : UInt32} (h : s.Sized gate size) {ticket : Ticket}
    (hgate : ticket.gate < s.gates.free.length) (hslot : ticket ∈ s.slots) :
    (s.release ticket).Sized gate size := by
  obtain ⟨hlength, hsum⟩ := h
  have hnow : (s.release ticket).free gate =
      if ticket.gate = gate then s.free ticket.gate + 1 else s.free gate := free_set hgate _ gate
  have hheld : s.held gate = (s.release ticket).held gate + if ticket.gate = gate then 1 else 0 :=
    ((List.perm_cons_erase hslot).countP_eq _).trans (held_cons ticket _ gate)
  refine ⟨(List.length_set ..).symm ▸ hlength, ?_⟩
  rw [hheld] at hsum
  rw [hnow]
  split
  · rename_i heq
    subst heq
    rw [if_pos rfl] at hsum
    omega
  · rename_i hne
    rw [if_neg hne] at hsum
    exact hsum

/-- A gate is looked up or built without a slot of another one changing hands. -/
theorem Sized.lookup {gate : ℕ} {size : UInt32} (h : s.Sized gate size) (pool : String)
    (asked : UInt32) : (s.lookup pool asked).Sized gate size := by
  obtain ⟨hlength, hsum⟩ := h
  rcases s.gates.gate_cases pool asked with ⟨-, hgate⟩ | ⟨found, -, hgate⟩ | ⟨-, hgate⟩
  · rw [Traffic.lookup, hgate]
    exact ⟨hlength, hsum⟩
  · rw [Traffic.lookup, hgate]
    exact ⟨hlength, hsum⟩
  · rw [Traffic.lookup, hgate]
    refine ⟨?_, ?_⟩
    · show gate < (s.gates.free ++ [asked.toNat]).length
      rw [List.length_append]
      exact Nat.lt_add_right _ hlength
    · show (s.gates.free ++ [asked.toNat]).getD gate 0 + s.held gate = size.toNat
      rw [List.getD_append _ _ _ _ hlength]
      exact hsum

/-- What a request with a snapshot in hand leads to: nothing for a pool without a limit, and else a
ticket for the gate of the pool or for one of its own. -/
theorem lookup_cases (s : Traffic) (pool : String) (size : UInt32) :
    (size = 0 ∧ (s.lookup pool size).tickets = s.tickets ∧ (s.lookup pool size).gates = s.gates) ∨
      (∃ gate, s.gates.gates.get pool = some (size, gate) ∧
        (s.lookup pool size).tickets = ⟨pool, size, gate⟩ :: s.tickets ∧
          (s.lookup pool size).gates = s.gates) ∨
        (s.gates.Builds pool size ∧
          (s.lookup pool size).tickets = ⟨pool, size, s.gates.free.length⟩ :: s.tickets ∧
            (s.lookup pool size).gates = s.gates.build pool size) := by
  rcases s.gates.gate_cases pool size with ⟨hzero, hgate⟩ | ⟨gate, hget, hgate⟩ | ⟨hbuilds, hgate⟩
  · rw [Traffic.lookup, hgate]
    exact .inl ⟨hzero, rfl, rfl⟩
  · rw [Traffic.lookup, hgate]
    exact .inr (.inl ⟨gate, hget, rfl, rfl⟩)
  · rw [Traffic.lookup, hgate]
    exact .inr (.inr ⟨hbuilds, rfl, rfl⟩)

/-- A gate is the one that was built, or it was there. -/
theorem get_build {self : Gates} {pool other : String} {size otherSize : UInt32} {gate : ℕ}
    (h : (self.build pool size).gates.get other = some (otherSize, gate)) :
    (other = pool ∧ otherSize = size ∧ gate = self.free.length) ∨
      (other ≠ pool ∧ self.gates.get other = some (otherSize, gate)) := by
  rcases Assoc.mem_insert.mp (Assoc.get_eq_some.mp h) with hnew | ⟨hold, hne⟩
  · obtain ⟨rfl, hentry⟩ := Prod.mk.inj hnew
    obtain ⟨rfl, rfl⟩ := Prod.mk.inj hentry
    exact .inl ⟨rfl, rfl, rfl⟩
  · exact .inr ⟨hne, Assoc.get_eq_some.mpr hold⟩

/-- Every gate in use has the size it is asked for with. -/
structure Counted (s : Traffic) : Prop where
  entry : ∀ {pool size gate}, s.gates.gates.get pool = some (size, gate) → s.Sized gate size
  ticket : ∀ ticket ∈ s.tickets, s.Sized ticket.gate ticket.size

/-- The requests of one pool and one size are at one gate. -/
def OneGate (tickets : List Ticket) : Prop :=
  ∀ ticket ∈ tickets, ∀ other ∈ tickets, ticket.pool = other.pool → ticket.size = other.size →
    ticket.gate = other.gate

theorem OneGate.cons {tickets : List Ticket} (h : OneGate tickets) {ticket : Ticket}
    (hnew : ∀ other ∈ tickets, other.pool = ticket.pool → other.size = ticket.size →
      other.gate = ticket.gate) : OneGate (ticket :: tickets) := by
  intro first hfirst second hsecond hpool hsize
  rcases List.mem_cons.mp hfirst with rfl | hearly
  · rcases List.mem_cons.mp hsecond with rfl | hlate
    · rfl
    · exact (hnew second hlate hpool.symm hsize.symm).symm
  · rcases List.mem_cons.mp hsecond with rfl | hlate
    · exact hnew first hearly hpool hsize
    · exact h first hearly second hlate hpool hsize

/-- The requests of one size are at one gate, which is the one that stands if it has that size. -/
structure Single (s : Traffic) : Prop where
  current : ∀ {pool size gate}, s.gates.gates.get pool = some (size, gate) →
    ∀ ticket ∈ s.tickets, ticket.pool = pool → ticket.size = size → ticket.gate = gate
  one : OneGate s.tickets

/-- A step in which nobody comes to a gate. -/
structure Quiet (s s' : Traffic) : Prop where
  gates : s'.gates.gates = s.gates.gates
  tickets : s'.tickets ⊆ s.tickets
  sized : ∀ {gate size}, s.Sized gate size → s'.Sized gate size

theorem quiet_refl (s : Traffic) : Quiet s s := ⟨rfl, List.Subset.refl _, id⟩

/-- Requests come to a gate by lookups alone. -/
theorem step_cases (h : s.Counted) (move : Move) : Quiet s (s.step move) ∨
    ∃ pool size, move = .lookup pool size ∧ (pool, size) ∈ s.loaded ∧
      s.step move = s.lookup pool size := by
  cases move with
  | deliver sizes => exact .inl ⟨rfl, List.Subset.refl _, id⟩
  | load pool => exact .inl ⟨rfl, List.Subset.refl _, id⟩
  | lookup pool size =>
    by_cases hloaded : (pool, size) ∈ s.loaded
    · exact .inr ⟨pool, size, rfl, hloaded, if_pos hloaded⟩
    · rw [step, if_neg hloaded]
      exact .inl (quiet_refl s)
  | acquire ticket =>
    by_cases hfree : ticket ∈ s.waiting ∧ 0 < s.free ticket.gate
    · rw [step, if_pos hfree]
      have hticket : ticket ∈ s.tickets := List.mem_append_left _ hfree.1
      refine .inl ⟨rfl, fun other hother => ?_,
        fun hsized => hsized.acquire (h.ticket ticket hticket).1 hfree.2⟩
      rcases List.mem_append.mp hother with hwaits | hholds
      · exact List.mem_append_left _ (List.mem_of_mem_erase hwaits)
      · rcases List.mem_cons.mp hholds with rfl | hholds
        · exact hticket
        · exact List.mem_append_right _ hholds
    · rw [step, if_neg hfree]
      exact .inl (quiet_refl s)
  | release ticket =>
    by_cases hslot : ticket ∈ s.slots
    · rw [step, if_pos hslot]
      have hticket : ticket ∈ s.tickets := List.mem_append_right _ hslot
      refine .inl ⟨rfl, fun other hother => ?_,
        fun hsized => hsized.release (h.ticket ticket hticket).1 hslot⟩
      rcases List.mem_append.mp hother with hwaits | hholds
      · exact List.mem_append_left _ hwaits
      · exact List.mem_append_right _ (List.mem_of_mem_erase hholds)
    · rw [step, if_neg hslot]
      exact .inl (quiet_refl s)
  | abandon ticket =>
    refine .inl ⟨rfl, fun other hother => ?_, id⟩
    rcases List.mem_append.mp hother with hwaits | hholds
    · exact List.mem_append_left _ (List.mem_of_mem_erase hwaits)
    · exact List.mem_append_right _ hholds

/-- A gate that was built has all of its slots free. -/
theorem free_built {pool : String} {size : UInt32}
    (hbuilt : (s.lookup pool size).gates = s.gates.build pool size) :
    (s.lookup pool size).free s.gates.free.length = size.toNat := by
  rw [free, hbuilt]
  show (s.gates.free ++ [size.toNat]).getD s.gates.free.length 0 = size.toNat
  rw [List.getD_append_right _ _ _ _ le_rfl, Nat.sub_self]
  rfl

theorem length_built {pool : String} {size : UInt32}
    (hbuilt : (s.lookup pool size).gates = s.gates.build pool size) :
    s.gates.free.length < (s.lookup pool size).gates.free.length := by
  rw [hbuilt]
  simp [Gates.build]

/-- Nobody has a slot of a gate that was built yet. -/
theorem Counted.sized_built (h : s.Counted) {pool : String} {size : UInt32}
    (hbuilt : (s.lookup pool size).gates = s.gates.build pool size) :
    (s.lookup pool size).Sized s.gates.free.length size := by
  have hnone : (s.lookup pool size).held s.gates.free.length = 0 := by
    refine List.countP_eq_zero.mpr fun ticket hslot => ?_
    have hlength := (h.ticket ticket (List.mem_append_right _ hslot)).1
    simpa using hlength.ne
  exact ⟨length_built hbuilt, by rw [free_built hbuilt, hnone, Nat.add_zero]⟩

/-- Whatever happens, every gate in use keeps its size. -/
theorem Counted.step (h : s.Counted) (move : Move) : (s.step move).Counted := by
  rcases step_cases h move with hquiet | ⟨pool, size, -, -, hstep⟩
  · exact ⟨fun hget => hquiet.sized (h.entry (hquiet.gates ▸ hget)),
      fun ticket hticket => hquiet.sized (h.ticket ticket (hquiet.tickets hticket))⟩
  rw [hstep]
  rcases s.lookup_cases pool size with ⟨-, htickets, hgates⟩ | ⟨gate, hget, htickets, hgates⟩ |
    ⟨-, htickets, hgates⟩
  · constructor
    · intro pool' size' gate' hget'
      exact (h.entry (hgates ▸ hget')).lookup pool size
    · intro ticket hticket
      exact (h.ticket ticket (htickets ▸ hticket)).lookup pool size
  · constructor
    · intro pool' size' gate' hget'
      exact (h.entry (hgates ▸ hget')).lookup pool size
    · intro ticket hticket
      rw [htickets] at hticket
      rcases List.mem_cons.mp hticket with rfl | hold
      · exact (h.entry hget).lookup pool size
      · exact (h.ticket ticket hold).lookup pool size
  · constructor
    · intro pool' size' gate' hget'
      rw [hgates] at hget'
      rcases get_build hget' with ⟨rfl, rfl, rfl⟩ | ⟨-, hold⟩
      · exact h.sized_built hgates
      · exact (h.entry hold).lookup pool size
    · intro ticket hticket
      rw [htickets] at hticket
      rcases List.mem_cons.mp hticket with rfl | hold
      · exact h.sized_built hgates
      · exact (h.ticket ticket hold).lookup pool size

/-- As long as no gate is built for requests that are still at another one, there is one gate for a
size. -/
theorem Single.step (h : s.Single) (hcounted : s.Counted) {move : Move} (hsettled : s.Settled move) :
    (s.step move).Single := by
  rcases step_cases hcounted move with hquiet | ⟨pool, size, rfl, hloaded, hstep⟩
  · exact ⟨fun hget ticket hticket => h.current (hquiet.gates ▸ hget) ticket (hquiet.tickets hticket),
      fun ticket hticket other hother =>
        h.one ticket (hquiet.tickets hticket) other (hquiet.tickets hother)⟩
  rw [hstep]
  rcases s.lookup_cases pool size with ⟨-, htickets, hgates⟩ | ⟨gate, hget, htickets, hgates⟩ |
    ⟨hbuilds, htickets, hgates⟩
  · constructor
    · intro pool' size' gate' hget'
      rw [htickets]
      exact h.current (hgates ▸ hget')
    · rw [htickets]
      exact h.one
  · constructor
    · intro pool' size' gate' hget'
      rw [hgates] at hget'
      rw [htickets, List.forall_mem_cons]
      refine ⟨?_, h.current hget'⟩
      rintro rfl rfl
      rw [hget] at hget'
      exact (Prod.mk.inj (Option.some.inj hget')).2
    · rw [htickets]
      exact h.one.cons (h.current hget)
  · have hnobody := hsettled hloaded hbuilds
    constructor
    · intro pool' size' gate' hget'
      rw [hgates] at hget'
      rw [htickets, List.forall_mem_cons]
      rcases get_build hget' with ⟨rfl, rfl, rfl⟩ | ⟨hother, hold⟩
      · exact ⟨fun _ _ => rfl, fun ticket hticket hpool hsize =>
          absurd ⟨hpool, hsize⟩ (hnobody ticket hticket)⟩
      · exact ⟨fun hpool => absurd hpool.symm hother, h.current hold⟩
    · rw [htickets]
      exact h.one.cons fun other hother hpool hsize =>
        absurd ⟨hpool, hsize⟩ (hnobody other hother)

theorem counted_single_step {move : Move} (h : s.Counted ∧ s.Single) (hsettled : s.Settled move) :
    (s.step move).Counted ∧ (s.step move).Single :=
  ⟨h.1.step move, h.2.step h.1 hsettled⟩

/-- The slots of a gate that are held are no more than its size. -/
theorem Sized.held_le {gate : ℕ} {size : UInt32} (h : s.Sized gate size) : s.held gate ≤ size.toNat := by
  have := h.2
  omega

/-- The slots of one size are all of one gate. -/
theorem Single.heldVia_le (h : s.Single) (hcounted : s.Counted) (pool : String) (size : UInt32) :
    s.heldVia pool size ≤ size.toNat := by
  by_cases hnone : ∃ ticket ∈ s.slots, ticket.pool = pool ∧ ticket.size = size
  · obtain ⟨ticket, hslot, rfl, rfl⟩ := hnone
    have hticket : ticket ∈ s.tickets := List.mem_append_right _ hslot
    have hcount : s.heldVia ticket.pool ticket.size ≤ s.held ticket.gate := by
      refine List.countP_mono_left fun other hother hsame => ?_
      obtain ⟨hpool, hsize⟩ := of_decide_eq_true hsame
      exact decide_eq_true (h.one other (List.mem_append_right _ hother) ticket hticket hpool hsize)
    exact hcount.trans (hcounted.ticket ticket hticket).held_le
  · have hzero : s.heldVia pool size = 0 := by
      refine List.countP_eq_zero.mpr fun ticket hslot hsame => hnone ⟨ticket, hslot, ?_⟩
      exact of_decide_eq_true hsame
    rw [hzero]
    exact Nat.zero_le _

/-! ## When the bound is in danger -/

/-- Whatever follows, as long as no further gate is built for requests that are still at another one,
the bound holds. -/
def Safe (s : Traffic) : Prop :=
  ∀ more, Runs.Along step Settled s more → ∀ pool size,
    (Runs.run step s more).heldVia pool size ≤ size.toNat

/-- The gate of a pool that has so many slots free. -/
structure Open (s : Traffic) (pool : String) (size : UInt32) (gate free : ℕ) : Prop where
  limited : size ≠ 0
  current : s.gates.gates.get pool = some (size, gate)
  built : gate < s.gates.free.length
  free : s.free gate = free

theorem heldVia_acquire (s : Traffic) (ticket : Ticket) :
    (s.acquire ticket).heldVia ticket.pool ticket.size = s.heldVia ticket.pool ticket.size + 1 := by
  show (ticket :: s.slots).countP _ = _
  rw [List.countP_cons, heldVia]
  simp

/-- A lookup with the size that stands. -/
theorem lookup_of_get {pool : String} {size : UInt32} {gate : ℕ} (hsize : size ≠ 0)
    (hget : s.gates.gates.get pool = some (size, gate)) : s.lookup pool size =
      { s with
        loaded := s.loaded.erase (pool, size)
        waiting := ⟨pool, size, gate⟩ :: s.waiting } := by
  have hgate : s.gates.gate pool size = (s.gates, some gate) := by
    rw [Gates.gate, if_neg hsize, hget]
    exact if_pos rfl
  rw [lookup, hgate]
  rfl

/-- The moves of a request that comes now, with the size that stands. -/
def visit (pool : String) (size : UInt32) (gate : ℕ) : List Move :=
  [.deliver fun _ => some size, .load pool, .lookup pool size, .acquire ⟨pool, size, gate⟩]

/-- A request that comes now gets one of the slots that are free. -/
theorem Open.visit {pool : String} {size : UInt32} {gate free : ℕ}
    (h : s.Open pool size gate (free + 1)) :
    Runs.Along step Settled s (visit pool size gate) ∧
      (Runs.run step s (Traffic.visit pool size gate)).Open pool size gate free ∧
        (Runs.run step s (Traffic.visit pool size gate)).heldVia pool size = s.heldVia pool size + 1 ∧
          s.slots ⊆ (Runs.run step s (Traffic.visit pool size gate)).slots := by
  -- the request with its snapshot in hand, and at the gate
  let loaded : Traffic := { s with live := fun _ => some size, loaded := (pool, size) :: s.loaded }
  let waiting : Traffic :=
    { loaded with
      loaded := loaded.loaded.erase (pool, size)
      waiting := ⟨pool, size, gate⟩ :: s.waiting }
  have hlookup : loaded.step (.lookup pool size) = waiting := by
    rw [step, if_pos List.mem_cons_self]
    exact lookup_of_get h.limited h.current
  have hfree : 0 < waiting.free gate := h.free.symm ▸ Nat.succ_pos free
  have hacquire : waiting.step (.acquire ⟨pool, size, gate⟩) = waiting.acquire ⟨pool, size, gate⟩ :=
    if_pos ⟨List.mem_cons_self, hfree⟩
  have hrun : Runs.run step s (Traffic.visit pool size gate) = waiting.acquire ⟨pool, size, gate⟩ := by
    have hmoves : Runs.run step s (Traffic.visit pool size gate) =
        (loaded.step (.lookup pool size)).step (.acquire ⟨pool, size, gate⟩) := rfl
    rw [hmoves, hlookup, hacquire]
  rw [hrun]
  refine ⟨⟨trivial, trivial, ?_, trivial, trivial⟩, ⟨h.limited, h.current, ?_, ?_⟩, ?_, ?_⟩
  · intro _ hbuilds
    exact absurd (congrArg (Option.map Prod.fst) h.current) hbuilds.2
  · exact (List.length_set ..).symm ▸ h.built
  · show (s.gates.free.set gate (s.free gate - 1)).getD gate 0 = free
    rw [free_set h.built, if_pos rfl, h.free]
    rfl
  · exact heldVia_acquire waiting ⟨pool, size, gate⟩
  · exact List.subset_cons_of_subset _ (List.Subset.refl _)

/-- The free slots of a gate can all be taken. -/
theorem Open.fill {pool : String} {size : UInt32} {gate free : ℕ} (h : s.Open pool size gate free) :
    ∃ more, Runs.Along step Settled s more ∧
      (Runs.run step s more).heldVia pool size = s.heldVia pool size + free := by
  induction free generalizing s with
  | zero => exact ⟨[], trivial, rfl⟩
  | succ free ih =>
    obtain ⟨hsettled, hopen, hheld, -⟩ := h.visit
    obtain ⟨more, hmore, hall⟩ := ih hopen
    refine ⟨Traffic.visit pool size gate ++ more, ?_, ?_⟩
    · exact Runs.along_append.mpr ⟨hsettled, hmore⟩
    · rw [Runs.run_append, hall, hheld]
      omega

section

variable {pool : String} {size : UInt32} {gate free : ℕ} {ticket : Ticket}

/-- Whoever takes a slot of another gate leaves this one as it is. -/
theorem Open.acquire (h : s.Open pool size gate free) (hgate : ticket.gate < s.gates.free.length)
    (hne : ticket.gate ≠ gate) : (s.acquire ticket).Open pool size gate free :=
  ⟨h.limited, h.current, (List.length_set ..).symm ▸ h.built,
    (free_set hgate _ _).trans ((if_neg hne).trans h.free)⟩

theorem Open.release (h : s.Open pool size gate free) (hgate : ticket.gate < s.gates.free.length)
    (hne : ticket.gate ≠ gate) : (s.release ticket).Open pool size gate free :=
  ⟨h.limited, h.current, (List.length_set ..).symm ▸ h.built,
    (free_set hgate _ _).trans ((if_neg hne).trans h.free)⟩

/-- A request that is still at another gate can come to its slot there. -/
theorem Open.exists_slot (h : s.Open pool size gate free) (hcounted : s.Counted)
    (hticket : ticket ∈ s.tickets) (hlimited : ticket.size ≠ 0) (hne : ticket.gate ≠ gate) :
    ∃ more, Runs.Along step Settled s more ∧ (Runs.run step s more).Open pool size gate free ∧
      ticket ∈ (Runs.run step s more).slots := by
  obtain ⟨hbuilt, hsum⟩ := hcounted.ticket ticket hticket
  rcases List.mem_append.mp hticket with hwaits | hholds
  · by_cases hfree : 0 < s.free ticket.gate
    · have hstep : s.step (.acquire ticket) = s.acquire ticket := if_pos ⟨hwaits, hfree⟩
      refine ⟨[.acquire ticket], ⟨trivial, trivial⟩, ?_⟩
      rw [Runs.run_cons, Runs.run_nil, hstep]
      exact ⟨h.acquire hbuilt hne, List.mem_cons_self⟩
    · -- the gate is full, so somebody has to leave first
      have hpos : 0 < s.held ticket.gate := by
        have hsize : ticket.size.toNat ≠ 0 := fun hzero => hlimited (UInt32.toNat_inj.mp hzero)
        omega
      obtain ⟨other, hother, hsame⟩ := List.countP_pos_iff.mp hpos
      have hsame : other.gate = ticket.gate := of_decide_eq_true hsame
      have hleave : s.step (.release other) = s.release other := if_pos hother
      have hroom : 0 < (s.release other).free ticket.gate := by
        show 0 < (s.gates.free.set other.gate (s.free other.gate + 1)).getD ticket.gate 0
        rw [free_set (hsame ▸ hbuilt), if_pos hsame]
        exact Nat.succ_pos _
      have hstep : (s.release other).step (.acquire ticket) = (s.release other).acquire ticket :=
        if_pos ⟨hwaits, hroom⟩
      refine ⟨[.release other, .acquire ticket], ⟨trivial, trivial, trivial⟩, ?_⟩
      rw [Runs.run_cons, Runs.run_cons, Runs.run_nil, hleave, hstep]
      refine ⟨(h.release (hsame ▸ hbuilt) (hsame ▸ hne)).acquire ?_ hne, List.mem_cons_self⟩
      exact (List.length_set ..).symm ▸ hbuilt
  · exact ⟨[], trivial, h, hholds⟩

end

/-- A lookup that builds a gate leaves nobody out. -/
theorem opened {pool : String} {size : UInt32} (hbuilds : s.gates.Builds pool size) :
    (s.lookup pool size).Open pool size s.gates.free.length size.toNat ∧
      s.tickets ⊆ (s.lookup pool size).tickets := by
  rcases s.lookup_cases pool size with ⟨hzero, -⟩ | ⟨gate, hget, -⟩ | ⟨-, htickets, hgates⟩
  · exact absurd hzero hbuilds.1
  · exact absurd (congrArg (Option.map Prod.fst) hget) hbuilds.2
  · have hcurrent : (s.lookup pool size).gates.gates.get pool = some (size, s.gates.free.length) := by
      rw [hgates]
      exact Assoc.get_eq_some.mpr (Assoc.mem_insert.mpr (.inl rfl))
    refine ⟨⟨hbuilds.1, hcurrent, length_built hgates, free_built hgates⟩, ?_⟩
    rw [htickets]
    exact List.subset_cons_self ..

/-- A gate that is built for a size while a request is at an earlier one puts the bound in danger. -/
theorem not_safe_of_not_settled (h : s.Counted) {move : Move} (hsettled : ¬ s.Settled move) :
    ¬ (s.step move).Safe := by
  cases move with
  | deliver | load | acquire | release | abandon => exact absurd trivial hsettled
  | lookup pool size =>
    simp only [Settled, not_forall, not_not] at hsettled
    obtain ⟨hloaded, hbuilds, ticket, hticket, rfl, rfl⟩ := hsettled
    have hstep : s.step (.lookup ticket.pool ticket.size) = s.lookup ticket.pool ticket.size :=
      if_pos hloaded
    obtain ⟨hopen, hthere⟩ := opened hbuilds
    have hcounted := h.step (.lookup ticket.pool ticket.size)
    rw [hstep] at hcounted ⊢
    obtain ⟨first, hfirst, hstill, hslot⟩ := hopen.exists_slot hcounted (hthere hticket) hbuilds.1
      (h.ticket ticket hticket).1.ne
    obtain ⟨later, hlater, hall⟩ := hstill.fill
    intro hsafe
    have hle := hsafe (first ++ later) (Runs.along_append.mpr ⟨hfirst, hlater⟩) ticket.pool ticket.size
    have hpos : 0 < (Runs.run step (s.lookup ticket.pool ticket.size) first).heldVia ticket.pool
        ticket.size := List.countP_pos_iff.mpr ⟨ticket, hslot, decide_eq_true ⟨rfl, rfl⟩⟩
    rw [Runs.run_append, hall] at hle
    omega

/-- Where there is one gate for a size, settled moves keep it so, and with it the bound. -/
theorem Single.safe (h : s.Single) (hcounted : s.Counted) : s.Safe := by
  intro more hmore pool size
  have hinv : (Runs.run Traffic.step s more).Counted ∧ (Runs.run Traffic.step s more).Single :=
    hmore.inv (fun s _ => counted_single_step) ⟨hcounted, h⟩
  exact hinv.2.heldVia_le hinv.1 pool size

/-! ## Runs -/

theorem counted_start (live : String → Option UInt32) : (start live).Counted where
  entry := fun hget => absurd hget (Option.some_ne_none _).symm
  ticket := fun _ hticket => absurd hticket List.not_mem_nil

theorem single_start (live : String → Option UInt32) : (start live).Single where
  current := fun hget => absurd hget (Option.some_ne_none _).symm
  one := fun _ hticket => absurd hticket List.not_mem_nil

/-- In every run, a gate has handed out no more slots than the size it is asked for with. -/
theorem held_le (live : String → Option UInt32) (moves : List Move) :
    ∀ ticket ∈ (Runs.run step (start live) moves).tickets,
      (Runs.run step (start live) moves).held ticket.gate ≤ ticket.size.toNat := by
  have hcounted : (Runs.run step (start live) moves).Counted :=
    Runs.run_inv (fun _ move h => h.step move) (counted_start live) moves
  exact fun ticket hticket => (hcounted.ticket ticket hticket).held_le

/-- As long as no gate is built for a size while requests are at an earlier one, the slots of a pool
that were acquired through lookups with a size are no more than that. -/
theorem slots_bounded (live : String → Option UInt32) {moves : List Move}
    (h : Runs.Along step Settled (start live) moves) : ∀ first, first <+: moves → ∀ pool size,
      (Runs.run step (start live) first).heldVia pool size ≤ size.toNat := by
  intro first hfirst
  have hinv : (Runs.run step (start live) first).Counted ∧ (Runs.run step (start live) first).Single :=
    h.inv_of_prefix (fun s _ => counted_single_step) ⟨counted_start live, single_start live⟩ first hfirst
  exact hinv.2.heldVia_le hinv.1

/-- The size of every pool in a snapshot. -/
def every (size : UInt32) : String → Option UInt32 := fun _ => some size

/-- The size is raised from one to two while a request is under way, and put back after it. -/
def raised : List Move :=
  [.load "app", .lookup "app" 1, .acquire ⟨"app", 1, 0⟩, .deliver (every 2), .load "app",
    .lookup "app" 2, .acquire ⟨"app", 2, 1⟩, .release ⟨"app", 1, 0⟩, .deliver (every 1), .load "app",
    .lookup "app" 1, .acquire ⟨"app", 1, 2⟩]

theorem raised_bounded : Runs.Along step Settled (start (every 1)) raised ∧
    ∀ first, first <+: raised → ∀ pool size,
      (Runs.run step (start (every 1)) first).heldVia pool size ≤ size.toNat := by
  have hsettled : Runs.Along step Settled (start (every 1)) raised :=
    ⟨trivial, by decide, trivial, trivial, trivial, by decide, trivial, trivial, trivial, trivial,
      by decide, trivial, trivial⟩
  exact ⟨hsettled, slots_bounded (every 1) hsettled⟩

/-- A request that loaded the size of one asks for its gate after another one has asked with the new
size. -/
def overtaken : List Move :=
  [.load "app", .lookup "app" 1, .acquire ⟨"app", 1, 0⟩, .load "app", .deliver (every 2), .load "app",
    .lookup "app" 2, .lookup "app" 1, .acquire ⟨"app", 1, 2⟩]

/-- Two slots of a gate for one are held. -/
theorem overtaken_exceeds :
    (Runs.run step (start (every 1)) overtaken).slots = [⟨"app", 1, 2⟩, ⟨"app", 1, 0⟩] ∧
      (Runs.run step (start (every 1)) overtaken).heldVia "app" 1 = 2 := by
  decide

/-- The runs that keep the bound out of danger are those in which no gate is built for a size while a
request of the pool is still at an earlier gate of that size. -/
theorem settled_iff (live : String → Option UInt32) (moves : List Move) :
    (∀ first, first <+: moves → (Runs.run step (start live) first).Safe) ↔
      Runs.Along step Settled (start live) moves := by
  have hsafe : ∀ s : Traffic, s.Counted ∧ s.Single → s.Safe := fun s hs => hs.2.safe hs.1
  exact Runs.along_iff hsafe (fun s _ => counted_single_step)
    (fun s _ hs => not_safe_of_not_settled hs.1) ⟨counted_start live, single_start live⟩ moves

end Traffic

end EkEk.Dataplane
