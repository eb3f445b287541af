import EkEk.Raft.Cluster

/-!
# Membership changes that overlap

Reference: `initialise`, `add_voter` and `remove_voter` of `crates/ek-ek-raft/src/cluster.rs`, and
`crates/ek-ek-raft/src/identity.rs`.

A membership change reads the voters off the metrics, works out the whole new set, and asks consensus
to put it in place of whatever is there. The metrics may lag, and other changes may land in between.
Names are turned into numbers, and only `initialise` checks that two names do not become one number.

`Voting` is consensus together with what was acknowledged to whom. `membership_kept` says when nothing
is lost or confused: in every run in which each change lands on the voters its call has read, and no
change lands under a number that another name it was told of has.
-/

namespace EkEk.Raft

open Store

/-! ## Numbers -/

/-- Check numbers that come with their names, given those already seen. -/
def distinctFrom (seen : Finmap fun _ : UInt64 => NodeId) : List (UInt64 × NodeId) → Except Failure Unit
  | [] => .ok ()
  | (number, node) :: rest =>
    match seen.lookup number with
    | none => distinctFrom (seen.insert number node) rest
    | some held =>
      if held ≠ node then
        .error ⟨.configuration, s!"{held.asStr} and {node.asStr} are the same node to consensus; " ++
          "rename one of them"⟩
      else distinctFrom (seen.insert number node) rest

/-- Check that no two different names arrive under one number. -/
def distinct (numbered : List (UInt64 × NodeId)) : Except Failure Unit := distinctFrom ∅ numbered

/-- Check that every name of a membership derives to its own number. -/
def unique (identity : NodeId → UInt64) (nodes : List NodeId) : Except Failure Unit :=
  distinct (nodes.map fun node => (identity node, node))

theorem distinctFrom_sound {seen : Finmap fun _ : UInt64 => NodeId} {numbered : List (UInt64 × NodeId)}
    (h : distinctFrom seen numbered = .ok ()) :
    (∀ entry ∈ numbered, ∀ held, seen.lookup entry.1 = some held → held = entry.2) ∧
      ∀ first ∈ numbered, ∀ second ∈ numbered, first.1 = second.1 → first.2 = second.2 := by
  induction numbered generalizing seen with
  | nil => simp
  | cons entry rest ih =>
    obtain ⟨number, node⟩ := entry
    -- either way the name goes under its number, and agrees with what was there
    obtain ⟨hagrees, hrest⟩ : (∀ held, seen.lookup number = some held → held = node) ∧
        distinctFrom (seen.insert number node) rest = .ok () := by
      rw [distinctFrom] at h
      split at h
      · rename_i hnone
        refine ⟨fun held hheld => ?_, h⟩
        rw [hnone] at hheld
        nomatch hheld
      · rename_i held hsome
        split at h
        · nomatch h
        · rename_i hsame
          refine ⟨fun other hother => ?_, h⟩
          rw [hsome] at hother
          rw [← Option.some.inj hother]
          exact not_not.mp hsame
    obtain ⟨hseen, hpairs⟩ := ih hrest
    have hhead : ∀ entry ∈ rest, entry.1 = number → node = entry.2 := by
      rintro entry hmem rfl
      exact hseen entry hmem node (Finmap.lookup_insert _)
    refine ⟨fun entry hmem held hheld => ?_, fun first hfirst second hsecond hnumber => ?_⟩
    · rcases List.mem_cons.mp hmem with rfl | hmem
      · exact hagrees held hheld
      · by_cases hnumber : entry.1 = number
        · rw [hnumber] at hheld
          rw [hagrees held hheld, hhead entry hmem hnumber]
        · refine hseen entry hmem held ?_
          rw [Finmap.lookup_insert_of_ne _ hnumber, hheld]
    · rcases List.mem_cons.mp hfirst with rfl | hfirst <;>
        rcases List.mem_cons.mp hsecond with rfl | hsecond
      · rfl
      · exact hhead second hsecond hnumber.symm
      · exact (hhead first hfirst hnumber).symm
      · exact hpairs first hfirst second hsecond hnumber

/-- A membership that passes the check has no two names under one number. -/
theorem eq_of_unique {identity : NodeId → UInt64} {nodes : List NodeId}
    (h : unique identity nodes = .ok ()) {first second : NodeId} (hfirst : first ∈ nodes)
    (hsecond : second ∈ nodes) (hnumber : identity first = identity second) : first = second :=
  (distinctFrom_sound h).2 (identity first, first) (List.mem_map_of_mem hfirst)
    (identity second, second) (List.mem_map_of_mem hsecond) hnumber

/-! ## Changes in flight -/

/-- What was acknowledged about a name. -/
inductive Acked where
  | added (node : NodeId)
  | removed (node : NodeId)
deriving DecidableEq, Repr

def Acked.node : Acked → NodeId
  | added node => node
  | removed node => node

/-- A membership change that has read the voters and waits for consensus. -/
structure Changing where
  change : Acked
  read : Finset UInt64

/-- Consensus and the callers of one cluster: the voters there are, the sets of voters there have
been with the newest first, the changes in flight, and what was acknowledged with the newest first.
There are no voters before the cluster is brought into being. -/
structure Voting where
  voters : Finset UInt64
  seen : List (Finset UInt64)
  pending : List Changing
  acked : List Acked

namespace Voting

/-- A cluster that was not brought into being. -/
def new : Voting := ⟨∅, [], [], []⟩

inductive Action where
  | initialise (peers : List NodeId)
  /-- A node was added as a learner, and the voters are read off metrics that lag so many changes. -/
  | addVoter (node : NodeId) (lag : ℕ)
  /-- The voters are read off metrics that lag so many changes. -/
  | removeVoter (node : NodeId) (lag : ℕ)
  /-- Consensus puts the voters of a change in place, and the caller is told. -/
  | land (index : ℕ)
  /-- Consensus refuses a change. -/
  | refuse (index : ℕ)

variable (identity : NodeId → UInt64)

/-- The voters as the metrics have them. -/
def metrics (s : Voting) (lag : ℕ) : Finset UInt64 := s.seen.getD lag ∅

/-- The whole set of voters a change asks for. -/
def Changing.members (changing : Changing) : Finset UInt64 :=
  match changing.change with
  | .added node => insert (identity node) changing.read
  | .removed node => changing.read.erase (identity node)

def step (s : Voting) : Action → Voting
  | .initialise peers =>
    match unique identity peers with
    | .error _ => s
    | .ok () =>
      -- consensus can be brought into being once
      if s.seen ≠ [] then s
      else
        let voters := (peers.map identity).toFinset
        { s with voters := voters, seen := [voters], acked := peers.map .added ++ s.acked }
  | .addVoter node lag => { s with pending := s.pending ++ [⟨.added node, s.metrics lag⟩] }
  | .removeVoter node lag =>
    let read := s.metrics lag
    if identity node ∉ read then s
    else if read.erase (identity node) = ∅ then s
    else { s with pending := s.pending ++ [⟨.removed node, read⟩] }
  | .land index =>
    match s.pending[index]? with
    | none => s
    | some changing =>
      let voters := Changing.members identity changing
      { voters := voters
        seen := voters :: s.seen
        pending := s.pending.eraseIdx index
        acked := changing.change :: s.acked }
  | .refuse index => { s with pending := s.pending.eraseIdx index }

/-- What was last acknowledged about a name. -/
def last (acked : List Acked) (node : NodeId) : Option Acked :=
  acked.find? fun ack => ack.node = node

/-- A name was added, and not removed since. -/
def In (s : Voting) (node : NodeId) : Prop := last s.acked node = some (.added node)

/-- A name was removed, and not added since. -/
def Out (s : Voting) (node : NodeId) : Prop := last s.acked node = some (.removed node)

instance (s : Voting) (node : NodeId) : Decidable (s.In node) :=
  inferInstanceAs (Decidable (last s.acked node = some (.added node)))

/-- Nothing that was acknowledged is lost, and no two names that were added are one number. -/
structure Kept (s : Voting) : Prop where
  votes : ∀ node, s.In node → identity node ∈ s.voters
  out : ∀ node, s.Out node → identity node ∉ s.voters
  distinct : ∀ first second, s.In first → s.In second → identity first = identity second →
    first = second

/-- A change lands on the voters its call has read, and under a number that no other name has that
was ever acknowledged to be added or removed. -/
def Current (s : Voting) : Action → Prop
  | .land index => ∀ changing, s.pending[index]? = some changing →
      changing.read = s.voters ∧ ∀ ack ∈ s.acked,
        identity ack.node = identity changing.change.node → ack.node = changing.change.node
  | _ => True

variable {identity} {s : Voting} {node : NodeId}

theorem last_cons (ack : Acked) (acked : List Acked) (node : NodeId) :
    last (ack :: acked) node = if ack.node = node then some ack else last acked node := by
  rw [last, List.find?_cons]
  split <;> simp_all [last]

/-- What is acknowledged about a name was acknowledged. -/
theorem exists_of_last {ack : Acked} {acked : List Acked} (h : last acked node = some ack) :
    ack ∈ acked ∧ ack.node = node :=
  ⟨List.mem_of_find?_eq_some h, by simpa using List.find?_some h⟩

/-- What a run that meets the condition keeps, with nothing acknowledged before the cluster is. -/
structure Sound (identity : NodeId → UInt64) (s : Voting) : Prop where
  kept : s.Kept identity
  fresh : s.seen = [] → s.acked = []

theorem sound_new : (new).Sound identity where
  kept := ⟨fun _ h => (nomatch h), fun _ h => (nomatch h), fun _ _ h => (nomatch h)⟩
  fresh _ := rfl

/-- Names that are told apart, all of them added, are voters each under its own number. -/
theorem kept_initialise {peers : List NodeId} (hunique : unique identity peers = .ok ())
    {pending : List Changing} {seen : List (Finset UInt64)} :
    Kept identity ⟨(peers.map identity).toFinset, seen, pending, peers.map .added⟩ := by
  have hmem : ∀ node ack, last (peers.map .added) node = some ack →
      node ∈ peers ∧ ack = .added node := by
    intro node ack hlast
    obtain ⟨hack, hnode⟩ := exists_of_last hlast
    obtain ⟨peer, hpeer, rfl⟩ := List.mem_map.mp hack
    obtain rfl : peer = node := hnode
    exact ⟨hpeer, rfl⟩
  refine ⟨fun node hin => ?_, fun node hout => ?_, fun first second hfirst hsecond hnumber => ?_⟩
  · rw [List.mem_toFinset]
    exact List.mem_map_of_mem (hmem node _ hin).1
  · nomatch (hmem node _ hout).2
  · exact eq_of_unique hunique (hmem first _ hfirst).1 (hmem second _ hsecond).1 hnumber

/-- A change that is put in place of the voters it was worked out from, under a number of its own,
keeps everything that was acknowledged. -/
theorem kept_land {changing : Changing} {seen : List (Finset UInt64)} {pending : List Changing}
    (h : s.Kept identity) (hread : changing.read = s.voters)
    (hown : ∀ ack ∈ s.acked, identity ack.node = identity changing.change.node →
      ack.node = changing.change.node) :
    Kept identity
      ⟨Changing.members identity changing, seen, pending, changing.change :: s.acked⟩ := by
  obtain ⟨change, read⟩ := changing
  obtain rfl : read = s.voters := hread
  -- a name other than the changed one has a number of its own, and its last word is what it was
  have hother : ∀ node ack, last (change :: s.acked) node = some ack → node ≠ change.node →
      last s.acked node = some ack ∧ identity node ≠ identity change.node := by
    intro node ack hlast hne
    rw [last_cons, if_neg (Ne.symm hne)] at hlast
    refine ⟨hlast, fun hnumber => hne ?_⟩
    obtain ⟨hack, rfl⟩ := exists_of_last hlast
    exact hown ack hack hnumber
  have hself : last (change :: s.acked) change.node = some change := by
    rw [last_cons, if_pos rfl]
  cases change with
  | added added =>
    refine ⟨fun node hin => ?_, fun node hout => ?_, fun first second hfirst hsecond hnumber => ?_⟩
    · by_cases hnode : node = added
      · exact hnode ▸ Finset.mem_insert_self _ _
      · exact Finset.mem_insert_of_mem (h.votes node (hother node _ hin hnode).1)
    · by_cases hnode : node = added
      · subst hnode
        nomatch Option.some.inj (hself.symm.trans hout)
      · obtain ⟨hlast, hne⟩ := hother node _ hout hnode
        exact fun hmem => (Finset.mem_insert.mp hmem).elim hne (h.out node hlast)
    · by_cases hfirstNode : first = added <;> by_cases hsecondNode : second = added
      · rw [hfirstNode, hsecondNode]
      · exact absurd (hfirstNode ▸ hnumber).symm (hother second _ hsecond hsecondNode).2
      · exact absurd (hsecondNode ▸ hnumber) (hother first _ hfirst hfirstNode).2
      · exact h.distinct first second (hother first _ hfirst hfirstNode).1
          (hother second _ hsecond hsecondNode).1 hnumber
  | removed removed =>
    have hin : ∀ node, last (.removed removed :: s.acked) node = some (.added node) →
        node ≠ removed := by
      rintro node hin rfl
      nomatch Option.some.inj (hself.symm.trans hin)
    refine ⟨fun node hnode => ?_, fun node hout => ?_, fun first second hfirst hsecond hnumber => ?_⟩
    · obtain ⟨hlast, hne⟩ := hother node _ hnode (hin node hnode)
      exact Finset.mem_erase.mpr ⟨hne, h.votes node hlast⟩
    · by_cases hnode : node = removed
      · exact hnode ▸ Finset.notMem_erase _ _
      · exact fun hmem =>
          h.out node (hother node _ hout hnode).1 (Finset.mem_of_mem_erase hmem)
    · exact h.distinct first second (hother first _ hfirst (hin first hfirst)).1
        (hother second _ hsecond (hin second hsecond)).1 hnumber

theorem sound_step (action : Action) (h : s.Sound identity) (hcurrent : s.Current identity action) :
    (s.step identity action).Sound identity := by
  cases action with
  | initialise peers =>
    rw [step]
    split
    · exact h
    · rename_i hunique
      split
      · exact h
      · rename_i hseen
        rw [h.fresh (not_not.mp hseen), List.append_nil]
        exact ⟨kept_initialise hunique, fun hnone => nomatch hnone⟩
  | addVoter node lag => exact ⟨⟨h.kept.votes, h.kept.out, h.kept.distinct⟩, h.fresh⟩
  | removeVoter node lag =>
    rw [step]
    split
    · exact h
    · split
      · exact h
      · exact ⟨⟨h.kept.votes, h.kept.out, h.kept.distinct⟩, h.fresh⟩
  | land index =>
    rw [step]
    split
    · exact h
    · rename_i changing hpending
      obtain ⟨hread, hown⟩ := hcurrent changing hpending
      exact ⟨kept_land h.kept hread hown, fun hseen => nomatch hseen⟩
  | refuse index => exact ⟨⟨h.kept.votes, h.kept.out, h.kept.distinct⟩, h.fresh⟩

/-- In every run in which each change lands on the voters its call has read, and under a number no
other name has, every name that was added is among the voters until it is removed, every name that
was removed stays out until it is added again, and no two of them are one number. -/
theorem membership_kept (identity : NodeId → UInt64) (actions : List Action)
    (h : Runs.Along (step identity) (Current identity) new actions) :
    (Runs.run (step identity) new actions).Kept identity :=
  (h.inv (fun _ action hsound hcurrent => sound_step action hsound hcurrent) sound_new).kept

/-- A node is added to a cluster of one, and taken out again. -/
theorem membership_kept_of_one :
    (Runs.run (step numbered) new [.initialise [nodeA], .addVoter nodeB 0, .land 0,
      .removeVoter nodeB 0, .land 0]).Kept numbered :=
  membership_kept numbered _ (by
    refine ⟨trivial, trivial, ?_, trivial, ?_, trivial⟩
    · intro changing hpending
      obtain rfl : (⟨.added nodeB, {numbered nodeA}⟩ : Changing) = changing :=
        Option.some.inj hpending
      decide
    · intro changing hpending
      obtain rfl : (⟨.removed nodeB, {numbered nodeB, numbered nodeA}⟩ : Changing) = changing :=
        Option.some.inj hpending
      decide)

/-- Two nodes are added at once, each to the voters from before the other: the first was told that it
is a voter, and the second's change puts it out. And two names that are one number are both told that
they are voters, where there is one vote. -/
theorem overlapping_changes_lose :
    (¬ (Runs.run (step numbered) new [.initialise [nodeA], .addVoter nodeB 0, .addVoter nodeC 0,
      .land 0, .land 0]).Kept numbered) ∧
    ¬ (Runs.run (step fun _ => 0) new [.initialise [nodeA], .addVoter nodeB 0, .land 0]).Kept
      fun _ => 0 := by
  constructor
  · intro h
    exact absurd (h.votes nodeB (by decide)) (by decide)
  · intro h
    exact absurd (h.distinct nodeA nodeB (by decide) (by decide) rfl) (by decide)

end Voting

end EkEk.Raft
