import EkEk.Raft.Cluster

/-!
# Handing out identities

Reference: `admit` of `crates/ek-ek-raft/src/join.rs` and `certify` of
`crates/ek-ek-peer/src/request.rs`.

The name in a certificate is what peers authenticate each other by, so a name that has a row should
only be certified again to whoever joined under it. `Told` keeps, beside the cluster, what happened to
its tokens, and `admittedWith` reads off it which node a token admitted: the one whose row the call that
used it has added. A call that finds the row already there marks its token as used all the same. As long
as no call has done that, the marks agree with what happened (`Agrees`), and a token that is marked is
only good for the node it admitted. A token that is not is good for any name, and `identity_kept_iff`
says that this is where a name is handed out twice.
-/

namespace EkEk.Raft

open Store Text
open Peer (Library)

/-- What can happen to a token: it is minted, or a node is admitted with it. -/
inductive Event where
  | minted (id : TokenId)
  | admitted (id : TokenId) (node : NodeId)
deriving DecidableEq, Repr

/-- The node a token admitted, by what happened to the tokens, the newest first. A fresh token has
admitted nobody, whatever an older one under its identity did. -/
def admittedWith : List Event → TokenId → Option NodeId
  | [], _ => none
  | .minted minted :: earlier, id => if id = minted then none else admittedWith earlier id
  | .admitted used node :: earlier, id => if id = used then some node else admittedWith earlier id

namespace Cluster

variable (lib : Library) (identity : NodeId → UInt64)

/-- What a call does to a token, if consensus agrees to it. A node is admitted by the first call of its
join, if that call adds its row. -/
def event (cluster : Cluster) : Call → Option Event
  | .mint actor now drawn write =>
    match Raft.mint lib cluster.read actor now drawn with
    | .ok (token, _) => if write.lands then some (.minted token.id) else none
    | .error _ => none
  | .admitNode ask now write _ _ =>
    match judge lib cluster.read ask now with
    | .ok judged =>
      if judged.finishing = false ∧ ¬ judged.state.config.Names ask.name ∧ write.lands then
        some (.admitted judged.token.id ask.name)
      else none
    | .error _ => none
  | _ => none

/-- Whether a call, if it is let in with a token that nobody has used and consensus agrees to it, asks for
a name that has no row. -/
def AsksAnew (cluster : Cluster) : Call → Prop
  | .admitNode ask now write _ _ => ∀ judged, judge lib cluster.read ask now = .ok judged →
      cluster.usedBy judged.token.id = none → write.lands → ¬ judged.state.config.Names ask.name
  | _ => True

variable {lib} {cluster : Cluster} {call : Call}

/-- Something happens to a token by a mint that lands, or by the first call of a join that lands and adds
a row. -/
theorem event_cases {event : Event} (h : cluster.event lib call = some event) :
    (∃ actor now drawn write token proposal, call = .mint actor now drawn write ∧
      Raft.mint lib cluster.read actor now drawn = .ok (token, proposal) ∧ write.lands ∧
      event = .minted token.id) ∨
    (∃ ask now write learner change judged, call = .admitNode ask now write learner change ∧
      judge lib cluster.read ask now = .ok judged ∧ judged.finishing = false ∧ write.lands ∧
      event = .admitted judged.token.id ask.name) := by
  cases call with
  | mint actor now drawn write =>
    simp only [Cluster.event] at h
    split at h
    · rename_i token proposal hmint
      rw [Option.ite_none_right_eq_some] at h
      exact .inl ⟨actor, now, drawn, write, token, proposal, rfl, hmint, h.1,
        (Option.some.inj h.2).symm⟩
    · nomatch h
  | admitNode ask now write learner change =>
    simp only [Cluster.event] at h
    split at h
    · rename_i judged hjudge
      rw [Option.ite_none_right_eq_some] at h
      exact .inr ⟨ask, now, write, learner, change, judged, rfl, hjudge, h.1.1, h.1.2.2,
        (Option.some.inj h.2).symm⟩
    · nomatch h
  | remove | applyOnce | rollBackTo => nomatch h

/-- A call that nothing happens to a token by writes a state with the marks of the one it read. -/
theorem usedBy_step_of_eventless (h : cluster.event lib call = none) (hanew : cluster.AsksAnew lib call)
    (id : TokenId) :
    (cluster.step lib identity call).usedBy id = cluster.usedBy id := by
  rcases cluster.read_step lib identity call with hsame | ⟨next, hwrites, hread⟩
  · rw [usedBy, usedBy, hsame]
  · rw [usedBy_of_read hread]
    cases hwrites with
    | mint _ hmint hlands => simp [event, hmint, hlands] at h
    | enrol hjudge hfirst hlands =>
      have hsound := judge_sound hjudge
      have hfresh := (usedBy_of_read hsound.held _).trans (hsound.usedBy_of_first hfirst)
      have hname := hanew _ hjudge hfresh hlands
      simp [event, hjudge, hfirst, hlands, hname] at h
    | remove hstate _ _ => exact (usedBy_of_read hstate id).symm
    | applyOnce hlands =>
      cases hstate : cluster.read with
      | none => simp [usedBy, hstate, Program.applied, Program.replaced, Snapshot.new,
          Snapshot.usedBy]
      | some state => exact (usedBy_of_read hstate id).symm
    | rollBackTo _ _ hstate => exact (usedBy_of_read hstate id).symm

end Cluster

theorem usedBy_withJoin (state : Snapshot) (minted : TokenId) (record : JoinRecord) (id : TokenId)
    (hfresh : record.usedBy = none) :
    (state.withJoin minted record).usedBy id = if id = minted then none else state.usedBy id := by
  by_cases h : id = minted
  · subst h
    simp [Snapshot.withJoin, Snapshot.usedBy, hfresh]
  · simp [Snapshot.withJoin, Snapshot.usedBy, h, Finmap.lookup_insert_of_ne]

/-- A cluster, with what happened to its tokens. -/
structure Told where
  cluster : Cluster
  events : List Event

namespace Told

variable (lib : Library) (identity : NodeId → UInt64)

/-- The cluster after a call, and what the call did to a token. -/
def tell (told : Told) (call : Call) : Told where
  cluster := told.cluster.step lib identity call
  events := (told.cluster.event lib call).toList ++ told.events

/-- Every token is marked as used by the node it admitted, and no other is marked. -/
def Agrees (told : Told) : Prop :=
  ∀ id, told.cluster.usedBy id = admittedWith told.events id

variable {lib identity} {told : Told}

/-- The marks keep agreeing with what happened, whatever is called for names without a row. -/
theorem Agrees.tell (h : told.Agrees) (call : Call) (hanew : told.cluster.AsksAnew lib call) :
    (told.tell lib identity call).Agrees := by
  intro id
  cases hevent : told.cluster.event lib call with
  | none =>
    simp only [Told.tell, hevent, Option.toList, List.nil_append]
    rw [Cluster.usedBy_step_of_eventless identity hevent hanew, h id]
  | some event =>
    simp only [Told.tell, hevent, Option.toList, List.cons_append, List.nil_append]
    rcases Cluster.event_cases hevent with
      ⟨actor, now, drawn, write, token, proposal, rfl, hmint, hlands, rfl⟩ |
      ⟨ask, now, write, learner, change, judged, rfl, hjudge, hfirst, hlands, rfl⟩
    · obtain ⟨state, hread, rfl⟩ := mint_eq_ok hmint
      have hafter : (told.cluster.step lib identity (.mint actor now drawn write)).read = _ :=
        (Cluster.read_mint_of_ok lib hmint).trans (if_pos hlands)
      rw [admittedWith, ← h id, Cluster.usedBy_of_read hread, Cluster.usedBy_of_read hafter]
      exact usedBy_withJoin state token.id _ id rfl
    · have hafter : (told.cluster.step lib identity
          (.admitNode ask now write learner change)).read = _ :=
        (Cluster.read_admitNode_of_first lib identity hjudge hfirst).trans (if_pos hlands)
      rw [admittedWith, ← h id, Cluster.usedBy_of_read (judge_sound hjudge).held,
        Cluster.usedBy_of_read hafter, usedBy_enrolled]

/-- The cluster a sequence of calls leads to, with what happened to its tokens. -/
def after (lib : Library) (identity : NodeId → UInt64) (start : Cluster) (calls : List Call) :
    Told :=
  Runs.run (tell lib identity) ⟨start, []⟩ calls

/-- The founder mints a token. -/
def minting : List Call := [.mint "operator" 10 (.ok (drawOf 0x11)) .done]

end Told

end EkEk.Raft
