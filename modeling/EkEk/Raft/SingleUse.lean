import EkEk.Lib.ReadModifyWrite
import EkEk.Raft.Cluster

/-!
# One token, one node

Reference: `admit` of `crates/ek-ek-raft/src/join.rs` and `write_audited` of
`crates/ek-ek-raft/src/cluster.rs`.

Whether a token was used is decided on the state a call reads, and the mark that says so is part of
the state the call writes much later. `admission` is that protocol, with any number of calls on any
nodes in any order. `token_admits_one_node` says when a token admits one node only: in every run in
which each write lands on a state with the marks of the one its call has read, or with the very mark
it is about to make.
-/

namespace EkEk.Raft

open Store ReadModifyWrite
open Peer (Library)

/-- A call to be admitted. -/
structure Asked where
  ask : Ask
  now : ℤ

/-- The node a token was used by. -/
def mark (state : Option Snapshot) (id : TokenId) : Option NodeId :=
  state.bind fun state => state.usedBy id

/-- What a call does with the state it reads. -/
def admissionPlan (lib : Library) (asked : Asked) (state : Option Snapshot) :
    Option (Option (Option Snapshot) × Answer) :=
  match judge lib state asked.ask asked.now with
  | .error _ => none
  | .ok judged =>
    some (if judged.finishing then none else some (some (enrolling judged asked.ask asked.now).next),
      judged.answer)

/-- Calls to be admitted, as writers of the replicated state. They take no turns. -/
def admission (lib : Library) : Protocol Asked (Option Snapshot) Answer where
  plan := admissionPlan lib
  locks _ := false

/-- A write lands on a state with the marks of the one its call read, except that the token it uses
may be marked with the name it asks for. -/
def MarksKept (s : World NodeId Asked (Option Snapshot) Answer) : Action NodeId Asked → Prop
  | .finish index _ => ∀ p, s.pending[index]? = some p → p.next.isSome → ∀ id,
      mark s.head id = mark p.read id ∨
        mark s.head id = some p.op.ask.name ∧
          ∃ token, Token.read p.op.ask.token = .ok token ∧ id = token.id
  | _ => True

/-- A state has every mark of another one. -/
def HasMarks (before after : Option Snapshot) : Prop :=
  ∀ id node, mark before id = some node → mark after id = some node

instance : Std.Refl HasMarks := ⟨fun _ _ _ h => h⟩

instance : IsTrans (Option Snapshot) HasMarks := ⟨fun _ _ _ h h' id node hm => h' id node (h id node hm)⟩

/-- The token of a call is marked with the name its certificate is for. -/
def Spent (asked : Asked) (answer : Answer) (state : Option Snapshot) : Prop :=
  ∀ token, Token.read asked.ask.token = .ok token →
    mark state token.id = some answer.certificate.node

variable {lib : Library} {asked : Asked} {state : Option Snapshot} {answer : Answer}

/-- What a call does, by whether it is the first of its join. -/
theorem admissionPlan_cases {next : Option (Option Snapshot)}
    (h : (admission lib).plan asked state = some (next, answer)) :
    ∃ judged, judge lib state asked.ask asked.now = .ok judged ∧ judged.answer = answer ∧
      (judged.finishing = true ∧ next = none ∨
        judged.finishing = false ∧ next = some (some (enrolled judged.state asked.ask.name
          asked.ask.address judged.token.id judged.record))) := by
  simp only [admission, admissionPlan] at h
  split at h
  · nomatch h
  · rename_i judged hjudge
    obtain ⟨rfl, rfl⟩ := Prod.mk.inj (Option.some.inj h)
    refine ⟨judged, hjudge, rfl, ?_⟩
    cases hfinishing : judged.finishing with
    | true => exact .inl ⟨rfl, if_pos rfl⟩
    | false => exact .inr ⟨rfl, if_neg Bool.false_ne_true⟩

/-- The first call of a join writes the row and the mark. -/
theorem admissionPlan_of_first {judged : Judged}
    (hjudge : judge lib state asked.ask asked.now = .ok judged) (hfirst : judged.finishing = false) :
    (admission lib).plan asked state =
      some (some (some (enrolling judged asked.ask asked.now).next), judged.answer) := by
  simp only [admission, admissionPlan, hjudge, hfirst, Bool.false_eq_true, if_false]

theorem spent_of_finishing (h : (admission lib).plan asked state = some (none, answer)) :
    Spent asked answer state := by
  obtain ⟨judged, hjudge, rfl, ⟨hfinishing, -⟩ | ⟨-, hnext⟩⟩ := admissionPlan_cases h
  · have hsound := judge_sound hjudge
    intro token htoken
    obtain rfl : token = judged.token := Except.ok.inj (htoken.symm.trans hsound.token)
    rw [mark, hsound.held, Option.bind_some, hsound.usedBy_of_finishing hfinishing, hsound.node]
  · nomatch hnext

theorem spent_of_first {next : Option Snapshot}
    (h : (admission lib).plan asked state = some (some next, answer)) : Spent asked answer next := by
  obtain ⟨judged, hjudge, rfl, ⟨-, hnext⟩ | ⟨-, hnext⟩⟩ := admissionPlan_cases h
  · nomatch hnext
  · have hsound := judge_sound hjudge
    intro token htoken
    obtain rfl : token = judged.token := Except.ok.inj (htoken.symm.trans hsound.token)
    rw [Option.some.inj hnext, mark, Option.bind_some, usedBy_enrolled, if_pos rfl, hsound.node]

/-- A landing that meets the condition loses no mark. -/
theorem growing_of_marksKept {s : World NodeId Asked (Option Snapshot) Answer}
    {action : Action NodeId Asked} (hsound : s.Sound (admission lib)) (h : MarksKept s action) :
    Growing HasMarks s action := by
  cases action with
  | apply | read | refuse | giveUp => trivial
  | finish index heard =>
    intro p hp next hnext id node hmark
    have hplan := hsound p (List.mem_of_getElem? hp)
    rw [hnext] at hplan
    obtain ⟨judged, hjudge, -, ⟨-, hnone⟩ | ⟨hfirst, hwrites⟩⟩ := admissionPlan_cases hplan
    · nomatch hnone
    · have hjudged := judge_sound hjudge
      rw [Option.some.inj hwrites, mark, Option.bind_some, usedBy_enrolled]
      rcases h p hp (by rw [hnext]; rfl) id with hsame | ⟨hown, token, htoken, rfl⟩
      · rw [hmark, hjudged.held, mark, Option.bind_some] at hsame
        -- the call found its own token unmarked, so this mark is another token's
        have hother : id ≠ judged.token.id := by
          rintro rfl
          rw [hjudged.usedBy_of_first hfirst] at hsame
          nomatch hsame
        rw [if_neg hother, hsame]
      · obtain rfl : token = judged.token := Except.ok.inj (htoken.symm.trans hjudged.token)
        rw [if_pos rfl, ← hown, hmark]

/-- In every run in which each write lands on a state with the marks its call has read, all the
certificates obtained with a token are for one node, and the token is marked with that node from then
on. -/
theorem token_admits_one_node {start : Option Snapshot} {actions : List (Action NodeId Asked)}
    (h : Runs.Along (World.step (admission lib)) MarksKept (World.new start) actions) :
    ∀ first ∈ (Runs.run (World.step (admission lib)) (World.new start) actions).answers,
      ∀ token, Token.read first.1.ask.token = .ok token →
        mark (Runs.run (World.step (admission lib)) (World.new start) actions).head token.id =
          some first.2.certificate.node ∧
        ∀ second ∈ (Runs.run (World.step (admission lib)) (World.new start) actions).answers,
          ∀ other, Token.read second.1.ask.token = .ok other → other.id = token.id →
            second.2.certificate.node = first.2.certificate.node := by
  have hgrowing : Runs.Along (World.step (admission lib)) (Growing HasMarks) (World.new start)
      actions := by
    have hstep : ∀ (s : World NodeId Asked (Option Snapshot) Answer) action,
        s.Sound (admission lib) → MarksKept s action →
        (s.step (admission lib) action).Sound (admission lib) := fun _ action hs _ => hs.step action
    exact h.imp hstep (fun _ _ => growing_of_marksKept) (fun p hp => absurd hp List.not_mem_nil)
  have hwarranted : Warranted (admission lib) HasMarks Spent
      (Runs.run (World.step (admission lib)) (World.new start) actions) :=
    warranted_run (fun hgrows hspent token htoken => hgrows _ _ (hspent token htoken))
      spent_of_finishing spent_of_first hgrowing
  have hspent := hwarranted.answered
  intro first hfirst token htoken
  have hmark := hspent first hfirst token htoken
  refine ⟨hmark, fun second hsecond other hother hid => ?_⟩
  have hmark' := hspent second hsecond other hother
  rw [hid, hmark] at hmark'
  exact (Option.some.inj hmark').symm

/-- The first call of a join by a node of the name given, on a cluster that has minted a token. -/
def joinOf (node : NodeId) : Asked := ⟨asking 0x11 node "request", 20⟩

@[simp] theorem ask_joinOf (node : NodeId) : (joinOf node).ask = asking 0x11 node "request" := rfl

@[simp] theorem now_joinOf (node : NodeId) : (joinOf node).now = 20 := rfl

theorem read_joinOf (node : NodeId) : Token.read (joinOf node).ask.token = .ok (tokenOf 0x11) :=
  read_asking 0x11 node "request"

/-- Whether such a call is the second of its join, once it was judged. -/
def judgedJoin (node : NodeId) : Option Bool :=
  (judgePresented signing Cluster.withToken.read (asking 0x11 node "request") 20
    (tokenOf 0x11)).toOption.map Judged.finishing

/-- A first call writes, and its certificate is for its name. -/
theorem admissionPlan_joinOf {node : NodeId} (h : judgedJoin node = some false) :
    ∃ next answer, (admission signing).plan (joinOf node) Cluster.withToken.read =
      some (some next, answer) ∧ answer.certificate.node = node := by
  obtain ⟨judged, hjudged, hfirst⟩ := Option.map_eq_some_iff.mp h
  have hpresented : judgePresented signing Cluster.withToken.read (asking 0x11 node "request") 20
      (tokenOf 0x11) = .ok judged :=
    Checked.toOption_eq_some.mp hjudged
  have hjudge : judge signing Cluster.withToken.read (joinOf node).ask (joinOf node).now =
      .ok judged := by
    rw [ask_joinOf, now_joinOf, judge_asking, hpresented]
  exact ⟨_, judged.answer, admissionPlan_of_first hjudge hfirst, (judge_sound hjudge).node⟩

/-- A node that joins alone gets its certificate, and the token is marked with it. -/
theorem lone_join_marks_its_token :
    ∃ answer, (Runs.run (World.step (admission signing)) (World.new Cluster.withToken.read)
        [.read nodeA (joinOf nodeB), .finish 0 true]).answers = [(joinOf nodeB, answer)] ∧
      mark (Runs.run (World.step (admission signing)) (World.new Cluster.withToken.read)
        [.read nodeA (joinOf nodeB), .finish 0 true]).head (tokenOf 0x11).id = some nodeB := by
  have hjudged : judgedJoin nodeB = some false := by decide +kernel
  have htoken := read_joinOf nodeB
  obtain ⟨next, answer, hplan, hnode⟩ := admissionPlan_joinOf hjudged
  -- nothing below depends on which state and which call these are
  generalize Cluster.withToken.read = start at hplan ⊢
  generalize joinOf nodeB = asked at hplan htoken ⊢
  have halong : Runs.Along (World.step (admission signing)) MarksKept (World.new start)
      [.read nodeA asked, .finish 0 true] := by
    refine ⟨trivial, fun p hp _ id => .inl ?_, trivial⟩
    rw [(World.pending_of_alone hp).2, World.head_of_alone]
  have hanswers : (Runs.run (World.step (admission signing)) (World.new start)
      [.read nodeA asked, .finish 0 true]).answers = [(asked, answer)] := by
    rw [World.run_alone hplan]
  have hmem : (asked, answer) ∈ (Runs.run (World.step (admission signing)) (World.new start)
      [.read nodeA asked, .finish 0 true]).answers := by
    rw [hanswers]
    exact List.mem_singleton.mpr rfl
  refine ⟨answer, hanswers, ?_⟩
  rw [(token_admits_one_node halong (asked, answer) hmem (tokenOf 0x11) htoken).1, hnode]

/-- Two nodes that present one token at once are both answered, each with a certificate for its own
name. -/
theorem overlapping_joins_share_a_token :
    ∃ first second,
      (Runs.run (World.step (admission signing)) (World.new Cluster.withToken.read)
        (World.overlap nodeA (joinOf nodeB) (joinOf nodeC))).answers =
          [(joinOf nodeB, first), (joinOf nodeC, second)] ∧
      Token.read (joinOf nodeB).ask.token = .ok (tokenOf 0x11) ∧
      Token.read (joinOf nodeC).ask.token = .ok (tokenOf 0x11) ∧
      first.certificate.node = nodeB ∧ second.certificate.node = nodeC ∧ nodeB ≠ nodeC := by
  have hjudged : judgedJoin nodeB = some false ∧ judgedJoin nodeC = some false := by decide +kernel
  obtain ⟨next, first, hplan, hfirst⟩ := admissionPlan_joinOf hjudged.1
  obtain ⟨next', second, hplan', hsecond⟩ := admissionPlan_joinOf hjudged.2
  refine ⟨first, second, ?_, read_joinOf nodeB, read_joinOf nodeC, hfirst, hsecond, by decide⟩
  rw [World.run_overlap rfl hplan hplan']

end EkEk.Raft
