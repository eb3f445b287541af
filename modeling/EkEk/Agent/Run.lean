import EkEk.Agent.Supervise

/-!
# The supervision loop

Reference: `crates/ek-ek-agent/src/run.rs`, `crates/ek-ek-agent/src/socket.rs`.

One round of the loop reads what the socket threads heard, asks whether the process ended, counts a
question that went unanswered and lets the moment pass. `Loop.handle` tells the supervision one
event and carries out what it asks for, which can be another event: a process that cannot be started
or had to be ended is one that ended.

What a round finds outside comes in with it. `Loop.happened` is every event the supervision was
told, in order, and `run_log` says that the supervision is where these events left it.
-/

namespace EkEk.Agent

open Vrrp (Instant Duration)

/-- What a socket thread heard from the traffic path. -/
inductive Heard where
  | greeted (pid : UInt32)
  | answered
  | reported (state : DataPlaneState)
  | refused
deriving DecidableEq, Repr

/-- What asking about the process came to. -/
inductive Poll where
  | running
  | ended
  | failed
deriving DecidableEq, Repr

/-- What the agent was set up with. -/
structure Plan where
  patience : UInt32
  asking : Duration

/-- What one round finds: what was heard, how the process does, and how starting or ending it would
go. A process that is ended goes at the moment given, and one that cannot be started fails at the
moment given. -/
structure Round where
  now : Instant
  heard : List Heard
  polled : Poll
  terminated : Option Instant
  unstarted : Option Instant

/-- The loop between two rounds. -/
structure Loop where
  log : Log
  /-- Whether there is a process. -/
  child : Bool
  answeredAt : Instant
  questionAt : Instant
  /-- Whether the loop gave up, because the process could not be asked about. -/
  failed : Bool
  happened : List Event

namespace Loop

/-- Tell the supervision one event. -/
def tell (loop : Loop) (event : Event) : Loop :=
  { loop with log := loop.log.tell event, happened := loop.happened ++ [event] }

/-- How much there is to do about an effect. Starting and ending a process may be another event. -/
def weight : Effect → ℕ
  | .terminate | .start => 3
  | _ => 1

theorem weight_ended (s : Supervision) (now : Instant) :
    ((s.ended now).2.map weight).sum ≤ 2 := by
  unfold Supervision.ended
  dsimp only
  split_ifs <;> exact Nat.le_of_ble_eq_true rfl

/-- Do what the supervision asked for. What moves the claim and what is only said leaves the loop
alone. -/
def carry (round : Round) (loop : Loop) : List Effect → Loop
  | [] => loop
  | .terminate :: rest =>
    match loop.child, round.terminated with
    | true, some moment =>
      -- The same path a crash takes.
      carry round (carry round ({ loop with child := false }.tell (.ended moment))
        (loop.log.supervision.ended moment).2) rest
    | _, _ => carry round loop rest
  | .start :: rest =>
    match round.unstarted with
    | none => carry round { loop with child := true } rest
    | some moment => carry round (carry round (loop.tell (.ended moment))
        (loop.log.supervision.ended moment).2) rest
  | .demote :: rest | .restore :: rest | .alarm :: rest | .clear :: rest => carry round loop rest
termination_by effects => (effects.map weight).sum
decreasing_by
  all_goals simp only [List.map_cons, List.sum_cons, weight]
  all_goals try omega
  · have := weight_ended loop.log.supervision moment
    omega
  · have := weight_ended loop.log.supervision moment
    omega

/-- Tell the supervision one event, and do what it asks for. -/
def handle (round : Round) (loop : Loop) (event : Event) : Loop :=
  carry round (loop.tell event) (loop.log.supervision.take event).2

/-- Take one thing that was heard. A report proves the link is alive either way. -/
def hear (round : Round) (loop : Loop) : Heard → Loop
  | .answered => handle round { loop with answeredAt := round.now } .answered
  | .greeted _ => loop
  | .refused => loop
  | .reported state =>
    handle round { loop with answeredAt := round.now } (if serving state then .serves else .answered)

/-- Ask whether the process ended, when there is one. -/
def poll (round : Round) (loop : Loop) : Loop :=
  if loop.child then
    match round.polled with
    | .ended => handle round { loop with child := false } (.ended round.now)
    | .running => loop
    | .failed => { loop with failed := true }
  else loop

/-- Count one interval's worth of silence, while there is a process to be silent. -/
def question (plan : Plan) (round : Round) (loop : Loop) : Loop :=
  if round.now ≥ loop.questionAt then
    let asked := { loop with questionAt := round.now + plan.asking }
    if asked.child && decide (round.now - asked.answeredAt ≥ plan.asking) then
      handle round asked .unanswered
    else asked
  else loop

/-- One round of the loop. -/
def step (plan : Plan) (loop : Loop) (round : Round) : Loop :=
  if loop.failed then loop
  else
    let polled := (round.heard.foldl (hear round) loop).poll round
    if polled.failed then polled
    else (polled.question plan round).handle round (.due round.now)

/-- The loop before its first round. -/
def begin (plan : Plan) (round : Round) : Loop :=
  handle round {
    log := .new plan.patience
    child := false
    answeredAt := round.now
    questionAt := round.now + plan.asking
    failed := false
    happened := [] } .begin

/-- The loop after the rounds given. -/
def supervise (plan : Plan) (first : Round) (rounds : List Round) : Loop :=
  Runs.run (step plan) (begin plan first) rounds

/-! ## The loop tells the supervision events, and nothing else -/

/-- The supervision is where the events told it left it. -/
def Told (patience : UInt32) (loop : Loop) : Prop :=
  loop.log = Runs.run Log.tell (.new patience) loop.happened

theorem Told.tell {patience : UInt32} {loop : Loop} (h : loop.Told patience) (event : Event) :
    (loop.tell event).Told patience := by
  rw [Told, Loop.tell, Runs.run_append, ← h]
  rfl

theorem Told.carry {patience : UInt32} {loop : Loop} (h : loop.Told patience) (round : Round)
    (effects : List Effect) : (loop.carry round effects).Told patience := by
  induction loop, effects using carry.induct round with
  | case1 loop =>
    rw [Loop.carry]
    exact h
  | case2 loop rest moment hterminated hchild inner outer =>
    rw [Loop.carry, hchild, hterminated]
    exact outer (inner (Told.tell h _))
  | case3 loop rest hkept ih =>
    rw [Loop.carry]
    split
    · rename_i moment hchild hterminated
      exact absurd hterminated (hkept moment hchild)
    · exact ih h
  | case4 loop rest hstarted ih =>
    rw [Loop.carry, hstarted]
    exact ih h
  | case5 loop rest moment hunstarted inner outer =>
    rw [Loop.carry, hunstarted]
    exact outer (inner (Told.tell h _))
  | case6 loop rest ih | case7 loop rest ih | case8 loop rest ih | case9 loop rest ih =>
    rw [Loop.carry]
    exact ih h

/-- Everything else the loop keeps may change before an event is handled. -/
theorem handle_told {patience : UInt32} (loop : Loop) (h : loop.Told patience) (round : Round)
    (event : Event) : (loop.handle round event).Told patience :=
  (h.tell event).carry round _

theorem Told.hear {patience : UInt32} {loop : Loop} (h : loop.Told patience) (round : Round)
    (heard : Heard) : (loop.hear round heard).Told patience := by
  cases heard with
  | greeted pid => exact h
  | answered => exact handle_told { loop with answeredAt := round.now } h round _
  | reported state => exact handle_told { loop with answeredAt := round.now } h round _
  | refused => exact h

theorem Told.poll {patience : UInt32} {loop : Loop} (h : loop.Told patience) (round : Round) :
    (loop.poll round).Told patience := by
  unfold Loop.poll
  split
  · split
    · exact handle_told { loop with child := false } h round _
    · exact h
    · exact h
  · exact h

theorem Told.question {patience : UInt32} {loop : Loop} (h : loop.Told patience) (plan : Plan)
    (round : Round) : (loop.question plan round).Told patience := by
  unfold Loop.question
  dsimp only
  split_ifs
  · exact handle_told { loop with questionAt := round.now + plan.asking } h round _
  · exact h
  · exact h

theorem Told.step {patience : UInt32} {loop : Loop} (h : loop.Told patience) (plan : Plan)
    (round : Round) : (loop.step plan round).Told patience := by
  have hheard : (round.heard.foldl (Loop.hear round) loop).Told patience :=
    Runs.run_inv (fun _ heard hs => hs.hear round heard) h round.heard
  unfold Loop.step
  split
  · exact h
  · dsimp only
    split
    · exact hheard.poll round
    · exact handle_told _ ((hheard.poll round).question plan round) round _

/-- The supervision of a running agent is where the events of the loop left it. -/
theorem supervise_told (plan : Plan) (first : Round) (rounds : List Round) :
    (supervise plan first rounds).Told plan.patience := by
  have hbegin : (begin plan first).Told plan.patience := by
    apply handle_told
    rfl
  exact Runs.run_inv (fun _ round hs => hs.step plan round) hbegin rounds

/-- In every run of the loop, the claim is lowered at every moment a restart is pending exactly when
no report of a serving process is read at such a moment. -/
theorem supervise_rule_iff (plan : Plan) (first : Round) (rounds : List Round) :
    (∀ events, events <+: (supervise plan first rounds).happened →
        (Runs.run Log.tell (.new plan.patience) events).Rule) ↔
      Runs.Along Log.tell Log.Clear (.new plan.patience) (supervise plan first rounds).happened :=
  Log.rule_iff (Log.ready_new plan.patience) _

/-! ## A report that arrives late -/

/-- A round in which nothing happens, at this moment. -/
def quiet (now : Instant) : Round := ⟨now, [], .running, none, none⟩

/-- The process serves, ends, and one report of it is read after that. -/
def lateReport : List Round :=
  [{ quiet 10000000 with heard := [.reported .serving] },
    { quiet 20000000 with polled := .ended },
    { quiet 30000000 with heard := [.reported .serving] }]

/-- The late report puts the claim back while the restart is still pending. -/
theorem late_report_restores :
    ¬ ∀ events, events <+: (supervise ⟨3, 1000000000⟩ (quiet 0) lateReport).happened →
      (Runs.run Log.tell (.new 3) events).Rule := by
  have hhappened : (supervise ⟨3, 1000000000⟩ (quiet 0) lateReport).happened
      = [.begin, .serves, .due 10000000, .ended 20000000, .due 20000000, .serves,
          .due 30000000] := by decide +kernel
  intro hall
  have hrule := hall [.begin, .serves, .due 10000000, .ended 20000000, .due 20000000, .serves]
    (hhappened ▸ ⟨[.due 30000000], rfl⟩)
  have hlowered := (hrule rfl).1
  exact absurd hlowered (by decide)

end Loop

end EkEk.Agent
