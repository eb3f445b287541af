import EkEk.Vrrp.Router

/-!
# One lowered claim for every reason

Reference: `crates/ek-ek-vrrp/src/router.rs`, `crates/ek-ek-agent/src/run.rs`.

Two detectors lower the claim of a router. The gateway check lowers it on its own, inside a round;
the supervision of the traffic path sends a `Claim`, which arrives as `demote` or `restore`. Both
lower it to the same number, and each puts it back when its own outage is over.

`Router.Stands` is the invariant: as long as either reason stands the claim is the lowered one. Every
step keeps it but two, and `Recovers` names them: a recovery of one detector while the reason of the
other still stands.
-/

namespace EkEk.Vrrp

/-- What the supervision decided about this node's claim. -/
inductive Claim where
  | down
  | up
deriving DecidableEq, Repr

/-- Whether the answer the check is waiting for is among the echoes. -/
def Check.Awaited (check : Check) (echoes : List (Ipv4Addr × UInt16)) : Prop :=
  ∃ echo ∈ echoes, check.watch.gateway = some (.v4 echo.1) ∧ check.waiting = some echo.2

/-- Reading answers does nothing at all, unless the one waited for is among them. Then it counts
once, and the claim is to be put back exactly when it was lowered. -/
theorem Check.collect_cases (check : Check) (echoes : List (Ipv4Addr × UInt16)) :
    check.collect echoes = (check, false) ∨
      check.Awaited echoes ∧ (check.collect echoes).1.watch = check.watch.answered.1 ∧
        (check.collect echoes).2 = check.watch.lowered := by
  induction echoes generalizing check with
  | nil => exact .inl rfl
  | cons echo rest ih =>
    obtain ⟨sender, sequence⟩ := echo
    have hlater : check.Awaited rest → check.Awaited ((sender, sequence) :: rest) := by
      rintro ⟨echo, hmem, hecho⟩
      exact ⟨echo, List.mem_cons_of_mem _ hmem, hecho⟩
    unfold collect
    split_ifs with hgateway hwaiting
    · exact (ih check).imp_right fun h => ⟨hlater h.1, h.2⟩
    · exact (ih check).imp_right fun h => ⟨hlater h.1, h.2⟩
    · refine .inr ⟨⟨_, List.mem_cons_self, not_not.mp hgateway, not_not.mp hwaiting⟩, ?_⟩
      -- Nothing is waited for any more, so no later echo is the answer.
      rcases ih { check with watch := check.watch.answered.1, waiting := none } with
        hnone | ⟨⟨_, _, _, hnone⟩, _⟩
      · dsimp only
        rw [hnone]
        refine ⟨rfl, ?_⟩
        rw [Bool.or_false, Watch.answered_effect]
        cases check.watch.lowered <;> rfl
      · exact absurd hnone.symm (Option.some_ne_none _)

namespace Router

/-- Whether the gateway is lost. -/
def Lost (r : Router) : Prop := ∃ check ∈ r.checker, check.watch.health = .lost

instance (r : Router) : Decidable r.Lost :=
  decidable_of_iff (r.checker.any (·.watch.health = .lost) = true) <| by
    simp only [Lost, Option.any_eq_true, decide_eq_true_eq, Option.mem_def]

/-- The claim is the lowered one as long as the gateway is lost or the other reason stands. -/
structure Stands (other : Prop) (r : Router) : Prop where
  consistent : ∀ check ∈ r.checker, check.watch.Consistent
  lowered : r.Lost ∨ other → r.machine.settings.priority = r.demotedPriority

/-- What `Stands` looks at. -/
theorem Stands.of_keeps {other : Prop} {r r' : Router} (h : Stands other r) (hkeeps : Keeps r r') :
    Stands other r' := by
  obtain ⟨hconsistent, hlowered⟩ := h
  rw [← hkeeps.checker] at hconsistent
  refine ⟨hconsistent, fun hreason => ?_⟩
  rw [hkeeps.settings, hkeeps.demotedPriority]
  refine hlowered (hreason.imp_left ?_)
  unfold Lost
  rw [hkeeps.checker]
  exact id

theorem stands_checker {other : Prop} {r : Router} {check : Check}
    (hconsistent : check.watch.Consistent)
    (hlowered : check.watch.health = .lost ∨ other →
      r.machine.settings.priority = r.demotedPriority) :
    Stands other { r with checker := some check } := by
  refine ⟨?_, ?_⟩
  · rintro _ ⟨⟩
    exact hconsistent
  · rintro (⟨_, ⟨⟩, hlost⟩ | hother)
    · exact hlowered (.inl hlost)
    · exact hlowered (.inr hother)

/-- Moving the check on to a watch of the same health keeps the claim right. -/
theorem Stands.checker {other : Prop} {r : Router} (h : Stands other r) {check : Check}
    (hcheck : check ∈ r.checker) (moved : Check) (hconsistent : moved.watch.Consistent)
    (hhealth : moved.watch.health = check.watch.health) :
    Stands other { r with checker := some moved } := by
  refine stands_checker hconsistent fun hreason => h.lowered (hreason.imp_left fun hlost => ?_)
  exact ⟨check, hcheck, hhealth.symm.trans hlost⟩

/-- A missed question keeps the claim right: it lowers the claim in the moment it loses the
gateway. -/
theorem Stands.noteMissed {other : Prop} {r : Router} (h : Stands other r) (now : Instant) :
    Stands other (r.noteMissed now).1 := by
  unfold Router.noteMissed
  split
  · exact h
  · rename_i check hcheck
    have hmem : check ∈ r.checker := hcheck
    have hconsistent := (h.consistent check hmem).missed
    dsimp only
    rcases check.watch.missed_cases with ⟨hnone, hsame⟩ | ⟨hdemote, _⟩
    · rw [if_pos (by rw [hnone]; exact (Option.some_ne_none _).symm)]
      exact h.checker hmem _ hconsistent hsame
    · rw [if_neg (not_not.mpr hdemote)]
      exact stands_checker (r := { r with machine := (r.machine.demote r.demotedPriority now).1 })
        hconsistent fun _ => (r.machine.demote_priority r.demotedPriority now).1

theorem Stands.missWaiting {other : Prop} {r : Router} (h : Stands other r) {check : Check}
    (hcheck : check ∈ r.checker) (moved : Check) (hconsistent : moved.watch.Consistent)
    (hhealth : moved.watch.health = check.watch.health) (now : Instant) :
    Stands other (r.missWaiting moved now).1 := by
  have hcleared : Stands other { r with checker := some { moved with waiting := none } } :=
    h.checker hcheck _ hconsistent hhealth
  unfold Router.missWaiting
  dsimp only
  split
  · exact hcleared.noteMissed now
  · exact hcleared

theorem Stands.ask {other : Prop} {r : Router} (h : Stands other r)
    (asked : Except IoError Unit) (now : Instant) : Stands other (r.ask asked now).1 := by
  unfold Router.ask
  split
  · exact h
  · rename_i check hcheck
    have hmem : check ∈ r.checker := hcheck
    have hconsistent := h.consistent check hmem
    dsimp only
    split
    · exact h.checker hmem _ hconsistent rfl
    · exact (h.checker hmem { check with sequence := check.sequence + 1 } hconsistent
        rfl).noteMissed now

theorem Stands.askWhenDue {other : Prop} {r : Router} (h : Stands other r) (round : Round) :
    Stands other (r.askWhenDue round).1 := by
  unfold Router.askWhenDue
  split
  · exact h
  · rename_i check hcheck
    have hmem : check ∈ r.checker := hcheck
    have hconsistent := (h.consistent check hmem).due round.now
    have hhealth := check.watch.due_health round.now
    dsimp only
    split
    · exact h.checker hmem { check with watch := (check.watch.due round.now).1 } hconsistent hhealth
    · have hmissed := h.missWaiting hmem { check with watch := (check.watch.due round.now).1 }
        hconsistent hhealth round.now
      split
      · exact hmissed
      · exact hmissed.ask round.asked round.now

/-- Reading answers keeps the claim right, unless the gateway comes back while the other reason
stands. -/
theorem Stands.readAnswers {other : Prop} {r : Router} (h : Stands other r) {check : Check}
    (hcheck : check ∈ r.checker) (echoes : List (Ipv4Addr × UInt16)) (now : Instant)
    (hclear : r.Lost → other → ¬ check.Awaited echoes) :
    Stands other (r.readAnswers check echoes now).1 := by
  unfold Router.readAnswers
  dsimp only
  rcases check.collect_cases echoes with hnone | ⟨hawaited, hwatch, hrestore⟩
  · rw [hnone]
    exact h.checker hcheck _ (h.consistent check hcheck) rfl
  · have hconsistent : (check.collect echoes).1.watch.Consistent := by
      rw [hwatch]
      exact check.watch.answered_consistent
    have hhealth : (check.collect echoes).1.watch.health ≠ .lost := by
      rw [hwatch]
      exact check.watch.answered_health
    rw [hrestore]
    split
    · rename_i hlowered
      have hlost : r.Lost := ⟨check, hcheck, h.consistent check hcheck hlowered⟩
      refine stands_checker (r := { r with machine := (r.machine.restore now).1 }) hconsistent ?_
      rintro (hlost' | hother)
      · exact absurd hlost' hhealth
      · exact absurd hawaited (hclear hlost hother)
    · refine stands_checker hconsistent ?_
      rintro (hlost' | hother)
      · exact absurd hlost' hhealth
      · exact h.lowered (.inr hother)

theorem Stands.checkGateway {other : Prop} {r : Router} (h : Stands other r) (round : Round)
    (hclear : r.Lost → other → ∀ check ∈ r.checker, ¬ check.Awaited round.echoes) :
    Stands other (r.checkGateway round).1 := by
  unfold Router.checkGateway
  split
  · exact h
  · rename_i check hcheck
    exact (h.readAnswers hcheck round.echoes round.now fun hlost hother =>
      hclear hlost hother check hcheck).askWhenDue round

/-- A round keeps the claim right, unless the gateway comes back while the other reason stands. -/
theorem Stands.tick {other : Prop} {r : Router} (h : Stands other r) (kernel : Kernel)
    (round : Round)
    (hclear : r.Lost → other → ∀ check ∈ r.checker, ¬ check.Awaited round.echoes) :
    Stands other (r.tick kernel round) := by
  have hkeeps := (hears_keeps kernel round.now r round.packets).trans
    (runTimers_keeps kernel round.now _)
  set timed := (round.packets.foldl (hear kernel round.now) r).runTimers kernel round.now
  have hchecked : Stands other (timed.runCheck kernel round) := by
    unfold runCheck
    split
    · refine Stands.of_keeps ?_ (carryOut_keeps kernel round.now _ _)
      refine (h.of_keeps hkeeps).checkGateway round ?_
      rintro ⟨check, hcheck, hlost⟩ hother
      rw [hkeeps.checker] at hcheck ⊢
      exact hclear ⟨check, hcheck, hlost⟩ hother
    · exact h.of_keeps hkeeps
  exact hchecked.of_keeps ⟨rfl, rfl, rfl, rfl, rfl⟩

end Router

/-! ## Both detectors -/

/-- A router and the last thing the supervision decided about its claim. -/
structure Supervised where
  router : Router
  claim : Option Claim

namespace Supervised

/-- Carry one call on the router, and remember what the supervision said with it. -/
def step (kernel : Kernel) (s : Supervised) (op : Op) : Supervised where
  router := s.router.step kernel op
  claim := match op with
    | .demote _ => some .down
    | .restore _ => some .up
    | _ => s.claim

/-- Whether a reason to be lowered stands. -/
def Lowering (s : Supervised) : Prop := s.router.Lost ∨ s.claim = some .down

/-- A call is clear when it does not end one detector's outage while the other's lasts: the traffic
path does not come back while the gateway is lost, and no round reads the gateway's answer while the
gateway is lost and the traffic path is down. -/
def Clear (s : Supervised) : Op → Prop
  | .restore _ => ¬ s.router.Lost
  | .tick round => s.router.Lost → s.claim = some .down →
      ∀ check ∈ s.router.checker, ¬ check.Awaited round.echoes
  | _ => True

/-- Between two calls the claim is right, and what it may be is what the plan said. -/
structure Right (plan : Plan) (s : Supervised) : Prop where
  stands : s.router.Stands (s.claim = some .down)
  configured : s.router.machine.configured = plan.settings.priority
  demoted : s.router.demotedPriority = plan.demotedPriority

theorem Right.step {plan : Plan} {s : Supervised} (h : s.Right plan) (kernel : Kernel) (op : Op)
    (hclear : s.Clear op) : (s.step kernel op).Right plan := by
  obtain ⟨hconfigured, _, hdemoted⟩ := s.router.step_fixed kernel op
  refine ⟨?_, hconfigured.trans h.configured, hdemoted.trans h.demoted⟩
  cases op with
  | tick round => exact h.stands.tick kernel round hclear
  | demote now =>
    simp only [Supervised.step, Router.step, Router.demote]
    split
    · rename_i hsame
      exact ⟨h.stands.consistent, fun _ => hsame⟩
    · refine Router.Stands.of_keeps ?_ (Router.carryOut_keeps kernel now _ _)
      exact ⟨h.stands.consistent, fun _ => (s.router.machine.demote_priority _ now).1⟩
  | restore now =>
    have hnone : ∀ r : Router, r.checker = s.router.checker → ¬ r.Lost := by
      rintro r hchecker ⟨check, hcheck, hlost⟩
      exact hclear ⟨check, hchecker ▸ hcheck, hlost⟩
    have hup : ¬ (some Claim.up = some Claim.down) := by decide
    simp only [Supervised.step, Router.step, Router.restore]
    split
    · exact ⟨h.stands.consistent, fun hreason => absurd hreason (not_or.mpr ⟨hclear, hup⟩)⟩
    · refine Router.Stands.of_keeps ?_ (Router.carryOut_keeps kernel now _ _)
      exact ⟨h.stands.consistent, fun hreason =>
        absurd hreason (not_or.mpr ⟨hnone _ rfl, hup⟩)⟩
  | stop now =>
    refine Router.Stands.of_keeps ?_ (Router.carryOut_keeps kernel now _ _)
    exact h.stands.of_keeps ⟨rfl, rfl, rfl, rfl, rfl⟩

/-- A router that just started has no reason to be lowered. -/
theorem right_start {kernel : Kernel} {plan : Plan} {interface : Except IoError Interface}
    {gateway : Except IoError (Option IpAddr)} {now : Instant} {r : Router}
    (h : Router.start kernel plan interface gateway now = .ok r) : Right plan ⟨r, none⟩ := by
  obtain ⟨found, checker, hchecker, rfl⟩ := Router.start_eq h
  have hopened := Router.carryOut_keeps kernel now (Router.opened plan found checker now)
    ((Machine.new plan.settings).start now).2
  refine ⟨Router.Stands.of_keeps ⟨?_, ?_⟩ hopened, hopened.configured.trans ?_,
    hopened.demotedPriority⟩
  · intro check hcheck
    obtain ⟨way, rfl⟩ := Router.openChecker_eq hchecker hcheck
    exact Watch.new_consistent _ _ _
  · rintro (⟨check, hcheck, hlost⟩ | hclaim)
    · obtain ⟨way, rfl⟩ := Router.openChecker_eq hchecker hcheck
      exact absurd hlost (Watch.new_health _ _ _)
    · exact absurd hclaim.symm (Option.some_ne_none _)
  · exact ((Machine.new plan.settings).start_settings now).2

/-- In every run whose calls are all clear, the claim is the lowered one whenever a reason stands,
and the configured one only when none does. -/
theorem claim_lowered_for_every_reason {kernel : Kernel} {plan : Plan}
    {interface : Except IoError Interface} {gateway : Except IoError (Option IpAddr)}
    {now : Instant} {r : Router} (hstart : Router.start kernel plan interface gateway now = .ok r)
    (hne : plan.demotedPriority ≠ plan.settings.priority) {ops : List Op}
    (hclear : Runs.Along (step kernel) Clear ⟨r, none⟩ ops) :
    let s := Runs.run (step kernel) ⟨r, none⟩ ops
    (s.Lowering → s.router.machine.settings.priority = plan.demotedPriority) ∧
      (s.router.machine.settings.priority = plan.settings.priority → ¬ s.Lowering) := by
  intro s
  have hright : s.Right plan :=
    hclear.inv (fun s op hs hop => hs.step kernel op hop) (right_start hstart)
  have hlowered : s.Lowering → s.router.machine.settings.priority = plan.demotedPriority :=
    fun hreason => (hright.stands.lowered hreason).trans hright.demoted
  exact ⟨hlowered, fun hconfigured hreason => hne ((hlowered hreason).symm.trans hconfigured)⟩

/-! ## Two outages that overlap -/

/-- A node that watches its gateway and stands down after one missed answer. -/
def watchedPlan : Plan where
  settings := {
    vrid := 7
    priority := 100
    interval := 1000000000000
    preempt := true
    address := ⟨10, 0, 0, 1⟩
    virtualAddresses := [⟨10, 0, 0, 9⟩]
    peers := [⟨10, 0, 0, 2⟩] }
  carried := [⟨.v4 ⟨10, 0, 0, 9⟩, 24⟩]
  silent := false
  watchGateway := true
  checkInterval := 2000000000
  threshold := 1
  demotedPriority := 50

/-- The gateway answers once and then falls silent, and the traffic path goes down as well. -/
def bothDown : List Op :=
  [.tick ⟨[], [], .ok (), 0⟩,
    .tick ⟨[], [(⟨10, 0, 0, 254⟩, 1)], .ok (), 1⟩,
    .tick ⟨[], [], .ok (), 2000000000⟩,
    .tick ⟨[], [], .ok (), 4000000000⟩,
    .demote 4000000001]

/-- That node, just started. -/
def watched : Router :=
  (Router.opened watchedPlan ⟨2, []⟩
      (some (Router.openCheck watchedPlan (some (.v4 ⟨10, 0, 0, 254⟩)))) 0).carryOut .willing 0
    ((Machine.new watchedPlan.settings).start 0).2

/-- While both outages last the claim is the lowered one. -/
theorem lowered_while_both_down :
    Router.start .willing watchedPlan (.ok ⟨2, []⟩) (.ok (some (.v4 ⟨10, 0, 0, 254⟩))) 0
        = .ok watched ∧
      (Runs.run (step .willing) ⟨watched, none⟩ bothDown).Lowering ∧
      (Runs.run (step .willing) ⟨watched, none⟩ bothDown).router.machine.settings.priority = 50 := by
  have hstart : Router.start .willing watchedPlan (.ok ⟨2, []⟩)
    (.ok (some (.v4 ⟨10, 0, 0, 254⟩))) 0 = .ok watched := rfl
  have hnone : ¬ (none = some Claim.down) := by decide
  have hreason : (Runs.run (step .willing) ⟨watched, none⟩ bothDown).Lowering := .inr rfl
  refine ⟨hstart, hreason, (claim_lowered_for_every_reason hstart (by decide) ?_).1 hreason⟩
  exact ⟨fun _ h => absurd h hnone, fun _ h => absurd h hnone, fun _ h => absurd h hnone,
    fun _ h => absurd h hnone, trivial, trivial⟩

/-- The traffic path comes back while the gateway is lost, and the claim goes up with it. -/
theorem restored_while_gateway_lost :
    Router.start .willing watchedPlan (.ok ⟨2, []⟩) (.ok (some (.v4 ⟨10, 0, 0, 254⟩))) 0
        = .ok watched ∧
      (Runs.run (step .willing) ⟨watched, none⟩ (bothDown ++ [.restore 4000000002])).Lowering ∧
      (Runs.run (step .willing) ⟨watched, none⟩
        (bothDown ++ [.restore 4000000002])).router.machine.settings.priority ≠ 50 := by
  have hlost : (Runs.run (step .willing) ⟨watched, none⟩
      (bothDown ++ [.restore 4000000002])).router.Lost := by decide +kernel
  have hpriority : (Runs.run (step .willing) ⟨watched, none⟩
      (bothDown ++ [.restore 4000000002])).router.machine.settings.priority = 100 := by
    decide +kernel
  exact ⟨rfl, .inl hlost, by rw [hpriority]; decide⟩

end Supervised

end EkEk.Vrrp
