import EkEk.Lib.Runs
import EkEk.Vrrp.Carrier
import Mathlib.Algebra.Order.Ring.Nat

/-!
# One virtual router, driven a round at a time

Reference: `crates/ek-ek-vrrp/src/router.rs`.

`Router.carryOut` drains the actions of the machine from a queue that grows while it is drained: a
refused `takeAddresses` appends what the machine does when it stands down. `Router.done` keeps what
was asked of the kernel and what was handed to the transport, in that order, with the claim and the
state of the machine at that moment; the source writes the same things to its log.

A router is started once and then takes any number of `Op`s. Packets, echoes and the outcome of a
question to the gateway come in with the round that reads them, and the kernel's answers come from
the `Kernel`.
-/

namespace EkEk.Vrrp

/-- Everything one virtual router was asked to be. -/
structure Plan where
  settings : Settings
  carried : List Carried
  silent : Bool
  watchGateway : Bool
  checkInterval : Duration
  threshold : UInt32
  /-- What the claim is lowered to, one value for every reason a claim comes down. -/
  demotedPriority : UInt8

/-- The gateway check on this node, and the question it is waiting on. -/
structure Check where
  watch : Watch
  /-- The number of the last question, which the pinger keeps. -/
  sequence : UInt16
  waiting : Option UInt16
deriving DecidableEq, Repr

/-- One thing the router did that somebody outside it can see. -/
inductive Observed where
  | took (claim : UInt8) (answer : Except IoError Unit)
  | dropped (answer : Except IoError Unit)
  | sent (peer : Ipv4Addr) (advertisement : Advertisement) (bytes : List UInt8) (state : State)

/-- One running virtual router. -/
structure Router where
  machine : Machine
  carrier : Carrier
  checker : Option Check
  peers : List Ipv4Addr
  demotedPriority : UInt8
  /-- What the router has done so far, oldest first. -/
  done : List Observed

/-- What one round reads: the packets that arrived, the echoes the pinger collected, and whether a
question to the gateway could be sent. -/
structure Round where
  packets : List (Ipv4Addr × List UInt8)
  echoes : List (Ipv4Addr × UInt16)
  asked : Except IoError Unit
  now : Instant

/-- What is called on a router after it started. -/
inductive Op where
  | tick (round : Round)
  | demote (now : Instant)
  | restore (now : Instant)
  | stop (now : Instant)

namespace Machine

/-- Standing down asks for at most two things, and never for the addresses again. -/
theorem renounce_length (m : Machine) (now : Instant) :
    3 * (m.renounce now).2.countP (· = .takeAddresses) + (m.renounce now).2.length ≤ 2 := by
  unfold renounce
  split
  · exact Nat.zero_le _
  · exact le_of_eq rfl

/-- Nothing is asked for and the state is kept, or a master stands down. -/
inductive StandsDown (m m' : Machine) : List Action → Prop where
  | kept (hstate : m'.state = m.state) : StandsDown m m' []
  | stoodDown (transition : Transition) (hmaster : m.state = .master)
      (hbackup : m'.state = .backup) : StandsDown m m' [.record transition, .dropAddresses]

theorem StandsDown.trans {m m' m'' : Machine} {first second : List Action}
    (h : StandsDown m m' first) (h' : StandsDown m' m'' second) :
    StandsDown m m'' (first ++ second) := by
  cases h with
  | kept hstate =>
    cases h' with
    | kept hstate' => exact .kept (hstate'.trans hstate)
    | stoodDown transition hmaster hbackup =>
      exact .stoodDown transition (hstate.symm.trans hmaster) hbackup
  | stoodDown transition hmaster hbackup =>
    cases h' with
    | kept hstate' => exact .stoodDown transition hmaster (hstate'.trans hbackup)
    | stoodDown _ hmaster' _ => exact State.noConfusion (hmaster'.symm.trans hbackup)

theorem demote_standsDown (m : Machine) (target : UInt8) (now : Instant) :
    StandsDown m (m.demote target now).1 (m.demote target now).2 := by
  unfold demote
  split
  · exact .kept rfl
  · dsimp only
    split
    · exact .kept rfl
    · rename_i hmaster
      exact .stoodDown _ (not_not.mp hmaster) rfl

theorem restore_standsDown (m : Machine) (now : Instant) :
    StandsDown m (m.restore now).1 (m.restore now).2 := .kept rfl

end Machine

namespace Router

/-- Write down what was done. -/
def observe (r : Router) (what : List Observed) : Router := { r with done := r.done ++ what }

/-- Hand an advertisement to the transport, encoded once per peer. -/
def advertise (r : Router) (advertisement : Advertisement) : Router :=
  r.observe <| r.peers.map fun peer =>
    .sent peer advertisement (advertisement.encode r.machine.settings.address peer) r.machine.state

/-- Ask the kernel for the addresses. -/
def take (kernel : Kernel) (now : Instant) (r : Router) : Router × Except IoError Unit :=
  let taken := r.carrier.take kernel now
  ({ r with carrier := taken.1 }.observe [.took r.machine.settings.priority taken.2], taken.2)

/-- Ask the kernel to take the addresses off. -/
def dropAll (kernel : Kernel) (r : Router) : Router :=
  let dropped := r.carrier.dropAll kernel
  { r with carrier := dropped.1 }.observe [.dropped dropped.2]

/-- Do what the machine asked for. -/
def carryOut (kernel : Kernel) (now : Instant) (r : Router) : List Action → Router
  | [] => r
  | .advertise advertisement :: queue => carryOut kernel now (r.advertise advertisement) queue
  | .record _ :: queue => carryOut kernel now r queue
  | .takeAddresses :: queue =>
    match r.take kernel now with
    | (taken, .ok ()) => carryOut kernel now taken queue
    | (taken, .error _) =>
      -- A master without its addresses stands down, behind whatever is already queued.
      carryOut kernel now { taken with machine := (taken.machine.renounce now).1 }
        (queue ++ (taken.machine.renounce now).2)
  | .dropAddresses :: queue => carryOut kernel now (r.dropAll kernel) queue
termination_by queue => 3 * queue.countP (· = .takeAddresses) + queue.length
decreasing_by
  all_goals
    simp only [List.countP_cons, List.countP_append, List.length_cons, List.length_append,
      decide_true, if_true, reduceCtorEq, decide_false, Bool.false_eq_true, if_false]
  · omega
  · omega
  · omega
  · have := taken.machine.renounce_length now
    omega
  · omega

end Router

namespace Check

/-- Read the answers that arrived, and say whether one of them ended a lost gateway. -/
def collect (check : Check) : List (Ipv4Addr × UInt16) → Check × Bool
  | [] => (check, false)
  | (sender, sequence) :: rest =>
    if check.watch.gateway ≠ some (.v4 sender) then check.collect rest
    else if check.waiting ≠ some sequence then check.collect rest
    else
      let answered := check.watch.answered
      let later := { check with watch := answered.1, waiting := none }.collect rest
      (later.1, (answered.2 == some .restore) || later.2)

end Check

namespace Router

/-- Count one question nobody answered, and act when that is enough. -/
def noteMissed (r : Router) (now : Instant) : Router × List Action :=
  match r.checker with
  | none => (r, [])
  | some check =>
    let missed := check.watch.missed
    let counted := { r with checker := some { check with watch := missed.1 } }
    if missed.2 ≠ some .demote then (counted, [])
    else
      let demoted := counted.machine.demote counted.demotedPriority now
      ({ counted with machine := demoted.1 }, demoted.2)

/-- Read what the gateway answered, and put the claim back when it ended a lost gateway. -/
def readAnswers (r : Router) (check : Check) (echoes : List (Ipv4Addr × UInt16)) (now : Instant) :
    Router × List Action :=
  let collected := check.collect echoes
  let heard := { r with checker := some collected.1 }
  if collected.2 then
    let restored := heard.machine.restore now
    ({ heard with machine := restored.1 }, restored.2)
  else (heard, [])

/-- The question before this one was never answered. -/
def missWaiting (r : Router) (check : Check) (now : Instant) : Router × List Action :=
  let cleared := { r with checker := some { check with waiting := none } }
  if check.waiting.isSome then cleared.noteMissed now else (cleared, [])

/-- Send the next question. One that could not even be sent is one with no answer. -/
def ask (r : Router) (asked : Except IoError Unit) (now : Instant) : Router × List Action :=
  match r.checker with
  | none => (r, [])
  | some check =>
    let sequence := check.sequence + 1
    match asked with
    | .ok () =>
      ({ r with checker := some { check with sequence := sequence, waiting := some sequence } }, [])
    | .error _ =>
      { r with checker := some { check with sequence := sequence } }.noteMissed now

/-- Ask the gateway when a question is due. An IPv6 default route is somebody else's question. -/
def askWhenDue (r : Router) (round : Round) : Router × List Action :=
  match r.checker with
  | none => (r, [])
  | some check =>
    let due := check.watch.due round.now
    match due.2 with
    | none => ({ r with checker := some { check with watch := due.1 } }, [])
    | some gateway =>
      let missed := r.missWaiting { check with watch := due.1 } round.now
      match gateway with
      | .v6 _ => missed
      | .v4 _ =>
        let asked := missed.1.ask round.asked round.now
        (asked.1, missed.2 ++ asked.2)

/-- Ask the gateway, read what came back, and act on the count. -/
def checkGateway (r : Router) (round : Round) : Router × List Action :=
  match r.checker with
  | none => (r, [])
  | some check =>
    let answered := r.readAnswers check round.echoes round.now
    let asked := answered.1.askWhenDue round
    (asked.1, answered.2 ++ asked.2)

/-- Let the machine hear one packet, and do what it asks for. -/
def hear (kernel : Kernel) (now : Instant) (r : Router) (packet : Ipv4Addr × List UInt8) : Router :=
  let heard := r.machine.receive packet.1 packet.2 now
  { r with machine := heard.1 }.carryOut kernel now heard.2

/-- Run the machine's timers. -/
def runTimers (kernel : Kernel) (now : Instant) (r : Router) : Router :=
  let ticked := r.machine.tick now
  { r with machine := ticked.1 }.carryOut kernel now ticked.2

/-- Run the gateway check, on a router that has one. -/
def runCheck (kernel : Kernel) (round : Round) (r : Router) : Router :=
  if r.checker.isSome then
    (r.checkGateway round).1.carryOut kernel round.now (r.checkGateway round).2
  else r

/-- Do one round: read what arrived, run the timers, ask the gateway, announce. -/
def tick (kernel : Kernel) (r : Router) (round : Round) : Router :=
  let heard := round.packets.foldl (hear kernel round.now) r
  let checked := (heard.runTimers kernel round.now).runCheck kernel round
  { checked with carrier := (checked.carrier.tick kernel round.now).1 }

/-- Lower this node's claim for a reason from outside the router. -/
def demote (kernel : Kernel) (r : Router) (now : Instant) : Router :=
  if r.machine.settings.priority = r.demotedPriority then r
  else
    let demoted := r.machine.demote r.demotedPriority now
    { r with machine := demoted.1 }.carryOut kernel now demoted.2

/-- Put the claim back where the configuration had it. -/
def restore (kernel : Kernel) (r : Router) (now : Instant) : Router :=
  if r.machine.settings.priority = r.machine.configured then r
  else
    let restored := r.machine.restore now
    { r with machine := restored.1 }.carryOut kernel now restored.2

/-- Give the addresses up, for a node that is stopping on purpose. -/
def stop (kernel : Kernel) (r : Router) (now : Instant) : Router :=
  let stopped := r.machine.stop now
  { r with machine := stopped.1 }.carryOut kernel now stopped.2

/-- The check on the gateway the machine's default route names. -/
def openCheck (plan : Plan) (gateway : Option IpAddr) : Check where
  watch := .new gateway plan.checkInterval plan.threshold
  sequence := 0
  waiting := none

/-- A router whose machine has started, before anything it asked for is done. -/
def opened (plan : Plan) (interface : Interface) (checker : Option Check) (now : Instant) :
    Router where
  machine := ((Machine.new plan.settings).start now).1
  carrier := {
    interface := interface
    addresses := plan.carried
    due := none
    silent := plan.silent
    asked := 0 }
  checker := checker
  peers := plan.settings.peers
  demotedPriority := plan.demotedPriority
  done := []

/-- Open the gateway check, when the plan asks for one. -/
def openChecker (plan : Plan) (gateway : Except IoError (Option IpAddr)) :
    Except IoError (Option Check) :=
  if plan.watchGateway then gateway.map fun way => some (openCheck plan way) else .ok none

/-- Open the addresses and the gateway check, and start the machine. The two arguments after the
plan are what reading the interface and the default route came to. -/
def start (kernel : Kernel) (plan : Plan) (interface : Except IoError Interface)
    (gateway : Except IoError (Option IpAddr)) (now : Instant) : Except IoError Router :=
  match interface, openChecker plan gateway with
  | .error error, _ => .error error
  | .ok _, .error error => .error error
  | .ok found, .ok checker => .ok ((opened plan found checker now).carryOut kernel now
      ((Machine.new plan.settings).start now).2)

/-- One call on a running router. -/
def step (kernel : Kernel) (r : Router) : Op → Router
  | .tick round => r.tick kernel round
  | .demote now => r.demote kernel now
  | .restore now => r.restore kernel now
  | .stop now => r.stop kernel now

/-! ## What carrying actions out leaves alone -/

/-- What no action touches: the settings of the machine, and everything of the router but its
carrier and what it has done. -/
structure Keeps (r r' : Router) : Prop where
  settings : r'.machine.settings = r.machine.settings
  configured : r'.machine.configured = r.machine.configured
  checker : r'.checker = r.checker
  peers : r'.peers = r.peers
  demotedPriority : r'.demotedPriority = r.demotedPriority

theorem Keeps.refl (r : Router) : Keeps r r := ⟨rfl, rfl, rfl, rfl, rfl⟩

theorem Keeps.trans {r r' r'' : Router} (h : Keeps r r') (h' : Keeps r' r'') : Keeps r r'' :=
  ⟨h'.settings.trans h.settings, h'.configured.trans h.configured, h'.checker.trans h.checker,
    h'.peers.trans h.peers, h'.demotedPriority.trans h.demotedPriority⟩

theorem advertise_keeps (r : Router) (advertisement : Advertisement) :
    Keeps r (r.advertise advertisement) := ⟨rfl, rfl, rfl, rfl, rfl⟩

theorem dropAll_keeps (kernel : Kernel) (r : Router) : Keeps r (r.dropAll kernel) :=
  ⟨rfl, rfl, rfl, rfl, rfl⟩

theorem take_keeps {kernel : Kernel} {now : Instant} {r taken : Router}
    {answer : Except IoError Unit} (h : r.take kernel now = (taken, answer)) : Keeps r taken := by
  obtain ⟨rfl, -⟩ := Prod.mk.inj h
  exact ⟨rfl, rfl, rfl, rfl, rfl⟩

theorem renounce_keeps (r : Router) (now : Instant) :
    Keeps r { r with machine := (r.machine.renounce now).1 } := by
  unfold Machine.renounce
  split <;> exact ⟨rfl, rfl, rfl, rfl, rfl⟩

theorem carryOut_keeps (kernel : Kernel) (now : Instant) (r : Router) (queue : List Action) :
    Keeps r (r.carryOut kernel now queue) := by
  induction r, queue using carryOut.induct kernel now with
  | case1 r =>
    rw [carryOut]
    exact .refl r
  | case2 r advertisement queue ih =>
    rw [carryOut]
    exact (r.advertise_keeps advertisement).trans ih
  | case3 r transition queue ih =>
    rw [carryOut]
    exact ih
  | case4 r queue taken htake ih =>
    rw [carryOut, htake]
    exact (take_keeps htake).trans ih
  | case5 r queue taken error htake ih =>
    rw [carryOut, htake]
    exact ((take_keeps htake).trans (taken.renounce_keeps now)).trans ih
  | case6 r queue ih =>
    rw [carryOut]
    exact (r.dropAll_keeps kernel).trans ih

/-! ## What the gateway check can do -/

/-- What the gateway check does to a router: it moves on its own state and the machine, and all it
can ask for is that the node stands down. -/
structure Lowers (r : Router) (result : Router × List Action) : Prop where
  frame : ∃ checker, result.1 = { r with checker := checker, machine := result.1.machine }
  configured : result.1.machine.configured = r.machine.configured
  asks : r.machine.StandsDown result.1.machine result.2

theorem Lowers.trans {r : Router} {first second : Router × List Action}
    (h : r.Lowers first) (h' : first.1.Lowers second) :
    r.Lowers (second.1, first.2 ++ second.2) := by
  obtain ⟨checker, hframe⟩ := h.frame
  obtain ⟨checker', hframe'⟩ := h'.frame
  refine ⟨⟨checker', ?_⟩, h'.configured.trans h.configured, h.asks.trans h'.asks⟩
  rw [hframe', hframe]

theorem lowers_checker (r : Router) (checker : Option Check) :
    r.Lowers ({ r with checker := checker }, []) :=
  ⟨⟨checker, rfl⟩, rfl, .kept rfl⟩

theorem Lowers.checked {r : Router} {checker : Option Check} {result : Router × List Action}
    (h : { r with checker := checker }.Lowers result) : r.Lowers result :=
  (r.lowers_checker checker).trans h

theorem noteMissed_lowers (r : Router) (now : Instant) : r.Lowers (r.noteMissed now) := by
  unfold noteMissed
  split
  · exact ⟨⟨r.checker, rfl⟩, rfl, .kept rfl⟩
  · dsimp only
    split
    · exact r.lowers_checker _
    · exact ⟨⟨_, rfl⟩, (r.machine.demote_priority _ now).2, r.machine.demote_standsDown _ now⟩

theorem readAnswers_lowers (r : Router) (check : Check) (echoes : List (Ipv4Addr × UInt16))
    (now : Instant) : r.Lowers (r.readAnswers check echoes now) := by
  unfold readAnswers
  dsimp only
  split
  · exact ⟨⟨_, rfl⟩, rfl, r.machine.restore_standsDown now⟩
  · exact r.lowers_checker _

theorem missWaiting_lowers (r : Router) (check : Check) (now : Instant) :
    r.Lowers (r.missWaiting check now) := by
  unfold missWaiting
  dsimp only
  split
  · exact (noteMissed_lowers _ now).checked
  · exact r.lowers_checker _

theorem ask_lowers (r : Router) (asked : Except IoError Unit) (now : Instant) :
    r.Lowers (r.ask asked now) := by
  unfold ask
  split
  · exact ⟨⟨r.checker, rfl⟩, rfl, .kept rfl⟩
  · dsimp only
    split
    · exact r.lowers_checker _
    · exact (noteMissed_lowers _ now).checked

theorem askWhenDue_lowers (r : Router) (round : Round) : r.Lowers (r.askWhenDue round) := by
  unfold askWhenDue
  split
  · exact ⟨⟨r.checker, rfl⟩, rfl, .kept rfl⟩
  · dsimp only
    split
    · exact r.lowers_checker _
    · split
      · exact missWaiting_lowers r _ _
      · exact (missWaiting_lowers r _ _).trans (ask_lowers _ _ _)

theorem checkGateway_lowers (r : Router) (round : Round) : r.Lowers (r.checkGateway round) := by
  unfold checkGateway
  split
  · exact ⟨⟨r.checker, rfl⟩, rfl, .kept rfl⟩
  · exact (readAnswers_lowers r _ _ _).trans (askWhenDue_lowers _ round)

/-! ## What no call changes -/

/-- The peers and the two values the claim can take. -/
structure Fixed (r r' : Router) : Prop where
  configured : r'.machine.configured = r.machine.configured
  peers : r'.peers = r.peers
  demotedPriority : r'.demotedPriority = r.demotedPriority

theorem Keeps.fixed {r r' : Router} (h : Keeps r r') : Fixed r r' :=
  ⟨h.configured, h.peers, h.demotedPriority⟩

theorem Fixed.trans {r r' r'' : Router} (h : Fixed r r') (h' : Fixed r' r'') : Fixed r r'' :=
  ⟨h'.configured.trans h.configured, h'.peers.trans h.peers,
    h'.demotedPriority.trans h.demotedPriority⟩

theorem Fixed.carryOut {r r' : Router} (h : Fixed r r') (kernel : Kernel) (now : Instant)
    (queue : List Action) : Fixed r (r'.carryOut kernel now queue) :=
  h.trans (carryOut_keeps kernel now r' queue).fixed

/-- Hearing a packet and running the timers touch neither the claim nor the check. -/
theorem hear_keeps (kernel : Kernel) (now : Instant) (r : Router)
    (packet : Ipv4Addr × List UInt8) : Keeps r (r.hear kernel now packet) := by
  obtain ⟨hsettings, hconfigured⟩ := r.machine.receive_settings packet.1 packet.2 now
  have hheard : Keeps r { r with machine := (r.machine.receive packet.1 packet.2 now).1 } :=
    ⟨hsettings, hconfigured, rfl, rfl, rfl⟩
  exact hheard.trans (carryOut_keeps kernel now _ _)

theorem hears_keeps (kernel : Kernel) (now : Instant) (r : Router)
    (packets : List (Ipv4Addr × List UInt8)) :
    Keeps r (packets.foldl (hear kernel now) r) :=
  Runs.run_inv (fun s packet hs => hs.trans (hear_keeps kernel now s packet)) (.refl r) packets

theorem runTimers_keeps (kernel : Kernel) (now : Instant) (r : Router) :
    Keeps r (r.runTimers kernel now) := by
  obtain ⟨hsettings, hconfigured⟩ := r.machine.tick_settings now
  have hticked : Keeps r { r with machine := (r.machine.tick now).1 } :=
    ⟨hsettings, hconfigured, rfl, rfl, rfl⟩
  exact hticked.trans (carryOut_keeps kernel now _ _)

theorem runCheck_fixed (kernel : Kernel) (round : Round) (r : Router) :
    Fixed r (r.runCheck kernel round) := by
  unfold runCheck
  split
  · obtain ⟨⟨checker, hframe⟩, hconfigured, _⟩ := r.checkGateway_lowers round
    rw [hframe]
    refine Fixed.carryOut ?_ kernel round.now _
    exact ⟨hconfigured, rfl, rfl⟩
  · exact (Keeps.refl r).fixed

theorem step_fixed (kernel : Kernel) (r : Router) (op : Op) : Fixed r (r.step kernel op) := by
  cases op with
  | tick round =>
    have hkeeps := (hears_keeps kernel round.now r round.packets).trans
      (runTimers_keeps kernel round.now _)
    obtain ⟨hconfigured, hpeers, hdemoted⟩ := hkeeps.fixed.trans (runCheck_fixed kernel round _)
    exact ⟨hconfigured, hpeers, hdemoted⟩
  | demote now =>
    simp only [step, demote]
    split
    · exact (Keeps.refl r).fixed
    · refine Fixed.carryOut ?_ kernel now _
      exact ⟨(r.machine.demote_priority _ now).2, rfl, rfl⟩
  | restore now =>
    simp only [step, restore]
    split
    · exact (Keeps.refl r).fixed
    · refine Fixed.carryOut ?_ kernel now _
      exact ⟨rfl, rfl, rfl⟩
  | stop now =>
    refine Fixed.carryOut ?_ kernel now _
    exact ⟨rfl, rfl, rfl⟩

/-- A router that started is one that was opened, with its first actions carried out. -/
theorem start_eq {kernel : Kernel} {plan : Plan} {interface : Except IoError Interface}
    {gateway : Except IoError (Option IpAddr)} {now : Instant} {r : Router}
    (h : start kernel plan interface gateway now = .ok r) :
    ∃ found checker, openChecker plan gateway = .ok checker ∧
      r = (opened plan found checker now).carryOut kernel now
        ((Machine.new plan.settings).start now).2 := by
  unfold start at h
  split at h
  · cases h
  · cases h
  · rename_i found checker hchecker
    exact ⟨found, checker, hchecker, (Except.ok.inj h).symm⟩

/-- The check a router starts with has just been opened. -/
theorem openChecker_eq {plan : Plan} {gateway : Except IoError (Option IpAddr)}
    {checker : Option Check} (h : openChecker plan gateway = .ok checker) {check : Check}
    (hcheck : check ∈ checker) : ∃ way, check = openCheck plan way := by
  unfold openChecker at h
  split at h
  · cases gateway with
    | error error => cases h
    | ok way =>
      obtain rfl := Except.ok.inj h
      exact ⟨way, (Option.some.inj hcheck).symm⟩
  · obtain rfl := Except.ok.inj h
    exact absurd hcheck (Option.not_mem_none _)

end Router

end EkEk.Vrrp
