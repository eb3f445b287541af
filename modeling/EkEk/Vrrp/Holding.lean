import EkEk.Vrrp.Router

/-!
# A claim is only advertised by the node that holds the addresses

Reference: `crates/ek-ek-vrrp/src/router.rs`, `crates/ek-ek-vrrp/src/state.rs`.

`Machine.Asks` lists what the machine can ask for at once, and each of its methods is one of these.
`Router.Sound` is the invariant of a run: a master holds its addresses, and the advertisements so
far kept the rule exactly when no take was refused. A refused take breaks the rule on the spot,
because standing down is queued behind the advertisement that the take was to come before.
-/

namespace EkEk.Vrrp

/-! ## What the machine can ask for -/

namespace Machine

/-- Everything the machine asks for at once. -/
inductive Asks (m m' : Machine) : List Action → Prop where
  | standsDown {actions : List Action} (h : StandsDown m m' actions) : Asks m m' actions
  | claims (advertisement : Advertisement) (hbefore : m.state = .master)
      (hafter : m'.state = .master) : Asks m m' [.advertise advertisement]
  | takesOver (transition : Transition) (hafter : m'.state = .master) :
      Asks m m' [.record transition, .takeAddresses,
        .advertise (m'.advertisement m'.settings.priority)]
  | stops (farewell : List Action) (transition : Transition) (hafter : m'.state = .initialise)
      (hfarewell : farewell = [] ∨ farewell = [.advertise (m.advertisement givingUp)]) :
      Asks m m' (farewell ++ [.dropAddresses, .record transition])

theorem stop_asks (m : Machine) (now : Instant) : Asks m (m.stop now).1 (m.stop now).2 := by
  unfold stop
  split
  · exact .stops _ _ rfl (.inr rfl)
  · exact .stops _ _ rfl (.inl rfl)

theorem tick_asks (m : Machine) (now : Instant) : Asks m (m.tick now).1 (m.tick now).2 := by
  unfold tick
  split
  · rename_i hmaster
    split
    · exact .claims _ hmaster hmaster
    · exact .standsDown (.kept rfl)
  · split
    · exact .takesOver _ rfl
    · exact .standsDown (.kept rfl)
  · exact .standsDown (.kept rfl)

theorem heard_asks (m : Machine) (sender : Ipv4Addr) (advertisement : Advertisement)
    (now : Instant) :
    Asks m (m.heard sender advertisement now).1 (m.heard sender advertisement now).2 := by
  unfold heard
  split
  · rename_i hmaster
    unfold masterHeard
    split_ifs
    · exact .claims _ hmaster hmaster
    · exact .standsDown (.stoodDown _ hmaster rfl)
    · exact .standsDown (.kept rfl)
  · unfold backupHeard
    split_ifs <;> exact .standsDown (.kept rfl)
  · exact .standsDown (.kept rfl)

/-- `Asks` looks at the state before and at nothing else there. -/
theorem Asks.of_state {m m₁ m' : Machine} {actions : List Action} (h : Asks m m' actions)
    (hstate : m.state = m₁.state) (hsettings : m.settings = m₁.settings) :
    Asks m₁ m' actions := by
  cases h with
  | standsDown h =>
    cases h with
    | kept hkept => exact .standsDown (.kept (hkept.trans hstate))
    | stoodDown transition hmaster hbackup =>
      exact .standsDown (.stoodDown transition (hstate.symm.trans hmaster) hbackup)
  | claims advertisement hbefore hafter =>
    exact .claims advertisement (hstate.symm.trans hbefore) hafter
  | takesOver transition hafter => exact .takesOver transition hafter
  | stops farewell transition hafter hfarewell =>
    refine .stops farewell transition hafter ?_
    rwa [show m₁.advertisement givingUp = m.advertisement givingUp by
      unfold advertisement; rw [hsettings]]

theorem receive_asks (m : Machine) (sender : Ipv4Addr) (bytes : List UInt8) (now : Instant) :
    Asks m (m.receive sender bytes now).1 (m.receive sender bytes now).2 := by
  rcases m.receive_cases sender bytes now with hdropped | ⟨advertisement, _, _, _, hheard⟩
  · rw [hdropped]
    exact .standsDown (.kept rfl)
  · rw [hheard]
    exact (heard_asks { m with accepted := m.accepted + 1 } sender advertisement now).of_state
      rfl rfl

end Machine

/-! ## The rule, and what one observation does to it -/

/-- Whether the most recent take succeeded with no drop since. -/
def holding (done : List Observed) : Bool :=
  done.foldl (fun held what =>
    match what with
    | .took _ answer => answer.isOk
    | .dropped _ => false
    | .sent _ _ _ _ => held) false

/-- A claim was handed to the transport only by a master whose addresses were held. -/
def OnlyHolding (done : List Observed) : Prop :=
  ∀ before peer advertisement bytes state after,
    done = before ++ .sent peer advertisement bytes state :: after →
    advertisement.priority ≠ givingUp → state = .master ∧ holding before = true

/-- No take was refused by the kernel, unless nobody could hear about it: the claim was zero, or the
router has no peers. -/
def Unrefused (peers : List Ipv4Addr) (done : List Observed) : Prop :=
  ∀ claim error, .took claim (.error error) ∈ done → claim = givingUp ∨ peers = []

theorem holding_snoc (done : List Observed) (what : Observed) :
    holding (done ++ [what]) =
      match what with
      | .took _ answer => answer.isOk
      | .dropped _ => false
      | .sent _ _ _ _ => holding done := by
  rw [holding, List.foldl_append]
  cases what <;> rfl

theorem onlyHolding_nil : OnlyHolding [] := by
  intro before peer advertisement bytes state after hsplit
  exact absurd hsplit.symm (List.append_ne_nil_of_right_ne_nil _ (List.cons_ne_nil _ _))

theorem onlyHolding_snoc {done : List Observed} {what : Observed} :
    OnlyHolding (done ++ [what]) ↔ OnlyHolding done ∧
      ∀ peer advertisement bytes state, what = .sent peer advertisement bytes state →
        advertisement.priority ≠ givingUp → state = .master ∧ holding done = true := by
  constructor
  · intro h
    refine ⟨?_, ?_⟩
    · intro before peer advertisement bytes state after hsplit
      exact h before peer advertisement bytes state (after ++ [what])
        (by rw [hsplit, List.append_assoc, List.cons_append])
    · intro peer advertisement bytes state hwhat
      exact h done peer advertisement bytes state [] (by rw [hwhat])
  · rintro ⟨hdone, hlast⟩ before peer advertisement bytes state after hsplit
    rcases List.eq_nil_or_concat after with rfl | ⟨rest, last, rfl⟩
    · obtain ⟨rfl, hwhat⟩ := List.append_inj' hsplit rfl
      exact hlast peer advertisement bytes state (List.singleton_inj.mp hwhat)
    · have hsplit' : done ++ [what]
          = (before ++ .sent peer advertisement bytes state :: rest) ++ [last] := by
        rw [hsplit, List.concat_eq_append, List.append_assoc, List.cons_append]
      exact hdone before peer advertisement bytes state rest (List.append_inj' hsplit' rfl).1

theorem unrefused_snoc {peers : List Ipv4Addr} {done : List Observed} {what : Observed} :
    Unrefused peers (done ++ [what]) ↔ Unrefused peers done ∧
      ∀ claim error, what = .took claim (.error error) → claim = givingUp ∨ peers = [] := by
  simp only [Unrefused, List.mem_append, List.mem_singleton, or_imp, forall_and, eq_comm]

theorem sends_rule (peers others : List Ipv4Addr) (done : List Observed)
    (advertisement : Advertisement) (bytes : Ipv4Addr → List UInt8) (state : State) :
    let sent := done ++ others.map fun peer => .sent peer advertisement (bytes peer) state
    holding sent = holding done ∧ (Unrefused peers sent ↔ Unrefused peers done) ∧
      (OnlyHolding sent ↔ OnlyHolding done ∧
        (others ≠ [] → advertisement.priority ≠ givingUp →
          state = .master ∧ holding done = true)) := by
  induction others generalizing done with
  | nil => simp
  | cons peer rest ih =>
    obtain ⟨hheld, hrefused, hrule⟩ := ih (done ++ [.sent peer advertisement (bytes peer) state])
    simp only [List.map_cons]
    rw [List.append_cons, hheld, hrefused, hrule, holding_snoc, unrefused_snoc, onlyHolding_snoc]
    refine ⟨rfl, ?_, ?_, ?_⟩
    · exact and_iff_left fun _ _ hwhat => Observed.noConfusion hwhat
    · rintro ⟨⟨hdone, hfirst⟩, _⟩
      exact ⟨hdone, fun _ => hfirst peer advertisement _ state rfl⟩
    · rintro ⟨hdone, hall⟩
      have hclaim := hall (List.cons_ne_nil _ _)
      refine ⟨⟨hdone, ?_⟩, fun _ => hclaim⟩
      rintro _ _ _ _ ⟨⟩
      exact hclaim

namespace Router

/-- What a router keeps true between two actions: a master holds its addresses, and the rule was
kept exactly as long as no take was refused. -/
structure Sound (r : Router) : Prop where
  holds : r.machine.state = .master → holding r.done = true
  rule : OnlyHolding r.done ↔ Unrefused r.peers r.done

/-- Sends leave what is held alone, and keep the rule exactly when a master that holds its
addresses made them, or they claim nothing. -/
theorem advertise_rule (r : Router) (advertisement : Advertisement) :
    holding (r.advertise advertisement).done = holding r.done ∧
      (Unrefused r.peers (r.advertise advertisement).done ↔ Unrefused r.peers r.done) ∧
      (OnlyHolding (r.advertise advertisement).done ↔ OnlyHolding r.done ∧
        (r.peers ≠ [] → advertisement.priority ≠ givingUp →
          r.machine.state = .master ∧ holding r.done = true)) :=
  sends_rule _ _ _ _ _ _

/-- Dropping leaves nothing held and does not touch the rule. -/
theorem dropAll_rule (kernel : Kernel) (r : Router) :
    holding (r.dropAll kernel).done = false ∧
      (Unrefused r.peers (r.dropAll kernel).done ↔ Unrefused r.peers r.done) ∧
      (OnlyHolding (r.dropAll kernel).done ↔ OnlyHolding r.done) := by
  refine ⟨holding_snoc _ _, unrefused_snoc.trans ?_, onlyHolding_snoc.trans ?_⟩
  · exact and_iff_left fun _ _ hwhat => nomatch hwhat
  · exact and_iff_left fun _ _ _ _ hwhat => nomatch hwhat

/-- A take holds what the kernel gave, and does not touch the rule unless it was refused. -/
theorem take_rule (kernel : Kernel) (now : Instant) (r : Router) :
    holding (r.take kernel now).1.done = (r.take kernel now).2.isOk ∧
      (Unrefused r.peers (r.take kernel now).1.done ↔ Unrefused r.peers r.done ∧
        ∀ error, (r.take kernel now).2 = .error error →
          r.machine.settings.priority = givingUp ∨ r.peers = []) ∧
      (OnlyHolding (r.take kernel now).1.done ↔ OnlyHolding r.done) := by
  refine ⟨holding_snoc _ _, unrefused_snoc.trans ?_, onlyHolding_snoc.trans ?_⟩
  · refine and_congr_right fun _ => ⟨fun h error herror => h _ error (congrArg _ herror), ?_⟩
    intro h claim error hwhat
    obtain ⟨rfl, hanswer⟩ := Observed.took.inj hwhat
    exact h error hanswer
  · exact and_iff_left fun _ _ _ _ hwhat => nomatch hwhat

/-- The queue of a takeover when the kernel gives the addresses. -/
theorem carryOut_granted {kernel : Kernel} {now : Instant} {r taken : Router}
    (htake : r.take kernel now = (taken, .ok ())) (transition : Transition)
    (advertisement : Advertisement) :
    r.carryOut kernel now [.record transition, .takeAddresses, .advertise advertisement]
      = taken.advertise advertisement := by
  simp only [carryOut, htake]

/-- The queue of a takeover when the kernel refuses: the machine is a backup by the time the claim
goes out, and the drop comes last. -/
theorem carryOut_refused {kernel : Kernel} {now : Instant} {r taken : Router} {error : IoError}
    (htake : r.take kernel now = (taken, .error error)) (hmaster : taken.machine.state = .master)
    (transition : Transition) (advertisement : Advertisement) :
    r.carryOut kernel now [.record transition, .takeAddresses, .advertise advertisement]
      = ({ taken with machine := (taken.machine.becomeBackup now .addressRefused).1 }.advertise
          advertisement).dropAll kernel := by
  have hrenounce : taken.machine.renounce now = taken.machine.becomeBackup now .addressRefused :=
    if_neg (not_not.mpr hmaster)
  simp only [carryOut, htake, hrenounce, List.singleton_append, Machine.becomeBackup]

/-- A takeover ends sound, whatever the kernel answers: either the addresses are held by the time
the claim goes out, or the take was refused and the claim that follows it breaks the rule. -/
theorem carryOut_takesOver (kernel : Kernel) (now : Instant) {r : Router}
    (hmaster : r.machine.state = .master) (hrule : OnlyHolding r.done ↔ Unrefused r.peers r.done)
    (transition : Transition) :
    (r.carryOut kernel now [.record transition, .takeAddresses,
      .advertise (r.machine.advertisement r.machine.settings.priority)]).Sound := by
  obtain ⟨hheld, hrefused, honly⟩ := r.take_rule kernel now
  have hmachine : (r.take kernel now).1.machine = r.machine := rfl
  have hpeers : (r.take kernel now).1.peers = r.peers := rfl
  cases htake : r.take kernel now with
  | mk taken answer =>
    rw [htake] at hheld hrefused honly hmachine hpeers
    cases answer with
    | ok _ =>
      rw [carryOut_granted htake]
      obtain ⟨hkept, hsame, hsent⟩ := taken.advertise_rule
        (r.machine.advertisement r.machine.settings.priority)
      refine ⟨fun _ => hkept.trans hheld, ?_⟩
      rw [show (taken.advertise _).peers = taken.peers from rfl, hsame, hpeers, hrefused, hsent,
        honly, hrule]
      refine and_congr_right fun _ => iff_of_true ?_ ?_
      · intro _ _
        exact ⟨(congrArg Machine.state hmachine).trans hmaster, hheld⟩
      · rintro error ⟨⟩
    | error error =>
      rw [carryOut_refused htake ((congrArg Machine.state hmachine).trans hmaster)]
      set backup : Router :=
        { taken with machine := (taken.machine.becomeBackup now .addressRefused).1 }
      obtain ⟨_, hsame, hsent⟩ := backup.advertise_rule
        (r.machine.advertisement r.machine.settings.priority)
      obtain ⟨_, hsame', hdropped⟩ := (backup.advertise
        (r.machine.advertisement r.machine.settings.priority)).dropAll_rule kernel
      refine ⟨fun hstate => State.noConfusion hstate, ?_⟩
      refine Iff.trans ?_ (hsame'.trans hsame).symm
      rw [hdropped, hsent, show backup.peers = r.peers from hpeers,
        show backup.done = taken.done from rfl, hrefused, honly, hrule]
      refine and_congr_right fun _ => ⟨fun hclaim _ _ => ?_, fun h hsome hclaim => ?_⟩
      · by_contra hnot
        rw [not_or] at hnot
        exact State.noConfusion (hclaim hnot.2 hnot.1).1
      · exact absurd (h error rfl) (not_or.mpr ⟨hclaim, hsome⟩)

/-- A node that is not master may drop its addresses. -/
theorem dropAll_sound (kernel : Kernel) {r : Router} (hstate : r.machine.state ≠ .master)
    (hrule : OnlyHolding r.done ↔ Unrefused r.peers r.done) : (r.dropAll kernel).Sound := by
  obtain ⟨_, hsame, honly⟩ := r.dropAll_rule kernel
  exact ⟨fun hmaster => absurd hmaster hstate, honly.trans (hrule.trans hsame.symm)⟩

/-- Standing down keeps a router sound, and so does asking for nothing. -/
theorem Sound.standsDown {r : Router} (h : r.Sound) {m : Machine} {actions : List Action}
    (hasks : r.machine.StandsDown m actions) (kernel : Kernel) (now : Instant) :
    ({ r with machine := m }.carryOut kernel now actions).Sound := by
  cases hasks with
  | kept hstate =>
    simp only [carryOut]
    exact ⟨fun hmaster => h.holds (hstate.symm.trans hmaster), h.rule⟩
  | stoodDown transition hmaster hbackup =>
    simp only [carryOut]
    refine dropAll_sound kernel ?_ h.rule
    exact fun hstate => State.noConfusion (hbackup.symm.trans hstate)

/-- Whatever the machine asks for, carrying it out keeps the router sound. -/
theorem Sound.carryOut {r : Router} (h : r.Sound) {m : Machine} {actions : List Action}
    (hasks : r.machine.Asks m actions) (kernel : Kernel) (now : Instant) :
    ({ r with machine := m }.carryOut kernel now actions).Sound := by
  cases hasks with
  | standsDown hdown => exact h.standsDown hdown kernel now
  | claims advertisement hbefore hafter =>
    simp only [Router.carryOut]
    obtain ⟨hkept, hsame, hsent⟩ := { r with machine := m }.advertise_rule advertisement
    refine ⟨fun _ => hkept.trans (h.holds hbefore), hsent.trans ?_⟩
    refine (and_iff_left fun _ _ => ⟨hafter, h.holds hbefore⟩).trans ?_
    exact h.rule.trans hsame.symm
  | takesOver transition hafter =>
    exact carryOut_takesOver kernel now (r := { r with machine := m }) hafter h.rule transition
  | stops farewell transition hafter hfarewell =>
    have hstate : m.state ≠ .master := fun hmaster =>
      State.noConfusion (hafter.symm.trans hmaster)
    rcases hfarewell with rfl | rfl
    · simp only [List.nil_append, Router.carryOut]
      exact dropAll_sound kernel hstate h.rule
    · simp only [List.singleton_append, Router.carryOut]
      -- The farewell claims nothing, so it may go out from any state.
      obtain ⟨_, hsame, hsent⟩ := { r with machine := m }.advertise_rule
        (r.machine.advertisement givingUp)
      refine dropAll_sound kernel hstate (hsent.trans ?_)
      refine (and_iff_left fun _ hclaim => absurd rfl hclaim).trans ?_
      exact h.rule.trans hsame.symm

/-! ## Whole runs -/

theorem Sound.runCheck {r : Router} (h : r.Sound) (kernel : Kernel) (round : Round) :
    (r.runCheck kernel round).Sound := by
  unfold Router.runCheck
  split
  · obtain ⟨⟨checker, hframe⟩, _, hasks⟩ := r.checkGateway_lowers round
    rw [hframe]
    exact Sound.standsDown (r := { r with checker := checker }) ⟨h.holds, h.rule⟩ hasks kernel _
  · exact h

theorem Sound.hear {r : Router} (h : r.Sound) (kernel : Kernel) (now : Instant)
    (packet : Ipv4Addr × List UInt8) : (r.hear kernel now packet).Sound :=
  h.carryOut (r.machine.receive_asks packet.1 packet.2 now) kernel now

/-- Every call on a running router keeps it sound. -/
theorem Sound.step {r : Router} (h : r.Sound) (kernel : Kernel) (op : Op) :
    (r.step kernel op).Sound := by
  cases op with
  | tick round =>
    have hheard : (round.packets.foldl (Router.hear kernel round.now) r).Sound :=
      Runs.run_inv (fun _ packet hs => hs.hear kernel round.now packet) h round.packets
    have hchecked := (hheard.carryOut (Machine.tick_asks _ round.now) kernel round.now).runCheck
      kernel round
    exact ⟨hchecked.holds, hchecked.rule⟩
  | demote now =>
    simp only [Router.step, Router.demote]
    split
    · exact h
    · exact h.standsDown (r.machine.demote_standsDown _ now) kernel now
  | restore now =>
    simp only [Router.step, Router.restore]
    split
    · exact h
    · exact h.standsDown (r.machine.restore_standsDown now) kernel now
  | stop now => exact h.carryOut (r.machine.stop_asks now) kernel now

/-- A router that started is sound. -/
theorem start_sound {kernel : Kernel} {plan : Plan} {interface : Except IoError Interface}
    {gateway : Except IoError (Option IpAddr)} {now : Instant} {r : Router}
    (h : start kernel plan interface gateway now = .ok r) : r.Sound := by
  obtain ⟨found, checker, _, rfl⟩ := start_eq h
  have hempty : OnlyHolding (opened plan found checker now).done ↔
      Unrefused plan.settings.peers (opened plan found checker now).done :=
    iff_of_true onlyHolding_nil fun _ _ hmem => absurd hmem List.not_mem_nil
  have hdropped := dropAll_rule kernel (opened plan found checker now)
  have hrule := (hdropped.2.2.trans hempty).trans hdropped.2.1.symm
  by_cases howner : plan.settings.priority = 255
  · -- The owner of the addresses takes over at once, behind the drop that clears the interface.
    have hstart : (Machine.new plan.settings).start now
        = (((Machine.new plan.settings).becomeMaster now .started).1,
          .dropAddresses :: ((Machine.new plan.settings).becomeMaster now .started).2) :=
      if_pos howner
    have hmaster : (opened plan found checker now).machine.state = .master := by
      rw [opened, hstart]
      rfl
    rw [hstart, carryOut]
    have hasks := carryOut_takesOver kernel now (r := (opened plan found checker now).dropAll kernel)
      hmaster hrule ⟨.initialise, .master, .started⟩
    rw [show ((opened plan found checker now).dropAll kernel).machine
      = ((Machine.new plan.settings).start now).1 from rfl, hstart] at hasks
    exact hasks
  · have hstart : (Machine.new plan.settings).start now = _ := if_neg howner
    rw [hstart]
    simp only [carryOut]
    refine dropAll_sound kernel ?_ hempty
    rw [opened, hstart]
    exact State.noConfusion

/-- In every run of a router, a claim is handed to the transport only by a master that holds its
addresses, exactly when the kernel refused no take that a peer could hear about. -/
theorem onlyHolding_iff_unrefused {kernel : Kernel} {plan : Plan}
    {interface : Except IoError Interface} {gateway : Except IoError (Option IpAddr)}
    {now : Instant} {r : Router} (hstart : start kernel plan interface gateway now = .ok r)
    (ops : List Op) :
    OnlyHolding (Runs.run (step kernel) r ops).done ↔
      Unrefused plan.settings.peers (Runs.run (step kernel) r ops).done := by
  have hpeers : (Runs.run (step kernel) r ops).peers = plan.settings.peers := by
    have hstep : ∀ s op, s.peers = r.peers → (step kernel s op).peers = r.peers :=
      fun s op hs => (step_fixed kernel s op).peers.trans hs
    have hkept : (Runs.run (step kernel) r ops).peers = r.peers := Runs.run_inv hstep rfl ops
    obtain ⟨found, checker, _, rfl⟩ := start_eq hstart
    exact hkept.trans (carryOut_keeps kernel now _ _).peers
  rw [← hpeers]
  exact (Runs.run_inv (fun _ op h => h.step kernel op) (start_sound hstart) ops).rule

/-! ## The node that owns the addresses -/

/-- A node that claims the role at once, with one peer and one address. -/
def ownerPlan : Plan where
  settings := {
    vrid := 7
    priority := 255
    interval := 1000000000
    preempt := true
    address := ⟨10, 0, 0, 1⟩
    virtualAddresses := [⟨10, 0, 0, 9⟩]
    peers := [⟨10, 0, 0, 2⟩] }
  carried := [⟨.v4 ⟨10, 0, 0, 9⟩, 24⟩]
  silent := false
  watchGateway := false
  checkInterval := 2000000000
  threshold := 3
  demotedPriority := 50

/-- A kernel that allows no address to be added, and has none to remove. -/
def refusing : Kernel where
  change := fun _ how _ => .error (.rawOsError (match how with | .add => 1 | .remove => notThere))
  send := fun _ _ => .ok ()

/-- The owner as its queue reaches the takeover. -/
def owner (kernel : Kernel) : Router := (opened ownerPlan ⟨2, []⟩ none 0).dropAll kernel

/-- Starting the owner drops what an earlier process may have left, and takes over. -/
theorem owner_start (kernel : Kernel) :
    start kernel ownerPlan (.ok ⟨2, []⟩) (.ok none) 0
      = .ok ((owner kernel).carryOut kernel 0 [.record ⟨.initialise, .master, .started⟩,
          .takeAddresses, .advertise ((owner kernel).machine.advertisement 255)]) := by
  have hdrop : ∀ queue, (opened ownerPlan ⟨2, []⟩ none 0).carryOut kernel 0
      (.dropAddresses :: queue) = (owner kernel).carryOut kernel 0 queue := by
    intro queue
    rw [carryOut]
    rfl
  exact congrArg Except.ok (hdrop _)

/-- A node that gets its addresses and then stops keeps the rule. -/
theorem owner_holds_what_it_claims :
    ∃ r, start .willing ownerPlan (.ok ⟨2, []⟩) (.ok none) 0 = .ok r ∧
      OnlyHolding (Runs.run (step .willing) r [.stop 1]).done := by
  refine ⟨_, owner_start .willing, (onlyHolding_iff_unrefused (owner_start .willing) _).mpr ?_⟩
  have htake : (owner .willing).take .willing 0 = (((owner .willing).take .willing 0).1, .ok ()) :=
    rfl
  rw [carryOut_granted htake]
  change Unrefused _ (carryOut .willing 1 _ [.advertise _, .dropAddresses, .record _]).done
  simp only [carryOut]
  change Unrefused _ [.dropped (.ok ()), .took 255 (.ok ()), .sent _ _ _ _, .sent _ _ _ _,
    .dropped (.ok ())]
  intro claim error hmem
  simp at hmem

/-- A node that is refused its addresses still sends its peer a claim, as a backup. -/
theorem owner_claims_without_addresses :
    ∃ r, start refusing ownerPlan (.ok ⟨2, []⟩) (.ok none) 0 = .ok r ∧
      ¬ OnlyHolding (Runs.run (step refusing) r []).done := by
  refine ⟨_, owner_start refusing, ?_⟩
  have htake : (owner refusing).take refusing 0
      = (((owner refusing).take refusing 0).1, .error (.rawOsError 1)) := rfl
  rw [carryOut_refused htake rfl]
  intro honly
  have hsent := honly [.dropped (.ok ()), .took 255 (.error (.rawOsError 1))] ⟨10, 0, 0, 2⟩
    ((owner refusing).machine.advertisement 255) _ .backup [.dropped (.ok ())] rfl (by decide)
  exact State.noConfusion hsent.1

end Router

end EkEk.Vrrp
