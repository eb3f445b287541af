import EkEk.Lib.Runs
import EkEk.Vrrp.State
import Mathlib.Data.List.Chain

/-!
# Runs of a machine

Reference: `crates/ek-ek-vrrp/src/state.rs`, `crates/ek-ek-vrrp/tests/election.rs`.

Everything a caller can do to a machine, in any order and at any instants, and everything the machine
asked for on the way.

`answer_cases` says what one event can do: leave the machine where it stands, or move it with one
record of where from and where to. `run_consistent` follows: the timers, the addresses and the records
always agree with the state. `noise_changes_nothing` compares two runs: what the filter of `judge`
drops is counted and does nothing else, whatever bytes it is made of.
-/

namespace EkEk.Vrrp

/-- What can happen to a machine. -/
inductive Event where
  | start (now : Instant)
  | tick (now : Instant)
  | receive (sender : Ipv4Addr) (bytes : List UInt8) (now : Instant)
  | demote (target : UInt8) (now : Instant)
  | restore (now : Instant)
  | renounce (now : Instant)
  | stop (now : Instant)
deriving DecidableEq, Repr

namespace Machine

/-- What a machine does about an event. -/
def answer (m : Machine) : Event → Machine × List Action
  | .start now => m.start now
  | .tick now => m.tick now
  | .receive sender bytes now => m.receive sender bytes now
  | .demote target now => m.demote target now
  | .restore now => m.restore now
  | .renounce now => m.renounce now
  | .stop now => m.stop now

end Machine

/-- A machine and everything it has asked for so far. -/
structure History where
  machine : Machine
  emitted : List Action

namespace History

/-- A machine nothing has happened to. -/
def new (settings : Settings) : History := ⟨.new settings, []⟩

def step (history : History) (event : Event) : History :=
  ⟨(history.machine.answer event).1, history.emitted ++ (history.machine.answer event).2⟩

end History

/-- The state change an action writes down. -/
def Action.transition : Action → Option Transition
  | .record transition => some transition
  | _ => none

/-- Whether an action puts the addresses on the interface or takes them off. -/
def Action.movesAddresses : Action → Bool
  | .takeAddresses => true
  | .dropAddresses => true
  | _ => false

/-- The state changes among some actions, in order. -/
def records (actions : List Action) : List Transition := actions.filterMap Action.transition

/-- What was last asked about the addresses. -/
def lastMove (actions : List Action) : Option Action :=
  (actions.filter Action.movesAddresses).getLast?

theorem records_append (first second : List Action) :
    records (first ++ second) = records first ++ records second :=
  List.filterMap_append

theorem lastMove_append (first second : List Action) :
    lastMove (first ++ second) = (lastMove second).or (lastMove first) := by
  rw [lastMove, List.filter_append, List.getLast?_append]
  rfl

/-! ## State, timers and actions -/

namespace Machine

/-- A master waits to advertise, a backup waits to claim, and nobody waits for both. -/
structure Timed (m : Machine) : Prop where
  advertise : m.advertiseAt.isSome ↔ m.state = .master
  claim : m.claimAt.isSome ↔ m.state = .backup

/-- An event that leaves the machine where it stands. -/
structure Quiet (m : Machine) (answer : Machine × List Action) : Prop where
  timed : answer.1.Timed
  state : answer.1.state = m.state
  records : records answer.2 = []
  addresses : lastMove answer.2 = none

/-- An event that moves the machine, and says so. -/
structure Moves (m : Machine) (answer : Machine × List Action) : Prop where
  timed : answer.1.Timed
  records : ∃ reason, records answer.2 = [⟨m.state, answer.1.state, reason⟩]
  addresses : ∃ move, lastMove answer.2 = some move ∧
    (move = .takeAddresses ↔ answer.1.state = .master)

variable {m : Machine}

theorem moves_becomeMaster (now : Instant) (reason : Reason) :
    Moves m (m.becomeMaster now reason) :=
  ⟨⟨by simp [becomeMaster], by simp [becomeMaster]⟩, ⟨reason, rfl⟩,
    .takeAddresses, rfl, by simp [becomeMaster]⟩

theorem moves_becomeBackup (now : Instant) (reason : Reason) :
    Moves m (m.becomeBackup now reason) :=
  ⟨⟨by simp [becomeBackup], by simp [becomeBackup]⟩, ⟨reason, rfl⟩,
    .dropAddresses, rfl, by simp [becomeBackup]⟩

theorem moves_start (now : Instant) : Moves m (m.start now) := by
  rw [start]
  split
  · -- what is dropped first is taken again
    obtain ⟨timed, hrecords, haddresses⟩ := moves_becomeMaster (m := m) now .started
    exact ⟨timed, hrecords, haddresses⟩
  · exact ⟨⟨by simp, by simp⟩, ⟨.started, rfl⟩, .dropAddresses, rfl, by simp⟩

theorem moves_stop (now : Instant) : Moves m (m.stop now) := by
  refine ⟨⟨by simp [stop], by simp [stop]⟩, ⟨.stopped, ?_⟩, .dropAddresses, ?_, by simp [stop]⟩
  · rw [stop]
    split <;> rfl
  · rw [stop]
    split <;> rfl

/-- Nothing at all happens. -/
theorem Timed.quiet (h : m.Timed) : Quiet m (m, []) := ⟨h, rfl, rfl, rfl⟩

theorem Timed.quiet_heard (h : m.Timed) (sender : Ipv4Addr) (advertisement : Advertisement)
    (now : Instant) : Quiet m (m.heard sender advertisement now) ∨
      Moves m (m.heard sender advertisement now) := by
  cases hstate : m.state with
  | initialise =>
    rw [heard, hstate]
    exact .inl h.quiet
  | backup =>
    -- a backup only ever winds its claim up again
    have hwound : ∀ moment, Quiet m ({ m with claimAt := some moment }, []) := fun moment =>
      ⟨⟨h.advertise, by simp [hstate]⟩, rfl, rfl, rfl⟩
    rw [heard, hstate]
    dsimp only [backupHeard]
    split_ifs
    · exact .inl (hwound _)
    · exact .inl (hwound _)
    · exact .inl h.quiet
  | master =>
    rw [heard, hstate]
    dsimp only [masterHeard]
    split_ifs
    · exact .inl ⟨⟨by simp [hstate], h.claim⟩, rfl, rfl, rfl⟩
    · exact .inr (moves_becomeBackup now .strongerPeer)
    · exact .inl h.quiet

/-- What an event can do to a machine whose timers agree with its state. -/
theorem Timed.answer_cases (h : m.Timed) (event : Event) :
    Quiet m (m.answer event) ∨ Moves m (m.answer event) := by
  cases event with
  | start now => exact .inr (moves_start now)
  | stop now => exact .inr (moves_stop now)
  | restore now => exact .inl ⟨⟨h.advertise, h.claim⟩, rfl, rfl, rfl⟩
  | renounce now =>
    rw [answer, renounce]
    split
    · exact .inl h.quiet
    · exact .inr (moves_becomeBackup now .addressRefused)
  | demote target now =>
    rw [answer, demote]
    split
    · exact .inl h.quiet
    · dsimp only
      split
      · exact .inl ⟨⟨h.advertise, h.claim⟩, rfl, rfl, rfl⟩
      · obtain ⟨timed, hrecords, haddresses⟩ :=
          moves_becomeBackup (m := { m with settings := { m.settings with priority := target } })
            now .gatewayLost
        exact .inr ⟨timed, hrecords, haddresses⟩
  | tick now =>
    rw [answer, tick]
    split
    · rename_i hstate
      split
      · exact .inl ⟨⟨by simp [hstate], h.claim⟩, rfl, rfl, rfl⟩
      · exact .inl h.quiet
    · split
      · exact .inr (moves_becomeMaster now .nobodyElseAnswered)
      · exact .inl h.quiet
    · exact .inl h.quiet
  | receive sender bytes now =>
    rw [answer]
    rcases m.receive_cases sender bytes now with hdropped | ⟨advertisement, -, -, -, hheard⟩
    · rw [hdropped]
      exact .inl ⟨⟨h.advertise, h.claim⟩, rfl, rfl, rfl⟩
    · -- that it was counted is all that sets the machine that hears apart
      have hcounted : Timed { m with accepted := m.accepted + 1 } := ⟨h.advertise, h.claim⟩
      rw [hheard]
      rcases hcounted.quiet_heard sender advertisement now with hquiet | hmoves
      · exact .inl ⟨hquiet.timed, hquiet.state, hquiet.records, hquiet.addresses⟩
      · exact .inr ⟨hmoves.timed, hmoves.records, hmoves.addresses⟩

end Machine

/-- Waiting for one thing exactly is what tells the states apart. -/
theorem Machine.timed_iff {m : Machine} : m.Timed ↔
    (m.state = .master ↔ m.advertiseAt.isSome ∧ m.claimAt = none) ∧
      (m.state = .backup ↔ m.claimAt.isSome ∧ m.advertiseAt = none) ∧
      (m.state = .initialise ↔ m.advertiseAt = none ∧ m.claimAt = none) := by
  have hboth : m.Timed ↔
      (m.advertiseAt.isSome ↔ m.state = .master) ∧ (m.claimAt.isSome ↔ m.state = .backup) :=
    ⟨fun h => ⟨h.advertise, h.claim⟩, fun h => ⟨h.1, h.2⟩⟩
  rw [hboth]
  cases m.advertiseAt <;> cases m.claimAt <;> cases m.state <;> simp

/-- State, timers and everything that was emitted agree. -/
structure History.Consistent (history : History) : Prop where
  timed : history.machine.Timed
  /-- The addresses are on the interface exactly while this node is master. -/
  addresses : lastMove history.emitted = some .takeAddresses ↔ history.machine.state = .master
  /-- Every state change starts where the one before it ended. -/
  chain : (records history.emitted).IsChain fun earlier later => later.source = earlier.target
  /-- The last of them ended where the machine stands. -/
  last : ∀ transition ∈ (records history.emitted).getLast?,
    transition.target = history.machine.state

namespace History

variable {history : History}

theorem consistent_new (settings : Settings) : (new settings).Consistent :=
  ⟨⟨by simp [new, Machine.new], by simp [new, Machine.new]⟩, by simp [new, Machine.new, lastMove],
    List.isChain_nil, by simp [new, records]⟩

theorem Consistent.step (h : history.Consistent) (event : Event) :
    (history.step event).Consistent := by
  rcases h.timed.answer_cases event with hquiet | hmoves
  · have hrecords : records (history.step event).emitted = records history.emitted := by
      rw [History.step, records_append, hquiet.records, List.append_nil]
    have haddresses : lastMove (history.step event).emitted = lastMove history.emitted := by
      rw [History.step, lastMove_append, hquiet.addresses, Option.none_or]
    have hstate : (history.step event).machine.state = history.machine.state := hquiet.state
    refine ⟨hquiet.timed, ?_, ?_, ?_⟩
    · rw [haddresses, hstate]
      exact h.addresses
    · rw [hrecords]
      exact h.chain
    · rw [hrecords, hstate]
      exact h.last
  · obtain ⟨reason, hrecord⟩ := hmoves.records
    obtain ⟨move, hmove, htakes⟩ := hmoves.addresses
    have hrecords : records (history.step event).emitted = records history.emitted ++
        [⟨history.machine.state, (history.step event).machine.state, reason⟩] := by
      rw [History.step, records_append, hrecord]
    have haddresses : lastMove (history.step event).emitted = some move := by
      rw [History.step, lastMove_append, hmove, Option.some_or]
    refine ⟨hmoves.timed, ?_, ?_, ?_⟩
    · rw [haddresses, Option.some.injEq]
      exact htakes
    · rw [hrecords, List.isChain_append]
      refine ⟨h.chain, List.isChain_singleton _, fun earlier hearlier later hlater => ?_⟩
      obtain rfl := Option.some.inj hlater
      exact (h.last earlier hearlier).symm
    · intro transition htransition
      rw [hrecords, List.getLast?_concat] at htransition
      obtain rfl := Option.some.inj htransition
      rfl

/-- After any events, the state and the two timers say the same, the addresses are on the interface
exactly while the machine is master, and what was recorded leads to where it stands. -/
theorem run_consistent (settings : Settings) (events : List Event) :
    let history := Runs.run step (new settings) events
    ((history.machine.state = .master ↔
        history.machine.advertiseAt.isSome ∧ history.machine.claimAt = none) ∧
      (history.machine.state = .backup ↔
        history.machine.claimAt.isSome ∧ history.machine.advertiseAt = none) ∧
      (history.machine.state = .initialise ↔
        history.machine.advertiseAt = none ∧ history.machine.claimAt = none)) ∧
    (lastMove history.emitted = some .takeAddresses ↔ history.machine.state = .master) ∧
    ((records history.emitted).IsChain fun earlier later => later.source = earlier.target) ∧
    ∀ transition ∈ (records history.emitted).getLast?,
      transition.target = history.machine.state := by
  intro history
  have hconsistent : history.Consistent :=
    Runs.run_inv (fun _ event h => h.step event) (consistent_new settings) events
  exact ⟨Machine.timed_iff.mp hconsistent.timed, hconsistent.addresses, hconsistent.chain,
    hconsistent.last⟩

end History

/-! ## What the filter drops -/

namespace Machine

/-- A packet `judge` is there to drop: from outside the peer list, or read by none of the addresses it
can have been sent to, or of another virtual router. -/
def Noise (settings : Settings) : Event → Prop
  | .receive sender bytes _ =>
    sender ∉ settings.peers ∨
      (∀ receiver ∈ settings.virtualAddresses ++ [settings.address], ∀ advertisement,
        Advertisement.decode bytes sender receiver ≠ .ok advertisement) ∨
      ∃ receiver advertisement, Advertisement.decode bytes sender receiver = .ok advertisement ∧
        advertisement.vrid ≠ settings.vrid
  | _ => False

/-- A machine that has dropped so many more packets. -/
def ignoring (m : Machine) (count : ℕ) : Machine := { m with ignored := m.ignored + count }

variable {m : Machine}

/-- What is read somewhere is what any address it can have been sent to reads. -/
theorem read_eq_some {sender : Ipv4Addr} {bytes : List UInt8} {advertisement : Advertisement}
    (h : m.read sender bytes = some advertisement) :
    ∃ receiver ∈ m.settings.virtualAddresses ++ [m.settings.address],
      Advertisement.decode bytes sender receiver = .ok advertisement := by
  obtain ⟨receiver, hreceiver, hread⟩ := List.exists_of_findSome?_eq_some h
  refine ⟨receiver, hreceiver, ?_⟩
  cases hdecode : Advertisement.decode bytes sender receiver with
  | error why =>
    rw [hdecode] at hread
    cases hread
  | ok there =>
    rw [hdecode] at hread
    rw [← Option.some.inj hread]

/-- Noise is counted, and that is all. -/
theorem answer_of_noise {event : Event} (h : Noise m.settings event) :
    m.answer event = (m.ignoring 1, []) := by
  cases event with
  | receive sender bytes now =>
    rcases m.receive_cases sender bytes now with
      hdropped | ⟨advertisement, hpeer, hread, hvrid, -⟩
    · exact hdropped
    · -- what was heard is none of the three kinds of noise
      obtain ⟨receiver, hreceiver, hdecode⟩ := read_eq_some hread
      rcases h with hstranger | hunread | ⟨elsewhere, other, hother, hforeign⟩
      · exact absurd hpeer hstranger
      · exact absurd hdecode (hunread receiver hreceiver advertisement)
      · rw [Advertisement.decode_unique hother hdecode] at hforeign
        exact absurd hvrid hforeign
  | start now => exact h.elim
  | tick now => exact h.elim
  | demote target now => exact h.elim
  | restore now => exact h.elim
  | renounce now => exact h.elim
  | stop now => exact h.elim

theorem heard_ignoring (m : Machine) (count : ℕ) (sender : Ipv4Addr)
    (advertisement : Advertisement) (now : Instant) :
    (m.ignoring count).heard sender advertisement now =
      ((m.heard sender advertisement now).1.ignoring count,
        (m.heard sender advertisement now).2) := by
  have hstate : (m.ignoring count).state = m.state := rfl
  have hsettings : (m.ignoring count).settings = m.settings := rfl
  have houtranked : (m.ignoring count).outrankedBy sender advertisement.priority =
      m.outrankedBy sender advertisement.priority := rfl
  have houtranks : (m.ignoring count).outranks sender advertisement.priority =
      m.outranks sender advertisement.priority := rfl
  rw [heard, heard, hstate]
  split
  · rw [masterHeard, masterHeard, houtranked]
    split_ifs <;> rfl
  · rw [backupHeard, backupHeard, houtranks, hsettings]
    split_ifs <;> rfl
  · rfl

theorem receive_ignoring (m : Machine) (count : ℕ) (sender : Ipv4Addr) (bytes : List UInt8)
    (now : Instant) :
    (m.ignoring count).receive sender bytes now =
      ((m.receive sender bytes now).1.ignoring count, (m.receive sender bytes now).2) := by
  have hread : (m.ignoring count).read sender bytes = m.read sender bytes := rfl
  have hsettings : (m.ignoring count).settings = m.settings := rfl
  have hdropped : { m.ignoring count with ignored := (m.ignoring count).ignored + 1 } =
      { m with ignored := m.ignored + 1 }.ignoring count := by
    simp only [ignoring, mk.injEq, true_and]
    omega
  rw [receive, receive, judge, judge, hread, hsettings]
  by_cases hpeer : sender ∈ m.settings.peers
  swap
  · rw [if_pos hpeer, if_pos hpeer]
    exact Prod.ext hdropped rfl
  rw [if_neg (not_not.mpr hpeer), if_neg (not_not.mpr hpeer)]
  cases m.read sender bytes with
  | none => exact Prod.ext hdropped rfl
  | some advertisement =>
    by_cases hvrid : advertisement.vrid = m.settings.vrid
    · have hheard := heard_ignoring { m with accepted := m.accepted + 1 } count sender
        advertisement now
      simp only [if_neg (not_not.mpr hvrid)]
      exact Prod.ext (congrArg Prod.fst hheard) (congrArg Prod.snd hheard)
    · simp only [if_pos hvrid]
      exact Prod.ext hdropped rfl

/-- How many packets were dropped decides nothing. -/
theorem answer_ignoring (m : Machine) (count : ℕ) (event : Event) :
    (m.ignoring count).answer event = ((m.answer event).1.ignoring count, (m.answer event).2) := by
  cases event with
  | receive sender bytes now => exact receive_ignoring m count sender bytes now
  | restore now => rfl
  | stop now => rfl
  | start now =>
    dsimp only [answer, start, ignoring]
    split_ifs <;> rfl
  | tick now =>
    dsimp only [answer, tick, ignoring]
    split
    · split_ifs <;> rfl
    · split_ifs <;> rfl
    · rfl
  | demote target now =>
    dsimp only [answer, demote, ignoring]
    split_ifs <;> rfl
  | renounce now =>
    dsimp only [answer, renounce, ignoring]
    split_ifs <;> rfl

/-- Settings that differ in the claim at most. -/
def SameFilter (first second : Settings) : Prop :=
  { first with priority := second.priority } = second

/-- No event changes what the filter reads of the settings. -/
theorem answer_settings (m : Machine) (event : Event) :
    SameFilter m.settings (m.answer event).1.settings := by
  cases event with
  | receive sender bytes now =>
    rw [answer, SameFilter, (m.receive_settings sender bytes now).1]
  | restore now => rfl
  | stop now => rfl
  | start now => rw [answer, SameFilter, (m.start_settings now).1]
  | tick now => rw [answer, SameFilter, (m.tick_settings now).1]
  | demote target now =>
    dsimp only [answer, demote]
    split_ifs <;> rfl
  | renounce now =>
    dsimp only [answer, renounce]
    split_ifs <;> rfl

/-- The claim is nothing the filter asks for. -/
theorem Noise.of_sameFilter {first second : Settings} (h : SameFilter first second) {event : Event}
    (hnoise : Noise first event) : Noise second event := by
  rw [← h]
  cases event <;> exact hnoise

/-- What a machine emits, event by event. -/
def answers (m : Machine) : List Event → List (List Action)
  | [] => []
  | event :: events => (m.answer event).2 :: (m.answer event).1.answers events

/-- The machine some events leave behind. -/
def after (m : Machine) (events : List Event) : Machine :=
  Runs.run (fun m event => (m.answer event).1) m events

/-- The events that were there without the ones that were slipped in. -/
def others (script : List (Event × Bool)) : List Event :=
  (script.filter fun entry => !entry.2).map Prod.fst

/-- What was emitted for the events that were not slipped in. -/
def answersToOthers (m : Machine) (script : List (Event × Bool)) : List (List Action) :=
  ((script.zip (m.answers (script.map Prod.fst))).filter fun entry => !entry.1.2).map Prod.snd

/-- A machine that has dropped more packets answers as before. -/
theorem answers_ignoring (m : Machine) (count : ℕ) (events : List Event) :
    (m.ignoring count).answers events = m.answers events := by
  induction events generalizing m with
  | nil => rfl
  | cons event events ih => rw [answers, answers, answer_ignoring, ih]

theorem after_ignoring (m : Machine) (count : ℕ) (events : List Event) :
    (m.ignoring count).after events = (m.after events).ignoring count := by
  induction events generalizing m with
  | nil => rfl
  | cons event events ih =>
    have hstep := ih (m.answer event).1
    rw [after, after, Runs.run_cons, Runs.run_cons, answer_ignoring]
    exact hstep

/-- Whatever noise is slipped into a run, every other event is answered as in the run without it, the
noise itself is not answered at all, and the machine left behind differs in its count of dropped
packets alone. -/
theorem noise_changes_nothing (m : Machine) (script : List (Event × Bool))
    (hnoise : ∀ entry ∈ script, entry.2 = true → Noise m.settings entry.1) :
    m.answersToOthers script = m.answers (others script) ∧
      m.after (script.map Prod.fst) =
        (m.after (others script)).ignoring (script.countP Prod.snd) ∧
      ∀ entry ∈ script.zip (m.answers (script.map Prod.fst)), entry.1.2 = true → entry.2 = [] := by
  induction script generalizing m with
  | nil => exact ⟨rfl, rfl, fun _ h => absurd h List.not_mem_nil⟩
  | cons entry script ih =>
    obtain ⟨event, slipped⟩ := entry
    have hlater : ∀ entry ∈ script, entry.2 = true → Noise (m.answer event).1.settings entry.1 :=
      fun entry hentry hslipped => Noise.of_sameFilter (m.answer_settings event)
        (hnoise entry (List.mem_cons_of_mem _ hentry) hslipped)
    obtain ⟨hanswers, hafter, hsilent⟩ := ih (m.answer event).1 hlater
    cases slipped with
    | false =>
      refine ⟨congrArg ((m.answer event).2 :: ·) hanswers, hafter, fun entry hentry hslipped => ?_⟩
      rcases List.mem_cons.mp hentry with rfl | hrest
      · cases hslipped
      · exact hsilent entry hrest hslipped
    | true =>
      -- the machine goes on with one more packet dropped, which nothing that follows can see
      have hthis := answer_of_noise (hnoise _ List.mem_cons_self rfl)
      have hcount : ((event, true) :: script).countP Prod.snd = script.countP Prod.snd + 1 :=
        List.countP_cons_of_pos rfl
      rw [hthis] at hanswers hafter
      refine ⟨?_, ?_, fun entry hentry hslipped => ?_⟩
      · show ((m.answer event).1).answersToOthers script = m.answers (others script)
        rw [hthis, hanswers, answers_ignoring]
      · show ((m.answer event).1).after (script.map Prod.fst) = _
        rw [hthis, hafter, after_ignoring, hcount]
        show _ = (m.after (others script)).ignoring _
        simp only [ignoring, mk.injEq, true_and]
        omega
      · rcases List.mem_cons.mp hentry with rfl | hrest
        · exact congrArg Prod.snd hthis
        · exact hsilent entry hrest hslipped

/-- A node with one peer. -/
def paired : Settings where
  vrid := 7
  priority := 100
  interval := 1000
  preempt := true
  address := ⟨10, 0, 0, 1⟩
  virtualAddresses := [⟨10, 0, 0, 100⟩]
  peers := [⟨10, 0, 0, 2⟩]

/-- A start and a tick, with a stranger in between. -/
def interrupted : List (Event × Bool) :=
  [(.start 0, false), (.receive ⟨10, 0, 0, 66⟩ [0x31, 7, 0, 0] 1, true), (.tick 5000, false)]

/-- The stranger costs the node its count, and nothing else: it claims the role all the same. -/
theorem interrupted_claims :
    (new paired).answersToOthers interrupted = (new paired).answers [.start 0, .tick 5000] ∧
      ((new paired).after (interrupted.map Prod.fst)).state = .master ∧
      ((new paired).after (interrupted.map Prod.fst)).ignored = 1 := by
  obtain ⟨hanswers, hafter, -⟩ := noise_changes_nothing (new paired) interrupted (by
    intro entry hentry hslipped
    simp only [interrupted, List.mem_cons, List.not_mem_nil, or_false] at hentry
    rcases hentry with rfl | rfl | rfl
    · cases hslipped
    · exact .inl (by decide)
    · cases hslipped)
  refine ⟨hanswers, ?_, ?_⟩
  · rw [hafter]
    decide
  · rw [hafter]
    decide

end Machine

end EkEk.Vrrp
