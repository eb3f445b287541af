import EkEk.Agent.Supervise
import EkEk.Dataplane.Live

/-!
# The link between the agent and the traffic path

Reference: `crates/ek-ek-dataplane/src/link.rs`, `crates/ek-ek-agent/src/socket.rs`, and the messages of
`crates/ek-ek-ipc/src/message.rs`.

A traffic path greets the agent and is handed the document on the connection it starts with; it closes
that one, serves, and connects again as often as it loses the agent. The agent answers each connection on
its own and asks, on each, whether the traffic path still answers. What is written on a connection arrives
in order or not at all.

The document is put into the line of a delivery as the text it was read from, so that a text of several
lines is a delivery of several lines, none of which can be read. `served_run` says what a traffic path
serves and `heard_run` what the agent hears, whatever the order in which everyone reads and writes, and
however often connections are lost.
-/

namespace EkEk.Agent.Link

open Dataplane (Live ConfigUpdate)
open Validation

/-! ## Messages -/

/-- What the agent sends. -/
inductive AgentMessage where
  | config (update : ConfigUpdate)
  | ping (nonce : UInt64)
deriving DecidableEq, Repr

/-- What the traffic path sends. -/
inductive DataPlaneMessage where
  | hello (pid : UInt32) (generation : Option UInt64)
  | status (generation : UInt64) (state : DataPlaneState)
  | configRejected (generation : UInt64) (errors : List ValidationError)
  | pong (nonce : UInt64)

/-- Why a traffic path does not start. -/
inductive ErrorKind where
  | agentUnreachable
  | agentGone
  | protocol
  | invalidConfig
deriving DecidableEq, Repr

/-- The document the agent was started with: its text, and the configuration the text is, which was checked
before the socket was bound. -/
structure Document where
  text : String
  config : Config
  accepted : Accepted config

/-- Whether the text has no line break in it, apart from those around it. -/
def Document.oneLine (document : Document) : Bool :=
  !(Text.trim document.text).toList.contains (Char.ofNat 10)

/-! ## A connection -/

/-- What the thread of the agent that answers a connection is doing. -/
inductive Side where
  | waiting
  | answering (nonce : UInt64)
  | gone
deriving DecidableEq, Repr

/-- A connection: what is on its way in both directions, what the agent has read, and the questions it has
asked. A line that cannot be read is none. -/
structure Wire where
  toAgent : List DataPlaneMessage
  heard : List DataPlaneMessage
  toPlane : List (Option AgentMessage)
  side : Side
  asked : List UInt64

namespace Wire

/-- A connection with the greeting on its way. -/
def greet (pid : UInt32) (generation : Option UInt64) : Wire :=
  ⟨[.hello pid generation], [], [], .waiting, []⟩

/-- The traffic path writes. -/
def say (w : Wire) (message : DataPlaneMessage) : Wire := { w with toAgent := w.toAgent ++ [message] }

/-- The lines of a delivery. Of several the first cannot be read, and none is read after it. -/
def delivery (document : Document) (generation : UInt64) : List (Option AgentMessage) :=
  if document.oneLine then [some (.config ⟨generation, document.config, .empty⟩)] else [none]

/-- The agent reads the next line. A greeting without a generation is answered with the document, under a
generation of its own. -/
def answer (document : Document) (generation : ℕ) (sent : Bool) (w : Wire) : ℕ × Wire :=
  match w.side, w.toAgent with
  | .gone, _ | _, [] => (generation, w)
  | .waiting, message :: rest =>
    let w := { w with toAgent := rest, heard := w.heard ++ [message] }
    match message with
    | .hello _ none =>
      let next := generation + 1
      if sent then
        (next, { w with
          toPlane := w.toPlane ++ delivery document (UInt64.ofNat next), side := .answering 0 })
      else (next, { w with side := .gone })
    | .hello _ (some _) => (generation, { w with side := .answering 0 })
    | _ => (generation, { w with side := .gone })
  | .answering _, message :: rest => (generation, { w with toAgent := rest, heard := w.heard ++ [message] })

/-- The agent asks. -/
def ask (w : Wire) : Wire :=
  match w.side with
  | .answering nonce =>
    let next := nonce + 1
    { w with
      toPlane := w.toPlane ++ [some (.ping next)]
      side := .answering next
      asked := w.asked ++ [next] }
  | _ => w

end Wire

/-! ## The traffic path -/

/-- A traffic path, with its connections, the latest first. It uses the latest or none. What the agent handed
out to it is kept as well. -/
structure Plane where
  pid : UInt32
  live : Option Live
  state : DataPlaneState
  said : Option DataPlaneState
  wires : List Wire
  linked : Bool
  ended : Option ErrorKind
  handed : List ℕ

namespace Plane

/-- A process that has just greeted the agent. -/
def start (pid : UInt32) : Plane :=
  ⟨pid, none, .starting, none, [.greet pid none], true, none, []⟩

/-- The first delivery. The connection is closed again, whatever came. -/
def begin (p : Plane) (line : Option AgentMessage) : Plane :=
  match line with
  | some (.config update) =>
    match validate update.config with
    | .ok () => { p with live := some (.build update), linked := false }
    | .error _ => { p with ended := some .invalidConfig, linked := false }
  | _ => { p with ended := some .protocol, linked := false }

/-- A line that arrives while the process serves. -/
def handle (p : Plane) (live : Live) (w : Wire) (older : List Wire) (line : Option AgentMessage) : Plane :=
  match line with
  | some (.config update) =>
    match live.apply update with
    | (live, .ok ()) => { p with live := some live, wires := w :: older }
    | (_, .error errors) => { p with wires := w.say (.configRejected update.generation errors) :: older }
  | some (.ping nonce) => { p with wires := w.say (.pong nonce) :: older }
  | none => { p with wires := w :: older, linked := false }

/-- Read the next line. -/
def read (p : Plane) : Plane :=
  match p.linked, p.wires with
  | true, w :: older =>
    match w.toPlane with
    | [] => p
    | line :: rest =>
      let w := { w with toPlane := rest }
      match p.live with
      | none => { p with wires := w :: older }.begin line
      | some live => p.handle live w older line
  | _, _ => p

/-- Connect again, with the generation that is held. -/
def connect (p : Plane) : Plane :=
  match p.live with
  | some live =>
    if p.linked then p
    else { p with
      wires := .greet p.pid (some live.generation) :: p.wires, linked := true, said := some p.state }
  | none => p

/-- Report the state. -/
def report (p : Plane) : Plane :=
  match p.linked, p.wires, p.live with
  | true, w :: older, some live =>
    { p with wires := w.say (.status live.generation p.state) :: older, said := some p.state }
  | _, _, _ => p

/-- The connection is found to be gone. A process that has nothing to serve ends. -/
def lose (p : Plane) (why : ErrorKind) : Plane :=
  match p.live with
  | none => if p.ended = none then { p with ended := some why, linked := false } else p
  | some _ => { p with linked := false }

end Plane

/-! ## Both sides -/

/-- What a traffic path does. -/
inductive PlaneEvent where
  | read
  | connect
  | watch
  | tick
  | become (state : DataPlaneState)
  | lose
  | giveUp

/-- What a thread of the agent does. -/
inductive AgentEvent where
  | answer (sent : Bool)
  | ask
  | hangUp

/-- What happens on the node. -/
inductive Event where
  | start (pid : UInt32)
  | plane (place : ℕ) (event : PlaneEvent)
  | agent (place wire : ℕ) (event : AgentEvent)

/-- One event at a traffic path. -/
def Plane.step (p : Plane) : PlaneEvent → Plane
  | .read => p.read
  | .connect => p.connect
  | .watch => if p.said = some p.state then p else p.report
  | .tick => p.report
  | .become state => { p with state }
  | .lose => p.lose .agentGone
  | .giveUp => if p.live.isNone then p.lose .agentUnreachable else p

/-- One event at a thread of the agent. -/
def Wire.step (document : Document) (generation : ℕ) (w : Wire) : AgentEvent → ℕ × Wire
  | .answer sent => w.answer document generation sent
  | .ask => (generation, w.ask)
  | .hangUp => (generation, { w with side := .gone })

/-- The agent, and the traffic paths that were started. -/
structure System where
  generation : ℕ
  planes : List Plane

/-- Nothing was started yet. -/
def System.new : System := ⟨0, []⟩

/-- A thread of the agent does something on a connection of a traffic path. -/
def Plane.served (document : Document) (generation : ℕ) (p : Plane) (place : ℕ) (event : AgentEvent) :
    ℕ × Plane :=
  match p.wires[place]? with
  | none => (generation, p)
  | some w =>
    let (next, w) := w.step document generation event
    (next, { p with
      wires := p.wires.set place w, handed := if next = generation then p.handed else next :: p.handed })

/-- One event. -/
def System.step (document : Document) (s : System) : Event → System
  | .start pid => { s with planes := s.planes ++ [.start pid] }
  | .plane place event =>
    match s.planes[place]? with
    | none => s
    | some p => { s with planes := s.planes.set place (p.step event) }
  | .agent place wire event =>
    match s.planes[place]? with
    | none => s
    | some p =>
      let (generation, p) := p.served document s.generation wire event
      ⟨generation, s.planes.set place p⟩

/-! ## One connection -/

/-- The answers among messages. -/
def pongs (messages : List DataPlaneMessage) : List UInt64 :=
  messages.filterMap fun message =>
    match message with
    | .pong nonce => some nonce
    | _ => none

/-- The questions among lines. -/
def pings (lines : List (Option AgentMessage)) : List UInt64 :=
  lines.filterMap fun line =>
    match line with
    | some (.ping nonce) => some nonce
    | _ => none

section

variable {document : Document} {generation : ℕ} {handed : List ℕ} {w : Wire} {held : Option UInt64}

@[simp] theorem pongs_append (first later : List DataPlaneMessage) :
    pongs (first ++ later) = pongs first ++ pongs later := List.filterMap_append

@[simp] theorem pings_append (first later : List (Option AgentMessage)) :
    pings (first ++ later) = pings first ++ pings later := List.filterMap_append

@[simp] theorem pings_delivery (generation : UInt64) : pings (Wire.delivery document generation) = [] := by
  rw [Wire.delivery]
  split <;> rfl

/-- Every question is answered, or its answer or itself is on its way; whoever wrote on the connection
reported the generation it holds and refused nothing. -/
structure Wire.Sound (held : Option UInt64) (w : Wire) : Prop where
  conserved : w.asked = pongs (w.heard ++ w.toAgent) ++ pings w.toPlane
  reports : ∀ generation state, .status generation state ∈ w.heard ++ w.toAgent → held = some generation
  unrefused : ∀ generation errors, .configRejected generation errors ∉ w.heard ++ w.toAgent

theorem sound_greet (pid : UInt32) (generation : Option UInt64) : (Wire.greet pid generation).Sound held where
  conserved := rfl
  reports := by simp [Wire.greet]
  unrefused := by simp [Wire.greet]

/-- What the agent reads it has heard, and what it writes is the document and questions. -/
theorem Wire.Sound.answer (h : w.Sound held) (sent : Bool) :
    (w.answer document generation sent).2.Sound held := by
  have hmove {message : DataPlaneMessage} {rest : List DataPlaneMessage} (hto : w.toAgent = message :: rest) :
      (w.heard ++ [message]) ++ rest = w.heard ++ w.toAgent := by
    rw [hto, List.append_assoc, List.singleton_append]
  have hquiet {message : DataPlaneMessage} {rest : List DataPlaneMessage} (hto : w.toAgent = message :: rest)
      (lines : List (Option AgentMessage)) (hlines : pings lines = []) (side : Side) :
      Wire.Sound held { w with
        toAgent := rest, heard := w.heard ++ [message], toPlane := w.toPlane ++ lines, side := side } := by
    refine ⟨?_, ?_, ?_⟩ <;> dsimp only <;> rw [hmove hto]
    · rw [pings_append, hlines, List.append_nil]
      exact h.conserved
    · exact h.reports
    · exact h.unrefused
  have hsame {message : DataPlaneMessage} {rest : List DataPlaneMessage} (hto : w.toAgent = message :: rest)
      (side : Side) : Wire.Sound held { w with
        toAgent := rest, heard := w.heard ++ [message], side := side } := by
    have := hquiet hto [] rfl side
    rwa [List.append_nil] at this
  unfold Wire.answer
  split
  · exact h
  · exact h
  · rename_i message rest hside hto
    split
    · split
      · exact hquiet hto _ (pings_delivery _) _
      · exact hsame hto _
    · exact hsame hto _
    · exact hsame hto _
  · rename_i message rest hside hto
    exact hsame hto _

theorem Wire.Sound.step (h : w.Sound held) (event : AgentEvent) :
    (w.step document generation event).2.Sound held := by
  cases event with
  | answer sent => exact h.answer sent
  | ask =>
    rw [Wire.step, Wire.ask]
    split
    · refine ⟨?_, h.reports, h.unrefused⟩
      dsimp only
      rw [pings_append, ← List.append_assoc, ← h.conserved]
      rfl
    · exact h
  | hangUp => exact ⟨h.conserved, h.reports, h.unrefused⟩

theorem Wire.Sound.say (h : w.Sound held) {message : DataPlaneMessage} (hpong : pongs [message] = [])
    (hstatus : ∀ generation state, message = .status generation state → held = some generation)
    (hrejected : ∀ generation errors, message ≠ .configRejected generation errors) :
    (w.say message).Sound held := by
  refine ⟨?_, fun generation state hmem => ?_, fun generation errors hmem => ?_⟩
  · rw [Wire.say, ← List.append_assoc, pongs_append, hpong, List.append_nil]
    exact h.conserved
  · rw [Wire.say, ← List.append_assoc, List.mem_append, List.mem_singleton] at hmem
    exact hmem.elim (h.reports generation state) fun heq => hstatus generation state heq.symm
  · rw [Wire.say, ← List.append_assoc, List.mem_append, List.mem_singleton] at hmem
    exact hmem.elim (h.unrefused generation errors) fun heq => hrejected generation errors heq.symm

/-- A question that is read is answered at once. -/
theorem Wire.Sound.pong (h : w.Sound held) {nonce : UInt64} {rest : List (Option AgentMessage)}
    (hto : w.toPlane = some (.ping nonce) :: rest) :
    (Wire.say { w with toPlane := rest } (.pong nonce)).Sound held := by
  refine ⟨?_, fun generation state hmem => ?_, fun generation errors hmem => ?_⟩
  · rw [Wire.say, ← List.append_assoc, pongs_append, List.append_assoc]
    exact h.conserved.trans (by rw [hto]; rfl)
  · rw [Wire.say, ← List.append_assoc, List.mem_append, List.mem_singleton] at hmem
    exact hmem.elim (h.reports generation state) fun heq => by cases heq
  · rw [Wire.say, ← List.append_assoc, List.mem_append, List.mem_singleton] at hmem
    exact hmem.elim (h.unrefused generation errors) fun heq => by cases heq

/-- A line that is no question is dropped without a trace. -/
theorem Wire.Sound.drop (h : w.Sound held) {line : Option AgentMessage} {rest : List (Option AgentMessage)}
    (hto : w.toPlane = line :: rest) (hping : pings [line] = []) :
    Wire.Sound held { w with toPlane := rest } := by
  refine ⟨h.conserved.trans ?_, h.reports, h.unrefused⟩
  rw [hto, ← List.singleton_append, pings_append, hping, List.nil_append]

/-- As long as nothing is held nothing is reported. -/
theorem Wire.Sound.hold (h : w.Sound none) : w.Sound held :=
  ⟨h.conserved, fun generation state hmem =>
    (Option.some_ne_none _ (h.reports generation state hmem).symm).elim,
    h.unrefused⟩

/-! ## What is on its way to a traffic path -/

/-- The connection a process starts with. -/
def First (document : Document) (handed : List ℕ) (w : Wire) : Prop :=
  (∃ pid, w.toAgent = [.hello pid none] ∧ w.side = .waiting ∧ w.toPlane = []) ∨
    (w.side = .gone ∧ w.toPlane = []) ∨
    ((∃ nonce, w.side = .answering nonce) ∨ w.side = .gone) ∧
      ∃ generation ∈ handed, ∃ rest, w.toPlane = Wire.delivery document (UInt64.ofNat generation) ++ rest

/-- A connection of a process that serves. -/
def Later (w : Wire) : Prop :=
  (∀ pid, .hello pid none ∉ w.toAgent) ∧ ∀ line ∈ w.toPlane, ∃ nonce, line = some (.ping nonce)

/-- The document is handed out once, under a number of its own, and questions come after it. -/
theorem First.step (h : First document handed w) (event : AgentEvent) :
    First document
      (if (w.step document generation event).1 = generation then handed
        else (w.step document generation event).1 :: handed)
      (w.step document generation event).2 := by
  have hend {w : Wire} (h : First document handed w) : First document handed { w with side := .gone } := by
    rcases h with ⟨pid, -, -, hempty⟩ | ⟨-, hempty⟩ | ⟨-, hdelivered⟩
    · exact .inr (.inl ⟨rfl, hempty⟩)
    · exact .inr (.inl ⟨rfl, hempty⟩)
    · exact .inr (.inr ⟨.inr rfl, hdelivered⟩)
  cases event with
  | answer sent =>
    rw [Wire.step]
    unfold Wire.answer
    split
    · rw [if_pos rfl]
      exact h
    · rw [if_pos rfl]
      exact h
    · rename_i message rest hside hto
      rcases h with ⟨pid, hto', -, hempty⟩ | ⟨hgone, -⟩ | ⟨⟨nonce, hanswering⟩ | hgone, -⟩
      · rw [hto, List.cons.injEq] at hto'
        obtain ⟨rfl, rfl⟩ := hto'
        cases sent with
        | false =>
          simp only [Nat.add_eq_left, one_ne_zero, Bool.false_eq_true, if_false]
          exact .inr (.inl ⟨rfl, hempty⟩)
        | true =>
          simp only [Nat.add_eq_left, one_ne_zero, if_true, if_false]
          refine .inr (.inr ⟨.inl ⟨0, rfl⟩, generation + 1, List.mem_cons_self, [], ?_⟩)
          rw [hempty, List.nil_append, List.append_nil]
      · rw [hside] at hgone
        cases hgone
      · rw [hside] at hanswering
        cases hanswering
      · rw [hside] at hgone
        cases hgone
    · rename_i message rest hside hto
      rw [if_pos rfl]
      rcases h with ⟨pid, -, hwaiting, -⟩ | ⟨hgone, -⟩ | hdelivered
      · rw [hside] at hwaiting
        cases hwaiting
      · rw [hside] at hgone
        cases hgone
      · exact .inr (.inr hdelivered)
  | ask =>
    rw [Wire.step, if_pos rfl, Wire.ask]
    split
    · rename_i nonce hside
      rcases h with ⟨pid, -, hwaiting, -⟩ | ⟨hgone, -⟩ | ⟨-, given, hgiven, rest, hto⟩
      · rw [hside] at hwaiting
        cases hwaiting
      · rw [hside] at hgone
        cases hgone
      · refine .inr (.inr ⟨.inl ⟨nonce + 1, rfl⟩, given, hgiven, rest ++ [some (.ping (nonce + 1))], ?_⟩)
        rw [← List.append_assoc, ← hto]
    · exact h
  | hangUp =>
    rw [Wire.step, if_pos rfl]
    exact hend h

theorem later_greet (pid : UInt32) (generation : UInt64) : Later (Wire.greet pid (some generation)) := by
  simp [Later, Wire.greet]

/-- A process that serves is only asked whether it does. -/
theorem Later.step (h : Later w) (event : AgentEvent) :
    (w.step document generation event).1 = generation ∧ Later (w.step document generation event).2 := by
  have hrest {message : DataPlaneMessage} {rest : List DataPlaneMessage} (hto : w.toAgent = message :: rest)
      (pid : UInt32) : .hello pid none ∉ rest := by
    have := h.1 pid
    rw [hto] at this
    exact fun hmem => this (List.mem_cons_of_mem _ hmem)
  cases event with
  | answer sent =>
    rw [Wire.step]
    unfold Wire.answer
    split
    · exact ⟨rfl, h⟩
    · exact ⟨rfl, h⟩
    · rename_i message rest hside hto
      split
      · rename_i pid
        have := h.1 pid
        rw [hto] at this
        exact absurd List.mem_cons_self this
      · exact ⟨rfl, hrest hto, h.2⟩
      · exact ⟨rfl, hrest hto, h.2⟩
    · rename_i message rest hside hto
      exact ⟨rfl, hrest hto, h.2⟩
  | ask =>
    rw [Wire.step, Wire.ask]
    split
    · refine ⟨rfl, h.1, fun line hline => ?_⟩
      rw [List.mem_append, List.mem_singleton] at hline
      exact hline.elim (h.2 line) fun heq => ⟨_, heq⟩
    · exact ⟨rfl, h⟩
  | hangUp => exact ⟨rfl, h⟩

theorem Later.say (h : Later w) {message : DataPlaneMessage} (hhello : ∀ pid, message ≠ .hello pid none) :
    Later (w.say message) := by
  refine ⟨fun pid hmem => ?_, h.2⟩
  rw [Wire.say, List.mem_append, List.mem_singleton] at hmem
  exact hmem.elim (h.1 pid) fun heq => hhello pid heq.symm

theorem Later.drop (h : Later w) {line : Option AgentMessage} {rest : List (Option AgentMessage)}
    (hto : w.toPlane = line :: rest) : Later { w with toPlane := rest } :=
  ⟨h.1, fun line hline => h.2 line (by rw [hto]; exact List.mem_cons_of_mem _ hline)⟩

/-! ## One traffic path -/

/-- What holds of a traffic path at any time. -/
structure Plane.Sound (document : Document) (p : Plane) : Prop where
  served : ∀ live, p.live = some live → live.config = document.config ∧ document.oneLine = true ∧
    ∃ given ∈ p.handed, live.generation = UInt64.ofNat given
  wires : ∀ w ∈ p.wires, w.Sound (p.live.map Live.generation)
  first : p.live = none → p.ended = none → ∃ w, p.wires = [w] ∧ First document p.handed w
  later : ∀ w older, p.live ≠ none → p.linked = true → p.wires = w :: older → Later w
  gone : p.ended ≠ none → p.live = none ∧ p.linked = false
  ended : p.ended = some .protocol ∨ p.ended = some .invalidConfig → document.oneLine = false

theorem sound_start (pid : UInt32) : (Plane.start pid).Sound document where
  served := by simp [Plane.start]
  wires := by
    intro w hw
    rw [List.mem_singleton.mp hw]
    exact sound_greet pid none
  first _ _ := ⟨_, rfl, .inl ⟨pid, rfl, rfl, rfl⟩⟩
  later := by simp [Plane.start]
  gone := by simp [Plane.start]
  ended := by simp [Plane.start]

variable {p : Plane}

/-- The first line a process reads is the document, or cannot be read. -/
theorem Plane.Sound.begin (h : p.Sound document) (hlive : p.live = none) (hended : p.ended = none)
    {line : Option AgentMessage} {rest : List (Option AgentMessage)} {older : List Wire}
    (hwires : p.wires = w :: older) (hto : w.toPlane = line :: rest) :
    (Plane.begin { p with wires := { w with toPlane := rest } :: older } line).Sound document := by
  obtain ⟨first, hfirst, hmine⟩ := h.first hlive hended
  obtain ⟨rfl, rfl⟩ := List.cons_eq_cons.mp (hwires.symm.trans hfirst)
  have hsound : w.Sound none := by
    have := h.wires w (by rw [hwires]; exact List.mem_singleton_self w)
    rwa [hlive] at this
  obtain ⟨given, hgiven, more, hdelivered⟩ : ∃ given ∈ p.handed, ∃ rest,
      w.toPlane = Wire.delivery document (UInt64.ofNat given) ++ rest := by
    rcases hmine with ⟨pid, -, -, hempty⟩ | ⟨-, hempty⟩ | ⟨-, hdelivered⟩
    · rw [hto] at hempty
      cases hempty
    · rw [hto] at hempty
      cases hempty
    · exact hdelivered
  rw [hto, Wire.delivery] at hdelivered
  cases hline : document.oneLine with
  | true =>
    rw [hline, if_pos rfl, List.singleton_append, List.cons_eq_cons] at hdelivered
    obtain ⟨rfl, -⟩ := hdelivered
    rw [Plane.begin]
    dsimp only
    rw [validate_eq_ok.mpr document.accepted]
    refine ⟨?_, ?_, by simp, by simp, by simp [hended], by simp [hended]⟩
    · rintro live ⟨rfl⟩
      exact ⟨rfl, hline, given, hgiven, rfl⟩
    · intro w' hw'
      rw [List.mem_singleton.mp hw']
      exact (hsound.drop hto rfl).hold
  | false =>
    rw [hline, if_neg Bool.false_ne_true, List.singleton_append, List.cons_eq_cons] at hdelivered
    obtain ⟨rfl, -⟩ := hdelivered
    unfold Plane.begin
    refine ⟨by simp [hlive], ?_, by simp, by simp [hlive], by simp [hlive], fun _ => hline⟩
    intro w' hw'
    rw [List.mem_singleton.mp hw', hlive]
    exact hsound.drop hto rfl

/-- Writing on the connection in use, and taking lines off it. -/
theorem Plane.Sound.write (h : p.Sound document) (hlive : p.live ≠ none) {older : List Wire}
    (hwires : p.wires = w :: older) {w' : Wire} (hsound : w'.Sound (p.live.map Live.generation))
    (hlater : p.linked = true → Later w') (said : Option DataPlaneState) :
    Plane.Sound document { p with wires := w' :: older, said := said } where
  served := h.served
  wires v hv := (List.mem_cons.mp hv).elim (fun heq => heq ▸ hsound) fun hmem =>
    h.wires v (hwires ▸ List.mem_cons_of_mem w hmem)
  first hnone := absurd hnone hlive
  later v rest _ hlinked heq := by
    obtain ⟨rfl, -⟩ := List.cons_eq_cons.mp heq
    exact hlater hlinked
  gone := h.gone
  ended := h.ended

theorem Plane.Sound.read (h : p.Sound document) : p.read.Sound document := by
  unfold Plane.read
  split
  · rename_i w older hlinked hwires
    split
    · exact h
    · rename_i line rest hto
      have hopen : p.ended = none := by
        by_contra hne
        rw [(h.gone hne).2] at hlinked
        cases hlinked
      dsimp only
      split
      · rename_i hlive
        exact h.begin hlive hopen hwires hto
      · rename_i live hlive
        have hserves : p.live ≠ none := by
          rw [hlive]
          exact Option.some_ne_none live
        have hlater := h.later w older hserves hlinked hwires
        have hsound := h.wires w (by rw [hwires]; exact List.mem_cons_self)
        -- A process that serves is sent nothing but questions.
        obtain ⟨nonce, rfl⟩ := hlater.2 line (by rw [hto]; exact List.mem_cons_self)
        refine h.write hserves hwires (hsound.pong hto) (fun _ => (hlater.drop hto).say ?_) p.said
        intro pid heq
        cases heq
  · exact h

theorem Plane.Sound.connect (h : p.Sound document) : p.connect.Sound document := by
  unfold Plane.connect
  split
  · rename_i live hlive
    split
    · exact h
    · refine ⟨h.served, ?_, by simp [hlive], ?_, ?_, h.ended⟩
      · intro w hw
        rcases List.mem_cons.mp hw with rfl | hmem
        · exact sound_greet _ _
        · exact h.wires w hmem
      · rintro w older - - heq
        obtain ⟨rfl, -⟩ := List.cons_eq_cons.mp heq
        exact later_greet _ _
      · intro hne
        have := (h.gone hne).1
        rw [hlive] at this
        cases this
  · exact h

theorem Plane.Sound.report (h : p.Sound document) : p.report.Sound document := by
  unfold Plane.report
  split
  · rename_i w older live hlinked hwires hlive
    have hserves : p.live ≠ none := by
      rw [hlive]
      exact Option.some_ne_none live
    have hsound := h.wires w (by rw [hwires]; exact List.mem_cons_self)
    refine h.write hserves hwires (hsound.say rfl ?_ ?_)
      (fun hl => (h.later w older hserves hl hwires).say ?_) _
    · intro generation state heq
      rw [hlive, ← (DataPlaneMessage.status.inj heq).1]
      rfl
    · intro generation errors heq
      cases heq
    · intro pid heq
      cases heq
  · exact h

theorem Plane.Sound.lose (h : p.Sound document) {why : ErrorKind} (hprotocol : why ≠ .protocol)
    (hinvalid : why ≠ .invalidConfig) : (p.lose why).Sound document := by
  unfold Plane.lose
  split
  · rename_i hlive
    split
    · refine ⟨h.served, h.wires, by simp, by simp, fun _ => ⟨hlive, rfl⟩, ?_⟩
      rintro (heq | heq)
      · exact absurd (Option.some.inj heq) hprotocol
      · exact absurd (Option.some.inj heq) hinvalid
    · exact h
  · rename_i live hlive
    refine ⟨h.served, h.wires, by simp [hlive], by simp, fun hne => ?_, h.ended⟩
    have := (h.gone hne).1
    rw [hlive] at this
    cases this

/-- Whatever a traffic path does. -/
theorem Plane.Sound.step (h : p.Sound document) (event : PlaneEvent) : (p.step event).Sound document := by
  cases event with
  | read => exact h.read
  | connect => exact h.connect
  | watch =>
    rw [Plane.step]
    split
    · exact h
    · exact h.report
  | tick => exact h.report
  | become state => exact ⟨h.served, h.wires, h.first, h.later, h.gone, h.ended⟩
  | lose => exact h.lose (by decide) (by decide)
  | giveUp =>
    rw [Plane.step]
    split
    · exact h.lose (by decide) (by decide)
    · exact h

/-- Whatever the agent does on one of its connections. -/
theorem Plane.Sound.served_step (h : p.Sound document) (place : ℕ) (event : AgentEvent) :
    (p.served document generation place event).2.Sound document := by
  unfold Plane.served
  split
  · exact h
  · rename_i w hw
    dsimp only
    have hmem {given : ℕ} (hgiven : given ∈ p.handed) : given ∈
        if (w.step document generation event).1 = generation then p.handed
        else (w.step document generation event).1 :: p.handed := by
      split
      · exact hgiven
      · exact List.mem_cons_of_mem _ hgiven
    refine ⟨fun live hlive => ?_, fun v hv => ?_, fun hlive hended => ?_, fun v older hserves hl heq => ?_,
      h.gone, h.ended⟩
    · obtain ⟨hconfig, hline, given, hgiven, hgeneration⟩ := h.served live hlive
      exact ⟨hconfig, hline, given, hmem hgiven, hgeneration⟩
    · rcases List.mem_or_eq_of_mem_set hv with hold | rfl
      · exact h.wires v hold
      · exact (h.wires w (List.mem_of_getElem? hw)).step event
    · obtain ⟨first, hfirst, hmine⟩ := h.first hlive hended
      rw [hfirst, List.getElem?_singleton] at hw
      split at hw
      · rename_i hplace
        obtain rfl := Option.some.inj hw
        refine ⟨_, by rw [hfirst, hplace]; rfl, hmine.step event⟩
      · cases hw
    · cases place with
      | zero =>
        cases hwires : p.wires with
        | nil =>
          rw [hwires] at hw
          cases hw
        | cons head tail =>
          rw [hwires] at hw heq
          obtain rfl := Option.some.inj hw
          obtain ⟨rfl, -⟩ := List.cons_eq_cons.mp heq
          exact ((h.later head tail hserves hl hwires).step event).2
      | succ place =>
        cases hwires : p.wires with
        | nil =>
          rw [hwires] at hw
          cases hw
        | cons head tail =>
          rw [hwires] at heq
          obtain ⟨rfl, -⟩ := List.cons_eq_cons.mp heq
          exact h.later head tail hserves hl hwires

/-- Numbers are given out once. -/
theorem Plane.handed_served (document : Document) (generation : ℕ) (p : Plane) (place : ℕ)
    (event : AgentEvent) :
    generation ≤ (p.served document generation place event).1 ∧
      ∀ given ∈ (p.served document generation place event).2.handed, given ∈ p.handed ∨
        generation < given ∧ given ≤ (p.served document generation place event).1 := by
  have hcount (w : Wire) : generation ≤ (w.step document generation event).1 := by
    cases event with
    | answer sent =>
      rw [Wire.step]
      unfold Wire.answer
      split
      · exact le_rfl
      · exact le_rfl
      · split
        · split <;> exact Nat.le_succ generation
        · exact le_rfl
        · exact le_rfl
      · exact le_rfl
    | ask => exact le_rfl
    | hangUp => exact le_rfl
  unfold Plane.served
  split
  · exact ⟨le_rfl, fun given hgiven => .inl hgiven⟩
  · rename_i w hw
    refine ⟨hcount w, fun given hgiven => ?_⟩
    dsimp only at hgiven
    split at hgiven
    · exact .inl hgiven
    · rename_i hne
      rcases List.mem_cons.mp hgiven with rfl | hold
      · exact .inr ⟨lt_of_le_of_ne (hcount w) (Ne.symm hne), le_rfl⟩
      · exact .inl hold

@[simp] theorem Plane.handed_step (p : Plane) (event : PlaneEvent) : (p.step event).handed = p.handed := by
  have hreport : p.report.handed = p.handed := by
    unfold Plane.report
    split <;> rfl
  have hlose (why : ErrorKind) : (p.lose why).handed = p.handed := by
    unfold Plane.lose
    split
    · split <;> rfl
    · rfl
  cases event with
  | read =>
    rw [Plane.step]
    unfold Plane.read
    split
    · split
      · rfl
      · dsimp only
        split
        · unfold Plane.begin
          split
          · split <;> rfl
          · rfl
        · unfold Plane.handle
          split
          · split <;> rfl
          · rfl
          · rfl
    · rfl
  | connect =>
    rw [Plane.step]
    unfold Plane.connect
    split
    · split <;> rfl
    · rfl
  | watch =>
    rw [Plane.step]
    split
    · rfl
    · exact hreport
  | tick => exact hreport
  | become state => rfl
  | lose => exact hlose _
  | giveUp =>
    rw [Plane.step]
    split
    · exact hlose _
    · rfl

/-! ## All of them -/

/-- Every traffic path is in order, and no number was given out to two of them. -/
structure System.Sound (document : Document) (s : System) : Prop where
  planes : ∀ p ∈ s.planes, p.Sound document
  counted : ∀ p ∈ s.planes, ∀ given ∈ p.handed, given ≤ s.generation
  apart : ∀ (i j : ℕ) (p q : Plane), s.planes[i]? = some p → s.planes[j]? = some q → i ≠ j →
    p.handed.Disjoint q.handed

variable {s : System}

/-- A traffic path takes the place of itself. -/
theorem System.Sound.set (h : s.Sound document) {place next : ℕ} {q : Plane} (hp : s.planes[place]? = some p)
    (hnext : s.generation ≤ next) (hq : q.Sound document)
    (hhanded : ∀ given ∈ q.handed, given ∈ p.handed ∨ s.generation < given ∧ given ≤ next) :
    System.Sound document ⟨next, s.planes.set place q⟩ := by
  have hmem := List.mem_of_getElem? hp
  have hapart (i : ℕ) (other : Plane) (hother : s.planes[i]? = some other) (hne : i ≠ place) :
      other.handed.Disjoint q.handed := by
    intro given hgiven hgiven'
    rcases hhanded given hgiven' with hold | ⟨hnew, -⟩
    · exact h.apart i place other p hother hp hne hgiven hold
    · exact absurd (h.counted other (List.mem_of_getElem? hother) given hgiven) (Nat.not_le.mpr hnew)
  refine ⟨fun p' hp' => ?_, fun p' hp' given hgiven => ?_, fun i j p' q' hi hj hne => ?_⟩
  · rcases List.mem_or_eq_of_mem_set hp' with hold | rfl
    · exact h.planes p' hold
    · exact hq
  · rcases List.mem_or_eq_of_mem_set hp' with hold | rfl
    · exact (h.counted p' hold given hgiven).trans hnext
    · rcases hhanded given hgiven with hold | ⟨-, hle⟩
      · exact (h.counted p hmem given hold).trans hnext
      · exact hle
  · rw [List.getElem?_set] at hi hj
    split at hi
    · rename_i hplace
      rw [if_neg (fun heq => hne (hplace.symm.trans heq))] at hj
      split at hi
      · obtain rfl := Option.some.inj hi
        exact (hapart j q' hj fun heq => hne (hplace.symm.trans heq.symm)).symm
      · cases hi
    · rename_i hplace
      split at hj
      · split at hj
        · obtain rfl := Option.some.inj hj
          exact hapart i p' hi fun heq => hplace heq.symm
        · cases hj
      · exact h.apart i j p' q' hi hj hne

/-- Whatever happens on the node. -/
theorem System.Sound.step (h : s.Sound document) (event : Event) :
    (s.step document event).Sound document := by
  cases event with
  | start pid =>
    have hnone {i : ℕ} {p : Plane} (hi : (s.planes ++ [Plane.start pid])[i]? = some p) :
        s.planes[i]? = some p ∨ p.handed = [] := by
      rw [List.getElem?_append] at hi
      split at hi
      · exact .inl hi
      · have hlast := List.mem_of_getElem? hi
        rw [List.mem_singleton.mp hlast]
        exact .inr rfl
    refine ⟨fun p hp => ?_, fun p hp given hgiven => ?_, fun i j p q hi hj hne => ?_⟩
    · rcases List.mem_append.mp hp with hold | hnew
      · exact h.planes p hold
      · rw [List.mem_singleton.mp hnew]
        exact sound_start pid
    · rcases List.mem_append.mp hp with hold | hnew
      · exact h.counted p hold given hgiven
      · rw [List.mem_singleton.mp hnew] at hgiven
        cases hgiven
    · rcases hnone hi with hi | hempty
      · rcases hnone hj with hj | hempty
        · exact h.apart i j p q hi hj hne
        · rw [hempty]
          exact List.disjoint_nil_right _
      · rw [hempty]
        exact List.disjoint_nil_left _
  | plane place event =>
    rw [System.step]
    split
    · exact h
    · rename_i p hp
      refine h.set hp le_rfl ((h.planes p (List.mem_of_getElem? hp)).step event) fun given hgiven => ?_
      rw [Plane.handed_step] at hgiven
      exact .inl hgiven
  | agent place wire event =>
    rw [System.step]
    split
    · exact h
    · rename_i p hp
      have hserved := p.handed_served document s.generation wire event
      exact h.set hp hserved.1 ((h.planes p (List.mem_of_getElem? hp)).served_step wire event) hserved.2

theorem sound_run (events : List Event) : (Runs.run (System.step document) .new events).Sound document :=
  Runs.run_inv (fun _ event h => h.step event)
    ⟨by simp [System.new], by simp [System.new], by simp [System.new]⟩
    events

/-- A process that is started is handed the document if the agent answers it. -/
theorem start_serves (hline : document.oneLine = true) (pid : UInt32) (s : System) :
    ∃ p ∈ (Runs.run (System.step document) s
      [.start pid, .agent s.planes.length 0 (.answer true), .plane s.planes.length .read]).planes,
      p.live = some (.build ⟨UInt64.ofNat (s.generation + 1), document.config, .empty⟩) := by
  have hdelivery (generation : UInt64) :
      Wire.delivery document generation = [some (.config ⟨generation, document.config, .empty⟩)] := by
    rw [Wire.delivery, if_pos hline]
  refine ⟨{ Plane.start pid with
    wires := [⟨[], [.hello pid none], [], .answering 0, []⟩], handed := [s.generation + 1], linked := false,
    live := some (.build ⟨UInt64.ofNat (s.generation + 1), document.config, .empty⟩) }, ?_, rfl⟩
  simp [System.step, Plane.start, Plane.served, Wire.step, Wire.answer, Wire.greet, Plane.step, Plane.read,
    Plane.begin, hdelivery, validate_eq_ok.mpr document.accepted]

/-- As long as the numbers have not come round, a generation is the number it was handed out under. -/
theorem System.Sound.eq_of_generation (h : s.Sound document) (hfew : s.generation < 2 ^ 64) {i j : ℕ}
    {p q : Plane} (hi : s.planes[i]? = some p) (hj : s.planes[j]? = some q) {one other : Live}
    (hone : p.live = some one) (hother : q.live = some other) (heq : one.generation = other.generation) :
    i = j := by
  by_contra hne
  have hmemp := List.mem_of_getElem? hi
  have hmemq := List.mem_of_getElem? hj
  obtain ⟨-, -, given, hgiven, hg⟩ := (h.planes p hmemp).served one hone
  obtain ⟨-, -, given', hgiven', hg'⟩ := (h.planes q hmemq).served other hother
  have hsame : given = given' := by
    have := congrArg UInt64.toNat (hg.symm.trans (heq.trans hg'))
    rwa [UInt64.toNat_ofNat_of_lt' ((h.counted p hmemp given hgiven).trans_lt hfew),
      UInt64.toNat_ofNat_of_lt' ((h.counted q hmemq given' hgiven').trans_lt hfew)] at this
  exact h.apart i j p q hi hj hne hgiven (hsame ▸ hgiven')

/-- A traffic path serves the document of the agent or nothing at all, and the delivery it starts with is
never refused. One can be started exactly when the text of the document is a single line. Reports of a
generation come from one traffic path only. -/
theorem served_run (events : List Event) :
    let s := Runs.run (System.step document) .new events
    (∀ p ∈ s.planes, ∀ live, p.live = some live → live.config = document.config ∧ Accepted live.config) ∧
      (document.oneLine = true ↔
        ∃ later, ∃ p ∈ (Runs.run (System.step document) s later).planes, p.live.isSome) ∧
      (document.oneLine = true → ∀ p ∈ s.planes, p.ended ≠ some .protocol ∧ p.ended ≠ some .invalidConfig) ∧
      (s.generation < 2 ^ 64 → ∀ (i j : ℕ) (p q : Plane) (one other : Live), s.planes[i]? = some p →
        s.planes[j]? = some q → p.live = some one → q.live = some other →
          one.generation = other.generation → i = j) := by
  intro s
  have h : s.Sound document := sound_run events
  refine ⟨fun p hp live hlive => ?_, ⟨fun hline => ?_, ?_⟩, fun hline p hp => ?_, ?_⟩
  · obtain ⟨hconfig, -⟩ := (h.planes p hp).served live hlive
    exact ⟨hconfig, hconfig ▸ document.accepted⟩
  · obtain ⟨p, hp, hlive⟩ := start_serves hline 1 s
    exact ⟨_, p, hp, by rw [hlive, Option.isSome_some]⟩
  · rintro ⟨later, p, hp, hlive⟩
    obtain ⟨live, hlive⟩ := Option.isSome_iff_exists.mp hlive
    rw [← Runs.run_append] at hp
    exact (((sound_run (events ++ later)).planes p hp).served live hlive).2.1
  · have hended := (h.planes p hp).ended
    rw [hline] at hended
    exact ⟨fun heq => Bool.noConfusion (hended (.inl heq)), fun heq => Bool.noConfusion (hended (.inr heq))⟩
  · exact fun hfew i j p q one other hi hj hone hother heq => h.eq_of_generation hfew hi hj hone hother heq

/-- What the agent hears is true: on each connection the answers are those to its questions, in the order they
were asked, a report names the generation that the traffic path holds, and nothing is ever refused. -/
theorem heard_run (events : List Event) :
    ∀ p ∈ (Runs.run (System.step document) .new events).planes, ∀ w ∈ p.wires,
      pongs w.heard <+: w.asked ∧
        (∀ generation state, .status generation state ∈ w.heard →
          ∃ live, p.live = some live ∧ live.generation = generation) ∧
        ∀ generation errors, .configRejected generation errors ∉ w.heard := by
  intro p hp w hw
  have h := ((sound_run events).planes p hp).wires w hw
  refine ⟨?_, fun generation state hmem => ?_, fun generation errors hmem => ?_⟩
  · rw [h.conserved, pongs_append, List.append_assoc]
    exact List.prefix_append _ _
  · exact Option.map_eq_some_iff.mp (h.reports generation state (List.mem_append_left _ hmem))
  · exact h.unrefused generation errors (List.mem_append_left _ hmem)

/-- A document that asks for nothing. -/
def bare : Document where
  text := "{}"
  config := Config.empty
  accepted := validate_eq_ok.mp (by decide)

/-- A process is started and served, connects again, and answers a question. -/
def talk : List Event :=
  [.start 7, .agent 0 0 (.answer true), .plane 0 .read, .plane 0 .connect, .agent 0 0 (.answer true),
    .agent 0 0 .ask, .plane 0 .read, .agent 0 0 (.answer true)]

/-- The second connection. -/
def called : Wire := ⟨[], [.hello 7 (some 1), .pong 1], [], .answering 1, [1]⟩

/-- The process that was started. -/
def calling : Plane where
  pid := 7
  live := some (.build ⟨1, Config.empty, .empty⟩)
  state := .starting
  said := some .starting
  wires := [called, ⟨[], [.hello 7 none], [], .answering 0, []⟩]
  linked := true
  ended := none
  handed := [1]

theorem heard_run_called :
    pongs called.heard = [1] ∧ pongs called.heard <+: called.asked ∧
      (∀ generation state, .status generation state ∈ called.heard →
        ∃ live, calling.live = some live ∧ live.generation = generation) ∧
      ∀ generation errors, .configRejected generation errors ∉ called.heard := by
  have hdelivery (generation : UInt64) :
      Wire.delivery bare generation = [some (.config ⟨generation, Config.empty, .empty⟩)] := by
    rw [Wire.delivery, if_pos (by decide)]
    rfl
  have hcalling : calling ∈ (Runs.run (System.step bare) .new talk).planes := by
    have hvalid : validate Config.empty = .ok () := validate_eq_ok.mpr bare.accepted
    simp [talk, calling, called, System.step, System.new, Plane.start, Plane.served, Wire.step, Wire.answer,
      Wire.greet, Wire.ask, Wire.say, Plane.step, Plane.read, Plane.begin, Plane.connect, Plane.handle,
      hdelivery, hvalid, Live.build]
  exact ⟨rfl, heard_run talk calling hcalling called (List.mem_cons_self ..)⟩

end

end EkEk.Agent.Link
