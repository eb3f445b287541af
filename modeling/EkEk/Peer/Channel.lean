import EkEk.Lib.Runs
import EkEk.Peer.Wire

/-!
# Conversations

Reference: `admit`, `converse` and `greet` of `crates/ek-ek-peer/src/channel.rs`, and `Refusals` of
`crates/ek-ek-raft/src/join.rs`.

A node asks its refusal list once about a caller, when the connection is admitted, and then answers
line after line. The list may change while the connection is open. `invoked_admitted` is what a
service may rely on in every conversation: a hello of this node's protocol and schema was accepted
before, and the caller was either not on the list the connection was admitted against, or has no
certificate and asks for a service that is open to such callers.
-/

namespace EkEk.Peer

open Store

/-- What a listener is told before it binds. -/
structure Listening where
  node : NodeId
  schemaVersion : UInt32
  /-- The services a caller with no certificate may reach. -/
  opened : Finset String

/-- What the cluster reads of its own state. -/
abbrev Held := Except String (Option Snapshot)

/-- Whether the refusal list turns a caller away. -/
def refuses (held : Held) (caller : NodeId) : Bool :=
  (held.toOption.join).any fun state => caller ∈ state.removed

/-- What happens at this end of a conversation. -/
inductive Event (Body : Type) where
  | accepted (hello : Hello)
  /-- A service is invoked, with what the cluster holds at that moment. -/
  | invoked (service : String) (body : Body) (held : Held)
  | answered (answer : Answer Body)

/-- One turn of a conversation: what reading a line gave, what the cluster holds by then, what the
service answers if it is invoked, and whether the answer could be written. -/
structure Turn (Body : Type) where
  line : Except Failure (Option String)
  held : Held
  reply : Except Failure Body
  written : Except Failure Unit

/-- A conversation, with what happened in it, the newest first. It is over once there is a result. -/
structure Conversation (Body : Type) where
  caller : Option NodeId
  greeted : Bool
  calls : ℕ
  events : List (Event Body)
  result : Option (Except Failure ℕ)

/-- What a line is answered with, and whether the conversation goes on after it. -/
inductive Response (Body : Type) where
  | greets (hello : Hello) (answer : HelloAnswer)
  | answers (answer : Answer Body)
  | calls (call : Call Body)
  | ends (refusal : Refusal)

variable {Body : Type} (serde : Serde (Ask Body)) (listening : Listening)

/-- Decide whether a caller may speak to this node at all. -/
def greet (hello : Hello) : Except Refusal HelloAnswer :=
  if hello.protocol ≠ protocolRelease then
    .error ⟨"peer.wrong_protocol",
      s!"this node speaks {protocolRelease} and the caller speaks {hello.protocol}"⟩
  else if hello.schemaVersion ≠ listening.schemaVersion then
    .error ⟨"peer.wrong_schema", s!"this node reads config schema {listening.schemaVersion} " ++
      s!"and the caller reads {hello.schemaVersion}"⟩
  else .ok ⟨protocolRelease, listening.schemaVersion, listening.node.asStr⟩

/-- What a line gets from a node, given who speaks and whether the caller was greeted. -/
def respond (caller : Option NodeId) (greeted : Bool) (line : String) : Response Body :=
  match decode serde line with
  | .error failure => .answers (.refused ⟨"peer.unreadable", failure.detail⟩)
  | .ok (.hello hello) =>
    match greet listening hello with
    | .ok answer => .greets hello answer
    | .error refused => .ends refused
  | .ok (.health _) =>
    if greeted = false then .ends ⟨"peer.no_hello", "a peer spoke before it said hello"⟩
    else .answers (.health ⟨protocolRelease, listening.node.asStr⟩)
  | .ok (.call call) =>
    if greeted = false then .ends ⟨"peer.no_hello", "a peer spoke before it said hello"⟩
    else if caller = none ∧ call.service ∉ listening.opened then
      .ends ⟨"peer.not_open", s!"{call.service} is not open to a caller with no certificate"⟩
    else .calls call

namespace Conversation

/-- An answer goes out, and a failure to write it ends the conversation. -/
def answer (s : Conversation Body) (answer : Answer Body) (written : Except Failure Unit) :
    Conversation Body :=
  match written with
  | .ok () => { s with events := .answered answer :: s.events }
  | .error failure => { s with result := some (.error failure) }

/-- The caller is admitted or turned away. -/
def admitted (caller : Option NodeId) (held : Held) (written : Except Failure Unit) :
    Conversation Body :=
  let s : Conversation Body := ⟨caller, false, 0, [], none⟩
  match caller with
  | none => s
  | some name =>
    if refuses held name then
      let detail := s!"{name.asStr} was removed from this cluster"
      let s := s.answer (.refused ⟨"peer.removed", detail⟩) written
      { s with result := some (s.result.getD (.error ⟨.rejected, detail⟩)) }
    else s

/-- One line is read and answered. -/
def step (s : Conversation Body) (turn : Turn Body) : Conversation Body :=
  match s.result with
  | some _ => s
  | none =>
    match turn.line with
    | .error failure => { s with result := some (.error failure) }
    | .ok none => { s with result := some (.ok s.calls) }
    | .ok (some line) =>
      match respond serde listening s.caller s.greeted line with
      | .answers answer => s.answer answer turn.written
      | .greets hello answer =>
        Conversation.answer { s with greeted := true, events := .accepted hello :: s.events }
          (.hello answer) turn.written
      | .ends refusal =>
        let s := s.answer (.refused refusal) turn.written
        { s with result := some (s.result.getD (.ok s.calls)) }
      | .calls call =>
        let s := { s with
          calls := s.calls + 1
          events := .invoked call.service call.body turn.held :: s.events }
        s.answer (match turn.reply with
          | .ok body => .reply ⟨body⟩
          | .error failure => .refused ⟨"peer.no_service", failure.detail⟩) turn.written

/-- A hello this node accepts. -/
def Accepted (hello : Hello) : Prop :=
  hello.protocol = protocolRelease ∧ hello.schemaVersion = listening.schemaVersion

/-- Every service that was invoked was invoked for a caller that had been greeted, and for one with
a certificate or for a service that is open. -/
def Ordered (caller : Option NodeId) (events : List (Event Body)) : Prop :=
  ∀ later service body held earlier, events = later ++ .invoked service body held :: earlier →
    (∃ hello, .accepted hello ∈ earlier ∧ Accepted listening hello) ∧
      (caller = none → service ∈ listening.opened)

/-- What holds all along a conversation of a caller. -/
structure Sound (caller : Option NodeId) (s : Conversation Body) : Prop where
  caller_eq : s.caller = caller
  greeted : s.greeted = true → ∃ hello, .accepted hello ∈ s.events ∧ Accepted listening hello
  ordered : Ordered listening caller s.events

variable {serde listening} {caller : Option NodeId} {s : Conversation Body}

theorem greet_eq_ok {hello : Hello} {answer : HelloAnswer} (h : greet listening hello = .ok answer) :
    Accepted listening hello := by
  rw [greet] at h
  split at h
  · cases h
  · rename_i hprotocol
    split at h
    · cases h
    · rename_i hschema
      exact ⟨not_not.mp hprotocol, not_not.mp hschema⟩

/-- What is answered with a greeting is a hello this node accepts. -/
theorem accepted_of_respond {line : String} {greeted : Bool} {hello : Hello} {answer : HelloAnswer}
    (h : respond serde listening caller greeted line = .greets hello answer) :
    Accepted listening hello := by
  rw [respond] at h
  split at h
  · cases h
  · split at h
    · rename_i hgreet
      cases h
      exact greet_eq_ok hgreet
    · cases h
  · split at h <;> cases h
  · split at h
    · cases h
    · split at h <;> cases h

/-- What is passed on to a service is a call of a caller that was greeted, and open to it. -/
theorem calls_of_respond {line : String} {greeted : Bool} {call : Call Body}
    (h : respond serde listening caller greeted line = .calls call) :
    greeted = true ∧ (caller = none → call.service ∈ listening.opened) := by
  rw [respond] at h
  split at h
  · cases h
  · split at h <;> cases h
  · split at h <;> cases h
  · split at h
    · cases h
    · rename_i hgreeted
      split at h
      · cases h
      · rename_i hopen
        cases h
        refine ⟨Bool.eq_true_of_not_eq_false hgreeted, fun hcaller => ?_⟩
        by_contra hclosed
        exact hopen ⟨hcaller, hclosed⟩

/-- An event that is no invocation keeps the order. -/
theorem Ordered.cons {events : List (Event Body)} (h : Ordered listening caller events)
    {event : Event Body} (hevent : ∀ service body held, event ≠ .invoked service body held) :
    Ordered listening caller (event :: events) := by
  intro later service body held earlier hsplit
  cases later with
  | nil => exact absurd (List.cons.inj hsplit).1 (hevent service body held)
  | cons newest later => exact h later service body held earlier (List.cons.inj hsplit).2

theorem Sound.answer (h : Sound listening caller s) (answer : Answer Body)
    (written : Except Failure Unit) : Sound listening caller (s.answer answer written) := by
  cases written with
  | ok _ =>
    refine ⟨h.caller_eq, fun hgreeted => ?_, h.ordered.cons (by simp)⟩
    obtain ⟨hello, hmem, haccepted⟩ := h.greeted hgreeted
    exact ⟨hello, List.mem_cons_of_mem _ hmem, haccepted⟩
  | error failure => exact ⟨h.caller_eq, h.greeted, h.ordered⟩

/-- A conversation that ends keeps what it had. -/
theorem Sound.ended (h : Sound listening caller s) (result : Option (Except Failure ℕ)) :
    Sound listening caller { s with result := result } :=
  ⟨h.caller_eq, h.greeted, h.ordered⟩

theorem sound_admitted (caller : Option NodeId) (held : Held) (written : Except Failure Unit) :
    Sound listening caller (admitted caller held written : Conversation Body) := by
  have hfresh : Sound listening caller (⟨caller, false, 0, [], none⟩ : Conversation Body) := by
    refine ⟨rfl, fun hgreeted => absurd hgreeted Bool.false_ne_true,
      fun later service body held earlier hsplit => ?_⟩
    simp at hsplit
  cases caller with
  | none => exact hfresh
  | some name =>
    rw [admitted.eq_def]
    simp only
    split
    · exact (hfresh.answer _ _).ended _
    · exact hfresh

theorem sound_step (h : Sound listening caller s) (turn : Turn Body) :
    Sound listening caller (s.step serde listening turn) := by
  rw [step]
  split
  · exact h
  · split
    · exact h.ended _
    · exact h.ended _
    · split
      · exact h.answer _ _
      · rename_i hello answer hrespond
        have hgreets : Sound listening caller
            { s with greeted := true, events := .accepted hello :: s.events } :=
          ⟨h.caller_eq, fun _ => ⟨hello, List.mem_cons_self, accepted_of_respond hrespond⟩,
            h.ordered.cons (by simp)⟩
        exact hgreets.answer _ _
      · exact (h.answer _ _).ended _
      · rename_i call hrespond
        obtain ⟨hgreeted, hopen⟩ := calls_of_respond hrespond
        rw [h.caller_eq] at hopen
        have hinvoked : Sound listening caller { s with
            calls := s.calls + 1
            events := .invoked call.service call.body turn.held :: s.events } := by
          refine ⟨h.caller_eq, fun _ => ?_, ?_⟩
          · obtain ⟨hello, hmem, haccepted⟩ := h.greeted hgreeted
            exact ⟨hello, List.mem_cons_of_mem _ hmem, haccepted⟩
          · intro later service body held earlier hsplit
            cases later with
            | nil =>
              obtain ⟨hevent, rfl⟩ := List.cons.inj hsplit
              cases hevent
              exact ⟨h.greeted hgreeted, hopen⟩
            | cons newest later =>
              exact h.ordered later service body held earlier (List.cons.inj hsplit).2
        exact hinvoked.answer _ _

/-- A conversation that is over stays as it is. -/
theorem run_of_result {result : Except Failure ℕ} (h : s.result = some result)
    (turns : List (Turn Body)) : Runs.run (step serde listening) s turns = s := by
  induction turns with
  | nil => rfl
  | cons turn turns ih =>
    have hstep : s.step serde listening turn = s := by rw [step, h]
    rw [Runs.run_cons, hstep, ih]

/-- A caller that is refused gets no further. -/
theorem run_admitted_of_refuses {name : NodeId} {held : Held} (h : refuses held name = true)
    (written : Except Failure Unit) (turns : List (Turn Body)) :
    Runs.run (step serde listening) (admitted (some name) held written) turns =
      admitted (some name) held written := by
  have hresult : (admitted (some name) held written : Conversation Body).result.isSome := by
    rw [admitted]
    simp [h]
  obtain ⟨result, hresult⟩ := Option.isSome_iff_exists.mp hresult
  exact run_of_result hresult turns

theorem not_invoked_admitted (caller : Option NodeId) (held then_ : Held)
    (written : Except Failure Unit) (service : String) (body : Body) :
    .invoked service body then_ ∉ (admitted caller held written : Conversation Body).events := by
  cases caller with
  | none => exact List.not_mem_nil
  | some name =>
    rw [admitted.eq_def]
    simp only
    split
    · cases written <;> simp [answer]
    · simp

/-- Whatever a caller says, and however the refusal list changes while it speaks: a service is invoked
only after a hello of this node's protocol and schema was accepted, and only for a caller whose name
was not on the list the connection was admitted against, or for one without a certificate that asks
for a service that is open. -/
theorem invoked_admitted (serde : Serde (Ask Body)) (listening : Listening) (caller : Option NodeId)
    (held : Held) (written : Except Failure Unit) (turns : List (Turn Body))
    (later earlier : List (Event Body)) (service : String) (body : Body) (now : Held)
    (h : (Runs.run (step serde listening) (admitted caller held written) turns).events =
      later ++ .invoked service body now :: earlier) :
    (∃ hello, .accepted hello ∈ earlier ∧ Accepted listening hello) ∧
      match caller with
      | some name => ∀ state, held = .ok (some state) → name ∉ state.removed
      | none => service ∈ listening.opened := by
  have hsound : Sound listening caller
      (Runs.run (step serde listening) (admitted caller held written) turns) :=
    @Runs.run_inv _ _ (step serde listening) (Sound listening caller)
      (fun _ turn hs => sound_step hs turn) _ (sound_admitted caller held written) turns
  obtain ⟨hgreeted, hopen⟩ := hsound.ordered later service body now earlier h
  refine ⟨hgreeted, ?_⟩
  cases caller with
  | none => exact hopen rfl
  | some name =>
    rintro state rfl hremoved
    -- a name on the list is refused, and nothing is invoked after that
    have hrefuses : refuses (.ok (some state)) name = true := by
      simp [refuses, Except.toOption, hremoved]
    rw [run_admitted_of_refuses hrefuses] at h
    refine not_invoked_admitted (some name) (.ok (some state)) now written service body ?_
    rw [h]
    exact List.mem_append_right _ List.mem_cons_self

/-! ### A node that is removed while it speaks -/

/-- The line a caller opens with. -/
def helloText : String :=
  "\x7b\"message\":\"hello\",\"protocol\":\"ek-ek-peer/1\",\"schema_version\":1\x7d"

/-- The line of a call. -/
def callText : String :=
  "\x7b\"message\":\"call\",\"service\":\"raft.append_entries\",\"body\":null\x7d"

def sampleHello : Ask Unit := .hello ⟨"ek-ek-peer/1", 1⟩

def sampleCall : Ask Unit := .call ⟨"raft.append_entries", ()⟩

/-- The JSON of these two messages, where the only body is the one that says nothing. -/
def speaking : Serde (Ask Unit) where
  toString message := .ok (if message = sampleHello then helloText else callText)
  fromStr line :=
    if line = helloText then .ok sampleHello
    else if line = callText then .ok sampleCall
    else .error "expected value at line 1 column 1"

theorem speaking_hello : Carries speaking sampleHello helloText where
  written := rfl
  readBack := by simp [speaking]
  nonempty := by decide
  escaped := escaped_of_all (by decide)

theorem speaking_call : Carries speaking sampleCall callText where
  written := rfl
  readBack := by
    have hne : callText ≠ helloText := by decide
    simp [speaking, hne]
  nonempty := by decide
  escaped := escaped_of_all (by decide)

def sampleListening : Listening := ⟨⟨"node-a"⟩, 1, ∅⟩

/-- What the cluster holds before a node was removed and after it. -/
def sampleHeld (removed : Finset NodeId) : Held :=
  .ok (some { Snapshot.new Config.empty with removed := removed })

/-- A caller says hello, and calls a service once it was removed. -/
def sampleTurns : List (Turn Unit) :=
  [⟨.ok (some (helloText ++ "\n")), sampleHeld ∅, .ok (), .ok ()⟩,
    ⟨.ok (some (callText ++ "\n")), sampleHeld {⟨"node-b"⟩}, .ok (), .ok ()⟩]

/-- What happens in that conversation. -/
theorem events_sampleTurns :
    (Runs.run (step speaking sampleListening) (admitted (some ⟨"node-b"⟩) (sampleHeld ∅) (.ok ()))
      sampleTurns).events =
    [.answered (.reply ⟨()⟩)] ++ .invoked "raft.append_entries" () (sampleHeld {⟨"node-b"⟩}) ::
      [.answered (.hello ⟨"ek-ek-peer/1", 1, "node-a"⟩), .accepted ⟨"ek-ek-peer/1", 1⟩] := by
  have hhello (greeted : Bool) : respond speaking sampleListening (some ⟨"node-b"⟩) greeted
      (helloText ++ "\n") = .greets ⟨"ek-ek-peer/1", 1⟩ ⟨"ek-ek-peer/1", 1, "node-a"⟩ := by
    rw [respond, speaking_hello.decode]
    rfl
  have hcall : respond speaking sampleListening (some ⟨"node-b"⟩) true (callText ++ "\n") =
      .calls ⟨"raft.append_entries", ()⟩ := by
    rw [respond, speaking_call.decode]
    rfl
  have hadmitted : (admitted (some ⟨"node-b"⟩) (sampleHeld ∅) (.ok ()) : Conversation Unit) =
      ⟨some ⟨"node-b"⟩, false, 0, [], none⟩ := rfl
  have hfirst : step speaking sampleListening ⟨some ⟨"node-b"⟩, false, 0, [], none⟩
      ⟨.ok (some (helloText ++ "\n")), sampleHeld ∅, .ok (), .ok ()⟩ =
      ⟨some ⟨"node-b"⟩, true, 0, [.answered (.hello ⟨"ek-ek-peer/1", 1, "node-a"⟩),
        .accepted ⟨"ek-ek-peer/1", 1⟩], none⟩ := by
    simp only [step, hhello]
    rfl
  rw [hadmitted, sampleTurns, Runs.run_cons, hfirst, Runs.run_cons, Runs.run_nil]
  simp only [step, hcall]
  rfl

/-- The service was called after a hello, by a caller that was not on the list when it was
admitted. -/
theorem invoked_sampleTurns :
    (∃ hello, .accepted hello ∈ ([.answered (.hello ⟨"ek-ek-peer/1", 1, "node-a"⟩),
      .accepted ⟨"ek-ek-peer/1", 1⟩] : List (Event Unit)) ∧ Accepted sampleListening hello) ∧
    ∀ state, sampleHeld ∅ = .ok (some state) → (⟨"node-b"⟩ : NodeId) ∉ state.removed :=
  invoked_admitted speaking sampleListening (some ⟨"node-b"⟩) (sampleHeld ∅) (.ok ()) sampleTurns
    [.answered (.reply ⟨()⟩)] _ "raft.append_entries" () (sampleHeld {⟨"node-b"⟩})
    events_sampleTurns

/-- In that conversation a service is invoked for a caller with a certificate while the caller's name
is on the refusal list. -/
theorem invoked_removed : ∃ (later earlier : List (Event Unit)) (state : Snapshot),
    (Runs.run (step speaking sampleListening) (admitted (some ⟨"node-b"⟩) (sampleHeld ∅) (.ok ()))
      sampleTurns).events =
      later ++ .invoked "raft.append_entries" () (.ok (some state)) :: earlier ∧
    (⟨"node-b"⟩ : NodeId) ∈ state.removed :=
  ⟨_, _, _, events_sampleTurns, Finset.mem_singleton_self _⟩

end Conversation

end EkEk.Peer
