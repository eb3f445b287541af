import Mathlib.Logic.Function.Basic
import EkEk.Lib.Runs

/-!
# Writers that replace a replicated state whole

A state is replicated through an agreed log of whole states, and every node holds the result of some
prefix of it. A writer reads what its own node holds, decides on a new state, and proposes it. Between
the read and the moment the proposal lands, other proposals may land and other nodes may apply them.
Some writers of one node take turns, by a lock that is held until the caller is told what became of
the write.

A landing is fresh when the state it replaces is the one its writer read. `serial_run` says that a run
whose landings are fresh is a serial one: the log is what the writers write one after the other, each
from the state the one before it left. `Serial.effect_kept` is the rule for what becomes of the effect
of a write in such a log.

Where landings need not be fresh but never lose anything in the sense of some order on states,
`warranted_run` says that whatever warranted an answer is still there.
-/

namespace ReadModifyWrite

variable {ν ω σ α : Type*}

/-- A writer that has read and decided. -/
structure Pending (ν ω σ α : Type*) where
  node : ν
  op : ω
  read : σ
  /-- The state it proposes, if it writes at all. -/
  next : Option σ
  answer : α
  /-- Whether the caller still waits to be told. -/
  waiting : Bool

/-- A write that has landed. -/
structure Entry (ω σ : Type*) where
  op : ω
  state : σ
  /-- Whether the caller was told. -/
  heard : Bool

/-- What writers do: refuse, or answer, with or without writing a new state first. -/
structure Protocol (ω σ α : Type*) where
  plan : ω → σ → Option (Option σ × α)
  /-- Whether a writer takes turns with the others of its node. -/
  locks : ω → Bool

/-- The log with the oldest write first, how much of it each node has applied, the writers that have
read but not finished, and what was answered. -/
structure World (ν ω σ α : Type*) where
  start : σ
  log : List (Entry ω σ)
  applied : ν → ℕ
  pending : List (Pending ν ω σ α)
  answers : List (ω × α)

inductive Action (ν ω : Type*) where
  /-- A node applies one more write. -/
  | apply (node : ν)
  /-- A writer reads on a node and decides. -/
  | read (node : ν) (op : ω)
  /-- What a writer proposes lands, if it proposes anything, and its caller is told or not. -/
  | finish (index : ℕ) (heard : Bool)
  /-- A writer is refused, and nothing of it lands. -/
  | refuse (index : ℕ)
  /-- A caller is told to give up waiting, and the proposal stays in flight. -/
  | giveUp (index : ℕ)

namespace World

/-- The state a list of writes leaves. -/
def left (start : σ) (log : List (Entry ω σ)) : σ :=
  (log.getLast?.map Entry.state).getD start

/-- The agreed state. -/
def head (s : World ν ω σ α) : σ := left s.start s.log

/-- The state a node holds. -/
def held (s : World ν ω σ α) (node : ν) : σ := left s.start (s.log.take (s.applied node))

/-- A cluster in which nobody is writing. -/
def new (start : σ) : World ν ω σ α where
  start := start
  log := []
  applied _ := 0
  pending := []
  answers := []

/-- The write a writer lands. -/
def Pending.landing (p : Pending ν ω σ α) (heard : Bool) : List (Entry ω σ) :=
  (p.next.map fun next => ⟨p.op, next, heard && p.waiting⟩).toList

/-- A writer without a proposal lands nothing, and one with a proposal lands it. -/
theorem landing_cases (p : Pending ν ω σ α) (heard : Bool) :
    p.next = none ∧ Pending.landing p heard = [] ∨
      ∃ next, p.next = some next ∧ Pending.landing p heard = [⟨p.op, next, heard && p.waiting⟩] := by
  rw [Pending.landing]
  cases p.next with
  | none => exact .inl ⟨rfl, rfl⟩
  | some next => exact .inr ⟨next, rfl, rfl⟩

variable [DecidableEq ν] (protocol : Protocol ω σ α)

/-- Whether a writer has to wait for another one of its node. -/
def locked (s : World ν ω σ α) (node : ν) (op : ω) : Bool :=
  protocol.locks op && s.pending.any fun p => p.node = node && p.waiting && protocol.locks p.op

def step (s : World ν ω σ α) : Action ν ω → World ν ω σ α
  | .apply node =>
    { s with applied := Function.update s.applied node (min (s.applied node + 1) s.log.length) }
  | .read node op =>
    if s.locked protocol node op then s
    else
      match protocol.plan op (s.held node) with
      | none => s
      | some (next, answer) =>
        { s with pending := s.pending ++ [⟨node, op, s.held node, next, answer, true⟩] }
  | .finish index heard =>
    match s.pending[index]? with
    | none => s
    | some p =>
      { s with
        log := s.log ++ Pending.landing p heard
        pending := s.pending.eraseIdx index
        answers := s.answers ++ if heard && p.waiting then [(p.op, p.answer)] else [] }
  | .refuse index => { s with pending := s.pending.eraseIdx index }
  | .giveUp index => { s with pending := s.pending.modify index fun p => { p with waiting := false } }

/-! ## What a step can do -/

section

variable {s : World ν ω σ α} {protocol}

/-- Every pending writer follows the protocol from the state it read. -/
def Sound (protocol : Protocol ω σ α) (s : World ν ω σ α) : Prop :=
  ∀ p ∈ s.pending, protocol.plan p.op p.read = some (p.next, p.answer)

/-- A writer that is pending after a step was pending before it, up to whether its caller waits, or has
just read what its node holds. -/
theorem mem_pending_step {action : Action ν ω} {p : Pending ν ω σ α}
    (h : p ∈ (s.step protocol action).pending) :
    (∃ q ∈ s.pending, p.op = q.op ∧ p.read = q.read ∧ p.next = q.next ∧ p.answer = q.answer) ∨
      (∃ node, action = .read node p.op ∧ p.read = s.held node ∧
        protocol.plan p.op p.read = some (p.next, p.answer)) := by
  cases action with
  | apply node => exact .inl ⟨p, h, rfl, rfl, rfl, rfl⟩
  | read node op =>
    simp only [step] at h
    split at h
    · exact .inl ⟨p, h, rfl, rfl, rfl, rfl⟩
    · split at h
      · exact .inl ⟨p, h, rfl, rfl, rfl, rfl⟩
      · rename_i next answer hplan
        rcases List.mem_append.mp h with hold | hnew
        · exact .inl ⟨p, hold, rfl, rfl, rfl, rfl⟩
        · rw [List.mem_singleton.mp hnew]
          exact .inr ⟨node, rfl, rfl, hplan⟩
  | finish index heard =>
    simp only [step] at h
    split at h
    · exact .inl ⟨p, h, rfl, rfl, rfl, rfl⟩
    · exact .inl ⟨p, List.mem_of_mem_eraseIdx h, rfl, rfl, rfl, rfl⟩
  | refuse index => exact .inl ⟨p, List.mem_of_mem_eraseIdx h, rfl, rfl, rfl, rfl⟩
  | giveUp index =>
    obtain ⟨position, hlt, hget⟩ := List.mem_iff_getElem.mp h
    simp only [step, List.length_modify] at hlt
    simp only [step, List.getElem_modify] at hget
    refine .inl ⟨s.pending[position], List.getElem_mem hlt, ?_⟩
    subst hget
    split <;> exact ⟨rfl, rfl, rfl, rfl⟩

/-- A step leaves the log and the answers alone, or lets one writer finish. -/
theorem step_cases (protocol : Protocol ω σ α) (s : World ν ω σ α) (action : Action ν ω) :
    ((s.step protocol action).log = s.log ∧ (s.step protocol action).answers = s.answers) ∨
      ∃ index heard p, action = .finish index heard ∧ s.pending[index]? = some p ∧
        (s.step protocol action).log = s.log ++ Pending.landing p heard ∧
        (s.step protocol action).answers =
          s.answers ++ if heard && p.waiting then [(p.op, p.answer)] else [] := by
  cases action with
  | apply | refuse | giveUp => exact .inl ⟨rfl, rfl⟩
  | read node op =>
    left
    simp only [step]
    split
    · exact ⟨rfl, rfl⟩
    · split <;> exact ⟨rfl, rfl⟩
  | finish index heard =>
    cases hp : s.pending[index]? with
    | none => exact .inl (by simp only [step, hp, and_self])
    | some p => exact .inr ⟨index, heard, p, rfl, hp, by simp only [step, hp, and_self]⟩

@[simp] theorem start_step (s : World ν ω σ α) (action : Action ν ω) :
    (s.step protocol action).start = s.start := by
  cases action with
  | apply | refuse | giveUp => rfl
  | read node op =>
    simp only [step]
    split
    · rfl
    · split <;> rfl
  | finish index heard =>
    simp only [step]
    split <;> rfl

theorem Sound.step (h : s.Sound protocol) (action : Action ν ω) :
    (s.step protocol action).Sound protocol := by
  intro p hp
  rcases mem_pending_step hp with ⟨q, hq, hop, hread, hnext, hanswer⟩ | ⟨-, -, -, hplan⟩
  · rw [hop, hread, hnext, hanswer]
    exact h q hq
  · exact hplan

end

/-- A writer alone lands what it writes on the state it read. -/
theorem run_alone {protocol : Protocol ω σ α} {node : ν} {op : ω} {start next : σ} {answer : α}
    (hplan : protocol.plan op start = some (some next, answer)) :
    Runs.run (World.step protocol) (World.new start) [.read node op, .finish 0 true] =
      { World.new start with log := [⟨op, next, true⟩], answers := [(op, answer)] } := by
  simp [World.step, World.new, World.locked, World.held, World.left, hplan, Pending.landing]

/-- Reading changes nothing that is agreed. -/
theorem head_of_alone {protocol : Protocol ω σ α} {node : ν} {op : ω} {start : σ} :
    ((World.new start).step protocol (.read node op)).head = start := by
  rcases (World.new start).step_cases protocol (Action.read node op) with
    ⟨hlog, -⟩ | ⟨_, _, _, hfinish, _⟩
  · rw [head, start_step, hlog]
    rfl
  · nomatch hfinish

/-- A writer that has just read on its own has read what there was. -/
theorem pending_of_alone {protocol : Protocol ω σ α} {node : ν} {op : ω} {start : σ}
    {p : Pending ν ω σ α}
    (hp : ((World.new start).step protocol (.read node op)).pending[0]? = some p) :
    p.op = op ∧ p.read = start := by
  rcases mem_pending_step (List.mem_of_getElem? hp) with
    ⟨q, hq, -⟩ | ⟨other, haction, hread, -⟩
  · exact absurd hq List.not_mem_nil
  · cases haction
    exact ⟨rfl, hread⟩

/-- Two writers that do not take turns read the same state, and then both land. -/
def overlap (node : ν) (first second : ω) : List (Action ν ω) :=
  [.read node first, .read node second, .finish 0 true, .finish 0 true]

/-- Both are answered, and the second one's write is made from a state without the first one's. -/
theorem run_overlap {protocol : Protocol ω σ α} {node : ν} {first second : ω} {start next next' : σ}
    {answer answer' : α} (hfree : protocol.locks second = false)
    (hfirst : protocol.plan first start = some (some next, answer))
    (hsecond : protocol.plan second start = some (some next', answer')) :
    Runs.run (World.step protocol) (World.new start) (overlap node first second) =
      { World.new start with
        log := [⟨first, next, true⟩, ⟨second, next', true⟩]
        answers := [(first, answer), (second, answer')] } := by
  simp [overlap, World.step, World.new, World.locked, World.held, World.left, hfree, hfirst, hsecond,
    Pending.landing]

end World

open World

/-! ## Fresh landings -/

section

variable [DecidableEq ν] (protocol : Protocol ω σ α) (fits : ω → σ → Prop)

/-- Every write is what its writer writes from the state the write before it left, and that state fits
the writer. -/
def Serial : σ → List (Entry ω σ) → Prop
  | _, [] => True
  | s, e :: rest =>
    (∃ answer, protocol.plan e.op s = some (some e.state, answer)) ∧ fits e.op s ∧
      Serial e.state rest

/-- A write lands on the state its writer read, and that state fits the writer. -/
def Fresh (s : World ν ω σ α) : Action ν ω → Prop
  | .finish index _ => ∀ p, s.pending[index]? = some p → p.next.isSome →
      p.read = s.head ∧ fits p.op p.read
  | _ => True

variable {protocol fits} {start : σ}

theorem left_cons (s : σ) (e : Entry ω σ) (log : List (Entry ω σ)) :
    left s (e :: log) = left e.state log := by
  cases log <;> rfl

theorem left_append (s : σ) (log later : List (Entry ω σ)) :
    left s (log ++ later) = left (left s log) later := by
  induction log generalizing s with
  | nil => rfl
  | cons e rest ih => rw [List.cons_append, left_cons, left_cons, ih]

theorem serial_append {log later : List (Entry ω σ)} :
    Serial protocol fits start (log ++ later) ↔
      Serial protocol fits start log ∧ Serial protocol fits (left start log) later := by
  induction log generalizing start with
  | nil => simp [Serial, left]
  | cons e rest ih => rw [List.cons_append, Serial, Serial, ih, left_cons, and_assoc, and_assoc]

/-- One step: a fresh landing extends a serial log by a serial write. -/
theorem serial_step {s : World ν ω σ α} {action : Action ν ω} (hsound : s.Sound protocol)
    (hserial : Serial protocol fits s.start s.log) (hfresh : Fresh fits s action) :
    Serial protocol fits s.start (s.step protocol action).log := by
  rcases s.step_cases protocol action with ⟨hlog, -⟩ | ⟨index, heard, p, rfl, hp, hlog, -⟩
  · rwa [hlog]
  · rw [hlog, serial_append]
    refine ⟨hserial, ?_⟩
    rcases landing_cases p heard with ⟨-, hnothing⟩ | ⟨next, hnext, hlands⟩
    · rw [hnothing]
      trivial
    · obtain ⟨hread, hfits⟩ := hfresh p hp (by rw [hnext]; rfl)
      have hplan := hsound p (List.mem_of_getElem? hp)
      rw [hread, hnext] at hplan
      rw [hread] at hfits
      rw [hlands]
      exact ⟨⟨p.answer, hplan⟩, hfits, trivial⟩

/-- A run whose landings are fresh is serial. -/
theorem serial_run {actions : List (Action ν ω)}
    (h : Runs.Along (World.step protocol) (Fresh fits) (World.new start) actions) :
    Serial protocol fits start (Runs.run (World.step protocol) (World.new start) actions).log := by
  have hstep : ∀ (s : World ν ω σ α) action,
      (s.start = start ∧ s.Sound protocol ∧ Serial protocol fits s.start s.log) →
      Fresh fits s action →
      ((s.step protocol action).start = start ∧ (s.step protocol action).Sound protocol ∧
        Serial protocol fits (s.step protocol action).start (s.step protocol action).log) := by
    rintro s action ⟨hstart, hsound, hserial⟩ hfresh
    rw [start_step]
    exact ⟨hstart, hsound.step action, serial_step hsound hserial hfresh⟩
  have hnew : ((World.new start : World ν ω σ α).start = start ∧
      (World.new start : World ν ω σ α).Sound protocol ∧
      Serial protocol fits (World.new start : World ν ω σ α).start []) :=
    ⟨rfl, fun p hp => absurd hp List.not_mem_nil, trivial⟩
  obtain ⟨hstart, -, hserial⟩ := Runs.Along.inv hstep hnew h
  rwa [hstart] at hserial

theorem start_run (actions : List (Action ν ω)) :
    (Runs.run (World.step protocol) (World.new start) actions).start = start := by
  have hstep : ∀ (s : World ν ω σ α) action, s.start = start →
      (s.step protocol action).start = start := by
    intro s action hstart
    rw [start_step, hstart]
  exact Runs.run_inv hstep rfl actions

/-! ## Effects -/

variable (protocol fits) in
/-- What writes are for: the effects a state can hold, which effects a writer gives and which it takes
away. A write holds the effects its writer gives, and keeps those it does not take. -/
structure Effects (η : Type*) where
  holds : η → σ → Prop
  gives : ω → η → Prop
  takes : ω → η → Prop
  given : ∀ {op s next answer effect}, protocol.plan op s = some (some next, answer) → fits op s →
    gives op effect → holds effect next
  kept : ∀ {op s next answer effect}, protocol.plan op s = some (some next, answer) → fits op s →
    ¬ takes op effect → holds effect s → holds effect next

variable {η : Type*} {effects : Effects protocol fits η} {effect : η}

/-- In a serial log an effect that holds at first still holds, or a write took it. -/
theorem Serial.holds_left {log : List (Entry ω σ)} (h : Serial protocol fits start log)
    (hholds : effects.holds effect start) :
    effects.holds effect (left start log) ∨ ∃ later ∈ log, effects.takes later.op effect := by
  induction log generalizing start with
  | nil => exact .inl hholds
  | cons e rest ih =>
    obtain ⟨⟨answer, hplan⟩, hfits, hrest⟩ := h
    by_cases htakes : effects.takes e.op effect
    · exact .inr ⟨e, List.mem_cons_self, htakes⟩
    · rcases ih hrest (effects.kept hplan hfits htakes hholds) with hleft | ⟨later, hmem, htook⟩
      · rw [left_cons]
        exact .inl hleft
      · exact .inr ⟨later, List.mem_cons_of_mem _ hmem, htook⟩

/-- In a serial log the effect of a write still holds, or a later write took it. -/
theorem Serial.effect_kept {before after : List (Entry ω σ)} {e : Entry ω σ}
    (h : Serial protocol fits start (before ++ e :: after)) (hgives : effects.gives e.op effect) :
    effects.holds effect (left start (before ++ e :: after)) ∨
      ∃ later ∈ after, effects.takes later.op effect := by
  obtain ⟨-, ⟨answer, hplan⟩, hfits, hafter⟩ := serial_append.mp h
  rw [left_append, left_cons]
  exact hafter.holds_left (effects.given hplan hfits hgives)

end

/-! ## Landings that lose nothing -/

section

variable [DecidableEq ν] {protocol : Protocol ω σ α}

/-- A write that lands loses nothing of the agreed state, in the sense of a relation. -/
def Growing (grows : σ → σ → Prop) (s : World ν ω σ α) : Action ν ω → Prop
  | .finish index _ => ∀ p, s.pending[index]? = some p → ∀ next, p.next = some next →
      grows s.head next
  | _ => True

/-- Everything that some node holds and some writer has read is kept in the agreed state, and so is
whatever warrants an answer. -/
structure Warranted (protocol : Protocol ω σ α) (grows : σ → σ → Prop) (warrant : ω → α → σ → Prop)
    (s : World ν ω σ α) : Prop where
  sound : s.Sound protocol
  held : ∀ applied, grows (left s.start (s.log.take applied)) s.head
  read : ∀ p ∈ s.pending, grows p.read s.head
  answered : ∀ answered ∈ s.answers, warrant answered.1 answered.2 s.head

variable {grows : σ → σ → Prop} [Std.Refl grows] {warrant : ω → α → σ → Prop}
  {s : World ν ω σ α} {action : Action ν ω}

/-- The agreed state never loses anything. -/
theorem grows_head_step (hgrowing : Growing grows s action) :
    grows s.head (s.step protocol action).head := by
  rcases s.step_cases protocol action with ⟨hlog, -⟩ | ⟨index, heard, p, rfl, hp, hlog, -⟩
  · rw [head, head, start_step, hlog]
    exact Std.Refl.refl _
  · rw [head, head, start_step, hlog, left_append]
    rcases landing_cases p heard with ⟨-, hnothing⟩ | ⟨next, hnext, hlands⟩
    · rw [hnothing]
      exact Std.Refl.refl _
    · rw [hlands, left_cons]
      exact hgrowing p hp next hnext

variable [IsTrans σ grows]

/-- What a prefix of the log leaves is kept, also when the prefix is longer by one write. -/
theorem Warranted.held_step (h : Warranted protocol grows warrant s)
    (hgrowing : Growing grows s action) (applied : ℕ) :
    grows (left s.start ((s.step protocol action).log.take applied))
      (s.step protocol action).head := by
  have hhead : grows s.head (s.step protocol action).head := grows_head_step hgrowing
  obtain ⟨landing, hone, hlog⟩ : ∃ landing : List (Entry ω σ), landing.length ≤ 1 ∧
      (s.step protocol action).log = s.log ++ landing := by
    rcases s.step_cases protocol action with ⟨hlog, -⟩ | ⟨index, heard, p, -, -, hlog, -⟩
    · exact ⟨[], Nat.zero_le 1, by rw [hlog, List.append_nil]⟩
    · refine ⟨_, ?_, hlog⟩
      rcases landing_cases p heard with ⟨-, hnothing⟩ | ⟨next, -, hlands⟩
      · rw [hnothing]
        exact Nat.zero_le 1
      · rw [hlands]
        exact Nat.le_refl 1
  rw [hlog]
  by_cases hshort : applied ≤ s.log.length
  · rw [List.take_append_of_le_length hshort]
    exact IsTrans.trans _ _ _ (h.held applied) hhead
  · have hall : (s.log ++ landing).take applied = s.log ++ landing := by
      refine List.take_of_length_le ?_
      rw [List.length_append]
      omega
    rw [hall, ← hlog, head, start_step]
    exact Std.Refl.refl _

/-- A step that loses nothing keeps every warrant, if a warrant is never lost, and a writer's answer is
warranted by the state it read or by the one it writes. -/
theorem Warranted.step (h : Warranted protocol grows warrant s)
    (hmono : ∀ {op answer before after}, grows before after → warrant op answer before →
      warrant op answer after)
    (hread : ∀ {op state answer}, protocol.plan op state = some (none, answer) →
      warrant op answer state)
    (hwrite : ∀ {op state next answer}, protocol.plan op state = some (some next, answer) →
      warrant op answer next)
    (hgrowing : Growing grows s action) :
    Warranted protocol grows warrant (s.step protocol action) := by
  have hhead : grows s.head (s.step protocol action).head := grows_head_step hgrowing
  refine ⟨h.sound.step action, ?_, ?_, ?_⟩
  · rw [start_step]
    exact h.held_step hgrowing
  · intro p hp
    rcases mem_pending_step hp with ⟨q, hq, -, hsame, -, -⟩ | ⟨node, -, hheld, -⟩
    · rw [hsame]
      exact IsTrans.trans _ _ _ (h.read q hq) hhead
    · rw [hheld]
      exact IsTrans.trans _ _ _ (h.held _) hhead
  · rcases s.step_cases protocol action with ⟨-, hanswers⟩ | ⟨index, heard, p, rfl, hp, hlog, hanswers⟩
    · rw [hanswers]
      exact fun answered hmem => hmono hhead (h.answered answered hmem)
    · rw [hanswers]
      intro answered hmem
      rcases List.mem_append.mp hmem with hold | hnew
      · exact hmono hhead (h.answered answered hold)
      · rw [List.mem_ite_nil_right, List.mem_singleton] at hnew
        rw [hnew.2]
        have hpending := List.mem_of_getElem? hp
        have hplan := h.sound p hpending
        rcases landing_cases p heard with ⟨hnone, -⟩ | ⟨next, hnext, hlands⟩
        · rw [hnone] at hplan
          exact hmono (IsTrans.trans _ _ _ (h.read p hpending) hhead) (hread hplan)
        · rw [hnext] at hplan
          have hlanded : (s.step protocol (.finish index heard)).head = next := by
            rw [head, hlog, hlands, left_append, left_cons]
            rfl
          rw [hlanded]
          exact hwrite hplan

/-- In a run whose landings lose nothing every answer stays warranted. -/
theorem warranted_run
    (hmono : ∀ {op answer before after}, grows before after → warrant op answer before →
      warrant op answer after)
    (hread : ∀ {op state answer}, protocol.plan op state = some (none, answer) →
      warrant op answer state)
    (hwrite : ∀ {op state next answer}, protocol.plan op state = some (some next, answer) →
      warrant op answer next)
    {start : σ} {actions : List (Action ν ω)}
    (h : Runs.Along (World.step protocol) (Growing grows) (World.new start) actions) :
    Warranted protocol grows warrant
      (Runs.run (World.step protocol) (World.new start) actions) := by
  have hstep : ∀ (s : World ν ω σ α) action, Warranted protocol grows warrant s →
      Growing grows s action → Warranted protocol grows warrant (s.step protocol action) :=
    fun _ _ hs hgrowing => hs.step hmono hread hwrite hgrowing
  refine Runs.Along.inv hstep ⟨?_, ?_, ?_, ?_⟩ h
  · exact fun p hp => absurd hp List.not_mem_nil
  · intro applied
    rw [World.new, List.take_nil]
    exact Std.Refl.refl _
  · exact fun p hp => absurd hp List.not_mem_nil
  · exact fun answered hmem => absurd hmem List.not_mem_nil

end

end ReadModifyWrite
