import EkEk.Lib.Runs
import EkEk.Raft.Machine

/-!
# Building a snapshot

Reference: `build_snapshot` of `crates/ek-ek-raft/src/machine.rs` and `export` of
`crates/ek-ek-store/src/sqlite.rs`.

A snapshot is built beside the machine, over the same store. What goes into it is read in four turns,
each under a lock of its own: the state, the version log with the audit log, the applied position, and
the membership. Nothing keeps the machine from committing a transaction between two of them.

`taken_where_named` says when a snapshot is what whole steps have left at the position it names:
whenever no transaction is committed while its parts are read, and the reading does not begin between
the two writes of a membership.
-/

namespace EkEk.Raft

open Store

/-- How far a snapshot was built. -/
inductive Build where
  | state (snapshot : Option Snapshot)
  | exported (state : FullState)
  | applied (state : FullState) (applied : Option LogId)
  | about (state : FullState) (about : SnapshotMeta)

/-- A machine with a snapshot being built beside it: the step that was begun with the number of its
transactions that were made, the steps behind it, and the snapshots that were returned. -/
structure System where
  machine : Machine
  current : Option (Step × ℕ)
  done : List Step
  build : Option Build
  built : List (SnapshotMeta × FullState)

/-- What can come next: a turn of the machine, or one of the snapshot. -/
inductive Turn where
  | begin (step : Step)
  | commit
  | readState
  | readLogs
  | readApplied
  | readMembership
  | keep

namespace System

/-- A machine that nothing was handed to. -/
def opened (machine : Machine) : System := ⟨machine, none, [], none, []⟩

/-- What was handed to the machine, the step it is at included. -/
def handed (system : System) : List Step :=
  system.done ++ (system.current.map Prod.fst).toList

/-- A snapshot is named after the position it was taken at. -/
def described (display : LogId → String) (applied : Option LogId) (membership : StoredMembership) :
    SnapshotMeta :=
  ⟨applied, membership, applied.elim "empty" display⟩

/-- One turn. A turn that is not due changes nothing. -/
def step (display : LogId → String) (system : System) : Turn → System
  | .begin step =>
    match system.current with
    | none => { system with current := some (step, 0) }
    | some _ => system
  | .commit =>
    match system.current with
    | none => system
    | some (step, made) =>
      match (Machine.transactions step)[made]? with
      | some transaction =>
        { system with machine := transaction system.machine, current := some (step, made + 1) }
      | none => { system with current := none, done := system.done ++ [step] }
  | .readState =>
    match system.build with
    | none => { system with build := some (.state system.machine.replica.store.state) }
    | some _ => system
  | .readLogs =>
    match system.build with
    | some (.state snapshot) =>
      { system with build := some (.exported
          { system.machine.replica.store.exported with snapshot := snapshot }) }
    | _ => system
  | .readApplied =>
    match system.build with
    | some (.exported state) =>
      { system with build := some (.applied state system.machine.replica.applied) }
    | _ => system
  | .readMembership =>
    match system.build with
    | some (.applied state applied) =>
      { system with build := some (.about state
          (described display applied system.machine.replica.membership)) }
    | _ => system
  | .keep =>
    match system.build with
    | some (.about state about) =>
      { system with
        machine := system.machine.setSnapshot about state
        build := none
        built := system.built ++ [(about, state)] }
    | _ => system

/-! ## The position a snapshot names -/

/-- A snapshot is what a number of the steps leave, at the position and with the membership they
leave. -/
def Taken (start : Replica) (steps : List Step) (snapshot : SnapshotMeta × FullState) : Prop :=
  ∃ n ≤ steps.length, ∃ replica, replica = (steps.take n).foldl Replica.after start ∧
    snapshot.2 = replica.store.exported ∧ snapshot.1.lastLogId = replica.applied ∧
    snapshot.1.lastMembership = replica.membership

/-- The machine is not between the two writes of a membership. -/
def Settled (system : System) : Prop :=
  ∀ step made, system.current = some (step, made) → Machine.ChangesMembership step → made ≠ 1

/-- Parts of a snapshot were read and others were not. -/
def Reading (system : System) : Prop :=
  match system.build with
  | none | some (.about ..) => False
  | some _ => True

/-- The step a machine is at has a transaction left. -/
def Due (system : System) : Prop :=
  ∃ step count, system.current = some (step, count) ∧ count < (Machine.transactions step).length

/-- A turn leaves the parts of a snapshot in one piece. -/
def Calm (system : System) : Turn → Prop
  | .begin step => Machine.Placed step
  | .commit => system.Due → ¬ system.Reading
  | .readState => system.Settled
  | _ => True

/-- The transactions of the step a machine is at that were made. -/
def made (system : System) : List (Machine → Machine) :=
  system.current.elim [] fun current => (Machine.transactions current.1).take current.2

/-- The parts of a snapshot that were read are what the machine holds. -/
def Current (start : Replica) (system : System) : Prop :=
  match system.build with
  | none => True
  | some (.state snapshot) => system.Settled ∧ snapshot = system.machine.replica.store.state
  | some (.exported state) => system.Settled ∧ state = system.machine.replica.store.exported
  | some (.applied state applied) => system.Settled ∧
    state = system.machine.replica.store.exported ∧ applied = system.machine.replica.applied
  | some (.about state about) => Taken start system.handed (about, state)

/-- What holds along a run whose turns are calm. -/
structure Inv (start : Replica) (system : System) : Prop where
  replica : system.machine.replica =
    (Crash.commit ⟨system.done.foldl Replica.after start, none⟩ system.made).replica
  placed : ∀ step made, system.current = some (step, made) → Machine.Placed step
  current : Current start system
  taken : ∀ snapshot ∈ system.built, Taken start system.handed snapshot

section

variable {start : Replica} {system : System}

theorem taken_append {steps : List Step} (next : List Step) {snapshot : SnapshotMeta × FullState}
    (h : Taken start steps snapshot) : Taken start (steps ++ next) snapshot := by
  obtain ⟨n, hn, replica, hreplica, hparts⟩ := h
  refine ⟨n, ?_, replica, ?_, hparts⟩
  · rw [List.length_append]
    omega
  · rw [List.take_append_of_le_length hn]
    exact hreplica

/-- A machine that is not between the two writes of a membership holds what whole steps have left. -/
theorem Inv.whole (hinv : Inv start system) (hsettled : system.Settled) :
    ∃ n ≤ system.handed.length,
      system.machine.replica = (system.handed.take n).foldl Replica.after start := by
  have hbefore := hinv.replica
  cases hcurrent : system.current with
  | none =>
    refine ⟨system.done.length, ?_, ?_⟩
    · simp [handed]
    · simpa [handed, made, hcurrent, Crash.commit] using hbefore
  | some current =>
    obtain ⟨step, count⟩ := current
    have hhanded : system.handed = system.done ++ [step] := by simp [handed, hcurrent]
    have hmade : system.made = (Machine.transactions step).take count := by simp [made, hcurrent]
    rw [hmade, Machine.replica_commit _ (hinv.placed step count hcurrent)
      (hsettled step count hcurrent)] at hbefore
    rw [hhanded]
    split at hbefore
    · refine ⟨system.done.length, by simp, ?_⟩
      simpa using hbefore
    · refine ⟨system.done.length + 1, by simp, ?_⟩
      rw [List.take_of_length_le (by simp), List.foldl_append]
      exact hbefore

/-- What is read of a machine that is not between the two writes of a membership is a snapshot of
what whole steps have left. -/
theorem Inv.read (hinv : Inv start system) (hsettled : system.Settled) (display : LogId → String) :
    Taken start system.handed
      (described display system.machine.replica.applied system.machine.replica.membership,
        system.machine.replica.store.exported) := by
  obtain ⟨n, hn, hreplica⟩ := hinv.whole hsettled
  exact ⟨n, hn, system.machine.replica, hreplica, rfl, rfl, rfl⟩

/-- Nothing is known yet of a machine nothing was handed to. -/
theorem Inv.opened (machine : Machine) : Inv machine.replica (.opened machine) where
  replica := rfl
  placed := fun _ _ h => nomatch h
  current := trivial
  taken := fun _ h => nomatch h

/-- What was read is still what the machine holds where the machine was left alone. -/
theorem Current.imp {other : System} (hread : Current start system)
    (hbuild : other.build = system.build)
    (hreplica : other.machine.replica = system.machine.replica) (hsettled : other.Settled)
    (htaken : ∀ snapshot, Taken start system.handed snapshot → Taken start other.handed snapshot) :
    Current start other := by
  unfold Current at hread ⊢
  rw [hbuild, hreplica]
  cases hheld : system.build with
  | none => trivial
  | some build =>
    rw [hheld] at hread
    cases build with
    | state snapshot => exact ⟨hsettled, hread.2⟩
    | exported state => exact ⟨hsettled, hread.2⟩
    | applied state applied => exact ⟨hsettled, hread.2⟩
    | about state about => exact htaken _ hread

/-- Beginning a step keeps what was read. -/
theorem Inv.begin {step : Step} (hinv : Inv start system) (hplaced : Machine.Placed step)
    (hcurrent : system.current = none) :
    Inv start { system with current := some (step, 0) } := by
  have hhanded : handed { system with current := some (step, 0) } = system.handed ++ [step] := by
    simp [handed, hcurrent]
  have htaken : ∀ snapshot, Taken start system.handed snapshot →
      Taken start (handed { system with current := some (step, 0) }) snapshot := by
    intro snapshot h
    rw [hhanded]
    exact taken_append [step] h
  refine ⟨?_, ?_, hinv.current.imp rfl rfl ?_ htaken,
    fun snapshot h => htaken snapshot (hinv.taken snapshot h)⟩
  · simpa [made, hcurrent] using hinv.replica
  · rintro _ _ ⟨⟩
    exact hplaced
  · rintro _ _ ⟨⟩ _ h
    nomatch h

/-- A transaction that is made while nothing is being read goes to the step it is of. -/
theorem Inv.commit {step : Step} {count : ℕ} {transaction : Machine → Machine}
    (hinv : Inv start system) (hcalm : ¬ system.Reading)
    (hcurrent : system.current = some (step, count))
    (hnext : (Machine.transactions step)[count]? = some transaction) :
    Inv start { system with
      machine := transaction system.machine, current := some (step, count + 1) } := by
  have hhanded : handed { system with
      machine := transaction system.machine, current := some (step, count + 1) } =
      system.handed := by
    simp [handed, hcurrent]
  refine ⟨?_, ?_, ?_, ?_⟩
  · have hbefore := hinv.replica
    have hmade : system.made = (Machine.transactions step).take count := by simp [made, hcurrent]
    rw [hmade] at hbefore
    show (transaction system.machine).replica = (Crash.commit
      ⟨system.done.foldl Replica.after start, none⟩
      ((Machine.transactions step).take (count + 1))).replica
    rw [List.take_add_one, hnext, Crash.commit_append]
    exact Machine.replica_congr (List.mem_of_getElem? hnext) hbefore
  · rintro _ _ ⟨⟩
    exact hinv.placed step count hcurrent
  · -- only a snapshot whose parts were all read can be there
    have hread := hinv.current
    unfold Current at hread ⊢
    unfold Reading at hcalm
    rw [hhanded]
    cases hbuild : system.build with
    | none => trivial
    | some build =>
      rw [hbuild] at hread hcalm
      cases build with
      | about state about => exact hread
      | _ => exact absurd trivial hcalm
  · rw [hhanded]
    exact hinv.taken

/-- A step whose transactions were all made has left what it means. -/
theorem Inv.finish {step : Step} {count : ℕ} (hinv : Inv start system)
    (hcurrent : system.current = some (step, count))
    (hnext : (Machine.transactions step)[count]? = none) :
    Inv start { system with current := none, done := system.done ++ [step] } := by
  have hhanded : handed { system with current := none, done := system.done ++ [step] } =
      system.handed := by
    simp [handed, hcurrent]
  refine ⟨?_, fun _ _ h => (nomatch h),
    hinv.current.imp rfl rfl (fun _ _ h => (nomatch h)) (fun snapshot h => hhanded ▸ h), ?_⟩
  · have hbefore := hinv.replica
    have hmade : system.made = Machine.transactions step := by
      rw [made, hcurrent]
      exact List.take_of_length_le (List.getElem?_eq_none_iff.mp hnext)
    rw [hmade, Machine.replica_commit_all _ (hinv.placed step count hcurrent)] at hbefore
    show system.machine.replica = (system.done ++ [step]).foldl Replica.after start
    rw [List.foldl_append]
    exact hbefore
  · rw [hhanded]
    exact hinv.taken

/-- A turn that only reads leaves the machine, the steps and the snapshots that were returned. -/
theorem Inv.reads {build : Build} (hinv : Inv start system)
    (hread : Current start { system with build := some build }) :
    Inv start { system with build := some build } :=
  ⟨hinv.replica, hinv.placed, hread, hinv.taken⟩

/-- A snapshot that is kept is returned as it was read. -/
theorem Inv.keep {state : FullState} {about : SnapshotMeta} (hinv : Inv start system)
    (hbuild : system.build = some (.about state about)) :
    Inv start { system with
      machine := system.machine.setSnapshot about state
      build := none
      built := system.built ++ [(about, state)] } := by
  refine ⟨hinv.replica, hinv.placed, trivial, ?_⟩
  intro snapshot hsnapshot
  rcases List.mem_append.mp hsnapshot with hbefore | hnew
  · exact hinv.taken snapshot hbefore
  · obtain rfl := List.mem_singleton.mp hnew
    have hread := hinv.current
    rw [Current, hbuild] at hread
    exact hread

/-- A calm turn keeps the invariant. -/
theorem Inv.step (display : LogId → String) (turn : Turn) (hinv : Inv start system)
    (hcalm : system.Calm turn) : Inv start (system.step display turn) := by
  have hread := hinv.current
  cases turn with
  | begin step =>
    simp only [System.step]
    split
    · rename_i hcurrent
      exact hinv.begin hcalm hcurrent
    · exact hinv
  | commit =>
    simp only [System.step]
    split
    · exact hinv
    · rename_i step count hcurrent
      split
      · rename_i transaction hnext
        obtain ⟨hcount, -⟩ := List.getElem?_eq_some_iff.mp hnext
        exact hinv.commit (hcalm ⟨step, count, hcurrent, hcount⟩) hcurrent hnext
      · rename_i hnext
        exact hinv.finish hcurrent hnext
  | readState =>
    simp only [System.step]
    split
    · -- a calm system begins to read between two steps, so what is read is whole
      exact hinv.reads ⟨hcalm, rfl⟩
    · exact hinv
  | readLogs =>
    simp only [System.step]
    split
    · rename_i snapshot hbuild
      rw [Current, hbuild] at hread
      obtain ⟨hsettled, rfl⟩ := hread
      exact hinv.reads ⟨hsettled, rfl⟩
    · exact hinv
  | readApplied =>
    simp only [System.step]
    split
    · rename_i state hbuild
      rw [Current, hbuild] at hread
      obtain ⟨hsettled, rfl⟩ := hread
      exact hinv.reads ⟨hsettled, rfl, rfl⟩
    · exact hinv
  | readMembership =>
    simp only [System.step]
    split
    · rename_i state applied hbuild
      rw [Current, hbuild] at hread
      obtain ⟨hsettled, rfl, rfl⟩ := hread
      exact hinv.reads (hinv.read hsettled display)
    · exact hinv
  | keep =>
    simp only [System.step]
    split
    · rename_i state about hbuild
      exact hinv.keep hbuild
    · exact hinv

end

/-- Wherever a run of calm turns has come, every snapshot that was returned is the export of what a
number of whole steps leave, at the position and with the membership they leave. -/
theorem taken_where_named (display : LogId → String) (machine : Machine) (turns : List Turn)
    (hcalm : Runs.Along (step display) Calm (.opened machine) turns) :
    ∀ snapshot ∈ (Runs.run (step display) (.opened machine) turns).built,
      Taken machine.replica (Runs.run (step display) (.opened machine) turns).handed snapshot :=
  (Runs.Along.inv (fun _ turn hinv hturn => Inv.step display turn hinv hturn)
    (Inv.opened machine) hcalm).taken

/-! ### A snapshot beside a machine -/

/-- A position as a snapshot is named after it. -/
def named (id : LogId) : String :=
  s!"{id.leader.term}-{id.leader.node}-{id.index}"

/-- The founding membership is applied, and a snapshot is built before the next entry and kept after
it was begun. -/
def quiet : List Turn :=
  [.begin (.apply ⟨Machine.idAt 1, .membership ⟨[{7}], ∅⟩⟩), .commit, .commit, .commit, .readState,
    .readLogs, .readApplied, .readMembership, .begin (.apply ⟨Machine.idAt 2, .blank⟩), .commit,
    .keep]

/-- The snapshot is of the founding membership. -/
theorem taken_where_named_quiet :
    (Runs.run (step named) (.opened Machine.fresh) quiet).built ≠ [] ∧
    ∀ snapshot ∈ (Runs.run (step named) (.opened Machine.fresh) quiet).built,
      Taken Machine.fresh.replica (Runs.run (step named) (.opened Machine.fresh) quiet).handed
        snapshot := by
  refine ⟨(nomatch ·), taken_where_named named Machine.fresh quiet ?_⟩
  refine ⟨trivial, fun _ => id, fun _ => id, fun _ => id, ?_, trivial, trivial, trivial, trivial,
    fun _ => id, trivial, trivial⟩
  exact fun _ _ h => nomatch h

/-- A first write that is applied after the state was read and before the position was. -/
def crossed : List Turn :=
  [.readState, .readLogs,
    .begin (.apply ⟨Machine.idAt 1, .normal ⟨.new .empty, ⟨"operator", "first"⟩, 10, []⟩⟩), .commit,
    .readApplied, .readMembership, .keep]

/-- The snapshot says it was taken at the write and holds nothing of it: no number of steps leaves
that. -/
theorem crossed_not_taken :
    ∃ snapshot ∈ (Runs.run (step named) (.opened Machine.fresh) crossed).built,
      ¬ Taken Machine.fresh.replica (Runs.run (step named) (.opened Machine.fresh) crossed).handed
        snapshot := by
  refine ⟨_, List.mem_singleton.mpr rfl, ?_⟩
  rintro ⟨n, hn, replica, rfl, hstate, hposition, -⟩
  match n with
  | 0 => nomatch hposition
  | 1 => nomatch congrArg FullState.snapshot hstate
  | n + 2 =>
    have hhanded : (Runs.run (step named) (.opened Machine.fresh) crossed).handed.length = 1 := rfl
    omega

end System

end EkEk.Raft
