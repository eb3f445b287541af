import EkEk.Lib.Crash
import EkEk.Raft.Types

/-!
# The state machine

Reference: `crates/ek-ek-raft/src/machine.rs`, and `apply_write` and `import` of
`crates/ek-ek-store/src/sqlite.rs`.

The store driven by an agreed log. An entry is applied and a snapshot is installed by transactions
on one database: one for an entry that carries nothing, one for a write with its marker, two for a
change of the membership, and two for a snapshot, of which the second only keeps the snapshot.

`Replica.after` is what an entry or a snapshot means, in one step. `whole_steps_survive` says when a
node that stops between any two transactions has on its disk what whole steps have left, and can go on
from there: whenever it does not stop between the two writes of a membership, and every snapshot
says which position it was taken at.

Markers and snapshots are kept as the values they read back to.
-/

namespace EkEk.Raft

open Store

/-! ## What is agreed -/

/-- Who votes, in one set or in the two of a change that is on its way, and how the nodes are
reached. -/
structure JointMembership where
  configs : List (Finset UInt64)
  nodes : Finmap fun _ : UInt64 => PeerNode
deriving DecidableEq

/-- A membership, with the entry it was agreed by. -/
structure StoredMembership where
  logId : Option LogId
  membership : JointMembership
deriving DecidableEq

/-- The membership of a node that has none. -/
def StoredMembership.default : StoredMembership := ⟨none, ⟨[], ∅⟩⟩

/-- A write every node makes. -/
structure WriteRequest where
  state : Snapshot
  change : Change
  nowUnix : ℤ
  audit : List AuditRecord
deriving DecidableEq

/-- What an entry carries. -/
inductive EntryPayload where
  | blank
  | membership (membership : JointMembership)
  | normal (request : WriteRequest)
deriving DecidableEq

/-- What is said about a snapshot. -/
structure SnapshotMeta where
  lastLogId : Option LogId
  lastMembership : StoredMembership
  snapshotId : String
deriving DecidableEq

/-- What consensus has the machine do. -/
inductive Step where
  | apply (entry : Entry EntryPayload)
  | install (about : SnapshotMeta) (state : FullState)

/-! ## What a step means -/

/-- What a node reads when it starts: the store, the applied position and the membership. -/
structure Replica where
  store : SqliteStore
  applied : Option LogId
  membership : StoredMembership

/-- A store after a write. -/
def written (store : SqliteStore) (request : WriteRequest) : SqliteStore :=
  (store.applyWrite request.state request.change request.nowUnix request.audit).1

/-- A replica after an entry was applied, or after a snapshot took its place. -/
def Replica.after (replica : Replica) : Step → Replica
  | .apply ⟨id, .blank⟩ => { replica with applied := some id }
  | .apply ⟨id, .membership membership⟩ =>
    { replica with applied := some id, membership := ⟨some id, membership⟩ }
  | .apply ⟨id, .normal request⟩ =>
    { replica with store := written replica.store request, applied := some id }
  | .install about state =>
    match replica.store.imported state with
    | .ok store => ⟨store, about.lastLogId, about.lastMembership⟩
    | .error _ => replica

/-- A store after one entry. -/
def entered (store : SqliteStore) (entry : Entry EntryPayload) : SqliteStore :=
  match entry.payload with
  | .normal request => written store request
  | _ => store

/-- A store goes on numbering its versions one after the other. -/
theorem numbered_entered {store : SqliteStore} (h : store.Numbered) (entry : Entry EntryPayload) :
    (entered store entry).Numbered := by
  obtain ⟨id, payload⟩ := entry
  cases payload with
  | blank => exact h
  | membership membership => exact h
  | normal request => exact h.writeVersion _ _ _ _ _

/-- Of the store of a replica, an entry leaves what it leaves of any store. -/
theorem Replica.store_after (replica : Replica) (entry : Entry EntryPayload) :
    (replica.after (.apply entry)).store = entered replica.store entry := by
  obtain ⟨id, payload⟩ := entry
  cases payload <;> rfl

/-! ## What the code does -/

/-- A node's database. -/
structure Machine where
  replica : Replica
  snapshot : Option (SnapshotMeta × FullState)

namespace Machine

/-- Move the applied position. -/
def setApplied (id : LogId) (machine : Machine) : Machine :=
  { machine with replica := { machine.replica with applied := some id } }

/-- Keep a membership. -/
def setMembership (membership : StoredMembership) (machine : Machine) : Machine :=
  { machine with replica := { machine.replica with membership := membership } }

/-- Keep a snapshot. -/
def setSnapshot (about : SnapshotMeta) (state : FullState) (machine : Machine) : Machine :=
  { machine with snapshot := some (about, state) }

/-- Make a write and move the applied position with it. -/
def applyWrite (id : LogId) (request : WriteRequest) (machine : Machine) : Machine :=
  { machine with replica := { machine.replica with
      store := written machine.replica.store request, applied := some id } }

/-- Replace the store and, where the snapshot has a position, both markers with it. -/
def importState (about : SnapshotMeta) (state : FullState) (machine : Machine) : Machine :=
  match machine.replica.store.imported state with
  | .error _ => machine
  | .ok store =>
    { machine with replica :=
        match about.lastLogId with
        | some id => ⟨store, some id, about.lastMembership⟩
        | none => { machine.replica with store := store } }

/-- The transactions of a step, in order. A snapshot that cannot be imported is not kept either. -/
def transactions : Step → List (Machine → Machine)
  | .apply ⟨id, .blank⟩ => [setApplied id]
  | .apply ⟨id, .membership membership⟩ => [setApplied id, setMembership ⟨some id, membership⟩]
  | .apply ⟨id, .normal request⟩ => [applyWrite id request]
  | .install about state =>
    if (state.versions.map fun version => version.id).Nodup then
      [importState about state, setSnapshot about state]
    else []

/-- A snapshot that is installed says which position it was taken at. -/
def Placed : Step → Prop
  | .apply _ => True
  | .install about _ => about.lastLogId.isSome

/-- A step that changes the membership. -/
def ChangesMembership : Step → Prop
  | .apply ⟨_, .membership _⟩ => True
  | _ => False

/-- A node that stops after so many transactions does not stop between the two writes of a
membership. -/
def Spares (steps : List Step) (k : ℕ) : Prop :=
  ∀ step ∈ steps[(Crash.cut transactions steps k).1]?, ChangesMembership step →
    (Crash.cut transactions steps k).2 ≠ 1

section

variable {step : Step}

theorem imported_of_nodup (store : SqliteStore) {state : FullState}
    (h : (state.versions.map fun version => version.id).Nodup) :
    ∃ next, store.imported state = .ok next := by
  rw [SqliteStore.imported, if_pos h]
  exact ⟨_, rfl⟩

theorem imported_of_not_nodup (store : SqliteStore) {state : FullState}
    (h : ¬ (state.versions.map fun version => version.id).Nodup) :
    ∃ error, store.imported state = .error error := by
  rw [SqliteStore.imported, if_neg h]
  exact ⟨_, rfl⟩

/-- The transactions of a step that was begun leave what was there or what the step means, unless the
step changes the membership and stops after its first write. -/
theorem replica_commit (machine : Machine) (hplaced : Placed step) {j : ℕ}
    (h : ChangesMembership step → j ≠ 1) :
    (Crash.commit machine ((transactions step).take j)).replica =
      if j = 0 then machine.replica else machine.replica.after step := by
  cases j with
  | zero => simp [Crash.commit]
  | succ j =>
    rw [if_neg (Nat.succ_ne_zero j)]
    cases step with
    | apply entry =>
      obtain ⟨id, payload⟩ := entry
      cases payload with
      | blank => simp [transactions, Crash.commit, setApplied, Replica.after]
      | normal request => simp [transactions, Crash.commit, applyWrite, Replica.after]
      | membership membership =>
        cases j with
        | zero => exact absurd rfl (h trivial)
        | succ j => simp [transactions, Crash.commit, setApplied, setMembership, Replica.after]
    | install about state =>
      obtain ⟨id, hid⟩ := Option.isSome_iff_exists.mp hplaced
      by_cases hnodup : (state.versions.map fun version => version.id).Nodup
      · obtain ⟨next, hnext⟩ := imported_of_nodup machine.replica.store hnodup
        rw [transactions, if_pos hnodup]
        -- the second transaction leaves the replica alone, whether it comes or not
        cases j with
        | zero => simp [Crash.commit, importState, hnext, hid, Replica.after]
        | succ j => simp [Crash.commit, importState, setSnapshot, hnext, hid, Replica.after]
      · obtain ⟨error, herror⟩ := imported_of_not_nodup machine.replica.store hnodup
        rw [transactions, if_neg hnodup]
        simp [Crash.commit, herror, Replica.after]

/-- A step that is carried through leaves what it means. -/
theorem replica_commit_all (machine : Machine) (hplaced : Placed step) :
    (Crash.commit machine (transactions step)).replica = machine.replica.after step := by
  have hwhole := replica_commit (j := (transactions step).length + 2) machine hplaced
    (fun _ => by omega)
  rwa [List.take_of_length_le (by omega), if_neg (by omega)] at hwhole

/-- Steps that are carried through leave what they mean. -/
theorem replica_runs (steps : List Step) (hplaced : ∀ step ∈ steps, Placed step)
    (machine : Machine) :
    (Crash.runs transactions machine steps).replica =
      steps.foldl Replica.after machine.replica := by
  induction steps generalizing machine with
  | nil => rfl
  | cons step rest ih =>
    rw [Crash.runs, List.foldl_cons, List.foldl_cons,
      ← replica_commit_all machine (hplaced step List.mem_cons_self)]
    exact ih (fun other hother => hplaced other (List.mem_cons_of_mem _ hother)) _

/-- What a transaction leaves of the replica does not depend on the snapshot that is kept. -/
theorem replica_congr {transaction : Machine → Machine} (h : transaction ∈ transactions step)
    {first second : Machine} (hreplica : first.replica = second.replica) :
    (transaction first).replica = (transaction second).replica := by
  cases step with
  | apply entry =>
    obtain ⟨id, payload⟩ := entry
    cases payload with
    | blank =>
      obtain rfl := List.mem_singleton.mp h
      simp only [setApplied, hreplica]
    | normal request =>
      obtain rfl := List.mem_singleton.mp h
      simp only [applyWrite, hreplica]
    | membership membership =>
      rcases List.mem_pair.mp h with rfl | rfl
      · simp only [setApplied, hreplica]
      · simp only [setMembership, hreplica]
  | install about state =>
    rw [transactions] at h
    split at h
    · rcases List.mem_pair.mp h with rfl | rfl
      · simp only [importState, hreplica]
        split
        · exact hreplica
        · rfl
      · exact hreplica
    · nomatch h

end

/-- A node that stops between any two transactions, but not between the two writes of a membership,
has on its disk what a number of whole steps have left, the position they reached with it, and going
on with the steps behind them leaves what all steps mean. -/
theorem whole_steps_survive (machine : Machine) (steps : List Step) (k : ℕ)
    (hplaced : ∀ step ∈ steps, Placed step) (hspares : Spares steps k) :
    ∃ n ≤ steps.length,
      (Crash.crashed transactions machine steps k).replica =
        (steps.take n).foldl Replica.after machine.replica ∧
      (Crash.runs transactions (Crash.crashed transactions machine steps k) (steps.drop n)).replica =
        steps.foldl Replica.after machine.replica := by
  -- how far the node came: so many whole steps, and the next one where it was begun
  obtain ⟨n, hn, hreplica⟩ : ∃ n ≤ steps.length,
      (Crash.crashed transactions machine steps k).replica =
        (steps.take n).foldl Replica.after machine.replica := by
    have hbefore := replica_runs (steps.take (Crash.cut transactions steps k).1)
      (fun step hstep => hplaced step (List.mem_of_mem_take hstep)) machine
    rw [Crash.crashed_eq]
    cases hnext : steps[(Crash.cut transactions steps k).1]? with
    | none =>
      refine ⟨_, Crash.cut_le transactions steps k, ?_⟩
      rw [← hbefore]
      simp [Crash.commit]
    | some step =>
      have hcommit := replica_commit
        (Crash.runs transactions machine (steps.take (Crash.cut transactions steps k).1))
        (hplaced step (List.mem_of_getElem? hnext)) (hspares step hnext)
      obtain ⟨hlt, hget⟩ := List.getElem?_eq_some_iff.mp hnext
      rw [Option.elim_some, hcommit]
      split
      · exact ⟨_, Crash.cut_le transactions steps k, hbefore⟩
      · refine ⟨(Crash.cut transactions steps k).1 + 1, hlt, ?_⟩
        rw [List.take_add_one, hnext, List.foldl_append, ← hbefore]
        rfl
  refine ⟨n, hn, hreplica, ?_⟩
  rw [replica_runs _ (fun step hstep => hplaced step (List.mem_of_mem_drop hstep)), hreplica,
    ← List.foldl_append, List.take_append_drop]

/-! ### A node that stops -/

/-- The database of a node nothing was applied on. -/
def fresh : Machine := ⟨⟨.create ⟨1⟩, none, .default⟩, none⟩

/-- An identity of the first leader. -/
def idAt (index : UInt64) : LogId := ⟨⟨1, 7⟩, index⟩

/-- The first two entries of a cluster: its membership, and one that carries nothing. -/
def founding : List Step :=
  [.apply ⟨idAt 1, .membership ⟨[{7}], ∅⟩⟩, .apply ⟨idAt 2, .blank⟩]

/-- A node that stops after the membership was written goes on from there. -/
theorem whole_steps_survive_founding : ∃ n ≤ founding.length,
    (Crash.crashed transactions fresh founding 2).replica =
      (founding.take n).foldl Replica.after fresh.replica ∧
    (Crash.runs transactions (Crash.crashed transactions fresh founding 2)
      (founding.drop n)).replica = founding.foldl Replica.after fresh.replica := by
  refine whole_steps_survive fresh founding 2 (fun step hstep => ?_) fun _ _ _ => by decide
  simp only [founding, List.mem_cons, List.not_mem_nil, or_false] at hstep
  rcases hstep with rfl | rfl <;> trivial

/-- A node that stops between the two writes of a membership says that it has applied the entry, and
has the membership from before it: no number of whole steps leaves that. Nor does any leave what a
snapshot without a position leaves, an emptied store under the position from before. -/
theorem half_a_step_survives :
    (¬ ∃ n, (Crash.crashed transactions fresh founding 1).replica =
      (founding.take n).foldl Replica.after fresh.replica) ∧
    ¬ ∃ n, (Crash.crashed transactions fresh
      [.apply ⟨idAt 1, .normal ⟨.new .empty, ⟨"operator", "first"⟩, 10, []⟩⟩,
        .install ⟨none, .default, "empty"⟩ ⟨none, [], []⟩] 3).replica =
      (([.apply ⟨idAt 1, .normal ⟨.new .empty, ⟨"operator", "first"⟩, 10, []⟩⟩,
        .install ⟨none, .default, "empty"⟩ ⟨none, [], []⟩] : List Step).take n).foldl
        Replica.after fresh.replica := by
  constructor
  · rintro ⟨n, h⟩
    match n with
    | 0 => nomatch congrArg Replica.applied h
    | 1 => nomatch congrArg (fun replica => replica.membership.logId) h
    | n + 2 =>
      rw [List.take_of_length_le (by simp [founding])] at h
      nomatch congrArg (fun replica => replica.membership.logId) h
  · rintro ⟨n, h⟩
    match n with
    | 0 => nomatch congrArg Replica.applied h
    | 1 => nomatch congrArg (fun replica => replica.store.state) h
    | n + 2 =>
      rw [List.take_of_length_le (by simp)] at h
      nomatch congrArg Replica.applied h

end Machine

end EkEk.Raft
