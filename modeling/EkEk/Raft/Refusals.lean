import EkEk.Raft.Cluster

/-!
# The rows and the refusal list

Reference: `crates/ek-ek-raft/src/join.rs`, `apply_once` of `crates/ek-ek/src/cluster.rs` and
`roll_back_to` of `crates/ek-ek-store/src/sqlite.rs`.

A removed node is on the refusal list and has no row. A join keeps that because it turns removed
names away, and a removal because it writes both. A document and a rollback replace the rows without
looking at the list, and `apart_iff_reconciled` says that these are the only ways to break it: the two
stay apart in every state of a sequence of calls exactly when no document that is applied and no
version that is restored has a row for a node removed by then.
-/

namespace EkEk.Raft

open Store
open Peer (Library)

namespace Cluster

/-- No node has a row and is on the refusal list. -/
def Apart (cluster : Cluster) : Prop :=
  ∀ state ∈ cluster.read, ∀ row ∈ state.config.nodes, row.id ∉ state.removed

instance (cluster : Cluster) : Decidable cluster.Apart :=
  inferInstanceAs (Decidable (∀ state ∈ cluster.read, _))

/-- A document has no row for a removed node. -/
def Spares (cluster : Cluster) (document : Config) : Prop :=
  ∀ state ∈ cluster.read, ∀ row ∈ document.nodes, row.id ∉ state.removed

instance (cluster : Cluster) (document : Config) : Decidable (cluster.Spares document) :=
  inferInstanceAs (Decidable (∀ state ∈ cluster.read, _))

/-- What a call has to meet for the rows and the refusal list to stay apart. -/
def Reconciled (cluster : Cluster) : Call → Prop
  | .applyOnce document _ write => write.lands → cluster.Spares document
  | .rollBackTo id _ _ => ∀ version ∈ cluster.store.version id,
      version.schemaVersion = cluster.store.target → cluster.Spares version.document
  | _ => True

variable {lib : Library} {identity : NodeId → UInt64} {cluster : Cluster}

theorem apart_of_read {state : Snapshot} (h : cluster.read = some state) :
    cluster.Apart ↔ ∀ node, state.config.Names node → node ∉ state.removed := by
  simp [Apart, h, Config.Names]

theorem apart_applyOnce_iff {document : Config} {now : ℤ} {write : Agreement Failure}
    (hlands : write.lands) :
    (cluster.step lib identity (.applyOnce document now write)).Apart ↔
      cluster.Spares document := by
  have hread : (cluster.step lib identity (.applyOnce document now write)).read =
      some (Program.applied cluster.read document) := by
    simp [step, applyOnce, applying, hlands]
  rw [apart_of_read hread]
  cases hbefore : cluster.read with
  | none => simp [Spares, hbefore, Program.applied, Program.replaced, Snapshot.new]
  | some state =>
    simp [Spares, hbefore, Program.applied, Program.replaced, Tls.carryObtained, Config.Names]

/-- What a rollback to a kept version of the schema this store reads writes. -/
theorem read_rollBackTo {id : VersionId} {change : Change} {now : ℤ} {version : Version}
    {state : Snapshot} (hversion : cluster.store.version id = some version)
    (hschema : version.schemaVersion = cluster.store.target) (hread : cluster.read = some state) :
    (cluster.step lib identity (.rollBackTo id change now)).read =
      some (SqliteStore.rolledBack state version.document) := by
  have hstate : cluster.store.state = some state := hread
  simp [step, rollBackTo, SqliteStore.rollBackTo, SqliteStore.restoring, hversion, hschema, hstate,
    Except.map, read, SqliteStore.writeVersion]

theorem apart_rolledBack_iff {state : Snapshot} {document : Config} :
    (∀ node, (SqliteStore.rolledBack state document).config.Names node →
      node ∉ (SqliteStore.rolledBack state document).removed) ↔
      ∀ row ∈ document.nodes, row.id ∉ state.removed := by
  simp [SqliteStore.rolledBack, Config.Names]

/-- A reconciled call keeps the rows and the refusal list apart. -/
theorem Apart.step {call : Call} (h : cluster.Apart) (hcall : cluster.Reconciled call) :
    (cluster.step lib identity call).Apart := by
  rcases cluster.read_step lib identity call with hsame | ⟨next, hwrites, hread⟩
  · rwa [Apart, hsame]
  · cases hwrites with
    | mint hstate _ _ =>
      rw [apart_of_read hread]
      exact (apart_of_read hstate).mp h
    | enrol hjudge _ _ =>
      -- the call was let in, so its name is not on the list
      have hsound := judge_sound hjudge
      rw [apart_of_read hread]
      intro node hnode
      rcases (names_enrolled _ _ _ _ _).mp hnode with rfl | hheld
      · exact hsound.notRemoved
      · exact (apart_of_read hsound.held).mp h node hheld
    | remove hstate _ _ =>
      rw [apart_of_read hread]
      intro node hnode
      obtain ⟨hne, hheld⟩ := (names_putOut _ _).mp hnode
      simp only [putOut, Finset.mem_insert, not_or]
      exact ⟨hne, (apart_of_read hstate).mp h node hheld⟩
    | applyOnce hlands => exact (apart_applyOnce_iff hlands).mpr (hcall hlands)
    | rollBackTo hversion hschema hstate =>
      rw [apart_of_read hread, apart_rolledBack_iff]
      exact hcall _ hversion hschema _ hstate

/-- Every other call brings a removed node back into the rows. -/
theorem not_apart_step {call : Call} (hcall : ¬ cluster.Reconciled call) :
    ¬ (cluster.step lib identity call).Apart := by
  cases call with
  | mint | admitNode | remove => exact absurd trivial hcall
  | applyOnce document now write =>
    obtain ⟨hlands, hspares⟩ := Classical.not_imp.mp hcall
    rwa [apart_applyOnce_iff hlands]
  | rollBackTo id change now =>
    simp only [Reconciled, Spares, not_forall] at hcall
    obtain ⟨version, hversion, hschema, state, hread, row, hrow, hremoved⟩ := hcall
    rw [apart_of_read (read_rollBackTo hversion hschema hread), apart_rolledBack_iff]
    intro hspares
    exact hremoved (hspares row hrow)

/-- The rows and the refusal list stay apart in every state of a sequence of calls exactly when no
document that is applied and no version that is restored has a row for a node removed by then. -/
theorem apart_iff_reconciled (h : cluster.Apart) (calls : List Call) :
    (∀ first, first <+: calls → (Runs.run (step lib identity) cluster first).Apart) ↔
      Runs.Along (step lib identity) Reconciled cluster calls := by
  have hstep : ∀ (cluster : Cluster) call, cluster.Apart → cluster.Reconciled call →
      (cluster.step lib identity call).Apart := fun _ _ happart hcall => happart.step hcall
  have hbreak : ∀ (cluster : Cluster) call, cluster.Apart → ¬ cluster.Reconciled call →
      ¬ (cluster.step lib identity call).Apart := fun _ _ _ hcall => not_apart_step hcall
  exact Runs.along_iff (fun _ happart => happart) hstep hbreak h calls

/-- Two nodes, of which the second is removed and then left out of a document. -/
def removedAndLeftOut : List Call :=
  [.remove nodeB "operator" 10 .done .done, .applyOnce (documentOf [row nodeA 1]) 20 .done]

/-- A document that leaves the removed node out keeps the two apart. -/
theorem left_out_stays_apart :
    (Runs.run (step signing numbered)
      (founded numbered (documentOf [row nodeA 1, row nodeB 2])) removedAndLeftOut).Apart := by
  have halong : Runs.Along (step signing numbered) Reconciled
      (founded numbered (documentOf [row nodeA 1, row nodeB 2])) removedAndLeftOut := by
    refine ⟨trivial, ?_, trivial⟩
    intro _
    decide +kernel
  have hapart := (apart_iff_reconciled (by decide +kernel) removedAndLeftOut).mpr halong
  exact hapart removedAndLeftOut (List.prefix_refl removedAndLeftOut)

/-- Rolling back to the version from before a removal gives the removed node its row back. -/
theorem rolled_back_over_a_removal :
    (founded numbered (documentOf [row nodeA 1, row nodeB 2])).Apart ∧
      ¬ (Runs.run (step signing numbered)
        (founded numbered (documentOf [row nodeA 1, row nodeB 2]))
        [.remove nodeB "operator" 10 .done .done,
          .rollBackTo ⟨1⟩ ⟨"operator", "undo"⟩ 20]).Apart := by
  decide +kernel

end Cluster

end EkEk.Raft
