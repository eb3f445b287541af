import EkEk.Raft.Cluster

/-!
# Completing a removal

Reference: `remove` of `crates/ek-ek-raft/src/join.rs` and `remove_voter` of
`crates/ek-ek-raft/src/cluster.rs`.

A removal takes the vote first and writes the row and the refusal list after it. A failure in between
leaves a row without a vote, and so does a join that stopped before its second call. Taking the vote
of a node that has none is refused, and the refusal ends the removal before it gets to the refusal
list. `removal_completes_iff` says when trying again helps: a node with a row, in a cluster where
somebody else votes, can be put out exactly when it still votes.
-/

namespace EkEk.Raft

open Store
open Peer (Library)

namespace Cluster

variable (identity : NodeId → UInt64)

/-- A node is out: no row, no vote, and its name on the refusal list. -/
def Out (cluster : Cluster) (node : NodeId) : Prop :=
  identity node ∉ cluster.membership.voters ∧
    ∃ state, cluster.read = some state ∧ ¬ state.config.Names node ∧ node ∈ state.removed

/-- One more attempt to remove a node, on a leader with a quorum and without a failure. -/
def attempt (node : NodeId) (cluster : Cluster) (asked : String × ℤ) : Cluster :=
  (cluster.remove identity node asked.1 asked.2 .done .done).1

variable {identity} {cluster : Cluster} {node : NodeId} {state : Snapshot}

theorem remove_eq_ok_of_names (hread : cluster.read = some state) (hrow : state.config.Names node)
    (actor : String) (now : ℤ) :
    Raft.remove cluster.read node actor now = .ok (removing state node actor now) := by
  simp [Raft.remove, held, Checked.found, Checked.ensure, hread, hrow, bind, Except.bind]

/-- While the node votes and is not the only one that does, one attempt puts it out. -/
theorem out_attempt (hread : cluster.read = some state) (hrow : state.config.Names node)
    (hother : ∃ number ∈ cluster.membership.voters, number ≠ identity node)
    (hvotes : identity node ∈ cluster.membership.voters) (asked : String × ℤ) :
    (attempt identity node cluster asked).Out identity node := by
  obtain ⟨number, hnumber, hne⟩ := hother
  have hleft : cluster.membership.voters.erase (identity node) ≠ ∅ :=
    Finset.ne_empty_of_mem (Finset.mem_erase.mpr ⟨hne, hnumber⟩)
  have hvoter : cluster.removeVoter identity node .done = ({ cluster with membership :=
      { cluster.membership with voters := cluster.membership.voters.erase (identity node) } },
        .ok ()) := by
    simp [removeVoter, hvotes, hleft, Agreement.settle, Checked.mapError_ok]
  rw [attempt, remove, remove_eq_ok_of_names hread hrow]
  simp only [hvoter]
  refine ⟨by simp, putOut state node, by simp [Agreement.lands, removing], by simp, ?_⟩
  exact Finset.mem_insert_self node state.removed

/-- Without a vote an attempt changes nothing. -/
theorem attempt_eq_self (hread : cluster.read = some state) (hrow : state.config.Names node)
    (hvotes : identity node ∉ cluster.membership.voters) (asked : String × ℤ) :
    attempt identity node cluster asked = cluster := by
  rw [attempt, remove, remove_eq_ok_of_names hread hrow]
  simp [removeVoter, hvotes]

/-- Without a vote no number of attempts puts the node out. -/
theorem not_out_run (hread : cluster.read = some state) (hrow : state.config.Names node)
    (hvotes : identity node ∉ cluster.membership.voters) (attempts : List (String × ℤ)) :
    ¬ (Runs.run (attempt identity node) cluster attempts).Out identity node := by
  have hsame : Runs.run (attempt identity node) cluster attempts = cluster := by
    induction attempts with
    | nil => rfl
    | cons asked rest ih => rw [Runs.run_cons, attempt_eq_self hread hrow hvotes, ih]
  rw [hsame]
  rintro ⟨-, held, hheld, hgone, -⟩
  rw [hread, Option.some.injEq] at hheld
  exact hgone (hheld ▸ hrow)

/-- In whatever state a sequence of calls leaves a cluster in which somebody else votes, repeating
the removal of a node with a row puts it out exactly when the node votes. -/
theorem removal_completes_iff (lib : Library) (start : Cluster) (calls : List Call)
    (hread : (Runs.run (step lib identity) start calls).read = some state)
    (hrow : state.config.Names node)
    (hother : ∃ number ∈ (Runs.run (step lib identity) start calls).membership.voters,
      number ≠ identity node) :
    (∃ attempts, (Runs.run (attempt identity node) (Runs.run (step lib identity) start calls)
      attempts).Out identity node) ↔
      identity node ∈ (Runs.run (step lib identity) start calls).membership.voters := by
  constructor
  · rintro ⟨attempts, hout⟩
    by_contra hvotes
    exact not_out_run hread hrow hvotes attempts hout
  · intro hvotes
    exact ⟨[("operator", 0)], out_attempt hread hrow hother hvotes ("operator", 0)⟩

/-- In a cluster of two that both vote, the second can be put out. -/
theorem second_node_can_be_put_out :
    ∃ attempts, (Runs.run (attempt numbered nodeB)
      (founded numbered (documentOf [row nodeA 1, row nodeB 2])) attempts).Out numbered nodeB := by
  refine (removal_completes_iff signing (founded numbered (documentOf [row nodeA 1, row nodeB 2]))
    [] rfl ?_ ?_).mpr ?_
  · decide +kernel
  · exact ⟨numbered nodeA, by decide +kernel, by decide +kernel⟩
  · decide +kernel

/-- A cluster of two in which the removal of the second node took its vote and then found no quorum
for the write. -/
def halfRemoved : Cluster :=
  Runs.run (step signing numbered) (founded numbered (documentOf [row nodeA 1, row nodeB 2]))
    [.remove nodeB "operator" 10 .done (.refused ⟨.noQuorum, "no quorum can be reached"⟩)]

/-- The row is still there and the first node votes, but no number of further attempts puts the
second node out. -/
theorem half_done_removal_never_completes :
    (∃ state ∈ halfRemoved.read, state.config.Names nodeB) ∧
      numbered nodeA ∈ halfRemoved.membership.voters ∧
      ¬ ∃ attempts, (Runs.run (attempt numbered nodeB) halfRemoved attempts).Out numbered nodeB := by
  have hnames : ∃ state ∈ halfRemoved.read, state.config.Names nodeB := by decide +kernel
  refine ⟨hnames, by decide +kernel, ?_⟩
  rintro ⟨attempts, hout⟩
  obtain ⟨state, hread, hrow⟩ := hnames
  exact not_out_run hread hrow (by decide +kernel) attempts hout

end Cluster

end EkEk.Raft
