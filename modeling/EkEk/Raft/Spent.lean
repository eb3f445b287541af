import EkEk.Raft.Cluster

/-!
# What a used token is still good for

Reference: `admit` and `enlist` of `crates/ek-ek-raft/src/join.rs`, `token.rs`, and `JoinRecord` of
`crates/ek-ek-store/src/membership.rs`.

A join presents its token twice, and the second call may come late: it is told apart by the name it
asks for, is not held to the token's expiry, and carries a signing request of its own. What a used
token yields is therefore bound to a name and not to a key. `spent_token_serves_its_user` is about any
sequence of calls that present one token: after the call that used it, every certificate is for the
name of that call, and from the expiry on there are certificates only for a name that used the token
before it.
-/

namespace EkEk.Raft

open Store
open Peer (Library)

/-- One call to be admitted, with what consensus makes of it. -/
structure Presenting where
  ask : Ask
  now : ℤ
  write : Agreement Failure
  learner : Agreement String
  change : Agreement String

namespace Cluster

variable (lib : Library) (identity : NodeId → UInt64)

/-- The cluster after a call to be admitted. -/
def present (cluster : Cluster) (call : Presenting) : Cluster :=
  (cluster.admitNode lib identity call.ask call.now call.write call.learner call.change).1

/-- What the caller is told. -/
def answered (cluster : Cluster) (call : Presenting) : Except Failure Answer :=
  (cluster.admitNode lib identity call.ask call.now call.write call.learner call.change).2

/-- A call uses a token: nobody had, and from then on the node it names has. -/
def Uses (cluster : Cluster) (call : Presenting) (id : TokenId) : Prop :=
  cluster.usedBy id = none ∧
    (cluster.present lib identity call).usedBy id = some call.ask.name

/-- The record of a token, as far as the leader's state says. -/
def joinRecord (cluster : Cluster) (id : TokenId) : Option JoinRecord :=
  cluster.read.bind fun state => state.joins.lookup id

variable {lib identity} {cluster : Cluster} {call : Presenting} {id : TokenId} {record : JoinRecord}

theorem usedBy_eq_joinRecord : cluster.usedBy id = (cluster.joinRecord id).bind JoinRecord.usedBy := by
  rw [usedBy, joinRecord, Option.bind_assoc]
  rfl

/-- A call leaves a record as it was, or marks an unused one that has not run out with the name it
asks for. -/
theorem joinRecord_present (lib : Library) (identity : NodeId → UInt64) (call : Presenting)
    (hrecord : cluster.joinRecord id = some record) :
    (cluster.present lib identity call).joinRecord id = some record ∨
      record.usedBy = none ∧ ¬ record.expired call.now ∧
        (cluster.present lib identity call).joinRecord id =
          some { record with usedBy := some call.ask.name } := by
  cases hjudge : judge lib cluster.read call.ask call.now with
  | error failure =>
    left
    rw [present, admitNode, hjudge]
    exact hrecord
  | ok judged =>
    have hsound := judge_sound hjudge
    cases hfinishing : judged.finishing with
    | true =>
      left
      rw [joinRecord, present, read_admitNode_of_finishing lib identity hjudge hfinishing]
      exact hrecord
    | false =>
      rw [joinRecord, present, read_admitNode_of_first lib identity hjudge hfinishing]
      split
      · rw [joinRecord, hsound.held, Option.bind_some] at hrecord
        rw [Option.bind_some, enrolled]
        by_cases hid : id = judged.token.id
        · right
          subst hid
          obtain rfl : judged.record = record :=
            Option.some.inj (hsound.record.symm.trans hrecord)
          rcases hsound.used with ⟨hnone, -, hrun⟩ | ⟨-, htrue⟩
          · exact ⟨hnone, hrun, Finmap.lookup_insert _⟩
          · rw [hfinishing] at htrue
            cases htrue
        · left
          rw [Finmap.lookup_insert_of_ne _ hid, hrecord]
      · exact .inl hrecord

/-- A token once used stays used by the same node. -/
theorem usedBy_present {node : NodeId} (hused : cluster.usedBy id = some node) :
    (cluster.present lib identity call).usedBy id = some node := by
  rw [usedBy_eq_joinRecord, Option.bind_eq_some_iff] at hused
  obtain ⟨record, hrecord, hnode⟩ := hused
  rcases joinRecord_present lib identity call hrecord with hsame | ⟨hnone, -, -⟩
  · rw [usedBy_eq_joinRecord, hsame, Option.bind_some, hnode]
  · rw [hnode] at hnone
    nomatch hnone

/-- A certificate is for the name the token is marked with, or the token is unmarked and has not run
out. -/
theorem certificate_of_answered {token : Token} {answer : Answer}
    (htoken : Token.read call.ask.token = .ok token)
    (hanswer : cluster.answered lib identity call = .ok answer) :
    cluster.usedBy token.id = some answer.certificate.node ∨
      cluster.usedBy token.id = none ∧
        ∃ record, cluster.joinRecord token.id = some record ∧ ¬ record.expired call.now := by
  obtain ⟨judged, hjudge, rfl⟩ := judge_of_answered lib identity hanswer
  have hsound := judge_sound hjudge
  obtain rfl : token = judged.token := Except.ok.inj (htoken.symm.trans hsound.token)
  have hrecord : cluster.joinRecord judged.token.id = some judged.record := by
    rw [joinRecord, hsound.held, Option.bind_some, hsound.record]
  rw [usedBy_eq_joinRecord, hrecord, Option.bind_some, hsound.node]
  rcases hsound.used with ⟨hnone, -, hrun⟩ | ⟨hown, -⟩
  · exact .inr ⟨hnone, judged.record, rfl, hrun⟩
  · exact .inl hown

theorem usedBy_run_present {node : NodeId} (hused : cluster.usedBy id = some node)
    (calls : List Presenting) :
    (Runs.run (present lib identity) cluster calls).usedBy id = some node := by
  have hstep : ∀ (cluster : Cluster) call, cluster.usedBy id = some node →
      (cluster.present lib identity call).usedBy id = some node := fun _ _ h => usedBy_present h
  exact Runs.run_inv hstep hused calls

/-- After any calls an unused token is still unused, or one of the calls has used it before it ran
out. -/
theorem joinRecord_run_present (lib : Library) (identity : NodeId → UInt64)
    (hrecord : cluster.joinRecord id = some record) (hunused : record.usedBy = none)
    (calls : List Presenting) :
    (Runs.run (present lib identity) cluster calls).joinRecord id = some record ∨
      ∃ earlier user between, calls = earlier ++ user :: between ∧
        (Runs.run (present lib identity) cluster earlier).Uses lib identity user id ∧
        user.now < record.expiresAtUnix := by
  induction calls using List.reverseRecOn with
  | nil => exact .inl hrecord
  | append_singleton calls call ih =>
    rcases ih with hsame | ⟨earlier, user, between, rfl, huses, hbefore⟩
    · rw [Runs.run_append, Runs.run_cons, Runs.run_nil]
      rcases joinRecord_present lib identity call hsame with hstill | ⟨-, hrun, hmarked⟩
      · exact .inl hstill
      · refine .inr ⟨calls, call, [], rfl, ⟨?_, ?_⟩, not_le.mp hrun⟩
        · rw [usedBy_eq_joinRecord, hsame, Option.bind_some, hunused]
        · rw [usedBy_eq_joinRecord, hmarked, Option.bind_some]
    · refine .inr ⟨earlier, user, between ++ [call], ?_, huses, hbefore⟩
      rw [List.append_assoc, List.cons_append]

/-- In any sequence of calls that starts with an unused token, every certificate that is returned for
the token after a call used it is for the name of that call, and a certificate returned at or after the
expiry is for a name that used the token before the expiry. -/
theorem spent_token_serves_its_user {start : Cluster} {token : Token} {calls : List Presenting}
    {call : Presenting} {answer : Answer}
    (htoken : Token.read call.ask.token = .ok token)
    (hrecord : start.joinRecord token.id = some record) (hunused : record.usedBy = none)
    (hanswer : (Runs.run (present lib identity) start calls).answered lib identity call =
      .ok answer) :
    (∀ earlier user between, calls = earlier ++ user :: between →
      (Runs.run (present lib identity) start earlier).Uses lib identity user token.id →
      answer.certificate.node = user.ask.name) ∧
    (record.expiresAtUnix ≤ call.now →
      ∃ earlier user between, calls = earlier ++ user :: between ∧
        (Runs.run (present lib identity) start earlier).Uses lib identity user token.id ∧
        user.now < record.expiresAtUnix ∧ answer.certificate.node = user.ask.name) := by
  have hafter : ∀ earlier user between, calls = earlier ++ user :: between →
      (Runs.run (present lib identity) start earlier).Uses lib identity user token.id →
      answer.certificate.node = user.ask.name := by
    rintro earlier user between rfl huses
    have hused : (Runs.run (present lib identity) start (earlier ++ user :: between)).usedBy
        token.id = some user.ask.name := by
      rw [Runs.run_append, Runs.run_cons]
      exact usedBy_run_present huses.2 between
    rcases certificate_of_answered htoken hanswer with hcertificate | ⟨hnone, -⟩
    · exact Option.some.inj (hcertificate.symm.trans hused)
    · rw [hused] at hnone
      nomatch hnone
  refine ⟨hafter, fun hexpired => ?_⟩
  rcases joinRecord_run_present lib identity hrecord hunused calls with
    hstill | ⟨earlier, user, between, hsplit, huses, hbefore⟩
  · -- an unused token that has run out is refused
    rcases certificate_of_answered htoken hanswer with hcertificate | ⟨-, held, hheld, hrun⟩
    · rw [usedBy_eq_joinRecord, hstill, Option.bind_some, hunused] at hcertificate
      nomatch hcertificate
    · obtain rfl : held = record := Option.some.inj (hheld.symm.trans hstill)
      exact absurd hexpired hrun
  · exact ⟨earlier, user, between, hsplit, huses, hbefore,
      hafter earlier user between hsplit huses⟩

/-- The first call of a join, ten seconds later. -/
def firstCall : Presenting := ⟨asking 0x11 nodeB "first request", 20, .done, .done, .done⟩

/-- The second call, long after the token ran out and with a signing request of its own. -/
def lateCall : Presenting := ⟨asking 0x11 nodeB "second request", 5000, .done, .done, .done⟩

theorem answered_lateCall (cluster : Cluster) :
    cluster.answered signing numbered lateCall = (cluster.admitJudged numbered
      (judgePresented signing cluster.read lateCall.ask 5000 (tokenOf 0x11)) lateCall.ask 5000 .done
      .done .done).2 := by
  rw [answered, admitNode, lateCall, judge_asking]

theorem present_firstCall (cluster : Cluster) :
    cluster.present signing numbered firstCall = (cluster.admitJudged numbered
      (judgePresented signing cluster.read firstCall.ask 20 (tokenOf 0x11)) firstCall.ask 20 .done
      .done .done).1 := by
  rw [present, admitNode, firstCall, judge_asking]

/-- The late call is answered, for the node that used the token. -/
theorem late_call_serves_the_user :
    ∃ answer, (Runs.run (present signing numbered) withToken [firstCall]).answered signing numbered
        lateCall = .ok answer ∧ answer.certificate.node = nodeB := by
  have hrecord : (withToken.joinRecord (tokenOf 0x11).id).isSome ∧
      ∀ record ∈ withToken.joinRecord (tokenOf 0x11).id,
        record.usedBy = none ∧ record.expiresAtUnix ≤ 5000 := by
    decide +kernel
  have hanswered : ((Runs.run (present signing numbered) withToken [firstCall]).answered signing
      numbered lateCall).toOption.isSome := by
    rw [Runs.run_cons, Runs.run_nil, answered_lateCall, present_firstCall]
    decide +kernel
  obtain ⟨hsome, hall⟩ := hrecord
  obtain ⟨record, hrecord⟩ := Option.isSome_iff_exists.mp hsome
  obtain ⟨answer, hanswer⟩ := Option.isSome_iff_exists.mp hanswered
  obtain ⟨hunused, hexpired⟩ := hall record hrecord
  have hok := Checked.toOption_eq_some.mp hanswer
  have htoken : Token.read lateCall.ask.token = .ok (tokenOf 0x11) :=
    read_asking 0x11 nodeB "second request"
  obtain ⟨earlier, user, between, hsplit, -, -, hnode⟩ :=
    (spent_token_serves_its_user htoken hrecord hunused hok).2 hexpired
  refine ⟨answer, hok, hnode.trans ?_⟩
  have huser : user ∈ [firstCall] := hsplit ▸ by simp
  rw [List.mem_singleton.mp huser]
  rfl

/-- The certificate of the late call is for another key than the one the token was used with. -/
theorem late_call_gets_another_key :
    (withToken.joinRecord (tokenOf 0x11).id).map JoinRecord.expiresAtUnix = some 3610 ∧
      (withToken.answered signing numbered firstCall).toOption.map
        (fun answer => answer.certificate.key) = some ⟨"first request"⟩ ∧
      ((withToken.present signing numbered firstCall).answered signing numbered
        lateCall).toOption.map (fun answer => answer.certificate.key) =
          some ⟨"second request"⟩ := by
  refine ⟨by decide +kernel, ?_, ?_⟩
  · rw [answered, admitNode, firstCall, judge_asking]
    decide +kernel
  · rw [answered_lateCall, present_firstCall]
    decide +kernel

end Cluster

end EkEk.Raft
