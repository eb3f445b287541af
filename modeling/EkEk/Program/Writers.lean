import EkEk.Lib.ReadModifyWrite
import EkEk.Program.Edits
import EkEk.Raft.Join

/-!
# The writers of the replicated state

Reference: `crates/ek-ek-raft/src/join.rs`, and `one_at_a_time`, `apply_once` and `Replicated` of
`crates/ek-ek/src/cluster.rs`, and `crates/ek-ek/src/acme.rs`.

Five things write the state of a cluster: minting, admitting, removing, applying a document, and
driving a certificate order, which makes several writes of its own. Each reads what its node holds and
proposes a whole new state. The node program's own two, documents and orders, take turns within one
process; the others take no turns with anybody.
-/

namespace EkEk.Program

open Store Raft ReadModifyWrite
open Peer (Library)

/-- A write, with what its caller brings along. -/
inductive Writer where
  | mint (actor : String) (now : ℤ) (drawn : Except String Draw)
  | admitNode (ask : Ask) (now : ℤ)
  | remove (node : NodeId) (actor : String) (now : ℤ)
  | applyOnce (document : Config)
  | accountKey (captured : Config) (pem : Secret)
  | openOrder (id : CertificateId) (names : List String) (challenge : OrderChallenge)
      (driver : Option NodeId) (now : ℤ) (key : Secret)
  | fileReached (id : CertificateId) (reached : Reached) (driver : Option NodeId)
  | closeOrder (id : CertificateId)
  | obtained (captured : Config) (id : CertificateId) (source : CertificateSource)
      (upload : Tls.Upload)

/-- A proposal, or nothing where the writer refuses. -/
def proposing {ε : Type*} (proposed : Except ε Snapshot) : Option (Option (Option Snapshot) × Unit) :=
  match proposed with
  | .ok next => some (some (some next), ())
  | .error _ => none

/-- What a writer does with the state it reads. The second call of a join writes nothing, and what
consensus says to a change of the membership is up to the run. -/
def writerPlan (lib : Library) (writer : Writer) (state : Option Snapshot) :
    Option (Option (Option Snapshot) × Unit) :=
  match writer with
  | .mint actor now drawn =>
    proposing ((Raft.mint lib state actor now drawn).map fun minted => minted.2.next)
  | .admitNode ask now =>
    match judge lib state ask now with
    | .error _ => none
    | .ok judged =>
      some (if judged.finishing then none else some (some (enrolling judged ask now).next), ())
  | .remove node actor now =>
    proposing ((Raft.remove state node actor now).map fun proposal => proposal.next)
  | .applyOnce document => some (some (some (applied state document)), ())
  | .accountKey captured pem => some (some (some (accountKeyed state captured pem)), ())
  | .openOrder id names challenge driver now key =>
    proposing (Program.openOrder state id names challenge driver now key)
  | .fileReached id reached driver => proposing (Program.fileReached state id reached driver)
  | .closeOrder id => proposing (Program.closeOrder state id)
  | .obtained captured id source upload =>
    some (some (some (obtainedOrder state captured id source upload)), ())

/-- Whether a writer goes through `one_at_a_time`. -/
def takesTurns : Writer → Bool
  | .mint .. | .admitNode .. | .remove .. => false
  | _ => true

/-- The five writers. -/
def writers (lib : Library) : Protocol Writer (Option Snapshot) Unit where
  plan := writerPlan lib
  locks := takesTurns

/-- The edits the writers make, as relations between the state they edit and the state they write. -/
inductive Edits (lib : Library) : Writer → Snapshot → Snapshot → Prop
  | mint {state : Snapshot} {actor : String} {now : ℤ} {draw : Draw} {print : String} :
      Edits lib (.mint actor now (.ok draw)) state
        (state.withJoin ⟨Text.hex draw.id.toList⟩ (mintedRecord lib
          ⟨⟨Text.hex draw.id.toList⟩, Text.hex draw.secret.toList, print⟩ actor now))
  | admitNode {judged : Judged} {ask : Ask} {now : ℤ}
      (hjudged : judged.Sound lib (some judged.state) ask now) (hfirst : judged.finishing = false) :
      Edits lib (.admitNode ask now) judged.state
        (enrolled judged.state ask.name ask.address judged.token.id judged.record)
  | remove {state : Snapshot} {node : NodeId} {actor : String} {now : ℤ} :
      Edits lib (.remove node actor now) state (putOut state node)
  | applyOnce {state : Snapshot} {document : Config} :
      Edits lib (.applyOnce document) state (replaced state document)
  | accountKey {state : Snapshot} {captured : Config} {pem : Secret} :
      Edits lib (.accountKey captured pem) state
        ((replaced state captured).withSecret accountKeySecret pem)
  | openOrder {state : Snapshot} {id : CertificateId} {names : List String}
      {challenge : OrderChallenge} {driver : Option NodeId} {now : ℤ} {key : Secret} :
      Edits lib (.openOrder id names challenge driver now key) state
        (orderOpened state id (openingRecord id names challenge driver now) key)
  | fileReached {state : Snapshot} {id : CertificateId} {reached : Reached}
      {driver : Option NodeId} {record : OrderRecord} (hrecord : state.orders.lookup id = some record) :
      Edits lib (.fileReached id reached driver) state
        { state with orders := state.orders.insert id (reachedRecord record reached driver) }
  | closeOrder {state : Snapshot} {id : CertificateId} :
      Edits lib (.closeOrder id) state (orderClosed state id)
  | obtained {state : Snapshot} {captured : Config} {id : CertificateId}
      {source : CertificateSource} {upload : Tls.Upload} :
      Edits lib (.obtained captured id source upload) state
        (orderClosed (Tls.install state id source upload) id)

variable {lib : Library} {writer : Writer} {state : Option Snapshot}

theorem proposing_eq_some {ε : Type*} {proposed : Except ε Snapshot} {next : Option Snapshot}
    (h : proposing proposed = some (some next, ())) : ∃ s, proposed = .ok s ∧ next = some s := by
  cases proposed with
  | error => nomatch h
  | ok s =>
    simp only [proposing, Option.some.injEq, Prod.mk.injEq, and_true] at h
    exact ⟨s, rfl, h.symm⟩

/-- A writer that writes makes its edit: of the state it read, or of a fresh one where it read none. -/
theorem edits_of_plan {next : Option Snapshot} {answer : Unit}
    (h : (writers lib).plan writer state = some (some next, answer)) :
    ∃ before after, next = some after ∧ Edits lib writer before after ∧
      ∀ s, state = some s → s = before := by
  have hread : ∀ {s : Snapshot}, state = some s → ∀ s', state = some s' → s' = s :=
    fun hs s' hs' => Option.some.inj (hs'.symm.trans hs)
  have hgetD : ∀ fresh s, state = some s → s = state.getD fresh := by
    rintro fresh s rfl
    rfl
  cases writer with
  | mint actor now drawn =>
    obtain ⟨after, hproposed, hnext⟩ := proposing_eq_some h
    obtain ⟨⟨token, proposal⟩, hmint, rfl⟩ := Checked.map_eq_ok.mp hproposed
    obtain ⟨s, hs, rfl⟩ := mint_eq_ok hmint
    obtain ⟨draw, print, rfl, rfl⟩ := draws_of_mint hmint
    exact ⟨s, _, hnext, .mint, hread hs⟩
  | admitNode ask now =>
    -- an admission that only finishes an earlier one plans no write
    simp only [writers, writerPlan] at h
    split at h
    · nomatch h
    · rename_i judged hjudge
      have hsound := judge_sound hjudge
      have hheld := hsound.held
      cases hfirst : judged.finishing with
      | true => simp [hfirst] at h
      | false =>
        simp only [hfirst, Bool.false_eq_true, if_false, Option.some.injEq, Prod.mk.injEq,
          and_true] at h
        rw [hheld] at hsound
        exact ⟨judged.state, _, h.symm, .admitNode hsound hfirst, hread hheld⟩
  | remove node actor now =>
    obtain ⟨after, hproposed, hnext⟩ := proposing_eq_some h
    obtain ⟨proposal, hremove, rfl⟩ := Checked.map_eq_ok.mp hproposed
    obtain ⟨s, hs, -, rfl⟩ := remove_eq_ok hremove
    exact ⟨s, _, hnext, .remove, hread hs⟩
  | applyOnce document =>
    obtain ⟨hnext, -⟩ := Prod.mk.inj (Option.some.inj h)
    exact ⟨_, _, (Option.some.inj hnext).symm, .applyOnce, hgetD _⟩
  | accountKey captured pem =>
    obtain ⟨hnext, -⟩ := Prod.mk.inj (Option.some.inj h)
    exact ⟨_, _, (Option.some.inj hnext).symm, .accountKey, hgetD _⟩
  | openOrder id names challenge driver now key =>
    obtain ⟨after, hopened, hnext⟩ := proposing_eq_some h
    simp only [Program.openOrder, editing, Checked.bind_eq_ok, Checked.found_eq_ok] at hopened
    obtain ⟨s, hs, hafter⟩ := hopened
    cases hafter
    exact ⟨s, _, hnext, .openOrder, hread hs⟩
  | fileReached id reached driver =>
    obtain ⟨after, hfiled, hnext⟩ := proposing_eq_some h
    simp only [Program.fileReached, editing, Checked.bind_eq_ok, Checked.found_eq_ok] at hfiled
    obtain ⟨s, hs, record, hrecord, hafter⟩ := hfiled
    cases hafter
    exact ⟨s, _, hnext, .fileReached hrecord, hread hs⟩
  | closeOrder id =>
    obtain ⟨after, hclosed, hnext⟩ := proposing_eq_some h
    simp only [Program.closeOrder, editing, Checked.bind_eq_ok, Checked.found_eq_ok] at hclosed
    obtain ⟨s, hs, hafter⟩ := hclosed
    cases hafter
    exact ⟨s, _, hnext, .closeOrder, hread hs⟩
  | obtained captured id source upload =>
    obtain ⟨hnext, -⟩ := Prod.mk.inj (Option.some.inj h)
    exact ⟨_, _, (Option.some.inj hnext).symm, .obtained, hgetD _⟩

end EkEk.Program
