import EkEk.Lib.Overflow
import EkEk.Lib.Runs
import EkEk.Vrrp.Gateway

/-!
# What supervising the traffic path decides

Reference: `crates/ek-ek-agent/src/supervise.rs`.

The supervision is told what happened and says what to do about it. `Log` is a supervision together
with every effect it has asked for, and `Log.tell` hands it one more event.

The rule is that the claim is lowered as long as a restart is pending. `rule_iff` says exactly which
sequences of events keep it: those in which no report of a serving process is taken while a restart
is pending. The report does not say which process it is from, so a late one of the process that just
ended looks like one of the process that is not there yet.
-/

namespace EkEk.Agent

open Overflow (saturatingAdd)
open Vrrp (Instant Duration)

/-- How long to wait before the first restart. -/
def firstWait : Duration := 100000000

/-- The longest wait between two restarts. -/
def longestWait : Duration := 30000000000

/-- How many crashes in a row before the alarm state is produced. -/
def alarmAfter : UInt32 := 5

/-- How long to wait before restarting after this many crashes in a row. -/
def waitAfter (crashes : UInt32) : Duration :=
  if crashes = 0 then 0
  else min (firstWait * 2 ^ min (crashes.toNat - 1) 31) longestWait

/-- What the traffic path says it is doing. -/
inductive DataPlaneState where
  | starting
  | serving
  | degraded
deriving DecidableEq, Repr

/-- Whether a report from the traffic path says this node can carry traffic. -/
def serving : DataPlaneState → Bool
  | .starting => false
  | .serving | .degraded => true

/-- What the caller has to do next. -/
inductive Effect where
  | demote
  | restore
  | terminate
  | start
  | alarm
  | clear
deriving DecidableEq, Repr

/-- Where the traffic path stands, as this node reports it. -/
inductive Standing where
  | starting
  | serving
  | down
deriving DecidableEq, Repr

/-- The supervision of one process. -/
structure Supervision where
  standing : Standing
  crashes : UInt32
  /-- Whether the claim is currently lowered. -/
  lowered : Bool
  alarm : Bool
  /-- When the next start is due, when one is waiting. -/
  startAt : Option Instant
  silent : UInt32
  patience : UInt32
deriving DecidableEq, Repr

namespace Supervision

/-- A supervision that has not started the process yet. -/
def new (patience : UInt32) : Supervision where
  standing := .starting
  crashes := 0
  lowered := false
  alarm := false
  startAt := none
  silent := 0
  patience := patience

/-- The first thing to do: start the process. -/
def begin (s : Supervision) : Supervision × List Effect := ({ s with startAt := none }, [.start])

/-- Take a liveness answer that arrived. -/
def answered (s : Supervision) : Supervision × List Effect := ({ s with silent := 0 }, [])

/-- Take a report that says the process is carrying traffic. -/
def serves (s : Supervision) : Supervision × List Effect :=
  if s.standing = .serving then ({ s with silent := 0 }, [])
  else
    ({ s with silent := 0, standing := .serving, crashes := 0, lowered := false, alarm := false },
      (if s.lowered then [.restore] else []) ++ (if s.alarm then [.clear] else []))

/-- Take one liveness question that went unanswered. -/
def unanswered (s : Supervision) : Supervision × List Effect :=
  if s.standing = .down then (s, [])
  else
    let silent := saturatingAdd s.silent 1
    if silent < s.patience then ({ s with silent := silent }, [])
    else ({ s with silent := 0 }, [.terminate])

/-- Take the process ending, however it ended. -/
def ended (s : Supervision) (now : Instant) : Supervision × List Effect :=
  let crashes := saturatingAdd s.crashes 1
  let alarms := decide (crashes ≥ alarmAfter) && !s.alarm
  ({ s with
      silent := 0
      crashes := crashes
      standing := .down
      startAt := some (now + waitAfter crashes)
      lowered := true
      alarm := s.alarm || alarms },
    (if s.lowered then [] else [.demote]) ++ (if alarms then [.alarm] else []))

/-- Take the moment, and start the process again when its wait is over. -/
def due (s : Supervision) (now : Instant) : Supervision × List Effect :=
  match s.startAt with
  | some moment =>
    if now ≥ moment then ({ s with startAt := none, standing := .starting }, [.start]) else (s, [])
  | none => (s, [])

end Supervision

/-- What a supervision can be told. -/
inductive Event where
  | begin
  | answered
  | serves
  | unanswered
  | ended (now : Instant)
  | due (now : Instant)
deriving DecidableEq, Repr

/-- What the supervision makes of one event. -/
def Supervision.take (s : Supervision) : Event → Supervision × List Effect
  | .begin => s.begin
  | .answered => s.answered
  | .serves => s.serves
  | .unanswered => s.unanswered
  | .ended now => s.ended now
  | .due now => s.due now

/-- A supervision and the effects it has asked for, oldest first. -/
structure Log where
  supervision : Supervision
  effects : List Effect
deriving DecidableEq, Repr

namespace Log

/-- A supervision nothing has happened to. -/
def new (patience : UInt32) : Log := ⟨.new patience, []⟩

/-- Tell the supervision one event. -/
def tell (log : Log) (event : Event) : Log :=
  ⟨(log.supervision.take event).1, log.effects ++ (log.supervision.take event).2⟩

/-- The last of the two effects that move the claim. -/
def lastClaim (log : Log) : Option Effect :=
  (log.effects.filter fun effect => effect = .demote ∨ effect = .restore).getLast?

/-- Whether a restart is waiting for its moment. -/
def Pending (log : Log) : Prop := log.supervision.startAt.isSome

/-- While a restart is pending the claim is lowered. -/
def Rule (log : Log) : Prop :=
  log.Pending → log.supervision.lowered = true ∧ log.lastClaim = some .demote

/-- An event is clear unless it reports a serving process while a restart is pending. -/
def Clear (log : Log) (event : Event) : Prop := event = .serves → ¬ log.Pending

/-- What a run of clear events keeps: the mark says what the last effect on the claim was, and a
restart is only pending for a process that is down and whose claim is lowered. -/
structure Ready (log : Log) : Prop where
  mark : log.supervision.lowered = true → log.lastClaim = some .demote
  down : log.Pending → log.supervision.standing = .down
  lowered : log.Pending → log.supervision.lowered = true

theorem Ready.rule {log : Log} (h : log.Ready) : log.Rule :=
  fun hpending => ⟨h.lowered hpending, h.mark (h.lowered hpending)⟩

theorem ready_new (patience : UInt32) : (new patience).Ready :=
  ⟨fun h => Bool.noConfusion h, fun h => Bool.noConfusion h, fun h => Bool.noConfusion h⟩

/-- Effects that move no claim leave the last one that did. -/
theorem lastClaim_append (supervision : Supervision) (effects more : List Effect)
    (hmore : ∀ effect ∈ more, effect ≠ .demote ∧ effect ≠ .restore) :
    lastClaim ⟨supervision, effects ++ more⟩ = lastClaim ⟨supervision, effects⟩ := by
  have hnone : more.filter (fun effect => effect = .demote ∨ effect = .restore) = [] := by
    rw [List.filter_eq_nil_iff]
    intro effect hmem
    obtain ⟨hdemote, hrestore⟩ := hmore effect hmem
    simp [hdemote, hrestore]
  simp only [lastClaim]
  rw [List.filter_append, hnone, List.append_nil]

theorem Ready.serves {log : Log} (h : log.Ready) (hclear : ¬ log.Pending) :
    (log.tell .serves).Ready := by
  have hpending : ¬ (log.tell .serves).Pending := by
    unfold tell Supervision.take Supervision.serves Pending
    dsimp only
    split <;> exact hclear
  refine ⟨?_, fun hyes => absurd hyes hpending, fun hyes => absurd hyes hpending⟩
  unfold tell Supervision.take Supervision.serves
  dsimp only
  split
  · intro hlowered
    rw [lastClaim_append _ _ _ (fun _ hmem => absurd hmem List.not_mem_nil)]
    exact h.mark hlowered
  · exact fun hlowered => Bool.noConfusion hlowered

theorem Ready.ended {log : Log} (h : log.Ready) (now : Instant) : (log.tell (.ended now)).Ready := by
  refine ⟨fun _ => ?_, fun _ => rfl, fun _ => rfl⟩
  unfold tell Supervision.take Supervision.ended
  dsimp only
  rw [← List.append_assoc, lastClaim_append _ _ _ (by intro effect hmem; split at hmem <;> simp_all)]
  by_cases hlowered : log.supervision.lowered = true
  · rw [if_pos hlowered, List.append_nil]
    exact h.mark hlowered
  · rw [if_neg hlowered]
    simp [lastClaim]

/-- An event that moves no claim and makes no restart pending keeps a log ready. -/
theorem Ready.quiet {log : Log} (h : log.Ready) {event : Event}
    (hmore : ∀ effect ∈ (log.supervision.take event).2, effect ≠ .demote ∧ effect ≠ .restore)
    (hlowered : (log.supervision.take event).1.lowered = log.supervision.lowered)
    (hpending : (log.tell event).Pending →
      log.Pending ∧ (log.supervision.take event).1.standing = log.supervision.standing) :
    (log.tell event).Ready := by
  refine ⟨fun hmark => ?_, fun hyes => ?_, fun hyes => ?_⟩
  · rw [tell, lastClaim_append _ _ _ hmore]
    exact h.mark (hlowered.symm.trans hmark)
  · exact (hpending hyes).2.trans (h.down (hpending hyes).1)
  · exact hlowered.trans (h.lowered (hpending hyes).1)

/-- Every clear event keeps a log ready. -/
theorem Ready.tell {log : Log} (h : log.Ready) {event : Event} (hclear : log.Clear event) :
    (log.tell event).Ready := by
  have hempty : ∀ effect ∈ ([] : List Effect), effect ≠ .demote ∧ effect ≠ .restore :=
    fun _ hmem => absurd hmem List.not_mem_nil
  have hstart : ∀ effect ∈ [Effect.start], effect ≠ .demote ∧ effect ≠ .restore := by decide
  have hterminate : ∀ effect ∈ [Effect.terminate], effect ≠ .demote ∧ effect ≠ .restore := by
    decide
  cases event with
  | begin => exact h.quiet hstart rfl fun hyes => Bool.noConfusion hyes
  | answered => exact h.quiet hempty rfl fun hyes => ⟨hyes, rfl⟩
  | serves => exact h.serves (hclear rfl)
  | unanswered =>
    have hcases : log.supervision.unanswered.1.lowered = log.supervision.lowered ∧
        log.supervision.unanswered.1.startAt = log.supervision.startAt ∧
        log.supervision.unanswered.1.standing = log.supervision.standing ∧
        ∀ effect ∈ log.supervision.unanswered.2, effect ≠ .demote ∧ effect ≠ .restore := by
      unfold Supervision.unanswered
      dsimp only
      split_ifs
      · exact ⟨rfl, rfl, rfl, hempty⟩
      · exact ⟨rfl, rfl, rfl, hempty⟩
      · exact ⟨rfl, rfl, rfl, hterminate⟩
    obtain ⟨hlowered, hstartAt, hstanding, hmore⟩ := hcases
    refine h.quiet hmore hlowered fun hyes => ⟨?_, hstanding⟩
    rw [Pending, ← hstartAt]
    exact hyes
  | ended now => exact h.ended now
  | due now =>
    have hcases : log.supervision.due now = (log.supervision, []) ∨
        log.supervision.due now
          = ({ log.supervision with startAt := none, standing := .starting }, [.start]) := by
      unfold Supervision.due
      split
      · split
        · exact .inr rfl
        · exact .inl rfl
      · exact .inl rfl
    rcases hcases with hdue | hdue
    · have hsame : log.tell (.due now) = log := by
        rw [Log.tell, Supervision.take, hdue, List.append_nil]
      rw [hsame]
      exact h
    · refine h.quiet ?_ ?_ ?_ <;> simp only [Log.tell, Supervision.take, hdue]
      · exact hstart
      · exact fun hyes => Bool.noConfusion hyes

/-- A report of a serving process, taken while a restart is pending, breaks the rule on the spot. -/
theorem Ready.not_rule_serves {log : Log} (h : log.Ready) (hpending : log.Pending) :
    ¬ (log.tell .serves).Rule := by
  have hstanding : log.supervision.standing ≠ .serving := by
    rw [h.down hpending]
    exact Standing.noConfusion
  have htaken : (log.tell .serves).supervision = { log.supervision with
      silent := 0, standing := .serving, crashes := 0, lowered := false, alarm := false } := by
    unfold Log.tell Supervision.take Supervision.serves
    rw [if_neg hstanding]
  intro hrule
  have hlowered := (hrule (by rw [Pending, htaken]; exact hpending)).1
  rw [htaken] at hlowered
  exact Bool.noConfusion hlowered

/-- The rule holds after every event exactly when no report of a serving process is taken while a
restart is pending. -/
theorem rule_iff {log : Log} (h : log.Ready) (events : List Event) :
    (∀ first, first <+: events → (Runs.run Log.tell log first).Rule) ↔
      Runs.Along Log.tell Clear log events := by
  have hinv : ∀ log : Log, log.Ready → log.Rule := fun _ => Ready.rule
  have hstep : ∀ (log : Log) event, log.Ready → log.Clear event → (log.tell event).Ready :=
    fun _ _ hready hclear => hready.tell hclear
  have hbreak : ∀ (log : Log) event, log.Ready → ¬ log.Clear event → ¬ (log.tell event).Rule := by
    intro log event hready hunclear
    rw [Clear, Classical.not_imp, not_not] at hunclear
    obtain ⟨rfl, hpending⟩ := hunclear
    exact hready.not_rule_serves hpending
  exact Runs.along_iff hinv hstep hbreak h events

end Log

end EkEk.Agent
