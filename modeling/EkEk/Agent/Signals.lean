import EkEk.Agent.Supervise
import EkEk.Lib.Latch

/-!
# What a supervision asks for over time

Reference: `crates/ek-ek-agent/src/supervise.rs`.

A supervision keeps two marks, a count of crashes and the moment of the next start. `Told` is what they
are after any events in any order, in the terms of the events alone: both marks are latches, the count is
that of the crashes since the traffic path was last heard to serve again, and a start that is waiting
belongs to the last crash, with nothing started since.
-/

namespace EkEk.Agent

open Overflow (saturatingAdd toNat_saturatingAdd)
open Vrrp (Instant Duration)

/-! ## The waits -/

theorem waitAfter_le_longestWait (crashes : UInt32) : waitAfter crashes ≤ longestWait := by
  unfold waitAfter
  split
  · exact Nat.zero_le _
  · exact min_le_right _ _

theorem waitAfter_mono {fewer more : UInt32} (h : fewer ≤ more) : waitAfter fewer ≤ waitAfter more := by
  unfold waitAfter
  by_cases hfewer : fewer = 0
  · rw [if_pos hfewer]
    exact Nat.zero_le _
  have hle : fewer.toNat ≤ more.toNat := UInt32.le_iff_toNat_le.mp h
  have hmore : more ≠ 0 := by
    rintro rfl
    exact hfewer (UInt32.toNat_inj.mp (Nat.le_zero.mp hle))
  rw [if_neg hfewer, if_neg hmore]
  refine min_le_min_right _ (Nat.mul_le_mul_left _ (Nat.pow_le_pow_right (by decide) ?_))
  exact min_le_min_right _ (Nat.sub_le_sub_right hle 1)

/-! ## What the events say -/

/-- Whether an event is the process ending. -/
def Event.isEnded : Event → Bool
  | .ended _ => true
  | _ => false

namespace Log

/-- A report that the process serves counts when it was not known to. -/
def Effective (log : Log) (event : Event) : Prop :=
  event = .serves ∧ log.supervision.standing ≠ .serving

instance (log : Log) (event : Event) : Decidable (log.Effective event) :=
  inferInstanceAs (Decidable (_ ∧ _))

/-- How often the process ended since a report that counted, on top of what was counted before. -/
def endedSince (log : Log) (count : ℕ) : List Event → ℕ
  | [] => count
  | event :: rest =>
    endedSince (log.tell event)
      (if log.Effective event then 0 else if event.isEnded then count + 1 else count) rest

/-- The log of some events, told to a supervision that is new. -/
def after (patience : UInt32) (events : List Event) : Log := Runs.run tell (new patience) events

/-- How often the process ended since a report that counted. -/
def crashed (patience : UInt32) (events : List Event) : ℕ := endedSince (new patience) 0 events

/-- How often a start was asked for. -/
def starts (log : Log) : ℕ := log.effects.count .start

/-- The effects on the claim. -/
def claims (log : Log) : List Effect :=
  log.effects.filter fun effect => effect = .demote ∨ effect = .restore

/-- The effects on the alarm. -/
def alarms (log : Log) : List Effect :=
  log.effects.filter fun effect => effect = .alarm ∨ effect = .clear

theorem after_concat (patience : UInt32) (events : List Event) (event : Event) :
    after patience (events ++ [event]) = (after patience events).tell event := by
  rw [after, Runs.run_append]
  rfl

theorem endedSince_concat (log : Log) (count : ℕ) (events : List Event) (event : Event) :
    endedSince log count (events ++ [event]) =
      if (Runs.run tell log events).Effective event then 0
      else if event.isEnded then endedSince log count events + 1 else endedSince log count events := by
  induction events generalizing log count with
  | nil => rfl
  | cons first rest ih => exact ih (log.tell first) _

theorem crashed_concat (patience : UInt32) (events : List Event) (event : Event) :
    crashed patience (events ++ [event]) =
      if (after patience events).Effective event then 0
      else if event.isEnded then crashed patience events + 1 else crashed patience events :=
  endedSince_concat _ _ _ _

/-- A start that waits for a moment belongs to the last crash: nothing was started since, and the moment
is as far behind the crash as the crashes in a row ask for. -/
def Waits (patience : UInt32) (events : List Event) (log : Log) (moment : Instant) : Prop :=
  ∃ before now between, events = before ++ .ended now :: between ∧
    (∀ event ∈ between, event.isEnded = false) ∧
    log.starts = (after patience (before ++ [.ended now])).starts ∧
    moment = now + waitAfter (after patience (before ++ [.ended now])).supervision.crashes

/-- The log of some events, in the terms of the events. -/
structure Told (patience : UInt32) (events : List Event) (log : Log) : Prop where
  crashes : log.supervision.crashes.toNat = min (crashed patience events) 0xFFFFFFFF
  alarm : log.supervision.alarm = true ↔ 5 ≤ crashed patience events
  claimed : Latch.Latched .demote .restore log.supervision.lowered log.claims
  alarmed : Latch.Latched .alarm .clear log.supervision.alarm log.alarms
  waits : ∀ moment, log.supervision.startAt = some moment → Waits patience events log moment
  started : log.starts + (if log.supervision.startAt.isSome then 1 else 0) ≤
    events.countP Event.isEnded + events.count .begin

/-! ## One more event -/

/-- What the supervision makes of one event, with what an event that moves no mark leaves alone. -/
inductive Takes (s : Supervision) : Event → Supervision × List Effect → Prop where
  | begin : Takes s .begin ({ s with startAt := none }, [.start])
  | quiet {event : Event} {silent : UInt32} {effects : List Effect} (hended : event.isEnded = false)
      (hbegin : event ≠ .begin) (hserves : event = .serves → s.standing = .serving)
      (heffects : effects = [] ∨ effects = [.terminate]) :
      Takes s event ({ s with silent := silent }, effects)
  | serves (hstanding : s.standing ≠ .serving) :
      Takes s .serves
        ({ s with silent := 0, standing := .serving, crashes := 0, lowered := false, alarm := false },
          (if s.lowered then [.restore] else []) ++ (if s.alarm then [.clear] else []))
  | ended (now : Instant) : Takes s (.ended now) (s.ended now)
  | due {now moment : Instant} (hmoment : s.startAt = some moment) (hnow : moment ≤ now) :
      Takes s (.due now) ({ s with startAt := none, standing := .starting }, [.start])

theorem take_takes (s : Supervision) (event : Event) : Takes s event (s.take event) := by
  cases event with
  | begin => exact .begin
  | answered => exact .quiet rfl Event.noConfusion Event.noConfusion (.inl rfl)
  | serves =>
    rw [Supervision.take, Supervision.serves]
    split
    · rename_i hserving
      exact .quiet rfl Event.noConfusion (fun _ => hserving) (.inl rfl)
    · rename_i hstanding
      exact .serves hstanding
  | unanswered =>
    rw [Supervision.take, Supervision.unanswered]
    dsimp only
    split_ifs
    · exact @Takes.quiet s _ s.silent _ rfl Event.noConfusion Event.noConfusion (.inl rfl)
    · exact .quiet rfl Event.noConfusion Event.noConfusion (.inl rfl)
    · exact .quiet rfl Event.noConfusion Event.noConfusion (.inr rfl)
  | ended now => exact .ended now
  | due now =>
    have hnothing : Takes s (.due now) (s, []) :=
      @Takes.quiet s _ s.silent _ rfl Event.noConfusion Event.noConfusion (.inl rfl)
    rw [Supervision.take, Supervision.due]
    split
    · rename_i moment hmoment
      split
      · rename_i hnow
        exact .due hmoment hnow
      · exact hnothing
    · exact hnothing

theorem claims_append (log : Log) (s : Supervision) (more : List Effect) :
    claims ⟨s, log.effects ++ more⟩ =
      log.claims ++ more.filter fun effect => effect = .demote ∨ effect = .restore :=
  List.filter_append _ _

theorem alarms_append (log : Log) (s : Supervision) (more : List Effect) :
    alarms ⟨s, log.effects ++ more⟩ =
      log.alarms ++ more.filter fun effect => effect = .alarm ∨ effect = .clear :=
  List.filter_append _ _

theorem starts_append (log : Log) (s : Supervision) (more : List Effect) :
    starts ⟨s, log.effects ++ more⟩ = log.starts + more.count .start :=
  List.count_append

section

variable {patience : UInt32} {events : List Event} {log : Log} {s : Supervision} {event : Event}
  {effects : List Effect}

theorem told_new (patience : UInt32) : Told patience [] (new patience) where
  crashes := rfl
  alarm := iff_of_false Bool.false_ne_true (Nat.not_succ_le_zero 4)
  claimed := .new
  alarmed := .new
  waits _ h := by cases h
  started := le_refl 0

/-- A start goes on waiting while the process does not end and nothing is started. -/
theorem Waits.later {log' : Log} {moment : Instant} (h : Waits patience events log moment)
    (hended : event.isEnded = false) (hstarts : log'.starts = log.starts) :
    Waits patience (events ++ [event]) log' moment := by
  obtain ⟨before, now, between, hevents, hbetween, hsince, hwait⟩ := h
  refine ⟨before, now, between ++ [event], ?_, ?_, hstarts.trans hsince, hwait⟩
  · rw [hevents, List.append_assoc, List.cons_append]
  · intro other hother
    rcases List.mem_append.mp hother with hother | hother
    · exact hbetween other hother
    · rw [List.mem_singleton.mp hother]
      exact hended

/-- An event that moves no mark, is no crash and starts nothing of its own. -/
theorem Told.unmoved (h : Told patience events log) (hended : event.isEnded = false)
    (hcrashed : crashed patience (events ++ [event]) = crashed patience events)
    (hcrashes : s.crashes = log.supervision.crashes) (halarm : s.alarm = log.supervision.alarm)
    (hlowered : s.lowered = log.supervision.lowered)
    (heffects : ∀ effect ∈ effects, effect = .start ∨ effect = .terminate)
    (hwaits : ∀ moment, s.startAt = some moment →
      log.supervision.startAt = some moment ∧ effects.count .start = 0)
    (hstarted : effects.count .start + (if s.startAt.isSome then 1 else 0) ≤
      (if log.supervision.startAt.isSome then 1 else 0) + [event].count .begin) :
    Told patience (events ++ [event]) ⟨s, log.effects ++ effects⟩ := by
  have hclaims : effects.filter (fun effect => effect = .demote ∨ effect = .restore) = [] := by
    rw [List.filter_eq_nil_iff]
    intro effect hmem
    rcases heffects effect hmem with rfl | rfl <;> decide
  have halarms : effects.filter (fun effect => effect = .alarm ∨ effect = .clear) = [] := by
    rw [List.filter_eq_nil_iff]
    intro effect hmem
    rcases heffects effect hmem with rfl | rfl <;> decide
  refine ⟨?_, ?_, ?_, ?_, fun moment hmoment => ?_, ?_⟩
  · rw [hcrashed, hcrashes]
    exact h.crashes
  · rw [hcrashed, halarm]
    exact h.alarm
  · rw [claims_append, hclaims, List.append_nil, hlowered]
    exact h.claimed
  · rw [alarms_append, halarms, List.append_nil, halarm]
    exact h.alarmed
  · obtain ⟨hsame, hnone⟩ := hwaits moment hmoment
    refine (h.waits moment hsame).later hended ?_
    rw [starts_append, hnone]
    rfl
  · have hbefore := h.started
    have hnone : [event].countP Event.isEnded = 0 := by
      rw [List.countP_singleton, hended]
      rfl
    rw [starts_append, List.countP_append, List.count_append, hnone]
    dsimp only
    omega

/-- A report that counts takes both marks down, and the crashes before it are forgotten. -/
theorem Told.serves (h : Told patience events log)
    (hcrashed : crashed patience (events ++ [.serves]) = 0) :
    Told patience (events ++ [.serves])
      ⟨{ log.supervision with
          silent := 0, standing := .serving, crashes := 0, lowered := false, alarm := false },
        log.effects ++ ((if log.supervision.lowered then [.restore] else []) ++
          (if log.supervision.alarm then [.clear] else []))⟩ := by
  have hfilters (lowered alarm : Bool) :
      let effects := (if lowered then [Effect.restore] else []) ++ (if alarm then [Effect.clear] else [])
      effects.filter (fun effect => effect = .demote ∨ effect = .restore)
          = (if lowered then [.restore] else []) ∧
        effects.filter (fun effect => effect = .alarm ∨ effect = .clear)
          = (if alarm then [.clear] else []) ∧ effects.count .start = 0 := by
    cases lowered <;> cases alarm <;> decide
  obtain ⟨hclaims, halarms, hnone⟩ := hfilters log.supervision.lowered log.supervision.alarm
  refine ⟨?_, ?_, ?_, ?_, fun moment hmoment => ?_, ?_⟩
  · rw [hcrashed]
    rfl
  · rw [hcrashed]
    exact iff_of_false Bool.false_ne_true (by decide)
  · rw [claims_append, hclaims]
    exact h.claimed.clear
  · rw [alarms_append, halarms]
    exact h.alarmed.clear
  · refine (h.waits moment hmoment).later rfl ?_
    rw [starts_append, hnone]
    rfl
  · rw [starts_append, hnone, List.countP_append, List.count_append]
    exact h.started

/-- The count of crashes is up to the alarm with the fifth one, although it stops at the greatest one. -/
theorem alarmAfter_le_iff {crashes : UInt32} {n : ℕ} (hcount : crashes.toNat = min n 0xFFFFFFFF) :
    crashes ≥ alarmAfter ↔ 5 ≤ n := by
  have hfive : alarmAfter.toNat = 5 := rfl
  rw [ge_iff_le, UInt32.le_iff_toNat_le, hcount, hfive]
  omega

/-- The process ending puts the claim down, counts one crash more, and makes a start wait. -/
theorem Told.ended (h : Told patience events log) (hlog : after patience events = log) (now : Instant)
    (hcrashed : crashed patience (events ++ [.ended now]) = crashed patience events + 1) :
    Told patience (events ++ [.ended now])
      ⟨(log.supervision.ended now).1, log.effects ++ (log.supervision.ended now).2⟩ := by
  have hcount : (saturatingAdd log.supervision.crashes 1).toNat
      = min (crashed patience events + 1) 0xFFFFFFFF := by
    have hnext : (saturatingAdd log.supervision.crashes 1).toNat =
        min (log.supervision.crashes.toNat + 1) 0xFFFFFFFF := toNat_saturatingAdd log.supervision.crashes 1
    rw [hnext, h.crashes]
    omega
  have hfilters (lowered alarms : Bool) :
      let effects := (if lowered then [] else [Effect.demote]) ++ (if alarms then [Effect.alarm] else [])
      effects.filter (fun effect => effect = .demote ∨ effect = .restore)
          = (if lowered then [] else [.demote]) ∧
        effects.filter (fun effect => effect = .alarm ∨ effect = .clear)
          = (if alarms then [.alarm] else []) ∧ effects.count .start = 0 := by
    cases lowered <;> cases alarms <;> decide
  obtain ⟨hclaims, halarms, hnone⟩ := hfilters log.supervision.lowered
    (decide (saturatingAdd log.supervision.crashes 1 ≥ alarmAfter) && !log.supervision.alarm)
  rw [Supervision.ended]
  refine ⟨?_, ?_, ?_, ?_, fun moment hmoment => ?_, ?_⟩
  · rw [hcrashed]
    exact hcount
  · rw [hcrashed, Bool.or_eq_true, Bool.and_eq_true, decide_eq_true_eq, Bool.not_eq_true',
      alarmAfter_le_iff hcount]
    refine ⟨fun hup => ?_, fun hfive => ?_⟩
    · rcases hup with hup | hup
      · exact Nat.le_succ_of_le (h.alarm.mp hup)
      · exact hup.1
    · cases hmark : log.supervision.alarm with
      | false => exact .inr ⟨hfive, rfl⟩
      | true => exact .inl rfl
  · rw [claims_append, hclaims]
    exact h.claimed.raise
  · rw [alarms_append, halarms]
    exact h.alarmed.raiseIf _
  · have htold : after patience (events ++ [.ended now]) = log.tell (.ended now) := by
      rw [after_concat, hlog]
    refine ⟨events, now, [], rfl, fun _ hmem => absurd hmem List.not_mem_nil, ?_, ?_⟩
    · rw [htold]
      rfl
    · rw [htold]
      exact (Option.some.inj hmoment).symm
  · have hbefore := h.started
    rw [starts_append, hnone, List.countP_append, List.count_append]
    have hone : [Event.ended now].countP Event.isEnded = 1 := rfl
    have hother : [Event.ended now].count .begin = 0 := rfl
    rw [hone, hother]
    dsimp only [Option.isSome_some]
    rw [if_pos rfl]
    omega

/-- Every event leaves a log that the events explain. -/
theorem Told.tell (h : Told patience events log) (hlog : after patience events = log) (event : Event) :
    Told patience (events ++ [event]) (log.tell event) := by
  have hcases := take_takes log.supervision event
  have hcrashed := crashed_concat patience events event
  rw [hlog] at hcrashed
  rw [Log.tell]
  cases hresult : log.supervision.take event with
  | mk s effects =>
  rw [hresult] at hcases
  cases hcases with
  | begin =>
    rw [if_neg (fun heffective => Event.noConfusion heffective.1)] at hcrashed
    refine h.unmoved rfl hcrashed rfl rfl rfl ?_ (fun _ hmoment => by cases hmoment) ?_
    · exact fun effect hmem => .inl (List.mem_singleton.mp hmem)
    · exact Nat.le_add_left 1 _
  | quiet hended hbegin hserves heffects =>
    have hineffective : ¬ log.Effective event := fun heffective => heffective.2 (hserves heffective.1)
    rw [if_neg hineffective, hended] at hcrashed
    have hnone : effects.count .start = 0 := by
      rcases heffects with rfl | rfl <;> rfl
    refine h.unmoved hended hcrashed rfl rfl rfl ?_ (fun _ hmoment => ⟨hmoment, hnone⟩) ?_
    · rcases heffects with rfl | rfl
      · exact fun effect hmem => absurd hmem List.not_mem_nil
      · exact fun effect hmem => .inr (List.mem_singleton.mp hmem)
    · rw [hnone, Nat.zero_add]
      exact Nat.le_add_right _ _
  | serves hstanding =>
    rw [if_pos ⟨rfl, hstanding⟩] at hcrashed
    exact h.serves hcrashed
  | ended now =>
    rw [if_neg (fun heffective => Event.noConfusion heffective.1)] at hcrashed
    have hended := h.ended hlog now hcrashed
    rw [Supervision.take] at hresult
    rw [hresult] at hended
    exact hended
  | due hmoment hnow =>
    rw [if_neg (fun heffective => Event.noConfusion heffective.1)] at hcrashed
    refine h.unmoved rfl hcrashed rfl rfl rfl ?_ (fun _ hother => by cases hother) ?_
    · exact fun effect hmem => .inl (List.mem_singleton.mp hmem)
    · rw [hmoment]
      exact Nat.le_add_right _ _

end

/-- The log of any events in any order is the one the events explain. -/
theorem told (patience : UInt32) (events : List Event) : Told patience events (after patience events) := by
  induction events using List.reverseRecOn with
  | nil => exact told_new patience
  | append_singleton events event ih =>
    rw [after_concat]
    exact ih.tell rfl event

/-- The alarm is signalled by the event that puts its mark up. -/
theorem alarm_mem_take (s : Supervision) (event : Event) :
    .alarm ∈ (s.take event).2 ↔ s.alarm = false ∧ (s.take event).1.alarm = true := by
  have hcases := take_takes s event
  cases hresult : s.take event with
  | mk s' effects =>
  rw [hresult] at hcases
  cases hcases with
  | begin => simp
  | quiet hended hbegin hserves heffects => rcases heffects with rfl | rfl <;> simp
  | serves hstanding => cases s.lowered <;> cases s.alarm <;> simp
  | ended now => cases s.lowered <;> cases s.alarm <;> simp
  | due hmoment hnow => simp

/-- The alarm comes on with the event that is the fifth crash in a row. -/
theorem alarm_iff_crashed (patience : UInt32) (events : List Event) (event : Event) :
    .alarm ∈ ((after patience events).supervision.take event).2 ↔
      event.isEnded = true ∧ crashed patience (events ++ [event]) = 5 := by
  have hbefore := (told patience events).alarm
  have hbehind := (told patience (events ++ [event])).alarm
  rw [after_concat] at hbehind
  have hcrashed := crashed_concat patience events event
  rw [alarm_mem_take, ← Bool.not_eq_true, hbefore]
  change _ ∧ ((after patience events).tell event).supervision.alarm = true ↔ _
  rw [hbehind, hcrashed]
  split
  · rename_i heffective
    refine iff_of_false (by omega) fun hfive => ?_
    rw [heffective.1] at hfive
    exact Bool.noConfusion hfive.1
  · split
    · rename_i hended
      rw [and_iff_right hended]
      omega
    · rename_i hended
      refine iff_of_false (by omega) fun hfive => hended hfive.1

/-- A start that is asked for when its moment has come belongs to the last crash, with nothing started
since. -/
theorem waited_of_due {patience : UInt32} {events : List Event} {now : Instant}
    (h : .start ∈ ((after patience events).supervision.take (.due now)).2) :
    ∃ moment ≤ now, Waits patience events (after patience events) moment := by
  have hcases := take_takes (after patience events).supervision (.due now)
  cases hresult : (after patience events).supervision.take (.due now) with
  | mk s effects =>
  rw [hresult] at hcases h
  cases hcases with
  | quiet hended hbegin hserves heffects =>
    rcases heffects with rfl | rfl <;> simp at h
  | due hmoment hnow => exact ⟨_, hnow, (told patience events).waits _ hmoment⟩

/-- Only `begin` and `due` ask for a start. -/
theorem start_mem_take {s : Supervision} {event : Event} (h : .start ∈ (s.take event).2) :
    event = .begin ∨ ∃ now, event = .due now := by
  have hcases := take_takes s event
  cases hresult : s.take event with
  | mk s' effects =>
  rw [hresult] at hcases h
  cases hcases with
  | begin => exact .inl rfl
  | quiet hended hbegin hserves heffects => rcases heffects with rfl | rfl <;> simp at h
  | serves hstanding => cases s.lowered <;> cases s.alarm <;> simp at h
  | ended now => simp at h
  | due hmoment hnow => exact .inr ⟨_, rfl⟩

/-- **What a supervision asks for over any events in any order.** The claim goes down and up in turn and
so does the alarm, which comes on with the fifth crash since a report that counted. There is no more than
one start for every crash and every `begin`. One that `due` asks for belongs to the last crash, with
nothing started since, and its wait is over; one that `begin` asks for does not wait. Waits grow with the
crashes and never exceed the longest. -/
theorem effects_over_time (patience : UInt32) (events : List Event) :
    let log := after patience events
    Latch.Alternates .demote .restore log.claims ∧
      Latch.Alternates .alarm .clear log.alarms ∧
      (∀ event, .alarm ∈ (log.supervision.take event).2 ↔
        event.isEnded = true ∧ crashed patience (events ++ [event]) = 5) ∧
      log.starts ≤ events.countP Event.isEnded + events.count .begin ∧
      (∀ event, .start ∈ (log.supervision.take event).2 → event = .begin ∨
        ∃ now, event = .due now ∧ ∃ moment ≤ now, Waits patience events log moment) ∧
      (∀ fewer more : UInt32, fewer ≤ more → waitAfter fewer ≤ waitAfter more) ∧
      ∀ crashes, waitAfter crashes ≤ longestWait := by
  intro log
  have h := told patience events
  refine ⟨h.claimed.alternates, h.alarmed.alternates, alarm_iff_crashed patience events, ?_, ?_,
    fun _ _ => waitAfter_mono, waitAfter_le_longestWait⟩
  · exact (Nat.le_add_right _ _).trans h.started
  · intro event hstart
    rcases start_mem_take hstart with rfl | ⟨now, rfl⟩
    · exact .inl rfl
    · exact .inr ⟨now, rfl, waited_of_due hstart⟩

/-- A process that has just ended is started at once where the supervision is told to begin. -/
theorem begin_does_not_wait :
    ¬ ∀ (patience : UInt32) (events : List Event) (event : Event) (moment : Instant),
      (after patience events).supervision.startAt = some moment →
      .start ∈ ((after patience events).supervision.take event).2 →
      ∃ now, event = .due now ∧ moment ≤ now := by
  intro h
  obtain ⟨now, hdue, -⟩ := h 3 [.ended 0] .begin (waitAfter 1) rfl (by decide)
  exact Event.noConfusion hdue

end Log

end EkEk.Agent
