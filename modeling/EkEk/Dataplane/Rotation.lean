import EkEk.Dataplane.Health
import EkEk.Lib.Latch
import EkEk.Lib.Runs
import EkEk.Lib.Streaks

/-!
# In and out of rotation

Reference: `crates/ek-ek-dataplane/src/health.rs`.

A member's two counters start anew at every answer of the other kind, so they are the streaks its history
ends with, as far as they count. `Follows` holds a state against the history of its answers: a member is
out of rotation where enough bad answers in a row threw it out and no run of good ones brought it back
since.
-/

namespace EkEk.Dataplane

open Streaks Latch
open Overflow (saturatingAdd toNat_saturatingAdd)

/-- How many good answers in a row bring a member back. -/
def healthyRun (check : HealthCheck) : ℕ := (max check.healthyThreshold 1).toNat

/-- How many bad answers in a row throw a member out. -/
def unhealthyRun (check : HealthCheck) : ℕ := (max check.unhealthyThreshold 1).toNat

/-- The history of a member that is out of rotation. -/
def Out (check : HealthCheck) (history : List Bool) : Prop :=
  Thrown false true (unhealthyRun check) (healthyRun check) history

/-- What an answer adds to the changes that are reported. -/
def Change.reported : Change → List Change
  | .none => []
  | .wentUnhealthy => [.wentUnhealthy]
  | .wentHealthy => [.wentHealthy]

namespace HealthState

variable {state : HealthState} {check : HealthCheck} {history : List Bool} {changes : List Change}

/-- A state that has taken in a history and reported some changes on the way. -/
structure Follows (check : HealthCheck) (history : List Bool) (changes : List Change)
    (state : HealthState) : Prop where
  failures : state.failures.toNat = min (streak false history) (2 ^ 32 - 1)
  successes : state.successes.toNat = min (streak true history) (2 ^ 32 - 1)
  healthy : state.healthy = false ↔ Out check history
  latched : Latched .wentUnhealthy .wentHealthy (!state.healthy) changes
  transitions : state.transitions.toNat = min changes.length (2 ^ 64 - 1)

theorem toNat_max_one (n : UInt8) : 0 < (max n 1).toNat ∧ (max n 1).toNat < 2 ^ 8 := by
  refine ⟨?_, (max n 1).toNat_lt⟩
  rw [UInt8.toNat_max]
  exact lt_max_of_lt_right Nat.zero_lt_one

theorem healthyRun_pos (check : HealthCheck) : 0 < healthyRun check := (toNat_max_one _).1

theorem unhealthyRun_pos (check : HealthCheck) : 0 < unhealthyRun check := (toNat_max_one _).1

/-- A counter reaches a threshold of one byte where the streak it counts does. -/
theorem threshold_le_iff (threshold : UInt8) {counter : UInt32} {n : ℕ}
    (h : counter.toNat = min n (2 ^ 32 - 1)) :
    (max threshold 1).toUInt32 ≤ counter ↔ (max threshold 1).toNat ≤ n := by
  have hlt := (toNat_max_one threshold).2
  rw [UInt32.le_iff_toNat_le, UInt8.toNat_toUInt32, h]
  omega

theorem follows_initial (check : HealthCheck) : Follows check [] [] .initial where
  failures := rfl
  successes := rfl
  healthy := iff_of_false Bool.false_ne_true.symm (not_thrown_nil (unhealthyRun_pos check))
  latched := .new
  transitions := rfl

/-- What a counter says is what the streak it counts was, with one answer more. -/
theorem min_streak_concat {counter : UInt32} {good : Bool}
    (h : counter.toNat = min (streak good history) (2 ^ 32 - 1)) :
    (saturatingAdd counter 1).toNat = min (streak good (history ++ [good])) (2 ^ 32 - 1) := by
  have hcount : (saturatingAdd counter 1).toNat = min (counter.toNat + 1) (2 ^ 32 - 1) :=
      toNat_saturatingAdd counter 1
  rw [hcount, h, streak_concat_self]
  omega

/-- An answer that changes nothing but the counters. -/
theorem Follows.stays (h : Follows check history changes state) {later : List Bool}
    {next : HealthState} (hfailures : next.failures.toNat = min (streak false later) (2 ^ 32 - 1))
    (hsuccesses : next.successes.toNat = min (streak true later) (2 ^ 32 - 1))
    (hhealthy : next.healthy = state.healthy) (htransitions : next.transitions = state.transitions)
    (hout : Out check later ↔ Out check history) :
    Follows check later (changes ++ Change.none.reported) next := by
  have hchanges : changes ++ Change.none.reported = changes := List.append_nil changes
  rw [hchanges]
  refine ⟨hfailures, hsuccesses, ?_, ?_, ?_⟩
  · rw [hhealthy, hout, h.healthy]
  · rw [hhealthy]
    exact h.latched
  · rw [htransitions]
    exact h.transitions

/-- An answer that is reported is counted. -/
theorem Follows.counted (h : Follows check history changes state) {change : Change}
    (hreported : change.reported = [change]) : (saturatingAdd state.transitions 1).toNat =
      min (changes ++ change.reported).length (2 ^ 64 - 1) := by
  have hcount : (saturatingAdd state.transitions 1).toNat = min (state.transitions.toNat + 1) (2 ^ 64 - 1) :=
    toNat_saturatingAdd state.transitions 1
  rw [hcount, h.transitions, hreported, List.length_append, List.length_singleton]
  omega

/-- A good answer. -/
theorem Follows.good (h : Follows check history changes state) :
    Follows check (history ++ [true]) (changes ++ (state.record check true).2.reported)
      (state.record check true).1 := by
  have hsuccesses := min_streak_concat h.successes
  have hfailures : (0 : UInt32).toNat = min (streak false (history ++ [true])) (2 ^ 32 - 1) := by
    rw [streak_concat_of_ne (by decide)]
    rfl
  have hreach := threshold_le_iff check.healthyThreshold hsuccesses
  have hout : Out check (history ++ [true]) ↔
      Out check history ∧ streak true (history ++ [true]) < healthyRun check :=
    thrown_concat_second (by decide) (unhealthyRun_pos check)
  simp only [record, if_true]
  by_cases hback : state.healthy = false ∧
      (max check.healthyThreshold 1).toUInt32 ≤ saturatingAdd state.successes 1
  · have hlatched := h.latched
    rw [hback.1] at hlatched
    rw [if_pos (by simpa using hback)]
    refine ⟨hfailures, hsuccesses, ?_, hlatched.cleared, h.counted rfl⟩
    rw [hout]
    refine iff_of_false (by simp) fun hstill => ?_
    exact absurd (hreach.mp hback.2) (not_le.mpr hstill.2)
  · rw [if_neg (by simpa using hback)]
    refine h.stays hfailures hsuccesses rfl rfl ?_
    rw [hout]
    exact and_iff_left_of_imp fun hthrown =>
      not_le.mp fun hlong => hback ⟨h.healthy.mpr hthrown, hreach.mpr hlong⟩

/-- A bad answer. -/
theorem Follows.bad (h : Follows check history changes state) :
    Follows check (history ++ [false]) (changes ++ (state.record check false).2.reported)
      (state.record check false).1 := by
  have hfailures := min_streak_concat h.failures
  have hsuccesses : (0 : UInt32).toNat = min (streak true (history ++ [false])) (2 ^ 32 - 1) := by
    rw [streak_concat_of_ne (by decide)]
    rfl
  have hreach := threshold_le_iff check.unhealthyThreshold hfailures
  have hout : Out check (history ++ [false]) ↔
      Out check history ∨ unhealthyRun check ≤ streak false (history ++ [false]) :=
    thrown_concat_first (by decide) (healthyRun_pos check)
  simp only [record, Bool.false_eq_true, if_false]
  by_cases hgone : state.healthy = true ∧
      (max check.unhealthyThreshold 1).toUInt32 ≤ saturatingAdd state.failures 1
  · have hlatched := h.latched
    rw [hgone.1] at hlatched
    rw [if_pos (by simpa using hgone)]
    refine ⟨hfailures, hsuccesses, ?_, hlatched.raised, h.counted rfl⟩
    rw [hout]
    exact iff_of_true rfl (.inr (hreach.mp hgone.2))
  · rw [if_neg (by simpa using hgone)]
    refine h.stays hfailures hsuccesses rfl rfl ?_
    rw [hout]
    refine or_iff_left_of_imp fun hlong => h.healthy.mp ?_
    exact Bool.eq_false_iff.mpr fun hhealthy => hgone ⟨hhealthy, hreach.mpr hlong⟩

/-- One answer more. -/
theorem Follows.record (h : Follows check history changes state) (good : Bool) :
    Follows check (history ++ [good]) (changes ++ (state.record check good).2.reported)
      (state.record check good).1 := by
  cases good with
  | true => exact h.good
  | false => exact h.bad

end HealthState

/-- One answer of a probe. -/
structure Answer where
  pool : BackendId
  member : MemberId
  good : Bool
deriving DecidableEq, Repr

/-- Whose answer it is. -/
def Answer.key (answer : Answer) : BackendId × MemberId := (answer.pool, answer.member)

/-- What a member answered, one time after another. -/
def answersOf (key : BackendId × MemberId) (answers : List Answer) : List Bool :=
  (answers.filter fun answer => answer.key = key).map Answer.good

namespace Health

/-- What is known about a member, or taken for granted. -/
def stateOf (health : Health) (key : BackendId × MemberId) : HealthState :=
  (health.states.get key).getD .initial

/-- Record an answer, by the check of its pool. -/
def probe (checks : BackendId × MemberId → HealthCheck) (health : Health) (answer : Answer) :
    Health × Change :=
  health.record answer.pool answer.member (checks answer.key) answer.good

/-- The table after one answer. -/
def take (checks : BackendId × MemberId → HealthCheck) (health : Health) (answer : Answer) : Health :=
  (health.probe checks answer).1

/-- What is reported about a member on the way. -/
def changesOf (checks : BackendId × MemberId → HealthCheck) (key : BackendId × MemberId) :
    Health → List Answer → List Change
  | _, [] => []
  | health, answer :: answers =>
    (if answer.key = key then (health.probe checks answer).2.reported else []) ++
      changesOf checks key (health.take checks answer) answers

variable {checks : BackendId × MemberId → HealthCheck} {key : BackendId × MemberId} {health : Health}
  {answer : Answer}

theorem isHealthy_eq (health : Health) (pool : BackendId) (member : MemberId) :
    health.isHealthy pool member = (health.stateOf (pool, member)).healthy := by
  rw [isHealthy, stateOf]
  cases health.states.get (pool, member) <;> rfl

/-- An answer goes into the state of its own member. -/
theorem stateOf_take_self (health : Health) (answer : Answer) :
    (health.take checks answer).stateOf answer.key =
      ((health.stateOf answer.key).record (checks answer.key) answer.good).1 := by
  have hget : (health.take checks answer).states.get answer.key =
      some ((health.stateOf answer.key).record (checks answer.key) answer.good).1 :=
    Assoc.get_eq_some.mpr (Assoc.mem_insert.mpr (.inl rfl))
  rw [stateOf, hget, Option.getD_some]

/-- It leaves everybody else's alone. -/
theorem stateOf_take_of_ne (h : answer.key ≠ key) :
    (health.take checks answer).stateOf key = health.stateOf key := by
  have hget : (health.take checks answer).states.get key = health.states.get key := by
    refine Option.ext fun state => ?_
    rw [Assoc.get_eq_some, Assoc.get_eq_some]
    refine Assoc.mem_insert.trans ⟨?_, fun hmem => .inr ⟨hmem, h.symm⟩⟩
    rintro (heq | ⟨hmem, -⟩)
    · exact absurd (Prod.mk.inj heq).1.symm h
    · exact hmem
  rw [stateOf, stateOf, hget]

/-- The state of a member follows its answers, whatever is recorded of others in between. -/
theorem follows_run {history : List Bool} {changes : List Change}
    (h : (health.stateOf key).Follows (checks key) history changes) (answers : List Answer) :
    ((Runs.run (take checks) health answers).stateOf key).Follows (checks key)
      (history ++ answersOf key answers) (changes ++ changesOf checks key health answers) := by
  induction answers generalizing health history changes with
  | nil =>
    rw [changesOf, answersOf, List.filter_nil, List.map_nil, List.append_nil, List.append_nil]
    exact h
  | cons answer answers ih =>
    rw [Runs.run_cons]
    by_cases hkey : answer.key = key
    · subst hkey
      have hstate : ((health.take checks answer).stateOf answer.key).Follows (checks answer.key)
          (history ++ [answer.good])
          (changes ++ (health.probe checks answer).2.reported) :=
        (stateOf_take_self health answer).symm ▸ h.record answer.good
      have hnext := ih hstate
      rw [changesOf, if_pos rfl, answersOf, List.filter_cons_of_pos (by simp), List.map_cons]
      rw [List.append_assoc, List.append_assoc] at hnext
      exact hnext
    · rw [changesOf, if_neg hkey, answersOf, List.filter_cons_of_neg (by simpa using hkey)]
      have hstate : ((health.take checks answer).stateOf key).Follows (checks key) history changes :=
        (stateOf_take_of_ne hkey).symm ▸ h
      exact ih hstate

/-- Whatever was recorded, and of whom: a member is out of rotation exactly where its answers say so, it
is reported to leave and to come back in turn, and its count of changes is of those, until it stays at
the largest number. -/
theorem rotation_of_history (checks : BackendId × MemberId → HealthCheck) (answers : List Answer)
    (pool : BackendId) (member : MemberId) :
    ((Runs.run (take checks) .new answers).isHealthy pool member = false ↔
      Out (checks (pool, member)) (answersOf (pool, member) answers)) ∧
    Alternates .wentUnhealthy .wentHealthy (changesOf checks (pool, member) .new answers) ∧
    ((Runs.run (take checks) .new answers).stateOf (pool, member)).transitions.toNat =
      min (changesOf checks (pool, member) .new answers).length (2 ^ 64 - 1) := by
  have hnew : (stateOf .new (pool, member)).Follows (checks (pool, member)) [] [] :=
    HealthState.follows_initial _
  have hfollows := follows_run hnew answers
  rw [List.nil_append, List.nil_append] at hfollows
  rw [isHealthy_eq]
  exact ⟨hfollows.healthy, hfollows.latched.alternates, hfollows.transitions⟩

/-- A check by which every answer decides. -/
def everyAnswer : HealthCheck := ⟨.tcpConnect, 1000, 500, 1, 1⟩

/-- One member. -/
def lone : BackendId × MemberId := (⟨"web"⟩, ⟨"one"⟩)

/-- An answer of it. -/
def answered (good : Bool) : Answer := ⟨lone.1, lone.2, good⟩

/-- So many times a bad answer and then a good one. -/
def flaps : ℕ → List Answer
  | 0 => []
  | n + 1 => answered false :: answered true :: flaps n

/-- Where every answer decides, one that says otherwise is a change. -/
theorem record_everyAnswer (state : HealthState) (good : Bool) (h : state.healthy = !good) :
    ((state.record everyAnswer good).2.reported).length = 1 ∧
      (state.record everyAnswer good).1.healthy = good := by
  have hone : ∀ counter, (max (1 : UInt8) 1).toUInt32 ≤ saturatingAdd counter 1 := fun counter => by
    have hcount : (saturatingAdd counter 1).toNat = min (counter.toNat + 1) (2 ^ 32 - 1) :=
      toNat_saturatingAdd counter 1
    rw [UInt32.le_iff_toNat_le, hcount]
    show 1 ≤ _
    omega
  cases good with
  | true =>
    have hback : (!state.healthy && (max everyAnswer.healthyThreshold 1).toUInt32 ≤
        saturatingAdd state.successes 1) = true := by simp [h, everyAnswer, hone]
    simp only [HealthState.record, if_true]
    rw [if_pos (by simpa using hback)]
    exact ⟨rfl, rfl⟩
  | false =>
    have hgone : (state.healthy && (max everyAnswer.unhealthyThreshold 1).toUInt32 ≤
        saturatingAdd state.failures 1) = true := by simp [h, everyAnswer, hone]
    simp only [HealthState.record, Bool.false_eq_true, if_false]
    rw [if_pos (by simpa using hgone)]
    exact ⟨rfl, rfl⟩

/-- One such answer, taken into the table. -/
theorem take_everyAnswer (good : Bool) (h : (health.stateOf lone).healthy = !good) :
    ((health.probe (fun _ => everyAnswer) (answered good)).2.reported).length = 1 ∧
      ((health.take (fun _ => everyAnswer) (answered good)).stateOf lone).healthy =
        good := by
  obtain ⟨hreported, hhealthy⟩ := record_everyAnswer _ good h
  refine ⟨hreported, ?_⟩
  have hstate := congrArg HealthState.healthy
    (@stateOf_take_self (fun _ => everyAnswer) health (answered good))
  exact hstate.trans hhealthy

theorem length_changesOf_flaps (n : ℕ) (h : (health.stateOf lone).healthy = true) :
    (changesOf (fun _ => everyAnswer) lone health (flaps n)).length = 2 * n := by
  induction n generalizing health with
  | zero => rfl
  | succ n ih =>
    obtain ⟨hdown, hout⟩ := take_everyAnswer false h
    obtain ⟨hup, hin⟩ := take_everyAnswer true hout
    have hkey : ∀ good, (answered good).key = lone := fun _ => rfl
    rw [flaps, changesOf, changesOf, if_pos (hkey false), if_pos (hkey true), List.length_append,
      List.length_append,
      ih hin, hdown, hup]
    omega

theorem transitions_flaps (n : ℕ) :
    ((Runs.run (take fun _ => everyAnswer) .new (flaps n)).stateOf lone).transitions.toNat =
      min (2 * n) (2 ^ 64 - 1) := by
  have hnew : (stateOf .new lone).Follows
      everyAnswer [] [] := HealthState.follows_initial _
  have hcount := (@follows_run (fun _ => everyAnswer) lone .new [] [] hnew (flaps n)).transitions
  rwa [List.nil_append, length_changesOf_flaps n rfl] at hcount

/-- The count does not get past the largest number of 64 bits. -/
theorem transitions_saturate :
    ((Runs.run (take fun _ => everyAnswer) .new (flaps (2 ^ 63))).stateOf
        lone).transitions.toNat ≠
      (changesOf (fun _ => everyAnswer) lone .new (flaps (2 ^ 63))).length := by
  rw [transitions_flaps, length_changesOf_flaps _ rfl]
  omega

end Health

end EkEk.Dataplane
