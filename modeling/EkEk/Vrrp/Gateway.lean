import EkEk.Lib.Latch
import EkEk.Lib.Overflow
import EkEk.Lib.Runs
import EkEk.Vrrp.State

/-!
# Whether this node can still reach the way out

Reference: `crates/ek-ek-vrrp/src/gateway.rs`.

The watch is told what was answered and what was missed, and says when the claim has to come down
or may go back up. `Watch.missed_cases` and `Watch.answered_health` say what each does to the
health it reports: only a miss that asks for `demote` loses the gateway, and no answer leaves it
lost.

A watch keeps a counter, a latch and whether it was ever answered. `Watched.follows` says that these
three are what the history of its calls comes to, and `Watched.effects_of_history` what it follows
that the watch returns.
-/

namespace EkEk.Vrrp

open Overflow (saturatingAdd toNat_saturatingAdd)

/-- Where the gateway check stands. -/
inductive Health where
  | noGateway
  | unconfirmed
  | reachable
  | lost
deriving DecidableEq, Repr

/-- What the caller has to do about the virtual router. -/
inductive Effect where
  | demote
  | restore
deriving DecidableEq, Repr

/-- The gateway check on one node. -/
structure Watch where
  gateway : Option IpAddr
  interval : Duration
  threshold : UInt32
  answeredOnce : Bool
  missing : UInt32
  lowered : Bool
  dueAt : Option Instant
deriving DecidableEq, Repr

namespace Watch

/-- A check on one gateway, or on nothing when the machine has no default route. -/
def new (gateway : Option IpAddr) (interval : Duration) (threshold : UInt32) : Watch where
  gateway := gateway
  interval := interval
  threshold := threshold
  answeredOnce := false
  missing := 0
  lowered := false
  dueAt := none

/-- Where the check stands. -/
def health (watch : Watch) : Health :=
  if watch.gateway.isNone then .noGateway
  else if !watch.answeredOnce then .unconfirmed
  else if watch.lowered then .lost
  else .reachable

/-- The address to ask, when a question is due. Asking schedules the next question. -/
def due (watch : Watch) (now : Instant) : Watch × Option IpAddr :=
  match watch.gateway with
  | none => (watch, none)
  | some gateway =>
    match watch.dueAt with
    | none => ({ watch with dueAt := some (now + watch.interval) }, some gateway)
    | some moment =>
      if now ≥ moment then ({ watch with dueAt := some (now + watch.interval) }, some gateway)
      else (watch, none)

/-- Take an answer that arrived. -/
def answered (watch : Watch) : Watch × Option Effect :=
  let heard := { watch with answeredOnce := true, missing := 0 }
  if watch.lowered then ({ heard with lowered := false }, some .restore) else (heard, none)

/-- Take a question that went unanswered. Only the one that reaches the threshold has an effect. -/
def missed (watch : Watch) : Watch × Option Effect :=
  if watch.gateway.isNone || !watch.answeredOnce then (watch, none)
  else
    let counted := { watch with missing := saturatingAdd watch.missing 1 }
    if counted.lowered || counted.missing < counted.threshold then (counted, none)
    else ({ counted with lowered := true }, some .demote)

theorem health_eq_lost {watch : Watch} :
    watch.health = .lost ↔
      watch.gateway.isSome ∧ watch.answeredOnce = true ∧ watch.lowered = true := by
  unfold health
  cases watch.gateway <;> cases watch.answeredOnce <;> cases watch.lowered <;> simp

theorem new_health (gateway : Option IpAddr) (interval : Duration) (threshold : UInt32) :
    (new gateway interval threshold).health ≠ .lost := by
  rw [Ne, health_eq_lost]
  exact fun h => Bool.noConfusion h.2.1

/-- Asking does not change where the check stands. -/
theorem due_health (watch : Watch) (now : Instant) : (watch.due now).1.health = watch.health := by
  unfold due
  split
  · rfl
  · split
    · rfl
    · split <;> rfl

/-- An answer leaves no gateway lost. -/
theorem answered_health (watch : Watch) : watch.answered.1.health ≠ .lost := by
  rw [Ne, health_eq_lost]
  unfold answered
  split
  · exact fun h => Bool.noConfusion h.2.2
  · rename_i hlowered
    exact fun h => hlowered h.2.2

/-- An answer asks for the claim back exactly when it was lowered. -/
theorem answered_effect (watch : Watch) :
    watch.answered.2 = if watch.lowered then some .restore else none := by
  unfold answered
  split <;> rfl

/-- A miss either asks for nothing and leaves the health alone, or loses the gateway and asks for
the claim to come down. -/
theorem missed_cases (watch : Watch) :
    (watch.missed.2 = none ∧ watch.missed.1.health = watch.health) ∨
      (watch.missed.2 = some .demote ∧ watch.missed.1.health = .lost) := by
  unfold missed
  by_cases hsilent : (watch.gateway.isNone || !watch.answeredOnce) = true
  · rw [if_pos hsilent]
    exact .inl ⟨rfl, rfl⟩
  rw [if_neg hsilent]
  dsimp only
  split
  · exact .inl ⟨rfl, rfl⟩
  · refine .inr ⟨rfl, health_eq_lost.mpr ?_⟩
    rw [Bool.or_eq_true, not_or, Option.isNone_iff_eq_none, Bool.not_eq_true'] at hsilent
    exact ⟨Option.isSome_iff_ne_none.mpr hsilent.1, Bool.of_not_eq_false hsilent.2, rfl⟩

/-- A claim is only ever lowered for a gateway that is lost. -/
def Consistent (watch : Watch) : Prop := watch.lowered = true → watch.health = .lost

theorem new_consistent (gateway : Option IpAddr) (interval : Duration) (threshold : UInt32) :
    (new gateway interval threshold).Consistent := fun h => Bool.noConfusion h

theorem answered_consistent (watch : Watch) : watch.answered.1.Consistent := by
  unfold answered Consistent
  split
  · exact fun h => Bool.noConfusion h
  · rename_i hlowered
    exact fun h => absurd h hlowered

theorem Consistent.due {watch : Watch} (h : watch.Consistent) (now : Instant) :
    (watch.due now).1.Consistent := by
  intro hlowered
  rw [due_health]
  apply h
  rw [← hlowered]
  unfold Watch.due
  split
  · rfl
  · split
    · rfl
    · split <;> rfl

theorem Consistent.missed {watch : Watch} (h : watch.Consistent) : watch.missed.1.Consistent := by
  intro hlowered
  rcases watch.missed_cases with ⟨hnone, hsame⟩ | ⟨_, hlost⟩
  · rw [hsame]
    apply h
    rw [← hlowered]
    -- Only the miss that has an effect sets the mark.
    revert hnone
    unfold Watch.missed
    split
    · exact fun _ => rfl
    · dsimp only
      split
      · exact fun _ => rfl
      · rintro ⟨⟩
  · exact hlost

end Watch

/-! ## What a history of calls comes to -/

/-- The calls that say what became of a question. -/
inductive Call where
  | answered
  | missed
deriving DecidableEq, Repr

/-- One call on a watch. -/
def Watch.call (watch : Watch) : Call → Watch × Option Effect
  | .answered => watch.answered
  | .missed => watch.missed

/-- A watch and the effects it has returned, oldest first. -/
structure Watched where
  watch : Watch
  effects : List Effect
deriving DecidableEq, Repr

/-- How many questions were missed since one was answered. -/
def missesSince (calls : List Call) : ℕ := (calls.reverse.takeWhile (· = .missed)).length

@[simp] theorem missesSince_answered (calls : List Call) :
    missesSince (calls ++ [.answered]) = 0 := by
  rw [missesSince, List.reverse_concat]
  rfl

@[simp] theorem missesSince_missed (calls : List Call) :
    missesSince (calls ++ [.missed]) = missesSince calls + 1 := by
  rw [missesSince, List.reverse_concat]
  rfl

namespace Watched

/-- A watch nothing was told. -/
def new (gateway : Option IpAddr) (interval : Duration) (threshold : UInt32) : Watched :=
  ⟨.new gateway interval threshold, []⟩

/-- One more call. -/
def tell (watched : Watched) (call : Call) : Watched :=
  ⟨(watched.watch.call call).1, watched.effects ++ (watched.watch.call call).2.toList⟩

/-- The counter, the latch and the first answer of a watch, as the calls on it have left them. -/
structure Follows (gateway : Option IpAddr) (threshold : UInt32) (watched : Watched)
    (calls : List Call) : Prop where
  sameGateway : watched.watch.gateway = gateway
  sameThreshold : watched.watch.threshold = threshold
  answeredOnce : watched.watch.answeredOnce = true ↔ .answered ∈ calls
  missing : gateway.isSome → .answered ∈ calls →
    watched.watch.missing.toNat = min (missesSince calls) 0xFFFFFFFF
  lowered : watched.watch.lowered = true ↔
    gateway.isSome ∧ .answered ∈ calls ∧ max threshold.toNat 1 ≤ missesSince calls
  latched : Latch.Latched .demote .restore watched.watch.lowered watched.effects
  quiet : gateway = none → watched.effects = []

variable {gateway : Option IpAddr} {threshold : UInt32} {watched : Watched} {calls : List Call}

theorem follows_new (gateway : Option IpAddr) (interval : Duration) (threshold : UInt32) :
    (new gateway interval threshold).Follows gateway threshold [] where
  sameGateway := rfl
  sameThreshold := rfl
  answeredOnce := iff_of_false Bool.false_ne_true List.not_mem_nil
  missing _ h := absurd h List.not_mem_nil
  lowered := iff_of_false Bool.false_ne_true fun h => absurd h.2.1 List.not_mem_nil
  latched := .new
  quiet _ := rfl

theorem Follows.answered (h : watched.Follows gateway threshold calls) :
    (watched.tell .answered).Follows gateway threshold (calls ++ [.answered]) := by
  have hmem : Call.answered ∈ calls ++ [.answered] :=
    List.mem_append_right _ (List.mem_singleton_self _)
  have hzero : (0 : UInt32).toNat = min (missesSince (calls ++ [.answered])) 0xFFFFFFFF := by
    rw [missesSince_answered, Nat.zero_min, UInt32.toNat_zero]
  have hfew : ¬ (gateway.isSome ∧ Call.answered ∈ calls ++ [.answered] ∧
      max threshold.toNat 1 ≤ missesSince (calls ++ [.answered])) := by
    rw [missesSince_answered]
    omega
  have hlatched := h.latched
  rw [tell, Watch.call, Watch.answered]
  split
  · rename_i hlowered
    rw [hlowered] at hlatched
    refine ⟨h.sameGateway, h.sameThreshold, iff_of_true rfl hmem, fun _ _ => hzero,
      iff_of_false Bool.false_ne_true hfew, hlatched.cleared, fun hnone => ?_⟩
    exact absurd (h.lowered.mp hlowered).1 (by rw [hnone]; exact Bool.false_ne_true)
  · rename_i hlowered
    rw [Option.toList_none, List.append_nil]
    exact ⟨h.sameGateway, h.sameThreshold, iff_of_true rfl hmem, fun _ _ => hzero,
      iff_of_false hlowered hfew, hlatched, h.quiet⟩

/-- What a miss comes to on a watch whose history is known: it is not counted, or it is counted and
changes nothing else, or it is the one that reaches the threshold. -/
inductive Misses (gateway : Option IpAddr) (threshold : UInt32) (watch : Watch) (calls : List Call) :
    Watch × Option Effect → Prop where
  | uncounted (hsilent : ¬ (gateway.isSome ∧ .answered ∈ calls)) :
      Misses gateway threshold watch calls (watch, none)
  | counted (hgateway : gateway.isSome) (hanswered : .answered ∈ calls)
      (hother : missesSince calls + 1 ≠ max threshold.toNat 1)
      (hlowered : watch.lowered = true ↔ max threshold.toNat 1 ≤ missesSince calls + 1) :
      Misses gateway threshold watch calls
        ({ watch with missing := saturatingAdd watch.missing 1 }, none)
  | reached (hgateway : gateway.isSome) (hanswered : .answered ∈ calls)
      (hreached : missesSince calls + 1 = max threshold.toNat 1) (hlowered : watch.lowered = false) :
      Misses gateway threshold watch calls
        ({ watch with missing := saturatingAdd watch.missing 1, lowered := true }, some .demote)

/-- The counter stands still only when it is far behind the threshold, so it reaches the threshold when
the misses do. -/
theorem Follows.misses (h : watched.Follows gateway threshold calls) :
    Misses gateway threshold watched.watch calls watched.watch.missed := by
  have hsilent : (watched.watch.gateway.isNone || !watched.watch.answeredOnce) = true ↔
      ¬ (gateway.isSome ∧ .answered ∈ calls) := by
    rw [h.sameGateway, ← h.answeredOnce]
    cases gateway <;> cases watched.watch.answeredOnce <;> simp
  unfold Watch.missed
  split
  · rename_i hnot
    exact .uncounted (hsilent.mp hnot)
  rename_i hcounted
  obtain ⟨hgateway, hanswered⟩ := not_not.mp fun hnot => hcounted (hsilent.mpr hnot)
  have hlowered : watched.watch.lowered = true ↔ max threshold.toNat 1 ≤ missesSince calls := by
    rw [h.lowered, and_iff_right hgateway, and_iff_right hanswered]
  have hlt := threshold.toNat_lt
  have hcount : (saturatingAdd watched.watch.missing 1).toNat = min (watched.watch.missing.toNat + 1)
      0xFFFFFFFF :=
    toNat_saturatingAdd watched.watch.missing 1
  have hless : saturatingAdd watched.watch.missing 1 < watched.watch.threshold ↔
      min (missesSince calls + 1) 0xFFFFFFFF < threshold.toNat := by
    rw [UInt32.lt_iff_toNat_lt, hcount, h.missing hgateway hanswered, h.sameThreshold]
    omega
  dsimp only
  split
  · rename_i hquiet
    rw [Bool.or_eq_true, decide_eq_true_eq, hlowered, hless] at hquiet
    refine .counted hgateway hanswered ?_ (hlowered.trans ?_) <;> omega
  · rename_i hloud
    rw [Bool.or_eq_true, decide_eq_true_eq, hlowered, hless] at hloud
    refine .reached hgateway hanswered (by omega) ?_
    rw [← Bool.not_eq_true, hlowered]
    omega

theorem Follows.missed (h : watched.Follows gateway threshold calls) :
    (watched.tell .missed).Follows gateway threshold (calls ++ [.missed]) := by
  have hmem : Call.answered ∈ calls ++ [.missed] ↔ Call.answered ∈ calls := by simp
  have hmissing (hgateway : gateway.isSome) (hanswered : .answered ∈ calls) :
      (saturatingAdd watched.watch.missing 1).toNat
        = min (missesSince (calls ++ [.missed])) 0xFFFFFFFF := by
    have hcount : (saturatingAdd watched.watch.missing 1).toNat =
        min (watched.watch.missing.toNat + 1) 0xFFFFFFFF := toNat_saturatingAdd watched.watch.missing 1
    rw [hcount, h.missing hgateway hanswered, missesSince_missed]
    omega
  have hlatched := h.latched
  have hcases := h.misses
  rw [tell, Watch.call]
  cases hresult : watched.watch.missed with
  | mk watch effect =>
  rw [hresult] at hcases
  cases hcases with
  | uncounted hsilent =>
    rw [Option.toList_none, List.append_nil]
    refine ⟨h.sameGateway, h.sameThreshold, h.answeredOnce.trans hmem.symm,
      fun hgateway hanswered => ?_, ?_, hlatched, h.quiet⟩
    · exact absurd ⟨hgateway, hmem.mp hanswered⟩ hsilent
    · rw [h.lowered, hmem]
      refine iff_of_false ?_ ?_ <;> exact fun hmany => hsilent ⟨hmany.1, hmany.2.1⟩
  | counted hgateway hanswered hother hlowered =>
    rw [Option.toList_none, List.append_nil]
    refine ⟨h.sameGateway, h.sameThreshold, h.answeredOnce.trans hmem.symm,
      fun _ _ => hmissing hgateway hanswered, ?_, hlatched, h.quiet⟩
    rw [hlowered, missesSince_missed, hmem, and_iff_right hgateway, and_iff_right hanswered]
  | reached hgateway hanswered hreached hlowered =>
    rw [hlowered] at hlatched
    refine ⟨h.sameGateway, h.sameThreshold, h.answeredOnce.trans hmem.symm,
      fun _ _ => hmissing hgateway hanswered, ?_, hlatched.raised, fun hnone => ?_⟩
    · rw [missesSince_missed, hmem]
      exact iff_of_true rfl ⟨hgateway, hanswered, hreached.ge⟩
    · rw [hnone] at hgateway
      cases hgateway

/-- What a watch holds after any calls is what their history says. -/
theorem follows (gateway : Option IpAddr) (interval : Duration) (threshold : UInt32)
    (calls : List Call) :
    (Runs.run tell (new gateway interval threshold) calls).Follows gateway threshold calls := by
  induction calls using List.reverseRecOn with
  | nil => exact follows_new gateway interval threshold
  | append_singleton calls call ih =>
    rw [Runs.run_append]
    cases call with
    | answered => exact ih.answered
    | missed => exact ih.missed

/-- A miss asks for the claim to come down exactly when it is the one that reaches the threshold. -/
theorem Follows.missed_effect (h : watched.Follows gateway threshold calls) :
    watched.watch.missed.2 = some .demote ↔ gateway.isSome ∧ .answered ∈ calls ∧
      missesSince (calls ++ [.missed]) = max threshold.toNat 1 := by
  have hcases := h.misses
  rw [missesSince_missed]
  cases hresult : watched.watch.missed with
  | mk watch effect =>
  rw [hresult] at hcases
  cases hcases with
  | uncounted hsilent =>
    exact iff_of_false (Option.some_ne_none _).symm fun hcounted => hsilent ⟨hcounted.1, hcounted.2.1⟩
  | counted hgateway hanswered hother hlowered =>
    exact iff_of_false (Option.some_ne_none _).symm fun hcounted => hother hcounted.2.2
  | reached hgateway hanswered hreached hlowered =>
    exact iff_of_true rfl ⟨hgateway, hanswered, hreached⟩

/-- **What a watch returns is decided by its history.** On a watch with a gateway a miss asks for the
claim to come down exactly when it is the first to reach the threshold since an answer, and an answer
asks for it back exactly when the claim is down. The two alternate, and the gateway is lost from the
one to the other. A watch without a gateway returns nothing. -/
theorem effects_of_history (gateway : Option IpAddr) (interval : Duration) (threshold : UInt32)
    (calls : List Call) :
    let watched := Runs.run tell (new gateway interval threshold) calls
    (watched.watch.missed.2 = some .demote ↔ gateway.isSome ∧ .answered ∈ calls ∧
        missesSince (calls ++ [.missed]) = max threshold.toNat 1) ∧
      (watched.watch.answered.2 = some .restore ↔ Latch.Stands .demote .restore watched.effects) ∧
      Latch.Alternates .demote .restore watched.effects ∧
      (watched.watch.health = .lost ↔ Latch.Stands .demote .restore watched.effects) ∧
      (gateway = none → watched.effects = []) := by
  intro watched
  have h := follows gateway interval threshold calls
  have hstands := h.latched.stands_iff Effect.noConfusion
  refine ⟨h.missed_effect, ?_, h.latched.alternates, ?_, h.quiet⟩
  · rw [hstands, Watch.answered_effect]
    cases watched.watch.lowered <;> simp
  · rw [hstands, Watch.health_eq_lost]
    refine ⟨fun hlost => hlost.2.2, fun hlowered => ?_⟩
    obtain ⟨hgateway, hanswered, -⟩ := h.lowered.mp hlowered
    exact ⟨h.sameGateway ▸ hgateway, h.answeredOnce.mpr hanswered, hlowered⟩

/-- A watch without a gateway that was answered and then reaches its threshold asks for nothing. -/
theorem no_gateway_no_demote :
    ¬ ∀ (gateway : Option IpAddr) (interval : Duration) (threshold : UInt32) (calls : List Call),
      (Runs.run tell (new gateway interval threshold) calls).watch.missed.2 = some .demote ↔
        .answered ∈ calls ∧ missesSince (calls ++ [.missed]) = max threshold.toNat 1 := by
  intro h
  have hdemote := (h none 0 1 [.answered]).mpr ⟨by decide, by decide⟩
  exact absurd hdemote (by decide)

end Watched

end EkEk.Vrrp
