import EkEk.Config.Config
import EkEk.Lib.Overflow

/-!
# When a certificate is due

Reference: `crates/ek-ek-tls/src/renewal.rs`.

A certificate is ordered again once a third of its lifetime is left. An order that fails is followed by a
wait, and the waits get longer; what is known of the failures in a row is an `Attempts`. A counter of 32
bits and a clock of 64 stop at their ends.
-/

namespace EkEk.Tls.Renewal

open Overflow (saturated saturated_mono saturated_le min_le_saturated)

/-- The share of a lifetime that is left when a certificate is ordered again. -/
def renewAt : ℤ := 3

/-- How many failed orders in a row raise the alarm. -/
def alarmAfter : ℕ := 3

/-- The wait behind the first failed order, in seconds. -/
def firstBackoff : ℕ := 3600

/-- The longest wait between two orders. -/
def longestBackoff : ℕ := 86400

/-- How many waits double. -/
def growingWaits : ℕ := 4

/-- Why a certificate is ordered again. -/
inductive Because where
  | neverObtained
  | runningOut
deriving DecidableEq, Repr

/-- How long a certificate has left. -/
def remaining (validity : CertificateValidity) (nowUnix : ℤ) : ℤ :=
  saturated 63 (validity.notAfterUnix - nowUnix)

/-- Whether a certificate comes from an ACME server. -/
def renewable (certificate : Certificate) : Bool :=
  match certificate.source with
  | .acmeHttp01 | .acmeDns01 _ => true
  | .manualUpload => false

/-- Why a certificate is due, if it is. -/
def why (certificate : Certificate) (nowUnix : ℤ) : Option Because :=
  if !renewable certificate then none
  else
    match certificate.validity with
    | none => some .neverObtained
    | some validity =>
      let lifetime := saturated 63 (validity.notAfterUnix - validity.notBeforeUnix)
      if lifetime ≤ 0 then some .runningOut
      else if remaining validity nowUnix ≤ lifetime / renewAt then some .runningOut else none

/-- The certificates that are due, in the order of the configuration. -/
def due (certificates : List Certificate) (nowUnix : ℤ) : List (Certificate × Because) :=
  certificates.filterMap fun certificate => (why certificate nowUnix).map fun because =>
    (certificate, because)

/-- How long to wait after so many failures in a row. -/
def backoff (failures : ℕ) : ℕ :=
  if failures = 0 then 0
  else if growingWaits < failures then longestBackoff
  else firstBackoff * 2 ^ (failures - 1)

/-- What is known of the orders of a certificate that failed. -/
structure Attempts where
  failures : ℕ
  firstFailedUnix : ℤ
  lastReason : String
  nextAttemptUnix : ℤ
deriving DecidableEq, Repr

namespace Attempts

/-- Nothing has failed. -/
def none : Attempts := ⟨0, 0, "", 0⟩

/-- One more failed order. -/
def failed (attempts : Attempts) (reason : String) (nowUnix : ℤ) : Attempts :=
  let failures := min (attempts.failures + 1) (2 ^ 32 - 1)
  { failures := failures
    firstFailedUnix := if attempts.failures = 0 then nowUnix else attempts.firstFailedUnix
    lastReason := reason
    nextAttemptUnix := saturated 63 (nowUnix + backoff failures) }

/-- Whether it has failed often enough. -/
def alarming (attempts : Attempts) : Bool := alarmAfter ≤ attempts.failures

/-- Whether another order may be made. -/
def ready (attempts : Attempts) (nowUnix : ℤ) : Bool := attempts.nextAttemptUnix ≤ nowUnix

end Attempts

/-! ## The waits -/

variable {failures : ℕ} {certificate : Certificate} {now later : ℤ}

/-- Four waits double, from one hour to eight. -/
theorem backoff_growing (h : failures < growingWaits) : backoff (failures + 1) = 3600 * 2 ^ failures := by
  unfold growingWaits at h
  rw [backoff, if_neg (Nat.succ_ne_zero failures), if_neg (by unfold growingWaits; omega), firstBackoff,
    Nat.add_sub_cancel]

theorem backoff_longest (h : growingWaits < failures) : backoff failures = 86400 := by
  rw [backoff, if_neg (Nat.ne_of_gt (Nat.zero_lt_of_lt h)), if_pos h, longestBackoff]

theorem backoff_le (failures : ℕ) : backoff failures ≤ 86400 := by
  rcases Nat.lt_or_ge growingWaits failures with hlong | hshort
  · exact (backoff_longest hlong).le
  · cases failures with
    | zero => exact Nat.zero_le _
    | succ failures =>
      rw [backoff_growing hshort]
      calc 3600 * 2 ^ failures ≤ 3600 * 2 ^ 3 :=
            Nat.mul_le_mul_left _ (Nat.pow_le_pow_right Nat.two_pos (Nat.le_of_lt_succ hshort))
        _ ≤ 86400 := by decide

/-- A counter that has stopped asks for the wait it would ask for anyway. -/
theorem backoff_min (failures : ℕ) : backoff (min failures (2 ^ 32 - 1)) = backoff failures := by
  rcases Nat.le_total failures (2 ^ 32 - 1) with hfits | hstopped
  · rw [Nat.min_eq_left hfits]
  · rw [Nat.min_eq_right hstopped, backoff_longest (by decide),
      backoff_longest (Nat.lt_of_lt_of_le (by decide) hstopped)]

theorem Attempts.failed_of_ne {attempts : Attempts} (h : attempts.failures ≠ 0) (reason : String) :
    attempts.failed reason now =
      { failures := min (attempts.failures + 1) (2 ^ 32 - 1)
        firstFailedUnix := attempts.firstFailedUnix
        lastReason := reason
        nextAttemptUnix := saturated 63 (now + backoff (min (attempts.failures + 1) (2 ^ 32 - 1))) } := by
  rw [failed, if_neg h]

/-! ## What is due stays due -/

/-- A certificate that is due does not stop being due by waiting. -/
theorem why_mono (h : (why certificate now).isSome) (hle : now ≤ later) : (why certificate later).isSome := by
  unfold why at h ⊢
  split at h
  · cases h
  · rename_i hrenewable
    rw [if_neg hrenewable]
    cases hvalidity : certificate.validity with
    | none => rfl
    | some validity =>
      simp only [hvalidity] at h ⊢
      split at h
      · rename_i hnone
        rw [if_pos hnone]
        rfl
      · rename_i hsome
        rw [if_neg hsome]
        split at h
        · rename_i hleft
          have hmono : remaining validity later ≤ remaining validity now :=
            saturated_mono (Int.sub_le_sub_left hle validity.notAfterUnix)
          rw [if_pos (Int.le_trans hmono hleft)]
          rfl
        · cases h

theorem mem_due {because : Because} {certificates : List Certificate} :
    (certificate, because) ∈ due certificates now ↔
      certificate ∈ certificates ∧ why certificate now = some because := by
  rw [due, List.mem_filterMap]
  constructor
  · rintro ⟨held, hheld, hwhy⟩
    obtain ⟨found, hfound, heq⟩ := Option.map_eq_some_iff.mp hwhy
    obtain ⟨rfl, rfl⟩ := Prod.mk.injEq .. ▸ heq
    exact ⟨hheld, hfound⟩
  · rintro ⟨hmem, hwhy⟩
    exact ⟨certificate, hmem, by rw [hwhy]; rfl⟩

end EkEk.Tls.Renewal
