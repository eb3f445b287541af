import EkEk.Lib.Pacing
import EkEk.Lib.Runs
import EkEk.Store.Database
import EkEk.Tls.Failure
import EkEk.Tls.Record
import EkEk.Tls.Renewal

/-!
# Sweep after sweep

Reference: `sweep`, `renew_due`, `obtained_so_far`, `read_state` and `write_state` of
`crates/ek-ek/src/renew.rs`, and `sweep_once` of `crates/ek-ek/src/cluster.rs`.

A sweep reads the file of attempts, orders the certificates that are due and are not waiting, and writes the
file back whole. There are two kinds of sweep, the command and the cluster's own, one file, and no lock: other
sweeps may read and write between the read and the write of one. The orders of a history are kept with the
latest first. Beside the file, `behind` keeps the orders that what it holds was made from, and `filed` those
of every sweep that wrote it.

`lookup_eq_known` is the invariant: the file knows, of every certificate, the failures in a row that the
orders behind it ended with, and these are all that were filed exactly as long as no sweep writes over orders
it has not read. From it, no order behind the file is made before the wait behind the failures is over
(`orders_wait`), and a certificate that is due is ordered again and again however it fails and whatever
overlaps (`orders_while_due`).
-/

namespace EkEk.Program

open Store Tls Tls.Renewal Pacing
open Overflow (saturated saturated_le min_le_saturated)

/-- An order, and why it failed if it did. -/
structure Ordered where
  id : CertificateId
  time : ℤ
  failure : Option Failure
deriving DecidableEq, Repr

/-- The orders of a sweep so far, the latest first, and what is known of the failures. -/
structure Sweeping where
  made : List Ordered
  attempts : Finmap fun _ : CertificateId => Attempts

/-- What is known of one certificate. -/
def attemptsOf (attempts : Finmap fun _ : CertificateId => Attempts) (id : CertificateId) : Attempts :=
  (attempts.lookup id).getD .none

/-- One certificate of a sweep. An order is answered in a way that may depend on the orders before it. -/
def order (obtain : List Ordered → CertificateId → Option Failure) (now : ℤ) (sweeping : Sweeping)
    (id : CertificateId) : Sweeping :=
  let held := attemptsOf sweeping.attempts id
  if held.ready now then
    match obtain sweeping.made id with
    | none => ⟨⟨id, now, none⟩ :: sweeping.made, sweeping.attempts.erase id⟩
    | some failure =>
      ⟨⟨id, now, some failure⟩ :: sweeping.made, sweeping.attempts.insert id
        (held.failed failure.reason.key now)⟩
  else sweeping

/-- A document with what the store has already obtained carried into it. -/
def obtainedSoFar (document : Config) : Option Snapshot → Config
  | some held => carryObtained document held.config
  | none => document

/-- The file of attempts. -/
inductive AttemptFile where
  | absent
  | holds (attempts : Finmap fun _ : CertificateId => Attempts)
  | unreadable

/-- What a sweep reads. A file that cannot be parsed is not an empty one. -/
def readState : AttemptFile → Option (Finmap fun _ : CertificateId => Attempts)
  | .absent => some ∅
  | .holds attempts => some attempts
  | .unreadable => none

/-- The certificates that are due, by name. -/
def dueIds (certificates : List Certificate) (now : ℤ) : List CertificateId :=
  (due certificates now).map fun certificate => certificate.1.id

/-- Order every certificate that is due and not waiting. -/
def renewDue (config : Config) (obtain : List Ordered → CertificateId → Option Failure) (now : ℤ)
    (attempts : Finmap fun _ : CertificateId => Attempts) : Sweeping :=
  (dueIds config.certificates now).foldl (order obtain now) ⟨[], attempts⟩

/-- A sweep of the command, up to the writing of the file. -/
def sweep (document : Config) (held : Option Snapshot)
    (obtain : List Ordered → CertificateId → Option Failure) (now : ℤ) (file : AttemptFile) :
    Option Sweeping :=
  (readState file).map (renewDue (obtainedSoFar document held) obtain now)

/-- What the cluster orders: what was left behind first, and then what is due, with no certificate twice. -/
def takenOver (held : Snapshot) (now : ℤ) : List CertificateId :=
  (dueIds held.config.certificates now).foldl
    (fun wanted id => if id ∈ wanted then wanted else wanted ++ [id])
    ((Keyed.keys CertificateId.key held.orders).map CertificateId.key.symm)

/-- A sweep of the cluster, up to the writing of the file. Where nothing is held or nothing is wanted, it does
not get as far as reading it. -/
def sweepOnce (held : Option Snapshot) (obtain : List Ordered → CertificateId → Option Failure) (now : ℤ)
    (file : AttemptFile) : Option Sweeping :=
  held.bind fun held =>
    if takenOver held now = [] then none
    else (readState file).map fun attempts => (takenOver held now).foldl (order obtain now) ⟨[], attempts⟩

/-- Whose sweep it is, and what it reads. -/
inductive Sweeper where
  | command (document : Config) (held : Option Snapshot)
  | cluster (held : Option Snapshot)

/-- The certificates a sweep looks at. -/
def Sweeper.certificates : Sweeper → List Certificate
  | .command document held => (obtainedSoFar document held).certificates
  | .cluster held => held.elim [] fun held => held.config.certificates

/-- The certificates a sweep orders if they do not wait. -/
def Sweeper.wanted (now : ℤ) : Sweeper → List CertificateId
  | .command document held => dueIds (obtainedSoFar document held).certificates now
  | .cluster held => held.elim [] fun held => takenOver held now

/-- A sweep. -/
structure Sweep where
  sweeper : Sweeper
  now : ℤ
  obtain : List Ordered → CertificateId → Option Failure

/-- What a sweep makes of the file it reads. -/
def Sweep.over (s : Sweep) (file : AttemptFile) : Option Sweeping :=
  match s.sweeper with
  | .command document held => sweep document held s.obtain s.now file
  | .cluster held => sweepOnce held s.obtain s.now file

/-- How writing the file ends: the new text, the old one, or half of one. -/
inductive Writing where
  | done
  | kept
  | torn
deriving DecidableEq, Repr

/-- A sweep that has read the file and not written it: what it makes of it, the orders behind what it read,
and those that were filed by then. -/
structure Underway where
  swept : Sweeping
  behind : List Ordered
  seen : List Ordered

/-- The file and the sweeps under way, with every order that was made, the orders behind what the file holds,
and those of the sweeps that wrote it. -/
structure Renewing where
  file : AttemptFile
  underway : List Underway
  made : List Ordered
  behind : List Ordered
  filed : List Ordered

/-- Before the first sweep. -/
def Renewing.start (file : AttemptFile) : Renewing := ⟨file, [], [], [], []⟩

/-- What happens to the file. What a sweep orders is answered as it may be, and noted under the time the sweep
began, so it makes no difference what happens between its orders. -/
inductive Happening where
  | reads (s : Sweep)
  | writes (place : ℕ) (writing : Writing)

/-- A sweep reads the file, or the one at a place among those under way writes it. -/
def Renewing.step (renewing : Renewing) : Happening → Renewing
  | .reads s =>
    match s.over renewing.file with
    | none => renewing
    | some swept =>
      { renewing with
        underway := renewing.underway ++ [⟨swept, renewing.behind, renewing.filed⟩]
        made := swept.made ++ renewing.made }
  | .writes place writing =>
    match renewing.underway[place]? with
    | none => renewing
    | some u =>
      let renewing := { renewing with underway := renewing.underway.eraseIdx place }
      match writing with
      | .done =>
        { renewing with
          file := .holds u.swept.attempts
          behind := u.swept.made ++ u.behind
          filed := u.swept.made ++ renewing.filed }
      | .kept => renewing
      | .torn => { renewing with file := .unreadable }

/-- The orders of a certificate that failed since the last one that did not. -/
def failing (id : CertificateId) (orders : List Ordered) : List Ordered :=
  (orders.filter fun ordered => ordered.id = id).takeWhile fun ordered => ordered.failure.isSome

/-- What there is to know of failures in a row. -/
def known : List Ordered → Option Attempts
  | [] => none
  | latest :: before => some
      { failures := min (before.length + 1) (2 ^ 32 - 1)
        firstFailedUnix := ((latest :: before).getLast (List.cons_ne_nil latest before)).time
        lastReason := (latest.failure.map fun failure => failure.reason.key).getD ""
        nextAttemptUnix := saturated 63 (latest.time + backoff (before.length + 1)) }

section

variable {id other : CertificateId} {ordered latest : Ordered} {orders before : List Ordered}
  {obtain : List Ordered → CertificateId → Option Failure} {now bound : ℤ} {sweeping : Sweeping}
  {wanted : List CertificateId} {failure : Failure}

/-! ## Failures in a row -/

theorem failing_cons_of_ne (h : ordered.id ≠ id) : failing id (ordered :: orders) = failing id orders := by
  rw [failing, List.filter_cons_of_neg (by simpa using h), failing]

theorem failing_cons_failed (time : ℤ) :
    failing id (⟨id, time, some failure⟩ :: orders) = ⟨id, time, some failure⟩ :: failing id orders := by
  rw [failing, List.filter_cons_of_pos (by simp), List.takeWhile_cons_of_pos rfl, failing]

theorem failing_cons_obtained (time : ℤ) : failing id (⟨id, time, none⟩ :: orders) = [] := by
  rw [failing, List.filter_cons_of_pos (by simp), List.takeWhile_cons_of_neg Bool.false_ne_true]

/-- The record of one more failure is made of the record of the failures before it. -/
theorem known_cons (time : ℤ) (streak : List Ordered) : known (⟨id, time, some failure⟩ :: streak) =
    some (((known streak).getD .none).failed failure.reason.key time) := by
  cases streak with
  | nil => rfl
  | cons latest before =>
    have hcount : min (min (before.length + 1) (2 ^ 32 - 1) + 1) (2 ^ 32 - 1) =
        min (before.length + 1 + 1) (2 ^ 32 - 1) := by omega
    have hsome : min (before.length + 1) (2 ^ 32 - 1) ≠ 0 := by omega
    rw [show (known (latest :: before)).getD .none = _ from Option.getD_some,
      Attempts.failed_of_ne hsome, hcount, backoff_min]
    rfl

theorem alarming_known {attempts : Attempts} {streak : List Ordered} (h : known streak = some attempts) :
    attempts.alarming ↔ alarmAfter ≤ streak.length := by
  cases streak with
  | nil => cases h
  | cons latest before =>
    obtain rfl := Option.some.inj h
    have hfew : alarmAfter ≤ 2 ^ 32 - 1 := by decide
    rw [Attempts.alarming, decide_eq_true_iff, List.length_cons, Nat.le_min, and_iff_left hfew]

/-! ## One sweep -/

/-- The attempts are what there is to know of the orders so far, which go on from earlier ones. -/
def Tracks (earlier : List Ordered) (sweeping : Sweeping) : Prop :=
  ∀ id, sweeping.attempts.lookup id = known (failing id (sweeping.made ++ earlier))

/-- An order waited for as long as the failures before it ask for. -/
def Waited (later : Ordered) (before : List Ordered) : Prop :=
  ∀ earlier streak, failing later.id before = earlier :: streak →
    min (earlier.time + backoff (streak.length + 1)) (2 ^ 63 - 1) ≤ later.time

/-- Each order of a history waited. -/
def AllWaited : List Ordered → Prop
  | [] => True
  | later :: before => Waited later before ∧ AllWaited before

theorem waited_of_ready {earlier : List Ordered} (htracks : Tracks earlier sweeping)
    (hready : (attemptsOf sweeping.attempts id).ready now) (result : Option Failure) :
    Waited ⟨id, now, result⟩ (sweeping.made ++ earlier) := by
  intro latest streak hstreak
  rw [attemptsOf, htracks id, show failing id _ = _ from hstreak] at hready
  exact Int.le_trans (min_le_saturated _) (of_decide_eq_true hready)

theorem order_keeps {earlier : List Ordered} (htracks : Tracks earlier sweeping)
    (hwaited : AllWaited (sweeping.made ++ earlier)) :
    Tracks earlier (order obtain now sweeping id) ∧
      AllWaited ((order obtain now sweeping id).made ++ earlier) := by
  rw [order]
  split
  · rename_i hready
    split
    · refine ⟨fun other => ?_, waited_of_ready htracks hready none, hwaited⟩
      rw [List.cons_append]
      by_cases hother : id = other
      · subst hother
        rw [failing_cons_obtained]
        exact Finmap.lookup_erase id _
      · rw [failing_cons_of_ne hother, ← htracks other]
        exact Finmap.lookup_erase_ne (Ne.symm hother)
    · rename_i failure hfailed
      refine ⟨fun other => ?_, waited_of_ready htracks hready (some failure), hwaited⟩
      rw [List.cons_append]
      by_cases hother : id = other
      · subst hother
        rw [failing_cons_failed, known_cons, ← htracks id]
        exact Finmap.lookup_insert _
      · rw [failing_cons_of_ne hother, ← htracks other]
        exact Finmap.lookup_insert_of_ne _ (Ne.symm hother)
  · exact ⟨htracks, hwaited⟩

theorem fold_keeps (obtain : List Ordered → CertificateId → Option Failure) (now : ℤ) (sweeping : Sweeping)
    {earlier : List Ordered} (wanted : List CertificateId) (htracks : Tracks earlier sweeping)
    (hwaited : AllWaited (sweeping.made ++ earlier)) :
    Tracks earlier (wanted.foldl (order obtain now) sweeping) ∧
      AllWaited ((wanted.foldl (order obtain now) sweeping).made ++ earlier) := by
  induction wanted generalizing sweeping with
  | nil => exact ⟨htracks, hwaited⟩
  | cons id wanted ih =>
    have hkept : Tracks earlier (order obtain now sweeping id) ∧
        AllWaited ((order obtain now sweeping id).made ++ earlier) := order_keeps htracks hwaited
    exact ih _ hkept.1 hkept.2

/-! ## The orders of one certificate -/

/-- How many orders of a certificate there were. -/
def countOf (id : CertificateId) (orders : List Ordered) : ℕ := orders.countP fun ordered => ordered.id = id

theorem countOf_append : countOf id (before ++ orders) = countOf id before + countOf id orders :=
  List.countP_append

theorem countOf_cons_self (time : ℤ) (result : Option Failure) :
    countOf id (⟨id, time, result⟩ :: orders) = countOf id orders + 1 := by
  rw [countOf, List.countP_cons_of_pos (by simp), countOf]

theorem countOf_cons_of_ne (h : ordered.id ≠ id) : countOf id (ordered :: orders) = countOf id orders := by
  rw [countOf, List.countP_cons_of_neg (by simpa using h), countOf]

/-- The order of another certificate changes nothing. -/
theorem order_of_ne (obtain : List Ordered → CertificateId → Option Failure) (now : ℤ) (sweeping : Sweeping)
    (h : other ≠ id) :
    (order obtain now sweeping other).attempts.lookup id = sweeping.attempts.lookup id ∧
      countOf id (order obtain now sweeping other).made = countOf id sweeping.made := by
  rw [order]
  split
  · split
    · exact ⟨Finmap.lookup_erase_ne h.symm, countOf_cons_of_ne h⟩
    · exact ⟨Finmap.lookup_insert_of_ne _ h.symm, countOf_cons_of_ne h⟩
  · exact ⟨rfl, rfl⟩

/-- A certificate that waits is passed over. -/
theorem order_of_waiting (h : (attemptsOf sweeping.attempts id).ready now = false) :
    order obtain now sweeping id = sweeping := by
  rw [order, h]
  rfl

theorem count_order_of_ready (h : (attemptsOf sweeping.attempts id).ready now = true) :
    countOf id (order obtain now sweeping id).made = countOf id sweeping.made + 1 := by
  rw [order, h, if_pos rfl]
  split
  · exact countOf_cons_self now none
  · exact countOf_cons_self now (some _)

theorem attemptsOf_congr {attempts attempts' : Finmap fun _ : CertificateId => Attempts}
    (h : attempts.lookup id = attempts'.lookup id) : attemptsOf attempts id = attemptsOf attempts' id := by
  rw [attemptsOf, attemptsOf, h]

theorem fold_of_waiting (obtain : List Ordered → CertificateId → Option Failure) (sweeping : Sweeping)
    (h : (attemptsOf sweeping.attempts id).ready now = false)
    (wanted : List CertificateId) :
    (wanted.foldl (order obtain now) sweeping).attempts.lookup id = sweeping.attempts.lookup id ∧
      countOf id (wanted.foldl (order obtain now) sweeping).made = countOf id sweeping.made := by
  induction wanted generalizing sweeping with
  | nil => exact ⟨rfl, rfl⟩
  | cons next wanted ih =>
    rw [List.foldl_cons]
    by_cases hnext : next = id
    · rw [hnext, order_of_waiting h]
      exact ih _ h
    · obtain ⟨hlookup, hcount⟩ := order_of_ne obtain now sweeping hnext
      obtain ⟨hlookup', hcount'⟩ := ih (order obtain now sweeping next) (by rw [attemptsOf_congr hlookup, h])
      exact ⟨hlookup'.trans hlookup, hcount'.trans hcount⟩

theorem count_le_fold (wanted : List CertificateId) :
    countOf id sweeping.made ≤ countOf id (wanted.foldl (order obtain now) sweeping).made := by
  induction wanted generalizing sweeping with
  | nil => exact Nat.le_refl _
  | cons next wanted ih =>
    refine Nat.le_trans ?_ ih
    by_cases hnext : next = id
    · rw [hnext]
      by_cases hready : (attemptsOf sweeping.attempts id).ready now = true
      · exact (count_order_of_ready hready).symm ▸ Nat.le_succ _
      · rw [order_of_waiting (Bool.not_eq_true _ ▸ hready)]
    · exact (order_of_ne obtain now sweeping hnext).2.ge

/-- A certificate of the sweep that does not wait is ordered. -/
theorem count_lt_fold (obtain : List Ordered → CertificateId → Option Failure) (sweeping : Sweeping)
    (h : (attemptsOf sweeping.attempts id).ready now = true) (hmem : id ∈ wanted) :
    countOf id sweeping.made < countOf id (wanted.foldl (order obtain now) sweeping).made := by
  induction wanted generalizing sweeping with
  | nil => cases hmem
  | cons next wanted ih =>
    rw [List.foldl_cons]
    by_cases hnext : next = id
    · rw [hnext]
      refine Nat.lt_of_lt_of_le ?_ (count_le_fold wanted)
      rw [count_order_of_ready h]
      exact Nat.lt_succ_self _
    · obtain ⟨hlookup, hcount⟩ := order_of_ne obtain now sweeping hnext
      rw [← hcount]
      refine ih _ (by rw [attemptsOf_congr hlookup, h]) ?_
      exact (List.mem_cons.mp hmem).resolve_left (Ne.symm hnext)

/-- No certificate is made to wait beyond a bound. -/
def Until (bound : ℤ) (id : CertificateId) (attempts : Finmap fun _ : CertificateId => Attempts) : Prop :=
  ∀ held, attempts.lookup id = some held → held.nextAttemptUnix ≤ bound

theorem order_until (hnow : -2 ^ 63 ≤ now) (hbound : now + 86400 ≤ bound)
    (h : Until bound id sweeping.attempts) :
    Until bound id (order obtain now sweeping other).attempts := by
  by_cases hother : other = id
  · subst hother
    rw [order]
    split
    · split
      · intro held hheld
        rw [show (Finmap.erase other sweeping.attempts).lookup other = _ from Finmap.lookup_erase other _]
          at hheld
        cases hheld
      · rename_i failure _
        intro held hheld
        obtain rfl := Option.some.inj ((Finmap.lookup_insert _).symm.trans hheld)
        have hwait := backoff_le (min ((attemptsOf sweeping.attempts other).failures + 1) (2 ^ 32 - 1))
        refine Int.le_trans (saturated_le ?_) ?_
        · omega
        · omega
    · exact h
  · intro held hheld
    rw [(order_of_ne _ _ _ hother).1] at hheld
    exact h held hheld

theorem fold_until (hnow : -2 ^ 63 ≤ now) (hbound : now + 86400 ≤ bound)
    (h : Until bound id sweeping.attempts)
    (wanted : List CertificateId) : Until bound id (wanted.foldl (order obtain now) sweeping).attempts := by
  induction wanted generalizing sweeping with
  | nil => exact h
  | cons next wanted ih => exact ih (order_until hnow hbound h)

end

/-! ## A sweep -/

theorem Sweep.over_eq_some {s : Sweep} {file : AttemptFile} {swept : Sweeping}
    (h : s.over file = some swept) :
    ∃ attempts, readState file = some attempts ∧
      swept = (s.sweeper.wanted s.now).foldl (order s.obtain s.now) ⟨[], attempts⟩ := by
  obtain ⟨sweeper, now, obtain'⟩ := s
  cases sweeper with
  | command document held =>
    obtain ⟨attempts, hread, rfl⟩ := Option.map_eq_some_iff.mp h
    exact ⟨attempts, hread, rfl⟩
  | cluster held =>
    obtain ⟨held, rfl, hswept⟩ := Option.bind_eq_some_iff.mp h
    obtain ⟨-, hmapped⟩ := Option.ite_none_left_eq_some.mp hswept
    obtain ⟨attempts, hread, rfl⟩ := Option.map_eq_some_iff.mp hmapped
    exact ⟨attempts, hread, rfl⟩

/-- A sweep that has a certificate to order gets as far as ordering. -/
theorem Sweep.over_of_wanted {s : Sweep} {file : AttemptFile} {id : CertificateId}
    {attempts : Finmap fun _ : CertificateId => Attempts} (hread : readState file = some attempts)
    (hwanted : id ∈ s.sweeper.wanted s.now) :
    s.over file = some ((s.sweeper.wanted s.now).foldl (order s.obtain s.now) ⟨[], attempts⟩) := by
  obtain ⟨sweeper, now, obtain'⟩ := s
  cases sweeper with
  | command document held =>
    show (readState file).map _ = _
    rw [hread]
    rfl
  | cluster held =>
    cases held with
    | none => cases hwanted
    | some held =>
      have hnonempty : takenOver held now ≠ [] := List.ne_nil_of_mem hwanted
      show (if takenOver held now = [] then none else (readState file).map _) = _
      rw [hread, if_neg hnonempty]
      rfl

/-! ## Whole runs -/

section

variable {id : CertificateId} {renewing : Renewing} {s : Sweep}

/-- A step leaves the file alone or spoils it, or it is a sweep under way that writes it. -/
theorem step_file (renewing : Renewing) (happening : Happening) :
    ((renewing.step happening).behind = renewing.behind ∧ (renewing.step happening).filed = renewing.filed ∧
      ((renewing.step happening).file = renewing.file ∨
        (∃ place, happening = .writes place .torn) ∧ (renewing.step happening).file = .unreadable)) ∨
    ∃ place u, happening = .writes place .done ∧ renewing.underway[place]? = some u ∧
      (renewing.step happening).file = .holds u.swept.attempts ∧
      (renewing.step happening).behind = u.swept.made ++ u.behind ∧
      (renewing.step happening).filed = u.swept.made ++ renewing.filed := by
  cases happening with
  | reads s =>
    rw [Renewing.step]
    split <;> exact .inl ⟨rfl, rfl, .inl rfl⟩
  | writes place writing =>
    rw [Renewing.step]
    split
    · exact .inl ⟨rfl, rfl, .inl rfl⟩
    · rename_i u hu
      cases writing with
      | done => exact .inr ⟨place, u, rfl, hu, rfl, rfl, rfl⟩
      | kept => exact .inl ⟨rfl, rfl, .inl rfl⟩
      | torn => exact .inl ⟨rfl, rfl, .inr ⟨⟨place, rfl⟩, rfl⟩⟩

/-- What holds of every sweep under way goes on holding if it holds of a sweep that has just read the file. -/
theorem forall_underway_step {p : Underway → Prop} (h : ∀ u ∈ renewing.underway, p u) {happening : Happening}
    (hnew : ∀ s swept, happening = .reads s → s.over renewing.file = some swept →
      p ⟨swept, renewing.behind, renewing.filed⟩) :
    ∀ u ∈ (renewing.step happening).underway, p u := by
  cases happening with
  | reads s =>
    rw [Renewing.step]
    split
    · exact h
    · rename_i swept hswept
      intro u hu
      rcases List.mem_append.mp hu with hold | hlast
      · exact h u hold
      · obtain rfl := List.mem_singleton.mp hlast
        exact hnew s swept rfl hswept
  | writes place writing =>
    have hrest : ∀ u ∈ renewing.underway.eraseIdx place, p u := fun u hu => h u (List.mem_of_mem_eraseIdx hu)
    rw [Renewing.step]
    split
    · exact h
    · cases writing <;> exact hrest

/-- The attempts are what there is to know of some orders, each of which waited. -/
def Accounts (attempts : Finmap fun _ : CertificateId => Attempts) (orders : List Ordered) : Prop :=
  (∀ id, attempts.lookup id = known (failing id orders)) ∧ AllWaited orders

/-- The file, where it can be read, accounts for the orders behind it, and so does what a sweep under way is
going to write. -/
structure Consistent (renewing : Renewing) : Prop where
  knows : ∀ attempts, readState renewing.file = some attempts → ∀ id,
    attempts.lookup id = known (failing id renewing.behind)
  waited : AllWaited renewing.behind
  underway : ∀ u ∈ renewing.underway, Accounts u.swept.attempts (u.swept.made ++ u.behind)

theorem consistent_start : Consistent (.start .absent) where
  knows := by
    intro attempts hread id
    obtain rfl := Option.some.inj hread
    exact Finmap.lookup_empty id
  waited := trivial
  underway _ hu := absurd hu List.not_mem_nil

theorem Consistent.step (h : Consistent renewing) (happening : Happening) :
    Consistent (renewing.step happening) := by
  have hunderway : ∀ u ∈ (renewing.step happening).underway,
      Accounts u.swept.attempts (u.swept.made ++ u.behind) := by
    refine forall_underway_step h.underway fun s swept _ hswept => ?_
    obtain ⟨attempts, hread, rfl⟩ := Sweep.over_eq_some hswept
    exact fold_keeps s.obtain s.now ⟨[], attempts⟩ (s.sweeper.wanted s.now) (h.knows attempts hread) h.waited
  rcases step_file renewing happening with ⟨hbehind, -, hfile | ⟨-, hfile⟩⟩
    | ⟨place, u, rfl, hu, hfile, hbehind, -⟩
  · exact ⟨by rw [hfile, hbehind]; exact h.knows, by rw [hbehind]; exact h.waited, hunderway⟩
  · refine ⟨fun attempts hread => ?_, by rw [hbehind]; exact h.waited, hunderway⟩
    rw [hfile] at hread
    cases hread
  · obtain ⟨hknows, hwaited⟩ := h.underway u (List.mem_of_getElem? hu)
    refine ⟨fun attempts hread id => ?_, by rw [hbehind]; exact hwaited, hunderway⟩
    rw [hfile] at hread
    obtain rfl := Option.some.inj hread
    rw [hbehind]
    exact hknows id

theorem consistent_run (happenings : List Happening) :
    Consistent (Runs.run Renewing.step (.start .absent) happenings) :=
  Runs.run_inv (fun _ happening h => h.step happening) consistent_start happenings

/-- A sweep that writes the file has read whatever was filed before. -/
def Unmissed (renewing : Renewing) : Happening → Prop
  | .reads _ => True
  | .writes place writing => writing = .done → ∀ u ∈ renewing.underway[place]?, u.seen = renewing.filed

/-- Everything that was filed is behind the file, and was behind it when a sweep under way read it. -/
def Complete (renewing : Renewing) : Prop :=
  renewing.behind = renewing.filed ∧ ∀ u ∈ renewing.underway, u.behind = u.seen

theorem Complete.step (h : Complete renewing) (happening : Happening)
    (hunmissed : Unmissed renewing happening) :
    Complete (renewing.step happening) := by
  refine ⟨?_, forall_underway_step h.2 fun _ _ _ _ => h.1⟩
  rcases step_file renewing happening with ⟨hbehind, hfiled, -⟩ | ⟨place, u, rfl, hu, -, hbehind, hfiled⟩
  · rw [hbehind, hfiled, h.1]
  · rw [hbehind, hfiled, h.2 u (List.mem_of_getElem? hu), hunmissed rfl u hu]

/-- What a sweep writes over and has not read is lost. -/
theorem Complete.breaks (h : Complete renewing) (happening : Happening)
    (hmissed : ¬ Unmissed renewing happening) :
    (renewing.step happening).behind ≠ (renewing.step happening).filed := by
  cases happening with
  | reads s => exact absurd trivial hmissed
  | writes place writing =>
    simp only [Unmissed, not_forall] at hmissed
    obtain ⟨rfl, u, hu, hseen⟩ := hmissed
    have hplace : renewing.underway[place]? = some u := hu
    rw [Renewing.step, hplace]
    intro hsame
    have hbehind := List.append_cancel_left
        (hsame : u.swept.made ++ u.behind = u.swept.made ++ renewing.filed)
    exact hseen ((h.2 u (List.mem_of_getElem? hplace)).symm.trans hbehind)

/-- Everything that was filed is behind the file all along, exactly if no sweep writes over orders that it has
not read. -/
theorem complete_iff (happenings : List Happening) :
    (∀ first, first <+: happenings →
      (Runs.run Renewing.step (.start .absent) first).behind =
        (Runs.run Renewing.step (.start .absent) first).filed) ↔
      Runs.Along Renewing.step Unmissed (.start .absent) happenings :=
  @Runs.along_iff _ _ _ Unmissed Complete (fun renewing => renewing.behind = renewing.filed) (fun _ h => h.1)
    (fun _ happening h => h.step happening) (fun _ happening h => h.breaks happening) _
    ⟨rfl, fun _ hu => absurd hu List.not_mem_nil⟩ happenings

/-- Whatever sweeps there were, whoever made them, whichever overlapped and however they ended, what the file
knows of a certificate is how often the orders behind it failed in a row at last, since when, why, and how
long it waits. The alarm is raised by three of them. The orders behind it are those that were filed as long as
no sweep writes over orders that it has not read, and no longer. -/
theorem lookup_eq_known (happenings : List Happening) :
    (∀ attempts, readState (Runs.run Renewing.step (.start .absent) happenings).file = some attempts → ∀ id,
      attempts.lookup id = known (failing id (Runs.run Renewing.step (.start .absent) happenings).behind) ∧
        ((attemptsOf attempts id).alarming ↔
          alarmAfter ≤ (failing id (Runs.run Renewing.step (.start .absent) happenings).behind).length)) ∧
      ((∀ first, first <+: happenings →
        (Runs.run Renewing.step (.start .absent) first).behind =
          (Runs.run Renewing.step (.start .absent) first).filed) ↔
        Runs.Along Renewing.step Unmissed (.start .absent) happenings) := by
  refine ⟨fun attempts hread id => ?_, complete_iff happenings⟩
  have hlookup := (consistent_run happenings).knows attempts hread id
  refine ⟨hlookup, ?_⟩
  rw [attemptsOf, hlookup]
  cases hstreak : failing id (Runs.run Renewing.step (.start .absent) happenings).behind with
  | nil => exact iff_of_false (by decide) (by decide)
  | cons latest before => exact alarming_known rfl

/-- A certificate that was configured and never obtained. -/
def neverObtained : Certificate := ⟨⟨"web"⟩, ["example.org"], .acmeHttp01, none, none, none⟩

/-- A sweep of the command that finds it and cannot reach the server. -/
def unreached (now : ℤ) : Sweep where
  sweeper := .command { Config.empty with certificates := [neverObtained] } none
  now := now
  obtain := fun _ _ => some ⟨.network, "unreachable"⟩

/-- Two sweeps that overlap order a minute apart, and the failure that is filed first is lost. -/
def overlapping : Renewing :=
  Runs.run Renewing.step (.start .absent)
    [.reads (unreached 0), .reads (unreached 60), .writes 0 .done, .writes 0 .done]

example : overlapping.filed.map Ordered.time = [60, 0] ∧ overlapping.behind.map Ordered.time = [60] ∧
    (readState overlapping.file).bind (fun attempts => attempts.lookup ⟨"web"⟩) =
      some ⟨1, 60, "acme.network", 3660⟩ := by decide

/-! ## No order before its wait is over -/

theorem AllWaited.of_append {before after : List Ordered} (h : AllWaited (after ++ before)) :
    AllWaited before := by
  induction after with
  | nil => exact h
  | cons _ after ih => exact ih h.2

/-- The failures in a row are paced by the waits. -/
theorem paced_failing {orders : List Ordered} (h : AllWaited orders) (id : CertificateId) :
    Paced (fun tries => backoff tries) (2 ^ 63 - 1) ((failing id orders).map Ordered.time) := by
  induction orders with
  | nil => trivial
  | cons later before ih =>
    obtain ⟨hlater, hbefore⟩ := h
    have hrest := ih hbefore
    obtain ⟨other, time, result⟩ := later
    by_cases hother : other = id
    · subst hother
      cases result with
      | none =>
        rw [failing_cons_obtained]
        trivial
      | some failure =>
        rw [failing_cons_failed]
        cases hstreak : failing other before with
        | nil => trivial
        | cons earlier streak =>
          rw [hstreak] at hrest
          rw [List.map_cons, List.map_cons, paced_cons, List.length_map]
          exact ⟨hlater earlier streak hstreak, hrest⟩
    · rw [failing_cons_of_ne hother]
      exact hrest

/-- Of the orders behind the file, whatever overlapped, none was made sooner than the failures before it ask
for, and the failures in a row span at least the waits between them: three of them, which raise the alarm,
take three hours. As long as no sweep writes over orders that it has not read, these are all that were filed.
-/
theorem orders_wait (happenings : List Happening) :
    let s := Runs.run Renewing.step (.start .absent) happenings
    (∀ after later before, s.behind = after ++ later :: before → Waited later before) ∧
      (∀ id latest before, failing id s.behind = latest :: before →
        min (((latest :: before).getLast (List.cons_ne_nil latest before)).time +
          spent (fun tries => backoff tries) before.length) (2 ^ 63 - 1) ≤ latest.time) ∧
      (Runs.Along Renewing.step Unmissed (.start .absent) happenings → s.behind = s.filed) := by
  intro s
  have hwaited : AllWaited s.behind := (consistent_run happenings).waited
  refine ⟨fun after later before happend => ?_, fun id latest before hstreak => ?_, fun hunmissed => ?_⟩
  · rw [happend] at hwaited
    exact hwaited.of_append.1
  · have hpaced := paced_failing hwaited id
    rw [hstreak] at hpaced
    have hspan := hpaced.span fun tries => Int.natCast_nonneg (backoff tries)
    have hfirst : (latest.time :: before.map Ordered.time).getLast (List.cons_ne_nil _ _) =
        ((latest :: before).getLast (List.cons_ne_nil latest before)).time :=
      List.getLast_map (l := latest :: before) (List.cons_ne_nil _ _)
    rwa [List.length_map, hfirst] at hspan
  · exact (complete_iff happenings).mpr hunmissed happenings (List.prefix_refl _)

example : spent (fun tries => backoff tries) 2 = 3 * 3600 := by decide

/-! ## A certificate that is due is ordered again and again -/

theorem mem_takenOver {held : Snapshot} {now : ℤ} (h : id ∈ dueIds held.config.certificates now) :
    id ∈ takenOver held now := by
  suffices hfold : ∀ (ids wanted : List CertificateId), id ∈ wanted ∨ id ∈ ids →
      id ∈ ids.foldl (fun wanted id => if id ∈ wanted then wanted else wanted ++ [id]) wanted from
    hfold _ _ (.inr h)
  intro ids
  induction ids with
  | nil => exact fun wanted hmem => hmem.resolve_right List.not_mem_nil
  | cons next ids ih =>
    intro wanted hmem
    refine ih _ ?_
    show id ∈ (if next ∈ wanted then wanted else wanted ++ [next]) ∨ id ∈ ids
    rcases hmem with hmem | hmem
    · left
      split
      · exact hmem
      · exact List.mem_append_left _ hmem
    · rcases List.mem_cons.mp hmem with rfl | hmem
      · left
        split
        · assumption
        · exact List.mem_append_right _ (List.mem_singleton_self _)
      · exact .inr hmem

/-- What a sweep finds due, it wants. -/
theorem Sweeper.mem_wanted {sweeper : Sweeper} {now : ℤ} {certificate : Certificate}
    (hmem : certificate ∈ sweeper.certificates) (hdue : (why certificate now).isSome) :
    certificate.id ∈ sweeper.wanted now := by
  obtain ⟨because, hbecause⟩ := Option.isSome_iff_exists.mp hdue
  have hids {certificates : List Certificate} (h : certificate ∈ certificates) :
      certificate.id ∈ dueIds certificates now := List.mem_map_of_mem (mem_due.mpr ⟨h, hbecause⟩)
  cases sweeper with
  | command document held => exact hids hmem
  | cluster held =>
    cases held with
    | none => cases hmem
    | some held => exact mem_takenOver (hids hmem)

/-- A certificate was ordered at a time, nothing makes it wait for longer than a day after it, neither the
file nor what a sweep under way is going to write, and it was looked at since as often as it should be. -/
def Retried (gap first : ℤ) (id : CertificateId) (now : ℤ) (renewing : Renewing) : Prop :=
  ∃ last, Polled gap 86400 first now last (countOf id renewing.made) ∧
    (∃ attempts, readState renewing.file = some attempts ∧ Until (last + 86400) id attempts) ∧
      ∀ u ∈ renewing.underway, Until (last + 86400) id u.swept.attempts

/-- The sweeps begin one after the other from a time on with no more than a gap between them, have the
certificate in what they read, and leave the file whole. They may end when they will. -/
def Regular (gap : ℤ) (certificate : Certificate) : ℤ → List Happening → Prop
  | _, [] => True
  | now, .reads s :: rest =>
    now ≤ s.now ∧ s.now ≤ now + gap ∧ certificate ∈ s.sweeper.certificates ∧
      Regular gap certificate s.now rest
  | now, .writes _ writing :: rest => writing ≠ .torn ∧ Regular gap certificate now rest

theorem Until.mono {bound later : ℤ} {attempts : Finmap fun _ : CertificateId => Attempts}
    (h : Until bound id attempts) (hle : bound ≤ later) : Until later id attempts :=
  fun held hheld => Int.le_trans (h held hheld) hle

/-- A sweep that has a certificate to order and finds the file is under way from then on. -/
theorem step_reads {attempts : Finmap fun _ : CertificateId => Attempts}
    (hread : readState renewing.file = some attempts) (hwanted : id ∈ s.sweeper.wanted s.now) :
    renewing.step (.reads s) =
      let swept := (s.sweeper.wanted s.now).foldl (order s.obtain s.now) ⟨[], attempts⟩
      { renewing with
        underway := renewing.underway ++ [⟨swept, renewing.behind, renewing.filed⟩]
        made := swept.made ++ renewing.made } := by
  rw [Renewing.step, Sweep.over_of_wanted hread hwanted]

theorem Retried.reads {gap first now : ℤ} {certificate : Certificate} (hfirst : 0 ≤ first)
    (hdue : (why certificate first).isSome) (h : Retried gap first certificate.id now renewing)
    (hnow : now ≤ s.now) (hgap : s.now ≤ now + gap) (hmem : certificate ∈ s.sweeper.certificates) :
    Retried gap first certificate.id s.now (renewing.step (.reads s)) := by
  obtain ⟨last, hpolled, ⟨attempts, hread, huntil⟩, hunderway⟩ := h
  have hstart : first ≤ s.now := Int.le_trans hpolled.first_le hnow
  have hwanted := Sweeper.mem_wanted hmem (why_mono hdue hstart)
  rw [step_reads hread hwanted]
  by_cases hready : (attemptsOf attempts certificate.id).ready s.now = true
  · -- It is ordered now, and waits a day from now at the longest.
    have hlast : last + 86400 ≤ s.now + 86400 := by
      have := hpolled.last_le
      omega
    have hmore : 0 < countOf certificate.id ((s.sweeper.wanted s.now).foldl (order s.obtain s.now)
        ⟨[], attempts⟩).made := count_lt_fold s.obtain ⟨[], attempts⟩ hready hwanted
    refine ⟨s.now, ?_, ⟨attempts, hread, huntil.mono hlast⟩, fun u hu => ?_⟩
    · rw [countOf_append, Nat.add_comm]
      exact hpolled.done hnow hgap hmore
    · rcases List.mem_append.mp hu with hold | hnew
      · exact (hunderway u hold).mono hlast
      · obtain rfl := List.mem_singleton.mp hnew
        exact @fold_until _ _ _ _ ⟨[], attempts⟩ (by omega) (Int.le_refl _) (huntil.mono hlast) _
  · -- It waits, which it would not if the last order were a day ago.
    have hwaiting := Bool.not_eq_true _ ▸ hready
    obtain ⟨hlookup, hcount⟩ := fold_of_waiting s.obtain ⟨[], attempts⟩ hwaiting (s.sweeper.wanted s.now)
    refine ⟨last, ?_, ⟨attempts, hread, huntil⟩, fun u hu => ?_⟩
    · rw [countOf_append, hcount, show countOf certificate.id ([] : List Ordered) = 0 from rfl, Nat.zero_add]
      refine hpolled.waits hnow (Int.lt_of_not_ge fun hover => hready (decide_eq_true ?_))
      rw [attemptsOf]
      cases hheld : attempts.lookup certificate.id with
      | none => exact Int.le_trans hfirst hstart
      | some held => exact Int.le_trans (huntil held hheld) hover
    · rcases List.mem_append.mp hu with hold | hnew
      · exact hunderway u hold
      · obtain rfl := List.mem_singleton.mp hnew
        exact fun held hheld => huntil held (hlookup ▸ hheld)

/-- What a sweep writes makes nothing wait for longer than the file did, or than it was going to. -/
theorem Retried.writes {gap first now : ℤ} (h : Retried gap first id now renewing) (place : ℕ)
    {writing : Writing} (hwriting : writing ≠ .torn) :
    Retried gap first id now (renewing.step (.writes place writing)) := by
  obtain ⟨last, hpolled, ⟨attempts, hread, huntil⟩, hunderway⟩ := h
  have hmade : (renewing.step (.writes place writing)).made = renewing.made := by
    rw [Renewing.step]
    split
    · rfl
    · cases writing <;> rfl
  refine ⟨last, hmade ▸ hpolled, ?_, forall_underway_step hunderway fun _ _ hreads _ => nomatch hreads⟩
  rcases step_file renewing (.writes place writing) with
    ⟨-, -, hfile | ⟨⟨_, htorn⟩, -⟩⟩ | ⟨_, u, hdone, hu, hfile, -, -⟩
  · exact ⟨attempts, hfile ▸ hread, huntil⟩
  · exact absurd (Happening.writes.inj htorn).2 hwriting
  · exact ⟨u.swept.attempts, hfile ▸ rfl, hunderway u (List.mem_of_getElem? hu)⟩

/-- The first sweep that finds a certificate due and not waiting. -/
theorem retried_first {gap : ℤ} {certificate : Certificate} {file : AttemptFile}
    {attempts : Finmap fun _ : CertificateId => Attempts} (hread : readState file = some attempts)
    (hnow : 0 ≤ s.now) (hready : (attemptsOf attempts certificate.id).ready s.now = true)
    (hdue : (why certificate s.now).isSome) (hmem : certificate ∈ s.sweeper.certificates) :
    Retried gap s.now certificate.id s.now ((Renewing.start file).step (.reads s)) := by
  have hwanted := Sweeper.mem_wanted hmem hdue
  have hstart : readState (Renewing.start file).file = some attempts := hread
  have huntil : Until (s.now + 86400) certificate.id attempts := by
    intro held hheld
    rw [attemptsOf, hheld] at hready
    have : held.nextAttemptUnix ≤ s.now := of_decide_eq_true hready
    omega
  have hmore : 0 < countOf certificate.id ((s.sweeper.wanted s.now).foldl (order s.obtain s.now)
      ⟨[], attempts⟩).made := count_lt_fold s.obtain ⟨[], attempts⟩ hready hwanted
  rw [step_reads hstart hwanted]
  refine ⟨s.now, ?_, ⟨attempts, hread, huntil⟩, fun u hu => ?_⟩
  · rw [countOf_append]
    exact .first (Nat.lt_of_lt_of_le hmore (Nat.le_add_right _ _))
  · obtain rfl := List.mem_singleton.mp hu
    exact @fold_until _ _ _ _ ⟨[], attempts⟩ (by omega) (Int.le_refl _) huntil _

/-- When the last of the sweeps begins. -/
def lastTime (now : ℤ) : List Happening → ℤ
  | [] => now
  | .reads s :: rest => lastTime s.now rest
  | .writes _ _ :: rest => lastTime now rest

theorem Retried.run {gap first now : ℤ} {certificate : Certificate} (hfirst : 0 ≤ first)
    (hdue : (why certificate first).isSome) {happenings : List Happening}
    (hregular : Regular gap certificate now happenings)
    (h : Retried gap first certificate.id now renewing) :
    Retried gap first certificate.id (lastTime now happenings)
      (Runs.run Renewing.step renewing happenings) := by
  induction happenings generalizing now renewing with
  | nil => exact h
  | cons happening rest ih =>
    cases happening with
    | reads s =>
      obtain ⟨hnow, hgap, hmem, hrest⟩ := hregular
      exact ih hrest (h.reads hfirst hdue hnow hgap hmem)
    | writes place writing =>
      obtain ⟨hwriting, hrest⟩ := hregular
      exact ih hrest (h.writes place hwriting)

/-- A certificate that a sweep finds due and not waiting is ordered, from then on, at least once in every
day and gap between sweeps, however its orders end and whichever sweeps overlap: the longest wait is a day. -/
theorem orders_while_due {gap : ℤ} {certificate : Certificate} {file : AttemptFile} {s : Sweep}
    {happenings : List Happening} {attempts : Finmap fun _ : CertificateId => Attempts}
    (hread : readState file = some attempts) (hnow : 0 ≤ s.now)
    (hready : (attemptsOf attempts certificate.id).ready s.now = true)
    (hdue : (why certificate s.now).isSome) (hgap : 0 ≤ gap)
    (hregular : Regular gap certificate s.now (.reads s :: happenings)) :
    lastTime s.now happenings - s.now <
      countOf certificate.id (Runs.run Renewing.step (.start file) (.reads s :: happenings)).made *
        (86400 + gap) := by
  obtain ⟨-, -, hmem, hrest⟩ := hregular
  have hfirst : Retried gap s.now certificate.id s.now ((Renewing.start file).step (.reads s)) :=
    retried_first hread hnow hready hdue hmem
  obtain ⟨last, hpolled, -⟩ := hfirst.run hnow hdue hrest
  exact hpolled.lt hgap (by decide)

/-- Of two sweeps an hour apart, both make an order. -/
theorem orders_while_due_unreached : (3600 : ℤ) <
    countOf ⟨"web"⟩ (Runs.run Renewing.step (.start .absent)
      [.reads (unreached 0), .writes 0 .done, .reads (unreached 3600), .writes 0 .done]).made *
      (86400 + 3600) :=
  @orders_while_due 3600 neverObtained .absent (unreached 0)
    [.writes 0 .done, .reads (unreached 3600), .writes 0 .done] ∅ rfl (by decide) (by decide) (by decide)
    (by decide)
    ⟨by decide, by decide, List.mem_singleton_self _, by decide, by decide, by decide,
      List.mem_singleton_self _, by decide, trivial⟩

end

end EkEk.Program
