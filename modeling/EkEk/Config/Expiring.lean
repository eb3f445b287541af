import EkEk.Config.Removal
import EkEk.Config.Warnings
import EkEk.Lib.Overflow

/-!
# Certificates close to their end

Reference: `crates/ek-ek-config/src/validation.rs`, `check_expiry`.

The end of a certificate is a number of the document, and nothing bounds it. The check subtracts the clock
from it in 64 bits. A program with overflow checks ends there where the difference does not fit; one without
them goes on with a difference that has wrapped around, and a certificate that is long past its end then
counts as one with all the time there is. The checks of a frontend compare the two numbers and are right
about it.
-/

namespace EkEk.Validation

open FieldPath
open Overflow (Fits mul sub wrapped mul_of_fits sub_bind isSome_checked isSome_of_mapM mapM_of_forall
  wrapped_eq_self wrapped_of_lt wrapped_of_le)

/-- Where a certificate stands. -/
def certificatePath (place : ℕ) : FieldPath := (root.field "certificates").index place

/-- How many seconds before its end a certificate is reported. -/
def expiryWindow (config : Config) : ℤ := config.certificateExpiryWarningDays.toNat * 86400

/-- What is said about a certificate that ends soon. -/
def expiringSoon (place : ℕ) (certificate : Certificate) (notAfterUnix remaining : ℤ) : ValidationWarning :=
  (((ValidationWarning.new .certificateExpiringSoon (certificatePath place)).withId "certificate"
    certificate.id.asStr).withNumber "not_after_unix" notAfterUnix).withNumber "remaining_seconds" remaining

/-- What a program without overflow checks says about a certificate. -/
def expiringRound (config : Config) (nowUnix : ℤ) (held : Certificate × ℕ) : Option ValidationWarning :=
  held.1.validity.bind fun validity =>
    let remaining := wrapped 63 (validity.notAfterUnix - nowUnix)
    if expiryWindow config < remaining then none
    else some (expiringSoon held.2 held.1 validity.notAfterUnix remaining)

theorem expiringCertificates_eq (config : Config) (nowUnix : ℤ) : expiringCertificates config nowUnix =
    config.certificates.zipIdx.filterMap (expiringRound config nowUnix) := rfl

/-- `expiringCertificates` in a program with overflow checks. There is no result where an operation
overflows. -/
def expiringChecked (config : Config) (nowUnix : ℤ) : Option (List ValidationWarning) := do
  let window ← mul 63 config.certificateExpiryWarningDays.toNat 86400
  let warnings ← config.certificates.zipIdx.mapM fun (certificate, i) =>
    match certificate.validity with
    | none => some none
    | some validity => do
      let remaining ← sub 63 validity.notAfterUnix nowUnix
      if window < remaining then some none
      else some (some (expiringSoon i certificate validity.notAfterUnix remaining))
  some (warnings.filterMap id)

section

variable {toLowercase : String → String} {config : Config} {nowUnix : ℤ} {warning : ValidationWarning}

theorem expiryWindow_mem (config : Config) : 0 ≤ expiryWindow config ∧ expiryWindow config < 2 ^ 63 := by
  have := config.certificateExpiryWarningDays.toNat_lt
  unfold expiryWindow
  omega

/-- The differences that the check takes fit into a word. -/
def Differences (config : Config) (nowUnix : ℤ) : Prop :=
  ∀ certificate ∈ config.certificates, ∀ validity, certificate.validity = some validity →
    Fits 63 (validity.notAfterUnix - nowUnix)

/-- The product does not overflow: it is one of a number of 32 bits. -/
theorem mul_days : mul 63 config.certificateExpiryWarningDays.toNat 86400 = some (expiryWindow config) := by
  obtain ⟨hlow, hhigh⟩ := expiryWindow_mem config
  unfold expiryWindow at hlow hhigh
  exact mul_of_fits ⟨by omega, hhigh⟩

/-- A program with overflow checks that goes through reports what one without them does. -/
theorem expiringChecked_eq (h : Differences config nowUnix) :
    expiringChecked config nowUnix = some (expiringCertificates config nowUnix) := by
  have hrounds : ∀ x ∈ config.certificates.zipIdx, (match x.1.validity with
      | none => some none
      | some validity => do
        let remaining ← sub 63 validity.notAfterUnix nowUnix
        if expiryWindow config < remaining then some none
        else some (some (expiringSoon x.2 x.1 validity.notAfterUnix remaining))) =
          some (expiringRound config nowUnix x) := by
    rintro ⟨certificate, i⟩ hmem
    have hcertificate := List.mem_of_getElem? (List.mem_zipIdx_iff_getElem?.mp hmem)
    unfold expiringRound
    dsimp only
    cases hvalidity : certificate.validity with
    | none => rfl
    | some validity =>
      have hfits := h certificate hcertificate validity hvalidity
      dsimp only [Option.bind_some]
      rw [sub_bind hfits, wrapped_eq_self.mpr hfits]
      split <;> rfl
  unfold expiringChecked
  rw [mul_days, Option.bind_eq_bind, Option.bind_some]
  dsimp only
  rw [mapM_of_forall hrounds, Option.bind_eq_bind, Option.bind_some, List.filterMap_map,
    expiringCertificates_eq]
  rfl

theorem isSome_expiringChecked : (expiringChecked config nowUnix).isSome ↔ Differences config nowUnix := by
  refine ⟨fun h certificate hmem validity hvalidity => ?_, fun h => by rw [expiringChecked_eq h]; rfl⟩
  unfold expiringChecked at h
  rw [mul_days, Option.bind_eq_bind, Option.bind_some, Option.bind_eq_bind] at h
  obtain ⟨i, hi⟩ := List.mem_iff_getElem?.mp hmem
  have hzip : (certificate, i) ∈ config.certificates.zipIdx := List.mem_zipIdx_iff_getElem?.mpr hi
  have hround := isSome_of_mapM (Option.isSome_of_isSome_bind h) hzip
  dsimp only at hround
  rw [hvalidity] at hround
  exact isSome_checked.mp (Option.isSome_of_isSome_bind hround)

/-- The warnings about certificates that end soon, with the difference that is left of a subtraction. -/
theorem mem_expiringCertificates_iff : warning ∈ expiringCertificates config nowUnix ↔
    ∃ i certificate validity, config.certificates[i]? = some certificate ∧
      certificate.validity = some validity ∧
      wrapped 63 (validity.notAfterUnix - nowUnix) ≤ expiryWindow config ∧
      warning = expiringSoon i certificate validity.notAfterUnix
        (wrapped 63 (validity.notAfterUnix - nowUnix)) := by
  constructor
  · intro h
    obtain ⟨⟨certificate, i⟩, hmem, h⟩ := List.mem_filterMap.mp h
    obtain ⟨validity, hvalidity, h⟩ := Option.bind_eq_some_iff.mp h
    dsimp only at h
    split at h
    · cases h
    · rename_i hwindow
      exact ⟨i, certificate, validity, List.mem_zipIdx_iff_getElem?.mp hmem, hvalidity,
        Int.not_lt.mp hwindow, (Option.some.inj h).symm⟩
  · rintro ⟨i, certificate, validity, hcertificate, hvalidity, hwindow, rfl⟩
    refine List.mem_filterMap.mpr ⟨(certificate, i), List.mem_zipIdx_iff_getElem?.mpr hcertificate, ?_⟩
    refine Option.bind_eq_some_iff.mpr ⟨validity, hvalidity, ?_⟩
    exact if_neg (Int.not_lt.mpr hwindow)

/-- The warnings about certificates past their end that a frontend offers. -/
theorem mem_expiredCertificates {place : ℕ} {frontend : Frontend} {tls : TlsSettings}
    (h : warning ∈ expiredCertificates config nowUnix place frontend tls) :
    ∃ id certificate validity, warning.parameters.lookup "certificate" = some (.identifier id.asStr) ∧
      config.certificates.find? (fun held => held.id = id) = some certificate ∧
      certificate.validity = some validity ∧ validity.notAfterUnix ≤ nowUnix := by
  obtain ⟨⟨id, offered⟩, -, h⟩ := List.mem_filterMap.mp h
  obtain ⟨certificate, hfound, rfl⟩ := Option.map_eq_some_iff.mp h
  obtain ⟨hfound, hpast⟩ := Option.filter_eq_some_iff.mp hfound
  obtain ⟨validity, hvalidity, hpast⟩ := (Option.any_eq_true _ _).mp hpast
  refine ⟨id, certificate, validity, ?_, hfound, hvalidity, of_decide_eq_true hpast⟩
  rw [ValidationWarning.withNumber]
  dsimp only
  rw [Finmap.lookup_insert_of_ne _ (by decide)]
  exact Finmap.lookup_insert _

theorem certificatePath_inj {i j : ℕ} (h : certificatePath i = certificatePath j) : i = j := by
  simpa [certificatePath, root, FieldPath.field, FieldPath.index] using h

end

/-! ## What is reported -/

section

variable (toLowercase : String → String) (config : Config) (nowUnix : ℤ)

/-- A certificate a document is warned about because it ends soon. -/
def ReportsExpiring (i : ℕ) : Prop :=
  ∃ warning ∈ inspect toLowercase config nowUnix,
    warning.code = .certificateExpiringSoon ∧ warning.path = certificatePath i

/-- A certificate ends within the window or has ended. -/
def EndsSoon (i : ℕ) : Prop :=
  ∃ certificate validity, config.certificates[i]? = some certificate ∧ certificate.validity = some validity ∧
    validity.notAfterUnix - nowUnix ≤ expiryWindow config

/-- The certificates that end soon are the ones reported, and among them is each that a frontend is warned
about. -/
structure ReportsExpiry : Prop where
  exactly (i : ℕ) : ReportsExpiring toLowercase config nowUnix i ↔ EndsSoon config nowUnix i
  expired (warning : ValidationWarning) : warning ∈ inspect toLowercase config nowUnix →
    warning.code = .frontendCertificateExpired → ∃ id certificate i,
      warning.parameters.lookup "certificate" = some (.identifier id.asStr) ∧
      config.certificates.find? (fun held => held.id = id) = some certificate ∧
      config.certificates[i]? = some certificate ∧ ReportsExpiring toLowercase config nowUnix i

end

section

variable {toLowercase : String → String} {config : Config} {nowUnix : ℤ}

/-- What is reported is decided by the difference that is left. -/
theorem reportsExpiring_iff {i : ℕ} : ReportsExpiring toLowercase config nowUnix i ↔
    ∃ certificate validity, config.certificates[i]? = some certificate ∧
      certificate.validity = some validity ∧
      wrapped 63 (validity.notAfterUnix - nowUnix) ≤ expiryWindow config := by
  constructor
  · rintro ⟨warning, hmem, hcode, hpath⟩
    have hexpiry : warning ∈ checkExpiry config nowUnix :=
      mem_checkExpiry_iff_inspect.mpr ⟨hmem, by simp [hcode]⟩
    rcases mem_checkExpiry_iff.mp hexpiry with hsoon | ⟨place, frontend, tls, -, -, hpast⟩
    · obtain ⟨j, certificate, validity, hcertificate, hvalidity, hwindow, rfl⟩ :=
        mem_expiringCertificates_iff.mp hsoon
      obtain rfl := certificatePath_inj hpath
      exact ⟨certificate, validity, hcertificate, hvalidity, hwindow⟩
    · rw [code_of_mem_expiredCertificates hpast] at hcode
      cases hcode
  · rintro ⟨certificate, validity, hcertificate, hvalidity, hwindow⟩
    have hsoon := mem_expiringCertificates_iff.mpr
      ⟨i, certificate, validity, hcertificate, hvalidity, hwindow, rfl⟩
    exact ⟨_, mem_inspect_iff.mpr (.inr (.inr (.inl (mem_checkExpiry_iff.mpr (.inl hsoon))))), rfl, rfl⟩

/-- A frontend is only warned about a certificate past its end. -/
theorem endsSoon_of_expired {warning : ValidationWarning}
    (hmem : warning ∈ inspect toLowercase config nowUnix)
    (hcode : warning.code = .frontendCertificateExpired) : ∃ id certificate i,
      warning.parameters.lookup "certificate" = some (.identifier id.asStr) ∧
      config.certificates.find? (fun held => held.id = id) = some certificate ∧
      config.certificates[i]? = some certificate ∧ EndsSoon config nowUnix i := by
  have hexpiry : warning ∈ checkExpiry config nowUnix :=
    mem_checkExpiry_iff_inspect.mpr ⟨hmem, by simp [hcode]⟩
  rcases mem_checkExpiry_iff.mp hexpiry with hsoon | ⟨place, frontend, tls, -, -, hpast⟩
  · rw [code_of_mem_expiringCertificates hsoon] at hcode
    cases hcode
  · obtain ⟨id, certificate, validity, hlookup, hfound, hvalidity, hend⟩ := mem_expiredCertificates hpast
    obtain ⟨i, hi⟩ := List.mem_iff_getElem?.mp (List.mem_of_find?_eq_some hfound)
    have hwindow := (expiryWindow_mem config).1
    exact ⟨id, certificate, i, hlookup, hfound, hi, certificate, validity, hi, hvalidity, by omega⟩

/-- The reports are right where each difference that is left is on the side of the window it belongs to. -/
theorem reportsExpiry_iff_forall : ReportsExpiry toLowercase config nowUnix ↔
    ∀ certificate ∈ config.certificates, ∀ validity, certificate.validity = some validity →
      (wrapped 63 (validity.notAfterUnix - nowUnix) ≤ expiryWindow config ↔
        validity.notAfterUnix - nowUnix ≤ expiryWindow config) := by
  constructor
  · intro h certificate hmem validity hvalidity
    obtain ⟨i, hi⟩ := List.mem_iff_getElem?.mp hmem
    have hexactly := h.exactly i
    unfold EndsSoon at hexactly
    rw [reportsExpiring_iff] at hexactly
    simpa [hi, hvalidity] using hexactly
  · intro h
    have hexactly (i : ℕ) : ReportsExpiring toLowercase config nowUnix i ↔ EndsSoon config nowUnix i := by
      refine reportsExpiring_iff.trans (exists_congr fun certificate => exists_congr fun validity => ?_)
      refine and_congr_right fun hcertificate => and_congr_right fun hvalidity => ?_
      exact h certificate (List.mem_of_getElem? hcertificate) validity hvalidity
    refine ⟨hexactly, fun warning hmem hcode => ?_⟩
    obtain ⟨id, certificate, i, hlookup, hfound, hi, hsoon⟩ := endsSoon_of_expired hmem hcode
    exact ⟨id, certificate, i, hlookup, hfound, hi, (hexactly i).mpr hsoon⟩

/-- A difference of two words that has wrapped around is on the other side of the window, unless it is so far
below zero that it ends up just above it. -/
theorem wrapped_le_iff (config : Config) {difference : ℤ} (hlow : -2 ^ 64 < difference)
    (hhigh : difference < 2 ^ 64) :
    (wrapped 63 difference ≤ expiryWindow config ↔ difference ≤ expiryWindow config) ↔
      Fits 63 difference ∨ difference ≤ expiryWindow config - 2 ^ 64 := by
  obtain ⟨hnonneg, hwindow⟩ := expiryWindow_mem config
  by_cases hfits : Fits 63 difference
  · rw [wrapped_eq_self.mpr hfits]
    exact ⟨fun _ => .inl hfits, fun _ => Iff.rfl⟩
  · have hside : difference < -2 ^ 63 ∨ 2 ^ 63 ≤ difference := by
      unfold Fits at hfits
      omega
    rw [or_iff_right hfits]
    rcases hside with hbelow | habove
    · rw [wrapped_of_lt (by omega) hbelow]
      omega
    · rw [wrapped_of_le habove (by omega)]
      omega

/-- Without overflow checks the reports are right exactly where no difference of two words wraps around, or
only to what is within the window. -/
theorem reportsExpiry_iff (hnow : Fits 63 nowUnix)
    (hwords : ∀ certificate ∈ config.certificates, ∀ validity, certificate.validity = some validity →
      Fits 63 validity.notAfterUnix) :
    ReportsExpiry toLowercase config nowUnix ↔
      ∀ certificate ∈ config.certificates, ∀ validity, certificate.validity = some validity →
        Fits 63 (validity.notAfterUnix - nowUnix) ∨
          validity.notAfterUnix - nowUnix ≤ expiryWindow config - 2 ^ 64 := by
  refine reportsExpiry_iff_forall.trans (forall₄_congr fun certificate hmem validity hvalidity => ?_)
  obtain ⟨hlow, hhigh⟩ := hwords certificate hmem validity hvalidity
  obtain ⟨hnowLow, hnowHigh⟩ := hnow
  exact wrapped_le_iff config (by omega) (by omega)

/-- No difference overflows and the reports are right, exactly where the end of every certificate is at most
2 ^ 63 seconds behind the clock and less than as many ahead of it. -/
theorem expiry_iff (toLowercase : String → String) (config : Config) (nowUnix : ℤ) :
    (expiringChecked config nowUnix).isSome ∧ ReportsExpiry toLowercase config nowUnix ↔
      ∀ certificate ∈ config.certificates, ∀ validity, certificate.validity = some validity →
        nowUnix - 2 ^ 63 ≤ validity.notAfterUnix ∧ validity.notAfterUnix < nowUnix + 2 ^ 63 := by
  have hrange : Differences config nowUnix ↔
      ∀ certificate ∈ config.certificates, ∀ validity, certificate.validity = some validity →
        nowUnix - 2 ^ 63 ≤ validity.notAfterUnix ∧ validity.notAfterUnix < nowUnix + 2 ^ 63 := by
    unfold Differences Fits
    refine forall₄_congr fun certificate hmem validity hvalidity => ?_
    omega
  rw [← hrange, isSome_expiringChecked]
  refine and_iff_left_of_imp fun h => reportsExpiry_iff_forall.mpr ?_
  intro certificate hmem validity hvalidity
  rw [wrapped_eq_self.mpr (h certificate hmem validity hvalidity)]

end

/-- A document whose listener offers a certificate that ended with the first second there is a number for. -/
def longPast : Config :=
  { oneSite with
    certificates := [⟨⟨"cert"⟩, ["example.org"], .manualUpload, some ⟨-2 ^ 63, -2 ^ 63⟩, none, none⟩] }

/-- A program with overflow checks ends at the certificate. One without them warns about the listener, and
not about the certificate. -/
theorem long_past_silent : validate longPast = .ok () ∧ expiringChecked longPast 1 = none ∧
    (inspect id longPast 1).map ValidationWarning.code = [.frontendCertificateExpired] ∧
    EndsSoon longPast 1 0 ∧ ¬ReportsExpiring id longPast 1 0 ∧ ¬ReportsExpiry id longPast 1 := by
  have hcodes : (inspect id longPast 1).map ValidationWarning.code = [.frontendCertificateExpired] := by
    decide
  have hsoon : EndsSoon longPast 1 0 := ⟨_, _, rfl, rfl, by decide⟩
  have hsilent : ¬ReportsExpiring id longPast 1 0 := by
    rintro ⟨warning, hmem, hcode, -⟩
    have hlisted : warning.code ∈ (inspect id longPast 1).map ValidationWarning.code :=
      List.mem_map_of_mem hmem
    rw [hcodes, hcode] at hlisted
    exact absurd hlisted (by decide)
  exact ⟨by decide +kernel, by decide, hcodes, hsoon, hsilent, fun h => hsilent ((h.exactly 0).mpr hsoon)⟩

end EkEk.Validation
