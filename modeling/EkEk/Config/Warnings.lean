import EkEk.Config.Acme
import EkEk.Text

/-!
# What is probably not meant

Reference: `crates/ek-ek-config/src/validation.rs` (`inspect`, `check_unreachable_rules`, `check_expiry`,
`check_tls_policy`).

A document that is accepted may still say something an operator hardly meant. `inspect` collects that,
and refuses nothing. The lower case of a string is a parameter. A difference of two times that does not
fit into 64 bits wraps around.
-/

namespace EkEk.Validation

open FieldPath

/-! ## Rules that come too late -/

section

variable (toLowercase : String → String)

/-- Whether one host pattern takes every host another would take. -/
def hostCovers (earlier later : Option String) : Bool :=
  match earlier, later with
  | none, _ => true
  | some _, none => false
  | some earlier, some later =>
    let earlier := toLowercase earlier
    let later := toLowercase later
    earlier = later ||
      match Text.stripPrefix earlier "*." with
      | some suffix => (Text.splitOnce later (· = '.')).any fun (_, rest) => rest = suffix
      | none => false

/-- Whether one path prefix takes every path another would take, in the wider of the two modes. -/
def pathCovers (earlier later : Option String) : Bool :=
  match earlier, later with
  | none, _ => true
  | some _, none => false
  | some earlier, some later =>
    let earlier := toLowercase earlier
    let later := toLowercase later
    later = earlier ||
      match Text.stripPrefix later earlier with
      | some rest => earlier.toList.getLast? = some '/' || rest.toList.head? = some '/'
      | none => false

/-- Whether every request a rule would take is already taken by an earlier one. -/
def covers (earlier later : RoutingRule) : Bool :=
  hostCovers toLowercase earlier.hostPattern later.hostPattern &&
    pathCovers toLowercase earlier.pathPrefix later.pathPrefix

/-- Where a rule stands. -/
def rulePath (place later : ℕ) : FieldPath :=
  (((root.field "frontends").index place).field "routing_rules").index later

/-- What is said about a rule that comes too late. -/
def unreachableRule (place : ℕ) (frontend : Frontend) (later earlier : ℕ) : ValidationWarning :=
  (((ValidationWarning.new .frontendUnreachableRoutingRule (rulePath place later)).withId "frontend"
    frontend.id.asStr).withNumber "rule" (countOf later)).withNumber "earlier" (countOf earlier)

/-- Report the rules of a frontend that an earlier one already takes every request from. -/
def unreachableRules (place : ℕ) (frontend : Frontend) : List ValidationWarning :=
  frontend.routingRules.zipIdx.filterMap fun (rule, later) =>
    ((frontend.routingRules.take later).findIdx? fun before => covers toLowercase before rule).map
      (unreachableRule place frontend later)

/-- The rules that an earlier rule takes every request from. -/
def checkUnreachableRules (config : Config) : List ValidationWarning :=
  config.frontends.zipIdx.flatMap fun (frontend, place) => unreachableRules toLowercase place frontend

end

/-! ## Certificates close to their end -/

/-- Report the certificates that end soon. -/
def expiringCertificates (config : Config) (nowUnix : ℤ) : List ValidationWarning :=
  let window : ℤ := config.certificateExpiryWarningDays.toNat * 86400
  config.certificates.zipIdx.filterMap fun (certificate, i) =>
    certificate.validity.bind fun validity =>
      let remaining := (validity.notAfterUnix - nowUnix).bmod (2 ^ 64)
      if window < remaining then none
      else some (((ValidationWarning.new .certificateExpiringSoon
        ((root.field "certificates").index i)).withId "certificate" certificate.id.asStr).withNumber
          "not_after_unix" validity.notAfterUnix |>.withNumber "remaining_seconds" remaining)

/-- Report the certificates past their end that a frontend offers. -/
def expiredCertificates (config : Config) (nowUnix : ℤ) (place : ℕ) (frontend : Frontend)
    (tls : TlsSettings) : List ValidationWarning :=
  tls.certificates.zipIdx.filterMap fun (id, offered) =>
    ((config.certificates.find? fun held => held.id = id).filter fun held =>
      held.validity.any fun window => window.notAfterUnix ≤ nowUnix).map fun certificate =>
        (((ValidationWarning.new .frontendCertificateExpired
          (((((root.field "frontends").index place).field "tls").field "certificates").index
            offered)).withId "frontend" frontend.id.asStr).withId "certificate" id.asStr).withNumber
              "not_after_unix" (certificate.validity.elim 0 CertificateValidity.notAfterUnix)

/-- The certificates that have ended or are about to. -/
def checkExpiry (config : Config) (nowUnix : ℤ) : List ValidationWarning :=
  expiringCertificates config nowUnix ++
    config.frontends.zipIdx.flatMap fun (frontend, place) =>
      frontend.tls.elim [] (expiredCertificates config nowUnix place frontend)

/-! ## Everything together -/

/-- Report every frontend that runs the relaxed TLS policy. -/
def checkTlsPolicy (config : Config) : List ValidationWarning :=
  config.frontends.zipIdx.filterMap fun (frontend, place) =>
    frontend.tls.bind fun tls =>
      if tls.policy = .legacyCompatible then
        some ((ValidationWarning.new .frontendLegacyTlsPolicy
          ((((root.field "frontends").index place).field "tls").field "policy")).withId "frontend"
            frontend.id.asStr)
      else none

/-- What a document says that was probably not meant. -/
def inspect (toLowercase : String → String) (config : Config) (nowUnix : ℤ) : List ValidationWarning :=
  checkUnreachableRules toLowercase config ++ acmeFaults config none ++ checkExpiry config nowUnix ++
    checkTlsPolicy config

@[simp] theorem ValidationWarning.code_new (code : WarningCode) (path : FieldPath) :
    (new code path).code = code := rfl

@[simp] theorem ValidationWarning.code_withId (warning : ValidationWarning) (name value : String) :
    (warning.withId name value).code = warning.code := rfl

@[simp] theorem ValidationWarning.code_withNumber (warning : ValidationWarning) (name : String)
    (value : ℤ) : (warning.withNumber name value).code = warning.code := rfl

/-- A rule a document is warned about. -/
def ReportsUnreachable (toLowercase : String → String) (config : Config) (nowUnix : ℤ)
    (place later : ℕ) : Prop :=
  ∃ warning ∈ inspect toLowercase config nowUnix,
    warning.code = .frontendUnreachableRoutingRule ∧ warning.path = rulePath place later

/-! Each check has warnings of its own. -/

/-- What is reported of the rules is that they are not reached. -/
theorem code_of_mem_checkUnreachableRules {toLowercase : String → String} {config : Config}
    {warning : ValidationWarning} (h : warning ∈ checkUnreachableRules toLowercase config) :
    warning.code = .frontendUnreachableRoutingRule := by
  obtain ⟨⟨frontend, place⟩, -, h⟩ := List.mem_flatMap.mp h
  obtain ⟨⟨rule, later⟩, -, h⟩ := List.mem_filterMap.mp h
  obtain ⟨earlier, -, rfl⟩ := Option.map_eq_some_iff.mp h
  rfl

/-- What is reported of the authority is one of its own findings. -/
theorem code_of_mem_acmeFaults {config : Config} {warning : ValidationWarning}
    (h : warning ∈ acmeFaults config none) : warning.code ∈ [WarningCode.acmeMissing,
      .acmeDirectoryUrlInvalid, .acmeTermsNotAccepted, .acmeNoHttp01Listener, .acmeWildcardNeedsDns01] := by
  rw [acmeFaults] at h
  dsimp only at h
  split at h
  · cases h
  · split at h
    · obtain ⟨certificate, -, rfl⟩ := List.mem_map.mp h
      simp
    · simp only [List.mem_append] at h
      rcases h with ((h | h) | h) | h
      · split at h
        · cases h
        · rw [List.mem_singleton.mp h]
          simp
      · split at h
        · cases h
        · rw [List.mem_singleton.mp h]
          simp
      · split at h
        · obtain ⟨certificate, -, rfl⟩ := List.mem_map.mp h
          simp
        · cases h
      · obtain ⟨certificate, -, rfl⟩ := List.mem_map.mp h
        simp

/-- What is reported of a certificate that is about to end says so. -/
theorem code_of_mem_expiringCertificates {config : Config} {nowUnix : ℤ} {warning : ValidationWarning}
    (h : warning ∈ expiringCertificates config nowUnix) : warning.code = .certificateExpiringSoon := by
  obtain ⟨⟨certificate, place⟩, -, h⟩ := List.mem_filterMap.mp h
  obtain ⟨validity, -, h⟩ := Option.bind_eq_some_iff.mp h
  dsimp only at h
  split at h
  · cases h
  · rw [← Option.some.inj h]
    rfl

/-- What is reported of a certificate that has ended says so. -/
theorem code_of_mem_expiredCertificates {config : Config} {nowUnix : ℤ} {place : ℕ} {frontend : Frontend}
    {tls : TlsSettings} {warning : ValidationWarning}
    (h : warning ∈ expiredCertificates config nowUnix place frontend tls) :
    warning.code = .frontendCertificateExpired := by
  obtain ⟨⟨id, offered⟩, -, h⟩ := List.mem_filterMap.mp h
  obtain ⟨certificate, -, rfl⟩ := Option.map_eq_some_iff.mp h
  rfl

theorem code_of_mem_checkTlsPolicy {config : Config} {warning : ValidationWarning}
    (h : warning ∈ checkTlsPolicy config) : warning.code = .frontendLegacyTlsPolicy := by
  obtain ⟨⟨frontend, place⟩, -, h⟩ := List.mem_filterMap.mp h
  obtain ⟨tls, -, h⟩ := Option.bind_eq_some_iff.mp h
  split at h
  · rw [← Option.some.inj h]
    rfl
  · cases h

/-- A certificate is reported where it is about to end, or where a listener serves it after its end. -/
theorem mem_checkExpiry_iff {config : Config} {nowUnix : ℤ} {warning : ValidationWarning} :
    warning ∈ checkExpiry config nowUnix ↔ warning ∈ expiringCertificates config nowUnix ∨
      ∃ place frontend tls, config.frontends[place]? = some frontend ∧ frontend.tls = some tls ∧
        warning ∈ expiredCertificates config nowUnix place frontend tls := by
  rw [checkExpiry, List.mem_append]
  refine or_congr_right ⟨fun h => ?_, fun ⟨place, frontend, tls, hfrontend, htls, h⟩ => ?_⟩
  · obtain ⟨⟨frontend, place⟩, hfrontend, h⟩ := List.mem_flatMap.mp h
    dsimp only at h
    cases htls : frontend.tls with
    | none =>
      rw [htls] at h
      cases h
    | some tls =>
      rw [htls] at h
      exact ⟨place, frontend, tls, List.mem_zipIdx_iff_getElem?.mp hfrontend, htls, h⟩
  · refine List.mem_flatMap.mpr ⟨(frontend, place), List.mem_zipIdx_iff_getElem?.mpr hfrontend, ?_⟩
    dsimp only
    rwa [htls]

section

variable {toLowercase : String → String} {config : Config} {nowUnix : ℤ} {warning : ValidationWarning}

theorem mem_inspect_iff : warning ∈ inspect toLowercase config nowUnix ↔
    warning ∈ checkUnreachableRules toLowercase config ∨ warning ∈ acmeFaults config none ∨
      warning ∈ checkExpiry config nowUnix ∨ warning ∈ checkTlsPolicy config := by
  simp only [inspect, List.mem_append, or_assoc]

/-- What is reported of the times is one of two findings. -/
theorem code_of_mem_checkExpiry (h : warning ∈ checkExpiry config nowUnix) :
    warning.code ∈ [WarningCode.certificateExpiringSoon, .frontendCertificateExpired] := by
  rcases mem_checkExpiry_iff.mp h with h | ⟨place, frontend, tls, -, -, h⟩
  · simp [code_of_mem_expiringCertificates h]
  · simp [code_of_mem_expiredCertificates h]

/-- The warnings of a code come from the check that has it. -/
theorem mem_checkUnreachableRules_iff : warning ∈ checkUnreachableRules toLowercase config ↔
    warning ∈ inspect toLowercase config nowUnix ∧ warning.code = .frontendUnreachableRoutingRule := by
  refine ⟨fun h => ⟨mem_inspect_iff.mpr (.inl h), code_of_mem_checkUnreachableRules h⟩, ?_⟩
  rintro ⟨h, hcode⟩
  rcases mem_inspect_iff.mp h with h | h | h | h
  · exact h
  · simpa [hcode] using code_of_mem_acmeFaults h
  · simpa [hcode] using code_of_mem_checkExpiry h
  · simpa [hcode] using code_of_mem_checkTlsPolicy h

/-- Those two findings are reported of nothing else. -/
theorem mem_checkExpiry_iff_inspect : warning ∈ checkExpiry config nowUnix ↔
    warning ∈ inspect toLowercase config nowUnix ∧
      warning.code ∈ [WarningCode.certificateExpiringSoon, .frontendCertificateExpired] := by
  refine ⟨fun h => ⟨mem_inspect_iff.mpr (.inr (.inr (.inl h))), code_of_mem_checkExpiry h⟩, ?_⟩
  rintro ⟨h, hcode⟩
  rcases mem_inspect_iff.mp h with h | h | h | h
  · simp [code_of_mem_checkUnreachableRules h] at hcode
  · have hacme := code_of_mem_acmeFaults h
    simp only [List.mem_cons, List.not_mem_nil, or_false] at hcode hacme
    rcases hcode with hcode | hcode <;> simp [hcode] at hacme
  · exact h
  · simp [code_of_mem_checkTlsPolicy h] at hcode

end

/-- A path says which rule of which listener it is about. -/
theorem rulePath_inj {place place' later later' : ℕ} (h : rulePath place later = rulePath place' later') :
    place = place' ∧ later = later' := by
  simpa [rulePath, root, FieldPath.field, FieldPath.index] using h

/-- A document is warned about a rule exactly where an earlier rule of its frontend covers it. -/
theorem reportsUnreachable_iff {toLowercase : String → String} {config : Config} {nowUnix : ℤ}
    {place later : ℕ} :
    ReportsUnreachable toLowercase config nowUnix place later ↔
      ∃ frontend rule, config.frontends[place]? = some frontend ∧
        frontend.routingRules[later]? = some rule ∧
        ∃ before ∈ frontend.routingRules.take later, covers toLowercase before rule := by
  constructor
  · rintro ⟨warning, hwarning, hcode, hpath⟩
    have hrules := mem_checkUnreachableRules_iff.mpr ⟨hwarning, hcode⟩
    obtain ⟨⟨frontend, place'⟩, hfrontend, hrules⟩ := List.mem_flatMap.mp hrules
    obtain ⟨⟨rule, later'⟩, hrule, hrules⟩ := List.mem_filterMap.mp hrules
    obtain ⟨earlier, hearlier, rfl⟩ := Option.map_eq_some_iff.mp hrules
    obtain ⟨rfl, rfl⟩ := rulePath_inj hpath
    refine ⟨frontend, rule, List.mem_zipIdx_iff_getElem?.mp hfrontend,
      List.mem_zipIdx_iff_getElem?.mp hrule, ?_⟩
    have hsome := Option.isSome_of_eq_some hearlier
    rwa [List.findIdx?_isSome, List.any_eq_true] at hsome
  · rintro ⟨frontend, rule, hfrontend, hrule, before, hbefore, hcovers⟩
    obtain ⟨earlier, hearlier⟩ : ∃ earlier, ((frontend.routingRules.take later).findIdx?
        fun before => covers toLowercase before rule) = some earlier := by
      rw [← Option.isSome_iff_exists, List.findIdx?_isSome, List.any_eq_true]
      exact ⟨before, hbefore, hcovers⟩
    have hrules : unreachableRule place frontend later earlier ∈
        checkUnreachableRules toLowercase config := by
      refine List.mem_flatMap.mpr ⟨(frontend, place), List.mem_zipIdx_iff_getElem?.mpr hfrontend, ?_⟩
      refine List.mem_filterMap.mpr ⟨(rule, later), List.mem_zipIdx_iff_getElem?.mpr hrule, ?_⟩
      exact Option.map_eq_some_iff.mpr ⟨earlier, hearlier, rfl⟩
    exact ⟨unreachableRule place frontend later earlier, mem_inspect_iff.mpr (.inl hrules), rfl, rfl⟩

end EkEk.Validation
