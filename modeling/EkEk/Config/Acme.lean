import EkEk.Config.Validation

/-!
# What stops an order

Reference: `crates/ek-ek-config/src/validation.rs` (`http01_listener`, `acme_faults`).

A document may say that a certificate is ordered from an ACME server before an order could work. That is
a warning while the document sits still, and the order itself refuses on exactly these warnings.
-/

namespace EkEk.Validation

/-- What a configuration warning is about. -/
inductive WarningCode where
  | frontendUnreachableRoutingRule
  | certificateExpired
  | certificateChainIncomplete
  | acmeMissing
  | acmeDirectoryUrlInvalid
  | acmeTermsNotAccepted
  | acmeNoHttp01Listener
  | acmeWildcardNeedsDns01
  | certificateExpiringSoon
  | frontendCertificateExpired
  | frontendLegacyTlsPolicy
deriving DecidableEq, Repr

/-- The translation key a code is looked up under. -/
def WarningCode.key : WarningCode → String
  | .frontendUnreachableRoutingRule => "config.frontend.unreachable_routing_rule"
  | .certificateExpired => "certificate.expired"
  | .certificateChainIncomplete => "certificate.chain.incomplete"
  | .acmeMissing => "config.acme.missing"
  | .acmeDirectoryUrlInvalid => "config.acme.directory_url_invalid"
  | .acmeTermsNotAccepted => "config.acme.terms_not_accepted"
  | .acmeNoHttp01Listener => "config.acme.no_http01_listener"
  | .acmeWildcardNeedsDns01 => "config.acme.wildcard_needs_dns01"
  | .certificateExpiringSoon => "certificate.expiring_soon"
  | .frontendCertificateExpired => "config.frontend.certificate_expired"
  | .frontendLegacyTlsPolicy => "config.frontend.legacy_tls_policy"

/-- Something worth telling an operator that is not an error. -/
structure ValidationWarning where
  code : WarningCode
  path : FieldPath
  parameters : Finmap fun _ : String => ParameterValue
deriving DecidableEq

namespace ValidationWarning

def new (code : WarningCode) (path : FieldPath) : ValidationWarning := ⟨code, path, ∅⟩

def withId (warning : ValidationWarning) (name value : String) : ValidationWarning :=
  { warning with parameters := warning.parameters.insert name (.identifier value) }

def withNumber (warning : ValidationWarning) (name : String) (value : ℤ) : ValidationWarning :=
  { warning with parameters := warning.parameters.insert name (.number value) }

end ValidationWarning

open FieldPath

/-- Whether a name covers more than itself. -/
def isWildcard (name : String) : Bool := "*.".toList.isPrefixOf name.toList

/-- The port an ACME server asks the HTTP-01 challenge on. -/
def http01Port : UInt16 := 80

/-- The frontend that can answer an HTTP-01 challenge, if there is one. -/
def http01Listener (config : Config) : Option Frontend :=
  config.frontends.find? fun frontend =>
    frontend.port = http01Port ∧ frontend.application = .http ∧ frontend.transport = .tcp ∧
      frontend.tls = none

/-- Whether a certificate is ordered from an ACME server. -/
def isAcme : CertificateSource → Bool
  | .acmeHttp01 | .acmeDns01 _ => true
  | .manualUpload => false

/-- The certificates that are ordered, with their places. -/
def orderedCertificates (config : Config) (only : Option CertificateId) : List (Certificate × ℕ) :=
  config.certificates.zipIdx.filter fun (certificate, _) =>
    (only.all fun wanted => certificate.id = wanted) && isAcme certificate.source

/-- Everything that stops an ACME order from working. -/
def acmeFaults (config : Config) (only : Option CertificateId) : List ValidationWarning :=
  let ordered := orderedCertificates config only
  let here := fun i => ((root.field "certificates").index i).field "source"
  if ordered = [] then []
  else
    match config.acme with
    | none => ordered.map fun (certificate, i) =>
      (ValidationWarning.new .acmeMissing (here i)).withId "certificate" certificate.id.asStr
    | some acme =>
      (if "https://".toList.isPrefixOf acme.directoryUrl.toList then []
        else [.new .acmeDirectoryUrlInvalid ((root.field "acme").field "directory_url")]) ++
      (if acme.acceptedTerms then []
        else [.new .acmeTermsNotAccepted ((root.field "acme").field "accepted_terms")]) ++
      (if http01Listener config = none then
        (ordered.filter fun (certificate, _) => certificate.source = .acmeHttp01).map
          fun (certificate, i) => ((ValidationWarning.new .acmeNoHttp01Listener (here i)).withId
            "certificate" certificate.id.asStr).withNumber "port" http01Port.toNat
        else []) ++
      (ordered.filter fun (certificate, _) =>
        certificate.source = .acmeHttp01 ∧ certificate.sniNames.any isWildcard).map
          fun (certificate, i) => (ValidationWarning.new .acmeWildcardNeedsDns01 (here i)).withId
            "certificate" certificate.id.asStr

end EkEk.Validation
