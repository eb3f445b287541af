import EkEk.Config.Config
import EkEk.Text
import Mathlib.Data.Finmap

/-!
# The certificates of the frontends

Reference: `Certificates::build` and `Certificates::choose` of `crates/ek-ek-dataplane/src/certs.rs`.

What every TLS frontend of a document references is loaded once per delivery, and filed by the names a
handshake asks for. Parsing a certificate is the library's, and so is the lower case of a name; both are
parameters.
-/

namespace EkEk.Dataplane

/-- Why one certificate could not be loaded. -/
inductive LoadFailure where
  | missing
  | chainUnreadable
  | chainEmpty
  | keyUnreadable
  | keyDoesNotMatch
deriving DecidableEq, Repr

/-- What a certificate is made of. -/
structure CertificateMaterial where
  chainPem : String
  keyPem : String
deriving DecidableEq, Repr

/-- What one frontend can serve, by the names it is asked for. -/
structure Offered (Loaded : Type) where
  exact : Finmap fun _ : String => Loaded
  wildcard : Finmap fun _ : String => Loaded
  default : Option Loaded

/-- The certificates of every frontend, and those that could not be loaded. -/
structure Certificates (Loaded : Type) where
  byFrontend : Finmap fun _ : String => Offered Loaded
  failures : List (String × LoadFailure)

namespace Certificates

variable {Loaded : Type} (load : String → CertificateMaterial → Except LoadFailure Loaded)
  (toLowercase : String → String)

/-- The certificates that were tried, each once, and the failures on the way. -/
structure Loading (Loaded : Type) where
  loaded : Finmap fun _ : CertificateId => Option Loaded
  failures : List (String × LoadFailure)

/-- Load one certificate, or look up what became of it. -/
def entry (material : Finmap fun _ : CertificateId => CertificateMaterial) (loading : Loading Loaded)
    (id : CertificateId) : Loading Loaded × Option Loaded :=
  match loading.loaded.lookup id with
  | some tried => (loading, tried)
  | none =>
    match material.lookup id with
    | none => (⟨loading.loaded.insert id none, loading.failures ++ [(id.asStr, .missing)]⟩, none)
    | some material =>
      match load id.asStr material with
      | .ok certificate =>
        (⟨loading.loaded.insert id (some certificate), loading.failures⟩, some certificate)
      | .error failure =>
        (⟨loading.loaded.insert id none, loading.failures ++ [(id.asStr, failure)]⟩, none)

/-- File a certificate under one of its names. A wildcard is filed under what follows the star. -/
def file (certificate : Loaded) (offered : Offered Loaded) (name : String) : Offered Loaded :=
  match (toLowercase name).toList with
  | '*' :: '.' :: suffix =>
    { offered with wildcard := offered.wildcard.insert (String.ofList suffix) certificate }
  | name => { offered with exact := offered.exact.insert (String.ofList name) certificate }

/-- The names of a certificate, those of the last one of its identity. -/
def names (config : Config) (id : CertificateId) : List String :=
  ((config.certificates.reverse.find? fun certificate => certificate.id = id).map
    Certificate.sniNames).getD []

/-- Take one certificate into what a frontend offers. -/
def offer (config : Config) (material : Finmap fun _ : CertificateId => CertificateMaterial)
    (tls : TlsSettings) (held : Loading Loaded × Offered Loaded) (id : CertificateId) :
    Loading Loaded × Offered Loaded :=
  match entry load material held.1 id with
  | (loading, none) => (loading, held.2)
  | (loading, some certificate) =>
    let offered := (names config id).foldl (file toLowercase certificate) held.2
    (loading, if tls.defaultCertificate = some id then { offered with default := some certificate }
      else offered)

/-- Take one frontend in. What does not terminate TLS on a TCP listener is passed over. -/
def take (config : Config) (material : Finmap fun _ : CertificateId => CertificateMaterial)
    (held : Loading Loaded × Finmap fun _ : String => Offered Loaded) (frontend : Frontend) :
    Loading Loaded × Finmap fun _ : String => Offered Loaded :=
  match frontend.tls with
  | none => held
  | some tls =>
    if frontend.transport ≠ .tcp then held
    else
      -- a frontend without a certificate that loads is filed all the same
      let (loading, offered) :=
        tls.certificates.foldl (offer load toLowercase config material tls) (held.1, ⟨∅, ∅, none⟩)
      (loading, held.2.insert frontend.id.asStr offered)

/-- Load what every TLS frontend of a document references. -/
def build (config : Config) (material : Finmap fun _ : CertificateId => CertificateMaterial) :
    Certificates Loaded :=
  let (loading, byFrontend) :=
    config.frontends.foldl (take load toLowercase config material) (⟨∅, []⟩, ∅)
  ⟨byFrontend, loading.failures⟩

/-- What a wildcard would have to cover to match this name. -/
def parentOf (name : String) : Option String := (Text.splitOnce name (· = '.')).map Prod.snd

/-- The certificate filed for a name in lower case: under the name itself, or under a wildcard. -/
def named (offered : Offered Loaded) (name : String) : Option Loaded :=
  match offered.exact.lookup name with
  | some certificate => some certificate
  | none => (parentOf name).bind fun parent => offered.wildcard.lookup parent

/-- Pick the certificate a handshake should present. -/
def choose (certificates : Certificates Loaded) (frontend : String) (name : Option String) :
    Option Loaded :=
  match certificates.byFrontend.lookup frontend with
  | none => none
  | some offered =>
    match name with
    | none => offered.default
    | some name => (named offered (toLowercase name)).or offered.default

variable {load toLowercase} {config : Config}
  {material : Finmap fun _ : CertificateId => CertificateMaterial}

/-- A frontend that certificates are loaded for. -/
def Terminates (frontend : Frontend) : Prop := frontend.tls.isSome ∧ frontend.transport = .tcp

theorem mem_take {held : Loading Loaded × Finmap fun _ : String => Offered Loaded}
    {frontend : Frontend} {name : String} :
    name ∈ (take load toLowercase config material held frontend).2 ↔
      name ∈ held.2 ∨ Terminates frontend ∧ frontend.id.asStr = name := by
  rw [take]
  cases htls : frontend.tls with
  | none => simp [Terminates, htls]
  | some tls =>
    by_cases htcp : frontend.transport = .tcp
    · simp [Terminates, htls, htcp, or_comm, eq_comm]
    · simp [Terminates, htls, htcp]

/-- The frontends certificates are loaded for are those that terminate TLS on a TCP listener. -/
theorem mem_build {name : String} : name ∈ (build load toLowercase config material).byFrontend ↔
    ∃ frontend ∈ config.frontends, Terminates frontend ∧ frontend.id.asStr = name := by
  have hfold : ∀ (frontends : List Frontend)
      (held : Loading Loaded × Finmap fun _ : String => Offered Loaded),
      name ∈ (frontends.foldl (take load toLowercase config material) held).2 ↔
        name ∈ held.2 ∨ ∃ frontend ∈ frontends, Terminates frontend ∧ frontend.id.asStr = name := by
    intro frontends
    induction frontends with
    | nil => simp
    | cons frontend frontends ih =>
      intro held
      rw [List.foldl_cons, ih, mem_take, List.exists_mem_cons_iff, or_assoc]
  have hbuild := hfold config.frontends (⟨∅, []⟩, ∅)
  simpa only [build, Finmap.notMem_empty, false_or] using hbuild

end Certificates

end EkEk.Dataplane
