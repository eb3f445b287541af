import EkEk.Config.Removal
import EkEk.Config.Template

/-!
# Saving a frontend

Reference: `from_frontend` of `crates/ek-ek-config/src/template.rs`.

A frontend that works can be saved as a template, with the pools it reaches and without the certificates
it offers. The list it picks from is emptied and the one it falls back to is not, and
`saved_whole_iff` says for which frontends that makes no difference.
-/

namespace EkEk.Templates

open Validation FieldPath

/-- A template an operator saved from a document that works. -/
structure UserTemplate where
  id : TemplateId
  name : String
  frontend : Frontend
  backends : List Backend
deriving DecidableEq, Repr

/-- A frontend whose list of certificates is emptied. -/
def clearCertificates (frontend : Frontend) : Frontend :=
  { frontend with tls := frontend.tls.map fun tls => { tls with certificates := [] } }

/-- The pool a rule sends to. -/
def proxied : RuleAction → Option BackendId
  | .proxy backend => some backend
  | .redirect _ => none

/-- The pools a frontend names. -/
def wanted (frontend : Frontend) : List BackendId :=
  frontend.defaultBackend.toList ++ frontend.routingRules.filterMap (fun rule => proxied rule.action) ++
    frontend.sniRules.map fun rule => rule.backend

/-- Save the structure of a frontend and the pools it reaches. -/
def fromFrontend (config : Config) (frontend : FrontendId) (name : String) :
    Except (List ValidationError) UserTemplate :=
  match config.frontends.find? fun candidate => candidate.id = frontend with
  | none => .error [(ValidationError.new .frontendUnknownBackend (root.field "frontends")).withId
      "frontend" frontend.asStr]
  | some found =>
    let stripped := clearCertificates found
    .ok {
      id := ⟨s!"user-{frontend.asStr}"⟩
      name := name
      frontend := stripped
      backends := config.backends.filter fun backend => backend.id ∈ wanted stripped }

/-! ## What a template is to carry -/

/-- The certificates a frontend names, in the list it picks from or to fall back to. -/
def certificatesOf (frontend : Frontend) : List CertificateId :=
  frontend.tls.elim [] fun tls => tls.certificates ++ tls.defaultCertificate.toList

/-- A frontend with no certificate named. -/
def unnamed (frontend : Frontend) : Frontend :=
  { frontend with
    tls := frontend.tls.map fun tls => { tls with certificates := [], defaultCertificate := none } }

/-- A template that carries no certificate and the pools a frontend reaches, and is otherwise the
frontend. -/
structure Saves (config : Config) (frontend : Frontend) (template : UserTemplate) : Prop where
  certificates : certificatesOf template.frontend = []
  backends : ∀ backend, backend ∈ template.backends ↔
    backend ∈ config.backends ∧ reaches frontend backend.id
  rest : unnamed template.frontend = unnamed frontend

theorem mem_wanted {frontend : Frontend} {backend : BackendId} :
    backend ∈ wanted frontend ↔ reaches frontend backend := by
  have hrule : ∀ rule : RoutingRule, proxied rule.action = some backend ↔ rule.action = .proxy backend := by
    intro rule
    cases rule.action <;> simp [proxied]
  simp only [wanted, reaches, List.mem_append, Option.mem_toList, List.mem_filterMap, List.mem_map,
    Bool.or_eq_true, decide_eq_true_eq, List.any_eq_true, hrule]

/-- What a frontend reaches does not depend on the certificates it names. -/
theorem reaches_unnamed (frontend : Frontend) : reaches (unnamed frontend) = reaches frontend := rfl

theorem unnamed_clearCertificates (frontend : Frontend) :
    unnamed (clearCertificates frontend) = unnamed frontend := by
  simp only [unnamed, clearCertificates, Option.map_map]
  rfl

/-- A frontend whose list was emptied names the certificate it falls back to. -/
theorem certificatesOf_clearCertificates (frontend : Frontend) :
    certificatesOf (clearCertificates frontend) =
      (frontend.tls.bind fun tls => tls.defaultCertificate).toList := by
  rw [certificatesOf, clearCertificates]
  cases frontend.tls <;> rfl

/-- What is saved carries no certificate and is the frontend otherwise exactly when the first frontend of
its identity is the frontend itself, as far as it does not name certificates, and falls back to none. -/
theorem saved_whole_iff {config : Config} {frontend : Frontend} (h : frontend ∈ config.frontends)
    (name : String) :
    (∃ template, fromFrontend config frontend.id name = .ok template ∧ Saves config frontend template) ↔
      ∃ first, config.frontends.find? (fun candidate => candidate.id = frontend.id) = some first ∧
        unnamed first = unnamed frontend ∧ (first.tls.bind fun tls => tls.defaultCertificate) = none := by
  have hfound : (config.frontends.find? fun candidate => candidate.id = frontend.id).isSome :=
    List.find?_isSome.mpr ⟨frontend, h, decide_eq_true rfl⟩
  obtain ⟨first, hfirst⟩ := Option.isSome_iff_exists.mp hfound
  rw [fromFrontend, hfirst]
  constructor
  · rintro ⟨template, htemplate, hsaves⟩
    obtain rfl := Except.ok.inj htemplate
    refine ⟨first, rfl, ?_, ?_⟩
    · rw [← hsaves.rest, unnamed_clearCertificates]
    · have hnone := hsaves.certificates
      rwa [certificatesOf_clearCertificates, Option.toList_eq_nil_iff] at hnone
  · rintro ⟨_, hsame, hrest, hnone⟩
    obtain rfl := Option.some.inj hsame
    refine ⟨_, rfl, ?_, fun backend => ?_, ?_⟩
    · rw [certificatesOf_clearCertificates, hnone]
      rfl
    · rw [List.mem_filter, decide_eq_true_eq, mem_wanted, ← reaches_unnamed,
        unnamed_clearCertificates, hrest, reaches_unnamed]
    · rw [unnamed_clearCertificates, hrest]

theorem site_saved : ∃ template,
    fromFrontend oneSite site.id "saved" = .ok template ∧ Saves oneSite site template :=
  (saved_whole_iff (List.mem_singleton.mpr rfl) "saved").mpr ⟨site, rfl, rfl, rfl⟩

/-- A document whose listener falls back to the certificate it offers. -/
def fallingBack : Config :=
  { oneSite with frontends := [{ site with tls := some ⟨[⟨"cert"⟩], some ⟨"cert"⟩, .balanced⟩ }] }

/-- The certificate a listener falls back to travels with what is saved of it. -/
theorem default_travels : validate fallingBack = .ok () ∧
    ∃ template, fromFrontend fallingBack site.id "saved" = .ok template ∧
      certificatesOf template.frontend = [⟨"cert"⟩] :=
  ⟨by decide +kernel, _, rfl, rfl⟩

end EkEk.Templates
