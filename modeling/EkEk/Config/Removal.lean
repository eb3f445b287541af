import EkEk.Config.Accepted

/-!
# What may be removed

Reference: `crates/ek-ek-config/src/validation.rs` (`validate_vip_removal`,
`validate_certificate_removal`).

A virtual address or a certificate is looked for in the frontends before it is removed, and the refusal
names every frontend that has it. `removal_guards_exact` says that this is what the whole validation
would say of the document afterwards.
-/

namespace EkEk.Validation

open FieldPath ValidationError

/-- Refuse a removal that leaves frontends dangling, naming each of them. -/
def refuseUsed (code : ErrorCode) (list kind id : String) (users : List Frontend) :
    Except (List ValidationError) Unit :=
  if users = [] then .ok ()
  else
    let error := ((new code ((root.field list).field id)).withId kind id).withNumber "frontend_count"
      users.length
    .error [users.zipIdx.foldl
      (fun error (frontend, position) => error.withId s!"frontend_{position}" frontend.id.asStr) error]

/-- Whether a virtual address can be removed. -/
def validateVipRemoval (config : Config) (vip : VipId) : Except (List ValidationError) Unit :=
  refuseUsed .vipInUse "vips" "vip" vip.asStr (config.frontends.filter fun frontend => frontend.vip = vip)

/-- Whether a frontend has a certificate, in the list it picks from or to fall back to. -/
def offers (frontend : Frontend) (certificate : CertificateId) : Bool :=
  match frontend.tls with
  | none => false
  | some tls => tls.certificates.contains certificate || tls.defaultCertificate = some certificate

/-- Whether a certificate can be removed. -/
def validateCertificateRemoval (config : Config) (certificate : CertificateId) :
    Except (List ValidationError) Unit :=
  refuseUsed .certificateInUse "certificates" "certificate" certificate.asStr
    (config.frontends.filter fun frontend => offers frontend certificate)

/-! ## The document afterwards -/

/-- A document without a virtual address. -/
def withoutVip (config : Config) (vip : VipId) : Config :=
  { config with vips := config.vips.filter fun held => held.id ≠ vip }

/-- A document without a certificate. -/
def withoutCertificate (config : Config) (certificate : CertificateId) : Config :=
  { config with certificates := config.certificates.filter fun held => held.id ≠ certificate }

variable {config : Config}

theorem refuseUsed_eq_ok {code : ErrorCode} {list kind id : String} {users : List Frontend} :
    refuseUsed code list kind id users = .ok () ↔ users = [] := by
  rw [refuseUsed]
  split
  · rename_i hnobody
    exact iff_of_true rfl hnobody
  · rename_i husers
    exact iff_of_false (by rintro ⟨⟩) husers

theorem validateVipRemoval_eq_ok {vip : VipId} : validateVipRemoval config vip = .ok () ↔
    ∀ frontend ∈ config.frontends, frontend.vip ≠ vip := by
  rw [validateVipRemoval, refuseUsed_eq_ok, List.filter_eq_nil_iff]
  simp

theorem offers_iff {frontend : Frontend} {certificate : CertificateId} : offers frontend certificate ↔
    ∃ tls, frontend.tls = some tls ∧
      (certificate ∈ tls.certificates ∨ tls.defaultCertificate = some certificate) := by
  rw [offers]
  cases frontend.tls with
  | none => simp
  | some tls => simp

theorem validateCertificateRemoval_eq_ok {certificate : CertificateId} :
    validateCertificateRemoval config certificate = .ok () ↔
      ∀ frontend ∈ config.frontends, ¬ offers frontend certificate := by
  rw [validateCertificateRemoval, refuseUsed_eq_ok, List.filter_eq_nil_iff]

/-- What is looked up under another identity is still there. -/
theorem exists_mem_filter_ne {α ι : Type} [DecidableEq ι] {key : α → ι} {objects : List α} {gone id : ι} :
    (∃ object ∈ objects.filter fun object => key object ≠ gone, key object = id) ↔
      id ≠ gone ∧ ∃ object ∈ objects, key object = id := by
  constructor
  · rintro ⟨object, hobject, rfl⟩
    obtain ⟨hin, hkept⟩ := List.mem_filter.mp hobject
    exact ⟨of_decide_eq_true hkept, object, hin, rfl⟩
  · rintro ⟨hkept, object, hin, rfl⟩
    exact ⟨object, List.mem_filter.mpr ⟨hin, decide_eq_true hkept⟩, rfl⟩

/-- A document stays accepted without an address that no frontend has. -/
theorem Accepted.without_vip (h : Accepted config) {vip : VipId} :
    Accepted (withoutVip config vip) ↔ ∀ frontend ∈ config.frontends, frontend.vip ≠ vip := by
  have hids := checkDuplicateIds_eq_nil.mp h.duplicateIds
  have hvips := checkVips_eq_nil.mp h.vips
  have hresolves := checkFrontendReferences_eq_nil.mp h.frontendReferences
  have hsublist : (config.vips.filter fun held => held.id ≠ vip).Sublist config.vips :=
    List.filter_sublist
  constructor
  · intro haccepted frontend hfrontend
    have hthere := (checkFrontendReferences_eq_nil.mp haccepted.frontendReferences frontend hfrontend).vip
    exact (exists_mem_filter_ne.mp hthere).1
  · intro hunused
    exact { h with
      duplicateIds := checkDuplicateIds_eq_nil.mpr { hids with
        vips := hids.vips.sublist (hsublist.map _) }
      vips := checkVips_eq_nil.mpr ⟨hsublist.length_le.trans hvips.1, fun held hheld =>
        hvips.2 held (List.mem_of_mem_filter hheld)⟩
      frontendReferences := checkFrontendReferences_eq_nil.mpr fun frontend hfrontend =>
        { hresolves frontend hfrontend with
          vip := exists_mem_filter_ne.mpr ⟨hunused frontend hfrontend,
            (hresolves frontend hfrontend).vip⟩ } }

/-- A document stays accepted without a certificate that no frontend has. -/
theorem Accepted.without_certificate (h : Accepted config) {certificate : CertificateId} :
    Accepted (withoutCertificate config certificate) ↔
      ∀ frontend ∈ config.frontends, ¬ offers frontend certificate := by
  have hids := checkDuplicateIds_eq_nil.mp h.duplicateIds
  have hproviders := checkCertificates_eq_nil.mp h.certificates
  have hresolves := checkFrontendReferences_eq_nil.mp h.frontendReferences
  have hsublist : (config.certificates.filter fun held => held.id ≠ certificate).Sublist
      config.certificates := List.filter_sublist
  constructor
  · intro haccepted frontend hfrontend hoffers
    have hnow := checkFrontendReferences_eq_nil.mp haccepted.frontendReferences frontend hfrontend
    obtain ⟨tls, htls, hhas⟩ := offers_iff.mp hoffers
    -- the one to fall back to is in the list as well
    have hlisted : certificate ∈ tls.certificates :=
      hhas.elim id ((hresolves frontend hfrontend).defaultCertificate tls htls certificate)
    exact (exists_mem_filter_ne.mp (hnow.certificates tls htls certificate hlisted)).1 rfl
  · intro hunused
    refine { h with
      duplicateIds := checkDuplicateIds_eq_nil.mpr { hids with
        certificates := hids.certificates.sublist (hsublist.map _) }
      certificates := checkCertificates_eq_nil.mpr fun held hheld =>
        hproviders held (List.mem_of_mem_filter hheld)
      frontendReferences := checkFrontendReferences_eq_nil.mpr fun frontend hfrontend =>
        { hresolves frontend hfrontend with certificates := fun tls htls listed hlisted => ?_ } }
    refine exists_mem_filter_ne.mpr ⟨?_, (hresolves frontend hfrontend).certificates tls htls listed hlisted⟩
    rintro rfl
    exact hunused frontend hfrontend (offers_iff.mpr ⟨tls, htls, .inl hlisted⟩)

/-- A removal is refused exactly when the document without what is removed would be. -/
theorem removal_guards_exact (h : validate config = .ok ()) (vip : VipId) (certificate : CertificateId) :
    (validateVipRemoval config vip = .ok () ↔ validate (withoutVip config vip) = .ok ()) ∧
      (validateCertificateRemoval config certificate = .ok () ↔
        validate (withoutCertificate config certificate) = .ok ()) := by
  have haccepted := validate_eq_ok.mp h
  rw [validate_eq_ok, validate_eq_ok, haccepted.without_vip, haccepted.without_certificate,
    validateVipRemoval_eq_ok, validateCertificateRemoval_eq_ok]
  exact ⟨Iff.rfl, Iff.rfl⟩

/-- A listener for one site. -/
def site : Frontend where
  id := ⟨"site"⟩
  vip := ⟨"web"⟩
  port := 443
  transport := .tcp
  application := .http
  tls := some ⟨[⟨"cert"⟩], none, .balanced⟩
  proxyProtocol := .disabled
  accessLog := ⟨true, 1⟩
  routingRules := []
  sniRules := []
  defaultBackend := none
  http2 := .enabled
  connectTimeoutSeconds := 5
  requestTimeoutSeconds := 60
  idleTimeoutSeconds := 0
  drainTimeoutSeconds := 30
  udpSessionLimit := 0

/-- A document with that listener and the certificate it offers. -/
def oneSite : Config :=
  { Config.empty with
    vips := [⟨⟨"web"⟩, .v4 ⟨10, 0, 0, 100⟩, 24, "eth0", none⟩]
    frontends := [site]
    certificates := [⟨⟨"cert"⟩, ["example.org"], .manualUpload, none, none, none⟩] }

theorem one_site_guarded :
    (validateVipRemoval oneSite ⟨"web"⟩ = .ok () ↔ validate (withoutVip oneSite ⟨"web"⟩) = .ok ()) ∧
      (validateCertificateRemoval oneSite ⟨"other"⟩ = .ok () ↔
        validate (withoutCertificate oneSite ⟨"other"⟩) = .ok ()) :=
  removal_guards_exact (by decide +kernel) ⟨"web"⟩ ⟨"other"⟩

end EkEk.Validation
