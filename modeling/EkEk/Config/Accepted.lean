import EkEk.Config.Validation
import Mathlib.Data.List.Nodup

/-!
# What an accepted document is

Reference: `crates/ek-ek-config/src/validation.rs`.

A document is accepted when no check found anything. `validate_eq_ok` takes that apart into the checks,
and the lemmas behind it say what each of them has then established: identities and bindings are told
apart, references lead somewhere, and settings sit on frontends of the right application.
-/

namespace EkEk.Validation

variable {config : Config}

/-- A document no check found anything in. -/
structure Accepted (config : Config) : Prop where
  duplicateIds : checkDuplicateIds config = []
  frontendBindings : checkFrontendBindings config = []
  frontendReferences : checkFrontendReferences config = []
  tlsPlacement : checkTlsPlacement config = []
  redirects : checkRedirects config = []
  vips : checkVips config = []
  certificates : checkCertificates config = []
  dnsProviders : checkDnsProviders config = []
  backends : checkBackends config = []
  stickinessAgainstTransport : checkStickinessAgainstTransport config = []
  stickinessKey : checkStickinessKey config = []
  stickinessCookieName : checkStickinessCookieName config = []
  accessLog : checkAccessLog config = []

/-- A document without findings is an accepted one. -/
theorem validate_eq_ok : validate config = .ok () ↔ Accepted config := by
  have herrors : validate config = .ok () ↔ checkDuplicateIds config ++ checkFrontendBindings config ++
      checkFrontendReferences config ++ checkTlsPlacement config ++ checkRedirects config ++
      checkVips config ++ checkCertificates config ++ checkDnsProviders config ++
      checkBackends config ++ checkStickinessAgainstTransport config ++ checkStickinessKey config ++
      checkStickinessCookieName config ++ checkAccessLog config = [] := by
    rw [validate]
    split
    · rename_i h
      exact iff_of_true rfl h
    · rename_i h
      exact iff_of_false (by rintro ⟨⟩) h
  simp only [herrors, List.append_eq_nil_iff]
  constructor
  · rintro ⟨⟨⟨⟨⟨⟨⟨⟨⟨⟨⟨⟨h1, h2⟩, h3⟩, h4⟩, h5⟩, h6⟩, h7⟩, h8⟩, h9⟩, h10⟩, h11⟩, h12⟩, h13⟩
    exact ⟨h1, h2, h3, h4, h5, h6, h7, h8, h9, h10, h11, h12, h13⟩
  · rintro ⟨h1, h2, h3, h4, h5, h6, h7, h8, h9, h10, h11, h12, h13⟩
    exact ⟨⟨⟨⟨⟨⟨⟨⟨⟨⟨⟨⟨h1, h2⟩, h3⟩, h4⟩, h5⟩, h6⟩, h7⟩, h8⟩, h9⟩, h10⟩, h11⟩, h12⟩, h13⟩

/-! ## Walking a list -/

section

variable {α β : Type} {l : List α}

/-- One thing is reported unless a condition holds. -/
theorem reported_eq_nil {p : Prop} [Decidable p] {error : β} :
    (if p then [] else [error]) = [] ↔ p := by
  split <;> simp_all

/-- A walk that looks at each element by itself finds nothing exactly when there is nothing to be
found with any of them. -/
theorem walk_eq_nil {found : α × ℕ → List β} {fine : α → Prop}
    (h : ∀ a i, found (a, i) = [] ↔ fine a) : l.zipIdx.flatMap found = [] ↔ ∀ a ∈ l, fine a := by
  rw [List.flatMap_eq_nil_iff]
  constructor
  · intro hall a ha
    obtain ⟨i, hi, rfl⟩ := List.getElem_of_mem ha
    exact (h _ i).mp (hall (l[i], i) (List.mem_zipIdx_iff_getElem?.mpr (List.getElem?_eq_getElem hi)))
  · rintro hall ⟨a, i⟩ hmem
    exact (h a i).mpr (hall a (List.mem_of_getElem? (List.mem_zipIdx_iff_getElem?.mp hmem)))

/-- A walk that looks for each element among those before it finds nothing exactly when the elements
are told apart. -/
theorem walk_before_eq_nil [DecidableEq β] {γ : Type} (key : α → β) {found : α × ℕ → List γ}
    (h : ∀ a i, found (a, i) = [] ↔ key a ∉ (l.take i).map key) :
    l.zipIdx.flatMap found = [] ↔ (l.map key).Nodup := by
  rw [List.flatMap_eq_nil_iff, List.Nodup, List.pairwise_iff_getElem]
  constructor
  · intro hall i j hi hj hlt heq
    rw [List.length_map] at hi hj
    have hmem := hall (l[j], j) (List.mem_zipIdx_iff_getElem?.mpr (List.getElem?_eq_getElem hj))
    refine (h _ j).mp hmem ?_
    rw [List.getElem_map, List.getElem_map] at heq
    rw [← heq]
    exact List.mem_map_of_mem (List.mem_take_iff_getElem.mpr ⟨i, by omega, rfl⟩)
  · rintro hapart ⟨a, j⟩ hmem
    refine (h a j).mpr fun hbefore => ?_
    obtain ⟨b, hb, hkey⟩ := List.mem_map.mp hbefore
    obtain ⟨i, hi, rfl⟩ := List.mem_take_iff_getElem.mp hb
    have hat : l[j]? = some a := List.mem_zipIdx_iff_getElem?.mp hmem
    obtain ⟨hj, rfl⟩ := List.getElem?_eq_some_iff.mp hat
    have hi' : i < (l.map key).length := by
      rw [List.length_map]
      omega
    have hj' : j < (l.map key).length := by
      rw [List.length_map]
      omega
    refine hapart i j hi' hj' (by omega) ?_
    rw [List.getElem_map, List.getElem_map, hkey]

end

/-! ## Identities and bindings -/

/-- Nothing is reported where no identity comes twice. -/
theorem reportAll_eq_nil {kind : String} {ids : List String} {path : ℕ → FieldPath} :
    reportAll kind ids path = [] ↔ ids.Nodup := by
  have hreport : ∀ id i, report kind ids path i id = [] ↔ id ∉ (ids.take i).map fun id => id := by
    intro id i
    rw [report, List.map_id']
    split <;> simp_all
  rw [reportAll, walk_before_eq_nil (fun id => id) hreport, List.map_id']

/-- No finding on the ports means that no port is taken twice. -/
theorem checkFrontendBindings_eq_nil :
    checkFrontendBindings config = [] ↔ (config.frontends.map binding).Nodup := by
  refine walk_before_eq_nil binding fun frontend i => ?_
  cases hfind : (config.frontends.take i).find? fun earlier => binding earlier = binding frontend with
  | some holder =>
    have hmem := List.mem_of_find?_eq_some hfind
    have heq := List.find?_some hfind
    simp only [hfind, List.cons_ne_nil, false_iff, not_not]
    exact List.mem_map.mpr ⟨holder, hmem, of_decide_eq_true heq⟩
  | none =>
    simp only [hfind, true_iff]
    intro hmem
    obtain ⟨earlier, hearlier, heq⟩ := List.mem_map.mp hmem
    exact absurd (decide_eq_true heq) (by simpa using List.find?_eq_none.mp hfind earlier hearlier)

/-- A document whose identities are told apart. -/
structure DistinctIds (config : Config) : Prop where
  nodes : (config.nodes.map fun node => node.id.asStr).Nodup
  vips : (config.vips.map fun vip => vip.id.asStr).Nodup
  frontends : (config.frontends.map fun frontend => frontend.id.asStr).Nodup
  backends : (config.backends.map fun backend => backend.id.asStr).Nodup
  members : ∀ backend ∈ config.backends,
    (backend.members.map fun member => member.id.asStr).Nodup
  certificates : (config.certificates.map fun certificate => certificate.id.asStr).Nodup
  dnsProviders : (config.dnsProviders.map fun provider => provider.id.asStr).Nodup

/-- A walk that reports two things of each element finds nothing when it finds none of either. -/
theorem walk_append_eq_nil {α β : Type} {l : List α} {first second : α × ℕ → List β} :
    (l.zipIdx.flatMap fun entry => first entry ++ second entry) = [] ↔
      l.zipIdx.flatMap first = [] ∧ l.zipIdx.flatMap second = [] := by
  simp only [List.flatMap_eq_nil_iff, List.append_eq_nil_iff]
  exact forall₂_and

/-- No finding on identities means that they differ. -/
theorem checkDuplicateIds_eq_nil : checkDuplicateIds config = [] ↔ DistinctIds config := by
  have hpools : (config.backends.zipIdx.flatMap fun entry =>
      report "backend" (config.backends.map fun backend => backend.id.asStr)
          (fun i => ((FieldPath.root.field "backends").index i).field "id") entry.2 entry.1.id.asStr ++
        reportAll "member" (entry.1.members.map fun member => member.id.asStr) fun j =>
          ((((FieldPath.root.field "backends").index entry.2).field "members").index j).field "id") =
      [] ↔
      (config.backends.map fun backend => backend.id.asStr).Nodup ∧ ∀ backend ∈ config.backends,
        (backend.members.map fun member => member.id.asStr).Nodup := by
    rw [walk_append_eq_nil]
    refine and_congr (walk_before_eq_nil _ fun backend i => ?_)
      (walk_eq_nil fun backend i => reportAll_eq_nil)
    rw [report, ← List.map_take]
    split <;> simp_all
  simp only [checkDuplicateIds, List.append_eq_nil_iff, reportAll_eq_nil, hpools]
  constructor
  · rintro ⟨⟨⟨⟨⟨hnodes, hvips⟩, hfrontends⟩, hbackends, hmembers⟩, hcertificates⟩, hproviders⟩
    exact ⟨hnodes, hvips, hfrontends, hbackends, hmembers, hcertificates, hproviders⟩
  · rintro ⟨hnodes, hvips, hfrontends, hbackends, hmembers, hcertificates, hproviders⟩
    exact ⟨⟨⟨⟨⟨hnodes, hvips⟩, hfrontends⟩, hbackends, hmembers⟩, hcertificates⟩, hproviders⟩

/-! ## References -/

/-- A pool that is defined. -/
def KnownBackend (config : Config) (backend : BackendId) : Prop :=
  ∃ pool ∈ config.backends, pool.id = backend

/-- A frontend whose references lead somewhere. -/
structure Resolves (config : Config) (frontend : Frontend) : Prop where
  vip : ∃ vip ∈ config.vips, vip.id = frontend.vip
  port : frontend.port ≠ 0
  defaultBackend : ∀ backend, frontend.defaultBackend = some backend → KnownBackend config backend
  routingRules : ∀ rule ∈ frontend.routingRules, ∀ backend, rule.action = .proxy backend →
    KnownBackend config backend
  sniRules : ∀ rule ∈ frontend.sniRules, KnownBackend config rule.backend
  certificates : ∀ tls, frontend.tls = some tls → ∀ certificate ∈ tls.certificates,
    ∃ held ∈ config.certificates, held.id = certificate
  defaultCertificate : ∀ tls, frontend.tls = some tls → ∀ certificate,
    tls.defaultCertificate = some certificate → certificate ∈ tls.certificates

/-- No finding on a pool means that it is there. -/
theorem unknownBackend_eq_nil {frontend : Frontend} {backend : BackendId} {path : FieldPath} :
    unknownBackend config frontend backend path = [] ↔ KnownBackend config backend := by
  rw [unknownBackend]
  exact reported_eq_nil

/-- No finding on TLS settings means that the certificates are there, the default one among them. -/
theorem tlsReferences_eq_nil {frontend : Frontend} {here : FieldPath} {tls : TlsSettings} :
    tlsReferences config frontend here tls = [] ↔
      (∀ certificate ∈ tls.certificates, ∃ held ∈ config.certificates, held.id = certificate) ∧
      ∀ certificate, tls.defaultCertificate = some certificate → certificate ∈ tls.certificates := by
  rw [tlsReferences, List.append_eq_nil_iff]
  refine and_congr (walk_eq_nil fun certificate i => ?_) ?_
  · exact reported_eq_nil
  · cases tls.defaultCertificate with
    | none => simp
    | some certificate => simp

/-- No finding on a listener means that what it refers to is there. -/
theorem frontendReferences_eq_nil {frontend : Frontend} {here : FieldPath} :
    frontendReferences config frontend here = [] ↔ Resolves config frontend := by
  suffices h : frontendReferences config frontend here = [] ↔
      (((((∃ vip ∈ config.vips, vip.id = frontend.vip) ∧ frontend.port ≠ 0) ∧
        ∀ backend, frontend.defaultBackend = some backend → KnownBackend config backend) ∧
        ∀ rule ∈ frontend.routingRules, ∀ backend, rule.action = .proxy backend →
          KnownBackend config backend) ∧
        ∀ rule ∈ frontend.sniRules, KnownBackend config rule.backend) ∧
        ∀ tls, frontend.tls = some tls →
          (∀ certificate ∈ tls.certificates, ∃ held ∈ config.certificates, held.id = certificate) ∧
          ∀ certificate, tls.defaultCertificate = some certificate → certificate ∈ tls.certificates by
    rw [h]
    constructor
    · rintro ⟨⟨⟨⟨⟨hvip, hport⟩, hdefault⟩, hrules⟩, hsni⟩, htls⟩
      exact ⟨hvip, hport, hdefault, hrules, hsni, fun tls h => (htls tls h).1,
        fun tls h => (htls tls h).2⟩
    · rintro ⟨hvip, hport, hdefault, hrules, hsni, hcertificates, hdefaultCertificate⟩
      exact ⟨⟨⟨⟨⟨hvip, hport⟩, hdefault⟩, hrules⟩, hsni⟩,
        fun tls h => ⟨hcertificates tls h, hdefaultCertificate tls h⟩⟩
  simp only [frontendReferences, List.append_eq_nil_iff]
  refine and_congr (and_congr (and_congr (and_congr (and_congr reported_eq_nil ?_) ?_)
    (walk_eq_nil fun rule i => ?_)) (walk_eq_nil fun rule i => unknownBackend_eq_nil)) ?_
  · split <;> simp_all
  · cases frontend.defaultBackend with
    | none => simp
    | some backend => simp [unknownBackend_eq_nil]
  · cases rule.action with
    | proxy backend => simp [unknownBackend_eq_nil]
    | redirect status => simp
  · cases frontend.tls with
    | none => simp
    | some tls => simp [tlsReferences_eq_nil]

theorem checkFrontendReferences_eq_nil :
    checkFrontendReferences config = [] ↔ ∀ frontend ∈ config.frontends, Resolves config frontend :=
  walk_eq_nil fun _ _ => frontendReferences_eq_nil

/-- No finding on certificates means that their providers are there. -/
theorem checkCertificates_eq_nil : checkCertificates config = [] ↔
    ∀ certificate ∈ config.certificates, ∀ provider, certificate.source = .acmeDns01 provider →
      ∃ held ∈ config.dnsProviders, held.id = provider := by
  refine walk_eq_nil fun certificate i => ?_
  dsimp only
  cases certificate.source with
  | acmeHttp01 => simp
  | manualUpload => simp
  | acmeDns01 provider => simp

/-! ## Settings -/

/-- No finding on TLS means that it stands where it is read. -/
theorem checkTlsPlacement_eq_nil : checkTlsPlacement config = [] ↔
    ∀ frontend ∈ config.frontends, (frontend.tls.isSome → frontend.application = .http) ∧
      (frontend.sniRules ≠ [] → frontend.application = .tlsPassthrough) := by
  refine walk_eq_nil fun frontend i => ?_
  rw [List.append_eq_nil_iff]
  refine and_congr ?_ ?_
  · cases frontend.application with
    | http => simp
    | tlsPassthrough => cases frontend.tls <;> simp
    | raw => cases frontend.tls <;> simp
  · split <;> simp_all

/-- No finding on addresses means that there are identifiers for all and that preferred nodes are there. -/
theorem checkVips_eq_nil : checkVips config = [] ↔ config.vips.length ≤ vrids ∧
    ∀ vip ∈ config.vips, ∀ preferred, vip.preferredNode = some preferred →
      ∃ node ∈ config.nodes, node.id = preferred := by
  rw [checkVips, List.append_eq_nil_iff]
  refine and_congr ?_ (walk_eq_nil fun vip i => ?_)
  · split <;> simp_all
  · dsimp only
    cases vip.preferredNode with
    | none => simp
    | some preferred => simp

/-! ## Another list in a document -/

/-- Other nodes are accepted if they are told apart and are the ones the virtual addresses ask for. -/
theorem Accepted.with_nodes (h : Accepted config) {nodes : List Node} :
    Accepted { config with nodes := nodes } ↔ (nodes.map fun node => node.id.asStr).Nodup ∧
      ∀ vip ∈ config.vips, ∀ preferred, vip.preferredNode = some preferred →
        ∃ node ∈ nodes, node.id = preferred := by
  have hids := checkDuplicateIds_eq_nil.mp h.duplicateIds
  have hvips := checkVips_eq_nil.mp h.vips
  constructor
  · intro haccepted
    exact ⟨(checkDuplicateIds_eq_nil.mp haccepted.duplicateIds).nodes,
      (checkVips_eq_nil.mp haccepted.vips).2⟩
  · rintro ⟨hnodup, hpreferred⟩
    exact { h with
      duplicateIds := checkDuplicateIds_eq_nil.mpr { hids with nodes := hnodup }
      vips := checkVips_eq_nil.mpr ⟨hvips.1, hpreferred⟩
      frontendReferences := checkFrontendReferences_eq_nil.mpr fun frontend hfrontend =>
        { checkFrontendReferences_eq_nil.mp h.frontendReferences frontend hfrontend with } }

/-- Other certificates, with none of the old ones missing, are accepted if they are told apart and their
providers are defined. -/
theorem Accepted.with_certificates (h : Accepted config) {certificates : List Certificate}
    (hheld : ∀ old ∈ config.certificates, ∃ new ∈ certificates, new.id = old.id) :
    Accepted { config with certificates := certificates } ↔
      (certificates.map fun certificate => certificate.id.asStr).Nodup ∧
      ∀ certificate ∈ certificates, ∀ provider, certificate.source = .acmeDns01 provider →
        ∃ held ∈ config.dnsProviders, held.id = provider := by
  have hids := checkDuplicateIds_eq_nil.mp h.duplicateIds
  constructor
  · intro haccepted
    exact ⟨(checkDuplicateIds_eq_nil.mp haccepted.duplicateIds).certificates,
      checkCertificates_eq_nil.mp haccepted.certificates⟩
  · rintro ⟨hnodup, hproviders⟩
    refine { h with
      duplicateIds := checkDuplicateIds_eq_nil.mpr { hids with certificates := hnodup }
      certificates := checkCertificates_eq_nil.mpr hproviders
      frontendReferences := checkFrontendReferences_eq_nil.mpr fun frontend hfrontend => ?_ }
    have hresolves := checkFrontendReferences_eq_nil.mp h.frontendReferences frontend hfrontend
    refine { hresolves with certificates := fun tls htls certificate hcertificate => ?_ }
    obtain ⟨old, hold, rfl⟩ := hresolves.certificates tls htls certificate hcertificate
    exact hheld old hold

end EkEk.Validation
