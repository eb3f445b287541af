import EkEk.Config.Removal
import EkEk.Lib.Keyed
import EkEk.Program.Ordering

/-!
# What is warned about and what is refused

Reference: `obtain_order` of `crates/ek-ek/src/acme.rs` and `acme_faults` of
`crates/ek-ek-config/src/validation.rs`.

An order refuses what the document was warned about, by the same function. It refuses one thing more, a
certificate that covers no name, and `refused_as_warned_iff` says that this is the only difference.
-/

namespace EkEk.Validation

variable {config : Config}

/-- A certificate something is said about: there are no settings to order it with, the settings do not do,
or the challenge cannot be met. -/
def Blocked (config : Config) (certificate : Certificate) : Prop :=
  config.acme = none ∨
    (∃ acme, config.acme = some acme ∧
      (¬ "https://".toList.isPrefixOf acme.directoryUrl.toList ∨ acme.acceptedTerms = false)) ∨
      certificate.source = .acmeHttp01 ∧
        (http01Listener config = none ∨ certificate.sniNames.any isWildcard)

theorem mem_orderedCertificates {only : Option CertificateId} {certificate : Certificate} {i : ℕ} :
    (certificate, i) ∈ orderedCertificates config only ↔ config.certificates[i]? = some certificate ∧
      (only.all fun wanted => certificate.id = wanted) ∧ isAcme certificate.source := by
  rw [orderedCertificates, List.mem_filter, List.mem_zipIdx_iff_getElem?, Bool.and_eq_true]

/-- A certificate that is ordered, at any of its places. -/
theorem exists_mem_orderedCertificates {only : Option CertificateId} {certificate : Certificate} :
    (∃ i, (certificate, i) ∈ orderedCertificates config only) ↔ certificate ∈ config.certificates ∧
      (only.all fun wanted => certificate.id = wanted) ∧ isAcme certificate.source := by
  simp only [mem_orderedCertificates, exists_and_right]
  exact and_congr_left fun _ => List.mem_iff_getElem?.symm

/-- There are no warnings exactly when none of the ordered certificates is blocked. -/
theorem acmeFaults_eq_nil {only : Option CertificateId} : acmeFaults config only = [] ↔
    ∀ certificate i, (certificate, i) ∈ orderedCertificates config only → ¬ Blocked config certificate := by
  rw [acmeFaults]
  dsimp only
  split
  · rename_i hnone
    rw [hnone]
    exact iff_of_true rfl fun _ _ h => absurd h List.not_mem_nil
  · rename_i hsome
    obtain ⟨⟨first, at'⟩, hfirst⟩ := List.exists_mem_of_ne_nil _ hsome
    cases hacme : config.acme with
    | none =>
      refine iff_of_false (fun hnil => hsome (List.map_eq_nil_iff.mp hnil)) fun hall => ?_
      exact hall first at' hfirst (.inl hacme)
    | some acme =>
      have hblocked : ∀ certificate, Blocked config certificate ↔
          (¬ "https://".toList.isPrefixOf acme.directoryUrl.toList ∨ acme.acceptedTerms = false) ∨
            certificate.source = .acmeHttp01 ∧
              (http01Listener config = none ∨ certificate.sniNames.any isWildcard) := by
        intro certificate
        simp [Blocked, hacme]
      have hlistened : ∀ found : List ValidationWarning,
          (if http01Listener config = none then found else []) = [] ↔
            (http01Listener config = none → found = []) := by
        intro found
        split <;> simp_all
      simp only [List.append_eq_nil_iff, reported_eq_nil, hblocked, hlistened, List.map_eq_nil_iff,
        List.filter_eq_nil_iff, Prod.forall, decide_eq_true_eq]
      constructor
      · rintro ⟨⟨⟨hurl, hterms⟩, hlistener⟩, hwildcard⟩ certificate i hmem
          (⟨hnot | hnot⟩ | ⟨hsource, hnot | hnot⟩)
        · exact hnot hurl
        · rw [hterms] at hnot
          cases hnot
        · exact hlistener hnot certificate i hmem hsource
        · exact hwildcard certificate i hmem ⟨hsource, hnot⟩
      · intro hall
        have hfirst := hall first at' hfirst
        refine ⟨⟨⟨?_, ?_⟩, ?_⟩, ?_⟩
        · by_contra hurl
          exact hfirst (.inl (.inl hurl))
        · by_contra hterms
          exact hfirst (.inl (.inr (Bool.not_eq_true _ ▸ hterms)))
        · exact fun hlistener certificate i hmem hsource =>
            hall certificate i hmem (.inr ⟨hsource, .inl hlistener⟩)
        · exact fun certificate i hmem hwildcard =>
            hall certificate i hmem (.inr ⟨hwildcard.1, .inr hwildcard.2⟩)

/-- What is found under the identity of a certificate is the certificate. -/
theorem Accepted.find_certificate (h : Accepted config) {certificate : Certificate}
    (hmem : certificate ∈ config.certificates) :
    (config.certificates.find? fun held => held.id = certificate.id) = some certificate := by
  have hids := (checkDuplicateIds_eq_nil.mp h.duplicateIds).certificates
  have hnodup : (config.certificates.map fun held => held.id).Nodup :=
    List.Nodup.of_map CertificateId.asStr (by rwa [List.map_map])
  exact (Keyed.find?_eq_some hnodup).mpr ⟨hmem, rfl⟩

/-- The warnings about one certificate are about that certificate. -/
theorem Accepted.unfaulted_iff (h : Accepted config) {certificate : Certificate}
    (hmem : certificate ∈ config.certificates) (hacme : isAcme certificate.source) :
    acmeFaults config (some certificate.id) = [] ↔ ¬ Blocked config certificate := by
  rw [acmeFaults_eq_nil]
  constructor
  · intro hall
    obtain ⟨i, hi⟩ := exists_mem_orderedCertificates.mpr
      ⟨hmem, (by simp : (some certificate.id).all fun wanted => certificate.id = wanted), hacme⟩
    exact hall certificate i hi
  · intro hnot other i hother hblocked
    obtain ⟨hin, hsame, -⟩ := exists_mem_orderedCertificates.mp ⟨i, hother⟩
    have hsame : other.id = certificate.id := by simpa using hsame
    have hfound := h.find_certificate hin
    rw [hsame, h.find_certificate hmem] at hfound
    obtain rfl := Option.some.inj hfound
    exact hnot hblocked

/-- There are no warnings at all exactly when there are none about any of the certificates. -/
theorem unfaulted_all_iff : acmeFaults config none = [] ↔
    ∀ certificate ∈ config.certificates, isAcme certificate.source →
      acmeFaults config (some certificate.id) = [] := by
  simp only [acmeFaults_eq_nil]
  constructor
  · intro hall certificate _ _ other i hother
    obtain ⟨hplace, -, hacme⟩ := mem_orderedCertificates.mp hother
    exact hall other i (mem_orderedCertificates.mpr ⟨hplace, rfl, hacme⟩)
  · intro hall certificate i hmem
    obtain ⟨hplace, -, hacme⟩ := mem_orderedCertificates.mp hmem
    refine hall certificate (List.mem_of_getElem? hplace) hacme certificate i ?_
    exact mem_orderedCertificates.mpr ⟨hplace, by simp, hacme⟩

end EkEk.Validation

namespace EkEk.Program.Order

open Validation Tls

variable {config : Config} {order : Order}

/-- Where the challenge of a certificate that is not blocked is asked for. -/
theorem exists_boundFor (h : Accepted config) {certificate : Certificate} {kind : Challenge}
    (hkind : challengeOf certificate.source = some kind) (hfree : ¬ Blocked config certificate) :
    ∃ bound, boundFor config kind = .ok bound := by
  cases kind with
  | dns01 => exact ⟨none, rfl⟩
  | http01 =>
    have hsource : certificate.source = .acmeHttp01 := by
      cases hsource : certificate.source with
      | acmeHttp01 => rfl
      | acmeDns01 provider =>
        rw [hsource] at hkind
        cases hkind
      | manualUpload =>
        rw [hsource] at hkind
        cases hkind
    obtain ⟨listener, hlistener⟩ := Option.ne_none_iff_exists'.mp fun hnone =>
      hfree (.inr (.inr ⟨hsource, .inl hnone⟩))
    have hfrontend : listener ∈ config.frontends := List.mem_of_find?_eq_some hlistener
    obtain ⟨vip, hvip, hid⟩ :=
      (checkFrontendReferences_eq_nil.mp h.frontendReferences listener hfrontend).vip
    obtain ⟨bound, hbound⟩ := Option.isSome_iff_exists.mp
      (List.find?_isSome.mpr ⟨vip, hvip, decide_eq_true hid⟩ :
        (config.vips.find? fun vip => vip.id = listener.vip).isSome)
    refine ⟨some (bound.address, listener.port), ?_⟩
    rw [boundFor, hlistener, Checked.found_some, Checked.ok_bind, hbound, Checked.found_some,
      Checked.ok_bind]

/-- Nothing in the document stops an order for a certificate exactly when the certificate covers a name and
is not blocked. -/
theorem exists_wanted_iff (h : Accepted config) (hconfig : order.config = config)
    {certificate : Certificate} (hmem : certificate ∈ config.certificates)
    (hid : order.id = certificate.id) (hacme : isAcme certificate.source) :
    (∃ checked, wanted order = .ok checked) ↔
      certificate.sniNames ≠ [] ∧ ¬ Blocked config certificate := by
  have hheld : Tls.held config certificate.id = some certificate := h.find_certificate hmem
  obtain ⟨kind, hkind⟩ : ∃ kind, challengeOf certificate.source = some kind := by
    cases hsource : certificate.source with
    | acmeHttp01 => exact ⟨.http01, rfl⟩
    | acmeDns01 provider => exact ⟨.dns01, rfl⟩
    | manualUpload =>
      rw [hsource] at hacme
      cases hacme
  simp only [wanted, hconfig, hid, hheld, hkind, Checked.found_some, Checked.ok_bind,
    Checked.bind_eq_ok, Checked.ensure_eq_ok, Checked.found_eq_ok, h.unfaulted_iff hmem hacme]
  constructor
  · rintro ⟨checked, -, hnames, -, hfree, -⟩
    exact ⟨hnames, hfree⟩
  · rintro ⟨hnames, hfree⟩
    obtain ⟨settings, hsettings⟩ := Option.ne_none_iff_exists'.mp fun hnone => hfree (.inl hnone)
    obtain ⟨bound, hbound⟩ := exists_boundFor h hkind hfree
    exact ⟨_, (), hnames, (), hfree, settings, hsettings, bound, hbound, rfl⟩

/-- Where something in the document stops an order, nothing is done. -/
theorem obtainOrder_stopped {Key : Type} (out : Outside Key) {failure : Failure}
    (hstopped : wanted order = .error failure) (replies : Replies) (state : Option Store.Snapshot) :
    obtainOrder out order replies state = ⟨some (.error failure), .start state, replies⟩ := by
  have hopening : (opening out order).run (.start state) = (.error failure, .start state) :=
    Acting.bind_of_error (by rw [hstopped]; rfl)
  have hprepare : (prepare out order).run (.start state) = (.error failure, .start state) :=
    Acting.bind_of_error hopening
  rw [obtainOrder, hprepare]

/-- In an accepted document, an order gets past the document exactly when the certificate was not warned
about, if the certificate covers a name or was warned about; and no certificate was warned about exactly
when there is no warning. -/
theorem refused_as_warned_iff (h : validate config = .ok ()) (hconfig : order.config = config)
    {certificate : Certificate} (hmem : certificate ∈ config.certificates)
    (hid : order.id = certificate.id) (hacme : isAcme certificate.source) :
    (((∃ checked, wanted order = .ok checked) ↔ acmeFaults config (some certificate.id) = []) ∧
      (acmeFaults config none = [] ↔ ∀ other ∈ config.certificates, isAcme other.source →
        acmeFaults config (some other.id) = [])) ↔
      certificate.sniNames ≠ [] ∨ Blocked config certificate := by
  have haccepted := validate_eq_ok.mp h
  rw [exists_wanted_iff haccepted hconfig hmem hid hacme, haccepted.unfaulted_iff hmem hacme]
  refine (and_iff_left unfaulted_all_iff).trans ?_
  by_cases hblocked : Blocked config certificate
  · exact iff_of_true ⟨fun hpasses => hpasses.2, fun hfree => absurd hblocked hfree⟩ (.inr hblocked)
  · rw [or_iff_left hblocked, and_iff_left hblocked]
    exact iff_true_right hblocked

/-- A certificate to be ordered over HTTP-01. -/
def ordered (names : List String) : Certificate := ⟨⟨"cert"⟩, names, .acmeHttp01, none, none, none⟩

/-- A document in which everything an order needs is there. -/
def ordering (names : List String) : Config :=
  { oneSite with
    frontends := [{ site with port := http01Port, tls := none }]
    certificates := [ordered names]
    acme := some ⟨"https://acme.example.org/directory", "", true, ""⟩ }

/-- The order for it. -/
def orderFor (names : List String) : Order := ⟨ordering names, .replicated, ⟨"cert"⟩, none⟩

theorem named_as_warned :
    (((∃ checked, wanted (orderFor ["example.org"]) = .ok checked) ↔
        acmeFaults (ordering ["example.org"]) (some ⟨"cert"⟩) = []) ∧
      (acmeFaults (ordering ["example.org"]) none = [] ↔
        ∀ other ∈ (ordering ["example.org"]).certificates, isAcme other.source →
          acmeFaults (ordering ["example.org"]) (some other.id) = [])) ↔
      (ordered ["example.org"]).sniNames ≠ [] ∨
        Blocked (ordering ["example.org"]) (ordered ["example.org"]) := by
  have haccepted : validate (ordering ["example.org"]) = .ok () := by decide +kernel
  exact refused_as_warned_iff haccepted rfl (List.mem_singleton.mpr rfl) rfl rfl

/-- A certificate that covers no name is not warned about, and its order is refused. -/
theorem nameless_is_refused : validate (ordering []) = .ok () ∧
    acmeFaults (ordering []) (some ⟨"cert"⟩) = [] ∧
      wanted (orderFor []) = .error (misconfigured "cert covers no name") :=
  ⟨by decide +kernel, by decide, rfl⟩

end EkEk.Program.Order
