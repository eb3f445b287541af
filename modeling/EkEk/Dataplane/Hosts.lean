import EkEk.Dataplane.Certs
import EkEk.Dataplane.Proxy
import EkEk.Dataplane.Unreachable

/-!
# One rule written twice

Reference: `Certificates::choose` of `crates/ek-ek-dataplane/src/certs.rs` and `redirect_to_https` of
`crates/ek-ek-dataplane/src/proxy.rs`, beside `host_matches` and `strip_port` of
`crates/ek-ek-dataplane/src/route.rs`.

What a name covers is decided where a handshake picks a certificate and where a request picks a rule, the
first time over maps and the second time over patterns. The two differ on names that begin with a dot: a
rule asks for a label in front of it. What a host is without its port is decided where a request is
routed and where it is redirected, and there the two differ on bracketed literals.
-/

namespace EkEk.Dataplane.Certificates

variable {Loaded : Type} {load : String → CertificateMaterial → Except LoadFailure Loaded}
  {toLowercase : String → String} {config : Config}
  {material : Finmap fun _ : CertificateId => CertificateMaterial}

/-! ## What a frontend offers -/

/-- What becomes of a certificate that is loaded. -/
def loadedAs (load : String → CertificateMaterial → Except LoadFailure Loaded)
    (material : Finmap fun _ : CertificateId => CertificateMaterial) (id : CertificateId) :
    Option Loaded :=
  (material.lookup id).bind fun material => (load id.asStr material).toOption

/-- The names of the certificates that load, each with its certificate. -/
def offers (load : String → CertificateMaterial → Except LoadFailure Loaded) (config : Config)
    (material : Finmap fun _ : CertificateId => CertificateMaterial) (ids : List CertificateId) :
    List (Loaded × String) :=
  ids.flatMap fun id => (loadedAs load material id).toList.flatMap fun certificate =>
    (names config id).map fun name => (certificate, name)

/-- The frontend of a name that certificates are loaded for, the last one if there are several. -/
def terminating (frontends : List Frontend) (name : String) : Option Frontend :=
  frontends.reverse.find? fun frontend =>
    frontend.tls.isSome && frontend.transport = .tcp && frontend.id.asStr = name

/-- The names a frontend of a document offers. -/
def offeredBy (load : String → CertificateMaterial → Except LoadFailure Loaded) (config : Config)
    (material : Finmap fun _ : CertificateId => CertificateMaterial) (name : String) :
    List (Loaded × String) :=
  match (terminating config.frontends name).bind Frontend.tls with
  | some tls => offers load config material tls.certificates
  | none => []

/-- The names that have a key have been filed under it, and nothing else has. -/
structure FiledBy (keyOf : String → Option String) (pairs : List (Loaded × String))
    (filed : Finmap fun _ : String => Loaded) : Prop where
  of_lookup : ∀ key certificate, filed.lookup key = some certificate →
    ∃ name, (certificate, name) ∈ pairs ∧ keyOf name = some key
  mem : ∀ pair ∈ pairs, ∀ key, keyOf pair.2 = some key → key ∈ filed

section

variable {keyOf : String → Option String} {pairs : List (Loaded × String)}
  {filed : Finmap fun _ : String => Loaded} {name : String}

theorem filedBy_nil (keyOf : String → Option String) :
    FiledBy keyOf [] (∅ : Finmap fun _ : String => Loaded) where
  of_lookup := fun key certificate h => absurd h (by simp)
  mem := fun _ h => absurd h List.not_mem_nil

/-- A name without a key is filed nowhere. -/
theorem FiledBy.concat_none (h : FiledBy keyOf pairs filed) (certificate : Loaded)
    (hname : keyOf name = none) : FiledBy keyOf (pairs ++ [(certificate, name)]) filed := by
  constructor
  · intro key other hkey
    obtain ⟨found, hfound, hrest⟩ := h.of_lookup key other hkey
    exact ⟨found, List.mem_append_left _ hfound, hrest⟩
  · intro pair hpair key hkey
    rcases List.mem_append.mp hpair with hearly | hlast
    · exact h.mem pair hearly key hkey
    · obtain rfl := List.mem_singleton.mp hlast
      exact absurd (hkey.symm.trans hname) (Option.some_ne_none _)

/-- A name with a key is filed under it. -/
theorem FiledBy.concat_some (h : FiledBy keyOf pairs filed) (certificate : Loaded) {last : String}
    (hname : keyOf name = some last) :
    FiledBy keyOf (pairs ++ [(certificate, name)]) (filed.insert last certificate) := by
  constructor
  · intro key other hkey
    by_cases heq : key = last
    · subst heq
      rw [Finmap.lookup_insert] at hkey
      obtain rfl := Option.some.inj hkey
      exact ⟨name, List.mem_append_right _ (List.mem_singleton_self _), hname⟩
    · rw [Finmap.lookup_insert_of_ne _ heq] at hkey
      obtain ⟨found, hfound, hrest⟩ := h.of_lookup key other hkey
      exact ⟨found, List.mem_append_left _ hfound, hrest⟩
  · intro pair hpair key hkey
    rw [Finmap.mem_insert]
    rcases List.mem_append.mp hpair with hearly | hlast
    · exact .inr (h.mem pair hearly key hkey)
    · obtain rfl := List.mem_singleton.mp hlast
      exact .inl (Option.some.inj (hkey.symm.trans hname))

/-- Nothing is filed under a key that no name has. -/
theorem FiledBy.lookup_eq_none (h : FiledBy keyOf pairs filed) {key : String} :
    filed.lookup key = none ↔ ∀ pair ∈ pairs, keyOf pair.2 ≠ some key := by
  constructor
  · intro hnone pair hpair hkey
    exact Finmap.lookup_eq_none.mp hnone (h.mem pair hpair key hkey)
  · intro hnobody
    refine Option.eq_none_iff_forall_ne_some.mpr fun certificate hsome => ?_
    obtain ⟨name, hname, hkey⟩ := h.of_lookup key certificate hsome
    exact hnobody _ hname hkey

end

/-- What a name with a star stands in front of. -/
def wildcardKey (toLowercase : String → String) (name : String) : Option String :=
  Text.stripPrefix (toLowercase name) "*."

/-- A name without a star. -/
def exactKey (toLowercase : String → String) (name : String) : Option String :=
  if wildcardKey toLowercase name = none then some (toLowercase name) else none

theorem exactKey_eq_some {name key : String} : exactKey toLowercase name = some key ↔
    toLowercase name = key ∧ Text.stripPrefix key "*." = none := by
  rw [exactKey, wildcardKey]
  split
  · rename_i hplain
    rw [Option.some.injEq]
    exact ⟨fun h => ⟨h, h ▸ hplain⟩, fun h => h.1⟩
  · rename_i hstar
    refine iff_of_false (Option.some_ne_none _).symm ?_
    rintro ⟨rfl, hplain⟩
    exact hstar hplain

/-- The names have been filed, those with a star apart from the others. -/
structure Filed (toLowercase : String → String) (pairs : List (Loaded × String))
    (offered : Offered Loaded) : Prop where
  exact : FiledBy (exactKey toLowercase) pairs offered.exact
  wildcard : FiledBy (wildcardKey toLowercase) pairs offered.wildcard

/-- A certificate is filed under what follows the star, or under the name as it is. -/
theorem file_eq (certificate : Loaded) (offered : Offered Loaded) (name : String) :
    file toLowercase certificate offered name =
      match Text.stripPrefix (toLowercase name) "*." with
      | some suffix => { offered with wildcard := offered.wildcard.insert suffix certificate }
      | none => { offered with exact := offered.exact.insert (toLowercase name) certificate } := by
  cases hstrip : Text.stripPrefix (toLowercase name) "*." with
  | some suffix =>
    have hlist : (toLowercase name).toList = '*' :: '.' :: suffix.toList :=
      Route.stripPrefix_eq_some.mp hstrip
    rw [file, hlist]
    simp only [String.ofList_toList]
  | none =>
    rw [file]
    split
    · rename_i suffix hlist
      have hsome : Text.stripPrefix (toLowercase name) "*." = some (String.ofList suffix) :=
        Route.stripPrefix_eq_some.mpr (by simp [hlist])
      exact absurd (hstrip.symm.trans hsome) (Option.some_ne_none _).symm
    · rw [String.ofList_toList]

theorem filed_nil (toLowercase : String → String) (default : Option Loaded) :
    Filed toLowercase [] ⟨∅, ∅, default⟩ :=
  ⟨filedBy_nil _, filedBy_nil _⟩

variable {pairs : List (Loaded × String)} {offered : Offered Loaded}

/-- The default has no part in it. -/
theorem Filed.default (h : Filed toLowercase pairs offered) (default : Option Loaded) :
    Filed toLowercase pairs { offered with default := default } :=
  ⟨h.exact, h.wildcard⟩

/-- One name more. -/
theorem Filed.concat (h : Filed toLowercase pairs offered) (certificate : Loaded) (name : String) :
    Filed toLowercase (pairs ++ [(certificate, name)]) (file toLowercase certificate offered name) := by
  rw [file_eq]
  cases hstrip : Text.stripPrefix (toLowercase name) "*." with
  | some suffix =>
    have hplain : exactKey toLowercase name = none :=
      if_neg fun hnone => absurd (hstrip.symm.trans hnone) (Option.some_ne_none _)
    exact ⟨h.exact.concat_none certificate hplain, h.wildcard.concat_some certificate hstrip⟩
  | none =>
    have hplain : exactKey toLowercase name = some (toLowercase name) :=
      exactKey_eq_some.mpr ⟨rfl, hstrip⟩
    exact ⟨h.exact.concat_some certificate hplain, h.wildcard.concat_none certificate hstrip⟩

theorem Filed.names (h : Filed toLowercase pairs offered) (certificate : Loaded) (names : List String) :
    Filed toLowercase (pairs ++ names.map fun name => (certificate, name))
      (names.foldl (file toLowercase certificate) offered) := by
  induction names generalizing pairs offered with
  | nil => exact (List.append_nil pairs).symm ▸ h
  | cons name names ih =>
    have hrest := ih (h.concat certificate name)
    rwa [List.append_assoc, List.singleton_append] at hrest

/-! ## What is loaded -/

/-- What has been tried is what becomes of it. -/
def Tried (load : String → CertificateMaterial → Except LoadFailure Loaded)
    (material : Finmap fun _ : CertificateId => CertificateMaterial) (loading : Loading Loaded) : Prop :=
  ∀ id tried, loading.loaded.lookup id = some tried → tried = loadedAs load material id

theorem Tried.insert {loading : Loading Loaded} (h : Tried load material loading) {id : CertificateId}
    {result : Option Loaded} (hresult : result = loadedAs load material id)
    (failures : List (String × LoadFailure)) :
    Tried load material ⟨loading.loaded.insert id result, failures⟩ := by
  intro other tried hlookup
  by_cases heq : other = id
  · subst heq
    rw [Finmap.lookup_insert] at hlookup
    exact Option.some.inj hlookup ▸ hresult
  · rw [Finmap.lookup_insert_of_ne _ heq] at hlookup
    exact h other tried hlookup

/-- Whether a certificate was tried before makes no difference. -/
theorem entry_spec {loading : Loading Loaded} (h : Tried load material loading) (id : CertificateId) :
    Tried load material (entry load material loading id).1 ∧
      (entry load material loading id).2 = loadedAs load material id := by
  rw [entry]
  cases htried : loading.loaded.lookup id with
  | some tried => exact ⟨h, h id tried htried⟩
  | none =>
    cases hmaterial : material.lookup id with
    | none =>
      have hresult : none = loadedAs load material id := by rw [loadedAs, hmaterial]; rfl
      exact ⟨h.insert hresult _, hresult⟩
    | some found =>
      cases hload : load id.asStr found with
      | error failure =>
        have hresult : none = loadedAs load material id := by
          rw [loadedAs, hmaterial, Option.bind_some, hload]
          rfl
        simp only [hload]
        exact ⟨h.insert hresult _, hresult⟩
      | ok certificate =>
        have hresult : some certificate = loadedAs load material id := by
          rw [loadedAs, hmaterial, Option.bind_some, hload]
          rfl
        simp only [hload]
        exact ⟨h.insert hresult _, hresult⟩

theorem offer_spec {tls : TlsSettings} {held : Loading Loaded × Offered Loaded}
    (htried : Tried load material held.1) (hfiled : Filed toLowercase pairs held.2)
    (id : CertificateId) :
    Tried load material (offer load toLowercase config material tls held id).1 ∧
      Filed toLowercase (pairs ++ offers load config material [id])
        (offer load toLowercase config material tls held id).2 := by
  have hspec := entry_spec htried id
  rw [offer, offers, List.flatMap_singleton]
  generalize entry load material held.1 id = loaded at hspec ⊢
  obtain ⟨loading, result⟩ := loaded
  obtain ⟨htried', hresult⟩ : Tried load material loading ∧ result = loadedAs load material id := hspec
  rw [← hresult]
  rcases result with _ | certificate
  · exact ⟨htried', (List.append_nil pairs).symm ▸ hfiled⟩
  · have hnames := hfiled.names certificate (names config id)
    refine ⟨htried', ?_⟩
    rw [Option.toList_some, List.flatMap_singleton]
    dsimp only
    split
    · exact hnames.default (some certificate)
    · exact hnames

theorem offers_fold (config : Config) (tls : TlsSettings) (ids : List CertificateId)
    {held : Loading Loaded × Offered Loaded} (htried : Tried load material held.1)
    (hfiled : Filed toLowercase pairs held.2) :
    Tried load material (ids.foldl (offer load toLowercase config material tls) held).1 ∧
      Filed toLowercase (pairs ++ offers load config material ids)
        (ids.foldl (offer load toLowercase config material tls) held).2 := by
  induction ids generalizing pairs held with
  | nil => exact ⟨htried, (List.append_nil pairs).symm ▸ hfiled⟩
  | cons id ids ih =>
    obtain ⟨htried', hfiled'⟩ := offer_spec htried hfiled id
    have hrest := ih htried' hfiled'
    rw [offers, List.flatMap_cons, ← List.append_assoc]
    rwa [offers, List.flatMap_singleton] at hrest

/-! ## What is filed for every frontend -/

/-- The settings of the frontend of a name, with one frontend more. -/
theorem tls_terminating_concat (frontends : List Frontend) (last : Frontend) (name : String) :
    (terminating (frontends ++ [last]) name).bind Frontend.tls =
      if last.transport = .tcp ∧ last.tls.isSome ∧ name = last.id.asStr then last.tls
      else (terminating frontends name).bind Frontend.tls := by
  rw [terminating, List.reverse_append, List.reverse_singleton, List.singleton_append, List.find?_cons]
  split
  · rename_i h
    simp only [Bool.and_eq_true, decide_eq_true_eq] at h
    rw [if_pos ⟨h.1.2, h.1.1, h.2.symm⟩, Option.bind_some]
  · rename_i h
    rw [if_neg, terminating]
    rintro ⟨htcp, htls, rfl⟩
    simp [htcp, htls] at h

/-- What is filed for a frontend is what it offers. -/
def Serves (toLowercase : String → String)
    (load : String → CertificateMaterial → Except LoadFailure Loaded) (config : Config)
    (material : Finmap fun _ : CertificateId => CertificateMaterial) :
    Option TlsSettings → Option (Offered Loaded) → Prop
  | none, filed => filed = none
  | some tls, filed => ∃ offered, filed = some offered ∧
    Filed toLowercase (offers load config material tls.certificates) offered

theorem frontends_fold (frontends : List Frontend) :
    Tried load material (frontends.foldl (take load toLowercase config material) (⟨∅, []⟩, ∅)).1 ∧
      ∀ name, Serves toLowercase load config material
        ((terminating frontends name).bind Frontend.tls)
        ((frontends.foldl (take load toLowercase config material) (⟨∅, []⟩, ∅)).2.lookup name) := by
  induction frontends using List.reverseRecOn with
  | nil => exact ⟨fun id tried h => absurd h (by simp), fun name => by simp [Serves, terminating]⟩
  | append_singleton frontends last ih =>
    rw [List.foldl_append, List.foldl_cons, List.foldl_nil]
    generalize frontends.foldl (take load toLowercase config material) (⟨∅, []⟩, ∅) = held at ih ⊢
    obtain ⟨htried, hserves⟩ := ih
    simp only [tls_terminating_concat]
    rw [take]
    cases htls : last.tls with
    | none =>
      refine ⟨htried, fun name => ?_⟩
      rw [if_neg (by simp)]
      exact hserves name
    | some tls =>
      by_cases htcp : last.transport = .tcp
      · have hnew : Tried load material (held.1, (⟨∅, ∅, none⟩ : Offered Loaded)).1 := htried
        obtain ⟨htried', hfiled⟩ := offers_fold config tls tls.certificates hnew
          (filed_nil toLowercase none)
        dsimp only
        rw [if_neg (by simp [htcp])]
        refine ⟨htried', fun name => ?_⟩
        by_cases hname : name = last.id.asStr
        · rw [if_pos ⟨htcp, rfl, hname⟩, hname, Finmap.lookup_insert]
          exact ⟨_, rfl, hfiled⟩
        · rw [if_neg (fun h => hname h.2.2), Finmap.lookup_insert_of_ne _ hname]
          exact hserves name
      · dsimp only
        rw [if_pos htcp]
        refine ⟨htried, fun name => ?_⟩
        rw [if_neg (fun h => htcp h.1)]
        exact hserves name

/-! ## Choosing and matching -/

/-- The certificate of a frontend that a name is covered by, exactly or by a wildcard. -/
def matched (toLowercase : String → String) (certificates : Certificates Loaded) (frontend name : String) :
    Option Loaded :=
  (certificates.byFrontend.lookup frontend).bind fun offered => named offered (toLowercase name)

/-- What a frontend serves where nothing covers the name. -/
def fallback (certificates : Certificates Loaded) (frontend : String) : Option Loaded :=
  (certificates.byFrontend.lookup frontend).bind Offered.default

/-- A certificate is matched only for a name that a rule would find covered, and none is matched only
where a rule would find nothing. -/
def Agrees (toLowercase : String → String) (pairs : List (Loaded × String)) (name : String)
    (matched : Option Loaded) : Prop :=
  (∀ certificate, matched = some certificate →
    ∃ pattern, (certificate, pattern) ∈ pairs ∧ Route.hostMatches toLowercase pattern name = true) ∧
  (matched = none ↔ ∀ pair ∈ pairs, ¬ Route.hostMatches toLowercase pair.2 name = true)

/-- A name that begins with a dot. There is a wildcard over what follows, and nothing under the name
itself. -/
def Unlabelled (toLowercase : String → String) (pairs : List (Loaded × String)) (name : String) : Prop :=
  ∃ parent, Text.splitOnce (toLowercase name) (· = '.') = some ("", parent) ∧
    (∃ pair ∈ pairs, Text.stripPrefix (toLowercase pair.2) "*." = some parent) ∧
    ∀ pair ∈ pairs, toLowercase pair.2 ≠ toLowercase name

theorem choose_eq (certificates : Certificates Loaded) (frontend name : String) :
    choose toLowercase certificates frontend (some name) =
      (matched toLowercase certificates frontend name).or (fallback certificates frontend) := by
  rw [choose, matched, fallback]
  cases certificates.byFrontend.lookup frontend <;> rfl

theorem stripPrefix_of_dot {s parent : String}
    (h : Text.splitOnce s (· = '.') = some ("", parent)) : Text.stripPrefix s "*." = none := by
  cases hstrip : Text.stripPrefix s "*." with
  | none => rfl
  | some suffix =>
    have hdot := (Text.splitOnce_eq_some.mp h).1
    rw [Route.stripPrefix_eq_some.mp hstrip] at hdot
    exact absurd (List.cons.inj hdot).1 (by decide)

/-- A match that a rule agrees with. -/
theorem agrees_some {certificate : Loaded} {pattern name : String}
    (hmem : (certificate, pattern) ∈ pairs)
    (hmatches : Route.hostMatches toLowercase pattern name = true) :
    Agrees toLowercase pairs name (some certificate) :=
  ⟨fun _ heq => ⟨pattern, Option.some.inj heq ▸ hmem, hmatches⟩,
    iff_of_false (Option.some_ne_none _) fun hnone => hnone _ hmem hmatches⟩

/-- No match, and no rule. -/
theorem agrees_none {name : String}
    (hnone : ∀ pair ∈ pairs, ¬ Route.hostMatches toLowercase pair.2 name = true) :
    Agrees toLowercase pairs name (none : Option Loaded) :=
  ⟨fun _ h => absurd h (Option.some_ne_none _).symm, iff_of_true rfl hnone⟩

/-- A rule finds a name covered under itself or by a wildcard over what follows its first label. -/
theorem not_hostMatches {name : String}
    (hexact : ∀ pair ∈ pairs, toLowercase pair.2 = toLowercase name →
      Text.stripPrefix (toLowercase name) "*." ≠ none)
    (hwildcard : ∀ label parent, Text.splitOnce (toLowercase name) (· = '.') = some (label, parent) →
      label ≠ "" → ∀ pair ∈ pairs, Text.stripPrefix (toLowercase pair.2) "*." ≠ some parent) :
    ∀ pair ∈ pairs, ¬ Route.hostMatches toLowercase pair.2 name = true := by
  intro pair hpair hmatches
  cases hstrip : Text.stripPrefix (toLowercase pair.2) "*." with
  | none =>
    have hsame := (Route.hostMatches_name hstrip).mp hmatches
    exact hexact pair hpair hsame (hsame ▸ hstrip)
  | some suffix =>
    obtain ⟨label, hlabel, hsplit⟩ := (Route.hostMatches_wildcard hstrip).mp hmatches
    exact hwildcard label suffix hsplit hlabel pair hpair hstrip

/-- A name without a dot has a label. -/
theorem not_unlabelled_of_none {name : String}
    (hsplit : Text.splitOnce (toLowercase name) (· = '.') = none) : ¬ Unlabelled toLowercase pairs name := by
  rintro ⟨parent, hsome, -⟩
  exact absurd (hsplit.symm.trans hsome) (Option.some_ne_none _).symm

/-- Whether a name has a label is whether anything stands in front of its first dot. -/
theorem unlabelled_iff {name label parent : String}
    (hsplit : Text.splitOnce (toLowercase name) (· = '.') = some (label, parent)) :
    Unlabelled toLowercase pairs name ↔ label = "" ∧
      (∃ pair ∈ pairs, Text.stripPrefix (toLowercase pair.2) "*." = some parent) ∧
        ∀ pair ∈ pairs, toLowercase pair.2 ≠ toLowercase name := by
  constructor
  · rintro ⟨parent', hsome, hrest⟩
    obtain ⟨rfl, rfl⟩ := Prod.mk.inj (Option.some.inj (hsplit.symm.trans hsome))
    exact ⟨rfl, hrest⟩
  · rintro ⟨rfl, hrest⟩
    exact ⟨parent, hsplit, hrest⟩

/-- What is matched agrees with the rules unless the name has nothing in front of its first dot. -/
theorem Filed.agrees_iff (h : Filed toLowercase pairs offered) (name : String) :
    Agrees toLowercase pairs name (named offered (toLowercase name)) ↔
      ¬ Unlabelled toLowercase pairs name := by
  rw [named]
  cases hexact : offered.exact.lookup (toLowercase name) with
  | some certificate =>
    obtain ⟨pattern, hmem, hkey⟩ := h.exact.of_lookup _ certificate hexact
    obtain ⟨hsame, hstrip⟩ := exactKey_eq_some.mp hkey
    refine iff_of_true (agrees_some hmem ?_) fun hunlabelled => ?_
    · exact (Route.hostMatches_name (hsame ▸ hstrip)).mpr hsame
    · obtain ⟨_, -, -, hnobody⟩ := hunlabelled
      exact hnobody _ hmem hsame
  | none =>
    have hnobody : ∀ pair ∈ pairs, toLowercase pair.2 = toLowercase name →
        Text.stripPrefix (toLowercase name) "*." ≠ none := fun pair hpair hsame hstrip =>
      h.exact.lookup_eq_none.mp hexact pair hpair (exactKey_eq_some.mpr ⟨hsame, hstrip⟩)
    dsimp only
    rw [parentOf]
    cases hsplit : Text.splitOnce (toLowercase name) (· = '.') with
    | none =>
      refine iff_of_true (agrees_none (not_hostMatches hnobody ?_)) (not_unlabelled_of_none hsplit)
      exact fun _ _ hsome => absurd (hsplit.symm.trans hsome) (Option.some_ne_none _).symm
    | some parts =>
      obtain ⟨label, parent⟩ := parts
      have hparts : ∀ {label' parent'}, Text.splitOnce (toLowercase name) (· = '.') =
          some (label', parent') → label = label' ∧ parent = parent' :=
        fun hsome => Prod.mk.inj (Option.some.inj (hsplit.symm.trans hsome))
      rw [unlabelled_iff hsplit, Option.map_some, Option.bind_some]
      cases hwildcard : offered.wildcard.lookup parent with
      | none =>
        have hfree := h.wildcard.lookup_eq_none.mp hwildcard
        refine iff_of_true (agrees_none (not_hostMatches hnobody fun label' parent' hsome _ => ?_)) ?_
        · exact (hparts hsome).2 ▸ hfree
        · rintro ⟨-, ⟨pair, hpair, hstrip⟩, -⟩
          exact hfree pair hpair hstrip
      | some certificate =>
        obtain ⟨pattern, hmem, hstrip⟩ := h.wildcard.of_lookup parent certificate hwildcard
        by_cases hlabel : label = ""
        · have hnot := not_hostMatches hnobody fun label' parent' hsome hne =>
            absurd ((hparts hsome).1.symm.trans hlabel) hne
          refine iff_of_false ?_ (not_not_intro ⟨hlabel, ⟨_, hmem, hstrip⟩, ?_⟩)
          · rintro ⟨-, hnone⟩
            exact absurd (hnone.mpr hnot) (Option.some_ne_none _)
          · subst hlabel
            exact fun pair hpair hsame => hnobody pair hpair hsame (stripPrefix_of_dot hsplit)
        · refine iff_of_true (agrees_some hmem ?_) fun hunlabelled => hlabel hunlabelled.1
          exact (Route.hostMatches_wildcard hstrip).mpr ⟨label, hlabel, hsplit⟩

/-- A handshake picks a certificate by its names exactly where a rule for one of them would take a
request for the name, for every name but one: a name that begins with a dot is covered by a wildcard
for the handshake and by nothing for the rules. -/
theorem choose_agrees_iff (load : String → CertificateMaterial → Except LoadFailure Loaded)
    (toLowercase : String → String) (config : Config)
    (material : Finmap fun _ : CertificateId => CertificateMaterial) (frontend name : String) :
    choose toLowercase (build load toLowercase config material) frontend (some name) =
      (matched toLowercase (build load toLowercase config material) frontend name).or
        (fallback (build load toLowercase config material) frontend) ∧
    (Agrees toLowercase (offeredBy load config material frontend) name
      (matched toLowercase (build load toLowercase config material) frontend name) ↔
        ¬ Unlabelled toLowercase (offeredBy load config material frontend) name) := by
  refine ⟨choose_eq _ _ _, ?_⟩
  have hserves := (@frontends_fold Loaded load toLowercase config material config.frontends).2 frontend
  have hbuild : (build load toLowercase config material).byFrontend =
      (config.frontends.foldl (take load toLowercase config material) (⟨∅, []⟩, ∅)).2 := rfl
  rw [matched, hbuild, offeredBy]
  cases htls : (terminating config.frontends frontend).bind Frontend.tls with
  | none =>
    rw [htls] at hserves
    rw [show _ = none from hserves, Option.bind_none]
    refine iff_of_true (agrees_none fun _ h => absurd h List.not_mem_nil) ?_
    rintro ⟨_, -, ⟨_, hmem, -⟩, -⟩
    exact absurd hmem List.not_mem_nil
  | some tls =>
    rw [htls] at hserves
    obtain ⟨offered, hlookup, hfiled⟩ := hserves
    rw [hlookup, Option.bind_some]
    exact hfiled.agrees_iff name

/-- A frontend with one certificate, which is for a wildcard. -/
def wildConfig : Config :=
  { Config.empty with
    frontends := [{ plain "web" "one" with
      application := .http
      tls := some ⟨[⟨"wild"⟩], none, .balanced⟩ }]
    certificates := [⟨⟨"wild"⟩, ["*.ornek.com"], .manualUpload, none, none, none⟩] }

/-- Certificates that load under their identity. -/
def wildCertificates : Certificates String :=
  build (fun id _ => .ok id) Route.asciiLowercase wildConfig (Finmap.singleton ⟨"wild"⟩ ⟨"", ""⟩)

/-- A name with nothing in front of its dot: the certificate is presented, and no rule would match. -/
theorem dot_is_presented :
    choose Route.asciiLowercase wildCertificates "web" (some ".ornek.com") = some "wild" ∧
      fallback wildCertificates "web" = none ∧
      Route.hostMatches Route.asciiLowercase "*.ornek.com" ".ornek.com" = false := by
  decide +kernel

end EkEk.Dataplane.Certificates

namespace EkEk.Dataplane.Proxy

/-! ## Dropping the port -/

/-- A host whose port is what follows its first colon: it is no bracketed literal, or one without a colon
in it and with a port or nothing behind it. -/
def Plain (host : String) : Prop :=
  ∀ rest, Text.stripPrefix host "[" = some rest →
    match Text.splitOnce rest (· = ']') with
    | some (inside, after) => ':' ∉ inside.toList ∧ (after = "" ∨ after.toList.head? = some ':')
    | none => ':' ∉ rest.toList

/-- A list stops at the end of its front. -/
theorem takeWhile_append_eq_left_iff {α : Type} {p : α → Bool} {front back : List α} :
    (front ++ back).takeWhile p = front ↔
      (∀ a ∈ front, p a = true) ∧ ∀ a, back.head? = some a → p a = false := by
  constructor
  · intro h
    have hall : ∀ a ∈ front, p a = true := fun a ha => List.mem_takeWhile_imp (h.symm ▸ ha)
    refine ⟨hall, fun a hhead => ?_⟩
    rw [List.takeWhile_append_of_pos hall] at h
    have hnil : back.takeWhile p = [] := List.append_cancel_left (h.trans (List.append_nil front).symm)
    obtain ⟨later, rfl⟩ : ∃ later, back = a :: later := List.head?_eq_some_iff.mp hhead
    by_contra hpass
    rw [List.takeWhile_cons_of_pos (by simpa using hpass)] at hnil
    exact absurd hnil (List.cons_ne_nil _ _)
  · rintro ⟨hall, hstop⟩
    rw [List.takeWhile_append_of_pos hall]
    cases back with
    | nil => exact List.append_nil front
    | cons a later =>
      rw [List.takeWhile_cons_of_neg (by simp [hstop a rfl]), List.append_nil]

theorem notMem_of_splitOnce {s : String} {c : Char} (h : Text.splitOnce s (· = c) = none) :
    c ∉ s.toList := by
  intro hmem
  obtain ⟨before, after, hs, hbefore⟩ := List.eq_append_cons_of_mem hmem
  have hsome : Text.splitOnce s (· = c) = some (String.ofList before, String.ofList after) :=
    Text.splitOnce_eq_some.mpr (by rw [String.toList_ofList, String.toList_ofList]; exact ⟨hs, hbefore⟩)
  exact absurd (h.symm.trans hsome) (Option.some_ne_none _).symm

theorem takeWhile_ne_eq_self {l : List Char} {c : Char} (h : c ∉ l) : l.takeWhile (· ≠ c) = l :=
  List.takeWhile_eq_self_iff.mpr fun d hd => decide_eq_true fun heq : d = c => h (heq ▸ hd)

theorem takeWhile_ne_append {before after : List Char} {c : Char} (h : c ∉ before) :
    (before ++ c :: after).takeWhile (· ≠ c) = before :=
  takeWhile_append_eq_left_iff.mpr ⟨fun d hd => decide_eq_true fun heq : d = c => h (heq ▸ hd),
    fun d hd => by simpa using (Option.some.inj hd).symm⟩

/-- Without a bracket the port is what follows the first colon. -/
theorem toList_stripPort {host : String} (h : Text.stripPrefix host "[" = none) :
    (Route.stripPort host).toList = host.toList.takeWhile (· ≠ ':') := by
  simp only [Route.stripPort, h]
  cases hsplit : Text.splitOnce host (· = ':') with
  | none => exact (takeWhile_ne_eq_self (notMem_of_splitOnce hsplit)).symm
  | some parts =>
    obtain ⟨hhost, hname⟩ := Text.splitOnce_eq_some.mp hsplit
    rw [hhost, takeWhile_ne_append hname]

/-- What a redirect takes for the name. -/
theorem toList_headD_split (host : String) :
    ((Text.split host ':').headD host).toList = host.toList.takeWhile (· ≠ ':') := by
  rw [Text.split]
  by_cases hmem : ':' ∈ host.toList
  · obtain ⟨before, after, hhost, hbefore⟩ := List.eq_append_cons_of_mem hmem
    rw [hhost, List.splitOn_append_cons_self_of_not_mem hbefore, takeWhile_ne_append hbefore]
    exact String.toList_ofList
  · rw [List.splitOn_eq_singleton hmem, takeWhile_ne_eq_self hmem]
    exact String.toList_ofList

/-- What makes a bracketed literal plain. -/
theorem plain_iff {host rest : String} (hstrip : Text.stripPrefix host "[" = some rest) :
    Plain host ↔ match Text.splitOnce rest (· = ']') with
      | some (inside, after) => ':' ∉ inside.toList ∧ (after = "" ∨ after.toList.head? = some ':')
      | none => ':' ∉ rest.toList :=
  ⟨fun h => h rest hstrip, fun h _ hother => Option.some.inj (hstrip.symm.trans hother) ▸ h⟩

/-- The two ways of dropping a port agree on a host exactly if it is plain. -/
theorem headD_split_eq_stripPort_iff (host : String) :
    (Text.split host ':').headD host = Route.stripPort host ↔ Plain host := by
  rw [← String.toList_inj, toList_headD_split]
  cases hstrip : Text.stripPrefix host "[" with
  | none =>
    rw [toList_stripPort hstrip]
    exact iff_of_true rfl fun rest hrest =>
      absurd (hstrip.symm.trans hrest) (Option.some_ne_none rest).symm
  | some rest =>
    have hhost : host.toList = '[' :: rest.toList := Route.stripPrefix_eq_some.mp hstrip
    rw [plain_iff hstrip]
    simp only [Route.stripPort, hstrip]
    cases hsplit : Text.splitOnce rest (· = ']') with
    | none =>
      dsimp only
      rw [List.takeWhile_eq_self_iff, hhost]
      constructor
      · exact fun hall hmem => of_decide_eq_true (hall ':' (List.mem_cons_of_mem _ hmem)) rfl
      · intro hnone c hc
        rcases List.mem_cons.mp hc with rfl | hmem
        · rfl
        · exact decide_eq_true fun heq : c = ':' => hnone (heq ▸ hmem)
    | some parts =>
      obtain ⟨inside, after⟩ := parts
      obtain ⟨hrest, -⟩ := Text.splitOnce_eq_some.mp hsplit
      have hfront : ("[" ++ inside ++ "]").toList = '[' :: inside.toList ++ [']'] := by simp
      have hwhole : host.toList = ('[' :: inside.toList ++ [']']) ++ after.toList := by
        rw [hhost, hrest]
        simp
      dsimp only
      rw [hfront, hwhole, takeWhile_append_eq_left_iff]
      refine and_congr ⟨fun hall hmem => ?_, fun hnone c hc => ?_⟩ ?_
      · exact of_decide_eq_true (hall ':' (by simp [hmem])) rfl
      · simp only [List.cons_append, List.mem_cons, List.mem_append, List.not_mem_nil, or_false] at hc
        rcases hc with rfl | hmem | rfl
        · rfl
        · exact decide_eq_true fun heq : c = ':' => hnone (heq ▸ hmem)
        · rfl
      · rw [← String.toList_eq_nil_iff]
        cases after.toList with
        | nil => simp
        | cons c later => simp

/-! ## The Location of a redirect -/

/-- A redirect has the place in its Location that it was made for. -/
theorem redirectToHttps_eq_some {request : Request} {code : ℕ} {answer : Answer}
    (h : redirectToHttps request code = some answer) :
    ∃ host, (getHeader request.headers "host").bind toStr = some host ∧
      getHeader answer.headers "location" = some (Text.bytes
        ("https://" ++ (Text.split host ':').headD host ++ request.pathAndQuery.getD "/")) := by
  obtain ⟨host, hhost, hanswer⟩ := Option.bind_eq_some_iff.mp h
  refine ⟨host, hhost, ?_⟩
  dsimp only at hanswer
  split at hanswer
  · obtain rfl := Option.some.inj hanswer
    rfl
  · cases hanswer

/-- Nothing that is answered without a member has a Location but a redirect. -/
theorem arrive_location {toLowercase : String → String} {processId : ℕ} {frontend : FrontendId}
    {request : Request} {live : Live} {shared : Shared} {ctx : Context} {answer : Answer}
    {location : List UInt8}
    (h : (arrive toLowercase processId frontend request live shared).2 = .answered ctx answer)
    (hlocation : getHeader answer.headers "location" = some location) :
    ∃ code, redirectToHttps request code = some answer := by
  -- every answer but the redirect is without one
  have hbare : ∀ status, answer ≠ bare status := by
    rintro status rfl
    cases hlocation
  have hchallenge : ∀ value, answer ≠ challengeAnswer value := by
    rintro value rfl
    cases hlocation
  have hinj : ∀ {ctx' : Context} {answer' : Answer},
      Progress.answered ctx' answer' = .answered ctx answer → answer = answer' :=
    fun heq => (Progress.answered.inj heq).2.symm
  unfold arrive at h
  dsimp only at h
  cases hfrontend : live.frontend frontend with
  | none =>
    rw [hfrontend] at h
    exact absurd (hinj h) (hbare _)
  | some found =>
    rw [hfrontend] at h
    dsimp only at h
    split at h
    · exact absurd (hinj h) (hbare _)
    · split at h
      · exact absurd (hinj h) (hchallenge _)
      · exact absurd (hinj h) (hbare _)
      · split at h
        · rename_i code _
          have hanswer := hinj h
          cases hredirect : redirectToHttps request code with
          | none =>
            rw [hredirect] at hanswer
            exact absurd hanswer (hbare _)
          | some redirect =>
            rw [hredirect] at hanswer
            exact ⟨code, hanswer ▸ hredirect⟩
        · exact absurd (hinj h) (hbare _)
        · split at h
          · exact absurd (hinj h) (hbare _)
          · cases h

/-- The host in the Location of an answer is the one routing matched on exactly if the Host header is
plain. -/
theorem location_host_iff {toLowercase : String → String} {processId : ℕ} {frontend : FrontendId}
    {request : Request} {live : Live} {shared : Shared} {ctx : Context} {answer : Answer}
    {location : List UInt8}
    (h : (arrive toLowercase processId frontend request live shared).2 = .answered ctx answer)
    (hlocation : getHeader answer.headers "location" = some location) :
    ∃ host, (getHeader request.headers "host").bind toStr = some host ∧
      (location = Text.bytes ("https://" ++ Route.stripPort host ++ request.pathAndQuery.getD "/") ↔
        Plain host) := by
  obtain ⟨code, hredirect⟩ := arrive_location h hlocation
  obtain ⟨host, hhost, hplace⟩ := redirectToHttps_eq_some hredirect
  obtain rfl := Option.some.inj (hplace.symm.trans hlocation)
  refine ⟨host, hhost, Iff.trans ?_ (headD_split_eq_stripPort_iff host)⟩
  constructor
  · intro hsame
    have hlist := congrArg String.toList (Text.bytes_injective hsame)
    rw [String.toList_append, String.toList_append, String.toList_append, String.toList_append] at hlist
    exact String.toList_inj.mp (List.append_cancel_left (List.append_cancel_right hlist))
  · exact fun hsame => by rw [hsame]

/-- A frontend that sends everybody to HTTPS. -/
def toHttps : ConfigUpdate where
  generation := 1
  config := { Config.empty with
    vips := [⟨⟨"one"⟩, .v4 ⟨10, 0, 0, 1⟩, 24, "eth0", none⟩]
    frontends := [{ plain "web" "one" with
      application := .http
      routingRules := [⟨none, none, .insensitive, .redirect .permanent, none⟩] }] }
  challenges := .empty

/-- A request for the front page of a host. -/
def pageOf (host : String) : Request := ⟨[("host", Text.bytes host)], "/", some "/", none⟩

/-- A host with a port: it is redirected to the host it was routed by. -/
theorem shop_is_kept :
    ∃ host, (getHeader (pageOf "shop.example:8080").headers "host").bind toStr = some host ∧
      (Text.bytes "https://shop.example/" = Text.bytes ("https://" ++ Route.stripPort host ++
          (pageOf "shop.example:8080").pathAndQuery.getD "/") ↔ Plain host) :=
  @location_host_iff Route.asciiLowercase 1 ⟨"web"⟩ (pageOf "shop.example:8080") (.build toHttps)
    ⟨.new, 0, 0, 0⟩ ⟨none, none, none, "1-0", true⟩
    ⟨308, [("location", Text.bytes "https://shop.example/"), ("content-length", Text.bytes "0")], ""⟩ _
    (by rfl) (by rfl)

/-- The Location such a request gets. -/
def locationOf (host : String) : Option (List UInt8) :=
  match (arrive Route.asciiLowercase 1 ⟨"web"⟩ (pageOf host) (.build toHttps) ⟨.new, 0, 0, 0⟩).2 with
  | .answered _ answer => getHeader answer.headers "location"
  | _ => none

/-- A bracketed literal is cut off at its first colon. -/
theorem literal_is_cut :
    Validation.validate toHttps.config = .ok () ∧
      locationOf "[2001:db8::1]:8080" = some (Text.bytes "https://[2001/") ∧
      Route.stripPort "[2001:db8::1]:8080" = "[2001:db8::1]" := by
  decide +kernel

end EkEk.Dataplane.Proxy
