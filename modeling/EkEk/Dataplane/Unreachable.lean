import EkEk.Config.Warnings
import EkEk.Dataplane.Paths

/-!
# Rules that come too late

Reference: `check_unreachable_rules`, `covers`, `host_covers` and `path_covers` of
`crates/ek-ek-config/src/validation.rs`, beside `matches`, `host_matches` and `path_matches` of
`crates/ek-ek-dataplane/src/route.rs`.

A document is warned about a rule whose requests an earlier rule already takes. The warning compares what
the two rules are written with, while requests are compared with each rule on its own. Paths are compared
without regard to case, whatever mode the rules have, because a rule that would come too late in that
mode is worth naming. `reported_comes_too_late` is what such a warning says: were the earlier rule read
in that mode, it would take every request of the later one, and where the mode makes no difference to it
the later rule is never chosen.
-/

namespace EkEk.Dataplane.Route

open Segments Validation

/-- The lower case of a string is that of its parts around a separator, which is no letter and ends
every word. -/
structure LowersAtSlashes (toLowercase : String → String) : Prop where
  empty : toLowercase "" = ""
  slash : ∀ before after,
    toLowercase (before ++ "/" ++ after) = toLowercase before ++ "/" ++ toLowercase after

/-- The place of the rule a request falls under. -/
def selected (toLowercase : String → String) (frontend : Frontend) (host : Option String)
    (path : String) : Option ℕ :=
  frontend.routingRules.findIdx? fun rule =>
    ruleMatches toLowercase rule (host.map stripPort) (normalise path)

variable {toLowercase : String → String}

/-- What happens to a request is what its rule says. -/
theorem decide_eq_selected (frontend : Frontend) (host : Option String) (path : String) :
    decide toLowercase frontend host path =
      match (selected toLowercase frontend host path).bind fun i => frontend.routingRules[i]? with
      | some rule =>
        match rule.action with
        | .proxy backend =>
          .pool backend (rule.requestTimeoutSeconds.getD frontend.requestTimeoutSeconds)
        | .redirect status => .redirect (redirectCode status)
      | none =>
        match frontend.defaultBackend with
        | some backend => .pool backend frontend.requestTimeoutSeconds
        | none => .nowhere := by
  have hfound : frontend.routingRules.find? (fun rule =>
        ruleMatches toLowercase rule (host.map stripPort) (normalise path)) =
      (selected toLowercase frontend host path).bind fun i => frontend.routingRules[i]? :=
    List.find?_eq_bind_findIdx?_getElem?
  exact hfound ▸ rfl

/-! ## Paths -/

theorem LowersAtSlashes.atOrBelow (hlower : LowersAtSlashes toLowercase) {front path : String}
    (h : AtOrBelow '/' front.toList path.toList) :
    AtOrBelow '/' (toLowercase front).toList (toLowercase path).toList := by
  obtain ⟨rest, hpath, rfl | hend | hhead⟩ := h
  · rw [List.append_nil, String.toList_inj] at hpath
    exact hpath ▸ .refl _
  · obtain ⟨before, hfront⟩ := List.getLast?_eq_some_iff.mp hend
    obtain rfl : front = String.ofList before ++ "/" := by
      rw [← String.toList_inj, hfront]
      simp
    obtain rfl : path = String.ofList before ++ "/" ++ String.ofList rest := by
      rw [← String.toList_inj, hpath]
      simp
    have hfront := hlower.slash (String.ofList before) ""
    rw [hlower.empty, String.append_empty, String.append_empty] at hfront
    rw [hlower.slash, hfront]
    exact ⟨_, String.toList_append, .inr (.inl (by simp))⟩
  · obtain ⟨after, rfl⟩ := List.head?_eq_some_iff.mp hhead
    obtain rfl : path = front ++ "/" ++ String.ofList after := by
      rw [← String.toList_inj, hpath]
      simp
    rw [hlower.slash]
    exact ⟨'/' :: (toLowercase (String.ofList after)).toList, by simp, .inr (.inr rfl)⟩

/-- What a prefix takes in either mode it takes without regard to case. -/
theorem LowersAtSlashes.insensitive (hlower : LowersAtSlashes toLowercase) {start path : String}
    {case : PathCase} (h : pathMatches toLowercase start path case = true) :
    pathMatches toLowercase start path .insensitive = true := by
  cases case with
  | insensitive => exact h
  | sensitive =>
    exact pathMatches_insensitive_iff.mpr (hlower.atOrBelow (pathMatches_sensitive_iff.mp h))

theorem pathCovers_iff {earlier later : String} :
    pathCovers toLowercase (some earlier) (some later) = true ↔
      AtOrBelow '/' (toLowercase earlier).toList (toLowercase later).toList :=
  boundary_iff

theorem path_of_covers (hlower : LowersAtSlashes toLowercase) {start later path : String}
    {case : PathCase} (hcovers : pathCovers toLowercase (some start) (some later) = true)
    (h : pathMatches toLowercase later path case = true) :
    pathMatches toLowercase start path .insensitive = true :=
  pathMatches_insensitive_iff.mpr
    ((pathCovers_iff.mp hcovers).trans (pathMatches_insensitive_iff.mp (hlower.insensitive h)))

/-! ## Hosts -/

/-- What a wildcard takes: one label, and what follows it. -/
theorem hostMatches_wildcard {pattern host suffix : String}
    (hpattern : Text.stripPrefix (toLowercase pattern) "*." = some suffix) :
    hostMatches toLowercase pattern host = true ↔
      ∃ label, label ≠ "" ∧ Text.splitOnce (toLowercase host) (· = '.') = some (label, suffix) := by
  rw [hostMatches]
  simp only [hpattern]
  constructor
  · intro h
    split at h
    · rename_i label rest hsplit
      rw [Bool.and_eq_true, decide_eq_true_eq, decide_eq_true_eq] at h
      exact ⟨label, h.1, h.2 ▸ hsplit⟩
    · cases h
  · rintro ⟨label, hlabel, hsplit⟩
    rw [hsplit]
    simpa using hlabel

theorem hostMatches_name {pattern host : String}
    (hpattern : Text.stripPrefix (toLowercase pattern) "*." = none) :
    hostMatches toLowercase pattern host = true ↔ toLowercase pattern = toLowercase host := by
  rw [hostMatches]
  simp only [hpattern, decide_eq_true_eq]

theorem hostCovers_iff {pattern later : String} :
    hostCovers toLowercase (some pattern) (some later) = true ↔
      toLowercase pattern = toLowercase later ∨ ∃ suffix label,
        Text.stripPrefix (toLowercase pattern) "*." = some suffix ∧
          Text.splitOnce (toLowercase later) (· = '.') = some (label, suffix) := by
  rw [hostCovers]
  dsimp only
  rw [Bool.or_eq_true, decide_eq_true_eq]
  cases Text.stripPrefix (toLowercase pattern) "*." with
  | none => simp
  | some suffix => simp [Option.any_eq_true]

/-- A pattern that covers another one takes every host the other takes. -/
theorem host_of_covers {pattern later host : String}
    (hcovers : hostCovers toLowercase (some pattern) (some later) = true)
    (hlabel : (toLowercase later).toList.head? ≠ some '.')
    (h : hostMatches toLowercase later host = true) :
    hostMatches toLowercase pattern host = true := by
  rcases hostCovers_iff.mp hcovers with hsame | ⟨suffix, label, hpattern, hsplit⟩
  · rw [hostMatches, hsame]
    exact h
  · rw [hostMatches_wildcard hpattern]
    obtain ⟨hlater, hdot⟩ := Text.splitOnce_eq_some.mp hsplit
    cases hwild : Text.stripPrefix (toLowercase later) "*." with
    -- two wildcards of one suffix
    | some other =>
      have hstar := stripPrefix_eq_some.mp hwild
      have hother : Text.splitOnce (toLowercase later) (· = '.') = some ("*", other) :=
        Text.splitOnce_eq_some.mpr ⟨hstar, by decide⟩
      obtain ⟨-, rfl⟩ := Prod.mk.inj (Option.some.inj (hsplit.symm.trans hother))
      exact (hostMatches_wildcard hwild).mp h
    | none =>
      rw [← (hostMatches_name hwild).mp h]
      refine ⟨label, ?_, hsplit⟩
      rintro rfl
      exact hlabel (by rw [hlater]; rfl)

/-! ## Rules -/

theorem ruleMatches_iff {rule : RoutingRule} {host : Option String} {path : String} :
    ruleMatches toLowercase rule host path = true ↔
      (∀ pattern, rule.hostPattern = some pattern →
        ∃ name, host = some name ∧ hostMatches toLowercase pattern name = true) ∧
      ∀ start, rule.pathPrefix = some start →
        pathMatches toLowercase start path rule.pathCase = true := by
  rw [ruleMatches, Bool.and_eq_true]
  refine and_congr ?_ ?_
  · cases rule.hostPattern <;> simp [Option.any_eq_true]
  · cases rule.pathPrefix <;> simp

/-- The rule of a pattern that names its first label. -/
def NamesFirstLabel (toLowercase : String → String) (rule : RoutingRule) : Prop :=
  ∀ pattern, rule.hostPattern = some pattern → (toLowercase pattern).toList.head? ≠ some '.'

/-- The mode the paths of two rules are compared in makes no difference to the earlier one: it compares
that way, or names no path, or both are compared as they are written and so is their coverage. -/
def ModeFits (earlier later : RoutingRule) : Prop :=
  earlier.pathPrefix = none ∨ earlier.pathCase = .insensitive ∨
    later.pathCase = .sensitive ∧ pathCovers id earlier.pathPrefix later.pathPrefix = true

theorem hosts_of_covers {earlier later : RoutingRule}
    (hcovers : hostCovers toLowercase earlier.hostPattern later.hostPattern = true)
    (hlabel : NamesFirstLabel toLowercase later) {host : Option String}
    (h : ∀ pattern, later.hostPattern = some pattern →
      ∃ name, host = some name ∧ hostMatches toLowercase pattern name = true) :
    ∀ pattern, earlier.hostPattern = some pattern →
      ∃ name, host = some name ∧ hostMatches toLowercase pattern name = true := by
  intro pattern hpattern
  rw [hpattern] at hcovers
  cases hlater : later.hostPattern with
  | none =>
    rw [hlater] at hcovers
    cases hcovers
  | some wanted =>
    rw [hlater] at hcovers
    obtain ⟨name, hname, hmatches⟩ := h wanted hlater
    exact ⟨name, hname, host_of_covers hcovers (hlabel wanted hlater) hmatches⟩

theorem exists_path_of_covers {lower : String → String} {start : String} {later : Option String}
    (hcovers : pathCovers lower (some start) later = true) : ∃ wanted, later = some wanted := by
  cases later with
  | none => cases hcovers
  | some wanted => exact ⟨wanted, rfl⟩

/-- A rule that covers another one would take each of its requests, were its path compared without
regard to case. -/
theorem matches_of_covers (hlower : LowersAtSlashes toLowercase) {earlier later : RoutingRule}
    (hcovers : covers toLowercase earlier later = true) (hlabel : NamesFirstLabel toLowercase later)
    {host : Option String} {path : String} (h : ruleMatches toLowercase later host path = true) :
    ruleMatches toLowercase { earlier with pathCase := .insensitive } host path = true := by
  obtain ⟨hhosts, hpaths⟩ := ruleMatches_iff.mp h
  obtain ⟨hhost, hpath⟩ := Bool.and_eq_true_iff.mp hcovers
  refine ruleMatches_iff.mpr ⟨hosts_of_covers hhost hlabel hhosts, fun start hstart => ?_⟩
  dsimp only at hstart ⊢
  rw [hstart] at hpath
  obtain ⟨wanted, hwanted⟩ := exists_path_of_covers hpath
  rw [hwanted] at hpath
  exact path_of_covers hlower hpath (hpaths wanted hwanted)

/-- Where the mode makes no difference, it takes them as it is. -/
theorem matches_of_modeFits (hlower : LowersAtSlashes toLowercase) {earlier later : RoutingRule}
    (hcovers : covers toLowercase earlier later = true) (hlabel : NamesFirstLabel toLowercase later)
    (hmode : ModeFits earlier later) {host : Option String} {path : String}
    (h : ruleMatches toLowercase later host path = true) :
    ruleMatches toLowercase earlier host path = true := by
  obtain ⟨hhosts, hpaths⟩ := ruleMatches_iff.mp (matches_of_covers hlower hcovers hlabel h)
  refine ruleMatches_iff.mpr ⟨hhosts, fun start hstart => ?_⟩
  rcases hmode with hnone | hcase | ⟨hcase, hwritten⟩
  · rw [hnone] at hstart
    cases hstart
  · rw [hcase]
    exact hpaths start hstart
  · rw [hstart] at hwritten
    obtain ⟨wanted, hwanted⟩ := exists_path_of_covers hwritten
    rw [hwanted] at hwritten
    have hlater := (ruleMatches_iff.mp h).2 wanted hwanted
    rw [hcase, pathMatches_sensitive_iff] at hlater
    have hstart' : AtOrBelow '/' start.toList path.toList := (pathCovers_iff.mp hwritten).trans hlater
    cases hearlier : earlier.pathCase with
    | sensitive => exact pathMatches_sensitive_iff.mpr hstart'
    | insensitive => exact hpaths start hstart

/-- What a warning about a rule says: an earlier rule would take each of its requests, were its path
compared without regard to case, and where that makes no difference the rule is never chosen. -/
theorem reported_comes_too_late (hlower : LowersAtSlashes toLowercase) {config : Config} {nowUnix : ℤ}
    {place later : ℕ} {frontend : Frontend} {rule : RoutingRule}
    (hfrontend : config.frontends[place]? = some frontend)
    (hrule : frontend.routingRules[later]? = some rule)
    (hreported : ReportsUnreachable toLowercase config nowUnix place later)
    (hlabel : NamesFirstLabel toLowercase rule) :
    ∃ i earlier, i < later ∧ frontend.routingRules[i]? = some earlier ∧
      (∀ host path, ruleMatches toLowercase rule host path = true →
        ruleMatches toLowercase { earlier with pathCase := .insensitive } host path = true) ∧
      (ModeFits earlier rule → ∀ host path, selected toLowercase frontend host path ≠ some later) := by
  obtain ⟨frontend', rule', hfrontend', hrule', earlier, hearlier, hcovers⟩ :=
    reportsUnreachable_iff.mp hreported
  obtain rfl : frontend' = frontend := Option.some.inj (hfrontend'.symm.trans hfrontend)
  obtain rfl : rule' = rule := Option.some.inj (hrule'.symm.trans hrule)
  obtain ⟨i, hi, rfl⟩ := List.mem_take_iff_getElem.mp hearlier
  rw [lt_min_iff] at hi
  refine ⟨i, _, hi.1, List.getElem?_eq_getElem hi.2, fun host path => ?_, fun hmode host path h => ?_⟩
  · exact matches_of_covers hlower hcovers hlabel
  · obtain ⟨hlt, hlater, hbefore⟩ := List.findIdx?_eq_some_iff_getElem.mp h
    have hsame : frontend'.routingRules[later] = rule' :=
      Option.some.inj ((List.getElem?_eq_getElem hlt).symm.trans hrule)
    rw [hsame] at hlater
    exact hbefore i hi.1 (matches_of_modeFits hlower hcovers hlabel hmode hlater)

/-- The lower case of ASCII. -/
def asciiLowercase (s : String) : String := String.ofList (s.toList.map Char.toLower)

theorem lowersAtSlashes_asciiLowercase : LowersAtSlashes asciiLowercase := by
  refine ⟨rfl, fun before after => ?_⟩
  rw [← String.toList_inj]
  simp [asciiLowercase]

/-- The rules of a website, one path behind the other. -/
def pathRules (first second : String) : List RoutingRule :=
  [⟨none, some first, .sensitive, .redirect .permanent, none⟩,
    ⟨none, some second, .sensitive, .proxy ⟨"mail"⟩, none⟩]

/-- A website with two rules. -/
def website (first second : String) : Frontend :=
  Templates.httpsFrontend "web" ⟨"vip"⟩ [] (pathRules first second) ⟨"web"⟩ 30

def websiteConfig (first second : String) : Config :=
  { Config.empty with frontends := [website first second] }

theorem reportsUnreachable_website {first second : String}
    (h : pathCovers asciiLowercase (some first) (some second) = true) :
    ReportsUnreachable asciiLowercase (websiteConfig first second) 0 0 1 :=
  reportsUnreachable_iff.mpr ⟨_, _, rfl, rfl, _, List.mem_singleton_self _, h⟩

theorem owa_auth_comes_too_late :
    ∃ i earlier, i < 1 ∧ (website "/owa" "/owa/auth").routingRules[i]? = some earlier ∧
      (∀ host path, ruleMatches asciiLowercase ⟨none, some "/owa/auth", .sensitive, .proxy ⟨"mail"⟩, none⟩
          host path = true →
        ruleMatches asciiLowercase { earlier with pathCase := .insensitive } host path = true) ∧
      (ModeFits earlier ⟨none, some "/owa/auth", .sensitive, .proxy ⟨"mail"⟩, none⟩ →
        ∀ host path, selected asciiLowercase (website "/owa" "/owa/auth") host path ≠ some 1) := by
  have hreported : ReportsUnreachable asciiLowercase (websiteConfig "/owa" "/owa/auth") 0 0 1 :=
    reportsUnreachable_website (by decide +kernel)
  refine reported_comes_too_late lowersAtSlashes_asciiLowercase rfl rfl hreported ?_
  exact fun pattern h => absurd h (Option.some_ne_none pattern).symm

/-- A rule is warned about that takes what the one before it does not. -/
theorem reported_and_chosen :
    ReportsUnreachable asciiLowercase (websiteConfig "/OWA" "/owa") 0 0 1 ∧
      selected asciiLowercase (website "/OWA" "/owa") none "/owa" = some 1 :=
  ⟨reportsUnreachable_website (by decide +kernel), by decide +kernel⟩

end EkEk.Dataplane.Route
