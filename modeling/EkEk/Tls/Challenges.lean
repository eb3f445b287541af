import EkEk.JsonText
import EkEk.Tls.Order

/-!
# What is published while the server checks

Reference: `crates/ek-ek-tls/src/order.rs` (`next`, `published`, `accept`, `abandon`).

A flow publishes the answer to a challenge before it tells the server to check it, and leaves it there
until the order is done. Here a flow goes through the answers of a server together with the challenges it
was given. `moved_of_accept` says what one answer can do, stage by stage; that every stage finds the
fields it reads, and that what was handed over stays published, is read off that.
-/

namespace EkEk.Tls

open Checked

/-- A challenge of an authorization. -/
structure Posed where
  token : String
  identifier : Option String
  url : String
deriving DecidableEq, Repr

/-- The identifier an authorization is for. -/
def identifierOf (document : Value) : Option String :=
  ((document.get "identifier").bind fun identifier => identifier.get "value").bind Value.asStr

namespace Flow

/-- Give up on the order and take the challenge answers away. -/
def abandon (flow : Flow) : Flow :=
  { flow with published := { flow.published with entries := ∅ }, stage := .done }

variable (lib : Libraries)

/-- The challenge of some kind that an authorization poses. -/
def posed (kind : Challenge) (answer : Answer) : Option Posed :=
  (parse lib answer.body).toOption.bind fun document =>
    (((document.get "challenges").bind Value.asArray).bind fun challenges =>
      challenges.find? fun challenge =>
        (challenge.get "type").bind Value.asStr = some kind.wireName).bind fun challenge =>
      ((challenge.get "token").bind Value.asStr).bind fun token =>
        ((challenge.get "url").bind Value.asStr).map fun url =>
          ⟨token, identifierOf document, url⟩

/-- What is published answers a challenge: under its token, or under the name of its identifier. -/
def Answers (flow : Flow) (challenge : Posed) : Prop :=
  match flow.kind with
  | .http01 => ∃ values, flow.published.entries.lookup challenge.token = some values ∧
      keyAuthorization challenge.token flow.thumbprint ∈ values
  | .dns01 => ∃ identifier value values, challenge.identifier = some identifier ∧
      recordValue lib challenge.token flow.thumbprint = .ok value ∧
        flow.published.entries.lookup (challengeName identifier) = some values ∧ value ∈ values

/-- The request that tells the server to check a challenge. -/
def Checks (flow : Flow) (url : String) : Prop := flow.next = some (.send url (some "\x7b\x7d") .account)

/-! ## What an answer does, stage by stage -/

/-- Where a flow goes behind an answer. -/
inductive Moved (flow : Flow) (answer : Answer) : Flow → Prop where
  | directory (directory : Directory) (stage : flow.stage = .directory) :
    Moved flow answer { flow with directory := directory, stage := .nonce }
  | nonce (stage : flow.stage = .nonce) : Moved flow answer { flow with stage := .account }
  | account (account : String) (stage : flow.stage = .account) :
    Moved flow answer
      { flow with account := some account, stage := if flow.resuming then .resume else .order }
  | order (order finalize : String) (waiting : List String) (stage : flow.stage = .order) :
    Moved flow answer { flow with
      order := some order
      finalize := some finalize
      waiting := waiting
      stage := afterwards waiting }
  | resumed (finalize : String) (waiting : List String) (next : Stage) (stage : flow.stage = .resume)
    (where' : next = .finalize ∨ next = .poll ∨ next = afterwards waiting) :
    Moved flow answer { flow with finalize := some finalize, waiting := waiting, stage := next }
  | resumedValid (finalize certificate : String) (waiting : List String) (stage : flow.stage = .resume) :
    Moved flow answer { flow with
      finalize := some finalize
      waiting := waiting
      certificate := some certificate
      stage := .download }
  | proven (stage : flow.stage = .authorization) :
    Moved flow answer { flow with waiting := flow.waiting.tail, stage := afterwards flow.waiting.tail }
  | given (challenge : Posed) (published : Publication) (stage : flow.stage = .authorization)
    (read : posed lib flow.kind answer = some challenge) (own : published.kind = some flow.kind)
    (answered : Answers lib { flow with published := published } challenge)
    (others : ∀ other, Answers lib flow other → Answers lib { flow with published := published } other) :
    Moved flow answer { flow with
      waiting := flow.waiting.tail
      published := published
      challenge := some challenge.url
      stage := .accept }
  | handed (stage : flow.stage = .accept) :
    Moved flow answer { flow with challenge := none, stage := afterwards flow.waiting }
  | progress (polls : ℕ) (next : Stage) (stage : flow.stage = .poll ∨ flow.stage = .finalize)
    (where' : next = .finalize ∨ next = .poll) : Moved flow answer { flow with polls := polls, stage := next }
  | valid (polls : ℕ) (certificate : String) (stage : flow.stage = .poll ∨ flow.stage = .finalize) :
    Moved flow answer
      { flow with polls := polls, certificate := some certificate, stage := .download }
  | downloaded (stage : flow.stage = .download) : Moved flow answer { flow with
      chain := some answer.body
      published := { flow.published with entries := ∅ }
      stage := .done }
  | done (stage : flow.stage = .done) : Moved flow answer flow

variable {lib} {flow flow' : Flow} {answer : Answer}

/-- A challenge that is answered besides others leaves their answers there. -/
theorem answers_publishing {document : Value} {token : String} {published : Publication}
    (h : publishing lib flow document token = .ok published) (url : String) :
    Answers lib { flow with published := published } ⟨token, identifierOf document, url⟩ ∧
      ∀ other, Answers lib flow other → Answers lib { flow with published := published } other := by
  rw [publishing] at h
  cases hkind : flow.kind with
  | http01 =>
    rw [hkind] at h
    obtain ⟨-, -, h⟩ := bind_eq_ok.mp h
    obtain rfl := Except.ok.inj h
    simp only [Answers, hkind]
    refine ⟨⟨_, Finmap.lookup_insert _, List.mem_singleton.mpr rfl⟩, ?_⟩
    rintro other ⟨values, hvalues, hvalue⟩
    by_cases hsame : other.token = token
    · rw [hsame]
      exact ⟨_, Finmap.lookup_insert _, List.mem_singleton.mpr rfl⟩
    · exact ⟨values, (Finmap.lookup_insert_of_ne _ hsame).trans hvalues, hvalue⟩
  | dns01 =>
    rw [hkind] at h
    simp only [bind_eq_ok, found_eq_ok] at h
    obtain ⟨identifier, hidentifier, value, hvalue, h⟩ := h
    obtain rfl := Except.ok.inj h
    simp only [Answers, hkind]
    refine ⟨⟨identifier, value, _, hidentifier, hvalue, Finmap.lookup_insert _,
      List.mem_append_right _ (List.mem_singleton.mpr rfl)⟩, ?_⟩
    rintro other ⟨name, held, values, hname, hheld, hvalues, hmem⟩
    by_cases hsame : challengeName name = challengeName identifier
    · rw [hsame] at hvalues
      refine ⟨name, held, values ++ [value], hname, hheld, ?_, List.mem_append_left _ hmem⟩
      rw [hsame, Finmap.lookup_insert, hvalues]
      rfl
    · exact ⟨name, held, values, hname, hheld,
        (Finmap.lookup_insert_of_ne _ hsame).trans hvalues, hmem⟩

theorem moved_of_readAuthorization (h : readAuthorization lib flow answer = .ok flow')
    (hstage : flow.stage = .authorization) : Moved lib flow answer flow' := by
  rw [readAuthorization] at h
  obtain ⟨document, hdocument, h⟩ := bind_eq_ok.mp h
  dsimp only at h
  split at h
  · obtain rfl := Except.ok.inj h
    exact .proven hstage
  · simp only [bind_eq_ok, found_eq_ok, Tls.text] at h
    obtain ⟨challenges, hchallenges, challenge, hchallenge, token, htoken, -, -, published, hpublished, url,
      hurl, h⟩ := h
    obtain rfl := Except.ok.inj h
    have hpublished : publishing lib flow document token = .ok published := hpublished
    have hown := (publishing_eq_ok hpublished).1
    have hanswers := answers_publishing hpublished url
    refine .given ⟨token, identifierOf document, url⟩ published hstage ?_ hown hanswers.1 hanswers.2
    rw [posed, hdocument]
    simp only [Except.toOption, Option.bind_some, hchallenges, hchallenge, htoken, hurl, Option.map_some]

theorem moved_of_readProgress {polls : ℕ}
    (h : readProgress lib { flow with polls := polls, stage := .poll } answer = .ok flow')
    (hstage : flow.stage = .poll ∨ flow.stage = .finalize) : Moved lib flow answer flow' := by
  simp only [readProgress, bind_eq_ok] at h
  obtain ⟨document, -, h⟩ := h
  split at h
  · obtain ⟨certificate, -, h⟩ := bind_eq_ok.mp h
    obtain rfl := Except.ok.inj h
    exact .valid polls certificate hstage
  · obtain rfl := Except.ok.inj h
    exact .progress polls .finalize hstage (.inl rfl)
  · split at h
    · cases h
    · obtain rfl := Except.ok.inj h
      exact .progress (polls + 1) .poll hstage (.inr rfl)
  · split at h
    · cases h
    · obtain rfl := Except.ok.inj h
      exact .progress (polls + 1) .poll hstage (.inr rfl)
  · cases h
  · cases h

theorem moved_of_readResumed (h : readResumed lib flow answer = .ok flow')
    (hstage : flow.stage = .resume) : Moved lib flow answer flow' := by
  simp only [readResumed, bind_eq_ok] at h
  obtain ⟨document, -, finalize, -, waiting, -, h⟩ := h
  split at h
  · obtain ⟨certificate, -, h⟩ := bind_eq_ok.mp h
    obtain rfl := Except.ok.inj h
    exact .resumedValid finalize certificate waiting hstage
  · obtain rfl := Except.ok.inj h
    exact .resumed finalize waiting .finalize hstage (.inl rfl)
  · obtain rfl := Except.ok.inj h
    exact .resumed finalize waiting _ hstage (.inr (.inr rfl))
  · obtain rfl := Except.ok.inj h
    exact .resumed finalize waiting .poll hstage (.inr (.inl rfl))
  · cases h
  · cases h

/-- What an answer that is no refusal can do. -/
theorem moved_of_readAnswer (h : readAnswer lib flow answer = .ok flow') : Moved lib flow answer flow' := by
  rw [readAnswer] at h
  cases hstage : flow.stage with
  | directory =>
    rw [hstage] at h
    simp only [readDirectory, bind_eq_ok] at h
    obtain ⟨document, -, newNonce, -, newAccount, -, newOrder, -, h⟩ := h
    obtain rfl := Except.ok.inj h
    exact .directory ⟨newNonce, newAccount, newOrder⟩ hstage
  | nonce =>
    rw [hstage] at h
    obtain rfl := Except.ok.inj h
    exact .nonce hstage
  | account =>
    rw [hstage] at h
    simp only [readAccount, bind_eq_ok] at h
    obtain ⟨account, -, h⟩ := h
    obtain rfl := Except.ok.inj h
    exact .account account hstage
  | order =>
    rw [hstage] at h
    simp only [readOrder, bind_eq_ok] at h
    obtain ⟨document, -, order, -, finalize, -, waiting, -, h⟩ := h
    obtain rfl := Except.ok.inj h
    exact .order order finalize waiting hstage
  | resume =>
    rw [hstage] at h
    exact moved_of_readResumed h hstage
  | authorization =>
    rw [hstage] at h
    exact moved_of_readAuthorization h hstage
  | accept =>
    rw [hstage] at h
    obtain rfl := Except.ok.inj h
    exact .handed hstage
  | poll =>
    rw [hstage] at h
    refine moved_of_readProgress (?_ : readProgress lib { flow with
      polls := flow.polls, stage := .poll } answer = .ok flow') (.inl hstage)
    rwa [← hstage]
  | finalize =>
    rw [hstage] at h
    exact moved_of_readProgress h (.inr hstage)
  | download =>
    rw [hstage] at h
    dsimp only at h
    split at h
    · cases h
    · obtain rfl := Except.ok.inj h
      exact .downloaded hstage
  | done =>
    rw [hstage] at h
    obtain rfl := Except.ok.inj h
    exact .done hstage

theorem afterwards_cases (waiting : List String) :
    afterwards waiting = .poll ∨ afterwards waiting = .authorization ∧ waiting ≠ [] := by
  rw [afterwards]
  split
  · exact .inl rfl
  · rename_i hwaiting
    exact .inr ⟨rfl, hwaiting⟩

theorem afterwards_ne_accept (waiting : List String) : afterwards waiting ≠ .accept := by
  rcases afterwards_cases waiting with hnext | ⟨hnext, -⟩ <;> rw [hnext] <;> nofun

theorem afterwards_ne_done (waiting : List String) : afterwards waiting ≠ .done := by
  rcases afterwards_cases waiting with hnext | ⟨hnext, -⟩ <;> rw [hnext] <;> nofun

/-- An answer is for the same account and the same challenge as those before it. -/
theorem Moved.same (h : Moved lib flow answer flow') :
    flow'.kind = flow.kind ∧ flow'.thumbprint = flow.thumbprint := by
  cases h <;> exact ⟨rfl, rfl⟩

/-- Nothing comes after the end. -/
theorem Moved.of_done (h : Moved lib flow answer flow') (hdone : flow.stage = .done) :
    flow'.stage = .done := by
  cases h with
  | done => exact hdone
  | progress _ _ hstage | valid _ _ hstage =>
    rcases hstage with hstage | hstage <;> exact absurd (hstage.symm.trans hdone) nofun
  | directory _ hstage | nonce hstage | account _ hstage | order _ _ _ hstage | resumed _ _ _ hstage
  | resumedValid _ _ _ hstage | proven hstage | given _ _ hstage | handed hstage | downloaded hstage =>
    exact absurd (hstage.symm.trans hdone) nofun

/-- What is published stays until the order is done. -/
theorem Moved.answers (h : Moved lib flow answer flow') (hopen : flow'.stage ≠ .done) {challenge : Posed}
    (hanswers : flow.Answers lib challenge) : flow'.Answers lib challenge := by
  cases h with
  | given _ published _ _ _ _ hothers => exact hothers challenge hanswers
  | downloaded => exact absurd rfl hopen
  | _ => exact hanswers

/-- A challenge is at hand once an authorization posed it, and its answer is published by then. -/
theorem Moved.accept (h : Moved lib flow answer flow') (hstage : flow'.stage = .accept) :
    flow.stage = .authorization ∧ flow'.published.kind = some flow'.kind ∧
      ∃ challenge, posed lib flow'.kind answer = some challenge ∧
        flow'.challenge = some challenge.url ∧ flow'.Answers lib challenge := by
  cases h with
  | given challenge published hread hposed hown hanswered _ =>
    exact ⟨hread, hown, challenge, hposed, rfl, hanswered⟩
  | account =>
    dsimp only at hstage
    split at hstage <;> cases hstage
  | order | proven | handed => exact absurd hstage (afterwards_ne_accept _)
  | resumed _ _ _ _ hnext =>
    rcases hnext with rfl | rfl | rfl
    · cases hstage
    · cases hstage
    · exact absurd hstage (afterwards_ne_accept _)
  | progress _ _ _ hnext => rcases hnext with rfl | rfl <;> cases hstage
  | done hdone => exact absurd (hdone.symm.trans hstage) nofun
  | directory | nonce | resumedValid | valid | downloaded => cases hstage

/-- Nothing is published by what is no authorization, and nothing stays published behind the order. -/
theorem Moved.entries (h : Moved lib flow answer flow') (hempty : flow.published.entries = ∅)
    (hstage : flow.stage ≠ .authorization) : flow'.published.entries = ∅ := by
  cases h with
  | given _ _ hread => exact absurd hread hstage
  | downloaded => rfl
  | _ => exact hempty

theorem Moved.finished (h : Moved lib flow answer flow') (hstage : flow'.stage = .done)
    (hdone : flow.stage = .done → flow.published.entries = ∅) : flow'.published.entries = ∅ := by
  cases h with
  | downloaded => rfl
  | done hthere => exact hdone hthere
  | account =>
    dsimp only at hstage
    split at hstage <;> cases hstage
  | order | proven | handed => exact absurd hstage (afterwards_ne_done _)
  | resumed _ _ _ _ hnext =>
    rcases hnext with rfl | rfl | rfl
    · cases hstage
    · cases hstage
    · exact absurd hstage (afterwards_ne_done _)
  | progress _ _ _ hnext => rcases hnext with rfl | rfl <;> cases hstage
  | directory | nonce | resumedValid | valid | given => cases hstage

/-! ## The fields of a stage -/

/-- A stage behind which an order is there. -/
def placed : Stage → Bool
  | .directory | .nonce | .account | .order => false
  | _ => true

/-- Every stage finds the fields it reads. -/
structure Fielded (flow : Flow) : Prop where
  order : flow.resuming ∨ placed flow.stage → flow.order ≠ none
  finalize : placed flow.stage → flow.stage ≠ .resume → flow.finalize ≠ none
  certificate : flow.stage = .download → flow.certificate ≠ none
  challenge : flow.stage = .accept → flow.challenge ≠ none
  waiting : flow.stage = .authorization → flow.waiting ≠ []

/-- Behind what was read of an order, the next stage needs nothing else. -/
theorem fielded_settled (horder : flow.order ≠ none) (hfinalize : flow.finalize ≠ none)
    (hstage : flow.stage = .finalize ∨ flow.stage = .poll) : Fielded flow := by
  refine ⟨fun _ => horder, fun _ _ => hfinalize, fun h => ?_, fun h => ?_, fun h => ?_⟩ <;>
    rcases hstage with hstage | hstage <;> rw [hstage] at h <;> cases h

/-- There is an authorization to be read wherever one is read. -/
theorem fielded_afterwards (horder : flow.order ≠ none) (hfinalize : flow.finalize ≠ none)
    (hstage : flow.stage = afterwards flow.waiting) : Fielded flow := by
  rcases afterwards_cases flow.waiting with hnext | ⟨hnext, hwaiting⟩
  · exact fielded_settled horder hfinalize (.inr (hstage.trans hnext))
  · refine ⟨fun _ => horder, fun _ _ => hfinalize, fun h => ?_, fun h => ?_, fun _ => hwaiting⟩ <;>
      rw [hstage, hnext] at h <;> cases h

theorem Fielded.polled (h : Fielded flow) (hstage : flow.stage = .poll ∨ flow.stage = .finalize) :
    flow.order ≠ none ∧ flow.finalize ≠ none := by
  rcases hstage with hstage | hstage
  · exact ⟨h.order (.inr (hstage ▸ rfl)), h.finalize (hstage ▸ rfl) (hstage ▸ nofun)⟩
  · exact ⟨h.order (.inr (hstage ▸ rfl)), h.finalize (hstage ▸ rfl) (hstage ▸ nofun)⟩

/-- What a stage leaves for the next one. -/
theorem Fielded.moved (h : Fielded flow) (hmoved : Moved lib flow answer flow') : Fielded flow' := by
  have hplaced : placed flow.stage → flow.order ≠ none := fun hplaced => h.order (.inr hplaced)
  cases hmoved with
  | directory directory hstage =>
    exact ⟨fun hthere => h.order (hthere.imp_right nofun), nofun, nofun, nofun, nofun⟩
  | nonce hstage => exact ⟨fun hthere => h.order (hthere.imp_right nofun), nofun, nofun, nofun, nofun⟩
  | account account hstage =>
    cases hresuming : flow.resuming with
    | false => exact ⟨by simp [placed], nofun, nofun, nofun, nofun⟩
    | true =>
      have horder := h.order (.inl hresuming)
      exact ⟨fun _ => horder, fun _ hnot => absurd rfl hnot, nofun, nofun, nofun⟩
  | order order finalize waiting hstage => exact fielded_afterwards nofun nofun rfl
  | resumed finalize waiting next hstage hnext =>
    have horder := hplaced (hstage ▸ rfl)
    rcases hnext with hnext | hnext | hnext
    · exact fielded_settled horder nofun (.inl hnext)
    · exact fielded_settled horder nofun (.inr hnext)
    · exact fielded_afterwards horder nofun hnext
  | resumedValid finalize certificate waiting hstage =>
    exact ⟨fun _ => hplaced (hstage ▸ rfl), fun _ _ => nofun, fun _ => nofun, nofun, nofun⟩
  | proven hstage =>
    exact fielded_afterwards (hplaced (hstage ▸ rfl))
      (h.finalize (hstage ▸ rfl) (hstage ▸ nofun)) rfl
  | given challenge published hstage =>
    exact ⟨fun _ => hplaced (hstage ▸ rfl), fun _ _ => h.finalize (hstage ▸ rfl) (hstage ▸ nofun),
      nofun, fun _ => nofun, nofun⟩
  | handed hstage =>
    exact fielded_afterwards (hplaced (hstage ▸ rfl))
      (h.finalize (hstage ▸ rfl) (hstage ▸ nofun)) rfl
  | progress polls next hstage hnext =>
    have hfields := h.polled hstage
    exact fielded_settled hfields.1 hfields.2 hnext
  | valid polls certificate hstage =>
    have hfields := h.polled hstage
    exact ⟨fun _ => hfields.1, fun _ _ => hfields.2, fun _ => nofun, nofun, nofun⟩
  | downloaded hstage =>
    exact ⟨fun _ => hplaced (hstage ▸ rfl), fun _ _ => h.finalize (hstage ▸ rfl) (hstage ▸ nofun),
      nofun, nofun, nofun⟩
  | done hstage => exact h

/-- A flow that finds its fields has nothing to send exactly when the order is done. -/
theorem Fielded.next_eq_none_iff (h : Fielded flow) : flow.next = none ↔ flow.stage = .done := by
  obtain ⟨horder, hfinalize, hcertificate, hchallenge, hwaiting⟩ := h
  rw [next]
  cases hstage : flow.stage <;> simp_all [placed]

/-- What begins with more than two characters is not the empty object. -/
theorem wrapped_ne_empty {head : String} (h : 2 < head.length) (inner tail : String) :
    head ++ inner ++ tail ≠ "\x7b\x7d" := by
  intro heq
  have hlength : (head ++ inner ++ tail).length = 2 := congrArg String.length heq
  rw [String.length_append, String.length_append] at hlength
  omega

/-- The request that tells the server to check a challenge is the one for the challenge at hand. -/
theorem stage_of_checks {url : String} (h : flow.Checks url) :
    flow.stage = .accept ∧ flow.challenge = some url := by
  rw [Checks, next] at h
  cases hstage : flow.stage with
  | accept =>
    rw [hstage] at h
    obtain ⟨challenge, hchallenge, hask⟩ := Option.map_eq_some_iff.mp h
    obtain ⟨rfl, -, -⟩ := Ask.send.inj hask
    exact ⟨rfl, hchallenge⟩
  | order =>
    rw [hstage] at h
    obtain ⟨-, hpayload, -⟩ := Ask.send.inj (Option.some.inj h)
    exact absurd (Option.some.inj hpayload) (wrapped_ne_empty (by decide) _ _)
  | finalize =>
    rw [hstage] at h
    obtain ⟨finalize, -, hask⟩ := Option.map_eq_some_iff.mp h
    obtain ⟨-, hpayload, -⟩ := Ask.send.inj hask
    exact absurd (Option.some.inj hpayload) (wrapped_ne_empty (by decide) _ _)
  | account =>
    rw [hstage] at h
    obtain ⟨-, -, hidentify⟩ := Ask.send.inj (Option.some.inj h)
    cases hidentify
  | directory | nonce | done =>
    rw [hstage] at h
    cases h
  | resume | authorization | poll | download =>
    rw [hstage] at h
    obtain ⟨found, -, hask⟩ := Option.map_eq_some_iff.mp h
    cases hask

end Flow

/-! ## A flow and its challenges -/

/-- A flow, with the challenge that is to be handed over, those that were, and how many authorizations were
read. -/
structure Course where
  flow : Flow
  asked : Option Posed
  accepted : List Posed
  read : ℕ

namespace Course

/-- A flow no answer has come for. -/
def start (flow : Flow) : Course := ⟨flow, none, [], 0⟩

variable (lib : Libraries)

/-- One answer more. -/
def tell (course : Course) (answer : Answer) : Except Failure Course :=
  (course.flow.accept lib answer).map fun (flow, progress) =>
    if progress = .again then { course with flow := flow }
    else
      { flow := flow
        asked := if flow.stage = .accept then Flow.posed lib flow.kind answer else none
        accepted := course.accepted ++ course.asked.toList
        read := if course.flow.stage = .authorization then course.read + 1 else course.read }

/-- What is published answers the challenge at hand and those that were handed over. -/
structure Sound (course : Course) : Prop where
  fielded : course.flow.Fielded
  answers : course.flow.stage ≠ .done → ∀ challenge ∈ course.accepted ++ course.asked.toList,
    course.flow.Answers lib challenge
  asked : course.flow.stage = .accept → course.flow.published.kind = some course.flow.kind ∧
    ∃ challenge, course.asked = some challenge ∧ course.flow.challenge = some challenge.url
  unread : course.read = 0 → course.flow.published.entries = ∅
  done : course.flow.stage = .done → course.flow.published.entries = ∅

variable {lib} {course course' : Course} {answer : Answer}

/-- An answer changes nothing, or it moves the flow on. -/
theorem tell_eq_ok (h : tell lib course answer = .ok course') : course' = course ∨
    Flow.Moved lib course.flow answer course'.flow ∧
      course'.asked = (if course'.flow.stage = .accept then Flow.posed lib course'.flow.kind answer else none) ∧
        course'.accepted = course.accepted ++ course.asked.toList ∧
          course'.read = if course.flow.stage = .authorization then course.read + 1 else course.read := by
  obtain ⟨⟨flow, progress⟩, haccept, htold⟩ := map_eq_ok.mp h
  rcases Flow.accept_eq_ok haccept with ⟨rfl, rfl⟩ | ⟨hread, rfl⟩
  · exact .inl htold.symm
  · obtain rfl := htold
    exact .inr ⟨Flow.moved_of_readAnswer hread, rfl, rfl, rfl⟩

theorem sound_start {flow : Flow} (hfielded : flow.Fielded) (hstage : flow.stage = .directory)
    (hempty : flow.published.entries = ∅) : Sound lib (start flow) where
  fielded := hfielded
  answers := fun _ _ hmem => absurd hmem List.not_mem_nil
  asked := fun h => by
    rw [start, hstage] at h
    cases h
  unread := fun _ => hempty
  done := fun _ => hempty

theorem Sound.tell (h : Sound lib course) (htell : tell lib course answer = .ok course') :
    Sound lib course' := by
  rcases tell_eq_ok htell with rfl | ⟨hmoved, hasked, haccepted, hread⟩
  · exact h
  refine ⟨h.fielded.moved hmoved, fun hopen challenge hchallenge => ?_, fun hstage => ?_, fun hunread => ?_,
    fun hdone => hmoved.finished hdone h.done⟩
  · have hbefore : course.flow.stage ≠ .done := fun hdone => hopen (hmoved.of_done hdone)
    rw [haccepted] at hchallenge
    rcases List.mem_append.mp hchallenge with hold | hnew
    · exact hmoved.answers hopen (h.answers hbefore challenge hold)
    · rw [hasked] at hnew
      split at hnew
      · rename_i hstage
        obtain ⟨-, -, given, hgiven, -, hanswers⟩ := hmoved.accept hstage
        rw [hgiven] at hnew
        obtain rfl := Option.mem_some.mp (Option.mem_toList.mp hnew)
        exact hanswers
      · cases hnew
  · obtain ⟨-, hkind, given, hgiven, hurl, -⟩ := hmoved.accept hstage
    rw [hasked, if_pos hstage]
    exact ⟨hkind, given, hgiven, hurl⟩
  · rw [hread] at hunread
    split at hunread
    · cases hunread
    · rename_i hstage
      exact hmoved.entries (h.unread hunread) hstage

/-- A flow that places an order or takes one over. -/
inductive Starts : Flow → Prop where
  | placing (directoryUrl : String) (names : List String) (thumbprint contact csr : String)
    (kind : Challenge) : Starts (.new directoryUrl names thumbprint contact csr kind)
  | resuming (directoryUrl : String) (names : List String) (thumbprint contact csr : String)
    (kind : Challenge) (orderUrl : String) :
    Starts (.resume directoryUrl names thumbprint contact csr kind orderUrl)

theorem Starts.sound {flow : Flow} (h : Starts flow) : Sound lib (start flow) := by
  cases h with
  | placing =>
    exact sound_start ⟨(by rintro (h | h) <;> cases h), nofun, nofun, nofun, nofun⟩ rfl rfl
  | resuming => exact sound_start ⟨fun _ => nofun, nofun, nofun, nofun, nofun⟩ rfl rfl

/-- Through all the answers of a server, a course stays sound and a flow keeps its account and its kind. -/
theorem Sound.told (h : Sound lib course) {answers : List Answer}
    (htold : answers.foldlM (Course.tell lib) course = .ok course') : Sound lib course' ∧
      course'.flow.kind = course.flow.kind ∧ course'.flow.thumbprint = course.flow.thumbprint := by
  induction answers generalizing course with
  | nil =>
    obtain rfl := Except.ok.inj htold
    exact ⟨h, rfl, rfl⟩
  | cons answer answers ih =>
    rw [List.foldlM_cons, bind_eq_ok] at htold
    obtain ⟨next, htell, hrest⟩ := htold
    obtain ⟨hsound, hkind, hthumbprint⟩ := ih (h.tell htell) hrest
    have hsame : next.flow.kind = course.flow.kind ∧ next.flow.thumbprint = course.flow.thumbprint := by
      rcases tell_eq_ok htell with rfl | ⟨hmoved, -⟩
      · exact ⟨rfl, rfl⟩
      · exact hmoved.same
    exact ⟨hsound, hkind.trans hsame.1, hthumbprint.trans hsame.2⟩

/-- Whatever a server answers, the answers to the challenge that is to be checked and to those that were
handed over are published, under the flow's own kind, while the server is told to check; before the first
authorization and behind the order nothing is; and there is nothing to send exactly when the order is
done. -/
theorem published_while_checked {flow : Flow} (hstart : Starts flow) {answers : List Answer}
    {course : Course} (h : answers.foldlM (tell lib) (start flow) = .ok course) :
    (∀ url, course.flow.Checks url →
      course.flow.published.kind = some flow.kind ∧
        ∃ challenge, course.asked = some challenge ∧ challenge.url = url ∧
          ∀ given ∈ challenge :: course.accepted, course.flow.Answers lib given) ∧
      (course.flow.kind = flow.kind ∧ course.flow.thumbprint = flow.thumbprint) ∧
      (course.read = 0 → course.flow.published.isEmpty) ∧
      (course.flow.stage = .done → course.flow.published.isEmpty) ∧
      (course.flow.abandon.published.isEmpty ∧ course.flow.abandon.stage = .done) ∧
      (course.flow.next = none ↔ course.flow.stage = .done) := by
  have hfresh : Sound lib (start flow) := hstart.sound
  obtain ⟨hsound, hkind, hthumbprint⟩ := hfresh.told h
  refine ⟨fun url hchecks => ?_, ⟨hkind, hthumbprint⟩, hsound.unread, hsound.done, ⟨rfl, rfl⟩,
    hsound.fielded.next_eq_none_iff⟩
  obtain ⟨hstage, hurl⟩ := Flow.stage_of_checks hchecks
  obtain ⟨hown, challenge, hasked, hchallenge⟩ := hsound.asked hstage
  have hsame : challenge.url = url := Option.some.inj (hchallenge.symm.trans hurl)
  refine ⟨hown.trans (congrArg some hkind), challenge, hasked, hsame, fun given hgiven => ?_⟩
  have hopen : course.flow.stage ≠ .done := fun hdone => absurd (hstage.symm.trans hdone) nofun
  refine hsound.answers hopen given ?_
  rw [hasked]
  rcases List.mem_cons.mp hgiven with rfl | hold
  · exact List.mem_append_right _ (List.mem_singleton.mpr rfl)
  · exact List.mem_append_left _ hold

/-- Documents read as JSON, and no digests. -/
def plainly : Libraries where
  fromStr body := ((Json.fromStr (fun _ => none) body).map Except.ok).getD (.error "expected value")
  sha256 _ := .error "no digest"
  encodeBlock _ := ""
  debug text := "\"" ++ text ++ "\""

/-- The answers up to an authorization whose challenge is still open. -/
def posing : List Answer := [
  ⟨200, "\x7b\"newNonce\":\"/nonce\",\"newAccount\":\"/account\",\"newOrder\":\"/order\"\x7d", none⟩,
  ⟨200, "", none⟩,
  ⟨201, "", some "/account/1"⟩,
  ⟨201, "\x7b\"status\":\"pending\",\"authorizations\":[\"/authorization/1\"],\"finalize\":\"/finalize/1\"\x7d",
    some "/order/1"⟩,
  ⟨200, "\x7b\"status\":\"pending\",\"challenges\":[\x7b\"type\":\"http-01\",\"url\":\"/challenge/1\"," ++
    "\"token\":\"abc\"\x7d]\x7d", none⟩]

theorem posed_is_published :
    ∃ course, posing.foldlM (tell plainly)
        (start (.new "/directory" ["a.example"] "thumbprint" "" "csr" .http01)) = .ok course ∧
      course.flow.Checks "/challenge/1" ∧ course.flow.published.kind = some .http01 ∧
        ∃ challenge, course.asked = some challenge ∧ course.flow.Answers plainly challenge := by
  obtain ⟨course, hcourse, hchecks⟩ : ∃ course, posing.foldlM (tell plainly)
      (start (.new "/directory" ["a.example"] "thumbprint" "" "csr" .http01)) = .ok course ∧
        course.flow.Checks "/challenge/1" := ⟨_, rfl, rfl⟩
  obtain ⟨hpublished, -⟩ := published_while_checked (.placing ..) hcourse
  obtain ⟨hkind, challenge, hasked, -, hanswers⟩ := hpublished _ hchecks
  exact ⟨course, hcourse, hchecks, hkind, challenge, hasked, hanswers challenge List.mem_cons_self⟩

end Course

end EkEk.Tls
