import EkEk.Json
import EkEk.Lib.Checked
import EkEk.Text
import EkEk.Tls.Failure
import Mathlib.Data.Finmap

/-!
# The order flow

Reference: `crates/ek-ek-tls/src/order.rs`, with `key_authorization` and `record_value` of `jws.rs` and
`challenge_name` of `dns/mod.rs`.

A flow decides what to ask an ACME server next and reads what comes back. It opens no socket: `next` is
the request, and `accept` is what an answer makes of the flow. Where an answer ends the order, what the
flow was left as is not kept, because nobody looks at it again.
-/

namespace EkEk.Tls

open Checked

/-- How many times the order is read while waiting for the server. -/
def mostPolls : ℕ := 60

/-- How many times one request is repeated after a rejected nonce. -/
def mostNonceRetries : ℕ := 5

/-- The libraries a flow uses: the JSON parser, a digest and its printing, and how a string is printed
for a programmer. -/
structure Libraries where
  fromStr : String → Except String Value
  sha256 : List UInt8 → Except String (List UInt8)
  encodeBlock : List UInt8 → String
  debug : String → String

/-! ## Challenges and publications -/

/-- Which challenge a flow answers. -/
inductive Challenge where
  | http01
  | dns01
deriving DecidableEq, Repr

/-- The type an ACME server names a challenge with. -/
def Challenge.wireName : Challenge → String
  | .http01 => "http-01"
  | .dns01 => "dns-01"

/-- What has to be reachable while the server checks: answers by their tokens, or the values of records
by their names. -/
structure Publication where
  kind : Option Challenge
  entries : Finmap fun _ : String => List String
deriving DecidableEq

/-- Nothing. -/
def Publication.default : Publication := ⟨none, ∅⟩

/-- Whether there is nothing to publish. -/
def Publication.isEmpty (publication : Publication) : Prop := publication.entries = ∅

instance (publication : Publication) : Decidable publication.isEmpty :=
  inferInstanceAs (Decidable (publication.entries = ∅))

/-- Refuse a publication meant for the other challenge. -/
def Publication.meantFor (publication : Publication) (kind : Challenge) : Except Failure Unit :=
  match publication.kind with
  | some carried =>
    ensure (carried = kind)
      (⟨.protocol, s!"a {carried.wireName} answer cannot be published where a {kind.wireName} answer goes"⟩ :
        Failure)
  | none => .ok ()

/-- What a challenge has to be answered with. -/
def keyAuthorization (token thumbprint : String) : String := s!"{token}.{thumbprint}"

/-- Bytes in the alphabet of JOSE, without padding. -/
def base64url (lib : Libraries) (bytes : List UInt8) : String :=
  String.ofList ((Text.trimEndMatches (lib.encodeBlock bytes) '=').toList.map fun
    | '+' => '-'
    | '/' => '_'
    | other => other)

/-- The value a DNS-01 challenge record carries. -/
def recordValue (lib : Libraries) (token thumbprint : String) : Except Failure String := do
  let digest ← (lib.sha256 (Text.bytes (keyAuthorization token thumbprint))).mapError fun error =>
    (⟨.crypto, s!"the challenge answer could not be digested: {error}"⟩ : Failure)
  .ok (base64url lib digest)

/-- The record name that answers the challenge for one identifier. A wildcard is proven at the name it
stands for. -/
def challengeName (identifier : String) : String :=
  let base := (Text.stripPrefix identifier "*.").getD identifier
  s!"_acme-challenge.{base}"

/-! ## Asks and answers -/

/-- How the account is named in a signed request. -/
inductive Identify where
  | key
  | account
deriving DecidableEq, Repr

/-- What the flow wants sent next. -/
inductive Ask where
  | read (url : String)
  | send (url : String) (payload : Option String) (identify : Identify)
deriving DecidableEq, Repr

/-- What one answer did to the flow. -/
inductive Progress where
  | moved
  | again
deriving DecidableEq, Repr

/-- One answer from the server. -/
structure Answer where
  status : UInt16
  body : String
  location : Option String
deriving DecidableEq, Repr

/-- Where a flow is. -/
inductive Stage where
  | directory
  | nonce
  | account
  | order
  | resume
  | authorization
  | accept
  | poll
  | finalize
  | download
  | done
deriving DecidableEq, Repr

/-- The server's endpoints. -/
structure Directory where
  newNonce : String
  newAccount : String
  newOrder : String
deriving DecidableEq, Repr

/-- One order, from the directory to the certificate. -/
structure Flow where
  stage : Stage
  directoryUrl : String
  names : List String
  thumbprint : String
  contact : String
  csr : String
  directory : Directory
  account : Option String
  order : Option String
  finalize : Option String
  certificate : Option String
  waiting : List String
  challenge : Option String
  kind : Challenge
  published : Publication
  chain : Option String
  polls : ℕ
  resuming : Bool

/-! ## Reading documents -/

section

variable (lib : Libraries)

/-- Read a JSON document, or say the answer was unreadable. -/
def parse (body : String) : Except Failure Value :=
  (lib.fromStr body).mapError fun error =>
    ⟨.protocol, s!"the server sent something that is not JSON: {error}"⟩

/-- Read one string field, or say which one was missing. -/
def text (document : Value) (field : String) : Except Failure String :=
  found ((document.get field).bind Value.asStr) ⟨.protocol, s!"the answer carries no {field}"⟩

/-- The problem type an error document names, if it is one. -/
def problemType (body : String) : Option String :=
  ((lib.fromStr body).toOption.bind fun document => document.get "type").bind Value.asStr

/-- The status a document names. -/
def status (document : Value) : Option String := (document.get "status").bind Value.asStr

/-- The authorizations an order names. -/
def authorizations (document : Value) : Except Failure (List String) :=
  (found ((document.get "authorizations").bind Value.asArray)
    ⟨.protocol, "the order names no authorizations"⟩).map fun urls => urls.filterMap Value.asStr

/-- A status this client does not know. -/
def unknownStatus (other : Option String) : Failure :=
  ⟨.protocol, "the order is in a state this client does not know: " ++
    match other with
    | none => "None"
    | some text => s!"Some({lib.debug text})"⟩

/-- The problem type a server uses for a nonce it will not take. -/
def badNonce : String := "urn:ietf:params:acme:error:badNonce"

/-- What the flow was doing, for a message an operator reads. -/
def kindOf : Stage → String
  | .directory => "reading the directory"
  | .nonce => "collecting a nonce"
  | .account => "creating the account"
  | .order => "placing the order"
  | .resume => "taking over the order"
  | .authorization => "reading an authorization"
  | .accept => "handing over the challenge"
  | .poll => "reading the order"
  | .finalize => "finalising the order"
  | .download => "collecting the certificate"
  | .done => "nothing"

end

/-! ## The flow -/

namespace Flow

/-- Start an order for a set of names. -/
def new (directoryUrl : String) (names : List String) (thumbprint contact csr : String)
    (kind : Challenge) : Flow where
  stage := .directory
  directoryUrl := directoryUrl
  names := names
  thumbprint := thumbprint
  contact := contact
  csr := csr
  directory := ⟨"", "", ""⟩
  account := none
  order := none
  finalize := none
  certificate := none
  waiting := []
  challenge := none
  kind := kind
  published := .default
  chain := none
  polls := 0
  resuming := false

/-- Take over an order a certificate authority already named. -/
def resume (directoryUrl : String) (names : List String) (thumbprint contact csr : String)
    (kind : Challenge) (orderUrl : String) : Flow :=
  { new directoryUrl names thumbprint contact csr kind with order := some orderUrl, resuming := true }

/-- The names, for a message an operator reads. -/
def joinedNames (flow : Flow) : String := ", ".intercalate flow.names

def accountPayload (flow : Flow) : String :=
  if flow.contact = "" then "\x7b\"termsOfServiceAgreed\":true\x7d"
  else s!"\x7b\"termsOfServiceAgreed\":true,\"contact\":[\"mailto:{flow.contact}\"]\x7d"

def orderPayload (flow : Flow) : String :=
  let identifiers := ",".intercalate
    (flow.names.map fun name => s!"\x7b\"type\":\"dns\",\"value\":\"{name}\"\x7d")
  s!"\x7b\"identifiers\":[{identifiers}]\x7d"

/-- What to send next, if the order is not finished. -/
def next (flow : Flow) : Option Ask :=
  match flow.stage with
  | .directory => some (.read flow.directoryUrl)
  | .nonce => some (.read flow.directory.newNonce)
  | .account => some (.send flow.directory.newAccount (some flow.accountPayload) .key)
  | .order => some (.send flow.directory.newOrder (some flow.orderPayload) .account)
  | .resume => flow.order.map fun url => .send url none .account
  | .authorization => flow.waiting.head?.map fun url => .send url none .account
  -- an empty object, which tells the server to start checking
  | .accept => flow.challenge.map fun url => .send url (some "\x7b\x7d") .account
  | .poll => flow.order.map fun url => .send url none .account
  | .finalize => flow.finalize.map fun url =>
    .send url (some s!"\x7b\"csr\":\"{flow.csr}\"\x7d") .account
  | .download => flow.certificate.map fun url => .send url none .account
  | .done => none

variable (lib : Libraries)

/-- Turn a failed answer into something worth logging. -/
def serverSaid (flow : Flow) (answer : Answer) : Failure :=
  let kind := (problemType lib answer.body).getD "no type"
  let detail := (((parse lib answer.body).toOption.bind fun document =>
    document.get "detail").bind Value.asStr).getD ""
  ⟨.server, s!"{answer.status} while {kindOf flow.stage}: {kind} {detail}"⟩

def readDirectory (flow : Flow) (answer : Answer) : Except Failure Flow := do
  let document ← parse lib answer.body
  let newNonce ← text document "newNonce"
  let newAccount ← text document "newAccount"
  let newOrder ← text document "newOrder"
  .ok { flow with directory := ⟨newNonce, newAccount, newOrder⟩, stage := .nonce }

def readAccount (flow : Flow) (answer : Answer) : Except Failure Flow := do
  let account ← found answer.location (⟨.protocol, "the server named no account"⟩ : Failure)
  .ok { flow with account := some account, stage := if flow.resuming then .resume else .order }

/-- The stage behind an authorization, a challenge or an order that was read. -/
def afterwards (waiting : List String) : Stage := if waiting = [] then .poll else .authorization

/-- Read an order this flow did not place. Its own status decides where to go. -/
def readResumed (flow : Flow) (answer : Answer) : Except Failure Flow := do
  let document ← parse lib answer.body
  let finalize ← text document "finalize"
  let waiting ← authorizations document
  let flow := { flow with finalize := some finalize, waiting := waiting }
  match status document with
  | some "valid" =>
    let certificate ← text document "certificate"
    .ok { flow with certificate := some certificate, stage := .download }
  | some "ready" => .ok { flow with stage := .finalize }
  -- the answers have to go back up
  | some "pending" => .ok { flow with stage := afterwards waiting }
  | some "processing" => .ok { flow with stage := .poll }
  | some "invalid" =>
    .error ⟨.challenge,
      s!"the order that was taken over had already failed for {flow.joinedNames}"⟩
  | other => .error (unknownStatus lib other)

def readOrder (flow : Flow) (answer : Answer) : Except Failure Flow := do
  let document ← parse lib answer.body
  let order ← found answer.location (⟨.protocol, "the server named no order"⟩ : Failure)
  let finalize ← text document "finalize"
  let waiting ← authorizations document
  .ok { flow with
    order := some order
    finalize := some finalize
    waiting := waiting
    stage := afterwards waiting }

/-- The publication that answers one more challenge. -/
def publishing (flow : Flow) (document : Value) (token : String) : Except Failure Publication :=
  match flow.kind with
  | .http01 => do
    -- the token becomes the last segment of a path
    ensure ('/' ∉ token.toList)
      (⟨.protocol, "the server sent a token that cannot name a path"⟩ : Failure)
    .ok ⟨some .http01,
      flow.published.entries.insert token [keyAuthorization token flow.thumbprint]⟩
  | .dns01 => do
    let identifier ← found
      (((document.get "identifier").bind fun identifier => identifier.get "value").bind Value.asStr)
      (⟨.protocol, "the authorization names no identifier"⟩ : Failure)
    let value ← recordValue lib token flow.thumbprint
    -- two authorizations may be answered at one name
    let record := challengeName identifier
    .ok ⟨some .dns01, flow.published.entries.insert record
      ((flow.published.entries.lookup record).getD [] ++ [value])⟩

def readAuthorization (flow : Flow) (answer : Answer) : Except Failure Flow := do
  let document ← parse lib answer.body
  let flow := { flow with waiting := flow.waiting.tail }
  if status document = some "valid" then
    .ok { flow with stage := afterwards flow.waiting }
  else
    let challenges ← found ((document.get "challenges").bind Value.asArray)
      (⟨.protocol, "the authorization names no challenges"⟩ : Failure)
    let wanted := flow.kind.wireName
    let challenge ← found
      (challenges.find? fun challenge => (challenge.get "type").bind Value.asStr = some wanted)
      (⟨.challenge, s!"the server offers no {wanted} challenge for this name"⟩ : Failure)
    let token ← text challenge "token"
    ensure (token ≠ "") (⟨.protocol, "the server sent an empty challenge token"⟩ : Failure)
    let published ← publishing lib flow document token
    let url ← text challenge "url"
    .ok { flow with published := published, challenge := some url, stage := .accept }

def readProgress (flow : Flow) (answer : Answer) : Except Failure Flow := do
  let document ← parse lib answer.body
  match status document with
  | some "valid" =>
    let certificate ← text document "certificate"
    .ok { flow with certificate := some certificate, stage := .download }
  | some "ready" => .ok { flow with stage := .finalize }
  | some "pending" | some "processing" =>
    if mostPolls < flow.polls + 1 then
      .error ⟨.network, s!"the server was still deciding after {mostPolls} reads"⟩
    else .ok { flow with polls := flow.polls + 1, stage := .poll }
  | some "invalid" =>
    .error ⟨.challenge, s!"the server refused the challenge for {flow.joinedNames}"⟩
  | other => .error (unknownStatus lib other)

/-- What an answer that is no refusal makes of the flow. -/
def readAnswer (flow : Flow) (answer : Answer) : Except Failure Flow :=
  match flow.stage with
  | .directory => readDirectory lib flow answer
  | .nonce => .ok { flow with stage := .account }
  | .account => readAccount flow answer
  | .order => readOrder lib flow answer
  | .resume => readResumed lib flow answer
  | .authorization => readAuthorization lib flow answer
  | .accept => .ok { flow with challenge := none, stage := afterwards flow.waiting }
  | .poll => readProgress lib flow answer
  -- finalising returns the order again, in whatever state it reached
  | .finalize => readProgress lib { flow with polls := 0, stage := .poll } answer
  | .download =>
    if Text.trim answer.body = "" then
      .error ⟨.protocol, "the server sent an empty certificate"⟩
    else .ok { flow with
      chain := some answer.body
      published := { flow.published with entries := ∅ }
      stage := .done }
  | .done => .ok flow

/-- Feed one answer back into the flow. -/
def accept (flow : Flow) (answer : Answer) : Except Failure (Flow × Progress) :=
  if answer.status = 400 ∧ problemType lib answer.body = some badNonce then .ok (flow, .again)
  else if 400 ≤ answer.status then .error (serverSaid lib flow answer)
  else (readAnswer lib flow answer).map fun flow => (flow, .moved)

/-! ## What an answer does to a flow -/

section

variable {lib : Libraries} {flow flow' : Flow} {answer : Answer}

/-- A publication that answers the flow's own challenge, if it answers any. -/
def PublishesOwn (flow : Flow) : Prop :=
  flow.published.kind = none ∨ flow.published.kind = some flow.kind

/-- What holds between a flow and what an answer makes of it: it goes on with the same challenge, and
what it published stays published until the order is done. -/
structure Continues (flow flow' : Flow) : Prop where
  kind : flow'.kind = flow.kind
  own : flow.PublishesOwn → flow'.PublishesOwn
  grows : flow'.stage ≠ .done → ∀ name ∈ flow.published.entries, name ∈ flow'.published.entries

/-- What an answer does to what a flow published: it stays, a challenge is answered beside the others, or
the order is done and nothing has to be reachable any more. -/
inductive Publishes (flow flow' : Flow) : Prop where
  | same (kind : flow'.kind = flow.kind) (published : flow'.published = flow.published)
  | more (kind : flow'.kind = flow.kind) (own : flow'.published.kind = some flow.kind)
    (grows : ∀ name ∈ flow.published.entries, name ∈ flow'.published.entries)
  | cleared (kind : flow'.kind = flow.kind) (done : flow'.stage = .done)
    (published : flow'.published = { flow.published with entries := ∅ })

/-- Whatever is published is said to answer the flow's own challenge. -/
def NamesItsKind (flow : Flow) : Prop :=
  ¬ flow.published.isEmpty → flow.published.kind = some flow.kind

theorem Publishes.kind (h : Publishes flow flow') : flow'.kind = flow.kind := by
  cases h <;> assumption

theorem Publishes.continues (h : Publishes flow flow') : Continues flow flow' := by
  refine ⟨h.kind, fun hown => ?_, fun hdone name hname => ?_⟩
  · rw [PublishesOwn, h.kind]
    cases h with
    | same _ hpublished => rwa [hpublished]
    | more _ hkind _ => exact .inr hkind
    | cleared _ _ hpublished => rwa [hpublished]
  · cases h with
    | same _ hpublished => rwa [hpublished]
    | more _ _ hgrows => exact hgrows name hname
    | cleared _ hcleared _ => exact absurd hcleared hdone

theorem Publishes.namesItsKind (h : Publishes flow flow') (hnamed : flow.NamesItsKind) :
    flow'.NamesItsKind := by
  intro hopen
  rw [h.kind]
  cases h with
  | same _ hpublished =>
    rw [hpublished] at hopen ⊢
    exact hnamed hopen
  | more _ hkind _ => exact hkind
  | cleared _ _ hpublished =>
    rw [hpublished] at hopen
    exact absurd rfl hopen

theorem publishes_readDirectory (h : readDirectory lib flow answer = .ok flow') :
    Publishes flow flow' := by
  simp only [readDirectory, bind_eq_ok] at h
  obtain ⟨document, -, newNonce, -, newAccount, -, newOrder, -, h⟩ := h
  obtain rfl := Except.ok.inj h
  exact .same rfl rfl

theorem publishes_readAccount (h : readAccount flow answer = .ok flow') : Publishes flow flow' := by
  simp only [readAccount, bind_eq_ok] at h
  obtain ⟨account, -, h⟩ := h
  obtain rfl := Except.ok.inj h
  exact .same rfl rfl

theorem publishes_readOrder (h : readOrder lib flow answer = .ok flow') : Publishes flow flow' := by
  simp only [readOrder, bind_eq_ok] at h
  obtain ⟨document, -, order, -, finalize, -, waiting, -, h⟩ := h
  obtain rfl := Except.ok.inj h
  exact .same rfl rfl

theorem publishes_readResumed (h : readResumed lib flow answer = .ok flow') :
    Publishes flow flow' := by
  simp only [readResumed, bind_eq_ok] at h
  obtain ⟨document, -, finalize, -, waiting, -, h⟩ := h
  split at h
  · obtain ⟨certificate, -, h⟩ := bind_eq_ok.mp h
    obtain rfl := Except.ok.inj h
    exact .same rfl rfl
  · obtain rfl := Except.ok.inj h
    exact .same rfl rfl
  · obtain rfl := Except.ok.inj h
    exact .same rfl rfl
  · obtain rfl := Except.ok.inj h
    exact .same rfl rfl
  · cases h
  · cases h

theorem publishes_readProgress (h : readProgress lib flow answer = .ok flow') :
    Publishes flow flow' := by
  simp only [readProgress, bind_eq_ok] at h
  obtain ⟨document, -, h⟩ := h
  split at h
  · obtain ⟨certificate, -, h⟩ := bind_eq_ok.mp h
    obtain rfl := Except.ok.inj h
    exact .same rfl rfl
  · obtain rfl := Except.ok.inj h
    exact .same rfl rfl
  · split at h
    · cases h
    · obtain rfl := Except.ok.inj h
      exact .same rfl rfl
  · split at h
    · cases h
    · obtain rfl := Except.ok.inj h
      exact .same rfl rfl
  · cases h
  · cases h

/-- One more challenge is answered beside those before it. -/
theorem publishing_eq_ok {document : Value} {token : String} {published : Publication}
    (h : publishing lib flow document token = .ok published) :
    published.kind = some flow.kind ∧ ∀ name ∈ flow.published.entries, name ∈ published.entries := by
  rw [publishing] at h
  split at h
  · rename_i hkind
    obtain ⟨-, -, h⟩ := bind_eq_ok.mp h
    obtain rfl := Except.ok.inj h
    exact ⟨by rw [hkind], fun name hname => Finmap.mem_insert.mpr (.inr hname)⟩
  · rename_i hkind
    simp only [bind_eq_ok] at h
    obtain ⟨identifier, -, value, -, h⟩ := h
    obtain rfl := Except.ok.inj h
    exact ⟨by rw [hkind], fun name hname => Finmap.mem_insert.mpr (.inr hname)⟩

theorem publishes_readAuthorization (h : readAuthorization lib flow answer = .ok flow') :
    Publishes flow flow' := by
  rw [readAuthorization] at h
  obtain ⟨document, -, h⟩ := bind_eq_ok.mp h
  dsimp only at h
  split at h
  · obtain rfl := Except.ok.inj h
    exact .same rfl rfl
  · simp only [bind_eq_ok] at h
    obtain ⟨challenges, -, challenge, -, token, -, -, -, published, hpublished, url, -, h⟩ := h
    obtain rfl := Except.ok.inj h
    obtain ⟨hkind, hgrows⟩ := publishing_eq_ok hpublished
    exact .more rfl hkind hgrows

theorem publishes_readAnswer (h : readAnswer lib flow answer = .ok flow') : Publishes flow flow' := by
  rw [readAnswer] at h
  split at h
  · exact publishes_readDirectory h
  · obtain rfl := Except.ok.inj h
    exact .same rfl rfl
  · exact publishes_readAccount h
  · exact publishes_readOrder h
  · exact publishes_readResumed h
  · exact publishes_readAuthorization h
  · obtain rfl := Except.ok.inj h
    exact .same rfl rfl
  · exact publishes_readProgress h
  -- what was published does not depend on the stage that is set before the order is read
  · cases publishes_readProgress h with
    | same hkind hpublished => exact .same hkind hpublished
    | more hkind hown hgrows => exact .more hkind hown hgrows
    | cleared hkind hdone hpublished => exact .cleared hkind hdone hpublished
  · split at h
    · cases h
    · obtain rfl := Except.ok.inj h
      exact .cleared rfl rfl rfl
  · obtain rfl := Except.ok.inj h
    exact .same rfl rfl

theorem accept_eq_ok {progress : Progress} (h : accept lib flow answer = .ok (flow', progress)) :
    flow' = flow ∧ progress = .again ∨
      readAnswer lib flow answer = .ok flow' ∧ progress = .moved := by
  rw [accept] at h
  split at h
  · obtain ⟨rfl, rfl⟩ := Prod.mk.inj (Except.ok.inj h)
    exact .inl ⟨rfl, rfl⟩
  · split at h
    · cases h
    · obtain ⟨read, hread, heq⟩ := map_eq_ok.mp h
      obtain ⟨rfl, rfl⟩ := Prod.mk.inj heq
      exact .inr ⟨hread, rfl⟩

end

end Flow

end EkEk.Tls
