import EkEk.Config.Config
import Mathlib.Data.Finmap

/-!
# Checking a document

Reference: `crates/ek-ek-config/src/validation.rs` (`validate` and the checks it runs).

A document is checked before it is stored. Every check walks the document and returns what it found,
in the order the source finds it: a code, the path to the field that is to blame, and what the
sentence about it needs. A document is accepted when no check found anything.
-/

namespace EkEk.Validation

/-- What can be wrong with a document. -/
inductive ErrorCode where
  | duplicateId
  | frontendDuplicateBinding
  | frontendUnknownVip
  | frontendUnknownBackend
  | frontendUnknownCertificate
  | frontendUnknownDefaultCertificate
  | frontendAccessLogSampleZero
  | frontendTlsWithoutHttp
  | frontendRedirectWithoutHttp
  | frontendSniRulesWithoutPassthrough
  | frontendTlsOnPassthrough
  | vipInUse
  | vipUnknownPreferredNode
  | vipTooMany
  | certificateUnknownDnsProvider
  | certificateInUse
  | dnsProviderPropagationTimeoutZero
  | dnsProviderApiBaseInvalid
  | backendNoMembers
  | backendCookieStickinessOnUdp
  | stickinessKeyMissing
  | backendStickinessCookieNameInvalid
  | portOutOfRange
  | healthCheckTimeoutAboveInterval
  | templateParameterMissing
  | templateParameterWrongKind
  | templateParameterUnknown
deriving DecidableEq, Repr

/-- One step of the way to a field. -/
inductive PathSegment where
  | field (name : String)
  | index (position : ℕ)
deriving DecidableEq, Repr

/-- Where in the document an error sits. -/
structure FieldPath where
  segments : List PathSegment
deriving DecidableEq, Repr

namespace FieldPath

/-- The document itself. -/
def root : FieldPath := ⟨[]⟩

/-- The field under a name. -/
def field (path : FieldPath) (name : String) : FieldPath := ⟨path.segments ++ [.field name]⟩

/-- The element at a position. -/
def index (path : FieldPath) (position : ℕ) : FieldPath := ⟨path.segments ++ [.index position]⟩

end FieldPath

/-- What a message is filled in with. -/
inductive ParameterValue where
  | identifier (text : String)
  | number (value : ℤ)
deriving DecidableEq, Repr

/-- One thing that is wrong with a document. -/
structure ValidationError where
  code : ErrorCode
  path : FieldPath
  parameters : Finmap fun _ : String => ParameterValue
deriving DecidableEq

namespace ValidationError

/-- A finding, with nothing filled in. -/
def new (code : ErrorCode) (path : FieldPath) : ValidationError := ⟨code, path, ∅⟩

/-- Fill in a text. -/
def withId (error : ValidationError) (name value : String) : ValidationError :=
  { error with parameters := error.parameters.insert name (.identifier value) }

/-- Fill in a number. -/
def withNumber (error : ValidationError) (name : String) (value : ℤ) : ValidationError :=
  { error with parameters := error.parameters.insert name (.number value) }

end ValidationError

open FieldPath ValidationError

/-- A list's length as a signed number of 64 bits, the largest one where it does not fit. -/
def countOf (length : ℕ) : ℤ := if (length : ℤ) ≤ 2 ^ 63 - 1 then length else 2 ^ 63 - 1

/-! ## Identities and bindings -/

/-- Report every identity that stands earlier in its own list. -/
def report (kind : String) (ids : List String) (path : ℕ → FieldPath) (i : ℕ) (id : String) :
    List ValidationError :=
  if id ∈ ids.take i then [((new .duplicateId (path i)).withId "kind" kind).withId "id" id] else []

/-- One list of the document, each of its identities reported where it is not the first. -/
def reportAll (kind : String) (ids : List String) (path : ℕ → FieldPath) : List ValidationError :=
  ids.zipIdx.flatMap fun (id, i) => report kind ids path i id

/-- No two objects of one kind have one identity. -/
def checkDuplicateIds (config : Config) : List ValidationError :=
  let backends := config.backends.map fun backend => backend.id.asStr
  reportAll "node" (config.nodes.map fun node => node.id.asStr)
      (fun i => ((root.field "nodes").index i).field "id") ++
    reportAll "vip" (config.vips.map fun vip => vip.id.asStr)
      (fun i => ((root.field "vips").index i).field "id") ++
    reportAll "frontend" (config.frontends.map fun frontend => frontend.id.asStr)
      (fun i => ((root.field "frontends").index i).field "id") ++
    -- a pool's members are told apart within the pool, and reported right after it
    (config.backends.zipIdx.flatMap fun (backend, i) =>
      report "backend" backends (fun i => ((root.field "backends").index i).field "id") i
          backend.id.asStr ++
        reportAll "member" (backend.members.map fun member => member.id.asStr) fun j =>
          ((((root.field "backends").index i).field "members").index j).field "id") ++
    reportAll "certificate" (config.certificates.map fun certificate => certificate.id.asStr)
      (fun i => ((root.field "certificates").index i).field "id") ++
    reportAll "dns_provider" (config.dnsProviders.map fun provider => provider.id.asStr)
      (fun i => ((root.field "dns_providers").index i).field "id")

/-- The address, port and transport a frontend claims. -/
def binding (frontend : Frontend) : VipId × UInt16 × TransportProtocol :=
  (frontend.vip, frontend.port, frontend.transport)

/-- No two listeners take the same port of an address. -/
def checkFrontendBindings (config : Config) : List ValidationError :=
  config.frontends.zipIdx.flatMap fun (frontend, i) =>
    match (config.frontends.take i).find? fun earlier => binding earlier = binding frontend with
    | some holder =>
      [(((new .frontendDuplicateBinding ((root.field "frontends").index i)).withId "vip"
        frontend.vip.asStr).withNumber "port" frontend.port.toNat).withId "conflicting_frontend"
        holder.id.asStr]
    | none => []

/-! ## References -/

/-- Report a pool that is not defined. -/
def unknownBackend (config : Config) (frontend : Frontend) (backend : BackendId)
    (path : FieldPath) : List ValidationError :=
  if ∃ pool ∈ config.backends, pool.id = backend then []
  else [((new .frontendUnknownBackend path).withId "frontend" frontend.id.asStr).withId "backend"
    backend.asStr]

/-- What is wrong with the certificates of one frontend. -/
def tlsReferences (config : Config) (frontend : Frontend) (here : FieldPath) (tls : TlsSettings) :
    List ValidationError :=
  (tls.certificates.zipIdx.flatMap fun (certificate, i) =>
    if ∃ held ∈ config.certificates, held.id = certificate then []
    else [((new .frontendUnknownCertificate (((here.field "tls").field "certificates").index i)).withId
      "frontend" frontend.id.asStr).withId "certificate" certificate.asStr]) ++
  match tls.defaultCertificate with
  | none => []
  | some certificate =>
    if certificate ∈ tls.certificates then []
    else [((new .frontendUnknownDefaultCertificate ((here.field "tls").field
      "default_certificate")).withId "frontend" frontend.id.asStr).withId "certificate"
      certificate.asStr]

/-- What is wrong with the references of one frontend. -/
def frontendReferences (config : Config) (frontend : Frontend) (here : FieldPath) :
    List ValidationError :=
  (if ∃ vip ∈ config.vips, vip.id = frontend.vip then []
    else [((new .frontendUnknownVip (here.field "vip")).withId "frontend" frontend.id.asStr).withId
      "vip" frontend.vip.asStr]) ++
  (if frontend.port = 0 then
      [(new .portOutOfRange (here.field "port")).withNumber "port" frontend.port.toNat]
    else []) ++
  (match frontend.defaultBackend with
    | some backend => unknownBackend config frontend backend (here.field "default_backend")
    | none => []) ++
  (frontend.routingRules.zipIdx.flatMap fun (rule, i) =>
    match rule.action with
    | .proxy backend => unknownBackend config frontend backend
        ((((here.field "routing_rules").index i).field "action").field "backend")
    | .redirect _ => []) ++
  (frontend.sniRules.zipIdx.flatMap fun (rule, i) =>
    unknownBackend config frontend rule.backend
      (((here.field "sni_rules").index i).field "backend")) ++
  match frontend.tls with
  | none => []
  | some tls => tlsReferences config frontend here tls

/-- What a listener refers to is there. -/
def checkFrontendReferences (config : Config) : List ValidationError :=
  config.frontends.zipIdx.flatMap fun (frontend, i) =>
    frontendReferences config frontend ((root.field "frontends").index i)

/-! ## Settings that sit where something reads them -/

/-- Only HTTP has TLS settings, and only passthrough has SNI rules. -/
def checkTlsPlacement (config : Config) : List ValidationError :=
  config.frontends.zipIdx.flatMap fun (frontend, i) =>
    let here := (root.field "frontends").index i
    (match frontend.application with
      | .tlsPassthrough =>
        if frontend.tls.isSome then
          [(new .frontendTlsOnPassthrough (here.field "tls")).withId "frontend" frontend.id.asStr]
        else []
      | .raw =>
        if frontend.tls.isSome then
          [(new .frontendTlsWithoutHttp (here.field "tls")).withId "frontend" frontend.id.asStr]
        else []
      | .http => []) ++
    if frontend.sniRules ≠ [] ∧ frontend.application ≠ .tlsPassthrough then
      [((new .frontendSniRulesWithoutPassthrough (here.field "sni_rules")).withId "frontend"
        frontend.id.asStr).withNumber "rule_count" (countOf frontend.sniRules.length)]
    else []

/-- No rule redirects where requests are not read. -/
def checkRedirects (config : Config) : List ValidationError :=
  config.frontends.zipIdx.flatMap fun (frontend, i) =>
    if frontend.application = .http ∧ frontend.transport = .tcp then []
    else frontend.routingRules.zipIdx.flatMap fun (rule, j) =>
      match rule.action with
      | .redirect _ => [(new .frontendRedirectWithoutHttp
          ((((root.field "frontends").index i).field "routing_rules").index j |>.field
            "action")).withId "frontend" frontend.id.asStr]
      | .proxy _ => []

/-- How many virtual routers a segment holds. -/
def vrids : ℕ := 255

/-- There are not too many addresses, and a preferred node is there. -/
def checkVips (config : Config) : List ValidationError :=
  (if config.vips.length > vrids then
      [((new .vipTooMany (root.field "vips")).withNumber "vip_count"
        (countOf config.vips.length)).withNumber "limit" (countOf vrids)]
    else []) ++
  config.vips.zipIdx.flatMap fun (vip, i) =>
    match vip.preferredNode with
    | none => []
    | some preferred =>
      if ∃ node ∈ config.nodes, node.id = preferred then []
      else [((new .vipUnknownPreferredNode (((root.field "vips").index i).field
        "preferred_node")).withId "vip" vip.id.asStr).withId "node" preferred.asStr]

/-! ## Certificates and providers -/

/-- The provider of a certificate is there. -/
def checkCertificates (config : Config) : List ValidationError :=
  config.certificates.zipIdx.flatMap fun (certificate, i) =>
    match certificate.source with
    | .acmeDns01 provider =>
      if ∃ held ∈ config.dnsProviders, held.id = provider then []
      else [((new .certificateUnknownDnsProvider ((((root.field "certificates").index i).field
        "source").field "provider")).withId "certificate" certificate.id.asStr).withId "provider"
        provider.asStr]
    | _ => []

/-- A provider waits for its records to spread, and its API is reached over TLS. -/
def checkDnsProviders (config : Config) : List ValidationError :=
  config.dnsProviders.zipIdx.flatMap fun (provider, i) =>
    let here := (root.field "dns_providers").index i
    (if provider.propagationTimeoutSecs = 0 then
        [(new .dnsProviderPropagationTimeoutZero (here.field "propagation_timeout_secs")).withId
          "provider" provider.id.asStr]
      else []) ++
    match provider.connection with
    | .cloudflare _ _ apiBase =>
      if apiBase ≠ "" ∧ ¬ "https://".toList.isPrefixOf apiBase.toList then
        [(new .dnsProviderApiBaseInvalid ((here.field "connection").field "api_base")).withId
          "provider" provider.id.asStr]
      else []
    | .rfc2136 .. => []

/-! ## Pools -/

/-- A pool has members, they have ports, and a check ends before the next one starts. -/
def checkBackends (config : Config) : List ValidationError :=
  config.backends.zipIdx.flatMap fun (backend, i) =>
    let here := (root.field "backends").index i
    (if backend.members = [] then
        [(new .backendNoMembers (here.field "members")).withId "backend" backend.id.asStr]
      else []) ++
    (backend.members.zipIdx.flatMap fun (member, j) =>
      if member.port = 0 then
        [(new .portOutOfRange (((here.field "members").index j).field "port")).withNumber "port"
          member.port.toNat]
      else []) ++
    match backend.healthCheck with
    | none => []
    | some check =>
      if check.timeoutMs > check.intervalMs then
        [(((new .healthCheckTimeoutAboveInterval ((here.field "health_check").field
          "timeout_ms")).withId "backend" backend.id.asStr).withNumber "timeout_ms"
          check.timeoutMs.toNat).withNumber "interval_ms" check.intervalMs.toNat]
      else []

/-- Whether traffic of a frontend may reach a pool. -/
def reaches (frontend : Frontend) (backend : BackendId) : Bool :=
  frontend.defaultBackend = some backend ||
    frontend.routingRules.any (fun rule => rule.action = .proxy backend) ||
    frontend.sniRules.any fun rule => rule.backend = backend

/-- The name of the cookie a pool keeps its sessions with, if it does. -/
def signedCookie (backend : Backend) : Option String :=
  match backend.stickiness with
  | .signedCookie cookieName _ => some cookieName
  | .disabled => none

/-- No pool that sets a cookie is reached from a UDP listener. -/
def checkStickinessAgainstTransport (config : Config) : List ValidationError :=
  config.backends.zipIdx.flatMap fun (backend, i) =>
    if (signedCookie backend).isNone then []
    else
      match config.frontends.find? fun frontend =>
        frontend.transport = .udp && reaches frontend backend.id with
      | none => []
      | some frontend =>
        [((new .backendCookieStickinessOnUdp (((root.field "backends").index i).field
          "stickiness")).withId "backend" backend.id.asStr).withId "frontend" frontend.id.asStr]

/-- The shortest key that is accepted, in bytes. -/
def shortestKey : ℕ := 32

def isAsciiHexdigit (c : Char) : Bool :=
  ('0' ≤ c && c ≤ '9') || ('a' ≤ c && c ≤ 'f') || ('A' ≤ c && c ≤ 'F')

/-- How many bytes a hex string names, if it is one. -/
def hexLength (key : String) : Option ℕ :=
  if key = "" ∨ key.utf8ByteSize % 2 ≠ 0 then none
  else if ¬ key.toList.all isAsciiHexdigit then none
  else some (key.utf8ByteSize / 2)

/-- Where a pool sets a cookie, there is a key to sign it with, in hexadecimal and long enough. -/
def checkStickinessKey (config : Config) : List ValidationError :=
  if ¬ config.backends.any fun backend => (signedCookie backend).isSome then []
  else if (hexLength config.stickinessKey).any fun length => length ≥ shortestKey then []
  else [(new .stickinessKeyMissing (root.field "stickiness_key")).withNumber "shortest_bytes"
    shortestKey]

/-- Whether a string is an HTTP token. -/
def isToken (name : String) : Bool :=
  name ≠ "" && name.toList.all fun c =>
    ('0' ≤ c && c ≤ '9') || ('a' ≤ c && c ≤ 'z') || ('A' ≤ c && c ≤ 'Z') ||
      "!#$%&'*+-.^_`|~".toList.contains c

/-- The name of a cookie is a token. -/
def checkStickinessCookieName (config : Config) : List ValidationError :=
  config.backends.zipIdx.flatMap fun (backend, i) =>
    match signedCookie backend with
    | none => []
    | some cookieName =>
      if isToken cookieName then []
      else [(new .backendStickinessCookieNameInvalid ((((root.field "backends").index i).field
        "stickiness").field "cookie_name")).withId "backend" backend.id.asStr]

/-- A listener that logs logs one in some number of requests. -/
def checkAccessLog (config : Config) : List ValidationError :=
  config.frontends.zipIdx.flatMap fun (frontend, i) =>
    if frontend.accessLog.enabled = false ∨ frontend.accessLog.sampleOneIn > 0 then []
    else [(new .frontendAccessLogSampleZero ((((root.field "frontends").index i).field
      "access_log").field "sample_one_in")).withId "frontend" frontend.id.asStr]

/-! ## The whole document -/

/-- Check a whole document, and report every problem there is. -/
def validate (config : Config) : Except (List ValidationError) Unit :=
  let errors := checkDuplicateIds config ++ checkFrontendBindings config ++
    checkFrontendReferences config ++ checkTlsPlacement config ++ checkRedirects config ++
    checkVips config ++ checkCertificates config ++ checkDnsProviders config ++
    checkBackends config ++ checkStickinessAgainstTransport config ++ checkStickinessKey config ++
    checkStickinessCookieName config ++ checkAccessLog config
  if errors = [] then .ok () else .error errors

/-- A document that asks for nothing but an uploaded certificate is accepted whatever the
certificate is called. -/
theorem validate_uploaded (certificate : Certificate) (h : certificate.source = .manualUpload) :
    validate { Config.empty with certificates := [certificate] } = .ok () := by
  simp [validate, checkDuplicateIds, checkFrontendBindings, checkFrontendReferences,
    checkTlsPlacement, checkRedirects, checkVips, checkCertificates, checkDnsProviders,
    checkBackends, checkStickinessAgainstTransport, checkStickinessKey, checkStickinessCookieName,
    checkAccessLog, reportAll, report, Config.empty, vrids, h]

end EkEk.Validation
