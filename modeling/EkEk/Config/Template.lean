import EkEk.Config.Accepted
import EkEk.Lib.Keyed
import Mathlib.Data.String.Basic

/-!
# Templates

Reference: `crates/ek-ek-config/src/template.rs`.

A template fills a fixed set of objects with the values it is given and puts them behind those a
document has. `apply` says what the document would become, together with a list of what was created,
and refuses what the validation of documents refuses. `undo` takes the listed objects out again.

The identities of what is created are made of a name the operator typed, so they may be those of
objects that were there before. `undo_apply` rests on the validation, which refuses such a document.
-/

namespace EkEk.Templates

open Validation

/-! ## Templates and their parameters -/

/-- Which template. -/
structure TemplateId where
  asStr : String
deriving DecidableEq, Repr

/-- Whether a template has been tried against the real product. -/
inductive Verification where
  | verified (productVersion : String)
  | unverified
deriving DecidableEq, Repr

/-- What kind of value a parameter takes. -/
inductive ParameterKind where
  | text
  | address
  | port
  | node
  | members
deriving DecidableEq, Repr

/-- One value a template asks for. -/
structure Parameter where
  name : String
  labelKey : String
  kind : ParameterKind
deriving DecidableEq, Repr

/-- A value handed to a template. -/
inductive Argument where
  | text (value : String)
  | address (value : IpAddr)
  | port (value : UInt16)
  | node (value : NodeId)
  | members (value : List BackendMember)
deriving DecidableEq, Repr

/-- The kind of a value. -/
def Argument.kind : Argument → ParameterKind
  | .text _ => .text
  | .address _ => .address
  | .port _ => .port
  | .node _ => .node
  | .members _ => .members

/-- The values a template is applied with. -/
abbrev Arguments := Finmap fun _ : String => Argument

namespace Arguments

def text (arguments : Arguments) (name : String) : Option String :=
  match arguments.lookup name with
  | some (.text value) => some value
  | _ => none

def address (arguments : Arguments) (name : String) : Option IpAddr :=
  match arguments.lookup name with
  | some (.address value) => some value
  | _ => none

def port (arguments : Arguments) (name : String) : Option UInt16 :=
  match arguments.lookup name with
  | some (.port value) => some value
  | _ => none

def node (arguments : Arguments) (name : String) : Option NodeId :=
  match arguments.lookup name with
  | some (.node value) => some value
  | _ => none

def members (arguments : Arguments) (name : String) : Option (List BackendMember) :=
  match arguments.lookup name with
  | some (.members value) => some value
  | _ => none

end Arguments

/-- A template that ships with the product. -/
structure Template where
  id : TemplateId
  nameKey : String
  descriptionKey : String
  parameters : List Parameter
  verification : Verification
deriving DecidableEq, Repr

def parameter (name : String) (kind : ParameterKind) : Parameter where
  name := name
  labelKey := s!"template.parameter.{name}.label"
  kind := kind

def template (id : String) (parameters : List Parameter) (verification : Verification) : Template where
  id := ⟨id⟩
  nameKey := s!"template.{id}.name"
  descriptionKey := s!"template.{id}.description"
  parameters := parameters
  verification := verification

/-- A website with a certificate that is renewed by itself. -/
def websiteTemplate : Template :=
  template "website"
    [parameter "name" .text, parameter "domain" .text, parameter "address" .address,
      parameter "interface" .text, parameter "node" .node, parameter "members" .members]
    (.verified "nginx 1.24, Apache 2.4")

/-- A name server, over UDP and TCP. -/
def dnsTemplate : Template :=
  template "dns"
    [parameter "name" .text, parameter "address" .address, parameter "interface" .text,
      parameter "node" .node, parameter "members" .members]
    (.verified "BIND 9.18")

/-- An Exchange server: its web services, and mail. -/
def exchangeTemplate : Template :=
  template "exchange"
    [parameter "name" .text, parameter "domain" .text, parameter "address" .address,
      parameter "interface" .text, parameter "node" .node, parameter "members" .members]
    .unverified

/-- A relay for mail. -/
def smtpRelayTemplate : Template :=
  template "smtp_relay"
    [parameter "name" .text, parameter "address" .address, parameter "interface" .text,
      parameter "node" .node, parameter "members" .members]
    (.verified "Postfix 3.7")

/-- Any service on one TCP port. -/
def genericTcpTemplate : Template :=
  template "generic_tcp"
    [parameter "name" .text, parameter "address" .address, parameter "interface" .text,
      parameter "node" .node, parameter "port" .port, parameter "members" .members]
    (.verified "")

/-- Every template that ships with the product. -/
def embedded : List Template :=
  [websiteTemplate, dnsTemplate, exchangeTemplate, smtpRelayTemplate, genericTcpTemplate]

/-! ## What is created -/

/-- What kinds of objects templates create. -/
inductive CreatedKind where
  | vip
  | frontend
  | backend
  | certificate
deriving DecidableEq, Repr

/-- One object a template creates. -/
structure Created where
  kind : CreatedKind
  id : String
deriving DecidableEq, Repr

/-- What applying a template produces, and what a template has produced so far. -/
structure Applied where
  config : Config
  created : List Created
deriving DecidableEq, Repr

/-- The values every template shares. -/
structure Common where
  name : String
  address : IpAddr
  interface : String
  node : Option NodeId
  members : List BackendMember

/-- What every template is told. -/
def common (arguments : Arguments) : Common where
  name := (arguments.text "name").getD "service"
  address := (arguments.address "address").getD (.v4 ⟨0, 0, 0, 0⟩)
  interface := (arguments.text "interface").getD "eth0"
  node := arguments.node "node"
  members := (arguments.members "members").getD []

def isIpv4 : IpAddr → Bool
  | .v4 _ => true
  | .v6 _ => false

/-- The virtual address of a template. -/
def newVip (values : Common) : Vip where
  id := ⟨s!"vip-{values.name}"⟩
  address := values.address
  prefixLength := if isIpv4 values.address then 24 else 64
  interface := values.interface
  preferredNode := values.node

/-- Add the address of a service, and list it. -/
def addVip (built : Applied) (values : Common) : Applied × VipId :=
  let vip := newVip values
  (⟨{ built.config with vips := built.config.vips ++ [vip] },
    built.created ++ [⟨.vip, vip.id.asStr⟩]⟩, vip.id)

/-- Add a certificate, and list it. -/
def addCertificate (built : Applied) (certificate : Certificate) : Applied :=
  ⟨{ built.config with certificates := built.config.certificates ++ [certificate] },
    built.created ++ [⟨.certificate, certificate.id.asStr⟩]⟩

/-- A pool of a template. -/
def newBackend (id : String) (members : List BackendMember) (algorithm : LoadBalancingAlgorithm)
    (healthCheck : Option HealthCheck) (pooling : ConnectionPooling) : Backend where
  id := ⟨id⟩
  members := members
  algorithm := algorithm
  healthCheck := healthCheck
  stickiness := .disabled
  connectionPooling := pooling
  connectionPoolSize := 128
  connectionLifetimeSeconds := 300

/-- Add a pool, and list it. -/
def addBackend (built : Applied) (id : String) (members : List BackendMember)
    (algorithm : LoadBalancingAlgorithm) (healthCheck : Option HealthCheck)
    (pooling : ConnectionPooling) : Applied × BackendId :=
  let backend := newBackend id members algorithm healthCheck pooling
  (⟨{ built.config with backends := built.config.backends ++ [backend] },
    built.created ++ [⟨.backend, backend.id.asStr⟩]⟩, backend.id)

/-- Add a listener, and list it. -/
def addFrontend (built : Applied) (frontend : Frontend) : Applied :=
  ⟨{ built.config with frontends := built.config.frontends ++ [frontend] },
    built.created ++ [⟨.frontend, frontend.id.asStr⟩]⟩

/-- The members of a pool on another port. -/
def membersOn (members : List BackendMember) (suffix : String) (port : UInt16) : List BackendMember :=
  members.map fun member =>
    { id := ⟨s!"{member.id.asStr}-{suffix}"⟩
      address := member.address
      port
      weight := member.weight
      adminState := .enabled }

/-- A request for a path, where being asked to log in is an answer too. -/
def httpCheck (path : String) (host : Option String) : HealthCheck where
  probe := .http path [200, 401] none host
  intervalMs := 5000
  timeoutMs := 3000
  healthyThreshold := 2
  unhealthyThreshold := 3

/-- The greeting of a mail server. -/
def bannerCheck (expected : String) : HealthCheck where
  probe := .sendExpect (.text "\r\n") (.text expected) .tcp
  intervalMs := 10000
  timeoutMs := 5000
  healthyThreshold := 2
  unhealthyThreshold := 3

/-- A real query rather than a connect, for the zone authority of the root. -/
def dnsCheck : HealthCheck where
  probe := .dnsQuery "." .soa
  intervalMs := 5000
  timeoutMs := 2000
  healthyThreshold := 2
  unhealthyThreshold := 3

/-- A connection, and nothing on it. -/
def connectCheck : HealthCheck where
  probe := .tcpConnect
  intervalMs := 5000
  timeoutMs := 2000
  healthyThreshold := 2
  unhealthyThreshold := 3

/-- A listener that passes bytes on. -/
def rawFrontend (id : String) (vip : VipId) (port : UInt16) (backend : BackendId)
    (proxyProtocol : ProxyProtocol) : Frontend where
  id := ⟨id⟩
  vip := vip
  port := port
  transport := .tcp
  application := .raw
  tls := none
  proxyProtocol := proxyProtocol
  accessLog := ⟨true, 1⟩
  routingRules := []
  sniRules := []
  defaultBackend := some backend
  http2 := .enabled
  connectTimeoutSeconds := 5
  requestTimeoutSeconds := 0
  idleTimeoutSeconds := 0
  drainTimeoutSeconds := 30
  udpSessionLimit := 0

/-! ## The builders -/

/-- The listener a website is served from. -/
def httpsFrontend (id : String) (vip : VipId) (certificates : List CertificateId)
    (routingRules : List RoutingRule) (backend : BackendId) (drainTimeoutSeconds : UInt32) :
    Frontend where
  id := ⟨id⟩
  vip := vip
  port := 443
  transport := .tcp
  application := .http
  tls := some ⟨certificates, none, .balanced⟩
  proxyProtocol := .disabled
  accessLog := ⟨true, 1⟩
  routingRules := routingRules
  sniRules := []
  defaultBackend := some backend
  http2 := .enabled
  connectTimeoutSeconds := 5
  requestTimeoutSeconds := 60
  idleTimeoutSeconds := 0
  drainTimeoutSeconds := drainTimeoutSeconds
  udpSessionLimit := 0

/-- The listener that sends everybody to HTTPS. -/
def redirectFrontend (id : String) (vip : VipId) : Frontend where
  id := ⟨id⟩
  vip := vip
  port := 80
  transport := .tcp
  application := .http
  tls := none
  proxyProtocol := .disabled
  accessLog := ⟨true, 1⟩
  routingRules := [⟨none, none, .insensitive, .redirect .permanent, none⟩]
  sniRules := []
  defaultBackend := none
  http2 := .enabled
  connectTimeoutSeconds := 5
  requestTimeoutSeconds := 60
  idleTimeoutSeconds := 0
  drainTimeoutSeconds := 10
  udpSessionLimit := 0

/-- A certificate, a pool, and listeners for HTTPS and for the redirect to it. -/
def buildWebsite (arguments : Arguments) (built : Applied) (values : Common) (vip : VipId) : Applied :=
  let domain := (arguments.text "domain").getD values.name
  let certificate : CertificateId := ⟨s!"cert-{values.name}"⟩
  let built := addCertificate built ⟨certificate, [domain], .acmeHttp01, none, none, none⟩
  let (built, backend) := addBackend built s!"pool-{values.name}" values.members .roundRobin
    (some (httpCheck "/" (some domain))) .enabled
  let built := addFrontend built
    (httpsFrontend s!"{values.name}-https" vip [certificate] [] backend 30)
  addFrontend built (redirectFrontend s!"{values.name}-http" vip)

/-- A listener for DNS on one of its two transports. -/
def dnsFrontend (id : String) (vip : VipId) (backend : BackendId) (transport : TransportProtocol) :
    Frontend :=
  { rawFrontend id vip 53 backend .disabled with transport, drainTimeoutSeconds := 10 }

/-- A pool, and listeners for both transports. -/
def buildDns (built : Applied) (values : Common) (vip : VipId) : Applied :=
  let (built, backend) := addBackend built s!"pool-{values.name}" (membersOn values.members "dns" 53)
    .consistentHash (some dnsCheck) .enabled
  let built := addFrontend built (dnsFrontend s!"{values.name}-udp" vip backend .udp)
  addFrontend built (dnsFrontend s!"{values.name}-tcp" vip backend .tcp)

/-- A rule that sends what is under a path to a pool. -/
def pathRule (path : String) (backend : BackendId) (requestTimeoutSeconds : UInt32) : RoutingRule where
  hostPattern := none
  pathPrefix := some path
  pathCase := .insensitive
  action := .proxy backend
  requestTimeoutSeconds := some requestTimeoutSeconds

/-- A pool for each web service behind one listener, and pools and listeners for mail. -/
def buildExchange (arguments : Arguments) (built : Applied) (values : Common) (vip : VipId) : Applied :=
  let domain := (arguments.text "domain").getD values.name
  let (built, owa) := addBackend built s!"pool-{values.name}-owa" (membersOn values.members "owa" 443)
    .roundRobin (some (httpCheck "/owa/healthcheck.htm" (some domain))) .enabled
  let (built, activesync) := addBackend built s!"pool-{values.name}-activesync"
    (membersOn values.members "activesync" 443) .roundRobin
    (some (httpCheck "/Microsoft-Server-ActiveSync/healthcheck.htm" (some domain))) .enabled
  let (built, ews) := addBackend built s!"pool-{values.name}-ews" (membersOn values.members "ews" 443)
    .roundRobin (some (httpCheck "/ews/healthcheck.htm" (some domain))) .enabled
  -- credentials are bound to the connection there, so none is used for another request
  let (built, mapi) := addBackend built s!"pool-{values.name}-mapi"
    (membersOn values.members "mapi" 443) .roundRobin
    (some (httpCheck "/mapi/healthcheck.htm" (some domain))) .disabled
  let built := addFrontend built (httpsFrontend s!"{values.name}-https" vip []
    [pathRule "/Microsoft-Server-ActiveSync" activesync 3600, pathRule "/mapi" mapi 3600,
      pathRule "/ews" ews 600, pathRule "/owa" owa 600] owa 60)
  let (built, smtp) := addBackend built s!"pool-{values.name}-smtp" (membersOn values.members "smtp" 25)
    .roundRobin (some (bannerCheck "220")) .enabled
  let built := addFrontend built (rawFrontend s!"{values.name}-smtp" vip 25 smtp .v2)
  let (built, imap) := addBackend built s!"pool-{values.name}-imap"
    (membersOn values.members "imap" 143) .roundRobin (some (bannerCheck "* OK")) .enabled
  addFrontend built (rawFrontend s!"{values.name}-imap" vip 143 imap .v2)

/-- A pool and a listener for mail. -/
def buildSmtpRelay (built : Applied) (values : Common) (vip : VipId) : Applied :=
  let (built, backend) := addBackend built s!"pool-{values.name}" (membersOn values.members "smtp" 25)
    .roundRobin (some (bannerCheck "220")) .enabled
  addFrontend built (rawFrontend s!"{values.name}-smtp" vip 25 backend .v2)

/-- A pool and a listener on the port that is asked for. -/
def buildGenericTcp (arguments : Arguments) (built : Applied) (values : Common) (vip : VipId) :
    Applied :=
  let port := (arguments.port "port").getD 80
  let (built, backend) := addBackend built s!"pool-{values.name}" values.members .roundRobin
    (some connectCheck) .enabled
  addFrontend built (rawFrontend s!"{values.name}-tcp" vip port backend .disabled)

/-- A template nothing else matches produces the plain skeleton. -/
def build (template : Template) (arguments : Arguments) (built : Applied) : Applied :=
  let values := common arguments
  let (built, vip) := addVip built values
  match template.id.asStr with
  | "website" => buildWebsite arguments built values vip
  | "dns" => buildDns built values vip
  | "exchange" => buildExchange arguments built values vip
  | "smtp_relay" => buildSmtpRelay built values vip
  | _ => buildGenericTcp arguments built values vip

/-! ## Applying and undoing -/

/-- What is wrong with the value of one parameter. -/
def checkParameter (arguments : Arguments) (parameter : Parameter) : List ValidationError :=
  let path := (FieldPath.root.field "parameters").field parameter.name
  match arguments.lookup parameter.name with
  | none => [(ValidationError.new .templateParameterMissing path).withId "parameter" parameter.name]
  | some argument =>
    if argument.kind = parameter.kind then []
    else [(ValidationError.new .templateParameterWrongKind path).withId "parameter" parameter.name]

/-- Report every parameter problem at once. -/
def checkArguments (template : Template) (arguments : Arguments) : List ValidationError :=
  template.parameters.flatMap (checkParameter arguments) ++
    (Keyed.keys (Equiv.refl String) arguments).flatMap fun name =>
      if ∃ parameter ∈ template.parameters, parameter.name = name then []
      else [(ValidationError.new .templateParameterUnknown
        ((FieldPath.root.field "parameters").field name)).withId "parameter" name]

/-- What a document would become with a template. -/
def apply (template : Template) (config : Config) (arguments : Arguments) :
    Except (List ValidationError) Applied :=
  let errors := checkArguments template arguments
  if errors ≠ [] then .error errors
  else
    let built := build template arguments ⟨config, []⟩
    match validate built.config with
    | .error errors => .error errors
    | .ok () => .ok built

/-- Remove everything a template created. -/
def undo (config : Config) (created : List Created) : Config :=
  { config with
    vips := config.vips.filter fun vip => ⟨.vip, vip.id.asStr⟩ ∉ created
    frontends := config.frontends.filter fun frontend => ⟨.frontend, frontend.id.asStr⟩ ∉ created
    backends := config.backends.filter fun backend => ⟨.backend, backend.id.asStr⟩ ∉ created
    certificates := config.certificates.filter fun certificate =>
      ⟨.certificate, certificate.id.asStr⟩ ∉ created }

/-! ## What a template leaves alone -/

/-- Objects that come behind those of a document. -/
structure Additions where
  vips : List Vip
  frontends : List Frontend
  backends : List Backend
  certificates : List Certificate

namespace Additions

/-- A document with objects added to its lists. -/
def onto (added : Additions) (config : Config) : Config :=
  { config with
    vips := config.vips ++ added.vips
    frontends := config.frontends ++ added.frontends
    backends := config.backends ++ added.backends
    certificates := config.certificates ++ added.certificates }

/-- The identities of the added objects of a kind. -/
def ids (added : Additions) : CreatedKind → List String
  | .vip => added.vips.map fun vip => vip.id.asStr
  | .frontend => added.frontends.map fun frontend => frontend.id.asStr
  | .backend => added.backends.map fun backend => backend.id.asStr
  | .certificate => added.certificates.map fun certificate => certificate.id.asStr

/-- Exactly the added objects are listed, those of a kind in their order. -/
def Listed (added : Additions) (created : List Created) : Prop :=
  ∀ kind, (created.filter fun object => object.kind = kind).map (fun object => object.id) = added.ids kind

end Additions

/-- What was built so far is a document with the listed objects added. -/
def Extends (config : Config) (built : Applied) : Prop :=
  ∃ added : Additions, built.config = added.onto config ∧ added.Listed built.created

/-- An object of a document. -/
inductive Object where
  | vip (vip : Vip)
  | frontend (frontend : Frontend)
  | backend (backend : Backend)
  | certificate (certificate : Certificate)

/-- How an object is listed. -/
def Object.created : Object → Created
  | .vip object => ⟨.vip, object.id.asStr⟩
  | .frontend object => ⟨.frontend, object.id.asStr⟩
  | .backend object => ⟨.backend, object.id.asStr⟩
  | .certificate object => ⟨.certificate, object.id.asStr⟩

/-- What was built so far, with one object more. -/
def Applied.push (built : Applied) (object : Object) : Applied where
  config := match object with
    | .vip vip => { built.config with vips := built.config.vips ++ [vip] }
    | .frontend frontend => { built.config with frontends := built.config.frontends ++ [frontend] }
    | .backend backend => { built.config with backends := built.config.backends ++ [backend] }
    | .certificate certificate =>
      { built.config with certificates := built.config.certificates ++ [certificate] }
  created := built.created ++ [object.created]

/-- An object alone. -/
def Object.alone : Object → Additions
  | .vip object => ⟨[object], [], [], []⟩
  | .frontend object => ⟨[], [object], [], []⟩
  | .backend object => ⟨[], [], [object], []⟩
  | .certificate object => ⟨[], [], [], [object]⟩

/-- Objects behind others. -/
def Additions.append (added later : Additions) : Additions :=
  ⟨added.vips ++ later.vips, added.frontends ++ later.frontends, added.backends ++ later.backends,
    added.certificates ++ later.certificates⟩

section

variable {config : Config} {built : Applied} {added : Additions} {created : List Created}

/-- One more object of a kind is listed. -/
theorem Additions.Listed.push {added' : Additions} (h : added.Listed created) {object : Created}
    (hids : ∀ kind, added'.ids kind = added.ids kind ++ if object.kind = kind then [object.id] else []) :
    added'.Listed (created ++ [object]) := by
  intro kind
  rw [List.filter_append, List.map_append, h kind, hids kind]
  by_cases hkind : object.kind = kind
  · simp [hkind]
  · simp [hkind]

/-- Objects are added one after the other. -/
theorem Additions.onto_append (added later : Additions) :
    (added.append later).onto config = later.onto (added.onto config) := by
  simp only [onto, append, List.append_assoc]

theorem Additions.ids_append (added later : Additions) (kind : CreatedKind) :
    (added.append later).ids kind = added.ids kind ++ later.ids kind := by
  cases kind <;> exact List.map_append

/-- An object alone is the one that is listed. -/
theorem Object.ids_alone (object : Object) (kind : CreatedKind) :
    object.alone.ids kind = if object.created.kind = kind then [object.created.id] else [] := by
  cases object <;> cases kind <;> rfl

/-- A document with one object more is the document with that object behind it. -/
theorem Applied.config_push (built : Applied) (object : Object) :
    (built.push object).config = object.alone.onto built.config := by
  cases object <;> simp only [push, Object.alone, Additions.onto, List.append_nil]

/-- An object that is added is listed, and nothing else changes. -/
theorem Extends.push (h : Extends config built) (object : Object) : Extends config (built.push object) := by
  obtain ⟨added, hconfig, hlisted⟩ := h
  refine ⟨added.append object.alone, ?_, hlisted.push fun kind => ?_⟩
  · rw [Applied.config_push, hconfig, Additions.onto_append]
  · rw [Additions.ids_append, Object.ids_alone]

/-- Every builder only adds objects and lists what it adds. -/
theorem extends_build (template : Template) (arguments : Arguments) (config : Config) :
    Extends config (build template arguments ⟨config, []⟩) := by
  have hstart : Extends config ⟨config, []⟩ := ⟨⟨[], [], [], []⟩, by simp [Additions.onto], by
    intro kind
    cases kind <;> rfl⟩
  -- The address comes first, and then what the service needs, in the order of the builder.
  have hvip := hstart.push (.vip (newVip (common arguments)))
  rw [build]
  dsimp only
  split
  · exact (((hvip.push (.certificate _)).push (.backend _)).push (.frontend _)).push (.frontend _)
  · exact ((hvip.push (.backend _)).push (.frontend _)).push (.frontend _)
  · exact ((((((((hvip.push (.backend _)).push (.backend _)).push (.backend _)).push (.backend _)).push
      (.frontend _)).push (.backend _)).push (.frontend _)).push (.backend _)).push (.frontend _)
  · exact (hvip.push (.backend _)).push (.frontend _)
  · exact (hvip.push (.backend _)).push (.frontend _)

/-- The arguments are fine when every parameter has a value of its kind and every value a parameter. -/
theorem checkArguments_eq_nil {template : Template} {arguments : Arguments} :
    checkArguments template arguments = [] ↔
      (∀ parameter ∈ template.parameters,
        (arguments.lookup parameter.name).map Argument.kind = some parameter.kind) ∧
      ∀ name ∈ arguments.keys, ∃ parameter ∈ template.parameters, parameter.name = name := by
  rw [checkArguments, List.append_eq_nil_iff, List.flatMap_eq_nil_iff, List.flatMap_eq_nil_iff]
  refine and_congr (forall₂_congr fun parameter _ => ?_) (forall_congr' fun name => ?_)
  · rw [checkParameter]
    cases arguments.lookup parameter.name with
    | none => simp
    | some argument => simp
  · rw [Keyed.mem_keys, Finmap.mem_keys, reported_eq_nil]
    rfl

/-- A template is applied when its arguments are fine and what is built is accepted. -/
theorem apply_eq_ok {template : Template} {arguments : Arguments} :
    apply template config arguments = .ok built ↔ checkArguments template arguments = [] ∧
      built = build template arguments ⟨config, []⟩ ∧ Accepted built.config := by
  rw [apply]
  split
  · rename_i herrors
    exact iff_of_false (by rintro ⟨⟩) fun h => herrors h.1
  · rename_i hnone
    rw [not_not] at hnone
    dsimp only
    split
    · rename_i errors hinvalid
      refine iff_of_false (by rintro ⟨⟩) ?_
      rintro ⟨-, rfl, haccepted⟩
      rw [validate_eq_ok.mpr haccepted] at hinvalid
      cases hinvalid
    · rename_i hvalid
      constructor
      · intro h
        obtain rfl := Except.ok.inj h
        exact ⟨hnone, rfl, validate_eq_ok.mp hvalid⟩
      · rintro ⟨-, rfl, -⟩
        rfl

/-- Objects that are told apart from those before them are the only ones a test on their identities
takes out. -/
theorem filter_append_of_nodup {α : Type} (key : α → String) {old new : List α} {gone : String → Prop}
    [DecidablePred gone] (hnodup : ((old ++ new).map key).Nodup)
    (hgone : ∀ id, gone id ↔ id ∈ new.map key) :
    (old ++ new).filter (fun object => ¬ gone (key object)) = old := by
  rw [List.map_append, List.nodup_append] at hnodup
  have hkept : old.filter (fun object => ¬ gone (key object)) = old := by
    refine List.filter_eq_self.mpr fun object hobject => decide_eq_true fun hout => ?_
    exact hnodup.2.2 _ (List.mem_map_of_mem hobject) _ ((hgone _).mp hout) rfl
  have htaken : new.filter (fun object => ¬ gone (key object)) = [] := by
    refine List.filter_eq_nil_iff.mpr fun object hobject hin => ?_
    exact of_decide_eq_true hin ((hgone _).mpr (List.mem_map_of_mem hobject))
  rw [List.filter_append, hkept, htaken, List.append_nil]

/-- An object is listed exactly if its identity is that of an added object of its kind. -/
theorem Additions.Listed.mem_iff (h : added.Listed created) (kind : CreatedKind) (id : String) :
    ⟨kind, id⟩ ∈ created ↔ id ∈ added.ids kind := by
  rw [← h kind, List.mem_map]
  constructor
  · intro hmem
    exact ⟨⟨kind, id⟩, List.mem_filter.mpr ⟨hmem, decide_eq_true rfl⟩, rfl⟩
  · rintro ⟨⟨other, listed⟩, hmem, rfl⟩
    obtain ⟨hin, hkind⟩ := List.mem_filter.mp hmem
    exact of_decide_eq_true hkind ▸ hin

/-- Taking the listed objects out leaves the document they were added to. -/
theorem undo_onto (hids : DistinctIds (added.onto config)) (h : added.Listed created) :
    undo (added.onto config) created = config := by
  have hvips := filter_append_of_nodup (fun vip : Vip => vip.id.asStr) hids.vips (h.mem_iff .vip)
  have hfrontends := filter_append_of_nodup (fun frontend : Frontend => frontend.id.asStr)
    hids.frontends (h.mem_iff .frontend)
  have hbackends := filter_append_of_nodup (fun backend : Backend => backend.id.asStr) hids.backends
    (h.mem_iff .backend)
  have hcertificates := filter_append_of_nodup (fun certificate : Certificate => certificate.id.asStr)
    hids.certificates (h.mem_iff .certificate)
  simp only [undo, Additions.onto, hvips, hfrontends, hbackends, hcertificates]

end

/-- Applying a template puts the objects it lists behind those of the document, and undoing it gives the
document back. -/
theorem undo_apply {template : Template} {config : Config} {arguments : Arguments} {applied : Applied}
    (h : apply template config arguments = .ok applied) :
    undo applied.config applied.created = config ∧
      ∃ added : Additions, applied.config = added.onto config ∧ added.Listed applied.created := by
  obtain ⟨-, rfl, haccepted⟩ := apply_eq_ok.mp h
  obtain ⟨added, hconfig, hlisted⟩ := extends_build template arguments config
  refine ⟨?_, added, hconfig, hlisted⟩
  rw [hconfig] at haccepted ⊢
  exact undo_onto (checkDuplicateIds_eq_nil.mp haccepted.duplicateIds) hlisted

/-- A document with one node. -/
def oneNode : Config := { Config.empty with nodes := [⟨⟨"node1"⟩, .v4 ⟨10, 0, 0, 1⟩, [.controlPlane]⟩] }

/-- The values a service on that node is published with. -/
def serviceOn (port : Option UInt16) : Arguments :=
  let shared : Arguments := [⟨"name", .text "one"⟩, ⟨"address", .address (.v4 ⟨10, 0, 0, 100⟩)⟩,
    ⟨"interface", .text "eth0"⟩, ⟨"node", .node ⟨"node1"⟩⟩,
    ⟨"members", .members [⟨⟨"main"⟩, .v4 ⟨10, 0, 0, 11⟩, 8080, 1, .enabled⟩]⟩].toFinmap
  match port with
  | some port => shared.insert "port" (.port port)
  | none => shared

theorem generic_tcp_undone : ∃ applied,
    apply genericTcpTemplate oneNode (serviceOn (some 8080)) = .ok applied ∧
      undo applied.config applied.created = oneNode := by
  have happly : apply genericTcpTemplate oneNode (serviceOn (some 8080)) =
      .ok (build genericTcpTemplate (serviceOn (some 8080)) ⟨oneNode, []⟩) := by
    refine apply_eq_ok.mpr ⟨checkArguments_eq_nil.mpr ⟨by decide, by decide⟩, rfl, ?_⟩
    exact validate_eq_ok.mp (by decide +kernel)
  exact ⟨_, happly, (undo_apply happly).1⟩

end EkEk.Templates
