import EkEk.Net

/-!
# The configuration document

Reference: `crates/ek-ek-config/src/` (`config.rs`, `node.rs`, `vip.rs`, `frontend.rs`,
`backend.rs`, `health.rs`, `certificate.rs`, `acme.rs`, `logging.rs`, `id.rs`).

The data of the document, field by field. Identifiers are wrapped strings of distinct types, so that
a node is never looked up among the certificates. Times are Unix seconds, kept as integers.
-/

namespace EkEk

/-! ## Identifiers -/

/-- Which node. -/
structure NodeId where
  asStr : String
deriving DecidableEq, Repr

/-- Which virtual address. -/
structure VipId where
  asStr : String
deriving DecidableEq, Repr

/-- Which listener. -/
structure FrontendId where
  asStr : String
deriving DecidableEq, Repr

/-- Which pool. -/
structure BackendId where
  asStr : String
deriving DecidableEq, Repr

/-- Which member of its pool. -/
structure MemberId where
  asStr : String
deriving DecidableEq, Repr

/-- Which certificate. -/
structure CertificateId where
  asStr : String
deriving DecidableEq, Repr

/-- Which DNS provider. -/
structure DnsProviderId where
  asStr : String
deriving DecidableEq, Repr

/-- Which secret. The secret itself is kept apart from the document. -/
structure SecretId where
  asStr : String
deriving DecidableEq, Repr

/-! ## Nodes and addresses -/

/-- What a node does in the cluster. -/
inductive NodeRole where
  | controlPlane
  | dataPlane
deriving DecidableEq, Repr

/-- A node of the cluster. -/
structure Node where
  id : NodeId
  address : IpAddr
  roles : List NodeRole
deriving DecidableEq, Repr

/-- A virtual address the cluster carries. -/
structure Vip where
  id : VipId
  address : IpAddr
  prefixLength : UInt8
  interface : String
  preferredNode : Option NodeId
deriving DecidableEq, Repr

/-! ## Frontends -/

/-- What a listener takes connections or packets over. -/
inductive TransportProtocol where
  | tcp
  | udp
deriving DecidableEq, Repr

/-- What a listener reads of what arrives. -/
inductive ApplicationProtocol where
  | http
  | tlsPassthrough
  | raw
deriving DecidableEq, Repr

/-- Whether a rule tells capital letters in a path from small ones. -/
inductive PathCase where
  | insensitive
  | sensitive
deriving DecidableEq, Repr

/-- How old a client may be. -/
inductive TlsPolicyLevel where
  | modern
  | balanced
  | legacyCompatible
deriving DecidableEq, Repr

/-- How a listener terminates TLS. -/
structure TlsSettings where
  certificates : List CertificateId
  defaultCertificate : Option CertificateId
  policy : TlsPolicyLevel
deriving DecidableEq, Repr

/-- The header that tells a server whose connection it gets. -/
inductive ProxyProtocol where
  | disabled
  | v1
  | v2
deriving DecidableEq, Repr

/-- Whether a listener offers HTTP/2. -/
inductive Http2 where
  | enabled
  | disabled
deriving DecidableEq, Repr

/-- The status of a redirect to HTTPS. -/
inductive RedirectStatus where
  | movedPermanently
  | permanent
deriving DecidableEq, Repr

/-- What is done with a request that a rule matches. -/
inductive RuleAction where
  | proxy (backend : BackendId)
  | redirect (status : RedirectStatus)
deriving DecidableEq, Repr

/-- A rule for requests, by host and path. -/
structure RoutingRule where
  hostPattern : Option String
  pathPrefix : Option String
  pathCase : PathCase
  action : RuleAction
  requestTimeoutSeconds : Option UInt32
deriving DecidableEq, Repr

/-- A rule for connections whose TLS is not terminated here. -/
structure SniRule where
  sniPattern : String
  backend : BackendId
deriving DecidableEq, Repr

/-- Which of the requests of a listener are logged. -/
structure AccessLog where
  enabled : Bool
  sampleOneIn : UInt32
deriving DecidableEq, Repr

/-- A listener on a virtual address. -/
structure Frontend where
  id : FrontendId
  vip : VipId
  port : UInt16
  transport : TransportProtocol
  application : ApplicationProtocol
  tls : Option TlsSettings
  proxyProtocol : ProxyProtocol
  accessLog : AccessLog
  routingRules : List RoutingRule
  sniRules : List SniRule
  defaultBackend : Option BackendId
  http2 : Http2
  connectTimeoutSeconds : UInt32
  requestTimeoutSeconds : UInt32
  idleTimeoutSeconds : UInt32
  drainTimeoutSeconds : UInt32
  udpSessionLimit : UInt32
deriving DecidableEq, Repr

/-! ## Backends -/

/-- The bytes of a probe, as an operator writes them. -/
inductive ProbePayload where
  | text (value : String)
  | hex (value : String)
deriving DecidableEq, Repr

/-- What a DNS probe asks for. -/
inductive DnsRecordType where
  | a
  | aaaa
  | soa
deriving DecidableEq, Repr

/-- A question whose answer says whether a server is well. -/
inductive HealthProbe where
  | tcpConnect
  | http (path : String) (expectedStatus : List UInt16) (expectedBody hostHeader : Option String)
  | sendExpect (send expect : ProbePayload) (transport : TransportProtocol)
  | dnsQuery (name : String) (recordType : DnsRecordType)
deriving DecidableEq, Repr

/-- How often a server is asked, and how many answers decide. -/
structure HealthCheck where
  probe : HealthProbe
  intervalMs : UInt32
  timeoutMs : UInt32
  healthyThreshold : UInt8
  unhealthyThreshold : UInt8
deriving DecidableEq, Repr

/-- Whether an operator wants a member to take traffic. -/
inductive AdminState where
  | enabled
  | draining
  | disabled
deriving DecidableEq, Repr

/-- A server of a pool. -/
structure BackendMember where
  id : MemberId
  address : IpAddr
  port : UInt16
  weight : UInt16
  adminState : AdminState
deriving DecidableEq, Repr

/-- How a member is chosen for a connection. -/
inductive LoadBalancingAlgorithm where
  | roundRobin
  | leastConnections
  | sourceIpHash
  | consistentHash
deriving DecidableEq, Repr

/-- The `SameSite` attribute of the cookie a client is held by. -/
inductive SameSitePolicy where
  | strict
  | lax
  | none
deriving DecidableEq, Repr

/-- Whether a client comes back to the member it had. -/
inductive SessionStickiness where
  | disabled
  | signedCookie (cookieName : String) (sameSite : SameSitePolicy)
deriving DecidableEq, Repr

/-- Whether connections to a server are kept for later requests. -/
inductive ConnectionPooling where
  | enabled
  | disabled
deriving DecidableEq, Repr

/-- A pool of servers traffic is sent to. -/
structure Backend where
  id : BackendId
  members : List BackendMember
  algorithm : LoadBalancingAlgorithm
  healthCheck : Option HealthCheck
  stickiness : SessionStickiness
  connectionPooling : ConnectionPooling
  connectionPoolSize : UInt32
  connectionLifetimeSeconds : UInt32
deriving DecidableEq, Repr

/-! ## Certificates -/

/-- The time a certificate is good for. -/
structure CertificateValidity where
  notBeforeUnix : ℤ
  notAfterUnix : ℤ
deriving DecidableEq, Repr

/-- Where a certificate comes from. -/
inductive CertificateSource where
  | acmeHttp01
  | acmeDns01 (provider : DnsProviderId)
  | manualUpload
deriving DecidableEq, Repr

/-- A certificate, with the identities of its key material. -/
structure Certificate where
  id : CertificateId
  sniNames : List String
  source : CertificateSource
  validity : Option CertificateValidity
  chain : Option SecretId
  privateKey : Option SecretId
deriving DecidableEq, Repr

/-- The hash an update to a name server is signed with. -/
inductive TsigAlgorithm where
  | hmacSha256
  | hmacSha512
deriving DecidableEq, Repr

/-- How the records of a zone are changed. -/
inductive DnsProviderConnection where
  | rfc2136 (server : IpAddr) (port : UInt16) (zone tsigKeyName : String)
      (tsigAlgorithm : TsigAlgorithm) (tsigSecret : SecretId)
  | cloudflare (zoneId : String) (apiToken : SecretId) (apiBase : String)
deriving DecidableEq, Repr

/-- Somebody who publishes the records of a zone. -/
structure DnsProvider where
  id : DnsProviderId
  connection : DnsProviderConnection
  propagationTimeoutSecs : UInt32
deriving DecidableEq, Repr

/-- The certificate authority that is asked, and in whose name. -/
structure AcmeSettings where
  directoryUrl : String
  contactEmail : String
  acceptedTerms : Bool
  trustedRootPem : String
deriving DecidableEq, Repr

/-- The secret the account key of the certificate authority is kept under. -/
def accountKeySecret : SecretId := ⟨"acme.account.key"⟩

/-! ## The document -/

/-- The least severe message that is written. -/
inductive LogLevel where
  | error
  | warn
  | info
  | debug
  | trace
deriving DecidableEq, Repr

/-- Which shape a document has. -/
@[ext]
structure SchemaVersion where
  get : UInt32
deriving DecidableEq, Repr

/-- The schema this build writes. -/
def SchemaVersion.current : SchemaVersion := ⟨1⟩

/-- What an operator configured. -/
structure Config where
  schemaVersion : SchemaVersion
  nodes : List Node
  vips : List Vip
  frontends : List Frontend
  backends : List Backend
  certificates : List Certificate
  dnsProviders : List DnsProvider
  acme : Option AcmeSettings
  stickinessKey : String
  logLevel : LogLevel
  certificateExpiryWarningDays : UInt32
deriving DecidableEq, Repr

namespace Config

/-- A document with nothing in it. -/
def empty : Config where
  schemaVersion := ⟨1⟩
  nodes := []
  vips := []
  frontends := []
  backends := []
  certificates := []
  dnsProviders := []
  acme := none
  stickinessKey := ""
  logLevel := .info
  certificateExpiryWarningDays := 30

/-- Whether the document has a row for a node. -/
def Names (config : Config) (node : NodeId) : Prop := ∃ row ∈ config.nodes, row.id = node

instance (config : Config) (node : NodeId) : Decidable (config.Names node) :=
  inferInstanceAs (Decidable (∃ row ∈ config.nodes, row.id = node))

end Config

end EkEk
