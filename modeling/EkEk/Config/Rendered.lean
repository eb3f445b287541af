import EkEk.Addresses
import EkEk.Config.Config
import EkEk.Json

/-!
# The objects of a document as JSON

Reference: the `Serialize` derived for the types of `crates/ek-ek-config/src/` and `serde_json::to_value`.

What each object of a document is rendered as. The members of an object stand in the order of their
names. An object is known from what it is rendered as, as long as its times are the machine integers
that they are in the source.
-/

namespace EkEk

/-- A type whose values are rendered as JSON. -/
class Serialize (T : Type) where
  toValue : T → Value

/-- A value is known from what it is rendered as, which is never the value that stands for none. -/
class Serialize.Faithful (T : Type) [Serialize T] : Prop where
  inj : ∀ {x y : T}, toValue x = toValue y → x = y
  ne_null : ∀ x : T, toValue x ≠ .null

open Serialize

namespace Rendered

section

variable {T : Type} [Serialize T]

/-- A value that is rendered the same is the same. -/
@[simp] theorem toValue_inj [Faithful T] {x y : T} : toValue x = toValue y ↔ x = y :=
  ⟨Faithful.inj, congrArg toValue⟩

/-- An enumeration is rendered as the name of its variant. -/
theorem faithful_of_string (name : T → String) (h : ∀ x : T, toValue x = .string (name x))
    (hinj : ∀ x y, name x = name y → x = y) : Faithful T where
  inj {x y} hxy := by
    rw [h, h] at hxy
    exact hinj x y (Value.string.inj hxy)
  ne_null x := by
    rw [h]
    exact Value.noConfusion

/-- A structure is rendered as its fields. -/
theorem faithful_of_object (members : T → List (String × Value))
    (h : ∀ x : T, toValue x = .object (members x))
    (hinj : ∀ x y, members x = members y → x = y) : Faithful T where
  inj {x y} hxy := by
    rw [h, h] at hxy
    exact hinj x y (Value.object.inj hxy)
  ne_null x := by
    rw [h]
    exact Value.noConfusion

end

/-! ## Texts, numbers and lists -/

/-- A text is rendered as itself. -/
instance : Serialize String := ⟨.string⟩

instance : Faithful String := faithful_of_string id (fun _ => rfl) fun _ _ h => h

/-- A switch is rendered as itself. -/
instance : Serialize Bool := ⟨.bool⟩

instance : Faithful Bool where
  inj := Value.bool.inj
  ne_null _ := Value.noConfusion

/-- Every unsigned number is rendered as one of 64 bits. -/
def unsigned (value : ℕ) : Value := .number (.posInt (UInt64.ofNat value))

/-- A number of up to 64 bits is known from what it is rendered as. -/
theorem unsigned_inj {m n : ℕ} (hm : m < 2 ^ 64) (hn : n < 2 ^ 64) (h : unsigned m = unsigned n) :
    m = n := by
  have := congrArg UInt64.toNat (Number.posInt.inj (Value.number.inj h))
  rwa [UInt64.toNat_ofNat_of_lt' hm, UInt64.toNat_ofNat_of_lt' hn] at this

/-- A small number, as the 64 bits that `serde_json` keeps. -/
instance : Serialize UInt8 := ⟨fun value => unsigned value.toNat⟩

/-- Widening a number to 64 bits loses nothing. -/
instance : Faithful UInt8 where
  inj {x y} h := by
    have := x.toNat_lt
    have := y.toNat_lt
    exact UInt8.toNat_inj.mp (unsigned_inj (by omega) (by omega) h)
  ne_null _ := Value.noConfusion

/-- A port or a status. -/
instance : Serialize UInt16 := ⟨fun value => unsigned value.toNat⟩

instance : Faithful UInt16 where
  inj {x y} h := by
    have := x.toNat_lt
    have := y.toNat_lt
    exact UInt16.toNat_inj.mp (unsigned_inj (by omega) (by omega) h)
  ne_null _ := Value.noConfusion

/-- A number of seconds or of connections. -/
instance : Serialize UInt32 := ⟨fun value => unsigned value.toNat⟩

instance : Faithful UInt32 where
  inj {x y} h := by
    have := x.toNat_lt
    have := y.toNat_lt
    exact UInt32.toNat_inj.mp (unsigned_inj (by omega) (by omega) h)
  ne_null _ := Value.noConfusion

/-- A time, a signed number of 64 bits. -/
instance : Serialize ℤ :=
  ⟨fun value => if value < 0 then .number (.negInt (Int64.ofInt value)) else unsigned value.toNat⟩

/-- The times there are in the source. -/
def Fits (time : ℤ) : Prop := -2 ^ 63 ≤ time ∧ time < 2 ^ 63

/-- A time there is in the source is known from what it is rendered as. -/
theorem time_inj {x y : ℤ} (hx : Fits x) (hy : Fits y) (h : toValue x = toValue y) : x = y := by
  obtain ⟨hx, hx'⟩ := hx
  obtain ⟨hy, hy'⟩ := hy
  simp only [toValue] at h
  split at h <;> split at h
  · have := congrArg Int64.toInt (Number.negInt.inj (Value.number.inj h))
    rwa [Int64.toInt_ofInt_of_le (by omega) (by omega), Int64.toInt_ofInt_of_le (by omega) (by omega)] at this
  · cases h
  · cases h
  · have := unsigned_inj (by omega) (by omega) h
    omega

/-- A value that is not there is rendered as `null`. -/
instance {T : Type} [Serialize T] : Serialize (Option T) := ⟨fun value => value.elim .null toValue⟩

/-- Nothing else is rendered as `null`, so whether there is a value is known. -/
@[simp] theorem toValue_option_inj {T : Type} [Serialize T] [Faithful T] {x y : Option T} :
    toValue x = toValue y ↔ x = y := by
  refine ⟨fun h => ?_, congrArg toValue⟩
  cases x with
  | none =>
    cases y with
    | none => rfl
    | some y => exact absurd h.symm (Faithful.ne_null y)
  | some x =>
    cases y with
    | none => exact absurd h (Faithful.ne_null x)
    | some y => rw [Faithful.inj (T := T) h]

/-- A list is rendered in its order. -/
instance {T : Type} [Serialize T] : Serialize (List T) := ⟨fun values => .array (values.map toValue)⟩

/-- A list is known from what its elements are rendered as. -/
instance {T : Type} [Serialize T] [Faithful T] : Faithful (List T) where
  inj h := List.map_injective_iff.mpr (fun _ _ => Faithful.inj) (Value.array.inj h)
  ne_null _ := Value.noConfusion

/-! ## Identifiers and addresses -/

/-- An identifier is rendered as its text (`serde(transparent)`), here and below. -/
instance : Serialize NodeId := ⟨fun id => .string id.asStr⟩

/-- An identifier is known from its text, here and below. -/
instance : Faithful NodeId :=
  faithful_of_string NodeId.asStr (fun _ => rfl) fun ⟨_⟩ ⟨_⟩ h => congrArg _ h

instance : Serialize VipId := ⟨fun id => .string id.asStr⟩

instance : Faithful VipId :=
  faithful_of_string VipId.asStr (fun _ => rfl) fun ⟨_⟩ ⟨_⟩ h => congrArg _ h

instance : Serialize FrontendId := ⟨fun id => .string id.asStr⟩

instance : Faithful FrontendId :=
  faithful_of_string FrontendId.asStr (fun _ => rfl) fun ⟨_⟩ ⟨_⟩ h => congrArg _ h

instance : Serialize BackendId := ⟨fun id => .string id.asStr⟩

instance : Faithful BackendId :=
  faithful_of_string BackendId.asStr (fun _ => rfl) fun ⟨_⟩ ⟨_⟩ h => congrArg _ h

instance : Serialize MemberId := ⟨fun id => .string id.asStr⟩

instance : Faithful MemberId :=
  faithful_of_string MemberId.asStr (fun _ => rfl) fun ⟨_⟩ ⟨_⟩ h => congrArg _ h

instance : Serialize CertificateId := ⟨fun id => .string id.asStr⟩

instance : Faithful CertificateId :=
  faithful_of_string CertificateId.asStr (fun _ => rfl) fun ⟨_⟩ ⟨_⟩ h => congrArg _ h

instance : Serialize DnsProviderId := ⟨fun id => .string id.asStr⟩

instance : Faithful DnsProviderId :=
  faithful_of_string DnsProviderId.asStr (fun _ => rfl) fun ⟨_⟩ ⟨_⟩ h => congrArg _ h

instance : Serialize SecretId := ⟨fun id => .string id.asStr⟩

instance : Faithful SecretId :=
  faithful_of_string SecretId.asStr (fun _ => rfl) fun ⟨_⟩ ⟨_⟩ h => congrArg _ h

/-- An address is rendered as its text. -/
instance : Serialize IpAddr := ⟨fun address => .string address.display⟩

/-- An address is known from its text. -/
instance : Faithful IpAddr :=
  faithful_of_string IpAddr.display (fun _ => rfl) fun _ _ h => IpAddr.display_injective h

/-! ## Nodes and addresses of the cluster -/

/-- The names of the roles, in snake case. -/
instance : Serialize NodeRole where
  toValue
    | .controlPlane => .string "control_plane"
    | .dataPlane => .string "data_plane"

/-- The two roles have different names. -/
instance : Faithful NodeRole where
  inj {x y} h := by cases x <;> cases y <;> simp_all [toValue]
  ne_null x := by cases x <;> exact Value.noConfusion

/-- The fields of a node. -/
instance : Serialize Node where
  toValue node := .object [
    ("address", toValue node.address),
    ("id", toValue node.id),
    ("roles", toValue node.roles)]

/-- A node is known from its fields. -/
instance : Faithful Node := faithful_of_object _ (fun _ => rfl) fun x y h => by
  cases x
  cases y
  simp at h
  simp [h]

/-- The fields of a virtual address. Where no node is preferred, that is `null`. -/
instance : Serialize Vip where
  toValue vip := .object [
    ("address", toValue vip.address),
    ("id", toValue vip.id),
    ("interface", toValue vip.interface),
    ("preferred_node", toValue vip.preferredNode),
    ("prefix_length", toValue vip.prefixLength)]

/-- A virtual address is known from its fields. -/
instance : Faithful Vip := faithful_of_object _ (fun _ => rfl) fun x y h => by
  cases x
  cases y
  simp at h
  simp [h]

/-! ## Frontends -/

/-- The names of the transports. -/
instance : Serialize TransportProtocol where
  toValue
    | .tcp => .string "tcp"
    | .udp => .string "udp"

instance : Faithful TransportProtocol where
  inj {x y} h := by cases x <;> cases y <;> simp_all [toValue]
  ne_null x := by cases x <;> exact Value.noConfusion

/-- The names of the applications, in snake case. -/
instance : Serialize ApplicationProtocol where
  toValue
    | .http => .string "http"
    | .tlsPassthrough => .string "tls_passthrough"
    | .raw => .string "raw"

/-- No two applications have one name. -/
instance : Faithful ApplicationProtocol where
  inj {x y} h := by cases x <;> cases y <;> simp_all [toValue]
  ne_null x := by cases x <;> exact Value.noConfusion

/-- The names of the two ways to compare paths. -/
instance : Serialize PathCase where
  toValue
    | .insensitive => .string "insensitive"
    | .sensitive => .string "sensitive"

instance : Faithful PathCase where
  inj {x y} h := by cases x <;> cases y <;> simp_all [toValue]
  ne_null x := by cases x <;> exact Value.noConfusion

/-- Two of the levels go by the names an operator writes, which are Turkish. -/
instance : Serialize TlsPolicyLevel where
  toValue
    | .modern => .string "modern"
    | .balanced => .string "dengeli"
    | .legacyCompatible => .string "eski-uyumlu"

/-- No two levels have one name. -/
instance : Faithful TlsPolicyLevel where
  inj {x y} h := by cases x <;> cases y <;> simp_all [toValue]
  ne_null x := by cases x <;> exact Value.noConfusion

/-- The fields of TLS settings. -/
instance : Serialize TlsSettings where
  toValue tls := .object [
    ("certificates", toValue tls.certificates),
    ("default_certificate", toValue tls.defaultCertificate),
    ("policy", toValue tls.policy)]

/-- TLS settings are known from their fields. -/
instance : Faithful TlsSettings := faithful_of_object _ (fun _ => rfl) fun x y h => by
  cases x
  cases y
  simp at h
  simp [h]

/-- The names of the versions of the header, and that of none. -/
instance : Serialize ProxyProtocol where
  toValue
    | .disabled => .string "disabled"
    | .v1 => .string "v1"
    | .v2 => .string "v2"

instance : Faithful ProxyProtocol where
  inj {x y} h := by cases x <;> cases y <;> simp_all [toValue]
  ne_null x := by cases x <;> exact Value.noConfusion

/-- The names of the two choices. -/
instance : Serialize Http2 where
  toValue
    | .enabled => .string "enabled"
    | .disabled => .string "disabled"

instance : Faithful Http2 where
  inj {x y} h := by cases x <;> cases y <;> simp_all [toValue]
  ne_null x := by cases x <;> exact Value.noConfusion

/-- The names of the two statuses, in snake case. -/
instance : Serialize RedirectStatus where
  toValue
    | .movedPermanently => .string "moved_permanently"
    | .permanent => .string "permanent"

instance : Faithful RedirectStatus where
  inj {x y} h := by cases x <;> cases y <;> simp_all [toValue]
  ne_null x := by cases x <;> exact Value.noConfusion

/-- What a rule does stands under `type`, beside what it needs for that. -/
instance : Serialize RuleAction where
  toValue
    | .proxy backend => .object [("backend", toValue backend), ("type", .string "proxy")]
    | .redirect status => .object [("status", toValue status), ("type", .string "redirect")]

/-- The tag tells the actions apart, and the other member the rest. -/
instance : Faithful RuleAction where
  inj {x y} h := by
    cases x <;> cases y
    all_goals
      have h := Value.object.inj h
      simp at h
    all_goals simp [h]
  ne_null x := by cases x <;> exact Value.noConfusion

/-- The fields of a rule for requests. -/
instance : Serialize RoutingRule where
  toValue rule := .object [
    ("action", toValue rule.action),
    ("host_pattern", toValue rule.hostPattern),
    ("path_case", toValue rule.pathCase),
    ("path_prefix", toValue rule.pathPrefix),
    ("request_timeout_seconds", toValue rule.requestTimeoutSeconds)]

/-- A rule for requests is known from its fields. -/
instance : Faithful RoutingRule := faithful_of_object _ (fun _ => rfl) fun x y h => by
  cases x
  cases y
  simp at h
  simp [h]

/-- The fields of a rule for connections. -/
instance : Serialize SniRule where
  toValue rule := .object [
    ("backend", toValue rule.backend),
    ("sni_pattern", toValue rule.sniPattern)]

/-- A rule for connections is known from its fields. -/
instance : Faithful SniRule := faithful_of_object _ (fun _ => rfl) fun x y h => by
  cases x
  cases y
  simp at h
  simp [h]

/-- The fields of the settings of the access log. -/
instance : Serialize AccessLog where
  toValue log := .object [
    ("enabled", toValue log.enabled),
    ("sample_one_in", toValue log.sampleOneIn)]

instance : Faithful AccessLog := faithful_of_object _ (fun _ => rfl) fun x y h => by
  cases x
  cases y
  simp at h
  simp [h]

/-- The fields of a listener, all of them whatever it listens for. -/
instance : Serialize Frontend where
  toValue frontend := .object [
    ("access_log", toValue frontend.accessLog),
    ("application", toValue frontend.application),
    ("connect_timeout_seconds", toValue frontend.connectTimeoutSeconds),
    ("default_backend", toValue frontend.defaultBackend),
    ("drain_timeout_seconds", toValue frontend.drainTimeoutSeconds),
    ("http2", toValue frontend.http2),
    ("id", toValue frontend.id),
    ("idle_timeout_seconds", toValue frontend.idleTimeoutSeconds),
    ("port", toValue frontend.port),
    ("proxy_protocol", toValue frontend.proxyProtocol),
    ("request_timeout_seconds", toValue frontend.requestTimeoutSeconds),
    ("routing_rules", toValue frontend.routingRules),
    ("sni_rules", toValue frontend.sniRules),
    ("tls", toValue frontend.tls),
    ("transport", toValue frontend.transport),
    ("udp_session_limit", toValue frontend.udpSessionLimit),
    ("vip", toValue frontend.vip)]

/-- A listener is known from its fields. -/
instance : Faithful Frontend := faithful_of_object _ (fun _ => rfl) fun x y h => by
  cases x
  cases y
  simp at h
  simp [h]

/-! ## Backends -/

/-- How the bytes are written stands under `encoding`. -/
instance : Serialize ProbePayload where
  toValue
    | .text value => .object [("encoding", .string "text"), ("value", toValue value)]
    | .hex value => .object [("encoding", .string "hex"), ("value", toValue value)]

/-- The tag tells a text from the digits that look like it. -/
instance : Faithful ProbePayload where
  inj {x y} h := by
    cases x <;> cases y
    all_goals
      have h := Value.object.inj h
      simp at h
    all_goals simp [h]
  ne_null x := by cases x <;> exact Value.noConfusion

/-- The names of the record types, in small letters. -/
instance : Serialize DnsRecordType where
  toValue
    | .a => .string "a"
    | .aaaa => .string "aaaa"
    | .soa => .string "soa"

instance : Faithful DnsRecordType where
  inj {x y} h := by cases x <;> cases y <;> simp_all [toValue]
  ne_null x := by cases x <;> exact Value.noConfusion

/-- The kind of a probe stands under `type`, beside what that kind asks and expects. -/
instance : Serialize HealthProbe where
  toValue
    | .tcpConnect => .object [("type", .string "tcp_connect")]
    | .http path expectedStatus expectedBody hostHeader => .object [
        ("expected_body", toValue expectedBody), ("expected_status", toValue expectedStatus),
        ("host_header", toValue hostHeader), ("path", toValue path), ("type", .string "http")]
    | .sendExpect send expect transport => .object [
        ("expect", toValue expect), ("send", toValue send), ("transport", toValue transport),
        ("type", .string "send_expect")]
    | .dnsQuery name recordType => .object [
        ("name", toValue name), ("record_type", toValue recordType), ("type", .string "dns_query")]

/-- The tag tells the kinds apart, and the other members the rest. -/
instance : Faithful HealthProbe where
  inj {x y} h := by
    cases x <;> cases y
    all_goals
      have h := Value.object.inj h
      simp at h
    all_goals simp [h]
  ne_null x := by cases x <;> exact Value.noConfusion

/-- The fields of a health check. -/
instance : Serialize HealthCheck where
  toValue check := .object [
    ("healthy_threshold", toValue check.healthyThreshold),
    ("interval_ms", toValue check.intervalMs),
    ("probe", toValue check.probe),
    ("timeout_ms", toValue check.timeoutMs),
    ("unhealthy_threshold", toValue check.unhealthyThreshold)]

/-- A health check is known from its fields. -/
instance : Faithful HealthCheck := faithful_of_object _ (fun _ => rfl) fun x y h => by
  cases x
  cases y
  simp at h
  simp [h]

/-- The names of the states. -/
instance : Serialize AdminState where
  toValue
    | .enabled => .string "enabled"
    | .draining => .string "draining"
    | .disabled => .string "disabled"

instance : Faithful AdminState where
  inj {x y} h := by cases x <;> cases y <;> simp_all [toValue]
  ne_null x := by cases x <;> exact Value.noConfusion

/-- The fields of a member of a pool. -/
instance : Serialize BackendMember where
  toValue member := .object [
    ("address", toValue member.address),
    ("admin_state", toValue member.adminState),
    ("id", toValue member.id),
    ("port", toValue member.port),
    ("weight", toValue member.weight)]

/-- A member of a pool is known from its fields. -/
instance : Faithful BackendMember := faithful_of_object _ (fun _ => rfl) fun x y h => by
  cases x
  cases y
  simp at h
  simp [h]

/-- The names of the algorithms, in snake case. -/
instance : Serialize LoadBalancingAlgorithm where
  toValue
    | .roundRobin => .string "round_robin"
    | .leastConnections => .string "least_connections"
    | .sourceIpHash => .string "source_ip_hash"
    | .consistentHash => .string "consistent_hash"

instance : Faithful LoadBalancingAlgorithm where
  inj {x y} h := by cases x <;> cases y <;> simp_all [toValue]
  ne_null x := by cases x <;> exact Value.noConfusion

/-- The names of the policies. `none` is one of them, and a text like the others. -/
instance : Serialize SameSitePolicy where
  toValue
    | .strict => .string "strict"
    | .lax => .string "lax"
    | .none => .string "none"

/-- No two policies have one name. -/
instance : Faithful SameSitePolicy where
  inj {x y} h := by cases x <;> cases y <;> simp_all [toValue]
  ne_null x := by cases x <;> exact Value.noConfusion

/-- The kind of stickiness stands under `mode`. -/
instance : Serialize SessionStickiness where
  toValue
    | .disabled => .object [("mode", .string "disabled")]
    | .signedCookie cookieName sameSite => .object [
        ("cookie_name", toValue cookieName), ("mode", .string "signed_cookie"),
        ("same_site", toValue sameSite)]

/-- The tag tells a cookie from none. -/
instance : Faithful SessionStickiness where
  inj {x y} h := by
    cases x <;> cases y
    all_goals
      have h := Value.object.inj h
      simp at h
    all_goals simp [h]
  ne_null x := by cases x <;> exact Value.noConfusion

/-- The names of the two choices. -/
instance : Serialize ConnectionPooling where
  toValue
    | .enabled => .string "enabled"
    | .disabled => .string "disabled"

instance : Faithful ConnectionPooling where
  inj {x y} h := by cases x <;> cases y <;> simp_all [toValue]
  ne_null x := by cases x <;> exact Value.noConfusion

/-- The fields of a pool. -/
instance : Serialize Backend where
  toValue backend := .object [
    ("algorithm", toValue backend.algorithm),
    ("connection_lifetime_seconds", toValue backend.connectionLifetimeSeconds),
    ("connection_pool_size", toValue backend.connectionPoolSize),
    ("connection_pooling", toValue backend.connectionPooling),
    ("health_check", toValue backend.healthCheck),
    ("id", toValue backend.id),
    ("members", toValue backend.members),
    ("stickiness", toValue backend.stickiness)]

/-- A pool is known from its fields. -/
instance : Faithful Backend := faithful_of_object _ (fun _ => rfl) fun x y h => by
  cases x
  cases y
  simp at h
  simp [h]

/-! ## Certificates -/

/-- The two times of a certificate. -/
instance : Serialize CertificateValidity where
  toValue validity := .object [
    ("not_after_unix", toValue validity.notAfterUnix),
    ("not_before_unix", toValue validity.notBeforeUnix)]

/-- Where a certificate comes from stands under `type`. -/
instance : Serialize CertificateSource where
  toValue
    | .acmeHttp01 => .object [("type", .string "acme_http01")]
    | .acmeDns01 provider => .object [("provider", toValue provider), ("type", .string "acme_dns01")]
    | .manualUpload => .object [("type", .string "manual_upload")]

/-- The tag tells the sources apart, and the provider the zones. -/
instance : Faithful CertificateSource where
  inj {x y} h := by
    cases x <;> cases y
    all_goals
      have h := Value.object.inj h
      simp at h
    all_goals simp [h]
  ne_null x := by cases x <;> exact Value.noConfusion

/-- The fields of a certificate. -/
instance : Serialize Certificate where
  toValue certificate := .object [
    ("chain", toValue certificate.chain),
    ("id", toValue certificate.id),
    ("private_key", toValue certificate.privateKey),
    ("sni_names", toValue certificate.sniNames),
    ("source", toValue certificate.source),
    ("validity", toValue certificate.validity)]

/-- The names a name server has for the algorithms. -/
instance : Serialize TsigAlgorithm where
  toValue
    | .hmacSha256 => .string "hmac-sha256"
    | .hmacSha512 => .string "hmac-sha512"

instance : Faithful TsigAlgorithm where
  inj {x y} h := by cases x <;> cases y <;> simp_all [toValue]
  ne_null x := by cases x <;> exact Value.noConfusion

/-- The kind of a provider stands under `type`, beside what it is reached with. -/
instance : Serialize DnsProviderConnection where
  toValue
    | .rfc2136 server port zone tsigKeyName tsigAlgorithm tsigSecret => .object [
        ("port", toValue port), ("server", toValue server),
        ("tsig_algorithm", toValue tsigAlgorithm), ("tsig_key_name", toValue tsigKeyName),
        ("tsig_secret", toValue tsigSecret), ("type", .string "rfc2136"), ("zone", toValue zone)]
    | .cloudflare zoneId apiToken apiBase => .object [
        ("api_base", toValue apiBase), ("api_token", toValue apiToken),
        ("type", .string "cloudflare"), ("zone_id", toValue zoneId)]

/-- The tag tells the kinds apart, and the other members the rest. -/
instance : Faithful DnsProviderConnection where
  inj {x y} h := by
    cases x <;> cases y
    all_goals
      have h := Value.object.inj h
      simp at h
    all_goals simp [h]
  ne_null x := by cases x <;> exact Value.noConfusion

/-- The fields of a provider. -/
instance : Serialize DnsProvider where
  toValue provider := .object [
    ("connection", toValue provider.connection),
    ("id", toValue provider.id),
    ("propagation_timeout_secs", toValue provider.propagationTimeoutSecs)]

instance : Faithful DnsProvider := faithful_of_object _ (fun _ => rfl) fun x y h => by
  cases x
  cases y
  simp at h
  simp [h]

/-! ## Certificates with the times there are -/

/-- The times of a certificate are times there are in the source. -/
def Dated (certificate : Certificate) : Prop :=
  ∀ validity ∈ certificate.validity, Fits validity.notBeforeUnix ∧ Fits validity.notAfterUnix

/-- The times of a certificate are known from what they are rendered as, if they are times there are. -/
theorem validity_inj {x y : Option CertificateValidity}
    (hx : ∀ validity ∈ x, Fits validity.notBeforeUnix ∧ Fits validity.notAfterUnix)
    (hy : ∀ validity ∈ y, Fits validity.notBeforeUnix ∧ Fits validity.notAfterUnix)
    (h : toValue x = toValue y) : x = y := by
  cases x with
  | none =>
    cases y with
    | none => rfl
    | some y => exact absurd h Value.noConfusion
  | some x =>
    cases y with
    | none => exact absurd h Value.noConfusion
    | some y =>
      have hmembers := Value.object.inj h
      simp only [List.cons.injEq, Prod.mk.injEq, true_and, and_true] at hmembers
      obtain ⟨hafter, hbefore⟩ := hmembers
      have hafter := time_inj (hx x rfl).2 (hy y rfl).2 hafter
      have hbefore := time_inj (hx x rfl).1 (hy y rfl).1 hbefore
      rw [show x = y from by cases x; cases y; simp_all]

/-- A certificate is known from its fields, if its times are times there are. -/
theorem certificate_inj {x y : Certificate} (hx : Dated x) (hy : Dated y) (h : toValue x = toValue y) :
    x = y := by
  have hmembers := Value.object.inj h
  cases x
  cases y
  simp at hmembers
  obtain ⟨rfl, rfl, rfl, rfl, rfl, hvalidity⟩ := hmembers
  have hvalidity := validity_inj hx hy hvalidity
  dsimp only at hvalidity
  rw [hvalidity]

end Rendered

end EkEk
