import EkEk.Config.Accepted
import EkEk.Dataplane.Certs
import EkEk.Lib.Checked
import EkEk.Lib.Keyed

/-!
# The listeners of a document

Reference: `bindings` of `crates/ek-ek-dataplane/src/server.rs` and `udp_bindings` of `udpproxy.rs`.

A frontend names its virtual address by identity, and a listener binds what that identity stands for.
The checks of a document compare identities. `listeners_apart_iff` says when the sockets of an accepted
document are told apart, and `settings_placed_iff` when every setting of its frontends sits on a
listener that reads it.

A listener is given the text of its socket address; the address itself is kept here.
-/

namespace EkEk.Dataplane

open Checked Validation

inductive ErrorKind where
  | agentUnreachable
  | agentGone
  | protocol
  | invalidConfig
  | listener
deriving DecidableEq, Repr

structure Error where
  kind : ErrorKind
  diagnostic : String
deriving DecidableEq, Repr

/-- An address and a port. -/
structure SocketAddr where
  ip : IpAddr
  port : UInt16
deriving DecidableEq, Repr

/-- Which path serves a listener. -/
inductive ListenerKind where
  | http
  | stream
  | tlsPassthrough
deriving DecidableEq, Repr

/-- Where a TCP frontend listens, and what it does with what it accepts. -/
structure Binding where
  frontend : String
  address : SocketAddr
  http2 : Bool
  terminatesTls : Bool
  policy : TlsPolicyLevel
  kind : ListenerKind
deriving DecidableEq, Repr

/-- Where a UDP frontend listens. -/
structure UdpBinding where
  frontend : String
  address : SocketAddr
deriving DecidableEq, Repr

/-- The path that serves an application. -/
def kindOf : ApplicationProtocol → ListenerKind
  | .http => .http
  | .raw => .stream
  | .tlsPassthrough => .tlsPassthrough

/-- The frontends of one transport. -/
def carriedBy (transport : TransportProtocol) (config : Config) : List Frontend :=
  config.frontends.filter fun frontend => frontend.transport = transport

/-- The virtual address a frontend names. -/
def vipOf (config : Config) (frontend : Frontend) : Option Vip :=
  config.vips.find? fun vip => vip.id = frontend.vip

/-- The listener of one frontend. -/
def listener (config : Config) (frontend : Frontend) : Except Error Binding := do
  let vip ← found (vipOf config frontend) ⟨.listener, s!"frontend {frontend.id.asStr} names vip " ++
    s!"{frontend.vip.asStr}, which is not in the configuration"⟩
  .ok {
    frontend := frontend.id.asStr
    address := ⟨vip.address, frontend.port⟩
    http2 := frontend.http2 = .enabled
    terminatesTls := frontend.tls.isSome
    policy := frontend.tls.elim .balanced TlsSettings.policy
    kind := kindOf frontend.application }

/-- What a document says to listen on with TCP. -/
def bindings (config : Config) : Except Error (List Binding) :=
  (carriedBy .tcp config).mapM (listener config)

/-- What a document says to listen on with UDP. -/
def udpBindings (config : Config) : List UdpBinding :=
  (carriedBy .udp config).filterMap fun frontend =>
    (vipOf config frontend).map fun vip => ⟨frontend.id.asStr, ⟨vip.address, frontend.port⟩⟩

/-! ## Sockets -/

/-- The socket of a frontend. -/
def socketOf (config : Config) (frontend : Frontend) : Option SocketAddr :=
  (vipOf config frontend).map fun vip => ⟨vip.address, frontend.port⟩

section

variable {config : Config} {frontend : Frontend} {listeners : List Binding}

theorem mem_carriedBy {transport : TransportProtocol} :
    frontend ∈ carriedBy transport config ↔
      frontend ∈ config.frontends ∧ frontend.transport = transport := by
  rw [carriedBy, List.mem_filter, decide_eq_true_eq]

/-- In an accepted document a virtual address is found by its identity. -/
theorem vipOf_eq_some (haccepted : Accepted config) {vip : Vip} (hvip : vip ∈ config.vips)
    (hid : vip.id = frontend.vip) : vipOf config frontend = some vip := by
  have hdistinct := (checkDuplicateIds_eq_nil.mp haccepted.duplicateIds).vips
  have hids : (config.vips.map Vip.id).Nodup := by
    refine List.Nodup.of_map VipId.asStr ?_
    rwa [List.map_map]
  exact (Keyed.find?_eq_some hids).mpr ⟨hvip, hid⟩

theorem exists_vipOf (haccepted : Accepted config) (hfrontend : frontend ∈ config.frontends) :
    ∃ vip ∈ config.vips, vip.id = frontend.vip ∧ vipOf config frontend = some vip := by
  obtain ⟨vip, hvip, hid⟩ :=
    (checkFrontendReferences_eq_nil.mp haccepted.frontendReferences frontend hfrontend).vip
  exact ⟨vip, hvip, hid, vipOf_eq_some haccepted hvip hid⟩

/-- What a listener is made of. -/
structure Listens (config : Config) (frontend : Frontend) (binding : Binding) : Prop where
  name : binding.frontend = frontend.id.asStr
  address : socketOf config frontend = some binding.address
  terminatesTls : binding.terminatesTls = frontend.tls.isSome
  kind : binding.kind = kindOf frontend.application

/-- Every TCP frontend of an accepted document has a listener, in their order. -/
theorem exists_bindings (haccepted : Accepted config) : ∃ listeners,
    bindings config = .ok listeners ∧ List.Forall₂ (Listens config) (carriedBy .tcp config) listeners := by
  refine mapM_forall₂ fun frontend hfrontend => ?_
  obtain ⟨vip, -, -, hvip⟩ := exists_vipOf haccepted (mem_carriedBy.mp hfrontend).1
  refine ⟨_, by rw [listener, hvip, found_some, ok_bind], rfl, ?_, rfl, rfl⟩
  rw [socketOf, hvip]
  rfl

/-! ### Told apart -/

/-- No two virtual addresses of one address carry frontends of one port and transport. -/
def AddressesApart (transport : TransportProtocol) (config : Config) : Prop :=
  ∀ f ∈ carriedBy transport config, ∀ g ∈ carriedBy transport config, f.port = g.port →
    ∀ vip ∈ config.vips, vip.id = f.vip → ∀ other ∈ config.vips, other.id = g.vip →
      vip.address = other.address → vip.id = other.id

/-- The sockets of one transport are told apart exactly when the addresses behind them are: the
identities of the virtual addresses are. -/
theorem sockets_nodup_iff (haccepted : Accepted config) (transport : TransportProtocol) :
    ((carriedBy transport config).map (socketOf config)).Nodup ↔ AddressesApart transport config := by
  have hapart := checkFrontendBindings_eq_nil.mp haccepted.frontendBindings
  have hnodup : (carriedBy transport config).Nodup := (List.Nodup.of_map _ hapart).filter _
  rw [List.nodup_map_iff_inj_on hnodup]
  constructor
  · intro hinj f hf g hg hport vip hvip hid other hother hotherId haddress
    have hsocket : socketOf config f = socketOf config g := by
      rw [socketOf, socketOf, vipOf_eq_some haccepted hvip hid,
        vipOf_eq_some haccepted hother hotherId, Option.map_some, Option.map_some, haddress, hport]
    rw [hid, hotherId, hinj f hf g hg hsocket]
  · intro haddresses f hf g hg hsocket
    obtain ⟨hfmem, hftransport⟩ := mem_carriedBy.mp hf
    obtain ⟨hgmem, hgtransport⟩ := mem_carriedBy.mp hg
    obtain ⟨vip, hvip, hid, hfound⟩ := exists_vipOf haccepted hfmem
    obtain ⟨other, hother, hotherId, hfoundOther⟩ := exists_vipOf haccepted hgmem
    simp only [socketOf, hfound, hfoundOther, Option.map_some, Option.some.injEq,
      SocketAddr.mk.injEq] at hsocket
    obtain ⟨haddress, hport⟩ := hsocket
    -- the check of a document compares identities, so these have to be equal before it applies
    have hsame := haddresses f hf g hg hport vip hvip hid other hother hotherId haddress
    refine List.inj_on_of_nodup_map hapart hfmem hgmem ?_
    rw [binding, binding, ← hid, ← hotherId, hsame, hport, hftransport, hgtransport]

theorem addresses_bindings {frontends : List Frontend}
    (hlistens : List.Forall₂ (Listens config) frontends listeners) :
    (listeners.map Binding.address).map some = frontends.map (socketOf config) := by
  induction hlistens with
  | nil => rfl
  | cons hlistens _ ih =>
    rw [List.map_cons, List.map_cons, List.map_cons, ih, hlistens.address]

theorem addresses_udpBindings (haccepted : Accepted config) :
    ((udpBindings config).map UdpBinding.address).map some =
      (carriedBy .udp config).map (socketOf config) := by
  have hall : ∀ frontend ∈ carriedBy .udp config, frontend ∈ config.frontends :=
    fun frontend h => (mem_carriedBy.mp h).1
  rw [udpBindings]
  generalize carriedBy .udp config = frontends at hall
  induction frontends with
  | nil => rfl
  | cons frontend frontends ih =>
    obtain ⟨vip, -, -, hvip⟩ := exists_vipOf haccepted (hall frontend List.mem_cons_self)
    have hrest := ih fun other h => hall other (List.mem_cons_of_mem _ h)
    rw [List.filterMap_cons, hvip, Option.map_some, List.map_cons, List.map_cons, hrest,
      List.map_cons, socketOf, hvip, Option.map_some]

theorem nodup_map_some {α : Type} {l : List α} : (l.map some).Nodup ↔ l.Nodup :=
  List.nodup_map_iff (Option.some_injective α)

/-- The listeners of an accepted document are told apart exactly when no two virtual addresses of one
address carry frontends of one port and transport. -/
theorem listeners_apart_iff (config : Config) (haccepted : validate config = .ok ()) :
    (∃ listeners, bindings config = .ok listeners ∧ (listeners.map Binding.address).Nodup ∧
      ((udpBindings config).map UdpBinding.address).Nodup) ↔
      AddressesApart .tcp config ∧ AddressesApart .udp config := by
  have haccepted := validate_eq_ok.mp haccepted
  obtain ⟨listeners, hbindings, hlistens⟩ := exists_bindings haccepted
  have htcp : (listeners.map Binding.address).Nodup ↔ AddressesApart .tcp config := by
    rw [← nodup_map_some, addresses_bindings hlistens, sockets_nodup_iff haccepted]
  have hudp : ((udpBindings config).map UdpBinding.address).Nodup ↔ AddressesApart .udp config := by
    rw [← nodup_map_some, addresses_udpBindings haccepted, sockets_nodup_iff haccepted]
  constructor
  · rintro ⟨_, h, htcpApart, hudpApart⟩
    obtain rfl := Except.ok.inj (hbindings.symm.trans h)
    exact ⟨htcp.mp htcpApart, hudp.mp hudpApart⟩
  · rintro ⟨htcpApart, hudpApart⟩
    exact ⟨listeners, hbindings, htcp.mpr htcpApart, hudp.mpr hudpApart⟩

end

/-- A raw TCP frontend with nothing set. -/
def plain (id vip : String) : Frontend where
  id := ⟨id⟩
  vip := ⟨vip⟩
  port := 80
  transport := .tcp
  application := .raw
  tls := none
  proxyProtocol := .disabled
  accessLog := ⟨true, 1⟩
  routingRules := []
  sniRules := []
  defaultBackend := none
  http2 := .disabled
  connectTimeoutSeconds := 0
  requestTimeoutSeconds := 0
  idleTimeoutSeconds := 0
  drainTimeoutSeconds := 0
  udpSessionLimit := 0

/-- Two virtual addresses, the second at a given place, and a frontend on each. -/
def twoVips (second : IpAddr) : Config :=
  { Config.empty with
    vips := [⟨⟨"one"⟩, .v4 ⟨10, 0, 0, 1⟩, 24, "eth0", none⟩, ⟨⟨"two"⟩, second, 24, "eth0", none⟩]
    frontends := [plain "first" "one", plain "second" "two"] }

theorem twoVips_apart : validate (twoVips (.v4 ⟨10, 0, 0, 2⟩)) = .ok () ∧ ∃ listeners,
    bindings (twoVips (.v4 ⟨10, 0, 0, 2⟩)) = .ok listeners ∧
      (listeners.map Binding.address).Nodup ∧
      ((udpBindings (twoVips (.v4 ⟨10, 0, 0, 2⟩))).map UdpBinding.address).Nodup := by
  have haccepted : validate (twoVips (.v4 ⟨10, 0, 0, 2⟩)) = .ok () := by decide
  refine ⟨haccepted, (listeners_apart_iff _ haccepted).mpr ?_⟩
  unfold AddressesApart
  decide

/-- Two virtual addresses at one place are accepted, and their frontends bind one socket. -/
theorem twoVips_collide : validate (twoVips (.v4 ⟨10, 0, 0, 1⟩)) = .ok () ∧ ¬∃ listeners,
    bindings (twoVips (.v4 ⟨10, 0, 0, 1⟩)) = .ok listeners ∧
      (listeners.map Binding.address).Nodup ∧
      ((udpBindings (twoVips (.v4 ⟨10, 0, 0, 1⟩))).map UdpBinding.address).Nodup := by
  refine ⟨by decide, ?_⟩
  rintro ⟨listeners, hbindings, hnodup, -⟩
  have hlisteners : bindings (twoVips (.v4 ⟨10, 0, 0, 1⟩)) = .ok
      [⟨"first", ⟨.v4 ⟨10, 0, 0, 1⟩, 80⟩, false, false, .balanced, .stream⟩,
        ⟨"second", ⟨.v4 ⟨10, 0, 0, 1⟩, 80⟩, false, false, .balanced, .stream⟩] := by decide
  obtain rfl := Except.ok.inj (hlisteners.symm.trans hbindings)
  exact absurd hnodup (by decide)

/-! ## Settings -/

/-- A listener of a frontend by its name. -/
def ListensAs (listeners : List Binding) (frontend : Frontend) (p : Binding → Prop) : Prop :=
  ∃ binding ∈ listeners, binding.frontend = frontend.id.asStr ∧ p binding

/-- Every setting of a frontend sits on a listener that reads it. -/
structure Placed {Loaded : Type} (listeners : List Binding) (certificates : Certificates Loaded)
    (frontend : Frontend) : Prop where
  tls : frontend.tls.isSome →
    ListensAs listeners frontend (fun binding => binding.kind = .http ∧ binding.terminatesTls) ∧
      frontend.id.asStr ∈ certificates.byFrontend
  sniRules : frontend.sniRules ≠ [] →
    ListensAs listeners frontend fun binding => binding.kind = .tlsPassthrough
  routingRules : frontend.routingRules ≠ [] →
    ListensAs listeners frontend fun binding => binding.kind = .http

/-- The settings of a frontend go with the way it is carried and with what it does. -/
structure Fits (frontend : Frontend) : Prop where
  tls : frontend.tls.isSome → frontend.transport = .tcp
  sniRules : frontend.sniRules ≠ [] → frontend.transport = .tcp
  routingRules : frontend.routingRules ≠ [] → frontend.transport = .tcp ∧ frontend.application = .http

section

variable {config : Config} {frontend : Frontend} {listeners : List Binding}

/-- The names of the frontends of an accepted document are told apart, so the listener of a name is
that of the frontend. -/
theorem listensAs_iff (haccepted : Accepted config)
    (hlistens : List.Forall₂ (Listens config) (carriedBy .tcp config) listeners)
    (hfrontend : frontend ∈ config.frontends) {p : Binding → Prop} {q : Prop}
    (hp : ∀ binding, Listens config frontend binding → (p binding ↔ q)) :
    ListensAs listeners frontend p ↔ frontend.transport = .tcp ∧ q := by
  constructor
  · rintro ⟨binding, hbinding, hname, hbindingP⟩
    obtain ⟨other, hother, hotherListens⟩ := exists_of_forall₂ hlistens.flip hbinding
    obtain ⟨hotherMem, htcp⟩ := mem_carriedBy.mp hother
    have hdistinct := (checkDuplicateIds_eq_nil.mp haccepted.duplicateIds).frontends
    have hsame : other.id.asStr = frontend.id.asStr := hotherListens.name.symm.trans hname
    obtain rfl := List.inj_on_of_nodup_map hdistinct hotherMem hfrontend hsame
    exact ⟨htcp, (hp binding hotherListens).mp hbindingP⟩
  · rintro ⟨htcp, hq⟩
    obtain ⟨binding, hbinding, hbindingListens⟩ :=
      exists_of_forall₂ hlistens (mem_carriedBy.mpr ⟨hfrontend, htcp⟩)
    exact ⟨binding, hbinding, hbindingListens.name, (hp binding hbindingListens).mpr hq⟩

theorem kindOf_eq_http {application : ApplicationProtocol} :
    kindOf application = .http ↔ application = .http := by
  cases application <;> simp [kindOf]

theorem kindOf_eq_tlsPassthrough {application : ApplicationProtocol} :
    kindOf application = .tlsPassthrough ↔ application = .tlsPassthrough := by
  cases application <;> simp [kindOf]

variable {Loaded : Type} (load : String → CertificateMaterial → Except LoadFailure Loaded)
  (toLowercase : String → String) (material : Finmap fun _ : CertificateId => CertificateMaterial)

theorem placed_iff (haccepted : Accepted config)
    (hlistens : List.Forall₂ (Listens config) (carriedBy .tcp config) listeners)
    (hfrontend : frontend ∈ config.frontends) :
    Placed listeners (Certificates.build load toLowercase config material) frontend ↔
      Fits frontend := by
  obtain ⟨htlsHttp, hsniPassthrough⟩ :=
    checkTlsPlacement_eq_nil.mp haccepted.tlsPlacement frontend hfrontend
  have htls := listensAs_iff haccepted hlistens hfrontend
    (p := fun binding => binding.kind = .http ∧ binding.terminatesTls)
    (q := frontend.application = .http ∧ frontend.tls.isSome) fun binding h => by
      rw [h.kind, h.terminatesTls, kindOf_eq_http]
  have hsni := listensAs_iff haccepted hlistens hfrontend
    (p := fun binding => binding.kind = .tlsPassthrough)
    (q := frontend.application = .tlsPassthrough) fun binding h => by
      rw [h.kind, kindOf_eq_tlsPassthrough]
  have hrouting := listensAs_iff haccepted hlistens hfrontend
    (p := fun binding => binding.kind = .http) (q := frontend.application = .http) fun binding h => by
      rw [h.kind, kindOf_eq_http]
  constructor
  · rintro ⟨hplacedTls, hplacedSni, hplacedRouting⟩
    exact ⟨fun h => (htls.mp (hplacedTls h).1).1, fun h => (hsni.mp (hplacedSni h)).1,
      fun h => hrouting.mp (hplacedRouting h)⟩
  · rintro ⟨hfitsTls, hfitsSni, hfitsRouting⟩
    refine ⟨fun h => ⟨htls.mpr ⟨hfitsTls h, htlsHttp h, h⟩, ?_⟩,
      fun h => hsni.mpr ⟨hfitsSni h, hsniPassthrough h⟩, fun h => hrouting.mpr (hfitsRouting h)⟩
    exact Certificates.mem_build.mpr ⟨frontend, hfrontend, ⟨h, hfitsTls h⟩, rfl⟩

/-- Every setting of an accepted document sits on a listener that reads it exactly when TLS settings and
server name rules are on TCP frontends, and routing rules on HTTP ones over TCP. -/
theorem settings_placed_iff (config : Config) (haccepted : validate config = .ok ()) :
    (∃ listeners, bindings config = .ok listeners ∧ ∀ frontend ∈ config.frontends,
      Placed listeners (Certificates.build load toLowercase config material) frontend) ↔
      ∀ frontend ∈ config.frontends, Fits frontend := by
  have haccepted := validate_eq_ok.mp haccepted
  obtain ⟨listeners, hbindings, hlistens⟩ := exists_bindings haccepted
  have hplaced : (∀ frontend ∈ config.frontends,
      Placed listeners (Certificates.build load toLowercase config material) frontend) ↔
      ∀ frontend ∈ config.frontends, Fits frontend :=
    forall₂_congr fun frontend h => placed_iff load toLowercase material haccepted hlistens h
  constructor
  · rintro ⟨_, h, hall⟩
    obtain rfl := Except.ok.inj (hbindings.symm.trans h)
    exact hplaced.mp hall
  · intro hall
    exact ⟨listeners, hbindings, hplaced.mpr hall⟩

end

/-- A document with one frontend that terminates TLS. -/
def terminating (transport : TransportProtocol) : Config :=
  { Config.empty with
    vips := [⟨⟨"one"⟩, .v4 ⟨10, 0, 0, 1⟩, 24, "eth0", none⟩]
    frontends := [{ plain "web" "one" with
      transport := transport
      application := .http
      tls := some ⟨[], none, .balanced⟩ }] }

theorem terminating_tcp_placed : validate (terminating .tcp) = .ok () ∧ ∃ listeners,
    bindings (terminating .tcp) = .ok listeners ∧ ∀ frontend ∈ (terminating .tcp).frontends,
      Placed listeners
        (Certificates.build (fun _ _ => .error .chainEmpty) id (terminating .tcp) ∅ : Certificates Unit)
        frontend := by
  have haccepted : validate (terminating .tcp) = .ok () := by decide
  refine ⟨haccepted, (settings_placed_iff _ _ _ _ haccepted).mpr fun frontend h => ?_⟩
  rw [List.mem_singleton.mp h]
  exact ⟨fun _ => rfl, nofun, nofun⟩

/-- TLS settings of a frontend over UDP are accepted, and nothing reads them. -/
theorem terminating_udp_dropped : validate (terminating .udp) = .ok () ∧
    bindings (terminating .udp) = .ok [] ∧ ¬∀ frontend ∈ (terminating .udp).frontends,
      Placed []
        (Certificates.build (fun _ _ => .error .chainEmpty) id (terminating .udp) ∅ : Certificates Unit)
        frontend := by
  refine ⟨by decide, by decide, fun hall => ?_⟩
  obtain ⟨⟨_, hmem, -⟩, -⟩ := (hall _ List.mem_cons_self).tls rfl
  exact absurd hmem List.not_mem_nil

end EkEk.Dataplane
