import EkEk.Config.Acme
import EkEk.Lib.Acting
import EkEk.Program.Edits
import EkEk.Tls.Acme
import Mathlib.Data.Finset.Sort

/-!
# One order

Reference: `crates/ek-ek/src/acme.rs`.

`obtainOrder` obtains one certificate and files it: it checks what stops an order, reads or makes the
account key, opens the order or takes over the one that is there, drives it, and files what came of it.
Every access to the state, every publication and every withdrawal is a call outward, and the outside
decides what becomes of it. A driver's world has the state, the names the driver thinks it has published,
and what it has done so far.

What is said on standard output is left out.
-/

namespace EkEk.Program

open Store Tls

/-- What becomes of an access to the state. A write that nothing was heard of was made. -/
inductive Storing where
  | fine
  | refused (failure : Failure)
  | unheard (failure : Failure)
deriving DecidableEq, Repr

/-- Challenge answers for the traffic path, by their tokens. -/
abbrev Answers := Finmap fun _ : String => String

/-- Where an order asks, and what it is answered. What is not a function of its arguments alone is
numbered by the calls outward before it. -/
structure Outside (Key : Type) where
  lib : Libraries
  keys : Keys Key
  accountFromPem : List UInt8 → Except Failure Key
  accountToPem : Key → Except Failure (List UInt8)
  accountKey : ℕ → Except Failure Key
  generate : ℕ → Except Failure Key
  /-- Inspecting material ends with an upload, or with the codes of its errors as they are printed. -/
  inspect : List UInt8 → List UInt8 → ℤ → Except String Upload
  now : ℕ → ℤ
  store : ℕ → Storing
  publish : ℕ → DnsProvider → String → (Finmap fun _ : String => List String) → Except Failure Unit
  withdraw : ℕ → DnsProvider → String → Finset String → Except Failure Unit
  writeChallenges : ℕ → String → Answers → Except Failure Unit
  reachable : ℕ → IpAddr × UInt16 → Answers → Finset String → Except Failure Unit

/-- What a driver does that outlives it, with what is known of its end: that it begins anew, and that what
it reached could not be filed. -/
inductive Deed where
  | started
  | unfiled
  | stored (state : Snapshot)
  | published (names : Finset String)
  | withdrawn (names : Finset String)
deriving DecidableEq

/-- What a driver works in. -/
structure World where
  state : Option Snapshot
  live : Finset String
  calls : ℕ
  trace : List Deed

/-- What a driver begins in. -/
def World.start (state : Option Snapshot) : World := ⟨state, ∅, 0, []⟩

/-- How the challenge answer reaches a traffic path. -/
inductive Delivery where
  | file (path : String)
  | replicated
deriving DecidableEq, Repr

/-- Everything one order needs. -/
structure Order where
  config : Config
  delivery : Delivery
  id : CertificateId
  driver : Option NodeId

namespace Order

abbrev Act (α : Type) : Type := Acting Failure World α

/-- A state is there, or it went away. -/
def present (state : Option Snapshot) (detail : String) : Act Snapshot :=
  Acting.lift (editing state detail)

/-- Say how something outside went. -/
def call {α : Type} (outcome : ℕ → Except Failure α) : Act α where
  run world := (outcome world.calls, { world with calls := world.calls + 1 })

/-- Do something that outlives the driver. -/
def does (deed : Deed) : Act Unit where
  run world := (.ok (), { world with trace := world.trace ++ [deed] })

/-- Exchange the names that are thought to be published. -/
def replaceLive (names : Finset String) : Act (Finset String) where
  run world := (.ok world.live, { world with live := names })

variable {Key : Type} (out : Outside Key)

def now : Act ℤ where
  run world := (.ok (out.now world.calls), world)

/-! ## The state -/

/-- The state this node holds. -/
def read : Act (Option Snapshot) where
  run world :=
    let told := { world with calls := world.calls + 1 }
    match out.store world.calls with
    | .fine => (.ok world.state, told)
    | .refused failure | .unheard failure => (.error failure, told)

/-- Read the state, change it and write it back as one step. -/
def update (edit : Option Snapshot → Except Failure Snapshot) : Act Unit where
  run world :=
    let told := { world with calls := world.calls + 1 }
    let written := fun next => { told with state := some next, trace := world.trace ++ [.stored next] }
    match out.store world.calls, edit world.state with
    | .refused failure, _ => (.error failure, told)
    | _, .error failure => (.error failure, told)
    | .fine, .ok next => (.ok (), written next)
    | .unheard failure, .ok next => (.error failure, written next)

/-! ## What an order needs -/

/-- What the configuration says about an order that nothing stops. -/
structure Wanted where
  certificate : Certificate
  kind : Challenge
  settings : AcmeSettings
  bound : Option (IpAddr × UInt16)

variable (order : Order)

/-- A fault of the configuration. -/
def misconfigured (detail : String) : Failure := ⟨.configuration, detail⟩

/-- The challenge a source asks for, if it asks for one. -/
def challengeOf : CertificateSource → Option Challenge
  | .acmeHttp01 => some .http01
  | .acmeDns01 _ => some .dns01
  | .manualUpload => none

/-- Where the challenge of an order is asked for. Nothing listens for a DNS-01 order. -/
def boundFor (config : Config) : Challenge → Except Failure (Option (IpAddr × UInt16))
  | .http01 => do
    let listener ← Checked.found (Validation.http01Listener config)
      (misconfigured "the port 80 listener must be there")
    let vip ← Checked.found (config.vips.find? fun vip => vip.id = listener.vip)
      (misconfigured s!"{listener.id.asStr} is bound to a virtual address that is not defined")
    .ok (some (vip.address, listener.port))
  | .dns01 => .ok none

/-- What the configuration says about an order, or what stops it. -/
def wanted : Except Failure Wanted := do
  let certificate ← Checked.found (held order.config order.id)
    (misconfigured s!"{order.id.asStr} names no certificate")
  let kind ← Checked.found (challengeOf certificate.source)
    (misconfigured s!"{order.id.asStr} is uploaded by hand and is not ordered from anywhere")
  Checked.ensure (certificate.sniNames ≠ []) (misconfigured s!"{order.id.asStr} covers no name")
  let faults := Validation.acmeFaults order.config (some order.id)
  let codes := ", ".intercalate (faults.map fun fault => fault.code.key)
  Checked.ensure (faults = []) (misconfigured s!"{order.id.asStr} cannot be ordered: {codes}")
  let settings ← Checked.found order.config.acme (misconfigured "the ACME settings must be there")
  let bound ← boundFor order.config kind
  .ok ⟨certificate, kind, settings, bound⟩

/-- Read the account key, making one the first time. -/
def accountKey : Act Key := do
  let state ← read out
  match state.bind fun state => state.secrets.lookup accountKeySecret with
  | some held => Acting.lift (out.accountFromPem held.expose)
  | none =>
    let generated ← call out.accountKey
    let pem ← Acting.lift (out.accountToPem generated)
    update out fun state => .ok (accountKeyed state order.config ⟨pem⟩)
    return generated

/-! ## The order record -/

/-- An order that is ready to be driven. -/
structure Opened where
  keyPem : Secret
  resume : Option String
deriving DecidableEq, Repr

/-- The challenge a record keeps. -/
def recorded : Challenge → OrderChallenge
  | .http01 => .http01
  | .dns01 => .dns01

/-- Open the order record, or pick up the one that is already there. -/
def openOrder (kind : Challenge) (names : List String) : Act Opened := do
  let state ← read out
  match state.bind fun state => state.orders.lookup order.id with
  | some held =>
    let state ← read out
    let key ← Acting.lift (Checked.found (state.bind fun state => state.secrets.lookup held.key)
      (misconfigured s!"{order.id.asStr} is running an order whose signing key is not in the state, so it cannot be taken over"))
    return ⟨key, held.orderUrl⟩
  | none =>
    let key ← call out.generate
    let keyPem ← Acting.lift (out.keys.toPem key)
    let startedAt ← now out
    update out fun state =>
      Program.openOrder state order.id names (recorded kind) order.driver startedAt ⟨keyPem⟩
    return ⟨⟨keyPem⟩, none⟩

/-- The first value of every name, which is what the traffic path answers. -/
def flat (entries : Finmap fun _ : String => List String) : Answers :=
  ((entries.keys.sort (· ≤ ·)).filterMap fun name =>
    ((entries.lookup name).bind List.head?).map fun value => ⟨name, value⟩).toFinmap

/-- What every node has to answer. A DNS-01 answer sits at a name server. -/
def answersOf (publication : Publication) : Answers :=
  match publication.kind with
  | some .http01 => flat publication.entries
  | _ => ∅

/-- Put what the order has reached into the state. -/
def fileReached (reached : Tls.Reached) : Act Unit :=
  update out fun state => Program.fileReached state order.id
    ⟨reached.orderUrl, answersOf reached.publication⟩ order.driver

/-- Take the order record and its signing key away. -/
def closeOrder : Act Unit := do
  let state ← read out
  if ∃ held ∈ state, order.id ∈ held.orders then
    update out fun state => Program.closeOrder state order.id

/-! ## Challenge answers -/

/-- Where a challenge answer is put so the certificate authority can read it. -/
inductive Answering where
  | http01 (listener : IpAddr × UInt16) (file : Option String)
  | dns01 (provider : DnsProvider) (secret : String)
deriving DecidableEq, Repr

def Answering.kind : Answering → Challenge
  | .http01 _ _ => .http01
  | .dns01 _ _ => .dns01

/-- Hand records to a name server. -/
def publish (provider : DnsProvider) (secret : String)
    (entries : Finmap fun _ : String => List String) : Act Unit := do
  does (.published entries.keys)
  call fun n => out.publish n provider secret entries

/-- Hand names to a name server whose records go. -/
def withdraw (provider : DnsProvider) (secret : String) (names : Finset String) : Act Unit := do
  does (.withdrawn names)
  call fun n => out.withdraw n provider secret names

/-- Write the live answers where the agent reads them, unless they travel in the state. -/
def writeOut (file : Option String) (answers : Answers) : Act Unit :=
  match file with
  | some path => call fun n => out.writeChallenges n path answers
  | none => pure ()

/-- Put one publication in place and take away what it replaced. -/
def apply (answering : Answering) (reached : Tls.Reached) : Act Unit := do
  let publication := reached.publication
  Acting.lift (publication.meantFor answering.kind)
  match answering with
  | .http01 listener file =>
    let answers := flat publication.entries
    -- recorded before the file is written, so that the cleanup knows of a publication that fails
    let previous ← replaceLive answers.keys
    writeOut out file answers
    call fun n => out.reachable n listener answers previous
  | .dns01 provider secret =>
    let previous ← replaceLive publication.entries.keys
    let gone := previous \ publication.entries.keys
    Acting.onlyIf (publication.entries ≠ ∅) (publish out provider secret publication.entries)
    Acting.onlyIf (gone ≠ ∅) (withdraw out provider secret gone)

/-- The secret the credential of a provider is kept under. -/
def credentialId : DnsProviderConnection → SecretId
  | .rfc2136 _ _ _ _ _ tsigSecret => tsigSecret
  | .cloudflare _ apiToken _ => apiToken

/-- The provider a DNS-01 certificate names, and the credential it uses. -/
def dnsProvider (config : Config) (state : Snapshot) (source : CertificateSource) :
    Except Failure (DnsProvider × String) :=
  match source with
  | .acmeDns01 wanted => do
    let provider ← Checked.found (config.dnsProviders.find? fun provider => provider.id = wanted)
      (misconfigured s!"{wanted.asStr} names no DNS provider")
    let id := credentialId provider.connection
    let held ← Checked.found (state.secrets.lookup id) (misconfigured
      s!"the credential of {provider.id.asStr} is not in the store; put it there with `ek-ek secret set --id {id.asStr}`")
    let credential ← Checked.found (Text.fromUtf8 held.expose)
      (misconfigured s!"the credential of {provider.id.asStr} is not text")
    .ok (provider, credential)
  | _ => .error (misconfigured "this certificate is not obtained with DNS-01")

/-! ## The whole order -/

/-- An order that was opened, with the account it is placed for. -/
structure Opening (Key : Type) where
  wanted : Wanted
  account : Key
  opened : Opened

/-- Everything before the order is there: what stops it, the account key, and the record. -/
def opening : Act (Opening Key) := do
  let wanted ← Acting.lift (wanted order)
  let account ← accountKey out order
  let opened ← openOrder out order wanted.kind wanted.certificate.sniNames
  return ⟨wanted, account, opened⟩

/-- The key an order signs with. A key that does not open closes the order. -/
def signingKey (opened : Opened) : Act Key :=
  match out.keys.fromPem opened.keyPem.expose with
  | .ok key => pure key
  | .error failure => do
    closeOrder out order
    Acting.fail failure

/-- Where the answers of an order go. -/
def answeringFor (wanted : Wanted) : Act Answering :=
  match wanted.kind with
  | .http01 => do
    let bound ← Acting.lift (Checked.found wanted.bound
      (misconfigured "the port 80 listener must be there"))
    return .http01 bound (match order.delivery with
      | .file path => some path
      | .replicated => none)
  | .dns01 => do
    let state ← read out
    let held ← present state "the state went away before the DNS credential could be read"
    let (provider, secret) ← Acting.lift (dnsProvider order.config held wanted.certificate.source)
    return .dns01 provider secret

/-- What an order is driven with. -/
structure Prepared (Key : Type) where
  source : CertificateSource
  settings : AcmeSettings
  account : Key
  names : List String
  kind : Challenge
  plan : Plan Key
  answering : Answering

/-- Everything before the certificate authority is asked. -/
def prepare : Act (Prepared Key) := do
  let opening ← opening out order
  let key ← signingKey out order opening.opened
  let answering ← answeringFor out order opening.wanted
  let certificate := opening.wanted.certificate
  return ⟨certificate.source, opening.wanted.settings, opening.account, certificate.sniNames,
    opening.wanted.kind, ⟨some key, opening.opened.resume⟩, answering⟩

/-- Put what the order has reached into the state, remembering that it could not be. -/
def filed (reached : Tls.Reached) : Act Unit where
  run world :=
    match (fileReached out order reached).run world with
    | (.error failure, world) => (.error failure, ((does .unfiled).run world).2)
    | (.ok (), world) => (.ok (), world)

/-- What has to outlive a driver goes into the state before the request that depends on it goes out. -/
def recordReached (answering : Answering) (reached : Tls.Reached) : Act Unit := do
  filed out order reached
  apply out answering reached

/-- Drive an order that was prepared. -/
def driven (prepared : Prepared Key) (replies : Replies) (world : World) : Ran Obtained World :=
  obtainPlanned out.lib out.keys prepared.account
    (fun reached => (recordReached out order prepared.answering reached).run)
    prepared.settings prepared.names prepared.kind prepared.plan out.generate replies world

/-- Read the certificate back out of the store and check that it can be served. -/
def usable (id : CertificateId) : Act (List String) := do
  let state ← read out
  let state ← present state "the store holds nothing after the write"
  let chain ← Acting.lift (Checked.found (state.secrets.lookup (chainId id))
    (misconfigured "the chain is not in the store"))
  let key ← Acting.lift (Checked.found (state.secrets.lookup (keyId id))
    (misconfigured "the key is not in the store"))
  let inspectedAt ← now out
  let upload ← Acting.lift ((out.inspect chain.expose key.expose inspectedAt).mapError fun codes =>
    misconfigured s!"what came back out of the store cannot be served: {codes}")
  return upload.sniNames

/-- What follows the drive. -/
def finish (prepared : Prepared Key) : Except Failure Obtained → Act Unit
  | .error failure => do
    closeOrder out order
    Acting.fail failure
  | .ok obtained => do
    let inspectedAt ← now out
    let upload ← Acting.lift ((out.inspect obtained.chainPem obtained.keyPem inspectedAt).mapError fun codes =>
      (⟨.protocol, s!"the certificate the server issued is not usable: {codes}"⟩ : Failure))
    -- the certificate and the end of the order in one write
    update out fun state => .ok (obtainedOrder state order.config order.id prepared.source upload)
    let _ ← usable out order.id
    return

/-- Obtain one certificate the way the order says. -/
def obtainOrder (replies : Replies) (state : Option Snapshot) : Ran Unit World :=
  match (prepare out order).run (.start state) with
  | (.error failure, world) => ⟨some (.error failure), world, replies⟩
  | (.ok prepared, world) =>
    let driven := driven out order prepared replies world
    match driven.outcome with
    | none => ⟨none, driven.world, driven.left⟩
    | some outcome =>
      let (outcome, world) := (finish out order prepared outcome).run driven.world
      ⟨some outcome, world, driven.left⟩

end Order

end EkEk.Program
