import EkEk.Lib.Checked
import EkEk.Lib.Overflow
import EkEk.Store.Snapshot

/-!
# The cluster authority

Reference: `crates/ek-ek-peer/src/` (`authority.rs`, `record.rs`, `request.rs`, `fingerprint.rs`,
`error.rs`).

The authority signs the certificates by which the nodes of a cluster know each other. A joining node
sends a signing request and gets a certificate for the key in it. A certificate is modelled by what
it says, and `Library` stands for what OpenSSL and the digest answer.
-/

namespace EkEk.Peer

open Store Checked
open Overflow (saturated)

inductive Reason where
  | crypto
  | configuration
  | storage
  | network
  | rejected
  | protocol
deriving DecidableEq, Repr

/-- One failure, and why. -/
structure Failure where
  reason : Reason
  detail : String
deriving DecidableEq, Repr

/-- The failure of a call into the library. -/
def crypto (what error : String) : Failure := ⟨.crypto, s!"{what}: {error}"⟩

/-- The cluster authority: its certificate and the key that signs with it. -/
structure Authority where
  certificatePem : String
  keyPem : Secret
deriving DecidableEq, Repr

/-- The public half of a node's key, in its encoding. -/
structure PublicKey where
  encoded : String
deriving DecidableEq, Repr

/-- What a node certificate says. -/
structure NodeCertificate where
  issuer : Authority
  node : NodeId
  addresses : List IpAddr
  key : PublicKey
  notBeforeUnix : ℤ
  notAfterUnix : ℤ
deriving DecidableEq, Repr

/-- A signing request that was read: the key in it, and whether the signature on the request is one
of that key. -/
structure SigningRequest where
  publicKey : Except String PublicKey
  verify : Except String Bool

/-- What the cryptographic libraries answer. -/
structure Library where
  /-- The fingerprint of a certificate in PEM. -/
  fingerprint : String → Except Failure String
  /-- Read a signing request in PEM. -/
  request : String → Except String SigningRequest
  /-- Build and sign a certificate that says what is given. -/
  sign : NodeCertificate → Except Failure Unit
  /-- The digest of a secret, in hex. -/
  digest : String → String

/-- The identity the authority's private key is stored under. -/
def authorityKeyId : SecretId := ⟨"cluster-ca.key"⟩

/-- Put an authority into a state. -/
def install (state : Snapshot) (authority : Authority) : Snapshot :=
  (state.withCluster ⟨authority.certificatePem⟩).withSecret authorityKeyId authority.keyPem

/-- Whether a state holds both halves of an authority. -/
def present (state : Snapshot) : Bool :=
  state.cluster.isSome && (state.secrets.lookup authorityKeyId).isSome

/-- Read the authority back out of a state. -/
def read (state : Snapshot) : Except Failure Authority := do
  let identity ← found state.cluster ⟨.storage,
    "this node holds no cluster authority; run `ek-ek cluster init` or join a cluster"⟩
  let key ← found (state.secrets.lookup authorityKeyId) ⟨.storage,
    s!"the cluster authority certificate is stored but {authorityKeyId.asStr} is not"⟩
  .ok ⟨identity.authorityPem, key⟩

/-- How long a node certificate is valid. -/
def nodeLifetimeDays : ℤ := 90

/-- How far back a certificate starts. -/
def clockSkewAllowanceSeconds : ℤ := 300

variable (lib : Library)

/-- Read the public key out of a request, after checking that the sender holds the private one. -/
def publicKey (requestPem : String) : Except Failure PublicKey := do
  let request ← (lib.request requestPem).mapError (crypto "the signing request does not read back")
  let key ← request.publicKey.mapError (crypto "the signing request carries no public key")
  let held ← request.verify.mapError (crypto "the signing request signature could not be checked")
  ensure (held = true)
    (⟨.rejected, "the signing request was not signed with the key it carries"⟩ : Failure)
  .ok key

/-- Sign a certificate for one node against a public key. -/
def signFor (authority : Authority) (node : NodeId) (addresses : List IpAddr) (now : ℤ)
    (key : PublicKey) : Except Failure NodeCertificate := do
  ensure (node.asStr ≠ "")
    (⟨.configuration, "a certificate for a node with no identity was asked for"⟩ : Failure)
  let certificate : NodeCertificate := {
    issuer := authority
    node := node
    addresses := addresses
    key := key
    notBeforeUnix := saturated 63 (now - clockSkewAllowanceSeconds)
    notAfterUnix := saturated 63 (now + nodeLifetimeDays * 86400) }
  lib.sign certificate
  .ok certificate

/-- Sign a request into a node certificate. -/
def certify (authority : Authority) (requestPem : String) (node : NodeId)
    (addresses : List IpAddr) (now : ℤ) : Except Failure NodeCertificate := do
  let key ← publicKey lib requestPem
  signFor lib authority node addresses now key

variable {lib}

/-- A certificate names the node it was asked for and carries the key of the request. -/
theorem certify_eq_ok {authority : Authority} {requestPem : String} {node : NodeId}
    {addresses : List IpAddr} {now : ℤ} {certificate : NodeCertificate}
    (h : certify lib authority requestPem node addresses now = .ok certificate) :
    certificate.node = node ∧ publicKey lib requestPem = .ok certificate.key := by
  simp only [certify, signFor, bind_eq_ok, ensure_eq_ok] at h
  obtain ⟨key, hkey, -, -, -, -, hcertificate⟩ := h
  cases hcertificate
  exact ⟨rfl, hkey⟩

end EkEk.Peer
