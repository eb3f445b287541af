import EkEk.Peer.Authority
import EkEk.Raft.Token

/-!
# Joining and leaving

Reference: `crates/ek-ek-raft/src/join.rs`.

Minting a token, admitting a node and removing one each read the local state, decide, and propose a
whole new state. This module is the deciding: what is refused and with which words, what is signed,
and which state is proposed. What becomes of a proposal is up to consensus.

`judge` is everything `admit` does before it writes. A call that presents a token already used under
its own name is finishing a join it started, and any other use of a used token is refused.
-/

namespace EkEk.Raft

open Store Text Checked
open Peer (Library NodeCertificate)

/-- What a joining node sends. -/
structure Ask where
  token : String
  node : String
  address : IpAddr
  peerAddress : String
  requestPem : String
deriving DecidableEq, Repr

/-- The name a joining node asks for. -/
def Ask.name (ask : Ask) : NodeId := ⟨ask.node⟩

/-- What the cluster sends back. -/
structure Answer where
  authorityPem : String
  certificate : NodeCertificate
  notBeforeUnix : ℤ
  notAfterUnix : ℤ
deriving DecidableEq, Repr

/-- One write, as it is proposed. -/
structure Proposal where
  next : Snapshot
  change : Change
  now : ℤ
  audit : List AuditRecord
deriving DecidableEq

def refused (detail : String) : Failure := ⟨.rejected, detail⟩

/-- The state a node holds, refusing to act on an empty one. -/
def held (state : Option Snapshot) : Except Failure Snapshot :=
  found state ⟨.configuration, "this node holds no state, so it can admit nobody"⟩

/-- Who the cluster is, refusing one that has no authority. -/
def authority (state : Snapshot) : Except Failure ClusterIdentity :=
  found state.cluster ⟨.configuration, "this cluster has no authority, so it can admit nobody"⟩

variable (lib : Library)

/-- The fingerprint of the authority. -/
def fingerprint (identity : ClusterIdentity) : Except Failure String :=
  (lib.fingerprint identity.authorityPem).mapError fun failure => ⟨.crypto, failure.detail⟩

/-! ## Minting a token -/

/-- The record a fresh token is kept as. -/
def mintedRecord (token : Token) (actor : String) (now : ℤ) : JoinRecord where
  secretDigest := lib.digest token.secret
  expiresAtUnix := now + lifetimeSeconds
  usedBy := none
  issuedBy := actor
  issuedAtUnix := now

/-- The write that records a fresh token. -/
def minting (state : Snapshot) (token : Token) (actor : String) (now : ℤ) : Proposal where
  next := state.withJoin token.id (mintedRecord lib token actor now)
  change := ⟨actor, "a join token was minted"⟩
  now := now
  audit := [{
    recordedAtUnix := now
    actor := actor
    action := "join_token.minted"
    subject := some token.id.asStr
    detail := some s!"valid for {lifetimeSeconds} seconds" }]

/-- Mint a token and propose to record its digest. -/
def mint (state : Option Snapshot) (actor : String) (now : ℤ) (drawn : Except String Draw) :
    Except Failure (Token × Proposal) := do
  let state ← held state
  let identity ← authority state
  let print ← fingerprint lib identity
  let token ← Token.mint print drawn
  .ok (token, minting lib state token actor now)

/-! ## Admitting a node -/

/-- What is known of a call that may get a certificate. -/
structure Judged where
  state : Snapshot
  token : Token
  record : JoinRecord
  finishing : Bool
  answer : Answer

/-- The reason a join fails with when its signing request does. -/
def certifying (failure : Peer.Failure) : Failure :=
  if failure.reason = .rejected then refused failure.detail else ⟨.crypto, failure.detail⟩

/-- How a refusal names the node that used a token. -/
def usedByName (record : JoinRecord) : String := record.usedBy.elim "another node" NodeId.asStr

/-- What a call that presents a token is checked for, in the order it is checked, and the certificate
it would get. -/
def judgePresented (state : Option Snapshot) (ask : Ask) (now : ℤ) (token : Token) :
    Except Failure Judged := do
  ensure (trim ask.node ≠ "")
    (⟨.configuration, "a node with no name asked to join"⟩ : Failure)
  let state ← held state
  let identity ← authority state
  let print ← fingerprint lib identity
  ensure (token.fingerprint = print)
    (refused "the token was minted by a different cluster than this one")
  ensure (ask.name ∉ state.removed)
    (refused s!"{ask.node} was removed from this cluster and is not readmitted under that name")
  let record ← found (state.joins.lookup token.id)
    (refused "this cluster holds no such join token")
  ensure (lib.digest token.secret = record.secretDigest)
    (refused "the join token secret does not check out")
  ensure (record.usedBy = none ∨ record.usedBy = some ask.name)
    (refused s!"this join token was already used by {usedByName record}")
  ensure (record.usedBy = some ask.name ∨ ¬ record.expired now)
    (refused "this join token has run out")
  let signer ← (Peer.read state).mapError fun failure =>
    (⟨.configuration, failure.detail⟩ : Failure)
  let certificate ← (Peer.certify lib signer ask.requestPem ask.name [ask.address] now).mapError
    certifying
  .ok {
    state := state
    token := token
    record := record
    finishing := record.usedBy = some ask.name
    answer := {
      authorityPem := identity.authorityPem
      certificate := certificate
      notBeforeUnix := certificate.notBeforeUnix
      notAfterUnix := certificate.notAfterUnix } }

/-- Everything a call to be admitted is checked for before anything is written. -/
def judge (state : Option Snapshot) (ask : Ask) (now : ℤ) : Except Failure Judged := do
  let token ← Token.read ask.token
  judgePresented lib state ask now token

/-- The rows of a configuration with a row for a node, added if there is none. -/
def withRow (nodes : List Node) (node : NodeId) (address : IpAddr) : List Node :=
  if ∃ row ∈ nodes, row.id = node then nodes
  else nodes ++ [⟨node, address, [.controlPlane, .dataPlane]⟩]

/-- The state the first call of a join proposes: a row for the node, and its token used. -/
def enrolled (state : Snapshot) (node : NodeId) (address : IpAddr) (id : TokenId)
    (record : JoinRecord) : Snapshot :=
  { state with
    config := { state.config with nodes := withRow state.config.nodes node address }
    joins := state.joins.insert id { record with usedBy := some node } }

/-- The write the first call of a join makes. -/
def enrolling (judged : Judged) (ask : Ask) (now : ℤ) : Proposal where
  next := enrolled judged.state ask.name ask.address judged.token.id judged.record
  change := ⟨ask.node, "a node joined the cluster"⟩
  now := now
  audit := [{
    recordedAtUnix := now
    actor := ask.node
    action := "node.joined"
    subject := some ask.node
    detail := some s!"at {ask.peerAddress} with join token {judged.token.id.asStr}" }]

/-! ## Removing a node -/

/-- The state without a node, and with its name on the refusal list. -/
def putOut (state : Snapshot) (node : NodeId) : Snapshot :=
  { state with
    config := { state.config with nodes := state.config.nodes.filter fun row => row.id ≠ node }
    removed := insert node state.removed }

/-- The write that removes a node. -/
def removing (state : Snapshot) (node : NodeId) (actor : String) (now : ℤ) : Proposal where
  next := putOut state node
  change := ⟨actor, "a node was removed from the cluster"⟩
  now := now
  audit := [{
    recordedAtUnix := now
    actor := actor
    action := "node.removed"
    subject := some node.asStr
    detail := some "the node no longer votes and its peer connections are refused" }]

/-- Check that a node can be removed, and say what is proposed once it no longer votes. -/
def remove (state : Option Snapshot) (node : NodeId) (actor : String) (now : ℤ) :
    Except Failure Proposal := do
  let state ← held state
  ensure (state.config.Names node)
    (⟨.configuration, s!"{node.asStr} is not a node in this cluster"⟩ : Failure)
  .ok (removing state node actor now)

/-! ## What the decisions establish -/

section

variable {lib} {state : Option Snapshot}

theorem mint_eq_ok {actor : String} {now : ℤ} {drawn : Except String Draw} {token : Token}
    {proposal : Proposal} (h : mint lib state actor now drawn = .ok (token, proposal)) :
    ∃ s, state = some s ∧ proposal = minting lib s token actor now := by
  simp only [mint, held, bind_eq_ok, found_eq_ok] at h
  obtain ⟨s, hs, -, -, -, -, minted, -, hminted⟩ := h
  cases hminted
  exact ⟨s, hs, rfl⟩

/-- A minted token is made of what was drawn. -/
theorem draws_of_mint {actor : String} {now : ℤ} {drawn : Except String Draw} {token : Token}
    {proposal : Proposal} (h : mint lib state actor now drawn = .ok (token, proposal)) :
    ∃ draw print, drawn = .ok draw ∧
      token = ⟨⟨hex draw.id.toList⟩, hex draw.secret.toList, print⟩ := by
  simp only [mint, Token.mint, bind_eq_ok, mapError_eq_ok] at h
  obtain ⟨_, _, _, _, print, _, minted, ⟨_, _, draw, hdrawn, htoken⟩, hminted⟩ := h
  cases htoken
  cases hminted
  exact ⟨draw, print, hdrawn, rfl⟩

theorem remove_eq_ok {node : NodeId} {actor : String} {now : ℤ} {proposal : Proposal}
    (h : remove state node actor now = .ok proposal) :
    ∃ s, state = some s ∧ s.config.Names node ∧ proposal = removing s node actor now := by
  simp only [remove, held, bind_eq_ok, found_eq_ok, ensure_eq_ok] at h
  obtain ⟨s, hs, -, hnames, hproposal⟩ := h
  cases hproposal
  exact ⟨s, hs, hnames, rfl⟩

/-- What a call that gets past every check has established. -/
structure Judged.Sound (lib : Library) (state : Option Snapshot) (ask : Ask) (now : ℤ)
    (judged : Judged) : Prop where
  held : state = some judged.state
  token : Token.read ask.token = .ok judged.token
  notRemoved : ask.name ∉ judged.state.removed
  record : judged.state.joins.lookup judged.token.id = some judged.record
  used : judged.record.usedBy = none ∧ judged.finishing = false ∧ ¬ judged.record.expired now ∨
    judged.record.usedBy = some ask.name ∧ judged.finishing = true
  node : judged.answer.certificate.node = ask.name
  key : Peer.publicKey lib ask.requestPem = .ok judged.answer.certificate.key

theorem judge_sound {ask : Ask} {now : ℤ} {judged : Judged}
    (h : judge lib state ask now = .ok judged) : judged.Sound lib state ask now := by
  simp only [judge, judgePresented, Raft.held, bind_eq_ok, found_eq_ok, ensure_eq_ok,
    mapError_eq_ok] at h
  obtain ⟨token, htoken, -, -, s, hs, identity, -, print, -, -, -, -, hremoved, record, hrecord, -,
    -, -, hused, -, hexpired, signer, -, certificate, hcertificate, hjudged⟩ := h
  obtain ⟨hnode, hkey⟩ := Peer.certify_eq_ok hcertificate
  cases hjudged
  refine ⟨hs, htoken, hremoved, hrecord, ?_, hnode, hkey⟩
  rcases hused with hnone | hown
  · have hrun := hexpired.resolve_left (by simp [hnone])
    exact .inl ⟨hnone, by simp [hnone], hrun⟩
  · exact .inr ⟨hown, by simp [hown]⟩

theorem Judged.Sound.usedBy {ask : Ask} {now : ℤ} {judged : Judged}
    (h : judged.Sound lib state ask now) :
    judged.state.usedBy judged.token.id = judged.record.usedBy := by
  rw [Snapshot.usedBy, h.record, Option.bind_some]

/-- The first call of a join finds its token unmarked. -/
theorem Judged.Sound.usedBy_of_first {ask : Ask} {now : ℤ} {judged : Judged}
    (h : judged.Sound lib state ask now) (hfirst : judged.finishing = false) :
    judged.state.usedBy judged.token.id = none := by
  rw [h.usedBy]
  rcases h.used with ⟨hnone, -, -⟩ | ⟨-, hfinishing⟩
  · exact hnone
  · rw [hfirst] at hfinishing
    nomatch hfinishing

/-- The second call finds it marked with the name it asks for. -/
theorem Judged.Sound.usedBy_of_finishing {ask : Ask} {now : ℤ} {judged : Judged}
    (h : judged.Sound lib state ask now) (hfinishing : judged.finishing = true) :
    judged.state.usedBy judged.token.id = some ask.name := by
  rw [h.usedBy]
  rcases h.used with ⟨-, hfirst, -⟩ | ⟨hown, -⟩
  · rw [hfinishing] at hfirst
    nomatch hfirst
  · exact hown

end

/-! ## The states they propose -/

section

variable (state : Snapshot) (node : NodeId) (address : IpAddr) (id : TokenId) (record : JoinRecord)

theorem names_withRow {config : Config} {name : NodeId} :
    ({ config with nodes := withRow config.nodes node address } : Config).Names name ↔
      name = node ∨ config.Names name := by
  simp only [Config.Names, withRow]
  split
  · rename_i hrow
    constructor
    · exact .inr
    · rintro (rfl | h)
      · exact hrow
      · exact h
  · simp only [List.mem_append, List.mem_singleton]
    constructor
    · rintro ⟨row, hrow | rfl, hid⟩
      · exact .inr ⟨row, hrow, hid⟩
      · exact .inl hid.symm
    · rintro (rfl | ⟨row, hrow, hid⟩)
      · exact ⟨_, .inr rfl, rfl⟩
      · exact ⟨row, .inl hrow, hid⟩

@[simp] theorem names_enrolled {name : NodeId} :
    (enrolled state node address id record).config.Names name ↔
      name = node ∨ state.config.Names name :=
  names_withRow node address

theorem usedBy_enrolled (other : TokenId) :
    (enrolled state node address id record).usedBy other =
      if other = id then some node else state.usedBy other := by
  by_cases h : other = id
  · subst h
    simp [enrolled, Snapshot.usedBy]
  · simp [enrolled, Snapshot.usedBy, h, Finmap.lookup_insert_of_ne]

@[simp] theorem names_putOut {name : NodeId} :
    (putOut state node).config.Names name ↔ name ≠ node ∧ state.config.Names name := by
  simp only [Config.Names, putOut, List.mem_filter, decide_eq_true_eq]
  constructor
  · rintro ⟨row, ⟨hrow, hne⟩, rfl⟩
    exact ⟨hne, row, hrow, rfl⟩
  · rintro ⟨hne, row, hrow, rfl⟩
    exact ⟨row, ⟨hrow, hne⟩, rfl⟩

end

end EkEk.Raft
