import EkEk.Lib.Runs
import EkEk.Program.Edits
import EkEk.Raft.Join
import EkEk.Raft.Types
import EkEk.Store.Sqlite

/-!
# The calls of a cluster, one after the other

Reference: `crates/ek-ek-raft/src/cluster.rs` and `join.rs`, and `apply_once` of
`crates/ek-ek/src/cluster.rs`.

A `Cluster` is the store of the node that leads and the membership consensus works with. A call puts
its writes and its membership changes to consensus, and each of these is agreed and heard, refused,
or agreed without the caller hearing of it; which one is an input of the call. A membership change
replaces the set of voters in one step.

Names are turned into the numbers of consensus by `identity`, which is a digest in the source and any
function here.
-/

namespace EkEk.Raft

open Store Text
open Peer (Library)

/-! ## Consensus -/

/-- What becomes of something that is put to consensus. -/
inductive Agreement (ε : Type*) where
  | done
  | refused (error : ε)
  | unheard (error : ε)
deriving DecidableEq, Repr

namespace Agreement

variable {ε ε' α β : Type*}

/-- Whether it is agreed, heard or not. -/
def lands : Agreement ε → Bool
  | done => true
  | refused _ => false
  | unheard _ => true

/-- What is there afterwards, and what the caller is told. -/
def settle (agreement : Agreement ε) (before after : α) (told : β) : α × Except ε β :=
  match agreement with
  | done => (after, .ok told)
  | refused error => (before, .error error)
  | unheard error => (after, .error error)

theorem settle_fst (agreement : Agreement ε) (before after : α) (told : β) :
    (agreement.settle before after told).1 = if agreement.lands then after else before := by
  cases agreement <;> rfl

end Agreement

def PeerNode.node (peer : PeerNode) : NodeId := ⟨peer.name⟩

/-- Who takes part in consensus: the numbers that vote, and what is known of each number. -/
structure Membership where
  voters : Finset UInt64
  nodes : Finmap fun _ : UInt64 => PeerNode

/-- The leader's store and the membership. -/
structure Cluster where
  store : SqliteStore
  membership : Membership

namespace Cluster

variable (lib : Library) (identity : NodeId → UInt64)

/-- Which nodes vote, by the name each was added under. -/
def voters (cluster : Cluster) : Finset NodeId :=
  cluster.membership.voters.biUnion fun number =>
    ((cluster.membership.nodes.lookup number).map PeerNode.node).toFinset

/-- The state the leader holds. -/
def read (cluster : Cluster) : Option Snapshot := cluster.store.state

/-- The node a token was used by, as far as the leader's state says. -/
def usedBy (cluster : Cluster) (id : TokenId) : Option NodeId :=
  cluster.read.bind fun state => state.usedBy id

/-- Replace the state, with a version and audit rows. -/
def writeAudited (cluster : Cluster) (proposal : Proposal) (agreement : Agreement Failure) :
    Cluster × Except Failure VersionId :=
  let (store, version) :=
    cluster.store.applyWrite proposal.next proposal.change proposal.now proposal.audit
  agreement.settle cluster { cluster with store := store } version

/-- Add a node as a learner and then as a voter. A number that is known already keeps what is known
of it. -/
def addVoter (cluster : Cluster) (node : NodeId) (address : String)
    (learner change : Agreement String) : Cluster × Except Failure Unit :=
  let nodes := cluster.membership.nodes
  let known :=
    if identity node ∈ nodes then nodes
    else nodes.insert (identity node) ⟨node.asStr, address⟩
  let learning := { cluster.membership with nodes := known }
  match learner.settle cluster { cluster with membership := learning } () with
  | (cluster, .error error) =>
    (cluster, .error ⟨.consensus, s!"{node.asStr} could not be added: {error}"⟩)
  | (cluster, .ok ()) =>
    let membership := cluster.membership
    let voting := { membership with voters := insert (identity node) membership.voters }
    let (cluster, told) := change.settle cluster { cluster with membership := voting } ()
    (cluster, told.mapError fun error =>
      ⟨.consensus, s!"the membership could not be changed: {error}"⟩)

/-- Take a node's vote. The number stays known. -/
def removeVoter (cluster : Cluster) (node : NodeId) (change : Agreement String) :
    Cluster × Except Failure Unit :=
  let membership := cluster.membership
  if identity node ∉ membership.voters then
    (cluster, .error ⟨.configuration, s!"{node.asStr} is not a voter in this cluster"⟩)
  else if membership.voters.erase (identity node) = ∅ then
    (cluster, .error ⟨.configuration, s!"{node.asStr} is the only voter left, and a cluster " ++
      "with none cannot elect anything"⟩)
  else
    let left := { membership with voters := membership.voters.erase (identity node) }
    let (cluster, told) := change.settle cluster { cluster with membership := left } ()
    (cluster, told.mapError fun error =>
      ⟨.consensus, s!"{node.asStr} could not be removed: {error}"⟩)

/-! ## The calls -/

/-- Mint a token. -/
def mint (cluster : Cluster) (actor : String) (now : ℤ) (drawn : Except String Draw)
    (write : Agreement Failure) : Cluster × Except Failure Token :=
  match Raft.mint lib cluster.read actor now drawn with
  | .error failure => (cluster, .error failure)
  | .ok (token, proposal) =>
    let (cluster, told) := cluster.writeAudited proposal write
    (cluster, told.map fun _ => token)

/-- What is done about a call to be admitted once it was judged. The first call of a join writes the
row and the used token, the second makes the node a voter. -/
def admitJudged (cluster : Cluster) (judgement : Except Failure Judged) (ask : Ask) (now : ℤ)
    (write : Agreement Failure) (learner change : Agreement String) :
    Cluster × Except Failure Answer :=
  match judgement with
  | .error failure => (cluster, .error failure)
  | .ok judged =>
    if judged.finishing then
      if ask.name ∈ cluster.voters then (cluster, .ok judged.answer)
      else
        let (cluster, told) := cluster.addVoter identity ask.name ask.peerAddress learner change
        (cluster, told.map fun _ => judged.answer)
    else
      let (cluster, told) := cluster.writeAudited (enrolling judged ask now) write
      (cluster, told.map fun _ => judged.answer)

/-- Admit a node. -/
def admitNode (cluster : Cluster) (ask : Ask) (now : ℤ) (write : Agreement Failure)
    (learner change : Agreement String) : Cluster × Except Failure Answer :=
  cluster.admitJudged identity (judge lib cluster.read ask now) ask now write learner change

/-- Put a node out: its vote first, then its row. -/
def remove (cluster : Cluster) (node : NodeId) (actor : String) (now : ℤ)
    (change : Agreement String) (write : Agreement Failure) : Cluster × Except Failure Unit :=
  match Raft.remove cluster.read node actor now with
  | .error failure => (cluster, .error failure)
  | .ok proposal =>
    match cluster.removeVoter identity node change with
    | (cluster, .error failure) => (cluster, .error failure)
    | (cluster, .ok ()) =>
      let (cluster, told) := cluster.writeAudited proposal write
      (cluster, told.map fun _ => ())

/-- The write that applies a document. -/
def applying (state : Option Snapshot) (document : Config) (now : ℤ) : Proposal where
  next := Program.applied state document
  change := ⟨"operator", "applied from a file"⟩
  now := now
  audit := []

/-- Apply a document an operator wrote, once it could be read. -/
def applyOnce (cluster : Cluster) (document : Config) (now : ℤ) (write : Agreement Failure) :
    Cluster × Except Failure VersionId :=
  cluster.writeAudited (applying cluster.read document now) write

/-- Return to the configuration of a kept version. -/
def rollBackTo (cluster : Cluster) (id : VersionId) (change : Change) (now : ℤ) :
    Cluster × Except Error VersionId :=
  match cluster.store.rollBackTo id change now with
  | .error error => (cluster, .error error)
  | .ok (store, version) => ({ cluster with store := store }, .ok version)

end Cluster

/-- One call, with what consensus makes of what it proposes. -/
inductive Call where
  | mint (actor : String) (now : ℤ) (drawn : Except String Draw) (write : Agreement Failure)
  | admitNode (ask : Ask) (now : ℤ) (write : Agreement Failure) (learner change : Agreement String)
  | remove (node : NodeId) (actor : String) (now : ℤ) (change : Agreement String)
      (write : Agreement Failure)
  | applyOnce (document : Config) (now : ℤ) (write : Agreement Failure)
  | rollBackTo (id : VersionId) (change : Change) (now : ℤ)

namespace Cluster

variable (lib : Library) (identity : NodeId → UInt64)

/-- The cluster after a call. -/
def step (cluster : Cluster) : Call → Cluster
  | .mint actor now drawn write => (cluster.mint lib actor now drawn write).1
  | .admitNode ask now write learner change =>
    (cluster.admitNode lib identity ask now write learner change).1
  | .remove node actor now change write => (cluster.remove identity node actor now change write).1
  | .applyOnce document now write => (cluster.applyOnce document now write).1
  | .rollBackTo id change now => (cluster.rollBackTo id change now).1

/-! ## What a call leaves behind -/

theorem usedBy_of_read {cluster : Cluster} {state : Snapshot} (h : cluster.read = some state)
    (id : TokenId) : cluster.usedBy id = state.usedBy id := by
  rw [usedBy, h, Option.bind_some]

section

variable (cluster : Cluster)

@[simp] theorem read_writeAudited (proposal : Proposal) (agreement : Agreement Failure) :
    (cluster.writeAudited proposal agreement).1.read =
      if agreement.lands then some proposal.next else cluster.read := by
  simp only [writeAudited, Agreement.settle_fst]
  split <;> rfl

@[simp] theorem membership_writeAudited (proposal : Proposal) (agreement : Agreement Failure) :
    (cluster.writeAudited proposal agreement).1.membership = cluster.membership := by
  simp only [writeAudited, Agreement.settle_fst]
  split <;> rfl

@[simp] theorem read_addVoter (node : NodeId) (address : String)
    (learner change : Agreement String) :
    (cluster.addVoter identity node address learner change).1.read = cluster.read := by
  simp only [addVoter]
  cases learner <;> cases change <;> rfl

@[simp] theorem read_removeVoter (node : NodeId) (change : Agreement String) :
    (cluster.removeVoter identity node change).1.read = cluster.read := by
  simp only [removeVoter]
  split
  · rfl
  · split
    · rfl
    · cases change <;> rfl

end

section

variable {cluster : Cluster} {ask : Ask} {now : ℤ} {write : Agreement Failure}
  {learner change : Agreement String} {judged : Judged}

/-- A mint that is not refused writes its token if consensus agrees. -/
theorem read_mint_of_ok {actor : String} {drawn : Except String Draw} {token : Token}
    {proposal : Proposal}
    (h : Raft.mint lib cluster.read actor now drawn = .ok (token, proposal)) :
    (cluster.mint lib actor now drawn write).1.read =
      if write.lands then some proposal.next else cluster.read := by
  simp only [mint, h, read_writeAudited]

/-- The first call of a join writes the row and the used token if consensus agrees. -/
theorem read_admitNode_of_first (h : judge lib cluster.read ask now = .ok judged)
    (hfirst : judged.finishing = false) :
    (cluster.admitNode lib identity ask now write learner change).1.read =
      if write.lands then
        some (enrolled judged.state ask.name ask.address judged.token.id judged.record)
      else cluster.read := by
  simp only [admitNode, admitJudged, h, hfirst, Bool.false_eq_true, if_false, read_writeAudited]
  rfl

/-- The second call leaves the state alone. -/
theorem read_admitNode_of_finishing (h : judge lib cluster.read ask now = .ok judged)
    (hfinishing : judged.finishing = true) :
    (cluster.admitNode lib identity ask now write learner change).1.read = cluster.read := by
  simp only [admitNode, admitJudged, h, hfinishing, if_true]
  split
  · rfl
  · exact read_addVoter identity cluster _ _ _ _

/-- A call that is answered was let in, and got the certificate that was signed for it. -/
theorem judge_of_answered {answer : Answer}
    (h : (cluster.admitNode lib identity ask now write learner change).2 = .ok answer) :
    ∃ judged, judge lib cluster.read ask now = .ok judged ∧ judged.answer = answer := by
  cases hjudge : judge lib cluster.read ask now with
  | error failure =>
    rw [admitNode, hjudge] at h
    nomatch h
  | ok judged =>
    refine ⟨judged, rfl, ?_⟩
    simp only [admitNode, admitJudged, hjudge] at h
    split at h
    · split at h
      · exact Except.ok.inj h
      · obtain ⟨-, -, hanswer⟩ := Checked.map_eq_ok.mp h
        exact hanswer
    · obtain ⟨-, -, hanswer⟩ := Checked.map_eq_ok.mp h
      exact hanswer

end

/-- The states a call can put in place of the one it read. -/
inductive Writes (cluster : Cluster) : Call → Snapshot → Prop
  | mint {state : Snapshot} {token : Token} {proposal : Proposal} {actor : String} {now : ℤ}
      {drawn : Except String Draw} {write : Agreement Failure} (hread : cluster.read = some state)
      (hmint : Raft.mint lib cluster.read actor now drawn = .ok (token, proposal))
      (hlands : write.lands) :
      Writes cluster (.mint actor now drawn write)
        (state.withJoin token.id (mintedRecord lib token actor now))
  | enrol {judged : Judged} {ask : Ask} {now : ℤ} {write : Agreement Failure}
      {learner change : Agreement String}
      (hjudge : judge lib cluster.read ask now = .ok judged) (hfirst : judged.finishing = false)
      (hlands : write.lands) :
      Writes cluster (.admitNode ask now write learner change)
        (enrolled judged.state ask.name ask.address judged.token.id judged.record)
  | remove {state : Snapshot} {node : NodeId} {actor : String} {now : ℤ}
      {change : Agreement String} {write : Agreement Failure} (hread : cluster.read = some state)
      (hnames : state.config.Names node) (hlands : write.lands) :
      Writes cluster (.remove node actor now change write) (putOut state node)
  | applyOnce {document : Config} {now : ℤ} {write : Agreement Failure} (hlands : write.lands) :
      Writes cluster (.applyOnce document now write) (Program.applied cluster.read document)
  | rollBackTo {id : VersionId} {change : Change} {now : ℤ} {version : Version}
      {current : Snapshot} (hversion : cluster.store.version id = some version)
      (hschema : version.schemaVersion = cluster.store.target)
      (hread : cluster.read = some current) :
      Writes cluster (.rollBackTo id change now)
        (SqliteStore.rolledBack current version.document)

/-- A call leaves the state as it was, or writes one of the states it can write. -/
theorem read_step (cluster : Cluster) (call : Call) :
    (cluster.step lib identity call).read = cluster.read ∨
      ∃ next, cluster.Writes lib call next ∧ (cluster.step lib identity call).read = some next := by
  cases call with
  | mint actor now drawn write =>
    cases hmint : Raft.mint lib cluster.read actor now drawn with
    | error failure => exact .inl (by simp only [step, mint, hmint])
    | ok minted =>
      obtain ⟨token, proposal⟩ := minted
      obtain ⟨state, hread, rfl⟩ := mint_eq_ok hmint
      rw [step, read_mint_of_ok lib hmint]
      split
      · rename_i hlands
        exact .inr ⟨_, .mint hread hmint hlands, rfl⟩
      · exact .inl rfl
  | admitNode ask now write learner change =>
    cases hjudge : judge lib cluster.read ask now with
    | error failure => exact .inl (by simp only [step, admitNode, admitJudged, hjudge])
    | ok judged =>
      cases hfinishing : judged.finishing with
      | true => exact .inl (read_admitNode_of_finishing lib identity hjudge hfinishing)
      | false =>
        rw [step, read_admitNode_of_first lib identity hjudge hfinishing]
        split
        · rename_i hlands
          exact .inr ⟨_, .enrol hjudge hfinishing hlands, rfl⟩
        · exact .inl rfl
  | remove node actor now change write =>
    simp only [step, remove]
    cases hremove : Raft.remove cluster.read node actor now with
    | error failure => exact .inl rfl
    | ok proposal =>
      obtain ⟨state, hread, hnames, rfl⟩ := remove_eq_ok hremove
      -- the voter goes first, and that leaves the state alone whether or not it succeeds
      have hvoter := read_removeVoter identity cluster node change
      rcases hvote : cluster.removeVoter identity node change with ⟨after, told⟩
      rw [hvote] at hvoter
      cases told with
      | error failure => exact .inl hvoter
      | ok _ =>
        simp only [read_writeAudited]
        split
        · rename_i hlands
          exact .inr ⟨_, .remove hread hnames hlands, rfl⟩
        · exact .inl hvoter
  | applyOnce document now write =>
    simp only [step, applyOnce, read_writeAudited]
    split
    · rename_i hlands
      exact .inr ⟨_, .applyOnce hlands, rfl⟩
    · exact .inl rfl
  | rollBackTo id change now =>
    simp only [step, rollBackTo, SqliteStore.rollBackTo]
    cases hrestoring : cluster.store.restoring id with
    | error error => exact .inl rfl
    | ok snapshot =>
      obtain ⟨version, current, hversion, hschema, hread, rfl⟩ :=
        SqliteStore.restoring_eq_ok hrestoring
      exact .inr ⟨_, .rollBackTo hversion hschema hread, rfl⟩

end Cluster

/-! ## A cluster to run the calls on -/

section

/-- A cluster as the founding commands leave it: an authority, one version, and the nodes of the
document voting. -/
def founded (identity : NodeId → UInt64) (config : Config) : Cluster where
  store := ((SqliteStore.create config.schemaVersion).writeVersion
    (Peer.install (.new config) ⟨"authority", ⟨[1]⟩⟩) ⟨"founder", "cluster created"⟩ none 0 []).1
  membership := {
    voters := (config.nodes.map fun row => identity row.id).toFinset
    nodes := (config.nodes.map fun row =>
      (⟨identity row.id, ⟨row.id.asStr, "peer"⟩⟩ : Sigma fun _ : UInt64 => PeerNode)).toFinmap }

def nodeA : NodeId := ⟨"node-a"⟩

def nodeB : NodeId := ⟨"node-b"⟩

def nodeC : NodeId := ⟨"node-c"⟩

/-- The numbers the source derives from three names. -/
def numbered (node : NodeId) : UInt64 :=
  if node = nodeA then 0xa451af1da8097b5c
  else if node = nodeB then 0x88af09d188920743
  else 0x7c71340a12fdc8ff

/-- A row of a document. -/
def row (node : NodeId) (last : UInt8) : Node :=
  ⟨node, .v4 ⟨10, 0, 0, last⟩, [.controlPlane, .dataPlane]⟩

/-- A document with the rows given. -/
def documentOf (nodes : List Node) : Config := { Config.empty with nodes := nodes }

/-- The fingerprint of the founding authority. -/
def print : String := "00000000000000000000000000000000000000000000000000000000000000ff"

/-- A library that reads every request, signs every certificate, and knows the digests of the two
secrets below. -/
def signing : Library where
  fingerprint _ := .ok print
  request pem := .ok ⟨.ok ⟨pem⟩, .ok true⟩
  sign _ := .ok ()
  digest secret :=
    if secret = "1111111111111111111111111111111111111111111111111111111111111111" then
      "3138bb9bc78df27c473ecfd1410f7bd45ebac1f59cf3ff9cfe4db77aab7aedd3"
    else "4f2e8d65483c641648cdb374ae9d8abd368d269e4ddffe092a8237b8162cddd6"

/-- Draws that repeat one byte. -/
def drawOf (byte : UInt8) : Draw := ⟨.replicate 8 byte, .replicate 32 byte⟩

/-- The token minted from such draws. -/
def tokenOf (byte : UInt8) : Token where
  id := ⟨hex (drawOf byte).id.toList⟩
  secret := hex (drawOf byte).secret.toList
  fingerprint := print

/-- A cluster of one that has minted such a token, at second 10. -/
def Cluster.withToken : Cluster :=
  (founded numbered (documentOf [row nodeA 1])).step signing numbered
    (.mint "operator" 10 (.ok (drawOf 0x11)) .done)

/-- A node asking to join, with a signing request. -/
def asking (byte : UInt8) (node : NodeId) (requestPem : String) : Ask where
  token := (tokenOf byte).word
  node := node.asStr
  address := .v4 ⟨10, 0, 0, 9⟩
  peerAddress := "peer"
  requestPem := requestPem

theorem mint_drawOf (byte : UInt8) : Token.mint print (.ok (drawOf byte)) = .ok (tokenOf byte) := by
  have hprint : wellFormed print := by decide +kernel
  rw [Token.mint, Checked.ensure, if_pos hprint, Checked.ok_bind, Checked.mapError_ok, Checked.ok_bind,
    tokenOf]

theorem read_asking (byte : UInt8) (node : NodeId) (requestPem : String) :
    Token.read (asking byte node requestPem).token = .ok (tokenOf byte) :=
  Token.read_word (Token.mint_shaped (mint_drawOf byte))

/-- Reading the word of such a token gives the token, so a run need not take the word apart. -/
theorem judge_asking (byte : UInt8) (node : NodeId) (requestPem : String) (lib : Library)
    (state : Option Snapshot) (now : ℤ) :
    judge lib state (asking byte node requestPem) now =
      judgePresented lib state (asking byte node requestPem) now (tokenOf byte) := by
  rw [judge, read_asking, Checked.ok_bind]

end

end EkEk.Raft
