import EkEk.Peer.Authority
import EkEk.Raft.Machine

/-!
# Replicas of one log

Reference: `apply` and `install_snapshot` of `crates/ek-ek-raft/src/machine.rs`, `append_version` and
`import` of `crates/ek-ek-store/src/sqlite.rs`, and `init` of `crates/ek-ek/src/cluster.rs`.

A `History` is how a node came to what it holds: the store it started with, the entries it applied, and
the snapshots of other nodes it installed. Every database numbers the versions by itself, from where
its own counter stands, and importing a snapshot never turns the counter back.

`converged` says when two nodes that applied the same log hold the same, and under the numbers the
writes were answered with: whenever what they hold began as the same store, and no snapshot came to a
node that had given more numbers than its source. A founder that begins with the version `cluster init`
leaves and a node that begins with an empty store do not, as `founder_differs` shows.
-/

namespace EkEk.Raft

open Store

/-! ## Before consensus -/

/-- The store after `cluster init`, unless it holds an authority already. -/
def init (store : SqliteStore) (document : Config) (authority : Peer.Authority) (now : ℤ) :
    Option SqliteStore :=
  let state := store.state.getD (.new document)
  if Peer.present state then none
  else some (store.writeVersion (Peer.install state authority)
    ⟨"cluster", "authority created"⟩ none now []).1

/-- The stores the commands leave before there is consensus. -/
inductive Local : SqliteStore → Prop
  | create (target : SchemaVersion) : Local (.create target)
  | write {store : SqliteStore} (h : Local store) (snapshot : Snapshot) (change : Change)
      (restored : Option VersionId) (now : ℤ) (audit : List AuditRecord) :
      Local (store.writeVersion snapshot change restored now audit).1

theorem Local.init {store next : SqliteStore} {document : Config} {authority : Peer.Authority}
    {now : ℤ} (h : Local store) (hinit : Raft.init store document authority now = some next) :
    Local next := by
  simp only [Raft.init] at hinit
  split at hinit
  · nomatch hinit
  · obtain rfl := Option.some.inj hinit
    exact h.write _ _ _ _ _

theorem Local.numbered {store : SqliteStore} (h : Local store) : store.Numbered := by
  induction h with
  | create target => exact .create target
  | write h snapshot change restored now audit ih =>
    exact ih.writeVersion snapshot change restored now audit

/-! ## How a node came to what it holds -/

/-- A node's past. -/
inductive History where
  | start (store : SqliteStore)
  | apply (node : History) (entry : Entry EntryPayload)
  | install (node source : History) (snapshotId : String)

namespace History

/-- What a node holds. -/
def replica : History → Replica
  | start store => ⟨store, none, .default⟩
  | apply node entry => node.replica.after (.apply entry)
  | install node source snapshotId =>
    node.replica.after (.install
      ⟨source.replica.applied, source.replica.membership, snapshotId⟩ source.replica.store.exported)

/-- The store of a node. -/
def store (node : History) : SqliteStore := node.replica.store

/-- The entries that are behind what a node holds. -/
def log : History → List (Entry EntryPayload)
  | start _ => []
  | apply node entry => node.log ++ [entry]
  | install _ source _ => source.log

/-- The store that what a node holds began with. -/
def origin : History → SqliteStore
  | start store => store
  | apply node _ => node.origin
  | install _ source _ => source.origin

/-- Nodes start with what the commands leave, and no snapshot comes to a node that had given more
numbers than its source. -/
def Straight : History → Prop
  | start store => Local store
  | apply node _ => node.Straight
  | install node source _ =>
    node.Straight ∧ source.Straight ∧ node.store.nextVersion ≤ source.store.nextVersion

/-- The number a write is answered with by a node that applies it. -/
def answer (node : History) (request : WriteRequest) : VersionId :=
  (node.store.applyWrite request.state request.change request.nowUnix request.audit).2

end History

/-! ## Replaying a log -/

/-- Two stores read out the same, and go on with the same number. -/
def Alike (first second : SqliteStore) : Prop :=
  first.exported = second.exported ∧ first.nextVersion = second.nextVersion

/-- A store after a log. -/
def replay (store : SqliteStore) (log : List (Entry EntryPayload)) : SqliteStore :=
  log.foldl entered store

/-- An entry that carries a write. -/
def Entry.Writes (entry : Entry EntryPayload) : Bool :=
  match entry.payload with
  | .normal _ => true
  | _ => false

section

variable {first second third : SqliteStore} {node source : History}
  {log later : List (Entry EntryPayload)}

theorem Alike.trans (h : Alike first second) (hnext : Alike second third) : Alike first third :=
  ⟨h.1.trans hnext.1, h.2.trans hnext.2⟩

theorem Alike.symm (h : Alike first second) : Alike second first := ⟨h.1.symm, h.2.symm⟩

theorem Alike.versions (h : Alike first second) : first.versions = second.versions :=
  List.reverse_injective (congrArg FullState.versions h.1)

theorem Alike.numbered (h : Alike first second) (hsecond : second.Numbered) : first.Numbered := by
  have hversions := h.versions
  refine ⟨?_, ?_, ?_⟩
  · rw [hversions]
    exact hsecond.ascending
  · rw [hversions, h.2]
    exact hsecond.next
  · rw [h.2]
    exact hsecond.positive

/-- Alike stores are alike after an entry. -/
theorem Alike.entered (h : Alike first second) (entry : Entry EntryPayload) :
    Alike (Raft.entered first entry) (Raft.entered second entry) := by
  obtain ⟨id, payload⟩ := entry
  cases payload with
  | blank => exact h
  | membership membership => exact h
  | normal request =>
    have hversions := h.versions
    have haudit : first.audit = second.audit := congrArg FullState.audit h.1
    constructor
    · simp [Raft.entered, written, SqliteStore.applyWrite, SqliteStore.writeVersion,
        SqliteStore.exported, SqliteStore.appended, hversions, haudit, h.2]
    · simp [Raft.entered, written, SqliteStore.applyWrite, SqliteStore.writeVersion, h.2]

/-- Alike stores are alike after a log. -/
theorem Alike.replay (h : Alike first second) : Alike (replay first log) (replay second log) := by
  induction log generalizing first second with
  | nil => exact h
  | cons entry rest ih => exact ih (h.entered entry)

/-- Stores that number their versions are alike where they read out the same. -/
theorem alike_of_exported (hfirst : first.Numbered) (hsecond : second.Numbered)
    (h : first.exported = second.exported) : Alike first second := by
  refine ⟨h, ?_⟩
  have hversions : first.versions = second.versions :=
    List.reverse_injective (congrArg FullState.versions h)
  rw [hfirst.next, hsecond.next, hversions]

theorem numbered_replay (h : first.Numbered) : (replay first log).Numbered := by
  induction log generalizing first with
  | nil => exact h
  | cons entry rest ih => exact ih (numbered_entered h entry)

theorem replay_append : replay first (log ++ later) = replay (replay first log) later :=
  List.foldl_append

/-- A version stays where fewer writes come after it than are kept. -/
theorem kept_replay {version : Version} {i : ℕ} (h : first.versions[i]? = some version)
    (hkept : i + later.countP Entry.Writes < maxVersions) :
    version ∈ (replay first later).versions := by
  induction later generalizing first i with
  | nil => exact List.mem_of_getElem? h
  | cons entry rest ih =>
    obtain ⟨id, payload⟩ := entry
    rw [List.countP_cons] at hkept
    cases payload with
    | blank => exact ih h hkept
    | membership membership => exact ih h hkept
    | normal request =>
      have hroom : i + 1 + rest.countP Entry.Writes < maxVersions := by
        simp only [Entry.Writes, if_true] at hkept
        omega
      refine ih (i := i + 1) ?_ hroom
      show ((_ :: first.versions).take maxVersions)[i + 1]? = some version
      rw [List.getElem?_take_of_lt (by omega), List.getElem?_cons_succ]
      exact h

namespace History

theorem store_apply (entry : Entry EntryPayload) :
    (apply node entry).store = entered node.store entry := by
  obtain ⟨id, payload⟩ := entry
  cases payload <;> rfl

theorem Straight.local (h : node.Straight) : Local node.origin := by
  induction node with
  | start store => exact h
  | apply node entry ih => exact ih h
  | install node source snapshotId _ ih => exact ih h.2.1

/-- What a node holds is what its log makes of the store it began with. -/
theorem Straight.alike (h : node.Straight) : Alike node.store (replay node.origin node.log) := by
  induction node with
  | start store => exact ⟨rfl, rfl⟩
  | apply node entry ih =>
    rw [store_apply, log, replay_append]
    exact (ih h).entered entry
  | install node source snapshotId ihNode ihSource =>
    obtain ⟨hnode, hsource, hnext⟩ := h
    -- both databases number their versions one after the other, whatever they went through
    have hown := (ihNode hnode).numbered (numbered_replay hnode.local.numbered)
    have hnumbered := (ihSource hsource).numbered (numbered_replay hsource.local.numbered)
    obtain ⟨next, himported, hexported, hcounter⟩ :=
      SqliteStore.imported_exported hnumbered hown.positive hnext
    have hstore : (install node source snapshotId).store = next := by
      simp only [History.store] at himported
      simp [History.store, replica, Replica.after, himported]
    rw [hstore]
    exact Alike.trans ⟨hexported, hcounter⟩ (ihSource hsource)

end History

end

/-- A version that records a write. -/
def Version.Records (version : Version) (request : WriteRequest) : Prop :=
  version.document = request.state.config ∧ version.author = request.change.author ∧
    version.description = request.change.description ∧ version.recordedAtUnix = request.nowUnix

/-- Two nodes that applied the same log and began with the same hold the same: state, version log and
audit log. A write that a node of theirs answered is held by both under the number it was answered
with, as long as fewer writes came after it than versions are kept. -/
theorem converged (first second : History) (hfirst : first.Straight) (hsecond : second.Straight)
    (horigin : first.origin.exported = second.origin.exported) (hlog : first.log = second.log) :
    first.store.exported = second.store.exported ∧
    ∀ (leader : History) (id : LogId) (request : WriteRequest) (later : List (Entry EntryPayload)),
      leader.Straight → leader.origin.exported = first.origin.exported →
      first.log = (leader.apply ⟨id, .normal request⟩).log ++ later →
      later.countP Entry.Writes < maxVersions →
      ∃ version ∈ first.store.exported.versions, version ∈ second.store.exported.versions ∧
        version.id = leader.answer request ∧ Version.Records version request := by
  have hsame : Alike first.store second.store := by
    have horigins := alike_of_exported hfirst.local.numbered hsecond.local.numbered horigin
    refine hfirst.alike.trans (Alike.trans ?_ hsecond.alike.symm)
    rw [← hlog]
    exact horigins.replay
  refine ⟨hsame.1, ?_⟩
  intro leader id request later hleader hbegan hlater hkept
  -- the leader's store after the write, and what the entries behind it made of it
  have hanswered : Alike first.store
      (replay (leader.apply ⟨id, .normal request⟩).store later) := by
    have horigins := alike_of_exported hfirst.local.numbered hleader.local.numbered hbegan.symm
    have hstraight : (leader.apply ⟨id, .normal request⟩).Straight := hleader
    refine hfirst.alike.trans (Alike.trans ?_ hstraight.alike.symm.replay)
    rw [hlater, ← replay_append]
    exact horigins.replay
  have hheld : (leader.apply ⟨id, .normal request⟩).store.versions[0]? =
      some (leader.store.appended request.state request.change none request.nowUnix) := by
    rw [History.store_apply]
    rfl
  have hmem := kept_replay hheld (by omega : 0 + later.countP Entry.Writes < maxVersions)
  rw [← hanswered.versions] at hmem
  refine ⟨_, List.mem_reverse.mpr hmem, ?_, rfl, rfl, rfl, rfl, rfl⟩
  rw [← hsame.1]
  exact List.mem_reverse.mpr hmem

/-! ### A founder and a node that joined -/

/-- A node the founding command ran on. -/
def founder : History :=
  .start ((init (.create ⟨1⟩) .empty ⟨"authority", ⟨[1]⟩⟩ 0).getD (.create ⟨1⟩))

/-- A node nothing ran on. -/
def joiner : History := .start (.create ⟨1⟩)

/-- The first write of the cluster. -/
def firstWrite : WriteRequest := ⟨.new .empty, ⟨"operator", "first"⟩, 10, []⟩

/-- The founder started with what the commands leave. -/
theorem local_founder : Local founder.origin :=
  (Local.create ⟨1⟩).init (rfl : init (.create ⟨1⟩) .empty ⟨"authority", ⟨[1]⟩⟩ 0 = some _)

/-- A joiner that takes the founder's snapshot before the first write holds what the founder does. -/
theorem converged_joiner :
    (founder.apply ⟨Machine.idAt 1, .normal firstWrite⟩).store.exported =
      ((joiner.install founder "empty").apply ⟨Machine.idAt 1, .normal firstWrite⟩).store.exported ∧
    ∃ version ∈ (founder.apply ⟨Machine.idAt 1, .normal firstWrite⟩).store.exported.versions,
      version.id = founder.answer firstWrite := by
  have hfounder : founder.Straight := local_founder
  have hconverged := converged (founder.apply ⟨Machine.idAt 1, .normal firstWrite⟩)
    ((joiner.install founder "empty").apply ⟨Machine.idAt 1, .normal firstWrite⟩) hfounder
    ⟨.create ⟨1⟩, hfounder, by decide⟩ rfl rfl
  refine ⟨hconverged.1, ?_⟩
  obtain ⟨version, hmem, -, hid, -⟩ := hconverged.2 founder (Machine.idAt 1) firstWrite [] hfounder
    rfl rfl (by decide)
  exact ⟨version, hmem, hid⟩

/-- A founder that begins with the version of `cluster init` and a joiner that begins with nothing
apply the same write: they do not hold the same, and the number the founder answers with is not held
by the joiner. -/
theorem founder_differs :
    Local founder.origin ∧ Local joiner.origin ∧
    (founder.apply ⟨Machine.idAt 1, .normal firstWrite⟩).log =
      (joiner.apply ⟨Machine.idAt 1, .normal firstWrite⟩).log ∧
    (founder.apply ⟨Machine.idAt 1, .normal firstWrite⟩).store.exported ≠
      (joiner.apply ⟨Machine.idAt 1, .normal firstWrite⟩).store.exported ∧
    ¬ ∃ version ∈ (joiner.apply ⟨Machine.idAt 1, .normal firstWrite⟩).store.exported.versions,
      version.id = founder.answer firstWrite := by
  refine ⟨local_founder, .create ⟨1⟩, rfl, ?_, ?_⟩
  · intro h
    nomatch congrArg (fun state => state.versions.length) h
  · rintro ⟨version, hmem, hid⟩
    obtain rfl := List.mem_singleton.mp hmem
    nomatch congrArg VersionId.get hid

end EkEk.Raft
