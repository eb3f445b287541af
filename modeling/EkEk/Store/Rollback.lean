import EkEk.Config.Accepted
import EkEk.Lib.Checked
import EkEk.Lib.Runs
import EkEk.Store.Sqlite

/-!
# What a rollback gives

Reference: `roll_back_to` of `crates/ek-ek-store/src/sqlite.rs`.

A rollback writes an old document with the certificates of today, and everything the document does not
hold stays as it is. Two questions are asked of it here.

The first is whether the mixture can run. `rollback_accepted_iff` answers it for every store that only
ever held accepted configurations: the document may reference certificates that are gone, and the
certificates of today DNS providers the document does not know.

The second is what happens when something is written meanwhile. A rollback takes the lock of the store
four times, once for every thing it reads and once to write. `parts_kept_iff` says which interleavings
leave the parts it carries forward as the last write left them.
-/

namespace EkEk.Store

open Validation

namespace SqliteStore

/-! ## Mixing two accepted configurations -/

/-- An old document and the configuration of today go together: the certificates its frontends offer are
there, and it knows the DNS providers of the certificates. -/
structure Mixes (current document : Config) : Prop where
  offered : ∀ frontend ∈ document.frontends, ∀ tls, frontend.tls = some tls →
    ∀ certificate ∈ tls.certificates, ∃ held ∈ current.certificates, held.id = certificate
  providers : ∀ certificate ∈ current.certificates, ∀ provider,
    certificate.source = .acmeDns01 provider → ∃ held ∈ document.dnsProviders, held.id = provider

/-- Only two checks look across the seam. -/
theorem accepted_mixed_iff {current document : Config} (hcurrent : Accepted current)
    (hdocument : Accepted document) :
    Accepted { document with certificates := current.certificates } ↔ Mixes current document := by
  have hreferences := checkFrontendReferences_eq_nil.mp hdocument.frontendReferences
  constructor
  · intro hmixed
    have hresolves := checkFrontendReferences_eq_nil.mp hmixed.frontendReferences
    exact ⟨fun frontend hfrontend => (hresolves frontend hfrontend).certificates,
      checkCertificates_eq_nil.mp hmixed.certificates⟩
  · rintro ⟨hoffered, hproviders⟩
    have hids := checkDuplicateIds_eq_nil.mp hdocument.duplicateIds
    have hcertificates := (checkDuplicateIds_eq_nil.mp hcurrent.duplicateIds).certificates
    refine { hdocument with duplicateIds := ?_, frontendReferences := ?_, certificates := ?_ }
    · exact checkDuplicateIds_eq_nil.mpr { hids with certificates := hcertificates }
    · refine checkFrontendReferences_eq_nil.mpr fun frontend hfrontend => ?_
      exact { hreferences frontend hfrontend with certificates := hoffered frontend hfrontend }
    · exact checkCertificates_eq_nil.mpr hproviders

/-! ### Histories -/

/-- What is asked of a store. -/
inductive Call where
  | write (snapshot : Snapshot) (change : Change) (now : ℤ)
  | applyWrite (snapshot : Snapshot) (change : Change) (now : ℤ) (audit : List AuditRecord)
  | rollBackTo (id : VersionId) (change : Change) (now : ℤ)
  | importFull (state : FullState)

/-- A call that is refused leaves the store as it was. -/
def step (store : SqliteStore) : Call → SqliteStore
  | .write snapshot change now => (store.writeVersion snapshot change none now []).1
  | .applyWrite snapshot change now audit => (store.applyWrite snapshot change now audit).1
  | .rollBackTo id change now => ((store.rollBackTo id change now).map Prod.fst).toOption.getD store
  | .importFull state => (store.imported state).toOption.getD store

/-- The configurations a call writes. -/
def written (store : SqliteStore) : Call → List Config
  | .write snapshot _ _ => [snapshot.config]
  | .applyWrite snapshot _ _ _ => [snapshot.config]
  | .rollBackTo id _ _ => ((store.restoring id).toOption.map Snapshot.config).toList
  | .importFull state => (store.imported state).toOption.elim [] fun _ =>
    (state.snapshot.map Snapshot.config).toList ++ state.versions.map Version.document

/-- Everything a store holds was accepted. -/
structure HoldsAccepted (store : SqliteStore) : Prop where
  state : ∀ current, store.state = some current → Accepted current.config
  versions : ∀ version ∈ store.versions, Accepted version.document

theorem HoldsAccepted.writeVersion {store : SqliteStore} (h : HoldsAccepted store)
    {snapshot : Snapshot} (haccepted : Accepted snapshot.config) (change : Change)
    (restored : Option VersionId) (now : ℤ) (audit : List AuditRecord) :
    HoldsAccepted (store.writeVersion snapshot change restored now audit).1 := by
  refine ⟨?_, fun version hversion => ?_⟩
  · rintro current ⟨⟩
    exact haccepted
  · rcases List.mem_cons.mp (List.mem_of_mem_take hversion) with rfl | hkept
    · exact haccepted
    · exact h.versions version hkept

theorem writeVersion_state (store : SqliteStore) (snapshot : Snapshot) (change : Change)
    (restored : Option VersionId) (now : ℤ) (audit : List AuditRecord) :
    (store.writeVersion snapshot change restored now audit).1.state = some snapshot := rfl

theorem rollBackTo_eq {store : SqliteStore} {id : VersionId} {snapshot : Snapshot}
    (h : store.restoring id = .ok snapshot) (change : Change) (now : ℤ) :
    store.step (.rollBackTo id change now) =
      (store.writeVersion snapshot change (some id) now []).1 := by
  rw [step, rollBackTo, h]
  rfl

theorem rollBackTo_of_error {store : SqliteStore} {id : VersionId} {error : Error}
    (h : store.restoring id = .error error) (change : Change) (now : ℤ) :
    store.step (.rollBackTo id change now) = store := by
  rw [step, rollBackTo, h]
  rfl

theorem HoldsAccepted.step {store : SqliteStore} {call : Call} (h : HoldsAccepted store)
    (haccepted : ∀ config ∈ store.written call, validate config = .ok ()) :
    HoldsAccepted (store.step call) := by
  cases call with
  | write snapshot change now =>
    exact h.writeVersion (validate_eq_ok.mp (haccepted _ List.mem_cons_self)) change none now []
  | applyWrite snapshot change now audit =>
    exact h.writeVersion (validate_eq_ok.mp (haccepted _ List.mem_cons_self)) change none now audit
  | rollBackTo id change now =>
    cases hrestoring : store.restoring id with
    | error error => rwa [rollBackTo_of_error hrestoring]
    | ok snapshot =>
      rw [rollBackTo_eq hrestoring]
      refine h.writeVersion (validate_eq_ok.mp (haccepted _ ?_)) change (some id) now []
      rw [written, hrestoring]
      exact List.mem_cons_self
  | importFull state =>
    by_cases hnodup : (state.versions.map fun version => version.id).Nodup
    · rw [written, imported, if_pos hnodup] at haccepted
      rw [SqliteStore.step, imported, if_pos hnodup]
      refine ⟨fun current hcurrent => validate_eq_ok.mp (haccepted _ ?_),
        fun version hversion => validate_eq_ok.mp (haccepted _ ?_)⟩
      · refine List.mem_append_left _ (Option.mem_toList.mpr ?_)
        exact Option.map_eq_some_iff.mpr ⟨current, hcurrent, rfl⟩
      · have hgiven := (List.mem_insertionSort _).mp hversion
        exact List.mem_append_right _ (List.mem_map_of_mem hgiven)
    · rw [SqliteStore.step, imported, if_neg hnodup]
      exact h

theorem HoldsAccepted.create (target : SchemaVersion) : HoldsAccepted (.create target) :=
  ⟨fun _ hstate => absurd hstate (Option.some_ne_none _).symm,
    fun _ hversion => absurd hversion List.not_mem_nil⟩

/-- In a store that only ever held accepted configurations, what a rollback to a kept version leaves is
accepted exactly when the version goes together with what the store held before. A version of another
schema is refused. -/
theorem rollback_accepted_iff (target : SchemaVersion) (calls : List Call)
    (haccepted : Runs.Along step (fun store call => ∀ config ∈ store.written call,
      validate config = .ok ()) (.create target) calls) (id : VersionId) (version : Version)
    (hversion : (Runs.run step (.create target) calls).version id = some version)
    (change : Change) (now : ℤ) :
    (∀ after, ((Runs.run step (.create target) calls).step (.rollBackTo id change now)).state =
        some after → validate after.config = .ok ()) ↔
      (version.schemaVersion = (Runs.run step (.create target) calls).target →
        ∀ current, (Runs.run step (.create target) calls).state = some current →
          Mixes current.config version.document) := by
  have hholds : HoldsAccepted (Runs.run step (.create target) calls) :=
    haccepted.inv (fun _ _ h hwritten => h.step hwritten) (.create target)
  generalize Runs.run step (.create target) calls = store at hholds hversion ⊢
  have hdocument := hholds.versions version (List.mem_of_find?_eq_some hversion)
  cases hrestoring : store.restoring id with
  | error error =>
    rw [rollBackTo_of_error hrestoring]
    refine iff_of_true (fun after hafter => validate_eq_ok.mpr (hholds.state after hafter)) ?_
    intro hschema current hcurrent
    rw [restoring_current hversion hschema hcurrent] at hrestoring
    cases hrestoring
  | ok snapshot =>
    obtain ⟨found, current, hfound, hschema, hcurrent, rfl⟩ := restoring_eq_ok hrestoring
    obtain rfl := Option.some.inj (hfound.symm.trans hversion)
    have hmixed : validate (rolledBack current found.document).config = .ok () ↔
        Mixes current.config found.document :=
      validate_eq_ok.trans (accepted_mixed_iff (hholds.state current hcurrent) hdocument)
    rw [rollBackTo_eq hrestoring, writeVersion_state]
    constructor
    · intro hafter _ other hother
      obtain rfl := Option.some.inj (hcurrent.symm.trans hother)
      exact hmixed.mp (hafter _ rfl)
    · intro hmixes after hafter
      obtain rfl := Option.some.inj hafter
      exact hmixed.mpr (hmixes hschema current hcurrent)

/-- A document with the given certificates and DNS providers. -/
def certified (certificates : List Certificate) (dnsProviders : List DnsProvider) : Config :=
  { Config.empty with certificates := certificates, dnsProviders := dnsProviders }

/-- A certificate that is ordered over DNS. -/
def overDns : Certificate := ⟨⟨"web"⟩, ["www.example.org"], .acmeDns01 ⟨"zone"⟩, none, none, none⟩

/-- The provider it is ordered with. -/
def zone : DnsProvider := ⟨⟨"zone"⟩, .cloudflare "zone" ⟨"token"⟩ "", 60⟩

/-- The provider is there first, and the certificate comes later. -/
def providerFirst : List Call :=
  [.write (.new (certified [] [zone])) ⟨"admin", "a provider"⟩ 1,
    .write (.new (certified [overDns] [zone])) ⟨"admin", "a certificate"⟩ 2]

/-- Going back to the provider alone gives a configuration that can run. -/
theorem providerFirst_accepted : ∃ after, ((Runs.run step (.create ⟨1⟩) providerFirst).step
    (.rollBackTo ⟨1⟩ ⟨"admin", "undo"⟩ 3)).state = some after ∧ validate after.config = .ok () := by
  have haccepted : Runs.Along step (fun store call => ∀ config ∈ store.written call,
      validate config = .ok ()) (.create ⟨1⟩) providerFirst := by
    refine ⟨?_, ?_, trivial⟩ <;> (simp only [written]; decide)
  have hversion : (Runs.run step (.create ⟨1⟩) providerFirst).version ⟨1⟩ =
      some ⟨⟨1⟩, 1, "admin", "a provider", ⟨1⟩, none, certified [] [zone]⟩ := rfl
  have hstate : (Runs.run step (.create ⟨1⟩) providerFirst).state =
      some (.new (certified [overDns] [zone])) := rfl
  refine ⟨_, rfl,
    (rollback_accepted_iff ⟨1⟩ providerFirst haccepted ⟨1⟩ _ hversion ⟨"admin", "undo"⟩ 3).mpr
      ?_ _ rfl⟩
  intro _ current hcurrent
  obtain rfl := Option.some.inj (hstate.symm.trans hcurrent)
  refine ⟨fun frontend hfrontend => absurd hfrontend List.not_mem_nil, ?_⟩
  intro certificate hcertificate provider hprovider
  obtain rfl : certificate = overDns := List.mem_singleton.mp hcertificate
  exact ⟨zone, List.mem_cons_self, CertificateSource.acmeDns01.inj hprovider⟩

/-- Both come in one write, into a store that held neither. -/
def bothAtOnce : List Call :=
  [.write (.new (certified [] [])) ⟨"admin", "nothing"⟩ 1,
    .write (.new (certified [overDns] [zone])) ⟨"admin", "a provider and a certificate"⟩ 2]

/-- Every configuration that was written was accepted, and going back to the first leaves a certificate
whose provider is gone. -/
theorem bothAtOnce_refused : Runs.Along step (fun store call => ∀ config ∈ store.written call,
      validate config = .ok ()) (.create ⟨1⟩) bothAtOnce ∧
    ((Runs.run step (.create ⟨1⟩) bothAtOnce).version ⟨1⟩).isSome ∧
    ∃ after, ((Runs.run step (.create ⟨1⟩) bothAtOnce).step
      (.rollBackTo ⟨1⟩ ⟨"admin", "undo"⟩ 3)).state = some after ∧ validate after.config ≠ .ok () := by
  refine ⟨⟨?_, ?_, trivial⟩, rfl, _, rfl, by decide⟩ <;> (simp only [written]; decide)

end SqliteStore

/-! ## Writing meanwhile -/

/-- What a rollback carries forward. -/
structure Kept where
  certificates : List Certificate
  secrets : Finmap fun _ : SecretId => Secret
  cluster : Option ClusterIdentity
  joins : Finmap fun _ : TokenId => JoinRecord
  removed : Finset NodeId
  orders : Finmap fun _ : CertificateId => OrderRecord
deriving DecidableEq

def Snapshot.kept (snapshot : Snapshot) : Kept where
  certificates := snapshot.config.certificates
  secrets := snapshot.secrets
  cluster := snapshot.cluster
  joins := snapshot.joins
  removed := snapshot.removed
  orders := snapshot.orders

/-- How far a rollback has come, between two of the times it takes the lock. -/
inductive Stage where
  | asked
  | checked
  | loaded (document : Config)
  | holding (snapshot : Snapshot)

structure Rollback where
  id : VersionId
  change : Change
  stage : Stage

/-- A store, the rollbacks that are under way, and what the last write that was completed wrote. -/
structure Shared where
  store : SqliteStore
  rollbacks : List Rollback
  lastWrite : Option Snapshot

namespace Shared

open Checked SqliteStore

/-- Take the lock once: what the store is afterwards, and the rollback unless it is done. -/
def take (store : SqliteStore) (rollback : Rollback) (now : ℤ) :
    Except Error (SqliteStore × Option Rollback) :=
  match rollback.stage with
  | .asked => do
    let version ← found (store.version rollback.id) (unknownVersion rollback.id)
    ensure (version.schemaVersion = store.target) ⟨.schemaMismatch,
      s!"version {rollback.id.get} was written against schema " ++
        s!"{version.schemaVersion.get} and this store reads {store.target.get}"⟩
    .ok (store, some { rollback with stage := .checked })
  | .checked => do
    let version ← found (store.version rollback.id) (unknownVersion rollback.id)
    .ok (store, some { rollback with stage := .loaded version.document })
  | .loaded document => do
    let current ← found store.state ⟨.unknownVersion, "there is no current state to roll back from"⟩
    .ok (store, some { rollback with stage := .holding (rolledBack current document) })
  | .holding snapshot =>
    .ok ((store.writeVersion snapshot rollback.change (some rollback.id) now []).1, none)

inductive Action where
  | write (snapshot : Snapshot) (change : Change) (now : ℤ)
  | applyWrite (snapshot : Snapshot) (change : Change) (now : ℤ) (audit : List AuditRecord)
  /-- A rollback is asked for. -/
  | ask (id : VersionId) (change : Change)
  /-- A rollback takes the lock once more. -/
  | advance (index : ℕ) (now : ℤ)
  /-- The storage fails a rollback. -/
  | fail (index : ℕ)

def step (s : Shared) : Action → Shared
  | .write snapshot change now =>
    { s with
      store := (s.store.writeVersion snapshot change none now []).1
      lastWrite := some snapshot }
  | .applyWrite snapshot change now audit =>
    { s with
      store := (s.store.applyWrite snapshot change now audit).1
      lastWrite := some snapshot }
  | .ask id change => { s with rollbacks := s.rollbacks ++ [⟨id, change, .asked⟩] }
  | .advance index now =>
    match s.rollbacks[index]? with
    | none => s
    | some rollback =>
      match take s.store rollback now with
      | .ok (store, some left) => { s with store := store, rollbacks := s.rollbacks.set index left }
      | .ok (store, none) => { s with store := store, rollbacks := s.rollbacks.eraseIdx index }
      | .error _ => { s with rollbacks := s.rollbacks.eraseIdx index }
  | .fail index => { s with rollbacks := s.rollbacks.eraseIdx index }

/-- A store nobody is rolling back, with what it holds taken for the last write. -/
def start (store : SqliteStore) : Shared := ⟨store, [], store.state⟩

section

variable {store after : SqliteStore} {rollback left : Rollback} {lastWrite : Option Snapshot} {now : ℤ}

theorem advance_on (h : take store rollback now = .ok (after, some left)) :
    step ⟨store, [rollback], lastWrite⟩ (.advance 0 now) = ⟨after, [left], lastWrite⟩ := by
  rw [step, List.getElem?_cons_zero]
  dsimp only
  rw [h]
  rfl

theorem advance_done (h : take store rollback now = .ok (after, none)) :
    step ⟨store, [rollback], lastWrite⟩ (.advance 0 now) = ⟨after, [], lastWrite⟩ := by
  rw [step, List.getElem?_cons_zero]
  dsimp only
  rw [h]
  rfl

theorem advance_refused {error : Error} (h : take store rollback now = .error error) :
    step ⟨store, [rollback], lastWrite⟩ (.advance 0 now) = ⟨store, [], lastWrite⟩ := by
  rw [step, List.getElem?_cons_zero]
  dsimp only
  rw [h]
  rfl

theorem advance_nobody :
    step ⟨store, [], lastWrite⟩ (.advance 0 now) = ⟨store, [], lastWrite⟩ := rfl

end

/-- With nothing in between, the four times come to a rollback. -/
theorem rollback_alone (store : SqliteStore) (id : VersionId) (change : Change) (now : ℤ) :
    Runs.run step (start store) [.ask id change, .advance 0 now, .advance 0 now, .advance 0 now,
      .advance 0 now] = ⟨store.step (.rollBackTo id change now), [], store.state⟩ := by
  simp only [Runs.run_cons, Runs.run_nil]
  have hasked : step (start store) (.ask id change) = ⟨store, [⟨id, change, .asked⟩], store.state⟩ := rfl
  rw [hasked]
  cases hversion : store.version id with
  | none =>
    have htake : take store ⟨id, change, .asked⟩ now = .error (unknownVersion id) := by
      simp only [take, hversion]
      rfl
    rw [rollBackTo_of_error (restoring_unknown hversion), advance_refused htake, advance_nobody,
      advance_nobody, advance_nobody]
  | some version =>
    by_cases hschema : version.schemaVersion = store.target
    · have hchecked : take store ⟨id, change, .asked⟩ now = .ok (store, some ⟨id, change, .checked⟩) := by
        simp only [take, hversion, found_some, ok_bind, ensure, if_pos hschema]
      have hloaded : take store ⟨id, change, .checked⟩ now =
          .ok (store, some ⟨id, change, .loaded version.document⟩) := by
        simp only [take, hversion, found_some, ok_bind]
      -- the first two times have read the version, the other two are about the state
      rw [advance_on hchecked, advance_on hloaded]
      cases hstate : store.state with
      | none =>
        have htake : take store ⟨id, change, .loaded version.document⟩ now =
            .error ⟨.unknownVersion, "there is no current state to roll back from"⟩ := by
          simp only [take, hstate]
          rfl
        rw [rollBackTo_of_error (restoring_stateless hversion hschema hstate), advance_refused htake,
          advance_nobody]
      | some current =>
        have hheld : take store ⟨id, change, .loaded version.document⟩ now =
            .ok (store, some ⟨id, change, .holding (rolledBack current version.document)⟩) := by
          simp only [take, hstate, found_some, ok_bind]
        rw [rollBackTo_eq (restoring_current hversion hschema hstate), advance_on hheld]
        exact advance_done rfl
    · obtain ⟨_, hrestoring⟩ := restoring_mismatch hversion hschema
      have htake : ∃ error, take store ⟨id, change, .asked⟩ now = .error error := by
        simp only [take, hversion, found_some, ok_bind, ensure, if_neg hschema]
        exact ⟨_, rfl⟩
      obtain ⟨_, htake⟩ := htake
      rw [rollBackTo_of_error hrestoring, advance_refused htake, advance_nobody, advance_nobody,
        advance_nobody]

/-! ### What is kept -/

/-- The store holds what the last write left of the parts that a rollback carries forward. -/
def PartsKept (s : Shared) : Prop := s.store.state.map Snapshot.kept = s.lastWrite.map Snapshot.kept

/-- What a rollback is about to write. -/
def Stage.held : Stage → Option Snapshot
  | .holding snapshot => some snapshot
  | _ => none

def held (s : Shared) (index : ℕ) : Option Snapshot :=
  s.rollbacks[index]?.bind fun rollback => Stage.held rollback.stage

/-- Whatever a rollback is about to write back is what the store holds: since it was read, no write has
changed it. -/
def Fresh (s : Shared) : Action → Prop
  | .advance index _ => ∀ snapshot, s.held index = some snapshot →
    s.store.state.map Snapshot.kept = some snapshot.kept
  | _ => True

/-- Taking the lock once leaves the store alone, or writes what the rollback holds. -/
theorem take_cases {store after : SqliteStore} {rollback : Rollback} {now : ℤ}
    {left : Option Rollback} (h : take store rollback now = .ok (after, left)) :
    Stage.held rollback.stage = none ∧ after = store ∨
      ∃ snapshot, Stage.held rollback.stage = some snapshot ∧ after.state = some snapshot := by
  rw [take] at h
  split at h
  · rename_i hstage
    simp only [bind_eq_ok, Except.ok.injEq, Prod.mk.injEq] at h
    obtain ⟨_, _, _, _, rfl, _⟩ := h
    exact .inl ⟨by rw [hstage]; rfl, rfl⟩
  · rename_i hstage
    simp only [bind_eq_ok, Except.ok.injEq, Prod.mk.injEq] at h
    obtain ⟨_, _, rfl, _⟩ := h
    exact .inl ⟨by rw [hstage]; rfl, rfl⟩
  · rename_i hstage
    simp only [bind_eq_ok, Except.ok.injEq, Prod.mk.injEq] at h
    obtain ⟨_, _, rfl, _⟩ := h
    exact .inl ⟨by rw [hstage]; rfl, rfl⟩
  · rename_i snapshot hstage
    simp only [Except.ok.injEq, Prod.mk.injEq] at h
    obtain ⟨rfl, _⟩ := h
    exact .inr ⟨snapshot, by rw [hstage]; rfl, rfl⟩

/-- A rollback that fails held nothing yet. -/
theorem held_of_error {store : SqliteStore} {rollback : Rollback} {now : ℤ} {error : Error}
    (h : take store rollback now = .error error) : Stage.held rollback.stage = none := by
  cases hstage : rollback.stage with
  | holding snapshot =>
    rw [take, hstage] at h
    cases h
  | asked => rfl
  | checked => rfl
  | loaded document => rfl

/-- What a rollback does when it takes the lock: nothing to the parts, or it writes those it holds. -/
theorem advance_cases (s : Shared) (index : ℕ) (now : ℤ) :
    (s.step (.advance index now)).lastWrite = s.lastWrite ∧
      (s.held index = none ∧ (s.step (.advance index now)).store = s.store ∨
      ∃ snapshot, s.held index = some snapshot ∧
        (s.step (.advance index now)).store.state = some snapshot) := by
  rw [step, held]
  split
  · rename_i hrollback
    rw [hrollback]
    exact ⟨rfl, .inl ⟨rfl, rfl⟩⟩
  · rename_i rollback hrollback
    rw [hrollback]
    split
    · rename_i after left htake
      exact ⟨rfl, take_cases htake⟩
    · rename_i after htake
      exact ⟨rfl, take_cases htake⟩
    · rename_i htake
      exact ⟨rfl, .inl ⟨held_of_error htake, rfl⟩⟩

theorem PartsKept.step {s : Shared} {action : Action} (h : PartsKept s) (hfresh : Fresh s action) :
    PartsKept (s.step action) := by
  cases action with
  | write snapshot change now => rfl
  | applyWrite snapshot change now audit => rfl
  | ask id change => exact h
  | fail index => exact h
  | advance index now =>
    obtain ⟨hlast, ⟨-, hstore⟩ | ⟨snapshot, hheld, hstate⟩⟩ := advance_cases s index now
    · rw [PartsKept, hlast, hstore]
      exact h
    · rw [PartsKept, hlast, hstate, ← h, hfresh snapshot hheld]
      rfl

theorem not_partsKept_step {s : Shared} {action : Action} (h : PartsKept s)
    (hstale : ¬ Fresh s action) : ¬ PartsKept (s.step action) := by
  cases action with
  | write snapshot change now => exact absurd trivial hstale
  | applyWrite snapshot change now audit => exact absurd trivial hstale
  | ask id change => exact absurd trivial hstale
  | fail index => exact absurd trivial hstale
  | advance index now =>
    intro hkept
    refine hstale fun snapshot hheld => ?_
    obtain ⟨hlast, ⟨hnone, -⟩ | ⟨written, hwritten, hstate⟩⟩ := advance_cases s index now
    · rw [hnone] at hheld
      cases hheld
    · -- what it wrote is what it held, and the last write is still what the store held
      obtain rfl := Option.some.inj (hwritten.symm.trans hheld)
      rw [PartsKept, hlast, hstate, ← h] at hkept
      exact hkept.symm

/-- Whatever is interleaved, the store holds what the last write left of the parts that a rollback
carries forward exactly when no rollback writes back what was changed after it was read. -/
theorem parts_kept_iff (store : SqliteStore) (actions : List Action) :
    (∀ first, first <+: actions → PartsKept (Runs.run step (start store) first)) ↔
      Runs.Along step Fresh (start store) actions := by
  have hstart : PartsKept (start store) := rfl
  exact Runs.along_iff (fun _ h => h) (fun _ _ h hfresh => h.step hfresh)
    (fun _ _ h hstale => not_partsKept_step h hstale) hstart actions

/-- A node is removed while a rollback holds what it read before. -/
def removedMeanwhile : List Action :=
  [.write (.new .empty) ⟨"admin", "first"⟩ 1, .ask ⟨1⟩ ⟨"admin", "undo"⟩, .advance 0 2, .advance 0 2,
    .advance 0 2, .write { Snapshot.new .empty with removed := {⟨"node"⟩} } ⟨"admin", "remove"⟩ 3,
    .advance 0 4]

/-- The rollback readmits the node. -/
theorem removedMeanwhile_readmits :
    ¬ PartsKept (Runs.run step (start (.create ⟨1⟩)) removedMeanwhile) ∧
      (Runs.run step (start (.create ⟨1⟩)) removedMeanwhile).store.state = some (.new .empty) := by
  have hlast : (Runs.run step (start (.create ⟨1⟩)) removedMeanwhile).lastWrite =
      some { Snapshot.new .empty with removed := {⟨"node"⟩} } := rfl
  have hstate : (Runs.run step (start (.create ⟨1⟩)) removedMeanwhile).store.state =
      some (.new .empty) := rfl
  refine ⟨fun hkept => ?_, hstate⟩
  rw [PartsKept, hlast, hstate, Option.map_some, Option.map_some] at hkept
  have hremoved := congrArg Kept.removed (Option.some.inj hkept)
  exact absurd hremoved (by decide)

end Shared

end EkEk.Store
