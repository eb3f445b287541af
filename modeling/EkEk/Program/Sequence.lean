import EkEk.Lib.Runs
import EkEk.Program.Writers
import EkEk.Raft.Cluster
import EkEk.Store.Sqlite

/-!
# One update after the other

Reference: `one_at_a_time` of `crates/ek-ek/src/cluster.rs`, `crates/ek-ek/src/acme.rs`,
`crates/ek-ek-tls/src/record.rs`, and `roll_back_to` of `crates/ek-ek-store/src/sqlite.rs`.

Here every update of the state is one step: it reads what is there and replaces it before anything else
does. Whatever makes updates may make them in any order, so a run is any list of them. An update that is
refused leaves the state as it was.

`together_run` is about running orders. An order's record and the key it signs with are written and
removed at the same places, and no update comes between them.
-/

namespace EkEk.Program

open Store Raft Tls ReadModifyWrite
open Peer (Library)

/-- An update of the state. -/
inductive Update where
  | write (writer : Writer)
  | rollBack (restored : Config)
  | install (id : CertificateId) (source : CertificateSource) (upload : Upload)
  | remove (id : CertificateId)

/-- The state an update leaves. -/
def update (lib : Library) (state : Option Snapshot) : Update → Option Snapshot
  | .write writer =>
    match (writers lib).plan writer state with
    | some (some next, _) => next
    | _ => state
  | .rollBack restored => state.map fun current => SqliteStore.rolledBack current restored
  | .install id source upload => state.map fun current => Tls.install current id source upload
  | .remove id => state.map fun current => Tls.remove current id

/-- The states a step may lead from and to: an edit of the state that is there, or of a fresh one where
there is none. -/
inductive Updates (lib : Library) : Update → Snapshot → Snapshot → Prop
  | write {writer : Writer} {before after : Snapshot} (hedits : Edits lib writer before after) :
      Updates lib (.write writer) before after
  | rollBack {current : Snapshot} {restored : Config} :
      Updates lib (.rollBack restored) current (SqliteStore.rolledBack current restored)
  | install {current : Snapshot} {id : CertificateId} {source : CertificateSource} {upload : Upload} :
      Updates lib (.install id source upload) current (Tls.install current id source upload)
  | remove {current : Snapshot} {id : CertificateId} :
      Updates lib (.remove id) current (Tls.remove current id)

variable {lib : Library}

/-- A writer that finds no state writes one only where it makes a fresh one first. -/
theorem edits_of_fresh {writer : Writer} {next : Option Snapshot} {answer : Unit}
    (h : (writers lib).plan writer none = some (some next, answer)) :
    ∃ config after, next = some after ∧ Edits lib writer (.new config) after := by
  cases writer with
  | mint actor now drawn => cases h
  | admitNode ask now =>
    simp only [writers, writerPlan] at h
    split at h
    · cases h
    · rename_i judged hjudge
      cases (judge_sound hjudge).held
  | remove node actor now => cases h
  | applyOnce document =>
    obtain ⟨hnext, -⟩ := Prod.mk.inj (Option.some.inj h)
    exact ⟨document, _, (Option.some.inj hnext).symm, .applyOnce⟩
  | accountKey captured pem =>
    obtain ⟨hnext, -⟩ := Prod.mk.inj (Option.some.inj h)
    exact ⟨captured, _, (Option.some.inj hnext).symm, .accountKey⟩
  | openOrder id names challenge driver now key => cases h
  | fileReached id reached driver => cases h
  | closeOrder id => cases h
  | obtained captured id source upload =>
    obtain ⟨hnext, -⟩ := Prod.mk.inj (Option.some.inj h)
    exact ⟨captured, _, (Option.some.inj hnext).symm, .obtained⟩

/-- An update edits the state that is there or leaves it alone. -/
theorem update_some (state : Snapshot) (action : Update) :
    ∃ after, update lib (some state) action = some after ∧
      (after = state ∨ Updates lib action state after) := by
  cases action with
  | write writer =>
    rw [update]
    split
    · rename_i next answer hplan
      obtain ⟨before, after, rfl, hedits, hbefore⟩ := edits_of_plan hplan
      obtain rfl := hbefore state rfl
      exact ⟨after, rfl, .inr (.write hedits)⟩
    · exact ⟨state, rfl, .inl rfl⟩
  | rollBack restored => exact ⟨_, rfl, .inr .rollBack⟩
  | install id source upload => exact ⟨_, rfl, .inr .install⟩
  | remove id => exact ⟨_, rfl, .inr .remove⟩

/-- Where there is no state, an update edits a fresh one or leaves none. -/
theorem update_none {action : Update} {after : Snapshot} (h : update lib none action = some after) :
    ∃ config, Updates lib action (.new config) after := by
  cases action with
  | write writer =>
    rw [update] at h
    split at h
    · rename_i next answer hplan
      obtain ⟨config, written, rfl, hedits⟩ := edits_of_fresh hplan
      obtain rfl := Option.some.inj h
      exact ⟨config, .write hedits⟩
    · cases h
  | rollBack restored => cases h
  | install id source upload => cases h
  | remove id => cases h

/-- What holds of fresh states and is kept by every edit holds wherever updates lead. -/
theorem run_keeps {Inv : Snapshot → Prop} (hfresh : ∀ config, Inv (.new config))
    (hkeeps : ∀ action before after, Updates lib action before after → Inv before → Inv after)
    {start : Option Snapshot} (hstart : ∀ s, start = some s → Inv s) (actions : List Update) :
    ∀ s, Runs.run (update lib) start actions = some s → Inv s := by
  refine @Runs.run_inv _ _ (update lib) (fun state => ∀ s, state = some s → Inv s) ?_ _ hstart actions
  intro state action hstate s hs
  cases state with
  | none =>
    obtain ⟨config, hupdates⟩ := update_none hs
    exact hkeeps _ _ _ hupdates (hfresh config)
  | some before =>
    obtain ⟨after, hafter, hsame | hupdates⟩ := update_some before action
    · rw [hafter, hsame] at hs
      exact hstate s hs
    · rw [hafter] at hs
      obtain rfl := Option.some.inj hs
      exact hkeeps _ _ _ hupdates (hstate before rfl)

/-! ## Orders and their keys -/

/-- Every order signs with the key of its own name, and such a key is there exactly while an order
runs. -/
structure Paired (state : Snapshot) : Prop where
  key : ∀ id record, state.orders.lookup id = some record → record.key = orderKeyId id
  held : ∀ id, orderKeyId id ∈ state.secrets ↔ id ∈ state.orders

section

variable {before after : Snapshot}

/-- What touches neither orders nor their keys leaves them paired. -/
theorem Paired.of_same (h : Paired before) (horders : after.orders = before.orders)
    (hsecrets : ∀ id, orderKeyId id ∈ after.secrets ↔ orderKeyId id ∈ before.secrets) :
    Paired after :=
  ⟨horders ▸ h.key, fun id => by rw [hsecrets, h.held, horders]⟩

theorem Paired.orderOpened (h : Paired before) (id : CertificateId) {record : OrderRecord}
    (hkey : record.key = orderKeyId id) (key : Secret) :
    Paired (Program.orderOpened before id record key) := by
  refine ⟨fun other found hfound => ?_, fun other => ?_⟩
  · by_cases hother : other = id
    · subst hother
      rw [Program.orderOpened, Finmap.lookup_insert] at hfound
      exact Option.some.inj hfound ▸ hkey
    · rw [Program.orderOpened, Finmap.lookup_insert_of_ne _ hother] at hfound
      exact h.key other found hfound
  · rw [Program.orderOpened, Finmap.mem_insert, Finmap.mem_insert, h.held,
      orderKeyId_injective.eq_iff]

theorem Paired.orderClosed (h : Paired before) (id : CertificateId) :
    Paired (Program.orderClosed before id) := by
  refine ⟨fun other found hfound => ?_, fun other => ?_⟩
  · by_cases hother : other = id
    · subst hother
      rw [Program.orderClosed, Finmap.lookup_erase] at hfound
      cases hfound
    · rw [Program.orderClosed, Finmap.lookup_erase_ne hother] at hfound
      exact h.key other found hfound
  · rw [Program.orderClosed, Finmap.mem_erase, Finmap.mem_erase, h.held, ne_eq,
      orderKeyId_injective.eq_iff]

/-- A record that is filed again keeps its key. -/
theorem Paired.reached (h : Paired before) {id : CertificateId} {record : OrderRecord}
    (hrecord : before.orders.lookup id = some record) (reached : Reached) (driver : Option NodeId) :
    Paired { before with orders := before.orders.insert id (reachedRecord record reached driver) } := by
  refine ⟨fun other found hfound => ?_, fun other => ?_⟩
  · by_cases hother : other = id
    · subst hother
      rw [Finmap.lookup_insert] at hfound
      obtain rfl := Option.some.inj hfound
      exact h.key other record hrecord
    · rw [Finmap.lookup_insert_of_ne _ hother] at hfound
      exact h.key other found hfound
  · rw [h.held, Finmap.mem_insert]
    constructor
    · exact .inr
    · rintro (rfl | hmem)
      · exact Finmap.mem_of_lookup_eq_some hrecord
      · exact hmem

/-- A certificate's own material is not that of an order. -/
theorem Paired.install (h : Paired before) (id : CertificateId) (source : CertificateSource)
    (upload : Upload) : Paired (Tls.install before id source upload) := by
  refine h.of_same rfl fun other => ?_
  rw [Tls.install, Finmap.mem_insert, Finmap.mem_insert]
  simp [keyId_ne_orderKeyId.symm, chainId_ne_orderKeyId.symm]

theorem Paired.remove (h : Paired before) (id : CertificateId) : Paired (Tls.remove before id) := by
  refine h.of_same rfl fun other => ?_
  rw [Tls.remove, Finmap.mem_erase, Finmap.mem_erase]
  simp [keyId_ne_orderKeyId.symm, chainId_ne_orderKeyId.symm]

theorem Paired.edits {writer : Writer} (hedits : Edits lib writer before after) (h : Paired before) :
    Paired after := by
  cases hedits with
  | mint => exact h.of_same rfl fun _ => Iff.rfl
  | admitNode hjudged hfirst => exact h.of_same rfl fun _ => Iff.rfl
  | remove => exact h.of_same rfl fun _ => Iff.rfl
  | applyOnce => exact h.of_same rfl fun _ => Iff.rfl
  | accountKey =>
    refine h.of_same rfl fun id => ?_
    rw [Snapshot.withSecret, Finmap.mem_insert, accountKeySecret_eq]
    simp [keyId_ne_orderKeyId.symm, replaced]
  | openOrder => exact h.orderOpened _ rfl _
  | fileReached hrecord => exact h.reached hrecord _ _
  | closeOrder => exact h.orderClosed _
  | obtained => exact (h.install _ _ _).orderClosed _

theorem Paired.updates {action : Update} (hupdates : Updates lib action before after)
    (h : Paired before) : Paired after := by
  cases hupdates with
  | write hedits => exact h.edits hedits
  | rollBack => exact h.of_same rfl fun _ => Iff.rfl
  | install => exact h.install _ _ _
  | remove => exact h.remove _

end

/-- A state nobody has ordered anything in. -/
def Quiet (state : Option Snapshot) : Prop :=
  ∀ s, state = some s → s.orders = ∅ ∧ ∀ id, orderKeyId id ∉ s.secrets

/-- From a state without orders on, in every state that updates in any order lead to, the key of every
running order is there, and every key of an order belongs to one that runs. -/
theorem together_run {start : Option Snapshot} (hquiet : Quiet start) (actions : List Update)
    {state : Snapshot} (hstate : Runs.run (update lib) start actions = some state) :
    (∀ id record, state.orders.lookup id = some record → record.key ∈ state.secrets) ∧
      ∀ id, orderKeyId id ∈ state.secrets → id ∈ state.orders := by
  have hfresh : ∀ config, Paired (.new config) := by
    refine fun config => ⟨fun id record h => ?_, fun id => ?_⟩
    · cases h
    · exact iff_of_false Finmap.notMem_empty Finmap.notMem_empty
  have hstart : ∀ s, start = some s → Paired s := by
    intro s hs
    obtain ⟨horders, hsecrets⟩ := hquiet s hs
    refine ⟨fun id record h => ?_, fun id => ?_⟩
    · rw [horders] at h
      cases h
    · rw [horders]
      exact iff_of_false (hsecrets id) Finmap.notMem_empty
  have hpaired := run_keeps hfresh (fun _ _ _ => Paired.updates) hstart actions state hstate
  refine ⟨fun id record hrecord => ?_, fun id => (hpaired.held id).mp⟩
  rw [hpaired.key id record hrecord, hpaired.held]
  exact Finmap.mem_of_lookup_eq_some hrecord

/-- A document with one certificate, as an operator writes it. -/
def oneCertificate : Config :=
  { Config.empty with certificates := [⟨⟨"cert"⟩, ["a.example"], .acmeHttp01, none, none, none⟩] }

/-- An order that is opened, reaches something, and lives through a rollback. -/
def orderUpdates : List Update :=
  [.write (.openOrder ⟨"cert"⟩ ["a.example"] .http01 none 10 ⟨[1]⟩),
    .write (.fileReached ⟨"cert"⟩ ⟨some "order/1", ∅⟩ none), .rollBack (documentOf [row nodeA 1])]

theorem order_kept : ∃ state,
    Runs.run (update signing) (some (.new oneCertificate)) orderUpdates = some state ∧
      ⟨"cert"⟩ ∈ state.orders ∧
      (∀ id record, state.orders.lookup id = some record → record.key ∈ state.secrets) ∧
        ∀ id, orderKeyId id ∈ state.secrets → id ∈ state.orders := by
  have hrun : ∃ state, Runs.run (update signing) (some (.new oneCertificate)) orderUpdates =
      some state ∧ ⟨"cert"⟩ ∈ state.orders := ⟨_, rfl, Finmap.mem_insert.mpr (.inl rfl)⟩
  have hquiet : Quiet (some (.new oneCertificate)) := by
    rintro _ ⟨⟩
    exact ⟨rfl, fun _ => Finmap.notMem_empty⟩
  obtain ⟨state, hstate, hrunning⟩ := hrun
  exact ⟨state, hstate, hrunning, together_run hquiet orderUpdates hstate⟩

end EkEk.Program
