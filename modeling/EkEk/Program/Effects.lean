import EkEk.Program.Writers
import EkEk.Raft.Cluster

/-!
# What writes are for

Reference: `crates/ek-ek-raft/src/join.rs`, `crates/ek-ek-raft/src/cluster.rs`,
`crates/ek-ek/src/cluster.rs` and `crates/ek-ek/src/acme.rs`.

`Effect` lists what a write is for, `gives` says which effects a writer has and `takes` which ones its
own edit is meant to take away. Every edit gives what it should (`given_of_edits`) and keeps what it is
not meant to take (`kept_of_edits`), one lemma for each effect.

A whole state that lands on a state its writer has not read takes everything that landed in between.
`acknowledged_effects_kept` says that nothing else does: in every run in which each write lands on the
state its writer read, every effect of every landed write holds in the agreed state, unless a later
write was meant to take it.
-/

namespace EkEk.Program

open Store Raft Tls ReadModifyWrite
open Peer (Library)

/-! ## Effects -/

/-- What a write is for. -/
inductive Effect where
  /-- A token is there, with the record it was minted with. -/
  | token (id : TokenId) (record : JoinRecord)
  /-- A token is marked with the node that used it. -/
  | mark (id : TokenId) (node : NodeId)
  /-- A node has a row. -/
  | row (node : NodeId)
  /-- A node has no row. -/
  | noRow (node : NodeId)
  /-- A node is on the refusal list. -/
  | refusal (node : NodeId)
  /-- The settings are those of a document, its rows and certificates apart. -/
  | settings (document : Config)
  /-- A row of a document is there. -/
  | documentRow (line : Node)
  /-- A certificate is there for the names and from the source given. -/
  | certificate (id : CertificateId) (sniNames : List String) (source : CertificateSource)
  /-- There is no certificate of the name given. -/
  | noCertificate (id : CertificateId)
  /-- A certificate is served with the material given. -/
  | installed (id : CertificateId) (upload : Upload)
  /-- The account key is there. -/
  | accountKey (pem : Secret)
  /-- An order is running, with what it was opened with. -/
  | order (id : CertificateId) (record : OrderRecord) (key : Secret)
  /-- An order has reached what is given. -/
  | reached (id : CertificateId) (progress : Reached) (driver : Option NodeId)
  /-- There is no order for the certificate given. -/
  | noOrder (id : CertificateId)

/-- What an order record was opened with. What the order reached is left out. -/
def opened (record : OrderRecord) : OrderRecord :=
  { record with orderUrl := none, answers := ∅, drivenBy := none }

/-- Whether a state has an effect. -/
def Effect.HoldsIn (state : Snapshot) : Effect → Prop
  | .token id record => ∃ held, state.joins.lookup id = some held ∧
      { held with usedBy := none } = record
  | .mark id node => state.usedBy id = some node
  | .row node => state.config.Names node
  | .noRow node => ¬ state.config.Names node
  | .refusal node => node ∈ state.removed
  | .settings document => { state.config with
      nodes := document.nodes, certificates := document.certificates } = document
  | .documentRow line => line ∈ state.config.nodes
  | .certificate id sniNames source => ∃ held, Tls.held state.config id = some held ∧
      held.sniNames = sniNames ∧ held.source = source
  | .noCertificate id => Tls.held state.config id = none
  | .installed id upload => (∃ held, Tls.held state.config id = some held ∧
      held.validity = some upload.validity ∧ held.chain = some (chainId id) ∧
      held.privateKey = some (keyId id)) ∧
      state.secrets.lookup (chainId id) = some upload.chain ∧
      state.secrets.lookup (keyId id) = some upload.key
  | .accountKey pem => state.secrets.lookup accountKeySecret = some pem
  | .order id record key => (∃ held, state.orders.lookup id = some held ∧
      opened held = opened record) ∧ state.secrets.lookup (orderKeyId id) = some key
  | .reached id progress driver => ∃ held, state.orders.lookup id = some held ∧
      held.orderUrl = progress.orderUrl ∧ held.answers = progress.answers ∧ held.drivenBy = driver
  | .noOrder id => state.orders.lookup id = none

/-- Whether there is a state, and it has an effect. -/
def Effect.Holds (effect : Effect) (state : Option Snapshot) : Prop :=
  ∃ s, state = some s ∧ effect.HoldsIn s

/-- The effects a writer has. -/
def gives (lib : Library) : Writer → Effect → Prop
  | .mint actor now drawn, .token id record => ∃ draw, drawn = .ok draw ∧
      id = ⟨Text.hex draw.id.toList⟩ ∧ record = {
        secretDigest := lib.digest (Text.hex draw.secret.toList)
        expiresAtUnix := now + lifetimeSeconds
        usedBy := none
        issuedBy := actor
        issuedAtUnix := now }
  | .admitNode ask _, .mark id node =>
    (∃ token, Token.read ask.token = .ok token ∧ id = token.id) ∧ node = ask.name
  | .admitNode ask _, .row node => node = ask.name
  | .remove removed _ _, .noRow node => node = removed
  | .remove removed _ _, .refusal node => node = removed
  | .applyOnce applied, .settings document => document = applied
  | .applyOnce applied, .documentRow line => line ∈ applied.nodes
  | .applyOnce applied, .noRow node => ¬ applied.Names node
  | .applyOnce applied, .certificate id sniNames source => ∃ certificate,
      Tls.held applied id = some certificate ∧ certificate.sniNames = sniNames ∧
      certificate.source = source
  | .applyOnce applied, .noCertificate id => Tls.held applied id = none
  | .accountKey _ drawn, .accountKey pem => pem = drawn
  | .openOrder order names challenge driver now drawn, .order id record key =>
    id = order ∧ record = openingRecord order names challenge driver now ∧ key = drawn
  | .fileReached order filed filer, .reached id progress driver =>
    id = order ∧ progress = filed ∧ driver = filer
  | .closeOrder order, .noOrder id => id = order
  | .obtained _ order _ material, .installed id upload => id = order ∧ upload = material
  | .obtained _ order issuer material, .certificate id sniNames source =>
    id = order ∧ sniNames = material.sniNames ∧ source = issuer
  | .obtained _ order _ _, .noOrder id => id = order
  | _, _ => False

/-- The effects a writer's own edit is meant to take away. -/
def takes : Writer → Effect → Prop
  | .admitNode ask _, .noRow node => node = ask.name
  | .remove removed _ _, .row node => node = removed
  | .remove removed _ _, .documentRow line => line.id = removed
  | .applyOnce document, .row node => ¬ document.Names node
  | .applyOnce document, .noRow node => document.Names node
  | .applyOnce document, .settings earlier => { document with
      nodes := earlier.nodes, certificates := earlier.certificates } ≠ earlier
  | .applyOnce document, .documentRow line => line ∉ document.nodes
  | .applyOnce document, .certificate id sniNames source => ¬ ∃ certificate,
      Tls.held document id = some certificate ∧ certificate.sniNames = sniNames ∧
      certificate.source = source
  | .applyOnce document, .noCertificate id => Tls.held document id ≠ none
  | .applyOnce document, .installed id _ => Tls.held document id = none
  | .openOrder order _ _ _ _ _, .noOrder id => id = order
  | .fileReached order _ _, .reached id _ _ => id = order
  | .closeOrder order, .order id _ _ => id = order
  | .closeOrder order, .reached id _ _ => id = order
  | .obtained _ order _ _, .order id _ _ => id = order
  | .obtained _ order _ _, .reached id _ _ => id = order
  | .obtained _ order _ _, .certificate id _ _ => id = order
  | .obtained _ order _ _, .noCertificate id => id = order
  | .obtained _ order _ _, .installed id _ => id = order
  | _, _ => False

/-- Whether a state is the one a writer took its other inputs from. A mint draws an identity that is
not in use. The order driver brings its own configuration, makes an account key because it found none,
opens an order because it found none, and keeps no certificate's key under the name of the account
key. -/
def Current (writer : Writer) (state : Option Snapshot) : Prop :=
  ∀ s, state = some s →
    match writer with
    | .mint _ _ drawn => ∀ draw, drawn = .ok draw →
        s.joins.lookup ⟨Text.hex draw.id.toList⟩ = none
    | .accountKey captured _ =>
        carryObtained captured s.config = s.config ∧ s.secrets.lookup accountKeySecret = none
    | .openOrder id _ _ _ _ _ => s.orders.lookup id = none
    | .obtained _ id _ _ => keyId id ≠ accountKeySecret
    | _ => True

/-! ## What an edit keeps -/

section

variable {lib : Library} {writer : Writer} {before after : Snapshot}

/-- What is there and what is not there are under different names. -/
theorem ne_of_lookup {α : Type*} {β : α → Type*} [DecidableEq α] {entries : Finmap β}
    {name other : α} {value : β name} (h : entries.lookup name = some value)
    (hnone : entries.lookup other = none) : name ≠ other := by
  rintro rfl
  rw [hnone] at h
  cases h

theorem kept_token {id : TokenId} {record : JoinRecord} (hedits : Edits lib writer before after)
    (hcurrent : Current writer (some before)) (h : (Effect.token id record).HoldsIn before) :
    (Effect.token id record).HoldsIn after := by
  cases hedits with
  | mint =>
    obtain ⟨held, hheld, hrecord⟩ := h
    have hother : id ≠ _ := ne_of_lookup hheld (hcurrent _ rfl _ rfl)
    exact ⟨held, by rw [Snapshot.withJoin, Finmap.lookup_insert_of_ne _ hother, hheld], hrecord⟩
  | @admitNode judged ask now hjudged _ =>
    obtain ⟨held, hheld, hrecord⟩ := h
    by_cases hid : id = judged.token.id
    · subst hid
      obtain rfl : judged.record = held := Option.some.inj (hjudged.record.symm.trans hheld)
      exact ⟨{ judged.record with usedBy := some ask.name }, Finmap.lookup_insert _, hrecord⟩
    · exact ⟨held, by rw [enrolled, Finmap.lookup_insert_of_ne _ hid, hheld], hrecord⟩
  | remove | applyOnce | accountKey | openOrder | fileReached | closeOrder | obtained => exact h

theorem kept_mark {id : TokenId} {node : NodeId} (hedits : Edits lib writer before after)
    (hcurrent : Current writer (some before)) (h : (Effect.mark id node).HoldsIn before) :
    (Effect.mark id node).HoldsIn after := by
  cases hedits with
  | mint =>
    obtain ⟨held, hheld, -⟩ := Option.bind_eq_some_iff.mp h
    have hother : id ≠ _ := ne_of_lookup hheld (hcurrent _ rfl _ rfl)
    simp only [Effect.HoldsIn, Snapshot.usedBy, Snapshot.withJoin] at h ⊢
    rw [Finmap.lookup_insert_of_ne _ hother, h]
  | @admitNode judged ask now hjudged hfirst =>
    -- the token the call uses was unmarked, so this one is another
    have hother : id ≠ judged.token.id := by
      rintro rfl
      rw [Effect.HoldsIn, hjudged.usedBy_of_first hfirst] at h
      cases h
    rw [Effect.HoldsIn, usedBy_enrolled, if_neg hother]
    exact h
  | remove | applyOnce | accountKey | openOrder | fileReached | closeOrder | obtained => exact h

/-- A driver that brings the state's own configuration leaves it alone. -/
theorem config_accountKeyed {captured : Config} {pem : Secret}
    (h : carryObtained captured before.config = before.config) :
    ((replaced before captured).withSecret accountKeySecret pem).config = before.config := h

theorem kept_row {node : NodeId} (hedits : Edits lib writer before after)
    (hcurrent : Current writer (some before)) (hkeeps : ¬ takes writer (.row node))
    (h : (Effect.row node).HoldsIn before) : (Effect.row node).HoldsIn after := by
  cases hedits with
  | admitNode _ _ => exact (names_enrolled _ _ _ _ _).mpr (.inr h)
  | remove => exact (names_putOut _ _).mpr ⟨hkeeps, h⟩
  | applyOnce => exact not_not.mp hkeeps
  | accountKey =>
    rw [Effect.HoldsIn, config_accountKeyed (hcurrent _ rfl).1]
    exact h
  | mint | openOrder | fileReached | closeOrder | obtained => exact h

theorem kept_noRow {node : NodeId} (hedits : Edits lib writer before after)
    (hcurrent : Current writer (some before)) (hkeeps : ¬ takes writer (.noRow node))
    (h : (Effect.noRow node).HoldsIn before) : (Effect.noRow node).HoldsIn after := by
  cases hedits with
  | admitNode _ _ =>
    rw [Effect.HoldsIn, names_enrolled]
    exact not_or.mpr ⟨hkeeps, h⟩
  | remove =>
    rw [Effect.HoldsIn, names_putOut]
    exact fun hnames => h hnames.2
  | applyOnce => exact hkeeps
  | accountKey =>
    rw [Effect.HoldsIn, config_accountKeyed (hcurrent _ rfl).1]
    exact h
  | mint | openOrder | fileReached | closeOrder | obtained => exact h

theorem kept_refusal {node : NodeId} (hedits : Edits lib writer before after)
    (h : (Effect.refusal node).HoldsIn before) : (Effect.refusal node).HoldsIn after := by
  cases hedits with
  | remove => exact Finset.mem_insert_of_mem h
  | mint | admitNode | applyOnce | accountKey | openOrder | fileReached | closeOrder | obtained =>
    exact h

theorem kept_settings {document : Config} (hedits : Edits lib writer before after)
    (hcurrent : Current writer (some before)) (hkeeps : ¬ takes writer (.settings document))
    (h : (Effect.settings document).HoldsIn before) : (Effect.settings document).HoldsIn after := by
  cases hedits with
  | applyOnce => exact not_not.mp hkeeps
  | accountKey =>
    rw [Effect.HoldsIn, config_accountKeyed (hcurrent _ rfl).1]
    exact h
  | mint | admitNode | remove | openOrder | fileReached | closeOrder | obtained => exact h

theorem kept_documentRow {line : Node} (hedits : Edits lib writer before after)
    (hcurrent : Current writer (some before)) (hkeeps : ¬ takes writer (.documentRow line))
    (h : (Effect.documentRow line).HoldsIn before) : (Effect.documentRow line).HoldsIn after := by
  cases hedits with
  | admitNode _ _ =>
    simp only [Effect.HoldsIn, enrolled, withRow]
    split
    · exact h
    · exact List.mem_append_left _ h
  | remove => exact List.mem_filter.mpr ⟨h, decide_eq_true hkeeps⟩
  | applyOnce => exact not_not.mp hkeeps
  | accountKey =>
    rw [Effect.HoldsIn, config_accountKeyed (hcurrent _ rfl).1]
    exact h
  | mint | openOrder | fileReached | closeOrder | obtained => exact h

theorem kept_certificate {id : CertificateId} {sniNames : List String} {source : CertificateSource}
    (hedits : Edits lib writer before after) (hcurrent : Current writer (some before))
    (hkeeps : ¬ takes writer (.certificate id sniNames source))
    (h : (Effect.certificate id sniNames source).HoldsIn before) :
    (Effect.certificate id sniNames source).HoldsIn after := by
  cases hedits with
  | applyOnce =>
    obtain ⟨certificate, hheld, hnames, hsource⟩ := not_not.mp hkeeps
    refine ⟨obtained before.config certificate, ?_, ?_⟩
    · rw [replaced, held_carryObtained, hheld, Option.map_some]
    · rw [sniNames_obtained, source_obtained]
      exact ⟨hnames, hsource⟩
  | accountKey =>
    rw [Effect.HoldsIn, config_accountKeyed (hcurrent _ rfl).1]
    exact h
  | obtained =>
    rw [Effect.HoldsIn, orderClosed, held_install_of_ne (Ne.symm hkeeps)]
    exact h
  | mint | admitNode | remove | openOrder | fileReached | closeOrder => exact h

theorem kept_noCertificate {id : CertificateId} (hedits : Edits lib writer before after)
    (hcurrent : Current writer (some before)) (hkeeps : ¬ takes writer (.noCertificate id))
    (h : (Effect.noCertificate id).HoldsIn before) : (Effect.noCertificate id).HoldsIn after := by
  cases hedits with
  | applyOnce =>
    rw [Effect.HoldsIn, replaced, held_carryObtained, not_not.mp hkeeps, Option.map_none]
  | accountKey =>
    rw [Effect.HoldsIn, config_accountKeyed (hcurrent _ rfl).1]
    exact h
  | obtained =>
    rw [Effect.HoldsIn, orderClosed, held_install_of_ne (Ne.symm hkeeps)]
    exact h
  | mint | admitNode | remove | openOrder | fileReached | closeOrder => exact h

/-- The material of one certificate is out of the way of another one's and of every order's. -/
theorem lookup_obtainedOrder {order : CertificateId} {source : CertificateSource}
    {upload : Upload} {secret : SecretId} (hchain : secret ≠ chainId order)
    (hkey : secret ≠ keyId order) (horder : secret ≠ orderKeyId order) :
    (orderClosed (install before order source upload) order).secrets.lookup secret =
      before.secrets.lookup secret := by
  rw [orderClosed, Finmap.lookup_erase_ne horder, install, Finmap.lookup_insert_of_ne _ hkey,
    Finmap.lookup_insert_of_ne _ hchain]

theorem kept_installed {id : CertificateId} {upload : Upload}
    (hedits : Edits lib writer before after) (hcurrent : Current writer (some before))
    (hkeeps : ¬ takes writer (.installed id upload))
    (h : (Effect.installed id upload).HoldsIn before) :
    (Effect.installed id upload).HoldsIn after := by
  obtain ⟨⟨kept, hkept, hobtained⟩, hchain, hkey⟩ := h
  cases hedits with
  | applyOnce =>
    -- what was obtained is carried into the document
    obtain ⟨certificate, hcertificate⟩ := Option.ne_none_iff_exists'.mp hkeeps
    refine ⟨⟨obtained before.config certificate, ?_, ?_⟩, hchain, hkey⟩
    · rw [replaced, held_carryObtained, hcertificate, Option.map_some]
    · rw [obtained, id_of_held hcertificate, hkept]
      exact hobtained
  | accountKey =>
    obtain ⟨hconfig, hnone⟩ := hcurrent _ rfl
    have hother : keyId id ≠ accountKeySecret := ne_of_lookup hkey hnone
    refine ⟨⟨kept, ?_, hobtained⟩, ?_, ?_⟩
    · rw [config_accountKeyed hconfig]
      exact hkept
    · rw [Snapshot.withSecret, accountKeySecret_eq, Finmap.lookup_insert_of_ne _ chainId_ne_keyId]
      exact hchain
    · rw [Snapshot.withSecret, Finmap.lookup_insert_of_ne _ hother]
      exact hkey
  | openOrder =>
    refine ⟨⟨kept, hkept, hobtained⟩, ?_, ?_⟩
    · rw [orderOpened, Finmap.lookup_insert_of_ne _ chainId_ne_orderKeyId, hchain]
    · rw [orderOpened, Finmap.lookup_insert_of_ne _ keyId_ne_orderKeyId, hkey]
  | closeOrder =>
    refine ⟨⟨kept, hkept, hobtained⟩, ?_, ?_⟩
    · rw [orderClosed, Finmap.lookup_erase_ne chainId_ne_orderKeyId, hchain]
    · rw [orderClosed, Finmap.lookup_erase_ne keyId_ne_orderKeyId, hkey]
  | obtained =>
    refine ⟨⟨kept, ?_, hobtained⟩, ?_, ?_⟩
    · rw [orderClosed, held_install_of_ne (Ne.symm hkeeps), hkept]
    · rw [lookup_obtainedOrder (chainId_injective.ne hkeeps) chainId_ne_keyId chainId_ne_orderKeyId,
        hchain]
    · rw [lookup_obtainedOrder chainId_ne_keyId.symm (keyId_injective.ne hkeeps)
        keyId_ne_orderKeyId, hkey]
  | mint | admitNode | remove | fileReached => exact ⟨⟨kept, hkept, hobtained⟩, hchain, hkey⟩

theorem kept_accountKey {pem : Secret} (hedits : Edits lib writer before after)
    (hcurrent : Current writer (some before)) (h : (Effect.accountKey pem).HoldsIn before) :
    (Effect.accountKey pem).HoldsIn after := by
  have hchain : ∀ id, accountKeySecret ≠ chainId id := by
    intro id
    rw [accountKeySecret_eq]
    exact chainId_ne_keyId.symm
  have horder : ∀ id, accountKeySecret ≠ orderKeyId id := by
    intro id
    rw [accountKeySecret_eq]
    exact keyId_ne_orderKeyId
  cases hedits with
  | accountKey => exact absurd rfl (ne_of_lookup h (hcurrent _ rfl).2)
  | openOrder =>
    rw [Effect.HoldsIn, orderOpened, Finmap.lookup_insert_of_ne _ (horder _)]
    exact h
  | closeOrder =>
    rw [Effect.HoldsIn, orderClosed, Finmap.lookup_erase_ne (horder _)]
    exact h
  | obtained =>
    rw [Effect.HoldsIn, lookup_obtainedOrder (hchain _) (hcurrent _ rfl).symm (horder _)]
    exact h
  | mint | admitNode | remove | applyOnce | fileReached => exact h

theorem kept_order {id : CertificateId} {record : OrderRecord} {key : Secret}
    (hedits : Edits lib writer before after) (hcurrent : Current writer (some before))
    (hkeeps : ¬ takes writer (.order id record key))
    (h : (Effect.order id record key).HoldsIn before) :
    (Effect.order id record key).HoldsIn after := by
  obtain ⟨⟨kept, hkept, hopened⟩, hkey⟩ := h
  cases hedits with
  | accountKey =>
    refine ⟨⟨kept, hkept, hopened⟩, ?_⟩
    rw [Snapshot.withSecret, accountKeySecret_eq,
      Finmap.lookup_insert_of_ne _ keyId_ne_orderKeyId.symm]
    exact hkey
  | openOrder =>
    have hother : id ≠ _ := ne_of_lookup hkept (hcurrent _ rfl)
    refine ⟨⟨kept, ?_, hopened⟩, ?_⟩
    · rw [orderOpened, Finmap.lookup_insert_of_ne _ hother, hkept]
    · rw [orderOpened, Finmap.lookup_insert_of_ne _ (orderKeyId_injective.ne hother), hkey]
  | @fileReached _ order progress driver filed hfiled =>
    by_cases hid : id = order
    · subst hid
      obtain rfl : filed = kept := Option.some.inj (hfiled.symm.trans hkept)
      exact ⟨⟨reachedRecord filed progress driver, Finmap.lookup_insert _, hopened⟩, hkey⟩
    · exact ⟨⟨kept, by rw [Finmap.lookup_insert_of_ne _ hid, hkept], hopened⟩, hkey⟩
  | closeOrder =>
    refine ⟨⟨kept, ?_, hopened⟩, ?_⟩
    · rw [orderClosed, Finmap.lookup_erase_ne hkeeps, hkept]
    · rw [orderClosed, Finmap.lookup_erase_ne (orderKeyId_injective.ne hkeeps), hkey]
  | obtained =>
    refine ⟨⟨kept, ?_, hopened⟩, ?_⟩
    · rw [orderClosed, Finmap.lookup_erase_ne hkeeps]
      exact hkept
    · rw [lookup_obtainedOrder chainId_ne_orderKeyId.symm keyId_ne_orderKeyId.symm
        (orderKeyId_injective.ne hkeeps), hkey]
  | mint | admitNode | remove | applyOnce => exact ⟨⟨kept, hkept, hopened⟩, hkey⟩

theorem kept_reached {id : CertificateId} {progress : Reached} {driver : Option NodeId}
    (hedits : Edits lib writer before after) (hcurrent : Current writer (some before))
    (hkeeps : ¬ takes writer (.reached id progress driver))
    (h : (Effect.reached id progress driver).HoldsIn before) :
    (Effect.reached id progress driver).HoldsIn after := by
  obtain ⟨kept, hkept, hreached⟩ := h
  refine ⟨kept, ?_, hreached⟩
  cases hedits with
  | openOrder =>
    exact (Finmap.lookup_insert_of_ne _ (ne_of_lookup hkept (hcurrent _ rfl))).trans hkept
  | fileReached _ => exact (Finmap.lookup_insert_of_ne _ hkeeps).trans hkept
  | closeOrder => exact (Finmap.lookup_erase_ne hkeeps).trans hkept
  | obtained => exact (Finmap.lookup_erase_ne hkeeps).trans hkept
  | mint | admitNode | remove | applyOnce | accountKey => exact hkept

theorem kept_noOrder {id : CertificateId} (hedits : Edits lib writer before after)
    (hkeeps : ¬ takes writer (.noOrder id)) (h : (Effect.noOrder id).HoldsIn before) :
    (Effect.noOrder id).HoldsIn after := by
  cases hedits with
  | openOrder => exact (Finmap.lookup_insert_of_ne _ hkeeps).trans h
  | @fileReached _ order progress driver filed hfiled =>
    -- a record to file was there, so it is another order's
    have hother : id ≠ order := (ne_of_lookup hfiled h).symm
    exact (Finmap.lookup_insert_of_ne _ hother).trans h
  | @closeOrder _ order =>
    by_cases hid : id = order
    · subst hid
      exact Finmap.lookup_erase id _
    · exact (Finmap.lookup_erase_ne hid).trans h
  | @obtained _ _ order _ _ =>
    by_cases hid : id = order
    · subst hid
      exact Finmap.lookup_erase id _
    · exact (Finmap.lookup_erase_ne hid).trans h
  | mint | admitNode | remove | applyOnce | accountKey => exact h

/-- An edit keeps every effect it is not meant to take. -/
theorem kept_of_edits {effect : Effect} (hedits : Edits lib writer before after)
    (hcurrent : Current writer (some before)) (hkeeps : ¬ takes writer effect)
    (h : effect.HoldsIn before) : effect.HoldsIn after := by
  cases effect with
  | token => exact kept_token hedits hcurrent h
  | mark => exact kept_mark hedits hcurrent h
  | row => exact kept_row hedits hcurrent hkeeps h
  | noRow => exact kept_noRow hedits hcurrent hkeeps h
  | refusal => exact kept_refusal hedits h
  | settings => exact kept_settings hedits hcurrent hkeeps h
  | documentRow => exact kept_documentRow hedits hcurrent hkeeps h
  | certificate => exact kept_certificate hedits hcurrent hkeeps h
  | noCertificate => exact kept_noCertificate hedits hcurrent hkeeps h
  | installed => exact kept_installed hedits hcurrent hkeeps h
  | accountKey => exact kept_accountKey hedits hcurrent h
  | order => exact kept_order hedits hcurrent hkeeps h
  | reached => exact kept_reached hedits hcurrent hkeeps h
  | noOrder => exact kept_noOrder hedits hkeeps h

/-! ## What an edit gives -/

theorem given_of_admitNode {judged : Judged} {ask : Raft.Ask} {now : ℤ} {effect : Effect}
    (hjudged : judged.Sound lib (some judged.state) ask now)
    (hgives : gives lib (.admitNode ask now) effect) :
    effect.HoldsIn (enrolled judged.state ask.name ask.address judged.token.id judged.record) := by
  cases effect with
  | mark id node =>
    obtain ⟨⟨token, htoken, rfl⟩, rfl⟩ := hgives
    obtain rfl : token = judged.token := Except.ok.inj (htoken.symm.trans hjudged.token)
    rw [Effect.HoldsIn, usedBy_enrolled, if_pos rfl]
  | row node => exact (names_enrolled _ _ _ _ _).mpr (.inl hgives)
  | _ => exact False.elim hgives

theorem given_of_applyOnce {document : Config} {effect : Effect}
    (hgives : gives lib (.applyOnce document) effect) :
    effect.HoldsIn (replaced before document) := by
  cases effect with
  | settings applied =>
    obtain rfl : applied = document := hgives
    rfl
  | documentRow line => exact hgives
  | noRow node => exact hgives
  | certificate id sniNames source =>
    obtain ⟨certificate, hheld, hnames, hsource⟩ := hgives
    refine ⟨obtained before.config certificate, ?_, ?_⟩
    · rw [replaced, held_carryObtained, hheld, Option.map_some]
    · rw [sniNames_obtained, source_obtained]
      exact ⟨hnames, hsource⟩
  | noCertificate id =>
    have hnone : Tls.held document id = none := hgives
    rw [Effect.HoldsIn, replaced, held_carryObtained, hnone, Option.map_none]
  | _ => exact False.elim hgives

theorem given_of_obtained {captured : Config} {order : CertificateId} {source : CertificateSource}
    {upload : Upload} {effect : Effect}
    (hgives : gives lib (.obtained captured order source upload) effect) :
    effect.HoldsIn (orderClosed (install before order source upload) order) := by
  cases effect with
  | installed id material =>
    obtain ⟨rfl, rfl⟩ := hgives
    refine ⟨⟨record id source material, held_install_self before source material, rfl, rfl, rfl⟩,
      ?_, ?_⟩
    · rw [orderClosed, Finmap.lookup_erase_ne chainId_ne_orderKeyId, install,
        Finmap.lookup_insert_of_ne _ chainId_ne_keyId, Finmap.lookup_insert]
    · rw [orderClosed, Finmap.lookup_erase_ne keyId_ne_orderKeyId, install, Finmap.lookup_insert]
  | certificate id sniNames issuer =>
    obtain ⟨rfl, rfl, rfl⟩ := hgives
    exact ⟨record id issuer upload, held_install_self before issuer upload, rfl, rfl⟩
  | noOrder id =>
    obtain rfl : id = order := hgives
    exact Finmap.lookup_erase id _
  | _ => exact False.elim hgives

/-- An edit gives every effect its writer has. -/
theorem given_of_edits {effect : Effect} (hedits : Edits lib writer before after)
    (hgives : gives lib writer effect) : effect.HoldsIn after := by
  cases hedits with
  | admitNode hjudged _ => exact given_of_admitNode hjudged hgives
  | applyOnce => exact given_of_applyOnce hgives
  | obtained => exact given_of_obtained hgives
  | mint =>
    cases effect with
    | token id record =>
      obtain ⟨draw, hdraw, rfl, rfl⟩ := hgives
      cases hdraw
      exact ⟨_, Finmap.lookup_insert _, rfl⟩
    | _ => exact False.elim hgives
  | remove =>
    cases effect with
    | noRow node =>
      rw [Effect.HoldsIn, names_putOut]
      exact fun hnames => hnames.1 hgives
    | refusal node =>
      obtain rfl : node = _ := hgives
      exact Finset.mem_insert_self _ _
    | _ => exact False.elim hgives
  | accountKey =>
    cases effect with
    | accountKey pem =>
      obtain rfl : pem = _ := hgives
      exact Finmap.lookup_insert _
    | _ => exact False.elim hgives
  | openOrder =>
    cases effect with
    | order id record key =>
      obtain ⟨rfl, rfl, rfl⟩ := hgives
      exact ⟨⟨_, Finmap.lookup_insert _, rfl⟩, Finmap.lookup_insert _⟩
    | _ => exact False.elim hgives
  | fileReached _ =>
    cases effect with
    | reached id progress driver =>
      obtain ⟨rfl, rfl, rfl⟩ := hgives
      exact ⟨_, Finmap.lookup_insert _, rfl, rfl, rfl⟩
    | _ => exact False.elim hgives
  | closeOrder =>
    cases effect with
    | noOrder id =>
      obtain rfl : id = _ := hgives
      exact Finmap.lookup_erase id _
    | _ => exact False.elim hgives

end

/-! ## Runs -/

/-- The effects of the five writers. -/
def writerEffects (lib : Library) : Effects (writers lib) Current Effect where
  holds := Effect.Holds
  gives := gives lib
  takes := takes
  given := by
    intro writer state next answer effect hplan _ hgives
    obtain ⟨before, after, rfl, hedits, -⟩ := edits_of_plan hplan
    exact ⟨after, rfl, given_of_edits hedits hgives⟩
  kept := by
    rintro writer state next answer effect hplan hcurrent hkeeps ⟨s, rfl, hholds⟩
    obtain ⟨before, after, rfl, hedits, hread⟩ := edits_of_plan hplan
    obtain rfl := hread s rfl
    exact ⟨after, rfl, kept_of_edits hedits hcurrent hkeeps hholds⟩

/-- In every run in which each write lands on the state its writer read, every effect of every landed
write holds in the agreed state, unless a later write was meant to take it. -/
theorem acknowledged_effects_kept {lib : Library} {start : Option Snapshot}
    {actions : List (Action NodeId Writer)}
    (h : Runs.Along (World.step (writers lib)) (Fresh Current) (World.new start) actions)
    {earlier later : List (Entry Writer (Option Snapshot))} {entry : Entry Writer (Option Snapshot)}
    (hlog : (Runs.run (World.step (writers lib)) (World.new start) actions).log =
      earlier ++ entry :: later)
    {effect : Effect} (hgives : gives lib entry.op effect) :
    effect.Holds (Runs.run (World.step (writers lib)) (World.new start) actions).head ∨
      ∃ taking ∈ later, takes taking.op effect := by
  have hserial := serial_run h
  rw [hlog] at hserial
  rw [World.head, start_run, hlog]
  have hkept : (writerEffects lib).holds effect (World.left start (earlier ++ entry :: later)) ∨
      ∃ taking ∈ later, (writerEffects lib).takes taking.op effect :=
    hserial.effect_kept hgives
  exact hkept

/-- A mint on a node of a founded cluster, from draws that repeat one byte. -/
def mintOf (byte : UInt8) : Writer := .mint "operator" 10 (.ok (drawOf byte))

/-- The token such a mint is for, with its record. -/
def mintedBy (byte : UInt8) : Effect :=
  .token (tokenOf byte).id (mintedRecord signing (tokenOf byte) "operator" 10)

theorem gives_mintOf (byte : UInt8) : gives signing (mintOf byte) (mintedBy byte) :=
  ⟨drawOf byte, rfl, rfl, rfl⟩

/-- A node of a cluster with an authority mints whenever it is asked to. -/
theorem plan_mintOf (byte : UInt8) {state : Snapshot} {identity : ClusterIdentity}
    (h : state.cluster = some identity) :
    (writers signing).plan (mintOf byte) (some state) =
      some (some (some (state.withJoin (tokenOf byte).id
        (mintedRecord signing (tokenOf byte) "operator" 10))), ()) := by
  have hauthority : authority state = .ok identity := by rw [authority, h, Checked.found_some]
  have hprint : fingerprint signing identity = .ok print := rfl
  have hmint : Raft.mint signing (some state) "operator" 10 (.ok (drawOf byte)) =
      .ok (tokenOf byte, minting signing state (tokenOf byte) "operator" 10) := by
    rw [Raft.mint, Raft.held, Checked.found_some, Checked.ok_bind, hauthority, Checked.ok_bind, hprint,
      Checked.ok_bind, mint_drawOf, Checked.ok_bind]
  simp only [writers, writerPlan, mintOf, hmint, Except.map, proposing, minting]

/-- The state of a cluster that was just founded. -/
def founding : Snapshot := Peer.install (.new (documentOf [row nodeA 1])) ⟨"authority", ⟨[1]⟩⟩

theorem cluster_founding : founding.cluster = some ⟨"authority"⟩ := rfl

theorem lookup_founding (id : TokenId) : founding.joins.lookup id = none := rfl

/-- A token that is minted alone is there. -/
theorem lone_mint_is_kept :
    (mintedBy 0x11).Holds (Runs.run (World.step (writers signing)) (World.new (some founding))
      [.read nodeA (mintOf 0x11), .finish 0 true]).head := by
  obtain ⟨next, hplan⟩ : ∃ next, (writers signing).plan (mintOf 0x11) (some founding) =
      some (some next, ()) := ⟨_, plan_mintOf 0x11 cluster_founding⟩
  have hcurrent : Current (mintOf 0x11) (some founding) := by
    intro s hs draw _
    rw [← Option.some.inj hs]
    exact lookup_founding _
  -- nothing below depends on which state this is
  generalize some founding = start at hplan hcurrent ⊢
  have halong : Runs.Along (World.step (writers signing)) (Fresh Current) (World.new start)
      [.read nodeA (mintOf 0x11), .finish 0 true] := by
    refine ⟨trivial, fun p hp _ => ?_, trivial⟩
    obtain ⟨hop, hread⟩ := World.pending_of_alone hp
    rw [hop, hread, World.head_of_alone]
    exact ⟨rfl, hcurrent⟩
  have hlog : (Runs.run (World.step (writers signing)) (World.new start)
      [.read nodeA (mintOf 0x11), .finish 0 true]).log = [] ++ [⟨mintOf 0x11, next, true⟩] := by
    rw [World.run_alone hplan, List.nil_append]
  rcases acknowledged_effects_kept halong hlog (gives_mintOf 0x11) with hholds | ⟨taking, hmem, -⟩
  · exact hholds
  · nomatch hmem

/-- Of two mints that overlap, the one that lands first loses its token, though both are answered. -/
theorem overlapping_mints_lose_a_token :
    ∃ first second,
      (Runs.run (World.step (writers signing)) (World.new (some founding))
        (World.overlap nodeA (mintOf 0x11) (mintOf 0x22))).log = [first, second] ∧
      first.heard = true ∧ second.heard = true ∧ gives signing first.op (mintedBy 0x11) ∧
      ¬ takes second.op (mintedBy 0x11) ∧
      ¬ (mintedBy 0x11).Holds (Runs.run (World.step (writers signing)) (World.new (some founding))
        (World.overlap nodeA (mintOf 0x11) (mintOf 0x22))).head := by
  have hother : (tokenOf 0x11).id ≠ (tokenOf 0x22).id := by decide +kernel
  have hfirst := plan_mintOf 0x11 cluster_founding
  have hsecond := plan_mintOf 0x22 cluster_founding
  rw [World.run_overlap rfl hfirst hsecond]
  refine ⟨_, _, rfl, rfl, rfl, gives_mintOf 0x11, id, ?_⟩
  rintro ⟨s, hs, held, hheld, -⟩
  obtain rfl := Option.some.inj hs
  rw [Snapshot.withJoin, Finmap.lookup_insert_of_ne _ hother, lookup_founding] at hheld
  cases hheld

end EkEk.Program
