import EkEk.Program.Sequence

/-!
# Key material and what refers to it

Reference: `crates/ek-ek-tls/src/record.rs`, `apply_once` of `crates/ek-ek/src/cluster.rs`, and
`crates/ek-ek/src/acme.rs`.

A certificate's record and its two pieces of material arrive together. A record that names material
nobody stored is a frontend that answers no handshake, and material nobody references is a private key
kept for no reason. Removing a certificate takes all three out again.

Documents replace the records and carry the references over, and leave the material where it is. A
document that drops a certificate therefore leaves its key behind. `referenced_run` says that this is
how keys are left behind: every other update keeps records and material together.
-/

namespace EkEk.Program

open Store Tls
open Peer (Library)

/-- A state, and the certificates that were ever installed in it. -/
structure Watched where
  state : Snapshot
  installed : Finset CertificateId

/-- The certificate an update installs. -/
def installs : Update → Finset CertificateId
  | .install id _ _ => {id}
  | .write (.obtained _ id _ _) => {id}
  | _ => ∅

/-- The step an update makes. -/
def watch (lib : Library) (watched : Watched) (action : Update) : Watched where
  state := (update lib (some watched.state) action).getD watched.state
  installed := watched.installed ∪ installs action

/-- Whether a state holds material of a certificate. -/
def Present (state : Snapshot) (id : CertificateId) : Prop :=
  chainId id ∈ state.secrets ∨ keyId id ∈ state.secrets

/-- Material of installed certificates is referred to, and what is served is there. -/
structure Referenced (state : Snapshot) (installed : Finset CertificateId) : Prop where
  kept : ∀ id ∈ installed, Present state id → ∃ certificate, held state.config id = some certificate ∧
    certificate.chain = some (chainId id) ∧ certificate.privateKey = some (keyId id)
  served : ∀ certificate ∈ state.config.certificates, certificate.validity.isSome →
    chainId certificate.id ∈ state.secrets ∧ keyId certificate.id ∈ state.secrets

/-- A document without anything that only an order can put in. -/
def Unobtained (document : Config) : Prop :=
  ∀ certificate ∈ document.certificates,
    certificate.validity = none ∧ certificate.chain = none ∧ certificate.privateKey = none

/-- A document with every installed certificate whose material is there. -/
def Lists (watched : Watched) (document : Config) : Prop :=
  ∀ id ∈ watched.installed, Present watched.state id → (held document id).isSome

/-- The updates that keep records and material together. -/
def KeepsReferences (watched : Watched) : Update → Prop
  | .write (.applyOnce document) => Lists watched document
  -- the captured configuration is the operator's of some time ago, and the account key has the name
  -- of a certificate's
  | .write (.accountKey captured _) => Lists watched captured ∧
      (∀ certificate ∈ captured.certificates, certificate.validity.isSome →
        (held watched.state.config certificate.id).isSome) ∧
      (⟨"acme.account"⟩ ∈ watched.installed → Present watched.state ⟨"acme.account"⟩)
  | _ => True

section

variable {state : Snapshot} {installed : Finset CertificateId}

/-- What changes neither certificates nor their material changes nothing. -/
theorem Referenced.of_same (h : Referenced state installed) {after : Snapshot}
    (hcertificates : after.config.certificates = state.config.certificates)
    (hchain : ∀ id, chainId id ∈ after.secrets ↔ chainId id ∈ state.secrets)
    (hkey : ∀ id, keyId id ∈ after.secrets ↔ keyId id ∈ state.secrets) :
    Referenced after installed := by
  refine ⟨fun id hid hpresent => ?_, fun certificate hmem hvalid => ?_⟩
  · rw [held, hcertificates]
    refine h.kept id hid ?_
    rwa [Present, ← hchain, ← hkey]
  · rw [hcertificates] at hmem
    rw [hchain, hkey]
    exact h.served certificate hmem hvalid

theorem Referenced.union_empty (h : Referenced state installed) : Referenced state (installed ∪ ∅) := by
  rwa [Finset.union_empty]

/-- An installed certificate refers to its material. -/
theorem Referenced.install (h : Referenced state installed) (id : CertificateId)
    (source : CertificateSource) (upload : Upload) :
    Referenced (Tls.install state id source upload) (installed ∪ {id}) := by
  have hsecrets : ∀ secret, secret ∈ (Tls.install state id source upload).secrets ↔
      secret = keyId id ∨ secret = chainId id ∨ secret ∈ state.secrets := by
    intro secret
    rw [Tls.install, Finmap.mem_insert, Finmap.mem_insert]
  refine ⟨fun other hother hpresent => ?_, fun certificate hmem hvalid => ?_⟩
  · by_cases hsame : other = id
    · subst hsame
      exact ⟨_, held_install_self state source upload, rfl, rfl⟩
    · rw [held_install_of_ne (Ne.symm hsame)]
      rw [Finset.mem_union, Finset.mem_singleton] at hother
      refine h.kept other (hother.resolve_right hsame) ?_
      rw [Present, hsecrets, hsecrets] at hpresent
      simpa [Present, chainId_ne_keyId, chainId_ne_keyId.symm, chainId_injective.eq_iff,
        keyId_injective.eq_iff, hsame] using hpresent
  · rw [hsecrets, hsecrets]
    rcases mem_of_mem_file hmem with rfl | hmem
    · exact ⟨.inr (.inl rfl), .inl rfl⟩
    · exact (h.served certificate hmem hvalid).imp (fun h => .inr (.inr h)) fun h => .inr (.inr h)

/-- A certificate that is removed takes its material along. -/
theorem Referenced.remove (h : Referenced state installed) (id : CertificateId) :
    Referenced (Tls.remove state id) installed := by
  have hsecrets : ∀ secret, secret ∈ (Tls.remove state id).secrets ↔
      secret ≠ keyId id ∧ secret ≠ chainId id ∧ secret ∈ state.secrets := by
    intro secret
    rw [Tls.remove, Finmap.mem_erase, Finmap.mem_erase]
  refine ⟨fun other hother hpresent => ?_, fun certificate hmem hvalid => ?_⟩
  · rw [Present, hsecrets, hsecrets] at hpresent
    have hne : other ≠ id := by
      rintro rfl
      rcases hpresent with ⟨-, hchain, -⟩ | ⟨hkey, -, -⟩
      · exact hchain rfl
      · exact hkey rfl
    rw [held_remove_of_ne hne]
    exact h.kept other hother (hpresent.imp (fun h => h.2.2) fun h => h.2.2)
  · obtain ⟨hmem, hne⟩ := List.mem_filter.mp hmem
    have hne : certificate.id ≠ id := of_decide_eq_true hne
    obtain ⟨hchain, hkey⟩ := h.served certificate hmem hvalid
    rw [hsecrets, hsecrets]
    exact ⟨⟨chainId_ne_keyId, chainId_injective.ne hne, hchain⟩,
      ⟨keyId_injective.ne hne, chainId_ne_keyId.symm, hkey⟩⟩

/-- A document with every certificate that has material refers to it as before. -/
theorem Referenced.replaced (h : Referenced state installed) {document : Config}
    (hlists : Lists ⟨state, installed⟩ document)
    (hvalid : ∀ certificate ∈ document.certificates, certificate.validity.isSome →
      (held state.config certificate.id).isSome) :
    Referenced (Program.replaced state document) installed := by
  refine ⟨fun id hid hpresent => ?_, fun certificate hmem hcertificate => ?_⟩
  · obtain ⟨kept, hkept, hchain, hkey⟩ := h.kept id hid hpresent
    obtain ⟨written, hwritten⟩ := Option.isSome_iff_exists.mp (hlists id hid hpresent)
    refine ⟨Tls.obtained state.config written, ?_, ?_⟩
    · rw [Program.replaced, held_carryObtained, hwritten]
      rfl
    · rw [Tls.obtained, id_of_held hwritten, hkept]
      exact ⟨hchain, hkey⟩
  · obtain ⟨written, hwritten, rfl⟩ := List.mem_map.mp hmem
    rw [id_obtained]
    rw [Tls.obtained] at hcertificate
    split at hcertificate
    · rename_i kept hkept
      rw [← id_of_held hkept]
      exact h.served kept (List.mem_of_find?_eq_some hkept) hcertificate
    · rename_i hnone
      exact absurd (hvalid written hwritten hcertificate) (by rw [hnone]; exact Bool.false_ne_true)

/-- The account key is kept under the name of a certificate's key. -/
theorem Referenced.withAccountKey (h : Referenced state installed)
    (haccount : ⟨"acme.account"⟩ ∈ installed → Present state ⟨"acme.account"⟩) (pem : Secret) :
    Referenced (state.withSecret accountKeySecret pem) installed := by
  have hsecrets : ∀ secret, secret ∈ (state.withSecret accountKeySecret pem).secrets ↔
      secret = keyId ⟨"acme.account"⟩ ∨ secret ∈ state.secrets := by
    intro secret
    rw [Snapshot.withSecret, Finmap.mem_insert, accountKeySecret_eq]
  refine ⟨fun id hid hpresent => ?_, fun certificate hmem hvalid => ?_⟩
  · rw [Present, hsecrets, hsecrets, keyId_injective.eq_iff] at hpresent
    rcases hpresent with (hchain | hchain) | (rfl | hkey)
    · exact absurd hchain chainId_ne_keyId
    · exact h.kept id hid (.inl hchain)
    · exact h.kept _ hid (haccount hid)
    · exact h.kept id hid (.inr hkey)
  · rw [hsecrets, hsecrets]
    exact (h.served certificate hmem hvalid).imp .inr .inr

theorem Referenced.orderClosed (h : Referenced state installed) (id : CertificateId) :
    Referenced (Program.orderClosed state id) installed := by
  refine h.of_same rfl (fun other => ?_) fun other => ?_
  · rw [Program.orderClosed, Finmap.mem_erase]
    simp [chainId_ne_orderKeyId]
  · rw [Program.orderClosed, Finmap.mem_erase]
    simp [keyId_ne_orderKeyId]

/-- Every edit that keeps references keeps records and material together. -/
theorem Referenced.edits {lib : Library} {writer : Writer} {after : Snapshot}
    (h : Referenced state installed) (hedits : Edits lib writer state after)
    (hkeeps : KeepsReferences ⟨state, installed⟩ (.write writer))
    (hdocument : ∀ document, writer = .applyOnce document → Unobtained document) :
    Referenced after (installed ∪ installs (.write writer)) := by
  cases hedits with
  | mint => exact .union_empty (h.of_same rfl (fun _ => Iff.rfl) fun _ => Iff.rfl)
  | admitNode hjudged hfirst => exact .union_empty (h.of_same rfl (fun _ => Iff.rfl) fun _ => Iff.rfl)
  | remove => exact .union_empty (h.of_same rfl (fun _ => Iff.rfl) fun _ => Iff.rfl)
  | applyOnce =>
    rename_i document
    refine (h.replaced hkeeps fun certificate hmem hvalid => ?_).union_empty
    rw [(hdocument document rfl certificate hmem).1] at hvalid
    cases hvalid
  | accountKey =>
    obtain ⟨hlists, hvalid, haccount⟩ := hkeeps
    exact ((h.replaced hlists hvalid).withAccountKey haccount _).union_empty
  | openOrder =>
    refine .union_empty (h.of_same rfl (fun id => ?_) fun id => ?_)
    · rw [orderOpened, Finmap.mem_insert]
      simp [chainId_ne_orderKeyId]
    · rw [orderOpened, Finmap.mem_insert]
      simp [keyId_ne_orderKeyId]
  | fileReached hrecord => exact .union_empty (h.of_same rfl (fun _ => Iff.rfl) fun _ => Iff.rfl)
  | closeOrder => exact (h.orderClosed _).union_empty
  | obtained => exact (h.install _ _ _).orderClosed _

/-- Every update that keeps references keeps records and material together. -/
theorem Referenced.watch {lib : Library} {action : Update} (h : Referenced state installed)
    (hkeeps : KeepsReferences ⟨state, installed⟩ action)
    (hdocument : ∀ document, action = .write (.applyOnce document) → Unobtained document) :
    Referenced (watch lib ⟨state, installed⟩ action).state
      (watch lib ⟨state, installed⟩ action).installed := by
  cases action with
  | write writer =>
    simp only [Program.watch, update]
    split
    · rename_i next answer hplan
      obtain ⟨before, after, rfl, hedits, hbefore⟩ := edits_of_plan hplan
      obtain rfl := hbefore state rfl
      exact h.edits hedits hkeeps fun document hwriter => hdocument document (hwriter ▸ rfl)
    · rename_i hrefused
      cases writer with
      | obtained captured id source upload => exact absurd rfl (hrefused _ _)
      | mint actor now drawn => exact h.union_empty
      | admitNode ask now => exact h.union_empty
      | remove node actor now => exact h.union_empty
      | applyOnce document => exact h.union_empty
      | accountKey captured pem => exact h.union_empty
      | openOrder id names challenge driver now key => exact h.union_empty
      | fileReached id reached driver => exact h.union_empty
      | closeOrder id => exact h.union_empty
  | rollBack restored => exact .union_empty (h.of_same rfl (fun _ => Iff.rfl) fun _ => Iff.rfl)
  | install id source upload => exact h.install id source upload
  | remove id => exact (h.remove id).union_empty

end

/-- Where nothing was obtained yet, and the documents that are applied leave it to orders to obtain
something, records and material stay together through every run of updates that keep references. -/
theorem referenced_run {lib : Library} {start : Snapshot} {updates : List Update}
    (hstart : ∀ certificate ∈ start.config.certificates, certificate.validity = none)
    (hdocuments : ∀ document, .write (.applyOnce document) ∈ updates → Unobtained document)
    (halong : Runs.Along (watch lib) KeepsReferences ⟨start, ∅⟩ updates) :
    ∀ first, first <+: updates →
      Referenced (Runs.run (watch lib) ⟨start, ∅⟩ first).state
        (Runs.run (watch lib) ⟨start, ∅⟩ first).installed := by
  have hfresh : Referenced start ∅ := by
    refine ⟨fun id hid => ?_, fun certificate hmem hvalid => ?_⟩
    · simp at hid
    · rw [hstart certificate hmem] at hvalid
      cases hvalid
  have hboth : Runs.Along (watch lib) (fun watched action => KeepsReferences watched action ∧
      ∀ document, action = .write (.applyOnce document) → Unobtained document) ⟨start, ∅⟩ updates := by
    refine halong.and_of_mem fun action hmem document hdocument => ?_
    exact hdocuments document (hdocument ▸ hmem)
  exact @Runs.Along.inv_of_prefix _ _ (watch lib) _
    (fun watched => Referenced watched.state watched.installed)
    (fun watched action h hkeeps => h.watch hkeeps.1 hkeeps.2) ⟨start, ∅⟩ updates hfresh hboth

/-- The end of its order. -/
def certificateObtained : Update :=
  .write (.obtained oneCertificate ⟨"cert"⟩ .acmeHttp01 ⟨["a.example"], ⟨0, 90⟩, ⟨[1]⟩, ⟨[2]⟩⟩)

/-- The certificate is obtained, and the document is applied again. -/
theorem referenced_after_apply :
    Referenced (Runs.run (watch Raft.signing) ⟨.new oneCertificate, ∅⟩
        [certificateObtained, .write (.applyOnce oneCertificate)]).state {⟨"cert"⟩} := by
  have hunobtained : Unobtained oneCertificate := by
    intro certificate hmem
    obtain rfl := List.mem_singleton.mp hmem
    exact ⟨rfl, rfl, rfl⟩
  have hdocuments : ∀ document, .write (.applyOnce document) ∈
      [certificateObtained, .write (.applyOnce oneCertificate)] → Unobtained document := by
    intro document hmem
    rcases List.mem_cons.mp hmem with h | h
    · cases h
    · cases List.mem_singleton.mp h
      exact hunobtained
  have halong : Runs.Along (watch Raft.signing) KeepsReferences ⟨.new oneCertificate, ∅⟩
      [certificateObtained, .write (.applyOnce oneCertificate)] := by
    refine ⟨trivial, fun id hid _ => ?_, trivial⟩
    obtain rfl : id = ⟨"cert"⟩ := by simpa [watch, installs, certificateObtained] using hid
    rfl
  exact referenced_run (by decide) hdocuments halong _ (List.prefix_refl _)

/-- The certificate is obtained, and a document without it is applied. Its key stays. -/
theorem key_left_behind :
    let watched := Runs.run (watch Raft.signing) ⟨.new oneCertificate, ∅⟩
      [certificateObtained, .write (.applyOnce Config.empty)]
    ⟨"cert"⟩ ∈ watched.installed ∧ keyId ⟨"cert"⟩ ∈ watched.state.secrets ∧
      watched.state.config.certificates = [] := by
  refine ⟨by decide, ?_, rfl⟩
  decide

end EkEk.Program
