import EkEk.Program.Sequence

/-!
# A sweep beside the operator

Reference: `one_at_a_time`, `sweep_once` and `apply_once` of `crates/ek-ek/src/cluster.rs`,
`account_key` and `obtain_order` of `crates/ek-ek/src/acme.rs`, and `crates/ek-ek-tls/src/record.rs`.

A sweep takes the configuration when it begins and drives orders on it for minutes. Meanwhile the
operator applies documents. No two updates of the state overlap, so none is lost, but two of the sweep's
own are made of the configuration it took: the account key is kept together with that configuration, and
a certificate is filed with the source it had there.

The document is the authority on what to serve. `stored_iff_fresh` says when the state holds to it: as
long as the account key is kept only while the sweep's configuration is the operator's last, and
certificates are filed only while the last document still has them, from the same source.
-/

namespace EkEk.Program

open Store Tls
open Peer (Library)

/-- A state with the document that was applied last, the configuration the running sweep took, and the
certificates that orders were finished for. -/
structure Swept where
  state : Snapshot
  document : Config
  captured : Option Config
  ordered : Finset CertificateId

/-- What the operator and the sweep do. -/
inductive Event where
  | apply (document : Config)
  | beginSweep
  | accountKey (pem : Secret)
  | openOrder (id : CertificateId) (names : List String) (challenge : OrderChallenge)
      (driver : Option NodeId) (now : ℤ) (key : Secret)
  | fileReached (id : CertificateId) (reached : Reached) (driver : Option NodeId)
  | closeOrder (id : CertificateId)
  | obtained (id : CertificateId) (upload : Upload)

/-- The state a writer leaves, which is the one it found where it refuses. -/
def written (lib : Library) (state : Snapshot) (writer : Writer) : Snapshot :=
  (update lib (some state) (.write writer)).getD state

/-- One event. Outside of a sweep there is no account key to keep, and a certificate the sweep's
configuration does not have is not ordered. -/
def Swept.step (lib : Library) (swept : Swept) : Event → Swept
  | .apply document =>
    { swept with state := written lib swept.state (.applyOnce document), document := document }
  | .beginSweep => { swept with captured := some swept.state.config }
  | .accountKey pem =>
    match swept.captured with
    | some captured => { swept with state := written lib swept.state (.accountKey captured pem) }
    | none => swept
  | .openOrder id names challenge driver now key =>
    { swept with state := written lib swept.state (.openOrder id names challenge driver now key) }
  | .fileReached id reached driver =>
    { swept with state := written lib swept.state (.fileReached id reached driver) }
  | .closeOrder id => { swept with state := written lib swept.state (.closeOrder id) }
  | .obtained id upload =>
    match swept.captured with
    | none => swept
    | some captured =>
      match held captured id with
      | none => swept
      | some certificate =>
        { swept with
          state := written lib swept.state (.obtained captured id certificate.source upload)
          ordered := insert id swept.ordered }

/-- A certificate with only what was obtained for it changed, its names too if it was ordered. -/
structure CarriesOver (ordered : Finset CertificateId) (wanted stored : Certificate) : Prop where
  id : stored.id = wanted.id
  source : stored.source = wanted.source
  names : wanted.id ∈ ordered ∨ stored.sniNames = wanted.sniNames

/-- A configuration that is a document with only what was obtained carried in. -/
structure HoldsTo (ordered : Finset CertificateId) (document config : Config) : Prop where
  rest : { config with certificates := document.certificates } = document
  certificates : List.Forall₂ (CarriesOver ordered) document.certificates config.certificates

/-- The events the state goes on holding to the last document under. -/
def Fresh (swept : Swept) : Event → Prop
  | .accountKey _ => ∀ captured, swept.captured = some captured →
      HoldsTo swept.ordered swept.document captured
  | .obtained id _ => ∀ captured, swept.captured = some captured → ∀ certificate,
      Tls.held captured id = some certificate →
        ∃ stored, Tls.held swept.state.config id = some stored ∧ stored.source = certificate.source
  | _ => True

/-! ## What each update does to the configuration -/

section

variable {ordered : Finset CertificateId} {document config stored : Config}

theorem CarriesOver.refl (certificate : Certificate) : CarriesOver ordered certificate certificate :=
  ⟨rfl, rfl, .inr rfl⟩

/-- What was obtained makes no difference to whether a certificate holds to a document. -/
theorem carriesOver_obtained {wanted certificate : Certificate} :
    CarriesOver ordered wanted (Tls.obtained stored certificate) ↔
      CarriesOver ordered wanted certificate := by
  constructor
  · rintro ⟨hid, hsource, hnames⟩
    rw [id_obtained] at hid
    rw [source_obtained] at hsource
    rw [sniNames_obtained] at hnames
    exact ⟨hid, hsource, hnames⟩
  · rintro ⟨hid, hsource, hnames⟩
    refine ⟨?_, ?_, ?_⟩
    · rwa [id_obtained]
    · rwa [source_obtained]
    · rwa [sniNames_obtained]

theorem holdsTo_carryObtained :
    HoldsTo ordered document (carryObtained config stored) ↔ HoldsTo ordered document config := by
  constructor
  · rintro ⟨hrest, hcertificates⟩
    refine ⟨hrest, ?_⟩
    rw [carryObtained, List.forall₂_map_right_iff] at hcertificates
    exact hcertificates.imp fun _ _ => carriesOver_obtained.mp
  · rintro ⟨hrest, hcertificates⟩
    refine ⟨hrest, ?_⟩
    rw [carryObtained, List.forall₂_map_right_iff]
    exact hcertificates.imp fun _ _ => carriesOver_obtained.mpr

theorem HoldsTo.refl (document : Config) : HoldsTo ordered document document :=
  ⟨rfl, List.forall₂_same.mpr fun certificate _ => .refl certificate⟩

theorem CarriesOver.insert {wanted certificate : Certificate}
    (h : CarriesOver ordered wanted certificate) (id : CertificateId) :
    CarriesOver (Insert.insert id ordered) wanted certificate :=
  ⟨h.id, h.source, h.names.imp_left (Finset.mem_insert_of_mem)⟩

/-- The first certificate of the name is the one that is replaced, so it has to come from the same
source. Without one the list gets longer. -/
theorem forall₂_file {wanted certificates : List Certificate}
    (h : List.Forall₂ (CarriesOver ordered) wanted certificates) (id : CertificateId)
    (source : CertificateSource) (upload : Upload) :
    List.Forall₂ (CarriesOver (insert id ordered)) wanted
        (file (record id source upload) certificates) ↔
      ∃ stored, certificates.find? (fun certificate => certificate.id = id) = some stored ∧
        stored.source = source := by
  induction h with
  | nil => simp [file]
  | @cons first certificate rest others hfirst hrest ih =>
    rw [file]
    split
    · rename_i hsame
      have hid : certificate.id = id := hsame
      have hrecord : CarriesOver (insert id ordered) first (record id source upload) ↔
          certificate.source = source := by
        constructor
        · intro hcarries
          exact hfirst.source.trans hcarries.source.symm
        · intro hsource
          refine ⟨hid.symm.trans hfirst.id, hsource.symm.trans hfirst.source, .inl ?_⟩
          rw [← hfirst.id, hid]
          exact Finset.mem_insert_self id ordered
      rw [List.forall₂_cons, hrecord, List.find?_cons_of_pos (by simpa using hid)]
      constructor
      · rintro ⟨hsource, -⟩
        exact ⟨certificate, rfl, hsource⟩
      · rintro ⟨stored, hstored, hsource⟩
        obtain rfl := Option.some.inj hstored
        exact ⟨hsource, hrest.imp fun _ _ hcarries => hcarries.insert id⟩
    · rename_i hother
      have hid : certificate.id ≠ id := hother
      rw [List.forall₂_cons, ih, List.find?_cons_of_neg (by simpa using hid)]
      exact and_iff_right (hfirst.insert id)

end

/-! ## Runs -/

section

variable {lib : Library}

/-- The records of an order are no part of the configuration. -/
theorem config_written {state : Snapshot} {writer : Writer}
    (h : ∀ after, Edits lib writer state after → after.config = state.config) :
    (written lib state writer).config = state.config := by
  obtain ⟨after, hafter, hsame | hupdates⟩ := @update_some lib state (.write writer)
  · rw [written, hafter, hsame]
    rfl
  · rw [written, hafter]
    cases hupdates with
    | write hedits => exact h after hedits

/-- Whether the state holds to the last document. -/
def Swept.Holds (swept : Swept) : Prop := HoldsTo swept.ordered swept.document swept.state.config

/-- A step keeps to the last document exactly if it is fresh. -/
theorem holds_step_iff {swept : Swept} (h : swept.Holds) (event : Event) :
    (swept.step lib event).Holds ↔ Fresh swept event := by
  cases event with
  | apply document => exact iff_of_true (holdsTo_carryObtained.mpr (.refl document)) trivial
  | beginSweep => exact iff_of_true h trivial
  | accountKey pem =>
    rw [Swept.step, Fresh]
    cases hcaptured : swept.captured with
    | none => exact iff_of_true h fun captured hnone => by cases hnone
    | some captured =>
      refine holdsTo_carryObtained.trans ⟨fun hholds other hother => ?_, fun hall => hall captured rfl⟩
      exact Option.some.inj hother ▸ hholds
  | openOrder id names challenge driver now key =>
    refine iff_of_true ?_ trivial
    rw [Swept.step, Swept.Holds, config_written fun after hedits => by cases hedits; rfl]
    exact h
  | fileReached id reached driver =>
    refine iff_of_true ?_ trivial
    rw [Swept.step, Swept.Holds, config_written fun after hedits => by cases hedits; rfl]
    exact h
  | closeOrder id =>
    refine iff_of_true ?_ trivial
    rw [Swept.step, Swept.Holds, config_written fun after hedits => by cases hedits; rfl]
    exact h
  | obtained id upload =>
    rw [Swept.step, Fresh]
    cases hcaptured : swept.captured with
    | none => exact iff_of_true h fun captured hnone => by cases hnone
    | some captured =>
      dsimp only
      cases hheld : held captured id with
      | none =>
        refine iff_of_true h fun other hother certificate hcertificate => ?_
        rw [← Option.some.inj hother, hheld] at hcertificate
        cases hcertificate
      | some certificate =>
        have hfiled := forall₂_file h.certificates id certificate.source upload
        constructor
        · intro hholds other hother found hfound
          rw [← Option.some.inj hother, hheld] at hfound
          exact Option.some.inj hfound ▸ hfiled.mp hholds.certificates
        · intro hall
          exact ⟨h.rest, hfiled.mpr (hall captured rfl certificate hheld)⟩

end

/-- From a state that holds to a document on, the state holds to the document that was applied last at
every moment of a run exactly if the sweep's configuration is still that document, up to what was
obtained, whenever it is written back, and every certificate that is filed is still in the configuration
from the source the sweep knows. -/
theorem stored_iff_fresh {lib : Library} {start : Swept} (hstart : start.Holds) (events : List Event) :
    (∀ first, first <+: events → (Runs.run (Swept.step lib) start first).Holds) ↔
      Runs.Along (Swept.step lib) Fresh start events :=
  @Runs.along_iff _ _ (Swept.step lib) Fresh Swept.Holds Swept.Holds (fun _ h => h)
    (fun _ event h => (holds_step_iff h event).mpr)
    (fun _ event h hstale hholds => hstale ((holds_step_iff h event).mp hholds)) start hstart events

/-- A state a document with one certificate was applied to. -/
def appliedOnce : Swept := ⟨.new oneCertificate, oneCertificate, none, ∅⟩

/-- An order beside an operator who does nothing. -/
def alone : List Event :=
  [.beginSweep, .accountKey ⟨[1]⟩, .openOrder ⟨"cert"⟩ ["a.example"] .http01 none 10 ⟨[2]⟩,
    .obtained ⟨"cert"⟩ ⟨["a.example", "b.example"], ⟨0, 90⟩, ⟨[3]⟩, ⟨[2]⟩⟩]

theorem holds_alone : (Runs.run (Swept.step Raft.signing) appliedOnce alone).Holds := by
  have hstart : appliedOnce.Holds := .refl oneCertificate
  have halong : Runs.Along (Swept.step Raft.signing) Fresh appliedOnce alone := by
    refine ⟨trivial, ?_, trivial, ?_, trivial⟩
    · rintro captured ⟨⟩
      exact .refl oneCertificate
    · rintro captured ⟨⟩ certificate ⟨⟩
      exact ⟨_, rfl, rfl⟩
  exact (stored_iff_fresh hstart alone).mpr halong alone (List.prefix_refl alone)

/-- The operator drops the certificate before the sweep keeps the account key. -/
def keptLate : List Event := [.beginSweep, .apply Config.empty, .accountKey ⟨[1]⟩]

/-- The operator drops the certificate before the sweep files it. -/
def filedLate : List Event :=
  [.beginSweep, .accountKey ⟨[1]⟩, .openOrder ⟨"cert"⟩ ["a.example"] .http01 none 10 ⟨[2]⟩,
    .apply Config.empty, .obtained ⟨"cert"⟩ ⟨["a.example"], ⟨0, 90⟩, ⟨[3]⟩, ⟨[2]⟩⟩]

theorem dropped_comes_back :
    ((Runs.run (Swept.step Raft.signing) appliedOnce keptLate).document = Config.empty ∧
      ∃ certificate ∈ (Runs.run (Swept.step Raft.signing) appliedOnce keptLate).state.config.certificates,
        certificate.id = ⟨"cert"⟩) ∧
    (Runs.run (Swept.step Raft.signing) appliedOnce filedLate).document = Config.empty ∧
      ∃ certificate ∈ (Runs.run (Swept.step Raft.signing) appliedOnce filedLate).state.config.certificates,
        certificate.id = ⟨"cert"⟩ :=
  ⟨⟨rfl, _, List.mem_cons_self, rfl⟩, ⟨rfl, _, List.mem_cons_self, rfl⟩⟩

end EkEk.Program
