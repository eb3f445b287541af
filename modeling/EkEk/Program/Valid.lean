import EkEk.Config.Accepted
import EkEk.Program.Writers
import EkEk.Raft.Cluster

/-!
# Writers and the validation

Reference: `crates/ek-ek-config/src/validation.rs`, `crates/ek-ek-raft/src/join.rs`,
`crates/ek-ek-tls/src/record.rs`, and `crates/ek-ek/src/cluster.rs`.

A document is checked before it is stored, says the validation, because an invalid one that reaches the
data plane cuts traffic. No writer of the cluster runs it. Each edits one part of the configuration that
is there, and the rest of it may refer to that part.

`validate_iff_keeps` says which edits an accepted configuration stays accepted under. Admissions and the
records of running orders never matter. A removal does when a virtual address prefers the node, an
installed certificate when its provider is gone, and a document when it was not accepted itself.
-/

namespace EkEk.Program

open Store Raft Validation ReadModifyWrite
open Peer (Library)

/-- The writes an accepted configuration stays accepted under. -/
def KeepsAccepted (config : Config) : Writer → Prop
  | .remove node _ _ => ∀ vip ∈ config.vips, vip.preferredNode ≠ some node
  | .applyOnce document => validate document = .ok ()
  | .accountKey captured _ => validate captured = .ok ()
  | .obtained _ _ source _ => ∀ provider, source = .acmeDns01 provider →
      ∃ held ∈ config.dnsProviders, held.id = provider
  | _ => True

/-! ## What each edit does to an accepted configuration -/

section

variable {config : Config}

/-- A joining node gets a row of its own. -/
theorem accepted_withRow (h : Accepted config) (node : NodeId) (address : IpAddr) :
    Accepted { config with nodes := withRow config.nodes node address } := by
  have hids := (checkDuplicateIds_eq_nil.mp h.duplicateIds).nodes
  have hpreferred := (checkVips_eq_nil.mp h.vips).2
  refine h.with_nodes.mpr ⟨?_, ?_⟩
  · rw [withRow]
    split
    · exact hids
    · rename_i hnew
      rw [List.map_append, List.nodup_append]
      refine ⟨hids, List.nodup_singleton _, ?_⟩
      rintro _ hold _ hrow rfl
      obtain ⟨row, hmem, heq⟩ := List.mem_map.mp hold
      rw [List.map_cons, List.map_nil, List.mem_singleton] at hrow
      exact hnew ⟨row, hmem, congrArg NodeId.mk (heq.trans hrow)⟩
  · intro vip hvip preferred hprefers
    exact (names_withRow node address).mpr (.inr (hpreferred vip hvip preferred hprefers))

/-- Without a node, the configuration is accepted unless a virtual address asks for it. -/
theorem accepted_putOut {state : Snapshot} (h : Accepted state.config) (node : NodeId) :
    Accepted (putOut state node).config ↔
      ∀ vip ∈ state.config.vips, vip.preferredNode ≠ some node := by
  have hids := (checkDuplicateIds_eq_nil.mp h.duplicateIds).nodes
  have hpreferred := (checkVips_eq_nil.mp h.vips).2
  rw [putOut, h.with_nodes]
  constructor
  · rintro ⟨-, hknown⟩ vip hvip hprefers
    exact ((names_putOut state node).mp (hknown vip hvip node hprefers)).1 rfl
  · intro hnone
    refine ⟨hids.sublist (List.filter_sublist.map _), fun vip hvip preferred hprefers => ?_⟩
    refine (names_putOut state node).mpr ⟨?_, hpreferred vip hvip preferred hprefers⟩
    rintro rfl
    exact hnone vip hvip hprefers

/-- What was obtained makes no difference to a document. -/
theorem accepted_carryObtained (document stored : Config) :
    Accepted (Tls.carryObtained document stored) ↔ Accepted document := by
  have hids : ((document.certificates.map (Tls.obtained stored)).map
      fun certificate => certificate.id.asStr) =
      document.certificates.map fun certificate => certificate.id.asStr := by
    rw [List.map_map]
    exact List.map_congr_left fun certificate _ => by simp
  constructor
  · intro h
    refine (@Accepted.with_certificates _ h document.certificates fun old hold => ?_).mpr ⟨?_, ?_⟩
    · obtain ⟨certificate, hmem, rfl⟩ := List.mem_map.mp hold
      exact ⟨certificate, hmem, (Tls.id_obtained certificate).symm⟩
    · rw [← hids]
      exact (checkDuplicateIds_eq_nil.mp h.duplicateIds).certificates
    · intro certificate hmem provider hsource
      refine checkCertificates_eq_nil.mp h.certificates _ (List.mem_map_of_mem hmem) provider ?_
      rw [Tls.source_obtained, hsource]
  · intro h
    refine (h.with_certificates fun old hold => ?_).mpr ⟨?_, ?_⟩
    · exact ⟨_, List.mem_map_of_mem hold, Tls.id_obtained old⟩
    · rw [hids]
      exact (checkDuplicateIds_eq_nil.mp h.duplicateIds).certificates
    · intro certificate hmem provider hsource
      obtain ⟨written, hwritten, rfl⟩ := List.mem_map.mp hmem
      rw [Tls.source_obtained] at hsource
      exact checkCertificates_eq_nil.mp h.certificates written hwritten provider hsource

/-- An installed certificate is accepted if its provider is defined. -/
theorem accepted_install {state : Snapshot} (h : Accepted state.config) (id : CertificateId)
    (source : CertificateSource) (upload : Tls.Upload) :
    Accepted (Tls.install state id source upload).config ↔
      ∀ provider, source = .acmeDns01 provider →
        ∃ held ∈ state.config.dnsProviders, held.id = provider := by
  have hids := (checkDuplicateIds_eq_nil.mp h.duplicateIds).certificates
  set record := Tls.record id source upload with hrecord
  have hnames := Tls.map_id_file (fun name => name) record state.config.certificates
  have hfiled : record ∈ Tls.file record state.config.certificates :=
    List.mem_of_find?_eq_some (Tls.find_file_self record state.config.certificates)
  have hheld : ∀ old ∈ state.config.certificates,
      ∃ new ∈ Tls.file record state.config.certificates, new.id = old.id := by
    intro old hold
    refine List.mem_map.mp ?_
    rw [hnames]
    exact List.mem_append_left _ (List.mem_map_of_mem hold)
  rw [Tls.install, h.with_certificates hheld]
  constructor
  · rintro ⟨-, hproviders⟩ provider hsource
    exact hproviders record hfiled provider hsource
  · intro hprovider
    refine ⟨?_, fun certificate hmem provider hsource => ?_⟩
    · rw [Tls.map_id_file CertificateId.asStr, List.nodup_append]
      refine ⟨hids, by split <;> simp, ?_⟩
      rintro _ hold _ hnew rfl
      split at hnew
      · cases hnew
      · rename_i hnone
        obtain ⟨old, hmem, heq⟩ := List.mem_map.mp hold
        rw [List.mem_singleton] at hnew
        exact hnone ⟨old, hmem, congrArg CertificateId.mk (heq.trans hnew)⟩
    · rcases Tls.mem_of_mem_file hmem with rfl | hmem
      · exact hprovider provider hsource
      · exact checkCertificates_eq_nil.mp h.certificates certificate hmem provider hsource

end

/-- A writer leaves an accepted configuration accepted exactly if nothing refers to what it takes out,
what it puts in refers to nothing missing, and the document it replaces everything with was accepted. -/
theorem validate_iff_keeps {lib : Library} {writer : Writer} {state next : Snapshot}
    (haccepted : validate state.config = .ok ())
    (hplan : (writers lib).plan writer (some state) = some (some (some next), ())) :
    validate next.config = .ok () ↔ KeepsAccepted state.config writer := by
  rw [validate_eq_ok] at haccepted ⊢
  obtain ⟨before, after, hnext, hedits, hbefore⟩ := edits_of_plan hplan
  obtain rfl := Option.some.inj hnext
  obtain rfl := hbefore state rfl
  cases hedits with
  | mint => exact iff_of_true haccepted trivial
  | admitNode hjudged hfirst => exact iff_of_true (accepted_withRow haccepted _ _) trivial
  | remove => exact accepted_putOut haccepted _
  | applyOnce => exact (accepted_carryObtained _ _).trans validate_eq_ok.symm
  | accountKey => exact (accepted_carryObtained _ _).trans validate_eq_ok.symm
  | openOrder => exact iff_of_true haccepted trivial
  | fileReached hrecord => exact iff_of_true haccepted trivial
  | closeOrder => exact iff_of_true haccepted trivial
  | obtained => exact accepted_install haccepted _ _ _

/-- Two nodes, and a virtual address that prefers the first. -/
def preferringFirst : Config :=
  { documentOf [row nodeA 1, row nodeB 2] with
    vips := [⟨⟨"vip"⟩, .v4 ⟨10, 0, 0, 100⟩, 24, "eth0", some nodeA⟩] }

/-- The other node may go. -/
theorem second_node_removed : ∃ next,
    (writers signing).plan (.remove nodeB "operator" 10) (some (.new preferringFirst)) =
      some (some (some next), ()) ∧ validate next.config = .ok () := by
  have hplan : (writers signing).plan (.remove nodeB "operator" 10) (some (.new preferringFirst)) =
      some (some (some (putOut (.new preferringFirst) nodeB)), ()) := by decide +kernel
  exact ⟨_, hplan, (validate_iff_keeps (by decide +kernel) hplan).mpr
    (by simp [KeepsAccepted, preferringFirst, Snapshot.new, nodeA, nodeB])⟩

/-- The same with a certificate that is ordered through a provider. -/
def orderingThrough : Config :=
  { preferringFirst with
    certificates := [⟨⟨"cert"⟩, ["a.example"], .acmeDns01 ⟨"provider"⟩, none, none, none⟩]
    dnsProviders := [⟨⟨"provider"⟩, .cloudflare "zone" ⟨"token"⟩ "", 120⟩] }

/-- The node the virtual address prefers goes just as well, a certificate is installed whose provider
was dropped while the order ran, and a document is applied that refers to a node it does not name. -/
theorem unchecked_writers : validate preferringFirst = .ok () ∧
    (∃ next, (writers signing).plan (.remove nodeA "operator" 10) (some (.new preferringFirst)) =
      some (some (some next), ()) ∧ validate next.config ≠ .ok ()) ∧
    (∃ next, (writers signing).plan
      (.obtained orderingThrough ⟨"cert"⟩ (.acmeDns01 ⟨"provider"⟩) ⟨["a.example"], ⟨0, 90⟩, ⟨[]⟩, ⟨[]⟩⟩)
        (some (.new preferringFirst)) = some (some (some next), ()) ∧ validate next.config ≠ .ok ()) ∧
    ∃ next, (writers signing).plan (.applyOnce { preferringFirst with nodes := [] })
      (some (.new preferringFirst)) = some (some (some next), ()) ∧ validate next.config ≠ .ok () := by
  refine ⟨by decide +kernel, ⟨putOut (.new preferringFirst) nodeA, by decide +kernel, by decide +kernel⟩,
    ⟨_, rfl, by decide +kernel⟩, ⟨_, rfl, by decide +kernel⟩⟩

end EkEk.Program
