import EkEk.Config.Validation
import EkEk.Peer.Authority
import EkEk.Program.Edits

/-!
# Whose key material an edit touches

Reference: `crates/ek-ek-tls/src/record.rs`, `crates/ek-ek-peer/src/record.rs`,
`crates/ek-ek-config/src/acme.rs` and `crates/ek-ek/src/acme.rs`.

What a certificate owns is filed under its name with a suffix, and the cluster keeps two keys of its
own among the same secrets. A document may call a certificate anything, so the names can meet: the
keys of the authority and of the ACME account are where certificates called `cluster-ca` and
`acme.account` would keep theirs. `apart_iff` says that these two names are the only ones, and that
the orders of a certificate never touch anything but the certificate's own.
-/

namespace EkEk.Program

open Store Tls

/-- What is done with a certificate. -/
inductive Handling where
  | install (source : CertificateSource) (upload : Upload)
  | remove
  | openOrder (names : List String) (challenge : OrderChallenge) (driver : Option NodeId) (now : ℤ)
      (key : Secret)
  | closeOrder

/-- The state an edit leaves. An order that runs is not opened again, and one that does not run has
nothing to close. -/
def handle (state : Snapshot) (id : CertificateId) : Handling → Except Failure Snapshot
  | .install source upload => .ok (install state id source upload)
  | .remove => .ok (remove state id)
  | .openOrder names challenge driver now key =>
    if (state.orders.lookup id).isSome then .ok state
    else openOrder (some state) id names challenge driver now key
  | .closeOrder =>
    if (state.orders.lookup id).isNone then .ok state else closeOrder (some state) id

/-- Everything a certificate's material may be filed under. -/
def material (id : CertificateId) : List SecretId := [chainId id, keyId id, orderKeyId id]

/-- The cluster's own keys, and what belongs to other certificates, are as they were. -/
structure Apart (id : CertificateId) (before after : Snapshot) : Prop where
  authority : after.secrets.lookup Peer.authorityKeyId = before.secrets.lookup Peer.authorityKeyId
  account : after.secrets.lookup accountKeySecret = before.secrets.lookup accountKeySecret
  others : ∀ other, other ≠ id → ∀ secret ∈ material other,
    after.secrets.lookup secret = before.secrets.lookup secret

/-- Whether an edit files material under the serving names, and not under that of an order. -/
def Handling.serves : Handling → Prop
  | .install .. => True
  | .remove => True
  | .openOrder .. => False
  | .closeOrder => False

section

variable {state after : Snapshot} {id other : CertificateId} {handling : Handling} {secret : SecretId}

/-- An edit leaves every secret alone that is not its certificate's, and an edit of an order leaves
the serving material alone too. -/
theorem lookup_handle (h : handle state id handling = .ok after)
    (horder : secret ≠ orderKeyId id)
    (hserves : handling.serves → secret ≠ chainId id ∧ secret ≠ keyId id) :
    after.secrets.lookup secret = state.secrets.lookup secret := by
  cases handling with
  | install source upload =>
    obtain ⟨hchain, hkey⟩ := hserves trivial
    obtain rfl := Except.ok.inj h
    rw [install, Finmap.lookup_insert_of_ne _ hkey, Finmap.lookup_insert_of_ne _ hchain]
  | remove =>
    obtain ⟨hchain, hkey⟩ := hserves trivial
    obtain rfl := Except.ok.inj h
    rw [remove, Finmap.lookup_erase_ne hkey, Finmap.lookup_erase_ne hchain]
  | openOrder names challenge driver now key =>
    rw [handle] at h
    split at h
    · rw [← Except.ok.inj h]
    · obtain rfl := Except.ok.inj h
      exact Finmap.lookup_insert_of_ne _ horder
  | closeOrder =>
    rw [handle] at h
    split at h
    · rw [← Except.ok.inj h]
    · obtain rfl := Except.ok.inj h
      exact Finmap.lookup_erase_ne horder

/-- No two certificates share a name for their material. -/
theorem ne_of_mem_material (hne : other ≠ id) (h : secret ∈ material other) :
    secret ≠ orderKeyId id ∧ secret ≠ chainId id ∧ secret ≠ keyId id := by
  simp only [material, List.mem_cons, List.not_mem_nil, or_false] at h
  rcases h with rfl | rfl | rfl
  · exact ⟨chainId_ne_orderKeyId, chainId_injective.ne hne, chainId_ne_keyId⟩
  · exact ⟨keyId_ne_orderKeyId, chainId_ne_keyId.symm, keyId_injective.ne hne⟩
  · exact ⟨orderKeyId_injective.ne hne, chainId_ne_orderKeyId.symm, keyId_ne_orderKeyId.symm⟩

/-- The authority's key has the name a certificate called `cluster-ca` would keep its key under. -/
theorem authorityKeyId_eq : Peer.authorityKeyId = keyId ⟨"cluster-ca"⟩ := by decide

/-- A key that has the name of a certificate's key is that certificate's and nobody else's. -/
theorem lookup_handle_keyId (h : handle state id handling = .ok after)
    (hname : handling.serves → id ≠ other) :
    after.secrets.lookup (keyId other) = state.secrets.lookup (keyId other) :=
  lookup_handle h keyId_ne_orderKeyId fun hserves =>
    ⟨chainId_ne_keyId.symm, keyId_injective.ne (hname hserves).symm⟩

/-- A document that carries one certificate of a name. -/
def carrying (id : CertificateId) : Config :=
  { Config.empty with certificates := [⟨id, [], .manualUpload, none, none, none⟩] }

/-- Where an edit files material under the serving names, there is a state with an accepted document
that carries the certificate in which the certificate's key is not what it was. -/
theorem exists_touched (id : CertificateId) (hserves : handling.serves) : ∃ state after : Snapshot,
    state.config = carrying id ∧ handle state id handling = .ok after ∧
      after.secrets.lookup (keyId id) ≠ state.secrets.lookup (keyId id) := by
  cases handling with
  | install source upload =>
    refine ⟨.new (carrying id), _, rfl, rfl, ?_⟩
    rw [install, Finmap.lookup_insert]
    exact Option.some_ne_none _
  | remove =>
    refine ⟨(Snapshot.new (carrying id)).withSecret (keyId id) ⟨[]⟩, _, rfl, rfl, ?_⟩
    rw [remove, Finmap.lookup_erase, Snapshot.withSecret, Finmap.lookup_insert]
    exact (Option.some_ne_none _).symm
  | openOrder names challenge driver now key => exact hserves.elim
  | closeOrder => exact hserves.elim

end

/-- Handling a certificate an accepted document carries leaves the authority's key, the account key
and what belongs to other certificates alone, exactly if the edit is one of an order or the
certificate is neither called `cluster-ca` nor `acme.account`. -/
theorem apart_iff (id : CertificateId) (handling : Handling) :
    (∀ state after : Snapshot, Validation.validate state.config = .ok () →
      (∃ certificate ∈ state.config.certificates, certificate.id = id) →
      handle state id handling = .ok after → Apart id state after) ↔
    (handling.serves → id ≠ ⟨"cluster-ca"⟩ ∧ id ≠ ⟨"acme.account"⟩) := by
  constructor
  · intro h hserves
    obtain ⟨state, after, hconfig, hhandle, htouched⟩ := exists_touched id hserves
    have hvalid : Validation.validate state.config = .ok () := by
      rw [hconfig]
      exact Validation.validate_uploaded _ rfl
    have hcarried : ∃ certificate ∈ state.config.certificates, certificate.id = id := by
      rw [hconfig]
      exact ⟨_, List.mem_singleton_self _, rfl⟩
    have hapart := h state after hvalid hcarried hhandle
    constructor
    · rintro rfl
      exact htouched (authorityKeyId_eq ▸ hapart.authority)
    · rintro rfl
      exact htouched (accountKeySecret_eq ▸ hapart.account)
  · intro h state after _ _ hhandle
    refine ⟨?_, ?_, fun other hother secret hsecret => ?_⟩
    · rw [authorityKeyId_eq]
      exact lookup_handle_keyId hhandle fun hserves => (h hserves).1
    · rw [accountKeySecret_eq]
      exact lookup_handle_keyId hhandle fun hserves => (h hserves).2
    · obtain ⟨horder, hserving⟩ := ne_of_mem_material hother hsecret
      exact lookup_handle hhandle horder fun _ => hserving

/-- A document that is accepted carries a certificate called `cluster-ca`. Taking it out takes the
key of the cluster's authority with it. -/
theorem authority_key_removed : ∃ state after : Snapshot,
    Validation.validate state.config = .ok () ∧
      (∃ certificate ∈ state.config.certificates, certificate.id = ⟨"cluster-ca"⟩) ∧
      handle state ⟨"cluster-ca"⟩ .remove = .ok after ∧
      (state.secrets.lookup Peer.authorityKeyId).isSome ∧
      after.secrets.lookup Peer.authorityKeyId = none := by
  refine ⟨(Snapshot.new (carrying ⟨"cluster-ca"⟩)).withSecret Peer.authorityKeyId ⟨[]⟩, _,
    Validation.validate_uploaded _ rfl, ⟨_, List.mem_singleton_self _, rfl⟩, rfl, ?_, ?_⟩
  · rw [Snapshot.withSecret, Finmap.lookup_insert]
    rfl
  · rw [authorityKeyId_eq, remove, Finmap.lookup_erase]

end EkEk.Program
