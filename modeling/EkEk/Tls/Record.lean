import EkEk.Store.Snapshot

/-!
# Certificates in a state

Reference: `crates/ek-ek-tls/src/record.rs`.

An obtained certificate is a record in the configuration and two pieces of key material beside it,
filed under names derived from the certificate's own. `install` puts all three into a state, `remove`
takes them out again, and `carryObtained` keeps them when the document is replaced.
-/

namespace EkEk.Tls

open Store

/-- The identity the chain of a certificate is stored under. -/
def chainId (certificate : CertificateId) : SecretId := ⟨certificate.asStr ++ ".chain"⟩

/-- The identity the private key of a certificate is stored under. -/
def keyId (certificate : CertificateId) : SecretId := ⟨certificate.asStr ++ ".key"⟩

/-- The identity the signing key of a running order is stored under. -/
def orderKeyId (certificate : CertificateId) : SecretId := ⟨certificate.asStr ++ ".order-key"⟩

/-- Certificate material that was inspected. The warnings the inspection leaves are not kept. -/
structure Upload where
  sniNames : List String
  validity : CertificateValidity
  chain : Secret
  key : Secret
deriving DecidableEq, Repr

/-- The record a certificate is filed as once it was obtained. -/
def record (id : CertificateId) (source : CertificateSource) (upload : Upload) : Certificate where
  id := id
  sniNames := upload.sniNames
  source := source
  validity := some upload.validity
  chain := some (chainId id)
  privateKey := some (keyId id)

/-- Replace the first record of the same name, or add one. -/
def file (record : Certificate) : List Certificate → List Certificate
  | [] => [record]
  | held :: rest => if held.id = record.id then record :: rest else held :: file record rest

/-- Put an upload into a state, replacing any certificate of the same name. -/
def install (state : Snapshot) (id : CertificateId) (source : CertificateSource)
    (upload : Upload) : Snapshot :=
  { state with
    config := { state.config with
      certificates := file (record id source upload) state.config.certificates }
    secrets := (state.secrets.insert (chainId id) upload.chain).insert (keyId id) upload.key }

/-- Take a certificate and its material out of a state. -/
def remove (state : Snapshot) (id : CertificateId) : Snapshot :=
  { state with
    config := { state.config with
      certificates := state.config.certificates.filter fun held => held.id ≠ id }
    secrets := (state.secrets.erase (chainId id)).erase (keyId id) }

/-- The certificate of a name, the first one where there are several. -/
def held (config : Config) (id : CertificateId) : Option Certificate :=
  config.certificates.find? fun certificate => certificate.id = id

/-- A certificate of a document with what the store has obtained for it. -/
def obtained (stored : Config) (certificate : Certificate) : Certificate :=
  match held stored certificate.id with
  | some kept => { certificate with
      validity := kept.validity, chain := kept.chain, privateKey := kept.privateKey }
  | none => certificate

/-- A document with what has already been obtained carried into it. -/
def carryObtained (document stored : Config) : Config :=
  { document with certificates := document.certificates.map (obtained stored) }

/-! ## Finding a certificate again -/

section

variable {id : CertificateId} {document stored : Config}

theorem find_file_self (record : Certificate) (certificates : List Certificate) :
    (file record certificates).find? (fun certificate => certificate.id = record.id) =
      some record := by
  induction certificates with
  | nil => simp [file]
  | cons first rest ih =>
    rw [file]
    split
    · simp
    · rename_i hother
      simp [hother, ih]

theorem find_file_of_ne {record : Certificate} (h : record.id ≠ id)
    (certificates : List Certificate) :
    (file record certificates).find? (fun certificate => certificate.id = id) =
      certificates.find? fun certificate => certificate.id = id := by
  induction certificates with
  | nil => simp [file, h]
  | cons first rest ih =>
    rw [file]
    split
    · rename_i hsame
      simp [h, hsame]
    · simp [List.find?_cons, ih]

/-- Filing adds no certificate but its own. -/
theorem mem_of_mem_file {record certificate : Certificate} {certificates : List Certificate}
    (h : certificate ∈ file record certificates) : certificate = record ∨ certificate ∈ certificates := by
  induction certificates with
  | nil => exact .inl (List.mem_singleton.mp h)
  | cons first rest ih =>
    rw [file] at h
    split at h
    · rcases List.mem_cons.mp h with rfl | h
      · exact .inl rfl
      · exact .inr (List.mem_cons_of_mem first h)
    · rcases List.mem_cons.mp h with rfl | h
      · exact .inr List.mem_cons_self
      · exact (ih h).imp_right (List.mem_cons_of_mem first)

/-- The names of certificates change by filing one only if there was none of its name. -/
theorem map_id_file {α : Type} (f : CertificateId → α) (record : Certificate)
    (certificates : List Certificate) :
    (file record certificates).map (fun certificate => f certificate.id) =
      certificates.map (fun certificate => f certificate.id) ++
        if ∃ held ∈ certificates, held.id = record.id then [] else [f record.id] := by
  induction certificates with
  | nil => simp [file]
  | cons first rest ih =>
    rw [file]
    split
    · rename_i hsame
      simp [hsame]
    · rename_i hother
      simp [hother, ih]

theorem id_of_held {config : Config} {certificate : Certificate}
    (h : held config id = some certificate) : certificate.id = id := by
  rw [held] at h
  simpa using List.find?_some h

@[simp] theorem id_obtained (certificate : Certificate) :
    (obtained stored certificate).id = certificate.id := by
  rw [obtained]
  split <;> rfl

/-- The document says what a certificate is for. -/
theorem sniNames_obtained (certificate : Certificate) :
    (obtained stored certificate).sniNames = certificate.sniNames := by
  rw [obtained]
  split <;> rfl

theorem source_obtained (certificate : Certificate) :
    (obtained stored certificate).source = certificate.source := by
  rw [obtained]
  split <;> rfl

/-- The document's certificates are found with what was obtained for them. -/
theorem held_carryObtained :
    held (carryObtained document stored) id = (held document id).map (obtained stored) := by
  simp only [held, carryObtained, List.find?_map, Function.comp_def, id_obtained]

/-- A state finds a certificate it has installed, and finds every other one as before. -/
theorem held_install_self (state : Snapshot) (source : CertificateSource) (upload : Upload) :
    held (install state id source upload).config id = some (record id source upload) :=
  find_file_self (record id source upload) state.config.certificates

theorem held_install_of_ne {installed : CertificateId} (h : installed ≠ id) (state : Snapshot)
    (source : CertificateSource) (upload : Upload) :
    held (install state installed source upload).config id = held state.config id :=
  find_file_of_ne h state.config.certificates

/-- A certificate that is not removed is found as before. -/
theorem held_remove_of_ne {removed : CertificateId} (h : id ≠ removed) (state : Snapshot) :
    held (remove state removed).config id = held state.config id := by
  simp only [held, remove, List.find?_filter]
  congr 1
  funext certificate
  by_cases hid : certificate.id = id
  · simp [hid, h]
  · simp [hid]

end

/-! ## The names of key material -/

section

variable {id other : CertificateId}

/-- Names with different last four characters are different. -/
theorem filed_ne {s t : String} (hs : 4 ≤ s.toList.length) (ht : 4 ≤ t.toList.length)
    (h : s.toList.reverse.take 4 ≠ t.toList.reverse.take 4) :
    (⟨id.asStr ++ s⟩ : SecretId) ≠ ⟨other.asStr ++ t⟩ := by
  intro heq
  have hlast := congrArg (fun name : SecretId => name.asStr.toList.reverse.take 4) heq
  simp only [String.toList_append, List.reverse_append] at hlast
  rw [List.take_append_of_le_length (by rwa [List.length_reverse]),
    List.take_append_of_le_length (by rwa [List.length_reverse])] at hlast
  exact h hlast

/-- Under one suffix, different certificates have different names. -/
theorem filed_inj {s : String} :
    (⟨id.asStr ++ s⟩ : SecretId) = ⟨other.asStr ++ s⟩ ↔ id = other := by
  refine ⟨fun h => ?_, fun h => h ▸ rfl⟩
  have hlist := congrArg (fun name : SecretId => name.asStr.toList) h
  simp only [String.toList_append] at hlist
  have htext := String.toList_inj.mp (List.append_cancel_right hlist)
  exact congrArg CertificateId.mk htext

theorem chainId_ne_keyId : chainId id ≠ keyId other :=
  filed_ne (by decide) (by decide) (by decide)

theorem chainId_ne_orderKeyId : chainId id ≠ orderKeyId other :=
  filed_ne (by decide) (by decide) (by decide)

theorem keyId_ne_orderKeyId : keyId id ≠ orderKeyId other :=
  filed_ne (by decide) (by decide) (by decide)

theorem chainId_injective : Function.Injective chainId := fun _ _ => filed_inj.mp

theorem keyId_injective : Function.Injective keyId := fun _ _ => filed_inj.mp

theorem orderKeyId_injective : Function.Injective orderKeyId := fun _ _ => filed_inj.mp

/-- The account key has the name a certificate called `acme.account` would keep its key under. -/
theorem accountKeySecret_eq : accountKeySecret = keyId ⟨"acme.account"⟩ := by decide

end

end EkEk.Tls
