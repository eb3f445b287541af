import EkEk.Config.Accepted
import EkEk.Dataplane.Sticky

/-!
# Which cookie names which member

Reference: `Signer::token` and `Signer::member_for` of `crates/ek-ek-dataplane/src/sticky.rs`.

The digest of a cookie is taken over the pool and the member with a byte between them. Which strings an
identity may be is left to the validation of a document, and that looks for duplicates alone, so the byte
may be part of an identity as well. `told_apart_iff` says which two members are then told apart.
-/

namespace EkEk.Dataplane.Sticky

open Validation

/-! ## Joining with a separator -/

/-- Joined lists are equal if their parts are, or if one separator stands inside a part of the other. -/
theorem append_separator_eq_iff {α : Type} {separator : α} {a b c d : List α} :
    a ++ separator :: b = c ++ separator :: d ↔ (a = c ∧ b = d) ∨
      (∃ between, c = a ++ separator :: between ∧ b = between ++ separator :: d) ∨
        ∃ between, a = c ++ separator :: between ∧ d = between ++ separator :: b := by
  constructor
  · intro h
    rcases List.append_eq_append_iff.mp h with ⟨front, rfl, hfront⟩ | ⟨front, rfl, hfront⟩
    · cases front with
      | nil => exact .inl ⟨(List.append_nil a).symm, (List.cons.inj hfront).2⟩
      | cons first between =>
        obtain ⟨rfl, rfl⟩ := List.cons.inj hfront
        exact .inr (.inl ⟨between, rfl, rfl⟩)
    · cases front with
      | nil => exact .inl ⟨List.append_nil c, (List.cons.inj hfront).2.symm⟩
      | cons first between =>
        obtain ⟨rfl, rfl⟩ := List.cons.inj hfront
        exact .inr (.inr ⟨between, rfl, rfl⟩)
  · rintro (⟨rfl, rfl⟩ | ⟨between, rfl, rfl⟩ | ⟨between, rfl, rfl⟩)
    · rfl
    · rw [List.append_assoc]
      rfl
    · rw [List.append_assoc]
      rfl

/-! ## Digests -/

theorem hexDigit_injective : Function.Injective Text.hexDigit := by decide

theorem hexByte_injective : Function.Injective Text.hexByte := by
  intro first second h
  obtain ⟨hhigh, hlow⟩ := List.cons.inj h
  have hdiv := Fin.mk.inj (hexDigit_injective hhigh)
  have hmod := Fin.mk.inj (hexDigit_injective (List.cons.inj hlow).1)
  apply UInt8.toNat_inj.mp
  omega

/-- Bytes that are printed in hex can be read back. -/
theorem hex_injective : Function.Injective Text.hex := by
  intro first second h
  have hchars : first.flatMap Text.hexByte = second.flatMap Text.hexByte := String.ofList_injective h
  clear h
  induction first generalizing second with
  | nil =>
    cases second with
    | nil => rfl
    | cons byte second => nomatch hchars
  | cons byte first ih =>
    cases second with
    | nil => nomatch hchars
    | cons byte' second =>
      obtain ⟨hbyte, hrest⟩ := List.append_inj hchars rfl
      rw [hexByte_injective hbyte, ih hrest]

variable (hmac : Hmac) {signer : Signer} {pool pool' : BackendId} {member member' : MemberId}

/-- What the digest is taken over. -/
def message (pool : BackendId) (member : MemberId) : List UInt8 :=
  Text.bytes pool.asStr ++ 0 :: Text.bytes member.asStr

/-- The part of the digest a cookie carries. -/
def digest (key message : List UInt8) : List UInt8 := (hmac key message).toList.take digestBytes

/-- Two messages have one digest only if they are one message. -/
def Separates (key first second : List UInt8) : Prop :=
  digest hmac key first = digest hmac key second → first = second

theorem token_eq_iff : signer.token hmac pool member = signer.token hmac pool' member' ↔
    digest hmac signer.key (message pool member) = digest hmac signer.key (message pool' member') :=
  hex_injective.eq_iff

/-! ## Moving the separator -/

/-- The byte between the pool and the member, as text. -/
def separator : String := String.singleton (Char.ofNat 0)

/-- A pool has another one in front, with the separator behind it and the beginning of a member of that
one behind the separator. -/
def Moved (pool : BackendId) (member : MemberId) (pool' : BackendId) (member' : MemberId) : Prop :=
  ∃ between : String, pool'.asStr = pool.asStr ++ separator ++ between ∧
    member.asStr = between ++ separator ++ member'.asStr

theorem bytes_separator : Text.bytes separator = [0] := by decide +kernel

theorem message_eq_bytes (pool : BackendId) (member : MemberId) :
    message pool member = Text.bytes (pool.asStr ++ separator ++ member.asStr) := by
  rw [Text.bytes_append, Text.bytes_append, bytes_separator, List.append_assoc]
  rfl

theorem joined_eq_iff {first last first' last' : String} :
    first ++ separator ++ last = first' ++ separator ++ last' ↔ (first = first' ∧ last = last') ∨
      (∃ between, first' = first ++ separator ++ between ∧ last = between ++ separator ++ last') ∨
        ∃ between, first = first' ++ separator ++ between ∧ last' = between ++ separator ++ last := by
  have hlist : ∀ s t : String, (s ++ separator ++ t).toList = s.toList ++ Char.ofNat 0 :: t.toList := by
    intro s t
    simp [separator]
  have hpart : ∀ s t u v : String,
      (∃ between : List Char, s.toList = t.toList ++ Char.ofNat 0 :: between ∧
        u.toList = between ++ Char.ofNat 0 :: v.toList) ↔
        ∃ between : String, s = t ++ separator ++ between ∧ u = between ++ separator ++ v := by
    intro s t u v
    simp only [← String.toList_inj, hlist]
    constructor
    · rintro ⟨between, hs, hu⟩
      exact ⟨String.ofList between, by rw [String.toList_ofList, hs], by rw [String.toList_ofList, hu]⟩
    · rintro ⟨between, hs, hu⟩
      exact ⟨between.toList, hs, hu⟩
  rw [← String.toList_inj, hlist, hlist, append_separator_eq_iff, hpart, hpart, String.toList_inj,
    String.toList_inj]

/-- One message for two members of pools: they are one, or the separator has moved. -/
theorem message_eq_iff : message pool member = message pool' member' ↔
    (pool = pool' ∧ member = member') ∨ Moved pool member pool' member' ∨
      Moved pool' member' pool member := by
  have hpool : pool.asStr = pool'.asStr ↔ pool = pool' := by
    rw [BackendId.mk.injEq]
  have hmember : member.asStr = member'.asStr ↔ member = member' := by
    rw [MemberId.mk.injEq]
  rw [message_eq_bytes, message_eq_bytes, Text.bytes_injective.eq_iff, joined_eq_iff, hpool, hmember]
  rfl

/-! ## Two members -/

/-- A pool is not told from the one the separator has moved into. -/
theorem Moved.ne (h : Moved pool member pool' member') : pool ≠ pool' := by
  rintro rfl
  obtain ⟨between, hpool, -⟩ := h
  have hlength := congrArg (fun s : String => s.toList.length) hpool
  simp [separator] at hlength

/-- The cookie of a member of a pool is that of no other member, and selects in no other pool. -/
def Apart (signer : Signer) (pool : BackendId) (member : MemberId) (pool' : BackendId)
    (member' : BackendMember) : Prop :=
  (signer.token hmac pool member = signer.token hmac pool' member'.id →
    pool = pool' ∧ member = member'.id) ∧
  ∀ eligible, signer.memberFor hmac pool' eligible (signer.token hmac pool member) = some member' →
    pool = pool'

/-- Two members are told apart by a digest that keeps their messages apart, exactly if the separator has
not moved from one to the other. -/
theorem told_apart_iff (signer : Signer) (pool : BackendId) (member : MemberId) (pool' : BackendId)
    (member' : BackendMember) :
    (Separates hmac signer.key (message pool member) (message pool' member'.id) →
      Apart hmac signer pool member pool' member') ↔
    ¬ (Moved pool member pool' member'.id ∨ Moved pool' member'.id pool member) := by
  constructor
  · intro h hmoved
    have hmessage := message_eq_iff.mpr (.inr hmoved)
    have htokens : signer.token hmac pool member = signer.token hmac pool' member'.id := by
      rw [token_eq_iff, hmessage]
    have hsame : pool = pool' := ((h fun _ => hmessage).1 htokens).1
    exact hmoved.elim (fun hthere => hthere.ne hsame) fun hback => hback.ne hsame.symm
  · intro hmoved hseparates
    have htokens : signer.token hmac pool member = signer.token hmac pool' member'.id →
        pool = pool' ∧ member = member'.id := by
      intro htoken
      have hmessage := hseparates ((token_eq_iff hmac).mp htoken)
      exact (message_eq_iff.mp hmessage).resolve_right hmoved
    refine ⟨htokens, fun eligible hfound => (htokens ?_).1⟩
    have hselected := List.find?_some hfound
    exact (of_decide_eq_true hselected).symm

/-! ## What a document can carry -/

/-- A pool of one member that cookies are written for. -/
def pinning (pool : BackendId) (member : MemberId) : Backend where
  id := pool
  members := [⟨member, .v4 ⟨10, 0, 1, 1⟩, 80, 1, .enabled⟩]
  algorithm := .roundRobin
  healthCheck := none
  stickiness := .signedCookie "ek" .lax
  connectionPooling := .enabled
  connectionPoolSize := 0
  connectionLifetimeSeconds := 0

/-- A key that is long enough. -/
def pinningKey : String := "00112233445566778899aabbccddeeff00112233445566778899aabbccddeeff"

theorem long_pinningKey : ((hexLength pinningKey).any fun length => length ≥ shortestKey) = true := by
  decide +kernel

/-- Two pools of one member each, and a key. -/
def twoPools (pool : BackendId) (member : MemberId) (pool' : BackendId) (member' : MemberId) : Config :=
  { Config.empty with
    backends := [pinning pool member, pinning pool' member']
    stickinessKey := pinningKey }

/-- A document is accepted whatever the identities are, as long as the two pools are told apart. -/
theorem accepted_twoPools (hne : pool ≠ pool') : Accepted (twoPools pool member pool' member') where
  duplicateIds := by
    have hids : pool.asStr ≠ pool'.asStr := fun heq => hne (by rwa [BackendId.mk.injEq])
    refine checkDuplicateIds_eq_nil.mpr ⟨?_, ?_, ?_, ?_, ?_, ?_, ?_⟩
    all_goals simp [twoPools, pinning, Config.empty, hids]
  frontendBindings := rfl
  frontendReferences := rfl
  tlsPlacement := rfl
  redirects := rfl
  vips := rfl
  certificates := rfl
  dnsProviders := rfl
  backends := rfl
  stickinessAgainstTransport := rfl
  stickinessKey := (if_neg (not_not.mpr rfl)).trans (if_pos long_pinningKey)
  stickinessCookieName := rfl
  accessLog := rfl

/-- The pools `a` with a separator and `b` behind it, and `a`. -/
def longPool : BackendId := ⟨"a" ++ separator ++ "b"⟩

def shortPool : BackendId := ⟨"a"⟩

/-- The members `c`, and `b` with a separator and `c` behind it. -/
def shortMember : MemberId := ⟨"c"⟩

def longMember : MemberId := ⟨"b" ++ separator ++ "c"⟩

/-- A document is accepted with two pools the cookie of whose members is one, whatever the digest: that
of the first pool selects in the second. -/
theorem moved_is_selected :
    validate (twoPools longPool shortMember shortPool longMember) = .ok () ∧ longPool ≠ shortPool ∧
      ∀ (hmac : Hmac) (signer : Signer),
        signer.token hmac longPool shortMember = signer.token hmac shortPool longMember ∧
          signer.memberFor hmac shortPool (pinning shortPool longMember).members
            (signer.token hmac longPool shortMember) = (pinning shortPool longMember).members.head? := by
  have hne : longPool ≠ shortPool := by decide
  refine ⟨validate_eq_ok.mpr (accepted_twoPools hne), hne, fun hmac signer => ?_⟩
  have hmoved : Moved shortPool longMember longPool shortMember := ⟨"b", rfl, rfl⟩
  have htoken : signer.token hmac longPool shortMember = signer.token hmac shortPool longMember := by
    rw [token_eq_iff, message_eq_iff.mpr (.inr (.inr hmoved))]
  refine ⟨htoken, ?_⟩
  rw [htoken]
  exact List.find?_cons_of_pos (decide_eq_true rfl)

end EkEk.Dataplane.Sticky
