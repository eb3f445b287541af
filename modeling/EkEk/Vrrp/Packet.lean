import EkEk.Lib.OnesComplement
import EkEk.Net
import Mathlib.Data.List.Basic

/-!
# The VRRPv3 advertisement

Reference: `crates/ek-ek-vrrp/src/packet.rs`.

`Advertisement.encode` lays an advertisement out as RFC 5798 does and `Advertisement.decode` reads
one back out of raw bytes. The checksum covers a pseudo header with both addresses, so a packet is
encoded once per peer and can only be judged against the address it was sent to.

The main results are the two halves of the round trip. `decode_encode` reads back every
advertisement of at most 255 addresses. `decode_encode_of_count` says what the count byte does to
the others: it is held at 255, so the bytes that follow do not match it and the packet is refused.
-/

namespace EkEk.Vrrp

open OnesComplement

/-- The IP protocol number VRRP travels under. -/
def protocol : ℕ := 112

/-- The version this product speaks. -/
def version : UInt8 := 3

/-- The only type RFC 5798 defines. -/
def advertisementType : UInt8 := 1

/-- Bytes before the addresses begin. -/
def header : ℕ := 8

/-- Bytes one IPv4 address takes. -/
def addressBytes : ℕ := 4

/-- A priority saying the sender is giving up the role on purpose. -/
def givingUp : UInt8 := 0

/-- What went wrong with a packet that arrived. -/
inductive Malformed where
  | tooShort
  | version (found : UInt8)
  | type (found : UInt8)
  | addressCount
  | checksum
deriving DecidableEq, Repr

/-- One advertisement, decoded or waiting to be encoded. -/
structure Advertisement where
  vrid : UInt8
  priority : UInt8
  intervalCentiseconds : UInt16
  addresses : List Ipv4Addr
deriving DecidableEq, Repr

/-! ## Numbers on the wire -/

/-- `u8::try_from`. -/
def u8TryFrom (n : ℕ) : Option UInt8 := if n < 256 then some (UInt8.ofNat n) else none

/-- The two bytes of a sixteen bit number, the high one first. -/
def u16Bytes (n : UInt16) : List UInt8 :=
  [(u8TryFrom (n.toNat / 2 ^ 8)).getD 0, (u8TryFrom (n.toNat % 2 ^ 8)).getD 0]

/-- The two bytes of a number sum back to it. -/
theorem wordSum_u16Bytes (n : UInt16) : wordSum (u16Bytes n) = n.toNat := by
  have hn := n.toNat_lt
  have hhigh : n.toNat / 2 ^ 8 < 256 := by omega
  have hlow : n.toNat % 2 ^ 8 < 256 := by omega
  rw [u16Bytes, wordSum, wordSum, u8TryFrom, u8TryFrom, if_pos hhigh, if_pos hlow,
    Option.getD_some, Option.getD_some, UInt8.toNat_ofNat_of_lt' hhigh,
    UInt8.toNat_ofNat_of_lt' hlow]
  omega

/-! ## The checksum -/

section

/-! The sum is kept in a `u32`. A build that checks for overflow ends at an addition that has no room there,
and one that does not check wraps around. `add` is the addition of either. -/

variable {m : Type → Type} [Monad m] (add : ℕ → ℕ → m ℕ)

/-- The loop over the pairs of the message, with the odd byte padded on the right. -/
def sumPairsBy (sum : ℕ) : List UInt8 → m ℕ
  | high :: low :: rest => do
    let sum ← add sum (high.toNat * 256 + low.toNat)
    sumPairsBy sum rest
  | [last] => add sum (last.toNat * 256)
  | [] => pure sum

/-- What the pseudo header adds: both addresses, the length and the protocol. -/
def pseudoHeaderBy (length : ℕ) (sender receiver : Ipv4Addr) : m ℕ := do
  let sum ← [sender, receiver].foldlM (fun sum address => do
    let sum ← add sum (address.a.toNat * 256 + address.b.toNat)
    add sum (address.c.toNat * 256 + address.d.toNat)) 0
  let length := if length < 0x100000000 then length else 0xFFFFFFFF
  let sum ← add sum (length / 2 ^ 16)
  let sum ← add sum (length % 2 ^ 16)
  add sum protocol

/-- The one's complement sum RFC 5798 asks for, pseudo header and all. The carries are added back in without
`add`: two halves of a `u32` always fit. -/
def checksumBy (message : List UInt8) (sender receiver : Ipv4Addr) : m UInt16 := do
  let sum ← pseudoHeaderBy add message.length sender receiver
  let sum ← sumPairsBy add sum message
  pure (~~~ UInt16.ofNat (fold sum))

end

/-- Addition on the `u32` the sum is kept in. -/
def add32 (x y : ℕ) : Id ℕ := pure ((x + y) % 0x100000000)

/-- Addition on the `u32` the sum is kept in, where a sum that does not fit is a panic. -/
def checkedAdd32 (x y : ℕ) : Option ℕ := if x + y < 0x100000000 then some (x + y) else none

/-- The sum of the words of a message, going on from another sum. -/
def sumPairs (sum : ℕ) (message : List UInt8) : ℕ := (sumPairsBy add32 sum message).run

/-- The checksum of a message between two ends. -/
def checksum (message : List UInt8) (sender receiver : Ipv4Addr) : UInt16 :=
  (checksumBy add32 message sender receiver).run

/-- The bytes of the pseudo header, which are summed and never sent. -/
def pseudoHeaderBytes (length : ℕ) (sender receiver : Ipv4Addr) : List UInt8 :=
  sender.octets ++ receiver.octets ++
    (u16Bytes (UInt16.ofNat (length / 2 ^ 16)) ++ u16Bytes (UInt16.ofNat (length % 2 ^ 16)) ++
      u16Bytes (UInt16.ofNat protocol))

/-- The one's complement sum over pseudo header and message. -/
def onesSum (message : List UInt8) (sender receiver : Ipv4Addr) : ℕ :=
  wordSum (pseudoHeaderBytes message.length sender receiver ++ message)

theorem pseudoHeaderBytes_even (length : ℕ) (sender receiver : Ipv4Addr) :
    (pseudoHeaderBytes length sender receiver).length % 2 = 0 := by
  simp [pseudoHeaderBytes, u16Bytes, Ipv4Addr.octets]

theorem onesSum_eq (message : List UInt8) (sender receiver : Ipv4Addr) :
    onesSum message sender receiver =
      wordSum (pseudoHeaderBytes message.length sender receiver) + wordSum message :=
  wordSum_append (pseudoHeaderBytes_even _ _ _) message

/-- The words of the pseudo header of a message whose length fits the length field. -/
theorem wordSum_pseudoHeaderBytes {length : ℕ} (hlength : length < 2 ^ 16) (sender receiver : Ipv4Addr) :
    wordSum (pseudoHeaderBytes length sender receiver) =
      (sender.a.toNat * 256 + sender.b.toNat) + (sender.c.toNat * 256 + sender.d.toNat) +
        ((receiver.a.toNat * 256 + receiver.b.toNat) + (receiver.c.toNat * 256 + receiver.d.toNat)) +
          (length + protocol) := by
  have hlow : (UInt16.ofNat (length % 2 ^ 16)).toNat = length := by
    rw [Nat.mod_eq_of_lt hlength]
    exact UInt16.toNat_ofNat_of_lt' hlength
  have hhigh : (UInt16.ofNat (length / 2 ^ 16)).toNat = 0 := by
    rw [Nat.div_eq_of_lt hlength]
    rfl
  have hprotocol : (UInt16.ofNat protocol).toNat = protocol := rfl
  have hends : wordSum (sender.octets ++ receiver.octets) =
      (sender.a.toNat * 256 + sender.b.toNat) + (sender.c.toNat * 256 + sender.d.toNat) +
        ((receiver.a.toNat * 256 + receiver.b.toNat) + (receiver.c.toNat * 256 + receiver.d.toNat)) := by
    simp only [Ipv4Addr.octets, List.cons_append, List.nil_append, wordSum]
    omega
  rw [pseudoHeaderBytes, wordSum_append (by simp [Ipv4Addr.octets]), hends, wordSum_append
    (by simp [u16Bytes]),
    wordSum_append (by simp [u16Bytes]), wordSum_u16Bytes, wordSum_u16Bytes, wordSum_u16Bytes, hlow,
    hhigh, hprotocol]
  omega

/-- The pseudo header stays far below the `u32` bound and is never zero, for the protocol is in
it. -/
theorem pseudoHeaderBytes_bounds {length : ℕ} (hlength : length < 2 ^ 16) (sender receiver : Ipv4Addr) :
    0 < wordSum (pseudoHeaderBytes length sender receiver) ∧
      wordSum (pseudoHeaderBytes length sender receiver) < 2 ^ 19 := by
  have h := fun x : UInt8 => x.toNat_lt
  have := h sender.a; have := h sender.b; have := h sender.c; have := h sender.d
  have := h receiver.a; have := h receiver.b; have := h receiver.c; have := h receiver.d
  rw [wordSum_pseudoHeaderBytes hlength, protocol]
  omega

section

variable {m : Type → Type} [Monad m] {add : ℕ → ℕ → m ℕ}

/-- An addition that is the one of the numbers as long as their sum fits. -/
def Exact (add : ℕ → ℕ → m ℕ) : Prop := ∀ x y, x + y < 0x100000000 → add x y = pure (x + y)

theorem exact_add32 : Exact add32 := fun _ _ h => congrArg pure (Nat.mod_eq_of_lt h)

theorem exact_checkedAdd32 : Exact checkedAdd32 := fun _ _ h => if_pos h

variable [LawfulMonad m]

theorem sumPairsBy_eq (hadd : Exact add) {sum : ℕ} {message : List UInt8}
    (h : sum + wordSum message < 0x100000000) :
    sumPairsBy add sum message = pure (sum + wordSum message) := by
  induction sum, message using sumPairsBy.induct with
  | case1 sum high low rest ih =>
    simp only [wordSum] at h
    have hlt : sum + (high.toNat * 256 + low.toNat) < 0x100000000 :=
      lt_of_le_of_lt (Nat.add_le_add_left (Nat.le_add_right _ _) _) h
    rw [sumPairsBy, hadd _ _ hlt, pure_bind, ih _ ((Nat.add_assoc _ _ _).trans_lt h), wordSum, Nat.add_assoc]
  | case2 sum last =>
    simp only [wordSum] at h
    rw [sumPairsBy, wordSum, hadd _ _ h]
  | case3 sum => rfl

theorem pseudoHeaderBy_eq (hadd : Exact add) {length : ℕ} (hlength : length < 2 ^ 16)
    (sender receiver : Ipv4Addr) : pseudoHeaderBy add length sender receiver =
      pure (wordSum (pseudoHeaderBytes length sender receiver)) := by
  have h := fun x : UInt8 => x.toNat_lt
  have := h sender.a; have := h sender.b; have := h sender.c; have := h sender.d
  have := h receiver.a; have := h receiver.b; have := h receiver.c; have := h receiver.d
  have hadd' : ∀ x y, x + y < 0x100000000 → add x y = pure (x + y) := hadd
  rw [wordSum_pseudoHeaderBytes hlength, pseudoHeaderBy, if_pos (by omega : length < 0x100000000)]
  simp only [List.foldlM_cons, List.foldlM_nil, bind_pure, Nat.div_eq_of_lt hlength, Nat.mod_eq_of_lt hlength,
    protocol]
  simp (disch := omega) only [hadd', pure_bind]
  congr 1
  omega

/-- A message of any size an advertisement can have is summed to the end, and without wrapping. -/
theorem checksumBy_eq (hadd : Exact add) {message : List UInt8} (hlength : message.length < 2 ^ 12)
    (sender receiver : Ipv4Addr) : checksumBy add message sender receiver =
      pure (~~~ UInt16.ofNat (fold (onesSum message sender receiver))) := by
  have hshort : message.length < 2 ^ 16 := lt_trans hlength (by decide)
  have hpseudo := (pseudoHeaderBytes_bounds hshort sender receiver).2
  have hwords := wordSum_le message
  have hsum : wordSum (pseudoHeaderBytes message.length sender receiver) + wordSum message < 0x100000000 := by
    rw [ones] at hwords
    omega
  rw [checksumBy, pseudoHeaderBy_eq hadd hshort, pure_bind, sumPairsBy_eq hadd hsum, pure_bind, onesSum_eq]

end

theorem sumPairs_eq {sum : ℕ} {message : List UInt8} (h : sum + wordSum message < 0x100000000) :
    sumPairs sum message = sum + wordSum message := sumPairsBy_eq exact_add32 h

theorem checksum_toNat {message : List UInt8} (hlength : message.length < 2 ^ 12)
    (sender receiver : Ipv4Addr) :
    (checksum message sender receiver).toNat = ones - fold (onesSum message sender receiver) := by
  have hfold := fold_lt (onesSum message sender receiver)
  rw [checksum, checksumBy_eq exact_add32 hlength, Id.run_pure, UInt16.toNat_not,
    UInt16.toNat_ofNat_of_lt' hfold, ones]
  rfl

/-! ## Encoding -/

/-- The interval on the wire, held to the largest that fits twelve bits rather than masked. -/
def clampInterval (interval : UInt16) : UInt16 := if interval > 0x0FFF then 0x0FFF else interval

/-- The bytes before the checksum. -/
def Advertisement.leadingBytes (advertisement : Advertisement) : List UInt8 :=
  [(version <<< 4) ||| advertisementType,
    advertisement.vrid,
    advertisement.priority,
    (u8TryFrom advertisement.addresses.length).getD 255]
  ++ u16Bytes (clampInterval advertisement.intervalCentiseconds)

/-- The packet with a given value in its checksum field. -/
def Advertisement.bytesWith (advertisement : Advertisement) (sum : UInt16) : List UInt8 :=
  advertisement.leadingBytes ++ (u16Bytes sum ++ advertisement.addresses.flatMap Ipv4Addr.octets)

/-- The bytes to put on the wire towards one peer. -/
def Advertisement.encode (advertisement : Advertisement) (sender receiver : Ipv4Addr) :
    List UInt8 :=
  -- Zero while the sum is taken, then written over.
  advertisement.bytesWith (checksum (advertisement.bytesWith 0) sender receiver)

/-! ## Decoding -/

/-- The chunks of four bytes after the header, each an address. -/
def readAddresses : List UInt8 → List Ipv4Addr
  | a :: b :: c :: d :: rest => ⟨a, b, c, d⟩ :: readAddresses rest
  | _ => []

/-- Read an advertisement out of bytes that arrived, with the additions of one build. -/
def Advertisement.decodeBy {m : Type → Type} [Monad m] (add : ℕ → ℕ → m ℕ) (bytes : List UInt8)
    (sender receiver : Ipv4Addr) : m (Except Malformed Advertisement) :=
  if bytes.length < header then pure (.error .tooShort)
  else if bytes.getD 0 0 >>> 4 ≠ version then pure (.error (.version (bytes.getD 0 0 >>> 4)))
  else if bytes.getD 0 0 &&& 0x0F ≠ advertisementType then
    pure (.error (.type (bytes.getD 0 0 &&& 0x0F)))
  else if bytes.length ≠ header + (bytes.getD 3 0).toNat * addressBytes then pure (.error .addressCount)
  else do
    -- Taken over the packet as it arrived: a correct packet sums to zero.
    let sum ← checksumBy add bytes sender receiver
    if sum ≠ 0 then pure (.error .checksum)
    else pure (.ok {
      vrid := bytes.getD 1 0
      priority := bytes.getD 2 0
      intervalCentiseconds :=
        ((bytes.getD 4 0 &&& 0x0F).toUInt16 <<< 8) ||| (bytes.getD 5 0).toUInt16
      addresses := readAddresses (bytes.drop header) })

/-- Read an advertisement out of bytes that arrived. -/
def Advertisement.decode (bytes : List UInt8) (sender receiver : Ipv4Addr) :
    Except Malformed Advertisement :=
  (decodeBy add32 bytes sender receiver).run

/-- `decode` with a checked sum. -/
def Advertisement.decodeChecked (bytes : List UInt8) (sender receiver : Ipv4Addr) :
    Option (Except Malformed Advertisement) :=
  decodeBy checkedAdd32 bytes sender receiver

/-- What `decode` checks, in this order. -/
theorem Advertisement.decode_eq (bytes : List UInt8) (sender receiver : Ipv4Addr) :
    decode bytes sender receiver =
      if bytes.length < header then .error .tooShort
      else if bytes.getD 0 0 >>> 4 ≠ version then .error (.version (bytes.getD 0 0 >>> 4))
      else if bytes.getD 0 0 &&& 0x0F ≠ advertisementType then .error (.type (bytes.getD 0 0 &&& 0x0F))
      else if bytes.length ≠ header + (bytes.getD 3 0).toNat * addressBytes then .error .addressCount
      else if checksum bytes sender receiver ≠ 0 then .error .checksum
      else .ok {
        vrid := bytes.getD 1 0
        priority := bytes.getD 2 0
        intervalCentiseconds :=
          ((bytes.getD 4 0 &&& 0x0F).toUInt16 <<< 8) ||| (bytes.getD 5 0).toUInt16
        addresses := readAddresses (bytes.drop header) } := rfl

/-! ## The round trip -/

@[simp] theorem octets_length (address : Ipv4Addr) : address.octets.length = 4 := rfl

theorem flatMap_octets_length (addresses : List Ipv4Addr) :
    (addresses.flatMap Ipv4Addr.octets).length = addresses.length * addressBytes := by
  induction addresses with
  | nil => rfl
  | cons address rest ih =>
    rw [List.flatMap_cons, List.length_append, ih, octets_length, List.length_cons, addressBytes]
    omega

@[simp] theorem readAddresses_flatMap_octets (addresses : List Ipv4Addr) :
    readAddresses (addresses.flatMap Ipv4Addr.octets) = addresses := by
  induction addresses with
  | nil => rfl
  | cons address rest ih =>
    simp only [List.flatMap_cons, Ipv4Addr.octets, List.cons_append, List.nil_append, readAddresses]
    rw [ih]

theorem clampInterval_le (interval : UInt16) : (clampInterval interval).toNat ≤ 0x0FFF := by
  rw [clampInterval]
  split
  · decide
  · rename_i h
    simpa [UInt16.lt_iff_toNat_lt] using h

/-- A twelve bit interval is read back from the two bytes it was written in. -/
theorem interval_u16Bytes (interval : UInt16) :
    (((u16Bytes (clampInterval interval)).getD 0 0 &&& 0x0F).toUInt16 <<< 8)
      ||| ((u16Bytes (clampInterval interval)).getD 1 0).toUInt16 = clampInterval interval := by
  have hle := clampInterval_le interval
  set n := clampInterval interval
  have hhigh : n.toNat / 2 ^ 8 < 256 := by omega
  have hlow : n.toNat % 2 ^ 8 < 256 := by omega
  have hmask : n.toNat / 2 ^ 8 &&& UInt8.toNat 0x0F = n.toNat / 2 ^ 8 := by
    rw [show UInt8.toNat 0x0F = 2 ^ 4 - 1 from rfl, Nat.and_two_pow_sub_one_eq_mod]
    omega
  have hshift : (n.toNat / 2 ^ 8) <<< (UInt16.toNat 8 % 16) % 2 ^ 16
      = (n.toNat / 2 ^ 8) <<< 8 := by
    rw [show UInt16.toNat 8 % 16 = 8 from rfl, Nat.shiftLeft_eq]
    omega
  rw [← UInt16.toNat_inj, UInt16.toNat_or, UInt16.toNat_shiftLeft, UInt8.toNat_toUInt16,
    UInt8.toNat_toUInt16, UInt8.toNat_and]
  simp only [u16Bytes, List.getD_cons_zero, List.getD_cons_succ, u8TryFrom, if_pos hhigh,
    if_pos hlow, Option.getD_some, UInt8.toNat_ofNat_of_lt' hhigh, UInt8.toNat_ofNat_of_lt' hlow]
  rw [hmask, hshift, ← Nat.shiftLeft_add_eq_or_of_lt hlow, Nat.shiftLeft_eq]
  omega

namespace Advertisement

theorem leadingBytes_length (advertisement : Advertisement) :
    advertisement.leadingBytes.length = 6 := rfl

theorem bytesWith_length (advertisement : Advertisement) (sum : UInt16) :
    (advertisement.bytesWith sum).length
      = header + advertisement.addresses.length * addressBytes := by
  rw [bytesWith, List.length_append, List.length_append, flatMap_octets_length,
    leadingBytes_length, header, u16Bytes, List.length_cons, List.length_singleton]
  omega

/-- Writing the sum over the zeros adds exactly the sum. -/
theorem wordSum_bytesWith (advertisement : Advertisement) (sum : UInt16) :
    wordSum (advertisement.bytesWith sum)
      = wordSum (advertisement.bytesWith 0) + sum.toNat := by
  have hsum : ∀ n, wordSum (advertisement.bytesWith n) = wordSum advertisement.leadingBytes
      + (n.toNat + wordSum (advertisement.addresses.flatMap Ipv4Addr.octets)) := by
    intro n
    rw [bytesWith, wordSum_append (by rw [leadingBytes_length]), wordSum_append (by simp [u16Bytes]),
      wordSum_u16Bytes]
  rw [hsum, hsum, UInt16.toNat_zero]
  ring

/-- The sum over an encoded advertisement is zero, towards the address it was encoded for. -/
theorem checksum_encode {advertisement : Advertisement}
    (hcount : advertisement.addresses.length ≤ 255) (sender receiver : Ipv4Addr) :
    checksum (advertisement.encode sender receiver) sender receiver = 0 := by
  have hlength := bytesWith_length advertisement
  have hshort : ∀ sum, (advertisement.bytesWith sum).length < 2 ^ 12 := by
    intro sum
    rw [hlength, header, addressBytes]
    omega
  have hpos : 0 < onesSum (advertisement.bytesWith 0) sender receiver := by
    rw [onesSum_eq]
    exact Nat.add_pos_left (pseudoHeaderBytes_bounds (lt_trans (hshort 0) (by decide)) _ _).1 _
  have hsum (sum : UInt16) : onesSum (advertisement.bytesWith sum) sender receiver =
      onesSum (advertisement.bytesWith 0) sender receiver + sum.toNat := by
    rw [onesSum_eq, onesSum_eq, hlength, hlength, wordSum_bytesWith, Nat.add_assoc]
  rw [← UInt16.toNat_inj, encode, checksum_toNat (hshort _), hsum, checksum_toNat (hshort _),
    fold_add_complement hpos]
  rfl

/-- What an advertisement becomes on the wire: the interval held to twelve bits. -/
def clamped (advertisement : Advertisement) : Advertisement :=
  { advertisement with
    intervalCentiseconds := clampInterval advertisement.intervalCentiseconds }

/-- Every check of `decode` before the address count is passed by what `encode` wrote. -/
theorem decode_bytesWith (advertisement : Advertisement) (sum : UInt16)
    (sender receiver : Ipv4Addr) :
    decode (advertisement.bytesWith sum) sender receiver
      = if (advertisement.bytesWith sum).length
            ≠ header + ((u8TryFrom advertisement.addresses.length).getD 255).toNat * addressBytes
          then .error .addressCount
        else if checksum (advertisement.bytesWith sum) sender receiver ≠ 0 then .error .checksum
        else .ok advertisement.clamped := by
  have hlong : ¬ (advertisement.bytesWith sum).length < header := by
    rw [bytesWith_length]; omega
  have hfirst : (advertisement.bytesWith sum).getD 0 0 = 0x31 := rfl
  have hcount : (advertisement.bytesWith sum).getD 3 0
      = (u8TryFrom advertisement.addresses.length).getD 255 := rfl
  have hbody : (advertisement.bytesWith sum).drop header
      = advertisement.addresses.flatMap Ipv4Addr.octets := rfl
  rw [decode_eq, if_neg hlong, hfirst, hcount, hbody, if_neg (by decide), if_neg (by decide),
    readAddresses_flatMap_octets, clamped, ← interval_u16Bytes]
  rfl

/-- The round trip: an advertisement of at most 255 addresses reads back, at the address it was
encoded for. -/
theorem decode_encode {advertisement : Advertisement}
    (hcount : advertisement.addresses.length ≤ 255) (sender receiver : Ipv4Addr) :
    decode (advertisement.encode sender receiver) sender receiver = .ok advertisement.clamped := by
  have hbyte : ((u8TryFrom advertisement.addresses.length).getD 255).toNat
      = advertisement.addresses.length := by
    rw [u8TryFrom, if_pos (by omega), Option.getD_some, UInt8.toNat_ofNat_of_lt'
      (lt_of_le_of_lt hcount (by decide))]
  have hsum := checksum_encode hcount sender receiver
  rw [encode] at hsum ⊢
  rw [decode_bytesWith, bytesWith_length, hbyte, if_neg (not_not.mpr rfl), hsum,
    if_neg (not_not.mpr rfl)]

/-- The count byte is held at 255, so a packet with more addresses is refused by every receiver. -/
theorem decode_encode_of_count {advertisement : Advertisement}
    (hcount : 255 < advertisement.addresses.length) (sender to₁ to₂ : Ipv4Addr) :
    decode (advertisement.encode sender to₁) sender to₂ = .error .addressCount := by
  have hbyte : ((u8TryFrom advertisement.addresses.length).getD 255).toNat = 255 := by
    rw [u8TryFrom, if_neg (by omega)]
    rfl
  rw [encode, decode_bytesWith, bytesWith_length, hbyte, if_pos (by rw [addressBytes]; omega)]

/-- What a packet says does not depend on the address it is checked against: the address only
decides whether it is accepted. -/
theorem decode_unique {bytes : List UInt8} {sender to₁ to₂ : Ipv4Addr}
    {first second : Advertisement} (h₁ : decode bytes sender to₁ = .ok first)
    (h₂ : decode bytes sender to₂ = .ok second) : first = second := by
  rw [decode_eq] at h₁ h₂
  split_ifs at h₁ h₂
  exact (Except.ok.inj h₁).symm.trans (Except.ok.inj h₂)

end Advertisement

end EkEk.Vrrp
