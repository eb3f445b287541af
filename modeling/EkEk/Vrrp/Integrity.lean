import EkEk.Vrrp.Packet

/-!
# Which bytes are an advertisement

Reference: `crates/ek-ek-vrrp/src/packet.rs`.

The checksum is the whole defence of an advertisement against bytes that changed on the way. Here it is
read as arithmetic: `decode_ok_iff` says that `decode` accepts exactly the bytes with the right length and
first byte whose words, with those of the pseudo header, add up to zero modulo `0xFFFF`. So a change of
one word is found unless it exchanges the two words that stand for zero.

`decodeChecked` is `decode` with every addition of the sum checked as it is in a build that panics on
overflow. It always returns, and what `decode` does.
-/

namespace EkEk.Vrrp

open OnesComplement

/-! ## The sum as arithmetic -/

/-- A sum is zero exactly when the words add up to zero. -/
theorem checksum_eq_zero_iff {message : List UInt8} (hlength : message.length < 2 ^ 12)
    (sender receiver : Ipv4Addr) :
    checksum message sender receiver = 0 ↔ onesSum message sender receiver ≡ 0 [MOD ones] := by
  have hshort : message.length < 2 ^ 16 := lt_trans hlength (by decide)
  have hpos : 0 < onesSum message sender receiver := by
    rw [onesSum_eq]
    exact Nat.add_pos_left (pseudoHeaderBytes_bounds hshort sender receiver).1 _
  have hlt := fold_lt (onesSum message sender receiver)
  rw [← fold_eq_ones_iff hpos, ← UInt16.toNat_inj, checksum_toNat hlength,
    UInt16.toNat_zero, ones]
  omega

namespace Advertisement

/-- The two halves of the first byte. -/
theorem first_byte_iff (first : UInt8) :
    (first >>> 4 = version ∧ first &&& 0x0F = advertisementType) ↔ first = 0x31 := by
  have hlt := first.toNat_lt
  have hshift : (first >>> 4).toNat = first.toNat / 16 := by
    rw [UInt8.toNat_shiftRight, Nat.shiftRight_eq_div_pow]
    rfl
  have hmask : (first &&& 0x0F).toNat = first.toNat % 16 := by
    rw [UInt8.toNat_and]
    exact Nat.and_two_pow_sub_one_eq_mod first.toNat 4
  rw [← UInt8.toNat_inj, ← UInt8.toNat_inj, ← UInt8.toNat_inj, hshift, hmask]
  change first.toNat / 16 = 3 ∧ first.toNat % 16 = 1 ↔ first.toNat = 49
  omega

/-- The bytes that are an advertisement between two ends. -/
structure WellFormed (bytes : List UInt8) (sender receiver : Ipv4Addr) : Prop where
  length : bytes.length = 8 + 4 * (bytes.getD 3 0).toNat
  first : bytes.getD 0 0 = 0x31
  sum : onesSum bytes sender receiver ≡ 0 [MOD 65535]

/-- `decode` accepts exactly the bytes that are an advertisement. -/
theorem decode_ok_iff (bytes : List UInt8) (sender receiver : Ipv4Addr) :
    (∃ advertisement, decode bytes sender receiver = .ok advertisement) ↔
      WellFormed bytes sender receiver := by
  have hcount := (bytes.getD 3 0).toNat_lt
  rw [decode_eq, header, addressBytes]
  constructor
  · rintro ⟨advertisement, hdecode⟩
    split_ifs at hdecode with hshort hversion htype hlength hsum
    rw [not_not] at hversion htype hlength hsum
    refine ⟨by omega, (first_byte_iff _).mp ⟨hversion, htype⟩, ?_⟩
    exact (checksum_eq_zero_iff (by omega) sender receiver).mp hsum
  · rintro ⟨hlength, hfirst, hsum⟩
    obtain ⟨hversion, htype⟩ := (first_byte_iff _).mpr hfirst
    have hzero := (checksum_eq_zero_iff (by omega) sender receiver).mpr hsum
    rw [if_neg (by omega), if_neg (not_not.mpr hversion), if_neg (not_not.mpr htype),
      if_neg (by omega), if_neg (not_not.mpr hzero)]
    exact ⟨_, rfl⟩

/-- Two packets that differ in one word are both advertisements only if the word is one of the two that
stand for zero, and the other packet has the other. -/
theorem word_eq_or_swap {front back : List UInt8} {high low high' low' : UInt8}
    {sender receiver : Ipv4Addr} (hfront : front.length % 2 = 0)
    (h : WellFormed (front ++ high :: low :: back) sender receiver)
    (h' : WellFormed (front ++ high' :: low' :: back) sender receiver) :
    (high = high' ∧ low = low') ∨
      (high = 0 ∧ low = 0 ∧ high' = 0xFF ∧ low' = 0xFF) ∨
      (high = 0xFF ∧ low = 0xFF ∧ high' = 0 ∧ low' = 0) := by
  have hhigh := high.toNat_lt; have hlow := low.toNat_lt
  have hhigh' := high'.toNat_lt; have hlow' := low'.toNat_lt
  have hsum (high low : UInt8) : onesSum (front ++ high :: low :: back) sender receiver =
      wordSum (pseudoHeaderBytes (front.length + (back.length + 1 + 1)) sender receiver) +
        wordSum front + wordSum back + (high.toNat * 256 + low.toNat) := by
    rw [onesSum, wordSum_append (pseudoHeaderBytes_even _ _ _), wordSum_append hfront, wordSum, List.length_append,
      List.length_cons, List.length_cons]
    omega
  have hsame : high.toNat * 256 + low.toNat ≡ high'.toNat * 256 + low'.toNat [MOD ones] := by
    have hboth := h.sum.trans h'.sum.symm
    rw [hsum, hsum] at hboth
    exact Nat.ModEq.add_left_cancel' _ hboth
  simp only [← UInt8.toNat_inj]
  change (high.toNat = high'.toNat ∧ low.toNat = low'.toNat) ∨
    (high.toNat = 0 ∧ low.toNat = 0 ∧ high'.toNat = 255 ∧ low'.toNat = 255) ∨
    (high.toNat = 255 ∧ low.toNat = 255 ∧ high'.toNat = 0 ∧ low'.toNat = 0)
  rcases eq_or_swap_of_modEq (by rw [ones]; omega) (by rw [ones]; omega) hsame with heq | heq | heq
  · omega
  · rw [ones] at heq
    omega
  · rw [ones] at heq
    omega

end Advertisement

/-! ## Returning -/

namespace Advertisement

/-- The length is checked before the sum is taken, so whatever arrived the sum fits. -/
theorem decodeChecked_eq (bytes : List UInt8) (sender receiver : Ipv4Addr) :
    decodeChecked bytes sender receiver = some (decode bytes sender receiver) := by
  have hcount := (bytes.getD 3 0).toNat_lt
  rw [decodeChecked, decode, decodeBy, decodeBy]
  split_ifs with hshort hversion htype hlength
  · rfl
  · rfl
  · rfl
  · rfl
  · rw [not_not, header, addressBytes] at hlength
    rw [checksumBy_eq exact_checkedAdd32 (by omega), checksumBy_eq exact_add32 (by omega), pure_bind, pure_bind]
    split <;> rfl

theorem clamped_eq {advertisement : Advertisement}
    (h : advertisement.intervalCentiseconds ≤ 0x0FFF) : advertisement.clamped = advertisement := by
  rw [clamped, clampInterval, if_neg (by simpa using h)]

/-- **Which bytes are an advertisement.** What was encoded is read back. Whatever arrives, `decode`
returns, and it accepts exactly what has the right length and first byte and adds up to zero. So no
change of a single word is accepted but an exchange of the two words that stand for zero. -/
theorem decode_integrity :
    (∀ (advertisement : Advertisement) (sender receiver : Ipv4Addr),
      advertisement.addresses.length ≤ 255 → advertisement.intervalCentiseconds ≤ 0x0FFF →
        decode (advertisement.encode sender receiver) sender receiver = .ok advertisement) ∧
    (∀ (bytes : List UInt8) (sender receiver : Ipv4Addr),
      decodeChecked bytes sender receiver = some (decode bytes sender receiver) ∧
      ((∃ advertisement, decode bytes sender receiver = .ok advertisement) ↔
        bytes.length = 8 + 4 * (bytes.getD 3 0).toNat ∧ bytes.getD 0 0 = 0x31 ∧
          onesSum bytes sender receiver ≡ 0 [MOD 65535])) ∧
    ∀ (front back : List UInt8) (high low high' low' : UInt8) (sender receiver : Ipv4Addr)
      (advertisement : Advertisement), front.length % 2 = 0 →
      decode (front ++ high :: low :: back) sender receiver = .ok advertisement →
      (high, low) ≠ (high', low') →
      ¬ ((high, low) = (0, 0) ∧ (high', low') = (0xFF, 0xFF)) →
      ¬ ((high, low) = (0xFF, 0xFF) ∧ (high', low') = (0, 0)) →
        ∃ malformed, decode (front ++ high' :: low' :: back) sender receiver = .error malformed := by
  refine ⟨fun advertisement sender receiver hcount hinterval => ?_, fun bytes sender receiver =>
    ⟨decodeChecked_eq bytes sender receiver, ?_⟩, ?_⟩
  · rw [decode_encode hcount, clamped_eq hinterval]
  · rw [decode_ok_iff]
    exact ⟨fun h => ⟨h.length, h.first, h.sum⟩, fun h => ⟨h.1, h.2.1, h.2.2⟩⟩
  · intro front back high low high' low' sender receiver advertisement hfront hdecode hne hup hdown
    cases hother : decode (front ++ high' :: low' :: back) sender receiver with
    | error malformed => exact ⟨malformed, rfl⟩
    | ok other =>
      have hformed := (decode_ok_iff _ _ _).mp ⟨advertisement, hdecode⟩
      have hformed' := (decode_ok_iff _ _ _).mp ⟨other, hother⟩
      rcases word_eq_or_swap hfront hformed hformed' with ⟨rfl, rfl⟩ | ⟨rfl, rfl, rfl, rfl⟩ |
        ⟨rfl, rfl, rfl, rfl⟩
      · exact absurd rfl hne
      · exact absurd ⟨rfl, rfl⟩ hup
      · exact absurd ⟨rfl, rfl⟩ hdown

end Advertisement

end EkEk.Vrrp
