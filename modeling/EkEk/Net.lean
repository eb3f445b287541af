import Mathlib.Data.UInt

/-!
# Network addresses

The addresses of the standard library (`std::net`), as far as the crates use them: their octets, the
order the octets give them, and the two families.
-/

namespace EkEk

/-- An IPv4 address, as its four octets. -/
structure Ipv4Addr where
  a : UInt8
  b : UInt8
  c : UInt8
  d : UInt8
deriving DecidableEq, Repr

namespace Ipv4Addr

/-- The octets, in network order. -/
def octets (address : Ipv4Addr) : List UInt8 := [address.a, address.b, address.c, address.d]

/-- The address as a number. Comparing octets from the left is comparing these. -/
def toNat (address : Ipv4Addr) : ℕ :=
  ((address.a.toNat * 256 + address.b.toNat) * 256 + address.c.toNat) * 256 + address.d.toNat

instance : LT Ipv4Addr := ⟨fun x y => x.toNat < y.toNat⟩

instance (x y : Ipv4Addr) : Decidable (x < y) := inferInstanceAs (Decidable (x.toNat < y.toNat))

theorem lt_iff {x y : Ipv4Addr} : x < y ↔ x.toNat < y.toNat := Iff.rfl

/-- The octets can be read back out of the number, so the order is total. -/
theorem toNat_injective : Function.Injective toNat := by
  rintro ⟨a, b, c, d⟩ ⟨a', b', c', d'⟩ h
  have := a.toNat_lt; have := b.toNat_lt; have := c.toNat_lt; have := d.toNat_lt
  have := a'.toNat_lt; have := b'.toNat_lt; have := c'.toNat_lt; have := d'.toNat_lt
  simp only [toNat] at h
  simp only [mk.injEq, ← UInt8.toNat_inj]
  omega

end Ipv4Addr

/-- An address of either family. -/
inductive IpAddr where
  | v4 (address : Ipv4Addr)
  | v6 (address : BitVec 128)
deriving DecidableEq, Repr

/-! ## The text of an address -/

/-- The four octets in decimal. -/
def Ipv4Addr.display (address : Ipv4Addr) : String :=
  ".".intercalate (address.octets.map fun octet => toString octet.toNat)

namespace Ipv6

/-- The eight groups of sixteen bits. -/
def segments (address : BitVec 128) : List ℕ :=
  (List.range 8).map fun i => address.toNat / 65536 ^ (7 - i) % 65536

/-- Where the first of the longest runs of zeros starts and how long it is. -/
def longestZeros (segments : List ℕ) : ℕ × ℕ :=
  (segments.zipIdx.foldl (fun (found : (ℕ × ℕ) × (ℕ × ℕ)) segment =>
    let (longest, current) := found
    if segment.1 = 0 then
      let current := if current.2 = 0 then (segment.2, 1) else (current.1, current.2 + 1)
      (if longest.2 < current.2 then current else longest, current)
    else (longest, (0, 0))) ((0, 0), (0, 0))).1

/-- Groups in hex, with colons between them. -/
def groups (segments : List ℕ) : String :=
  ":".intercalate (segments.map fun segment => String.ofList (Nat.toDigits 16 segment))

/-- The text of RFC 5952: the longest run of zeros left out, and a mapped IPv4 address as one. -/
def display (address : BitVec 128) : String :=
  let all := segments address
  if all.take 6 = [0, 0, 0, 0, 0, 0xffff] then
    "::ffff:" ++ Ipv4Addr.display ⟨UInt8.ofNat (all.getD 6 0 / 256), UInt8.ofNat (all.getD 6 0),
      UInt8.ofNat (all.getD 7 0 / 256), UInt8.ofNat (all.getD 7 0)⟩
  else
    let (start, length) := longestZeros all
    if length ≤ 1 then groups all
    else groups (all.take start) ++ "::" ++ groups (all.drop (start + length))

end Ipv6

/-- An address as it is printed. -/
def IpAddr.display : IpAddr → String
  | .v4 address => address.display
  | .v6 address => Ipv6.display address

end EkEk
