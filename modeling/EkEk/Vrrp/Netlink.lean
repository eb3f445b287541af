import EkEk.Lib.ByteOrder
import EkEk.Lib.Records
import EkEk.Vrrp.Carrier

/-!
# The messages that name addresses and routes

Reference: `crates/ek-ek-vrrp/src/address.rs`, `crates/ek-ek-vrrp/src/route.rs`.

`change` writes the message that asks for one address, and `addresses`, `defaults` and `answer` read what
the kernel says. Every message and every attribute states its own length and begins on a boundary of four
bytes, so all three loops of the source are one walk over records.

A function that reads has the value `none` where the source panics: where an index or a range is not in
the bytes, where a position does not fit a `usize`, and where an overflow is found. The walks are by
position, with fuel for as many records as there are bytes. `reads_iff` says where they return.
-/

namespace EkEk.Vrrp.Netlink

open Records

/-- The value of a function that may panic. -/
abbrev Panics (α : Type) := Option α

/-- The positions a `usize` holds. -/
def usizeBound : ℕ := 2 ^ 64

/-- Bytes in memory. No object is larger than `isize::MAX`. -/
structure Slice where
  bytes : List UInt8
  fits : bytes.length < 2 ^ 63

/-! ## Writing -/

/-- Add an address. -/
def newAddress : ℕ := 20

/-- Remove an address. -/
def deleteAddress : ℕ := 21

/-- An error or an acknowledgement. -/
def errorMessage : ℕ := 2

/-- This end of the link. -/
def ifaLocal : ℕ := 2

/-- The far end of a point to point link, and the address itself elsewhere. -/
def ifaAddress : ℕ := 1

/-- Bytes before the payload of a netlink message. -/
def header : ℕ := 16

/-- Bytes of the address message that follows the header. -/
def ifaddrmsg : ℕ := 8

/-- Bytes before the value of an attribute. -/
def attributeHeader : ℕ := 4

/-- The address family of an IPv4 address. -/
def inet : UInt8 := 2

/-- The address family of an IPv6 address. -/
def inet6 : UInt8 := 10

/-- Reachable from anywhere. -/
def scopeUniverse : UInt8 := 0

/-- The message type a change is asked for with. -/
def kindOf : Change → ℕ
  | .add => newAddress
  | .remove => deleteAddress

/-- The flags a change carries: request and acknowledge, and for an address that is put on, create and
replace. -/
def flagsOf : Change → ℕ
  | .add => 0x0001 ||| 0x0004 ||| 0x0400 ||| 0x0100
  | .remove => 0x0001 ||| 0x0004

/-- The address family byte an address is carried under. -/
def familyOf : IpAddr → UInt8
  | .v4 _ => inet
  | .v6 _ => inet6

/-- An address as it goes on the wire. -/
def octetsOf : IpAddr → List UInt8
  | .v4 address => address.octets
  | .v6 address => ByteOrder.bigEndian 16 address.toNat

variable (order : ByteOrder)

/-- One attribute. The addresses written here are four or sixteen bytes, so nothing has to be padded. -/
def attributeBytes (kind : ℕ) (value : List UInt8) : List UInt8 :=
  order.toBytes 2 (min (attributeHeader + value.length) 0xFFFF) ++ (order.toBytes 2 kind ++ value)

/-- The address message of a change, with both attributes: the kernel refuses it when either is missing. -/
def changeBody (what : Address) : List UInt8 :=
  [familyOf what.address, what.prefixLength, 0, scopeUniverse] ++ (order.toBytes 4 what.interface.toNat ++
    (attributeBytes order ifaLocal (octetsOf what.address) ++
      attributeBytes order ifaAddress (octetsOf what.address)))

/-- The bytes of a change behind its length: the type, the flags, the sequence number, a port the kernel
fills in, and the address message. -/
def changeTail (what : Address) (how : Change) (sequence : UInt32) : List UInt8 :=
  order.toBytes 2 (kindOf how) ++ ((order.toBytes 2 (flagsOf how) ++
    (order.toBytes 4 sequence.toNat ++ order.toBytes 4 0)) ++ changeBody order what)

/-- The bytes that ask the kernel for one address change. -/
def change (what : Address) (how : Change) (sequence : UInt32) : List UInt8 :=
  order.toBytes 4 (min (4 + (changeTail order what how sequence).length) 0xFFFFFFFF) ++
    changeTail order what how sequence

/-! ## Reading -/

/-- What the kernel said about a request. -/
inductive Answer where
  | accepted
  | refused (errno : ℤ)
  | other (kind : ℕ)
deriving DecidableEq, Repr

/-- `-code`, on an `i32`. -/
def negate (code : ℤ) : Panics ℤ := if code = -2 ^ 31 then none else some (-code)

/-- Read what the kernel answered. Bytes that are too short hold no answer. -/
def answer (bytes : List UInt8) : Panics (Option Answer) :=
  match slice bytes 4 6 with
  | none => some none
  | some kind =>
    if order.ofBytes kind ≠ errorMessage then some (some (.other (order.ofBytes kind)))
    else
      match slice bytes header (header + 4) with
      | none => some none
      | some code =>
        let code := (BitVec.ofNat 32 (order.ofBytes code)).toInt
        if code = 0 then some (some .accepted)
        else (negate code).map fun errno => some (.refused errno)

/-- Messages state their length in four bytes. -/
def messageLayout : Layout UInt8 where
  header := header
  head := 4
  size := order.ofBytes
  align := 4
  head_le := by decide
  header_pos := by decide
  align_pos := Nat.succ_pos 3

/-- Attributes state their length in two bytes, and then their kind. -/
def attributeLayout : Layout UInt8 where
  header := attributeHeader
  head := 4
  size := fun head => order.ofBytes (head.take 2)
  align := 4
  head_le := le_refl 4
  header_pos := by decide
  align_pos := Nat.succ_pos 3

/-- Split a netlink read into the messages it holds. -/
def messages (bytes : List UInt8) : Panics (List (List UInt8)) :=
  (walkAt usizeBound (messageLayout order) bytes (bytes.length + 1) 0).map Prod.fst

/-- The attributes of a message, and whether they end without one of an impossible length. -/
def attributes (bytes : List UInt8) : Panics (List (List UInt8) × Bool) :=
  walkAt usizeBound (attributeLayout order) bytes (bytes.length + 1) 0

/-- The kind of an attribute. -/
def attributeKind (entry : List UInt8) : ℕ := order.ofBytes ((entry.drop 2).take 2)

/-- An address of the family given, out of the bytes that carry it. -/
def addressFrom (bytes : List UInt8) (family : UInt8) : Option IpAddr :=
  if family = inet then
    match bytes with
    | [a, b, c, d] => some (.v4 ⟨a, b, c, d⟩)
    | _ => none
  else if family = inet6 then
    if bytes.length = 16 then some (.v6 (BitVec.ofNat 128 (ByteOrder.value bytes))) else none
  else none

/-- The `IFA_LOCAL` value among a message's attributes. An attribute of an impossible length ends the walk,
and there is nothing behind it. -/
def localAddress (bytes : List UInt8) (family : UInt8) : Panics (Option IpAddr) := do
  let (found, _) ← attributes order bytes
  some ((found.find? fun entry => attributeKind order entry = ifaLocal).bind fun entry =>
    addressFrom (entry.drop attributeHeader) family)

/-- The type of a message. -/
def messageKind (message : List UInt8) : Panics ℕ := (slice message 4 6).map order.ofBytes

/-- The bytes behind a number of others, if there are so many. -/
def behind (bytes : List UInt8) (count : ℕ) : Option (List UInt8) :=
  if count ≤ bytes.length then some (bytes.drop count) else none

/-- The address in one message, if it is one that names an address. -/
def addressIn (message : List UInt8) : Panics (Option (IpAddr × UInt32)) := do
  let kind ← messageKind order message
  if kind ≠ newAddress then some none
  else
    match behind message header with
    | none => some none
    | some body =>
      match body.head?, slice body 4 8, behind body ifaddrmsg with
      | some family, some index, some rest => do
        let found ← localAddress order rest family
        some (found.map fun address => (address, UInt32.ofNat (order.ofBytes index)))
      | _, _, _ => some none

/-- What is found in each of some messages, in their order. -/
def collect {α : Type} (read : List UInt8 → Panics (Option α)) : List (List UInt8) → Panics (List α)
  | [] => some []
  | message :: rest => do
    let found ← read message
    let later ← collect read rest
    some (found.toList ++ later)

/-- The addresses a listing answer names, with the interface each sits on. -/
def addresses (bytes : List UInt8) : Panics (List (IpAddr × UInt32)) := do
  let found ← messages order bytes
  collect (addressIn order) found

/-! ## Routes -/

/-- A route the kernel is telling us about. -/
def newRoute : ℕ := 24

/-- Bytes of the route message that follows the header. -/
def rtmsg : ℕ := 12

/-- The interface the route leaves from. -/
def rtaOif : ℕ := 4

/-- The next hop of the route. -/
def rtaGateway : ℕ := 5

/-- How much the route costs against another to the same place. -/
def rtaPriority : ℕ := 6

/-- One route out of the kernel's answer. -/
structure Route where
  gateway : IpAddr
  interface : UInt32
  metric : UInt32
deriving DecidableEq, Repr

/-- A four byte number out of an attribute value. -/
def number (bytes : List UInt8) : Option UInt32 :=
  if bytes.length = 4 then some (UInt32.ofNat (order.ofBytes bytes)) else none

/-- What has been read of a route. Absent numbers are zero. -/
structure Reading where
  gateway : Option IpAddr
  interface : UInt32
  metric : UInt32

/-- Take one attribute of a route in. -/
def Reading.take (family : UInt8) (reading : Reading) (entry : List UInt8) : Option Reading :=
  let value := entry.drop attributeHeader
  let kind := attributeKind order entry
  if kind = rtaGateway then some { reading with gateway := addressFrom value family }
  else if kind = rtaOif then (number order value).map fun interface => { reading with interface := interface }
  else if kind = rtaPriority then (number order value).map fun metric => { reading with metric := metric }
  else some reading

/-- One route out of the attributes that describe it. -/
def readRoute (bytes : List UInt8) (family : UInt8) : Panics (Option Route) := do
  let (found, ended) ← attributes order bytes
  some (if ended then do
    let reading ← found.foldlM (Reading.take order family) ⟨none, 0, 0⟩
    let gateway ← reading.gateway
    some ⟨gateway, reading.interface, reading.metric⟩
  else none)

/-- The default route in one message, if it is one. -/
def routeIn (message : List UInt8) : Panics (Option Route) := do
  let kind ← messageKind order message
  if kind ≠ newRoute then some none
  else
    match behind message header with
    | none => some none
    | some body =>
      match body.head?, body[1]? with
      | some family, some destination =>
        if destination ≠ 0 then some none
        else
          match behind body rtmsg with
          | none => some none
          | some rest => readRoute order rest family
      | _, _ => some none

/-- Every default route a listing answer names. -/
def defaults (bytes : List UInt8) : Panics (List Route) := do
  let found ← messages order bytes
  collect (routeIn order) found

/-! ## The walks return -/

section

variable {order} {bytes : List UInt8}

theorem messages_eq (h : bytes.length < 2 ^ 63) :
    messages order bytes = some ((messageLayout order).walk bytes).1 := by
  have hsize : ∀ head : List UInt8, head.length = 4 → order.ofBytes head ≤ 2 ^ 32 := by
    intro head hhead
    have hlt := order.ofBytes_lt head
    rw [hhead] at hlt
    omega
  have hbound : bytes.length + header + 2 * 4 + 2 ^ 32 < usizeBound := by
    rw [header, usizeBound]
    omega
  rw [messages, @walkAt_eq _ _ _ (messageLayout order) bytes hsize hbound (bytes.length + 1) 0 (by omega)
    (by omega) (Nat.zero_le _)]
  rfl

theorem attributes_eq (h : bytes.length < 2 ^ 63) :
    attributes order bytes = some ((attributeLayout order).walk bytes) := by
  have hsize : ∀ head : List UInt8, head.length = 4 → order.ofBytes (head.take 2) ≤ 2 ^ 16 := by
    intro head hhead
    have hlt := order.ofBytes_lt (head.take 2)
    rw [List.length_take, hhead, Nat.min_eq_left (by decide)] at hlt
    omega
  have hbound : bytes.length + attributeHeader + 2 * 4 + 2 ^ 16 < usizeBound := by
    rw [attributeHeader, usizeBound]
    omega
  exact @walkAt_eq _ _ _ (attributeLayout order) bytes hsize hbound (bytes.length + 1) 0 (by omega)
    (by omega) (Nat.zero_le _)

theorem length_behind {count : ℕ} {rest : List UInt8} (h : behind bytes count = some rest) :
    rest.length ≤ bytes.length := by
  rw [behind] at h
  split at h
  · rw [← Option.some.inj h, List.length_drop]
    exact Nat.sub_le _ _
  · cases h

theorem localAddress_isSome (h : bytes.length < 2 ^ 63) (family : UInt8) :
    (localAddress order bytes family).isSome := by
  rw [localAddress, attributes_eq h]
  rfl

theorem readRoute_isSome (h : bytes.length < 2 ^ 63) (family : UInt8) :
    (readRoute order bytes family).isSome := by
  rw [readRoute, attributes_eq h]
  rfl

/-- A message is long enough to hold its type. -/
theorem messageKind_eq (h : header ≤ bytes.length) :
    messageKind order bytes = some (order.ofBytes ((bytes.drop 4).take 2)) := by
  rw [header] at h
  rw [messageKind, slice_eq (by omega : 4 + 2 ≤ bytes.length)]
  rfl

theorem addressIn_isSome (hheader : header ≤ bytes.length) (h : bytes.length < 2 ^ 63) :
    (addressIn order bytes).isSome := by
  rw [addressIn, messageKind_eq hheader, Option.bind_eq_bind, Option.bind_some]
  split
  · rfl
  · split
    · rfl
    · rename_i body hbody
      split
      · rename_i family index rest hfamily hindex hrest
        have hshort := (length_behind hrest).trans (length_behind hbody)
        obtain ⟨found, hfound⟩ := Option.isSome_iff_exists.mp
          (localAddress_isSome (lt_of_le_of_lt hshort h) family)
        rw [hfound]
        rfl
      · rfl

theorem routeIn_isSome (hheader : header ≤ bytes.length) (h : bytes.length < 2 ^ 63) :
    (routeIn order bytes).isSome := by
  rw [routeIn, messageKind_eq hheader, Option.bind_eq_bind, Option.bind_some]
  split
  · rfl
  · split
    · rfl
    · rename_i body hbody
      split
      · split
        · rfl
        · split
          · rfl
          · rename_i rest hrest
            have hshort := (length_behind hrest).trans (length_behind hbody)
            exact readRoute_isSome (lt_of_le_of_lt hshort h) _
      · rfl

theorem collect_isSome {α : Type} {read : List UInt8 → Panics (Option α)} {found : List (List UInt8)}
    (h : ∀ message ∈ found, (read message).isSome) : (collect read found).isSome := by
  induction found with
  | nil => rfl
  | cons message rest ih =>
    obtain ⟨first, hfirst⟩ := Option.isSome_iff_exists.mp (h message List.mem_cons_self)
    obtain ⟨later, hlater⟩ := Option.isSome_iff_exists.mp
      (ih fun other hother => h other (List.mem_cons_of_mem _ hother))
    rw [collect, hfirst, hlater]
    rfl

/-- A reader that returns for every message returns for every byte string. -/
theorem collect_messages_isSome {α : Type} {read : List UInt8 → Panics (Option α)}
    (hread : ∀ message : List UInt8, header ≤ message.length → message.length < 2 ^ 63 →
      (read message).isSome) (h : bytes.length < 2 ^ 63) :
    ((messages order bytes).bind (collect read)).isSome := by
  rw [messages_eq h, Option.bind_some]
  refine collect_isSome fun message hmessage => ?_
  obtain ⟨hheader, hlength⟩ := Layout.length_of_mem_walk hmessage
  exact hread message hheader (lt_of_le_of_lt hlength h)

end

/-! ## What was written is read back -/

theorem length_octetsOf (address : IpAddr) :
    (octetsOf address).length = 4 ∨ (octetsOf address).length = 16 := by
  cases address with
  | v4 address => exact .inl rfl
  | v6 address => exact .inr (ByteOrder.length_bigEndian 16 address.toNat)

theorem addressFrom_octetsOf (address : IpAddr) :
    addressFrom (octetsOf address) (familyOf address) = some address := by
  cases address with
  | v4 address => rfl
  | v6 address =>
    have hlt : address.toNat < 256 ^ 16 := lt_of_lt_of_eq address.isLt (by decide)
    unfold addressFrom
    rw [octetsOf, familyOf, if_neg (by decide), if_pos rfl, if_pos (ByteOrder.length_bigEndian 16 _),
      ByteOrder.value_bigEndian hlt, BitVec.ofNat_toNat, BitVec.setWidth_eq]

theorem length_attributeBytes (kind : ℕ) (value : List UInt8) :
    (attributeBytes order kind value).length = attributeHeader + value.length := by
  simp only [attributeBytes, List.length_append, ByteOrder.length_toBytes, attributeHeader]
  omega

/-- An attribute that carries an address needs no padding. -/
theorem fits_attributeBytes (kind : ℕ) (address : IpAddr) :
    (attributeLayout order).Fits (attributeBytes order kind (octetsOf address)) := by
  have hlength := length_attributeBytes order kind (octetsOf address)
  have hoctets := length_octetsOf address
  have hsize : order.ofBytes (((attributeBytes order kind (octetsOf address)).take 4).take 2) =
      attributeHeader + (octetsOf address).length := by
    have htwo : ((attributeBytes order kind (octetsOf address)).take 4).take 2 =
        order.toBytes 2 (attributeHeader + (octetsOf address).length) := by
      rw [List.take_take, attributeBytes, Nat.min_eq_left (by decide : 2 ≤ 4),
        List.take_left' (order.length_toBytes 2 _), attributeHeader, Nat.min_eq_left (by omega)]
    rw [htwo, ByteOrder.ofBytes_toBytes]
    rw [attributeHeader]
    omega
  refine ⟨?_, hsize.trans hlength.symm, ?_⟩
  · rw [hlength]
    exact Nat.le_add_right _ _
  · rw [hlength]
    change 4 ∣ attributeHeader + _
    rw [attributeHeader]
    omega

theorem attributeKind_attributeBytes {kind : ℕ} (hkind : kind < 2 ^ 16) (value : List UInt8) :
    attributeKind order (attributeBytes order kind value) = kind := by
  rw [attributeKind, attributeBytes, List.drop_left' (order.length_toBytes 2 _),
    List.take_left' (order.length_toBytes 2 _), ByteOrder.ofBytes_toBytes]
  exact hkind

theorem drop_attributeBytes (kind : ℕ) (value : List UInt8) :
    (attributeBytes order kind value).drop attributeHeader = value := by
  rw [attributeBytes, ← List.append_assoc, List.drop_left']
  rw [List.length_append, ByteOrder.length_toBytes, ByteOrder.length_toBytes, attributeHeader]

/-- The attributes of a change name its address. -/
theorem localAddress_changeBody (address : IpAddr) :
    localAddress order (attributeBytes order ifaLocal (octetsOf address) ++
      attributeBytes order ifaAddress (octetsOf address)) (familyOf address) = some (some address) := by
  have hlength (kind : ℕ) := length_attributeBytes order kind (octetsOf address)
  have hoctets := length_octetsOf address
  have hwalk : (attributeLayout order).walk (attributeBytes order ifaLocal (octetsOf address) ++
      attributeBytes order ifaAddress (octetsOf address)) =
      ([attributeBytes order ifaLocal (octetsOf address),
        attributeBytes order ifaAddress (octetsOf address)], true) := by
    have hflatten := @Layout.walk_flatten _ (attributeLayout order)
      [attributeBytes order ifaLocal (octetsOf address),
        attributeBytes order ifaAddress (octetsOf address)] ?_
    · rw [List.flatten_cons, List.flatten_cons, List.flatten_nil, List.append_nil] at hflatten
      exact hflatten
    · intro entry hentry
      rcases List.mem_cons.mp hentry with rfl | hentry
      · exact fits_attributeBytes order _ address
      · rw [List.mem_singleton.mp hentry]
        exact fits_attributeBytes order _ address
  rw [localAddress, attributes_eq, hwalk, Option.bind_eq_bind, Option.bind_some]
  · dsimp only
    rw [List.find?_cons_of_pos, Option.bind_some, drop_attributeBytes, addressFrom_octetsOf]
    exact decide_eq_true (attributeKind_attributeBytes order (by decide) _)
  · rw [List.length_append, hlength, hlength, attributeHeader]
    omega

theorem length_changeTail (what : Address) (how : Change) (sequence : UInt32) :
    (changeTail order what how sequence).length = 28 + 2 * (octetsOf what.address).length := by
  simp only [changeTail, changeBody, List.length_append, ByteOrder.length_toBytes, length_attributeBytes,
    attributeHeader, List.length_cons, List.length_nil]
  omega

/-- A change says how long it is, and ends on a boundary. -/
theorem fits_change (what : Address) (how : Change) (sequence : UInt32) :
    (messageLayout order).Fits (change order what how sequence) := by
  have htail := length_changeTail order what how sequence
  have hoctets := length_octetsOf what.address
  have hlength : (change order what how sequence).length = 4 + (changeTail order what how sequence).length := by
    rw [change, List.length_append, ByteOrder.length_toBytes]
  have hsize : order.ofBytes ((change order what how sequence).take 4) =
      (change order what how sequence).length := by
    rw [hlength, change, List.take_left' (order.length_toBytes 4 _), Nat.min_eq_left (by omega),
      ByteOrder.ofBytes_toBytes]
    omega
  refine ⟨?_, hsize, ?_⟩
  · rw [hlength, htail]
    change header ≤ _
    rw [header]
    omega
  · rw [hlength, htail]
    change 4 ∣ _
    omega

theorem messageKind_change (what : Address) (how : Change) (sequence : UInt32) :
    messageKind order (change order what how sequence) = some (kindOf how) := by
  rw [messageKind_eq (fits_change order what how sequence).header, change,
    List.drop_left' (order.length_toBytes 4 _), changeTail, List.take_left' (order.length_toBytes 2 _),
    ByteOrder.ofBytes_toBytes]
  cases how <;> decide

theorem behind_change (what : Address) (how : Change) (sequence : UInt32) :
    behind (change order what how sequence) header = some (changeBody order what) := by
  have hheader : header ≤ (change order what how sequence).length :=
    (fits_change order what how sequence).header
  rw [behind, if_pos hheader, change, changeTail, ← List.append_assoc, ← List.append_assoc,
    List.drop_left']
  simp only [List.length_append, ByteOrder.length_toBytes, header]

/-- A change that puts an address on is read as that address on its interface. -/
theorem addressIn_change (what : Address) (sequence : UInt32) :
    addressIn order (change order what .add sequence) = some (some (what.address, what.interface)) := by
  have hlt : what.interface.toNat < 256 ^ 4 := what.interface.toNat_lt
  have hlength : (changeBody order what).length = 16 + 2 * (octetsOf what.address).length := by
    simp only [changeBody, List.length_append, ByteOrder.length_toBytes, length_attributeBytes,
      attributeHeader, List.length_cons, List.length_nil]
    omega
  have hdrop : (changeBody order what).drop 4 = order.toBytes 4 what.interface.toNat ++
      (attributeBytes order ifaLocal (octetsOf what.address) ++
        attributeBytes order ifaAddress (octetsOf what.address)) := rfl
  have hindex : slice (changeBody order what) 4 8 = some (order.toBytes 4 what.interface.toNat) := by
    rw [slice_eq (by omega : 4 + 4 ≤ (changeBody order what).length), hdrop,
      List.take_left' (order.length_toBytes 4 _)]
  have hrest : behind (changeBody order what) ifaddrmsg =
      some (attributeBytes order ifaLocal (octetsOf what.address) ++
        attributeBytes order ifaAddress (octetsOf what.address)) := by
    rw [behind, if_pos (by rw [hlength, ifaddrmsg]; omega), changeBody, ← List.append_assoc,
      List.drop_left']
    rw [List.length_append, ByteOrder.length_toBytes]
    rfl
  have hkind : kindOf .add = newAddress := rfl
  rw [addressIn, messageKind_change, Option.bind_eq_bind, Option.bind_some, hkind,
    if_neg (not_not.mpr rfl), behind_change]
  dsimp only
  rw [hindex, hrest]
  change (localAddress order _ (familyOf what.address)).bind _ = _
  rw [localAddress_changeBody, Option.bind_some, Option.map_some, ByteOrder.ofBytes_toBytes order hlt,
    UInt32.ofNat_toNat]

/-- Addresses that were written one behind the other are read in their order. -/
theorem addresses_change {bytes : List UInt8} (list : List (Address × UInt32))
    (hbytes : bytes = list.flatMap fun asked => change order asked.1 .add asked.2)
    (h : bytes.length < 2 ^ 63) :
    addresses order bytes = some (list.map fun asked => (asked.1.address, asked.1.interface)) := by
  have hwalk : (messageLayout order).walk bytes =
      (list.map fun asked => change order asked.1 .add asked.2, true) := by
    rw [hbytes, List.flatMap_def]
    refine Layout.walk_flatten fun message hmessage => ?_
    obtain ⟨asked, -, rfl⟩ := List.mem_map.mp hmessage
    exact fits_change order asked.1 .add asked.2
  have hread (asked : Address × UInt32) : addressIn order (change order asked.1 .add asked.2) =
      some (some (asked.1.address, asked.1.interface)) := addressIn_change order asked.1 asked.2
  rw [addresses, messages_eq h, hwalk, Option.bind_eq_bind, Option.bind_some]
  clear hwalk h hbytes
  induction list with
  | nil => rfl
  | cons asked rest ih =>
    rw [List.map_cons, collect, hread, ih]
    rfl

/-! ## Where the readers return -/

/-- An error message that carries the least `i32`. -/
def LeastCode (bytes : List UInt8) : Prop :=
  ∃ kind code, slice bytes 4 6 = some kind ∧ order.ofBytes kind = errorMessage ∧
    slice bytes header (header + 4) = some code ∧
    (BitVec.ofNat 32 (order.ofBytes code)).toInt = -2 ^ 31

theorem answer_isSome_iff (bytes : List UInt8) :
    (answer order bytes).isSome ↔ ¬ LeastCode order bytes := by
  unfold answer
  cases hkind : slice bytes 4 6 with
  | none =>
    refine iff_of_true rfl ?_
    rintro ⟨kind, code, hsome, -⟩
    rw [hkind] at hsome
    cases hsome
  | some kind =>
    dsimp only
    by_cases herror : order.ofBytes kind = errorMessage
    · rw [if_neg (not_not.mpr herror)]
      cases hcode : slice bytes header (header + 4) with
      | none =>
        refine iff_of_true rfl ?_
        rintro ⟨kind', code, -, -, hsome, -⟩
        rw [hcode] at hsome
        cases hsome
      | some code =>
        have hleast : LeastCode order bytes ↔
            (BitVec.ofNat 32 (order.ofBytes code)).toInt = -2 ^ 31 := by
          refine ⟨?_, fun hcode' => ⟨kind, code, hkind, herror, hcode, hcode'⟩⟩
          rintro ⟨kind', code', -, -, hsame, hcode'⟩
          rw [Option.some.inj (hcode.symm.trans hsame)]
          exact hcode'
        rw [hleast]
        dsimp only
        split
        · rename_i hzero
          refine iff_of_true rfl ?_
          rw [hzero]
          decide
        · rw [negate]
          split
          · rename_i hcode'
            exact iff_of_false Bool.false_ne_true (not_not.mpr hcode')
          · rename_i hcode'
            exact iff_of_true rfl hcode'
    · rw [if_pos herror]
      refine iff_of_true rfl ?_
      rintro ⟨kind', code, hsame, hother, -⟩
      rw [Option.some.inj (hkind.symm.trans hsame)] at herror
      exact herror hother

/-- **The messages read back, and every reader returns unless an error carries the least `i32`.** Addresses
written one behind the other are read in their order. Whatever the bytes, the walks end inside them, and
what is left to go wrong is the sign of an error code that has no positive counterpart. -/
theorem reads_iff (list : List (Address × UInt32)) (slice : Slice) :
    ((∀ written : Slice, written.bytes = list.flatMap (fun asked => change order asked.1 .add asked.2) →
        addresses order written.bytes =
          some (list.map fun asked => (asked.1.address, asked.1.interface))) ∧
      (messages order slice.bytes).isSome ∧ (addresses order slice.bytes).isSome ∧
      (defaults order slice.bytes).isSome ∧ (answer order slice.bytes).isSome) ↔
      ¬ LeastCode order slice.bytes := by
  have hwritten (written : Slice)
      (h : written.bytes = list.flatMap fun asked => change order asked.1 .add asked.2) :=
    addresses_change order list h written.fits
  have hmessages : (messages order slice.bytes).isSome := by
    rw [messages_eq slice.fits]
    rfl
  have haddresses : (addresses order slice.bytes).isSome :=
    collect_messages_isSome (fun _ => addressIn_isSome) slice.fits
  have hdefaults : (defaults order slice.bytes).isSome :=
    collect_messages_isSome (fun _ => routeIn_isSome) slice.fits
  rw [and_iff_right hwritten, and_iff_right hmessages, and_iff_right haddresses, and_iff_right hdefaults]
  exact answer_isSome_iff order slice.bytes

/-- An error message whose code is the least `i32`, as a machine with the low byte first has it. -/
def leastError : Slice where
  bytes := [20, 0, 0, 0, 2, 0, 0, 0, 1, 0, 0, 0, 0, 0, 0, 0, 0, 0, 0, 0x80]
  fits := by decide

/-- The negation of that code overflows. -/
theorem answer_leastError : ¬ ∀ (order : ByteOrder) (slice : Slice), (answer order slice.bytes).isSome := by
  intro h
  exact absurd (h .little leastError) (by decide)

end EkEk.Vrrp.Netlink
