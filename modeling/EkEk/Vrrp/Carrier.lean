import EkEk.Vrrp.Gateway

/-!
# Carrying the addresses a virtual router answers for

Reference: `crates/ek-ek-vrrp/src/carrier.rs`, `crates/ek-ek-vrrp/src/netlink.rs`.

The kernel is a parameter. It answers every address change and every frame as it likes, and may
answer the same question differently the next time it is asked, so each question carries its number.
-/

namespace EkEk.Vrrp

/-- What the operating system said, as far as anything here looks at it. -/
inductive IoError where
  | rawOsError (code : ℤ)
  | other
deriving DecidableEq, Repr

/-- What is asked of an address. -/
inductive Change where
  | add
  | remove
deriving DecidableEq, Repr

/-- One address this node carries while it holds the role. -/
structure Carried where
  address : IpAddr
  prefixLength : UInt8
deriving DecidableEq, Repr

/-- One address, as netlink addresses it. -/
structure Address where
  address : IpAddr
  prefixLength : UInt8
  interface : UInt32
deriving DecidableEq, Repr

/-- The two forms of a gratuitous ARP frame. -/
inductive Arp where
  | request
  | reply
deriving DecidableEq, Repr

/-- A frame that tells the segment where an address went. -/
inductive Frame where
  | arp (kind : Arp) (address : Ipv4Addr) (mac : List UInt8)
  | neighbor (address : BitVec 128) (mac : List UInt8)
deriving DecidableEq, Repr

/-- How the kernel answers the questions it is asked, by their number. -/
structure Kernel where
  change : ℕ → Change → Address → Except IoError Unit
  send : ℕ → Frame → Except IoError Unit

/-- A kernel that allows everything. -/
def Kernel.willing : Kernel where
  change := fun _ _ _ => .ok ()
  send := fun _ _ => .ok ()

/-- The interface the addresses are put on. -/
structure Interface where
  index : UInt32
  mac : List UInt8
deriving DecidableEq, Repr

/-- The errno the kernel answers when an address is not on the interface. -/
def notThere : ℤ := 99

/-- How many times a move is announced. -/
def announcements : ℕ := 5

/-- How long between them. -/
def gap : Duration := 100000000

/-- The interface, the addresses and what is still to be announced. -/
structure Carrier where
  interface : Interface
  addresses : List Carried
  /-- When the next announcement is due, and how many are left after it. -/
  due : Option (Instant × ℕ)
  silent : Bool
  /-- How many questions the kernel has been asked. -/
  asked : ℕ
deriving DecidableEq, Repr

namespace Carrier

/-- Ask one question after the other, and stop at the first refusal. -/
def askEach {α : Type} (ask : ℕ → α → Except IoError Unit) :
    ℕ → List α → ℕ × Except IoError Unit
  | asked, [] => (asked, .ok ())
  | asked, question :: rest =>
    match ask asked question with
    | .ok () => askEach ask (asked + 1) rest
    | .error error => (asked + 1, .error error)

/-- One address, as netlink addresses it. -/
def address (carrier : Carrier) (carried : Carried) : Address :=
  ⟨carried.address, carried.prefixLength, carrier.interface.index⟩

/-- The frames that announce one address. Both forms of ARP, for stacks that act on only one. -/
def framesOf (carrier : Carrier) (carried : Carried) : List Frame :=
  match carried.address with
  | .v4 address =>
    [.arp .request address carrier.interface.mac, .arp .reply address carrier.interface.mac]
  | .v6 address => [.neighbor address carrier.interface.mac]

/-- Tell the segment about every address, once. -/
def announce (kernel : Kernel) (carrier : Carrier) : Carrier × Except IoError Unit :=
  if carrier.silent then (carrier, .ok ())
  else
    let answers := askEach kernel.send carrier.asked (carrier.addresses.flatMap carrier.framesOf)
    ({ carrier with asked := answers.1 }, answers.2)

/-- Put every address on the interface and announce the first time. -/
def take (kernel : Kernel) (carrier : Carrier) (now : Instant) : Carrier × Except IoError Unit :=
  let answers := askEach (fun asked address => kernel.change asked .add address) carrier.asked
    (carrier.addresses.map carrier.address)
  let added := { carrier with asked := answers.1 }
  match answers.2 with
  | .error error => (added, .error error)
  | .ok () =>
    match added.announce kernel with
    | (told, .error error) => (told, .error error)
    | (told, .ok ()) => ({ told with due := some (now + gap, announcements - 1) }, .ok ())

/-- Take every address off the interface. One that was not there is not a failure. -/
def dropAll (kernel : Kernel) (carrier : Carrier) : Carrier × Except IoError Unit :=
  let remove := fun asked address =>
    match kernel.change asked .remove address with
    | .ok () => .ok ()
    | .error error => if error = .rawOsError notThere then .ok () else .error error
  let answers := askEach remove carrier.asked (carrier.addresses.map carrier.address)
  ({ carrier with due := none, asked := answers.1 }, answers.2)

/-- Send an announcement when one is due. -/
def tick (kernel : Kernel) (carrier : Carrier) (now : Instant) : Carrier × Except IoError Unit :=
  match carrier.due with
  | none => (carrier, .ok ())
  | some (moment, left) =>
    if now < moment then (carrier, .ok ())
    else
      match carrier.announce kernel with
      | (told, .error error) => (told, .error error)
      | (told, .ok ()) =>
        ({ told with due := if left > 1 then some (now + gap, left - 1) else none }, .ok ())

end Carrier

end EkEk.Vrrp
