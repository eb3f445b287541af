import EkEk.Addresses
import EkEk.Dataplane.Listeners
import EkEk.Lib.ByteOrder
import EkEk.Lib.PrefixFree
import EkEk.Text

/-!
# Telling a backend who is on the other end

Reference: `crates/ek-ek-dataplane/src/proxyproto.rs`.

A header is a line of text or a binary record, and the bytes of the client follow it at once. The backend
has to know from the bytes alone which of the two it is, what it states, and where it ends
(`headers_read`).
-/

namespace EkEk.Dataplane

namespace ProxyProto

/-- The bytes a binary header opens with. -/
def signature : List UInt8 := [0x0D, 0x0A, 0x0D, 0x0A, 0x00, 0x0D, 0x0A, 0x51, 0x55, 0x49, 0x54, 0x0A]

/-- Version 2, and the addresses that follow are the client's. -/
def proxy : UInt8 := 0x21

/-- Version 2, and no address follows. -/
def localCommand : UInt8 := 0x20

/-- TCP over IPv4. -/
def tcp4 : UInt8 := 0x11

/-- TCP over IPv6. -/
def tcp6 : UInt8 := 0x21

/-- Neither family nor protocol. -/
def unspec : UInt8 := 0x00

/-- A header ready to be written, and whether it names the client. -/
structure Header where
  bytes : List UInt8
  stated : Bool
deriving DecidableEq, Repr

/-- What a header states about the two ends. -/
inductive Ends where
  | untold
  | four (client proxy : Ipv4Addr × UInt16)
  | six (client proxy : BitVec 128 × UInt16)
deriving DecidableEq, Repr

/-- Which case a connection is. -/
def pair : SocketAddr → SocketAddr → Ends
  | ⟨.v4 client, clientPort⟩, ⟨.v4 proxy, proxyPort⟩ => .four (client, clientPort) (proxy, proxyPort)
  | ⟨.v6 client, clientPort⟩, ⟨.v6 proxy, proxyPort⟩ => .six (client, clientPort) (proxy, proxyPort)
  | _, _ => .untold

/-- The line that states two ends of a family. -/
def line (family : String) (client proxy : IpAddr) (clientPort proxyPort : UInt16) : String :=
  s!"PROXY {family} {client.display} {proxy.display} {clientPort.toNat} {proxyPort.toNat}\r\n"

/-- The text form. -/
def v1 : Ends → List UInt8
  | .untold => Text.bytes "PROXY UNKNOWN\r\n"
  | .four client proxy => Text.bytes (line "TCP4" (.v4 client.1) (.v4 proxy.1) client.2 proxy.2)
  | .six client proxy => Text.bytes (line "TCP6" (.v6 client.1) (.v6 proxy.1) client.2 proxy.2)

/-- The binary form. -/
def v2 : Ends → List UInt8
  | .untold => signature ++ [localCommand, unspec] ++ ByteOrder.bigEndian 2 0
  | .four client server =>
    signature ++ [proxy, tcp4] ++ ByteOrder.bigEndian 2 12 ++ client.1.octets ++ server.1.octets ++
      ByteOrder.bigEndian 2 client.2.toNat ++ ByteOrder.bigEndian 2 server.2.toNat
  | .six client server =>
    signature ++ [proxy, tcp6] ++ ByteOrder.bigEndian 2 36 ++ ByteOrder.bigEndian 16 client.1.toNat ++
      ByteOrder.bigEndian 16 server.1.toNat ++ ByteOrder.bigEndian 2 client.2.toNat ++
      ByteOrder.bigEndian 2 server.2.toNat

/-- The header for a format and a reading of the two ends. -/
def write (format : ProxyProtocol) (ends : Ends) : Option Header :=
  match format with
  | .disabled => none
  | .v1 => some ⟨v1 ends, ends ≠ .untold⟩
  | .v2 => some ⟨v2 ends, ends ≠ .untold⟩

/-- The header of a connection. -/
def header (format : ProxyProtocol) (client proxy : SocketAddr) : Option Header :=
  write format (pair client proxy)

/-- The header of a connection whose ends cannot be read. -/
def unknown (format : ProxyProtocol) : Option Header := write format .untold

/-! ## The text form -/

theorem isAscii_of_within {most : ℕ} {s : String} (h : Within most s.toList) : Text.IsAscii s := by
  have hall : (addressChars.all fun c => c.toNat < 128) = true := by decide
  exact fun c hc => of_decide_eq_true (List.all_eq_true.mp hall c (h.2 c hc))

/-- The text of an address with the blank behind it. -/
def addressField (address : IpAddr) : List UInt8 := Text.bytes address.display ++ [32]

/-- The text of a port with what is behind it. -/
def portField (stop : UInt8) (port : UInt16) : List UInt8 := Text.bytes (toString port.toNat) ++ [stop]

theorem within_port (port : UInt16) : Within 5 (toString port.toNat).toList := by
  have := port.toNat_lt
  rw [Nat.toString_eq_repr, Nat.repr_eq_ofList_toDigits, String.toList_ofList]
  exact within_toDigits (by decide) (by decide) (by decide) (by omega)

/-- What stands behind a field is not in it. -/
theorem notMem_bytes {most : ℕ} {s : String} (h : Within most s.toList) {c : Char} (hc : c.toNat < 128)
    (hother : c ∉ addressChars) : UInt8.ofNat c.toNat ∉ Text.bytes s := by
  rw [Text.mem_bytes_of_ascii (isAscii_of_within h) hc]
  exact fun hmem => hother (h.2 c hmem)

/-- An address in text ends where its blank stands. -/
theorem prefixFree_addressField : PrefixFree addressField :=
  .terminated (Text.bytes_injective.comp IpAddr.display_injective) fun address =>
    notMem_bytes (c := ' ') address.within_display (by decide) (by decide)

theorem prefixFree_portField {c : Char} (hc : c.toNat < 128) (hother : c ∉ addressChars) :
    PrefixFree (portField (UInt8.ofNat c.toNat)) := by
  refine .terminated (fun port port' h => ?_) fun port => notMem_bytes (within_port port) hc hother
  have htext := congrArg String.toList (Text.bytes_injective h)
  rw [Nat.toString_eq_repr, Nat.toString_eq_repr, Nat.repr_eq_ofList_toDigits, Nat.repr_eq_ofList_toDigits,
    String.toList_ofList, String.toList_ofList] at htext
  exact UInt16.toNat_inj.mp (toDigits_injective (by decide) (by decide) htext)

/-- The fields of a line. -/
def fields (ends : (IpAddr × IpAddr) × UInt16 × UInt16) : List UInt8 :=
  (addressField ends.1.1 ++ addressField ends.1.2) ++ (portField 32 ends.2.1 ++ portField 13 ends.2.2)

/-- The four fields of a line can be told from what follows. -/
theorem prefixFree_fields : PrefixFree fields :=
  (prefixFree_addressField.append prefixFree_addressField).append
    ((prefixFree_portField (c := ' ') (by decide) (by decide)).append
      (prefixFree_portField (c := '\r') (by decide) (by decide)))

/-- A line is fixed texts around its fields. -/
theorem bytes_line (family : String) (client proxy : IpAddr) (clientPort proxyPort : UInt16) :
    Text.bytes (line family client proxy clientPort proxyPort) =
      (Text.bytes "PROXY " ++ Text.bytes family ++ [32]) ++
        (fields ((client, proxy), clientPort, proxyPort) ++ [10]) := by
  have hline : line family client proxy clientPort proxyPort = "PROXY " ++ family ++ " " ++ client.display ++
      " " ++ proxy.display ++ " " ++ toString clientPort.toNat ++ " " ++ toString proxyPort.toNat ++ "\r\n" :=
    rfl
  have hblank : Text.bytes " " = [32] := by decide
  have hend : Text.bytes "\r\n" = [13, 10] := by decide
  rw [hline]
  simp only [Text.bytes_append, hblank, hend, fields, addressField, portField, List.append_assoc,
    List.cons_append, List.nil_append]

theorem v1_untold : v1 .untold = [80, 82, 79, 88, 89, 32, 85, 78, 75, 78, 79, 87, 78, 13, 10] := by decide

theorem v1_four (client proxy : Ipv4Addr × UInt16) : v1 (.four client proxy) =
    [80, 82, 79, 88, 89, 32, 84, 67, 80, 52, 32] ++
      (fields ((.v4 client.1, .v4 proxy.1), client.2, proxy.2) ++ [10]) := by
  rw [v1, bytes_line]
  rfl

theorem v1_six (client proxy : BitVec 128 × UInt16) : v1 (.six client proxy) =
    [80, 82, 79, 88, 89, 32, 84, 67, 80, 54, 32] ++
      (fields ((.v6 client.1, .v6 proxy.1), client.2, proxy.2) ++ [10]) := by
  rw [v1, bytes_line]
  rfl

/-- What comes first tells the three cases apart, and the fields of a line end where they say. -/
theorem prefixFree_v1 : PrefixFree v1 := by
  intro x y rest rest' h
  cases x <;> cases y
  case untold.untold => exact ⟨rfl, List.append_cancel_left h⟩
  case four.four client proxy client' proxy' =>
    rw [v1_four, v1_four] at h
    obtain ⟨heq, hrest⟩ := (prefixFree_fields.concat [10]).cons _ _ _ _ _ h
    simp only [Prod.mk.injEq, IpAddr.v4.injEq] at heq
    obtain ⟨⟨haddress, haddress'⟩, hport, hport'⟩ := heq
    rw [Prod.ext haddress hport, Prod.ext haddress' hport']
    exact ⟨rfl, hrest⟩
  case six.six client proxy client' proxy' =>
    rw [v1_six, v1_six] at h
    obtain ⟨heq, hrest⟩ := (prefixFree_fields.concat [10]).cons _ _ _ _ _ h
    simp only [Prod.mk.injEq, IpAddr.v6.injEq] at heq
    obtain ⟨⟨haddress, haddress'⟩, hport, hport'⟩ := heq
    rw [Prod.ext haddress hport, Prod.ext haddress' hport']
    exact ⟨rfl, hrest⟩
  all_goals simp [v1_untold, v1_four, v1_six] at h

/-! ## The binary form -/

theorem bigEndian_injOn {width m n : ℕ} (hm : m < 256 ^ width) (hn : n < 256 ^ width)
    (h : ByteOrder.bigEndian width m = ByteOrder.bigEndian width n) : m = n := by
  rw [← ByteOrder.value_bigEndian hm, h, ByteOrder.value_bigEndian hn]

theorem prefixFree_octets : PrefixFree Ipv4Addr.octets := by
  refine .of_length (fun x y h => ?_) (n := 4) fun _ => rfl
  obtain ⟨a, b, c, d⟩ := x
  obtain ⟨a', b', c', d'⟩ := y
  simpa [Ipv4Addr.octets] using h

theorem prefixFree_address : PrefixFree fun address : BitVec 128 => ByteOrder.bigEndian 16 address.toNat := by
  refine .of_length (fun x y h => ?_) fun _ => ByteOrder.length_bigEndian 16 _
  exact BitVec.eq_of_toNat_eq (bigEndian_injOn (x.isLt.trans_le (by decide)) (y.isLt.trans_le (by decide)) h)

theorem prefixFree_port : PrefixFree fun port : UInt16 => ByteOrder.bigEndian 2 port.toNat := by
  refine .of_length (fun x y h => ?_) fun _ => ByteOrder.length_bigEndian 2 _
  exact UInt16.toNat_inj.mp
    (bigEndian_injOn (x.toNat_lt.trans_le (by decide)) (y.toNat_lt.trans_le (by decide)) h)

theorem v2_four (client server : Ipv4Addr × UInt16) : v2 (.four client server) =
    (signature ++ [proxy, tcp4] ++ ByteOrder.bigEndian 2 12) ++ ((client.1.octets ++ server.1.octets) ++
      (ByteOrder.bigEndian 2 client.2.toNat ++ ByteOrder.bigEndian 2 server.2.toNat)) := by
  rw [v2]
  simp only [List.append_assoc]

theorem v2_six (client server : BitVec 128 × UInt16) : v2 (.six client server) =
    (signature ++ [proxy, tcp6] ++ ByteOrder.bigEndian 2 36) ++
      ((ByteOrder.bigEndian 16 client.1.toNat ++ ByteOrder.bigEndian 16 server.1.toNat) ++
        (ByteOrder.bigEndian 2 client.2.toNat ++ ByteOrder.bigEndian 2 server.2.toNat)) := by
  rw [v2]
  simp only [List.append_assoc]

/-- No binary header begins another one. -/
theorem prefixFree_v2 : PrefixFree v2 := by
  intro x y rest rest' h
  cases x <;> cases y
  case untold.untold => exact ⟨rfl, List.append_cancel_left h⟩
  case four.four client server client' server' =>
    rw [v2_four, v2_four] at h
    obtain ⟨heq, hrest⟩ := ((prefixFree_octets.append prefixFree_octets).append
      (prefixFree_port.append prefixFree_port)).cons _
        ((client.1, server.1), client.2, server.2) ((client'.1, server'.1), client'.2, server'.2) _ _ h
    simp only [Prod.mk.injEq] at heq
    obtain ⟨⟨haddress, haddress'⟩, hport, hport'⟩ := heq
    rw [Prod.ext haddress hport, Prod.ext haddress' hport']
    exact ⟨rfl, hrest⟩
  case six.six client server client' server' =>
    rw [v2_six, v2_six] at h
    obtain ⟨heq, hrest⟩ := ((prefixFree_address.append prefixFree_address).append
      (prefixFree_port.append prefixFree_port)).cons _
        ((client.1, server.1), client.2, server.2) ((client'.1, server'.1), client'.2, server'.2) _ _ h
    simp only [Prod.mk.injEq] at heq
    obtain ⟨⟨haddress, haddress'⟩, hport, hport'⟩ := heq
    rw [Prod.ext haddress hport, Prod.ext haddress' hport']
    exact ⟨rfl, hrest⟩
  all_goals simp [v2, signature, proxy, localCommand, tcp4, tcp6, unspec] at h

/-! ## Both forms -/

/-- A line begins with a `P`. -/
theorem head_v1 (ends : Ends) : ∃ later, v1 ends = 80 :: later := by
  cases ends with
  | untold => exact ⟨_, v1_untold⟩
  | four client proxy => exact ⟨_, v1_four client proxy⟩
  | six client proxy => exact ⟨_, v1_six client proxy⟩

/-- A binary header begins with a carriage return. -/
theorem head_v2 (ends : Ends) : ∃ later, v2 ends = 13 :: later := by
  cases ends <;> exact ⟨_, rfl⟩

/-- What a header states, of a connection whose ends may not be readable. -/
def told : Option (SocketAddr × SocketAddr) → Ends
  | some (peer, ours) => pair peer ours
  | none => .untold

/-- The header a connection opens with, if its frontend sends one. -/
def announced (format : ProxyProtocol) : Option (SocketAddr × SocketAddr) → Option Header
  | some (peer, ours) => header format peer ours
  | none => unknown format

theorem announced_eq (format : ProxyProtocol) (ends : Option (SocketAddr × SocketAddr)) :
    announced format ends = write format (told ends) := by
  cases ends <;> rfl

/-- A header is written in the format that was chosen, or not at all. -/
theorem write_eq_some {format : ProxyProtocol} {ends : Ends} {head : Header} :
    write format ends = some head ↔
      format = .v1 ∧ head = ⟨v1 ends, ends ≠ .untold⟩ ∨ format = .v2 ∧ head = ⟨v2 ends, ends ≠ .untold⟩ := by
  cases format <;> simp [write, eq_comm]

/-- What a backend reads says which form the header has, what it states of both ends, and where the bytes of
the client begin, whatever those are. -/
theorem headers_read {format format' : ProxyProtocol} {ends ends' : Option (SocketAddr × SocketAddr)}
    {head head' : Header} (h : announced format ends = some head) (h' : announced format' ends' = some head')
    {rest rest' : List UInt8} (hread : head.bytes ++ rest = head'.bytes ++ rest') :
    format = format' ∧ told ends = told ends' ∧ rest = rest' := by
  rw [announced_eq, write_eq_some] at h h'
  rcases h with ⟨rfl, rfl⟩ | ⟨rfl, rfl⟩ <;> rcases h' with ⟨rfl, rfl⟩ | ⟨rfl, rfl⟩
  · exact ⟨rfl, prefixFree_v1 _ _ _ _ hread⟩
  · obtain ⟨later, hlater⟩ := head_v1 (told ends)
    obtain ⟨later', hlater'⟩ := head_v2 (told ends')
    simp [hlater, hlater'] at hread
  · obtain ⟨later, hlater⟩ := head_v2 (told ends)
    obtain ⟨later', hlater'⟩ := head_v1 (told ends')
    simp [hlater, hlater'] at hread
  · exact ⟨rfl, prefixFree_v2 _ _ _ _ hread⟩

/-- A mail server behind one header is not told apart from itself. -/
theorem headers_read_smtp :
    ProxyProtocol.v1 = .v1 ∧
      told (some (⟨.v4 ⟨10, 0, 0, 7⟩, 40000⟩, ⟨.v4 ⟨10, 0, 0, 1⟩, 25⟩)) =
        .four (⟨10, 0, 0, 7⟩, 40000) (⟨10, 0, 0, 1⟩, 25) ∧ ([69, 72] : List UInt8) = [69, 72] :=
  @headers_read .v1 .v1 (some (⟨.v4 ⟨10, 0, 0, 7⟩, 40000⟩, ⟨.v4 ⟨10, 0, 0, 1⟩, 25⟩))
    (some (⟨.v4 ⟨10, 0, 0, 7⟩, 40000⟩, ⟨.v4 ⟨10, 0, 0, 1⟩, 25⟩)) _ _ rfl rfl _ _ rfl

/-! ## Where a header ends -/

/-- Bytes that end no line. -/
def Plain (most : ℕ) (text : List UInt8) : Prop := text.length ≤ most ∧ 13 ∉ text ∧ 10 ∉ text

instance (most : ℕ) (text : List UInt8) : Decidable (Plain most text) :=
  inferInstanceAs (Decidable (text.length ≤ most ∧ 13 ∉ text ∧ 10 ∉ text))

theorem Plain.append {most more : ℕ} {text later : List UInt8} (h : Plain most text)
    (hlater : Plain more later) :
    Plain (most + more) (text ++ later) := by
  refine ⟨?_, ?_, ?_⟩
  · rw [List.length_append]
    exact Nat.add_le_add h.1 hlater.1
  · rw [List.mem_append]
    exact not_or_intro h.2.1 hlater.2.1
  · rw [List.mem_append]
    exact not_or_intro h.2.2 hlater.2.2

theorem plain_bytes {most : ℕ} {s : String} (h : Within most s.toList) : Plain most (Text.bytes s) := by
  refine ⟨?_, notMem_bytes (c := '\r') h (by decide) (by decide),
    notMem_bytes (c := '\n') h (by decide) (by decide)⟩
  rw [Text.length_bytes_of_ascii (isAscii_of_within h)]
  exact h.1

theorem plain_blank : Plain 1 [32] := by decide

theorem plain_addressField (address : IpAddr) : Plain 40 (addressField address) :=
  (plain_bytes address.within_display).append plain_blank

/-- The fields of a line up to its end. -/
theorem fields_eq (ends : (IpAddr × IpAddr) × UInt16 × UInt16) :
    ∃ text, fields ends = text ++ [13] ∧ Plain 91 text := by
  refine ⟨(addressField ends.1.1 ++ addressField ends.1.2) ++
    (portField 32 ends.2.1 ++ Text.bytes (toString ends.2.2.toNat)), ?_, ?_⟩
  · rw [fields, portField, portField]
    simp only [List.append_assoc]
  · have hport : Plain 6 (portField 32 ends.2.1) :=
      (plain_bytes (within_port ends.2.1)).append plain_blank
    exact ((plain_addressField ends.1.1).append (plain_addressField ends.1.2)).append
      (hport.append (plain_bytes (within_port ends.2.2)))

/-- Stated addresses end the line they are on. -/
theorem fields_ends {front : List UInt8} (hfront : Plain 11 front)
    (stated : (IpAddr × IpAddr) × UInt16 × UInt16) :
    ∃ text, front ++ (fields stated ++ [10]) = text ++ [13, 10] ∧ Plain 105 text := by
  obtain ⟨text, heq, htext⟩ := fields_eq stated
  refine ⟨front ++ text, ?_, ?_⟩
  · rw [heq]
    simp only [List.append_assoc, List.cons_append, List.nil_append]
  · obtain ⟨hlength, hplain⟩ := hfront.append htext
    exact ⟨hlength.trans (by decide), hplain⟩

/-- A text header is one line. -/
theorem v1_ends (ends : Ends) : ∃ text, v1 ends = text ++ [13, 10] ∧ Plain 105 text := by
  cases ends with
  | untold => exact ⟨[80, 82, 79, 88, 89, 32, 85, 78, 75, 78, 79, 87, 78], v1_untold, by decide⟩
  | four client proxy =>
    rw [v1_four]
    exact fields_ends (by decide) _
  | six client proxy =>
    rw [v1_six]
    exact fields_ends (by decide) _

/-- The length a binary header states. -/
theorem stated_length {front body : List UInt8} (hfront : front.length = 14) {n : ℕ} (hn : n < 65536)
    (hbody : body.length = n) : (front ++ ByteOrder.bigEndian 2 n ++ body).length =
      16 + ByteOrder.value (((front ++ ByteOrder.bigEndian 2 n ++ body).drop 14).take 2) := by
  have hwidth := ByteOrder.length_bigEndian 2 n
  rw [List.length_append, List.length_append, hfront, hwidth, hbody, List.append_assoc,
    List.drop_left' hfront, List.take_left' hwidth, ByteOrder.value_bigEndian (by simpa using hn)]

/-- A binary header states the length of what follows its first sixteen bytes. -/
theorem length_v2 (ends : Ends) :
    (v2 ends).length = 16 + ByteOrder.value (((v2 ends).drop 14).take 2) := by
  cases ends with
  | untold => decide
  | four client server =>
    rw [v2_four]
    exact stated_length rfl (by decide) (by simp [Ipv4Addr.octets, ByteOrder.length_bigEndian])
  | six client server =>
    rw [v2_six]
    exact stated_length rfl (by decide) (by simp [ByteOrder.length_bigEndian])

/-- A text header is one line, no longer than a receiver has to take, and a binary one states the length of
what follows its first sixteen bytes. -/
theorem headers_end (ends : Option (SocketAddr × SocketAddr)) :
    (∀ head, announced .v1 ends = some head →
      ∃ text, head.bytes = text ++ [13, 10] ∧ Plain 105 text) ∧
      ∀ head, announced .v2 ends = some head →
        head.bytes.length = 16 + ByteOrder.value ((head.bytes.drop 14).take 2) := by
  constructor
  · intro head h
    rw [announced_eq] at h
    obtain rfl := Option.some.inj h
    exact v1_ends (told ends)
  · intro head h
    rw [announced_eq] at h
    obtain rfl := Option.some.inj h
    exact length_v2 (told ends)

end ProxyProto

end EkEk.Dataplane
