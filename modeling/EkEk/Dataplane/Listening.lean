import EkEk.Dataplane.Listeners
import EkEk.Dataplane.Probe
import EkEk.Lib.ByteOrder
import Mathlib.Data.Nat.Digits.Lemmas

/-!
# Reading the table of sockets

Reference: `listening_in` and `read_address` of `crates/ek-ek-dataplane/src/server.rs`.

A process says it is serving once the kernel has its listeners in a table of sockets. The table is text,
with the words of an address printed low byte first. `listens_tableOf_iff` is that what the kernel writes
of its sockets is what is read, and `listeningIn_covered_iff` says when the socket that is found is one
that accepts connections to the address asked for.
-/

namespace EkEk.Dataplane.Listening

/-! ## Numbers in hex -/

/-- The number some digits spell, as long as it is below a limit. -/
def fromDigits (limit : ℕ) (digits : List Char) : Option ℕ :=
  digits.foldlM (fun value c => do
    let digit ← toDigit c
    if value * 16 + digit < limit then some (value * 16 + digit) else none) 0

/-- Read a number in hex that is below a limit. A sign in front of the digits is read over. -/
def fromStrRadix (limit : ℕ) : List Char → Option ℕ
  | [] => none
  | ['+'] => none
  | '+' :: digits => fromDigits limit digits
  | digits => fromDigits limit digits

/-- The number some digits are, the high one first. -/
def numberOf (digits : List ℕ) : ℕ := Nat.ofDigits 16 digits.reverse

/-- A text that spells a number in hex, with or without a sign in front. -/
def Spells (text : List Char) (n : ℕ) : Prop :=
  ∃ body ≠ [], (text = body ∨ text = '+' :: body) ∧
    ∃ digits, body.mapM toDigit = some digits ∧ numberOf digits = n

theorem numberOf_concat (front : List ℕ) (last : ℕ) :
    numberOf (front ++ [last]) = numberOf front * 16 + last := by
  rw [numberOf, List.reverse_append, List.reverse_singleton, List.singleton_append, Nat.ofDigits_cons,
    numberOf]
  omega

/-- The digits are read one by one, and only a number that is too large is refused. -/
theorem fromDigits_eq_some {limit n : ℕ} (hlimit : 0 < limit) {text : List Char} :
    fromDigits limit text = some n ↔
      ∃ digits, text.mapM toDigit = some digits ∧ numberOf digits = n ∧ n < limit := by
  induction text using List.reverseRecOn generalizing n with
  | nil =>
    show some 0 = some n ↔ _
    constructor
    · intro h
      obtain rfl := Option.some.inj h
      exact ⟨[], rfl, rfl, hlimit⟩
    · rintro ⟨digits, hdigits, rfl, -⟩
      obtain rfl := Option.some.inj hdigits
      rfl
  | append_singleton text c ih =>
    have hstep : fromDigits limit (text ++ [c]) = (fromDigits limit text).bind fun value =>
        (toDigit c).bind fun digit =>
          if value * 16 + digit < limit then some (value * 16 + digit) else none := by
      rw [fromDigits, List.foldlM_append, fromDigits]
      simp
    have hsplit : ∀ digits, (text ++ [c]).mapM toDigit = some digits ↔
        ∃ front last,
          text.mapM toDigit = some front ∧ toDigit c = some last ∧ front ++ [last] = digits := by
      intro digits
      simp [List.mapM_append, Option.bind_eq_some_iff]
    rw [hstep]
    simp only [Option.bind_eq_some_iff, ih, hsplit]
    constructor
    · rintro ⟨value, ⟨front, hfront, rfl, -⟩, last, hlast, hvalue⟩
      split at hvalue
      · rename_i hfits
        obtain rfl := Option.some.inj hvalue
        exact ⟨_, ⟨front, last, hfront, hlast, rfl⟩, numberOf_concat front last, hfits⟩
      · cases hvalue
    · rintro ⟨_, ⟨front, last, hfront, hlast, rfl⟩, rfl, hfits⟩
      rw [numberOf_concat] at hfits ⊢
      exact ⟨_, ⟨front, hfront, rfl, by omega⟩, last, hlast, if_pos hfits⟩

theorem fromStrRadix_signed {rest : List Char} (limit : ℕ) (h : rest ≠ []) :
    fromStrRadix limit ('+' :: rest) = fromDigits limit rest := by
  cases rest with
  | nil => exact absurd rfl h
  | cons _ _ => rfl

theorem fromStrRadix_unsigned {first : Char} (limit : ℕ) (h : first ≠ '+') (rest : List Char) :
    fromStrRadix limit (first :: rest) = fromDigits limit (first :: rest) := by
  rw [fromStrRadix]
  · exact List.cons_ne_nil _ _
  · exact fun heq => h (List.cons.inj heq).1
  · exact fun _ heq => h (List.cons.inj heq).1

theorem toDigit_sign : toDigit '+' = none := by decide

/-- A sign is no digit. -/
theorem mapM_toDigit_signed (rest : List Char) : ('+' :: rest).mapM toDigit = none := by
  rw [List.mapM_cons, toDigit_sign]
  rfl

/-- A number is read exactly where it is spelled and below the limit. -/
theorem fromStrRadix_eq_some {limit n : ℕ} (hlimit : 0 < limit) {text : List Char} :
    fromStrRadix limit text = some n ↔ Spells text n ∧ n < limit := by
  constructor
  · intro h
    have hbody : ∀ {body}, body ≠ [] → (text = body ∨ text = '+' :: body) →
        fromDigits limit body = some n → Spells text n ∧ n < limit := by
      intro body hne htext hread
      obtain ⟨digits, hdigits, rfl, hfits⟩ := (fromDigits_eq_some hlimit).mp hread
      exact ⟨⟨body, hne, htext, digits, hdigits, rfl⟩, hfits⟩
    cases text with
    | nil => cases h
    | cons first rest =>
      by_cases hsign : first = '+'
      · subst hsign
        by_cases hrest : rest = []
        · subst hrest
          cases h
        · rw [fromStrRadix_signed limit hrest] at h
          exact hbody hrest (.inr rfl) h
      · rw [fromStrRadix_unsigned limit hsign] at h
        exact hbody (List.cons_ne_nil _ _) (.inl rfl) h
  · rintro ⟨⟨body, hne, htext, digits, hdigits, rfl⟩, hfits⟩
    rw [← (fromDigits_eq_some hlimit).mpr ⟨digits, hdigits, rfl, hfits⟩]
    rcases htext with rfl | rfl
    · obtain ⟨first, rest, rfl⟩ := List.exists_cons_of_ne_nil hne
      refine fromStrRadix_unsigned limit (fun hsign => ?_) rest
      rw [hsign, mapM_toDigit_signed] at hdigits
      cases hdigits
    · exact fromStrRadix_signed limit hne

/-! ## Addresses -/

/-- The address of four octets. -/
def ofOctets (octets : List UInt8) : Ipv4Addr :=
  ⟨octets.getD 0 0, octets.getD 1 0, octets.getD 2 0, octets.getD 3 0⟩

/-- The octets of a word, which is printed with its last octet first. -/
def octetsOf (word : ℕ) : List UInt8 := ByteOrder.little.toBytes 4 word

/-- Read a word of an address. -/
def readWord (chunk : List UInt8) : Option ℕ := do
  let text ← Text.fromUtf8 chunk
  fromStrRadix (2 ^ 32) text.toList

/-- One of the chunks of so many bytes each. -/
def chunkAt (size : ℕ) (bytes : List UInt8) (index : ℕ) : List UInt8 :=
  (bytes.drop (size * index)).take size

/-- Read one address out of a kernel table's hex form. -/
def readAddress (hex : String) : Option IpAddr :=
  if hex.utf8ByteSize = 8 then
    (fromStrRadix (2 ^ 32) hex.toList).map fun word => .v4 (ofOctets (octetsOf word))
  else if hex.utf8ByteSize = 32 then
    ((List.range 4).mapM fun index => readWord (chunkAt 8 (Text.bytes hex) index)).map
      fun words => .v6 (.ofNat 128 (ByteOrder.value (words.flatMap octetsOf)))
  else none

/-- A text of eight bytes that spells a word. -/
structure Word (text : String) (word : ℕ) : Prop where
  length : text.utf8ByteSize = 8
  spells : Spells text.toList word
  fits : word < 2 ^ 32

/-- The text of an address: one word, or four of them. -/
inductive Address : String → IpAddr → Prop
  | v4 {text : String} {word : ℕ} (h : Word text word) :
      Address text (.v4 (ofOctets (octetsOf word)))
  | v6 {a b c d : String} {k l m n : ℕ} (ha : Word a k) (hb : Word b l) (hc : Word c m)
      (hd : Word d n) : Address (a ++ (b ++ (c ++ d)))
        (.v6 (.ofNat 128 (ByteOrder.value ([k, l, m, n].flatMap octetsOf))))

theorem length_bytes (s : String) : (Text.bytes s).length = s.utf8ByteSize := by
  simp [Text.bytes]

theorem readWord_eq_some {chunk : List UInt8} (hlength : chunk.length = 8) {word : ℕ} :
    readWord chunk = some word ↔ ∃ text, chunk = Text.bytes text ∧ Word text word := by
  have hread : readWord chunk = some word ↔
      ∃ text, Text.fromUtf8 chunk = some text ∧ fromStrRadix (2 ^ 32) text.toList = some word :=
    Option.bind_eq_some_iff
  simp only [hread, Text.fromUtf8_eq_some, fromStrRadix_eq_some (Nat.two_pow_pos 32)]
  constructor
  · rintro ⟨text, rfl, hspells, hfits⟩
    exact ⟨text, rfl, (length_bytes text).symm.trans hlength, hspells, hfits⟩
  · rintro ⟨text, rfl, hword⟩
    exact ⟨text, rfl, hword.spells, hword.fits⟩

section

variable {size : ℕ} {bytes first : List UInt8}

/-- Four chunks are all there is. -/
theorem chunks_flatten (h : bytes.length = size * 4) : chunkAt size bytes 0 ++
    (chunkAt size bytes 1 ++ (chunkAt size bytes 2 ++ chunkAt size bytes 3)) = bytes := by
  have hcut : ∀ index,
      chunkAt size bytes index ++ bytes.drop (size * (index + 1)) = bytes.drop (size * index) := by
    intro index
    rw [chunkAt, Nat.mul_succ, ← List.drop_drop, List.take_append_drop]
  have hlast : bytes.drop (size * 4) = [] := List.drop_eq_nil_of_le (Nat.le_of_eq h)
  calc chunkAt size bytes 0 ++ (chunkAt size bytes 1 ++ (chunkAt size bytes 2 ++ chunkAt size bytes 3))
      = chunkAt size bytes 0 ++
          (chunkAt size bytes 1 ++ (chunkAt size bytes 2 ++ bytes.drop (size * 3))) := by
        rw [← hcut 3, hlast, List.append_nil]
    _ = bytes := by rw [hcut 2, hcut 1, hcut 0, Nat.mul_zero, List.drop_zero]

theorem chunkAt_zero (h : first.length = size) (rest : List UInt8) :
    chunkAt size (first ++ rest) 0 = first := by
  rw [chunkAt, Nat.mul_zero, List.drop_zero, ← h, List.take_left]

theorem chunkAt_succ (h : first.length = size) (rest : List UInt8) (index : ℕ) :
    chunkAt size (first ++ rest) (index + 1) = chunkAt size rest index := by
  rw [chunkAt, Nat.mul_succ, Nat.add_comm, ← List.drop_drop, ← h, List.drop_left, h, chunkAt]

theorem length_chunkAt (h : bytes.length = size * 4) {index : ℕ} (hindex : index < 4) :
    (chunkAt size bytes index).length = size := by
  have hroom : size * (index + 1) ≤ size * 4 := Nat.mul_le_mul_left size hindex
  rw [Nat.mul_succ] at hroom
  rw [chunkAt, List.length_take, List.length_drop]
  omega

end

/-- Four words are read. -/
theorem mapM_range_eq_some {read : ℕ → Option ℕ} {words : List ℕ} :
    (List.range 4).mapM read = some words ↔ ∃ k l m n, read 0 = some k ∧ read 1 = some l ∧
      read 2 = some m ∧ read 3 = some n ∧ words = [k, l, m, n] := by
  have hrange : List.range 4 = [0, 1, 2, 3] := rfl
  rw [hrange]
  simp only [List.mapM_cons, List.mapM_nil, Option.bind_eq_bind, Option.bind_eq_some_iff, Option.pure_def,
    Option.some.injEq]
  constructor
  · rintro ⟨k, hk, _, ⟨l, hl, _, ⟨m, hm, _, ⟨n, hn, _, rfl, rfl⟩, rfl⟩, rfl⟩, rfl⟩
    exact ⟨k, l, m, n, hk, hl, hm, hn, rfl⟩
  · rintro ⟨k, l, m, n, hk, hl, hm, hn, rfl⟩
    exact ⟨k, hk, _, ⟨l, hl, _, ⟨m, hm, _, ⟨n, hn, _, rfl, rfl⟩, rfl⟩, rfl⟩, rfl⟩

theorem Word.length_bytes {part : String} {word : ℕ} (h : Word part word) :
    (Text.bytes part).length = 8 :=
  (Listening.length_bytes part).trans h.length

theorem Word.read {part : String} {word : ℕ} (h : Word part word) :
    readWord (Text.bytes part) = some word :=
  (readWord_eq_some h.length_bytes).mpr ⟨part, rfl, h⟩

/-- Four words that are joined are read one by one. -/
theorem mapM_readWord {a b c d : String} {k l m n : ℕ} (ha : Word a k) (hb : Word b l) (hc : Word c m)
    (hd : Word d n) : (List.range 4).mapM
      (fun index => readWord (chunkAt 8 (Text.bytes (a ++ (b ++ (c ++ d)))) index)) =
        some [k, l, m, n] := by
  have hlast : chunkAt 8 (Text.bytes d) 0 = Text.bytes d := by
    have hchunk := chunkAt_zero hd.length_bytes []
    rwa [List.append_nil] at hchunk
  rw [mapM_range_eq_some]
  simp only [Text.bytes_append]
  refine ⟨k, l, m, n, ?_, ?_, ?_, ?_, rfl⟩
  · rw [chunkAt_zero ha.length_bytes, ha.read]
  · rw [chunkAt_succ ha.length_bytes, chunkAt_zero hb.length_bytes, hb.read]
  · rw [chunkAt_succ ha.length_bytes, chunkAt_succ hb.length_bytes, chunkAt_zero hc.length_bytes,
      hc.read]
  · rw [chunkAt_succ ha.length_bytes, chunkAt_succ hb.length_bytes, chunkAt_succ hc.length_bytes,
      hlast, hd.read]

/-- A text that is read as four words is four words. -/
theorem exists_words {hex : String} {words : List ℕ} (hlength : hex.utf8ByteSize = 32)
    (h : (List.range 4).mapM (fun index => readWord (chunkAt 8 (Text.bytes hex) index)) = some words) :
    ∃ (a b c d : String) (k l m n : ℕ), Word a k ∧ Word b l ∧ Word c m ∧ Word d n ∧
      hex = a ++ (b ++ (c ++ d)) ∧ words = [k, l, m, n] := by
  have hbytes : (Text.bytes hex).length = 8 * 4 := (length_bytes hex).trans hlength
  obtain ⟨k, l, m, n, hk, hl, hm, hn, rfl⟩ := mapM_range_eq_some.mp h
  obtain ⟨a, hfirst, ha⟩ := (readWord_eq_some (length_chunkAt hbytes (by decide))).mp hk
  obtain ⟨b, hsecond, hb⟩ := (readWord_eq_some (length_chunkAt hbytes (by decide))).mp hl
  obtain ⟨c, hthird, hc⟩ := (readWord_eq_some (length_chunkAt hbytes (by decide))).mp hm
  obtain ⟨d, hfourth, hd⟩ := (readWord_eq_some (length_chunkAt hbytes (by decide))).mp hn
  refine ⟨a, b, c, d, k, l, m, n, ha, hb, hc, hd, ?_, rfl⟩
  apply Text.bytes_injective
  rw [Text.bytes_append, Text.bytes_append, Text.bytes_append, ← hfirst, ← hsecond, ← hthird, ← hfourth,
    chunks_flatten hbytes]

/-- An address is read exactly where its text is one. -/
theorem readAddress_eq_some {hex : String} {address : IpAddr} :
    readAddress hex = some address ↔ Address hex address := by
  constructor
  · intro h
    rw [readAddress] at h
    split at h
    · rename_i hlength
      obtain ⟨word, hword, rfl⟩ := Option.map_eq_some_iff.mp h
      obtain ⟨hspells, hfits⟩ := (fromStrRadix_eq_some (Nat.two_pow_pos 32)).mp hword
      exact .v4 ⟨hlength, hspells, hfits⟩
    · split at h
      · rename_i hlength
        obtain ⟨_, hwords, rfl⟩ := Option.map_eq_some_iff.mp h
        obtain ⟨a, b, c, d, k, l, m, n, ha, hb, hc, hd, rfl, rfl⟩ := exists_words hlength hwords
        exact .v6 ha hb hc hd
      · cases h
  · intro h
    cases h with
    | v4 h =>
      rw [readAddress, if_pos h.length,
        (fromStrRadix_eq_some (Nat.two_pow_pos 32)).mpr ⟨h.spells, h.fits⟩]
      rfl
    | @v6 a b c d k l m n ha hb hc hd =>
      have hlength : (a ++ (b ++ (c ++ d))).utf8ByteSize = 32 := by
        rw [String.utf8ByteSize_append, String.utf8ByteSize_append, String.utf8ByteSize_append, ha.length,
          hb.length, hc.length, hd.length]
      rw [readAddress, if_neg (by omega), if_pos hlength, mapM_readWord ha hb hc hd]
      rfl

/-! ## The table -/

/-- The state a listening socket is in. -/
def listen : String := "0A"

/-- The address of every IPv4 interface. -/
def everyIpv4 : IpAddr := .v4 ⟨0, 0, 0, 0⟩

/-- The address of every interface. -/
def everyIpv6 : IpAddr := .v6 0

/-- Whether an address stands for every one of its family. -/
def isUnspecified (address : IpAddr) : Bool := address = everyIpv4 || address = everyIpv6

/-- Whether a line of the table is a socket listening on this address. -/
def listeningRow (wanted : SocketAddr) (line : String) : Bool :=
  match Text.splitWhitespace line with
  | _slot :: localAddress :: _remote :: state :: _ =>
    if state ≠ listen then false
    else
      match Text.rsplitOnce localAddress ':' with
      | none => false
      | some (address, port) =>
        if fromStrRadix 65536 port.toList ≠ some wanted.port.toNat then false
        else
          match readAddress address with
          | some found => isUnspecified found || found = wanted.ip
          | none => false
  | _ => false

/-- Whether a socket is listening on this address, read out of a kernel table. -/
def listeningIn (table : String) (wanted : SocketAddr) : Bool :=
  ((Text.lines table).drop 1).any (listeningRow wanted)

/-- A line of the table that gives an address and a state. -/
def Row (line : String) (address : SocketAddr) (state : String) : Prop :=
  ∃ slot localAddress remote rest hex digits,
    Text.splitWhitespace line = slot :: localAddress :: remote :: state :: rest ∧
      Text.rsplitOnce localAddress ':' = some (hex, digits) ∧ Address hex address.ip ∧
        Spells digits.toList address.port.toNat

/-- A table has a row of a socket that listens on an address. -/
def Listens (table : String) (address : SocketAddr) : Prop :=
  ∃ line ∈ (Text.lines table).drop 1, Row line address listen

/-- The sockets that connections to an address can be accepted by. A socket on every interface takes
those of both families, and one on every IPv4 interface takes IPv4 alone. -/
inductive Accepts : IpAddr → IpAddr → Prop
  | itself (address : IpAddr) : Accepts address address
  | everyIpv4 (address : Ipv4Addr) : Accepts everyIpv4 (.v4 address)
  | everyIpv6 (address : IpAddr) : Accepts everyIpv6 address

theorem isUnspecified_iff {address : IpAddr} :
    isUnspecified address = true ↔ address = everyIpv4 ∨ address = everyIpv6 := by
  simp [isUnspecified]

theorem listeningRow_iff {wanted : SocketAddr} {line : String} : listeningRow wanted line = true ↔
    ∃ found, Row line ⟨found, wanted.port⟩ listen ∧ (isUnspecified found ∨ found = wanted.ip) := by
  have hport := wanted.port.toNat_lt
  constructor
  · intro h
    rw [listeningRow] at h
    split at h
    · rename_i slot localAddress remote state rest hfields
      split at h
      · cases h
      rename_i hstate
      split at h
      · cases h
      rename_i hex digits hcut
      split at h
      · cases h
      rename_i hdigits
      split at h
      · rename_i found haddress
        obtain ⟨hspells, -⟩ := (fromStrRadix_eq_some (by decide)).mp (not_not.mp hdigits)
        refine ⟨found, ⟨slot, localAddress, remote, rest, hex, digits, ?_, hcut,
          readAddress_eq_some.mp haddress, hspells⟩, by simpa using h⟩
        rw [hfields, not_not.mp hstate]
      · cases h
    · cases h
  · rintro ⟨found, hrow, hfound⟩
    obtain ⟨slot, localAddress, remote, rest, hex, digits, hfields, hcut, haddress, hspells⟩ := hrow
    have hdigits : fromStrRadix 65536 digits.toList = some wanted.port.toNat :=
      (fromStrRadix_eq_some (by decide)).mpr ⟨hspells, hport⟩
    rw [listeningRow, hfields]
    simp only [hcut, hdigits, readAddress_eq_some.mpr haddress]
    simpa using hfound

/-- A socket is found if it has the address or one that stands for all of a family. -/
theorem listeningIn_iff {table : String} {wanted : SocketAddr} : listeningIn table wanted = true ↔
    ∃ found, Listens table ⟨found, wanted.port⟩ ∧ (isUnspecified found ∨ found = wanted.ip) := by
  simp only [listeningIn, List.any_eq_true, listeningRow_iff, Listens]
  constructor
  · rintro ⟨line, hline, found, hrow, hfound⟩
    exact ⟨found, ⟨line, hline, hrow⟩, hfound⟩
  · rintro ⟨found, ⟨line, hline, hrow⟩, hfound⟩
    exact ⟨line, hline, found, hrow, hfound⟩

/-- The address asked for is an IPv4 one, or no socket listens on every IPv4 interface, or one listens
that takes both families or has the address itself. -/
def InFamily (table : String) (wanted : SocketAddr) : Prop :=
  (∃ address, wanted.ip = .v4 address) ∨ ¬ Listens table ⟨everyIpv4, wanted.port⟩ ∨
    Listens table ⟨everyIpv6, wanted.port⟩ ∨ Listens table wanted

/-- The socket that is found accepts what is asked about, unless only one of the other family is
there. -/
theorem listeningIn_covered_iff (table : String) (wanted : SocketAddr) :
    (listeningIn table wanted = true ↔
      ∃ found, Listens table ⟨found, wanted.port⟩ ∧ Accepts found wanted.ip) ↔
    InFamily table wanted := by
  rw [listeningIn_iff]
  constructor
  · intro h
    by_contra hnot
    obtain ⟨hother, hevery, hboth, hitself⟩ : (¬ ∃ address, wanted.ip = .v4 address) ∧
        Listens table ⟨everyIpv4, wanted.port⟩ ∧ ¬ Listens table ⟨everyIpv6, wanted.port⟩ ∧
          ¬ Listens table wanted := by
      simpa [InFamily] using hnot
    obtain ⟨found, hlistens, haccepts⟩ := h.mp ⟨everyIpv4, hevery, .inl rfl⟩
    generalize hip : wanted.ip = ip at haccepts hother
    cases haccepts with
    | itself =>
      subst hip
      exact hitself hlistens
    | everyIpv4 address => exact hother ⟨address, rfl⟩
    | everyIpv6 => exact hboth hlistens
  · intro hfamily
    constructor
    · rintro ⟨found, hlistens, hfound⟩
      rcases hfound with hevery | rfl
      · rcases isUnspecified_iff.mp hevery with rfl | rfl
        · rcases hfamily with ⟨address, haddress⟩ | hnone | hboth | hitself
          · exact ⟨_, hlistens, haddress ▸ .everyIpv4 address⟩
          · exact absurd hlistens hnone
          · exact ⟨_, hboth, .everyIpv6 _⟩
          · exact ⟨_, hitself, .itself _⟩
        · exact ⟨_, hlistens, .everyIpv6 _⟩
      · exact ⟨_, hlistens, .itself _⟩
    · rintro ⟨found, hlistens, haccepts⟩
      refine ⟨found, hlistens, ?_⟩
      generalize wanted.ip = ip at haccepts
      cases haccepts with
      | itself => exact .inr rfl
      | everyIpv4 address => exact .inl rfl
      | everyIpv6 => exact .inl rfl

/-! ## What the kernel writes -/

/-- An upper case hex digit. -/
def upperDigit (n : ℕ) : Char :=
  if n < 10 then Char.ofNat (48 + n) else Char.ofNat (55 + n)

/-- A number in so many upper case hex digits. -/
def upperHex (width n : ℕ) : String :=
  String.ofList ((Nat.digitsAppend 16 width n).reverse.map upperDigit)

/-- The words of an address, each printed low byte first. -/
def wordAt (octets : List UInt8) (index : ℕ) : String :=
  upperHex 8 (ByteOrder.little.ofBytes (chunkAt 4 octets index))

/-- An address as the kernel prints it. -/
def addressText : IpAddr → String
  | .v4 address => wordAt address.octets 0
  | .v6 address =>
    let octets := ByteOrder.bigEndian 16 address.toNat
    wordAt octets 0 ++ (wordAt octets 1 ++ (wordAt octets 2 ++ wordAt octets 3))

/-- A text that stays in its line. -/
def Unbroken (text : String) : Prop := Char.ofNat 10 ∉ text.toList ∧ Char.ofNat 13 ∉ text.toList

/-- A socket of the kernel: its slot, its two addresses and its state, and what else is printed. -/
structure Socket where
  slot : String
  address : SocketAddr
  remote : String
  state : UInt8
  rest : String
  oneSlot : (Text.splitWhitespace slot).length = 1
  oneRemote : (Text.splitWhitespace remote).length = 1
  unbroken : ∀ text ∈ [slot, remote, rest], Unbroken text

/-- The local address and the port of a socket. -/
def Socket.localAddress (socket : Socket) : String :=
  addressText socket.address.ip ++ ":" ++ upperHex 4 socket.address.port.toNat

/-- A blank, which stands between the fields. -/
def blank : String := String.singleton ' '

/-- The row of a socket. -/
def Socket.row (socket : Socket) : String :=
  socket.slot ++ blank ++ socket.localAddress ++ blank ++ socket.remote ++ blank ++
    upperHex 2 socket.state.toNat ++ blank ++ socket.rest

/-- The end of a line. -/
def lineEnd : String := String.singleton (Char.ofNat 10)

/-- The rows of some sockets. -/
def rowsOf : List Socket → String
  | [] => ""
  | socket :: sockets => socket.row ++ lineEnd ++ rowsOf sockets

/-- A table as the kernel writes it: a header line and a row for every socket. -/
def tableOf (header : String) (sockets : List Socket) : String :=
  header ++ lineEnd ++ rowsOf sockets

theorem upperDigit_spec : ∀ n < 16, toDigit (upperDigit n) = some n ∧ upperDigit n ≠ ':' ∧
    Text.isWhitespace (upperDigit n) = false ∧ (upperDigit n).utf8Size = 1 := by decide

section

variable {width n : ℕ}

/-- The digits that are printed. -/
theorem mem_upperHex {c : Char} (h : c ∈ (upperHex width n).toList) :
    ∃ digit < 16, upperDigit digit = c := by
  rw [upperHex, String.toList_ofList, List.mem_map] at h
  obtain ⟨digit, hdigit, rfl⟩ := h
  exact ⟨digit, Nat.lt_of_mem_digitsAppend (by decide) width digit (List.mem_reverse.mp hdigit), rfl⟩

theorem length_upperHex (h : n < 16 ^ width) : (upperHex width n).toList.length = width := by
  rw [upperHex, String.toList_ofList, List.length_map, List.length_reverse,
    Nat.length_digitsAppend (by decide) width h]

theorem utf8ByteSize_eq_length {text : String} (h : ∀ c ∈ text.toList, c.utf8Size = 1) :
    text.utf8ByteSize = text.toList.length := by
  rw [← String.ofList_toList (s := text)]
  generalize text.toList = chars at h
  induction chars with
  | nil => rfl
  | cons c chars ih =>
    rw [List.forall_mem_cons] at h
    rw [String.ofList_cons, String.utf8ByteSize_append, String.utf8ByteSize_singleton, h.1, ih h.2]
    simp [Nat.add_comm]

theorem mapM_toDigit_map {digits : List ℕ} (h : ∀ digit ∈ digits, digit < 16) :
    (digits.map upperDigit).mapM toDigit = some digits := by
  induction digits with
  | nil => rfl
  | cons digit digits ih =>
    rw [List.forall_mem_cons] at h
    rw [List.map_cons, List.mapM_cons, (upperDigit_spec digit h.1).1, ih h.2]
    rfl

/-- A number that is printed is spelled. -/
theorem spells_upperHex (hwidth : 0 < width) (h : n < 16 ^ width) :
    Spells (upperHex width n).toList n := by
  have hdigits : ∀ digit ∈ (Nat.digitsAppend 16 width n).reverse, digit < 16 := fun digit hdigit =>
    Nat.lt_of_mem_digitsAppend (by decide) width digit (List.mem_reverse.mp hdigit)
  refine ⟨_, fun hnil => ?_, .inl rfl, (Nat.digitsAppend 16 width n).reverse, ?_, ?_⟩
  · have hlength := length_upperHex h
    rw [hnil, List.length_nil] at hlength
    exact hwidth.ne hlength
  · rw [upperHex, String.toList_ofList]
    exact mapM_toDigit_map hdigits
  · rw [numberOf, List.reverse_reverse, Nat.digitsAppend, Nat.ofDigits_append_replicate_zero,
      Nat.ofDigits_digits]

/-- Text without white space in it. -/
def Solid (text : String) : Prop := ∀ c ∈ text.toList, Text.isWhitespace c = false

theorem solid_upperHex : Solid (upperHex width n) := by
  intro c hc
  obtain ⟨digit, hdigit, rfl⟩ := mem_upperHex hc
  exact (upperDigit_spec digit hdigit).2.2.1

theorem Solid.append {first second : String} (hfirst : Solid first) (hsecond : Solid second) :
    Solid (first ++ second) := by
  intro c hc
  rw [String.toList_append, List.mem_append] at hc
  exact hc.elim (hfirst c) (hsecond c)

theorem Solid.unbroken {text : String} (h : Solid text) : Unbroken text := by
  constructor
  · intro hmem
    exact absurd (h _ hmem) (by decide)
  · intro hmem
    exact absurd (h _ hmem) (by decide)

theorem Unbroken.append {first second : String} (hfirst : Unbroken first) (hsecond : Unbroken second) :
    Unbroken (first ++ second) := by
  simp only [Unbroken, String.toList_append, List.mem_append, not_or]
  exact ⟨⟨hfirst.1, hsecond.1⟩, hfirst.2, hsecond.2⟩

end

/-! ## Reading it back -/

theorem word_wordAt (octets : List UInt8) (index : ℕ) :
    Word (wordAt octets index) (ByteOrder.little.ofBytes (chunkAt 4 octets index)) := by
  have hlength : (chunkAt 4 octets index).length ≤ 4 := List.length_take_le _ _
  have hfits : ByteOrder.little.ofBytes (chunkAt 4 octets index) < 16 ^ 8 :=
    (ByteOrder.ofBytes_lt _ _).trans_le (Nat.pow_le_pow_right (by decide) hlength)
  refine ⟨?_, spells_upperHex (by decide) hfits, hfits⟩
  rw [wordAt, utf8ByteSize_eq_length, length_upperHex hfits]
  intro c hc
  obtain ⟨digit, hdigit, rfl⟩ := mem_upperHex hc
  exact (upperDigit_spec digit hdigit).2.2.2

theorem octetsOf_ofBytes {octets : List UInt8} (h : octets.length = 4) :
    octetsOf (ByteOrder.little.ofBytes octets) = octets := by
  rw [octetsOf, ← h, ByteOrder.toBytes_ofBytes]

/-- An address that is printed is read back. -/
theorem address_addressText (address : IpAddr) : Address (addressText address) address := by
  cases address with
  | v4 address =>
    have haddress := Address.v4 (word_wordAt address.octets 0)
    rwa [octetsOf_ofBytes rfl] at haddress
  | v6 address =>
    have hlength : (ByteOrder.bigEndian 16 address.toNat).length = 4 * 4 :=
      ByteOrder.length_bigEndian 16 address.toNat
    generalize hoctets : ByteOrder.bigEndian 16 address.toNat = octets at hlength
    have haddress := Address.v6 (word_wordAt octets 0) (word_wordAt octets 1) (word_wordAt octets 2)
      (word_wordAt octets 3)
    have hchunk : ∀ index < 4, octetsOf (ByteOrder.little.ofBytes (chunkAt 4 octets index)) =
        chunkAt 4 octets index := fun index hindex => octetsOf_ofBytes (length_chunkAt hlength hindex)
    simp only [List.flatMap_cons, List.flatMap_nil, List.append_nil, hchunk 0 (by decide),
      hchunk 1 (by decide), hchunk 2 (by decide), hchunk 3 (by decide),
      chunks_flatten hlength] at haddress
    rw [← hoctets, ByteOrder.value_bigEndian address.isLt, BitVec.ofNat_toNat,
      BitVec.setWidth_eq] at haddress
    exact haddress

theorem solid_addressText (address : IpAddr) : Solid (addressText address) := by
  cases address with
  | v4 address => exact solid_upperHex
  | v6 address =>
    exact solid_upperHex.append (solid_upperHex.append (solid_upperHex.append solid_upperHex))

theorem unbroken_blank : Unbroken blank := by
  constructor <;> decide

theorem unbroken_row (socket : Socket) : Unbroken socket.row := by
  have hslot := socket.unbroken socket.slot (by simp)
  have hremote := socket.unbroken socket.remote (by simp)
  have hrest := socket.unbroken socket.rest (by simp)
  have hlocal : Unbroken socket.localAddress :=
    ((solid_addressText _).unbroken.append (by constructor <;> decide)).append solid_upperHex.unbroken
  have hstate : Unbroken (upperHex 2 socket.state.toNat) := solid_upperHex.unbroken
  exact (((((((hslot.append unbroken_blank).append hlocal).append unbroken_blank).append hremote).append
    unbroken_blank).append hstate).append unbroken_blank).append hrest

theorem solid_localAddress (socket : Socket) : Solid socket.localAddress := by
  have hcolon : Solid ":" := by
    intro c hc
    obtain rfl : c = ':' := by simpa using hc
    decide
  exact ((solid_addressText _).append hcolon).append solid_upperHex

theorem rsplitOnce_localAddress (socket : Socket) : Text.rsplitOnce socket.localAddress ':' =
    some (addressText socket.address.ip, upperHex 4 socket.address.port.toNat) := by
  refine Text.rsplitOnce_eq_some.mpr ⟨by simp [Socket.localAddress], fun hcolon => ?_⟩
  obtain ⟨digit, hdigit, heq⟩ := mem_upperHex hcolon
  exact (upperDigit_spec digit hdigit).2.1 heq

theorem splitWhitespace_row (socket : Socket) : ∃ slot remote, Text.splitWhitespace socket.row =
    slot :: socket.localAddress :: remote :: upperHex 2 socket.state.toNat ::
      Text.splitWhitespace socket.rest := by
  obtain ⟨slot, hslot⟩ := List.length_eq_one_iff.mp socket.oneSlot
  obtain ⟨remote, hremote⟩ := List.length_eq_one_iff.mp socket.oneRemote
  have hlocal : Text.splitWhitespace socket.localAddress = [socket.localAddress] := by
    refine Text.splitWhitespace_eq_self (fun hnil => ?_) (solid_localAddress socket)
    have hlist := congrArg String.toList hnil
    simp [Socket.localAddress] at hlist
  have hstate : Text.splitWhitespace (upperHex 2 socket.state.toNat) =
      [upperHex 2 socket.state.toNat] := by
    refine Text.splitWhitespace_eq_self (fun hnil => ?_) solid_upperHex
    have hlength : (upperHex 2 socket.state.toNat).toList.length = 2 :=
      length_upperHex socket.state.toNat_lt
    rw [hnil] at hlength
    cases hlength
  have hblank : Text.isWhitespace ' ' = true := by decide
  refine ⟨slot, remote, ?_⟩
  simp only [Socket.row, blank, Text.splitWhitespace_append _ _ hblank, hslot, hlocal, hremote, hstate]
  rfl

/-- Only one number is spelled by a text. -/
theorem Spells.unique {text : List Char} {m n : ℕ} (hm : Spells text m) (hn : Spells text n) : m = n := by
  have hlimit : 0 < max m n + 1 := Nat.succ_pos _
  have hfirst := (fromStrRadix_eq_some hlimit).mpr ⟨hm, by omega⟩
  have hsecond := (fromStrRadix_eq_some hlimit).mpr ⟨hn, by omega⟩
  exact Option.some.inj (hfirst.symm.trans hsecond)

/-- The row of a socket gives its address and its state, and no others. -/
theorem row_row_iff {socket : Socket} {address : SocketAddr} {state : String} :
    Row socket.row address state ↔
      socket.address = address ∧ upperHex 2 socket.state.toNat = state := by
  obtain ⟨slot, remote, hfields⟩ := splitWhitespace_row socket
  have hcut := rsplitOnce_localAddress socket
  have hport : Spells (upperHex 4 socket.address.port.toNat).toList socket.address.port.toNat :=
    spells_upperHex (by decide) socket.address.port.toNat_lt
  constructor
  · rintro ⟨slot', localAddress, remote', rest, hex, digits, hfields', hcut', haddress, hspells⟩
    rw [hfields] at hfields'
    simp only [List.cons.injEq] at hfields'
    obtain ⟨-, rfl, -, rfl, -⟩ := hfields'
    obtain ⟨rfl, rfl⟩ := Prod.mk.inj (Option.some.inj (hcut.symm.trans hcut'))
    have hread := readAddress_eq_some.mpr haddress
    rw [readAddress_eq_some.mpr (address_addressText _)] at hread
    refine ⟨?_, rfl⟩
    have hip : socket.address.ip = address.ip := Option.some.inj hread
    have hnumber : socket.address.port = address.port := UInt16.toNat_inj.mp (hport.unique hspells)
    calc socket.address = ⟨socket.address.ip, socket.address.port⟩ := rfl
      _ = address := by rw [hip, hnumber]
  · rintro ⟨rfl, rfl⟩
    exact ⟨slot, socket.localAddress, remote, _, _, _, hfields, hcut, address_addressText _, hport⟩

theorem lines_rowsOf (sockets : List Socket) : Text.lines (rowsOf sockets) = sockets.map Socket.row := by
  induction sockets with
  | nil => rfl
  | cons socket sockets ih =>
    obtain ⟨hnewline, hreturn⟩ := unbroken_row socket
    rw [rowsOf, lineEnd, Text.lines_append hnewline hreturn, ih, List.map_cons]

theorem upperHex_ten : upperHex 2 10 = listen := by decide +kernel

theorem upperHex_eq_listen_iff {state : UInt8} : upperHex 2 state.toNat = listen ↔ state = 10 := by
  constructor
  · intro h
    have hstate := spells_upperHex Nat.two_pos (state.toNat_lt : state.toNat < 16 ^ 2)
    have hten := spells_upperHex Nat.two_pos (by decide : 10 < 16 ^ 2)
    rw [h, ← upperHex_ten] at hstate
    exact UInt8.toNat_inj.mp (hstate.unique hten)
  · rintro rfl
    exact upperHex_ten

/-- What the kernel writes is read: its listening sockets, and no others. -/
theorem listens_tableOf_iff {header : String} (hheader : Unbroken header) {sockets : List Socket}
    {address : SocketAddr} : Listens (tableOf header sockets) address ↔
      ∃ socket ∈ sockets, socket.address = address ∧ socket.state = 10 := by
  rw [Listens, tableOf, lineEnd, Text.lines_append hheader.1 hheader.2, lines_rowsOf, List.drop_one,
    List.tail_cons]
  constructor
  · rintro ⟨_, hline, hrow⟩
    obtain ⟨socket, hsocket, rfl⟩ := List.mem_map.mp hline
    obtain ⟨rfl, hstate⟩ := row_row_iff.mp hrow
    exact ⟨socket, hsocket, rfl, upperHex_eq_listen_iff.mp hstate⟩
  · rintro ⟨socket, hsocket, rfl, hstate⟩
    have hrow : Row socket.row socket.address listen :=
      row_row_iff.mpr ⟨rfl, upperHex_eq_listen_iff.mpr hstate⟩
    exact ⟨socket.row, List.mem_map_of_mem hsocket, hrow⟩

/-- A socket that listens on port 8081 of every IPv4 interface. -/
def everyoneOnFour : Socket where
  slot := "   0:"
  address := ⟨everyIpv4, 8081⟩
  remote := "00000000:0000"
  state := 10
  rest := "00000000:00000000 00:00000000 00000000 0 0 1 1"
  oneSlot := by decide +kernel
  oneRemote := by decide +kernel
  unbroken := by
    intro text htext
    simp only [List.mem_cons, List.not_mem_nil, or_false] at htext
    rcases htext with rfl | rfl | rfl <;> constructor <;> decide

/-- The header line, up to the columns that are read. -/
def header : String := "  sl  local_address rem_address   st"

theorem unbroken_header : Unbroken header := by
  constructor <;> decide

/-- It is taken for one that accepts connections to `[::1]:8081`. -/
theorem other_family_is_taken : listeningIn (tableOf header [everyoneOnFour]) ⟨.v6 1, 8081⟩ = true ∧
    ¬ ∃ found, Listens (tableOf header [everyoneOnFour]) ⟨found, 8081⟩ ∧ Accepts found (.v6 1) := by
  have honly : ∀ {address}, Listens (tableOf header [everyoneOnFour]) address ↔
      everyoneOnFour.address = address := by
    intro address
    rw [listens_tableOf_iff unbroken_header]
    constructor
    · rintro ⟨socket, hsocket, haddress, -⟩
      rwa [List.mem_singleton.mp hsocket] at haddress
    · exact fun haddress => ⟨_, List.mem_singleton_self _, haddress, rfl⟩
  constructor
  · exact listeningIn_iff.mpr ⟨everyIpv4, honly.mpr rfl, .inl rfl⟩
  · rintro ⟨found, hlistens, haccepts⟩
    obtain rfl : everyIpv4 = found := congrArg SocketAddr.ip (honly.mp hlistens)
    nomatch haccepts

end EkEk.Dataplane.Listening
