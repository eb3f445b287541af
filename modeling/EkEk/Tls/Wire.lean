import EkEk.Lib.ByteOrder
import EkEk.Lib.Checked
import EkEk.Lib.Records
import EkEk.Lib.Segments
import EkEk.Tls.Failure
import EkEk.Utf8

/-!
# Names in DNS messages

Reference: `crates/ek-ek-tls/src/dns/wire.rs` (`Header`, `write_name`, `read_name`).

A name is written as its labels, each behind its length, and may be read through pointers to where the
rest of it stands. `step` is one turn of the loop that reads, and `remaining` is what every turn takes
something from: the pointers it may still follow and the bytes in front of it. `NameAt` says where a
name stands in a message, and `readName_of_nameAt` that it is read from there.
-/

namespace EkEk.Tls.Wire

open Checked

/-- The internet class. -/
def classIn : UInt16 := 1

/-- The class that marks a whole set for deletion, and the one TSIG uses. -/
def classAny : UInt16 := 255

/-- Start of authority, which is what an update names its zone with. -/
def typeSoa : UInt16 := 6

/-- The type of a record that holds text. -/
def typeTxt : UInt16 := 16

/-- The type of a record that holds a signature. -/
def typeTsig : UInt16 := 250

/-- The opcode of a dynamic update. -/
def opcodeUpdate : UInt16 := 5

/-- Longest a single label may be. -/
def mostLabel : ℕ := 63

/-- Longest an encoded name may be, with every length byte and the root. -/
def mostName : ℕ := 255

/-- Longest a character string may be. -/
def mostString : ℕ := 255

/-- How many compression pointers one name may follow. -/
def mostPointers : ℕ := 16

/-- How a function ends that does not succeed. -/
inductive Halt where
  | failure (failure : Failure)
  | panic
deriving DecidableEq, Repr

/-- A message that is not all there. -/
def short : Failure := ⟨.protocol, "the name server sent a message that ends too early"⟩

/-! ## Numbers -/

/-- The bytes of a number, the high one first. -/
def u16 (n : UInt16) : List UInt8 := ByteOrder.bigEndian 2 n.toNat

/-- The four bytes of a number, the highest first. -/
def u32 (n : UInt32) : List UInt8 := ByteOrder.bigEndian 4 n.toNat

/-- The number of two bytes, the higher one first. -/
def fromBeBytes (high low : UInt8) : UInt16 := UInt16.ofNat (high.toNat * 256 + low.toNat)

@[simp] theorem length_u16 (n : UInt16) : (u16 n).length = 2 := rfl

@[simp] theorem length_u32 (n : UInt32) : (u32 n).length = 4 := rfl

theorem u16_fromBeBytes (high low : UInt8) : u16 (fromBeBytes high low) = [high, low] := by
  have hhigh := high.toNat_lt
  have hlow := low.toNat_lt
  have hvalue : ByteOrder.value [high, low] = high.toNat * 256 + low.toNat := by
    simp [ByteOrder.value]
  rw [u16, fromBeBytes, UInt16.toNat_ofNat_of_lt' (by rw [UInt16.size]; omega), ← hvalue]
  exact ByteOrder.bigEndian_value [high, low]

theorem u16_eq (n : UInt16) :
    ∃ high low, u16 n = [high, low] ∧ fromBeBytes high low = n := by
  have hn := n.toNat_lt
  refine ⟨UInt8.ofNat (n.toNat / 256 % 256), UInt8.ofNat (n.toNat % 256), rfl, ?_⟩
  apply UInt16.toNat_inj.mp
  rw [fromBeBytes, UInt16.toNat_ofNat', UInt8.toNat_ofNat', UInt8.toNat_ofNat']
  omega

/-- A number is known from its two bytes. -/
theorem u16_injective : Function.Injective u16 := by
  intro first second h
  have hvalue := congrArg ByteOrder.value h
  rw [u16, u16, ByteOrder.value_bigEndian first.toNat_lt, ByteOrder.value_bigEndian second.toNat_lt]
    at hvalue
  exact UInt16.toNat_inj.mp hvalue

/-! ## Headers -/

/-- The header every message starts with. -/
structure Header where
  id : UInt16
  flags : UInt16
  counts : Vector UInt16 4
deriving DecidableEq, Repr

namespace Header

/-! How many questions, answers, authorities and additional records follow. -/

def questions (header : Header) : UInt16 := header.counts[0]

def answers (header : Header) : UInt16 := header.counts[1]

def authorities (header : Header) : UInt16 := header.counts[2]

def additional (header : Header) : UInt16 := header.counts[3]

/-- The twelve bytes of a header. -/
def write (header : Header) (out : List UInt8) : List UInt8 :=
  out ++ u16 header.id ++ u16 header.flags ++ header.counts.toList.flatMap u16

/-- One of the numbers of a message. -/
def word (bytes : List UInt8) (position : ℕ) : Except Halt UInt16 := do
  let high ← found bytes[position]? .panic
  let low ← found bytes[position + 1]? .panic
  return fromBeBytes high low

/-- The header that a message begins with. -/
def read (bytes : List UInt8) : Except Halt Header := do
  ensure (12 ≤ bytes.length) (.failure short)
  let id ← word bytes 0
  let flags ← word bytes 2
  let questions ← word bytes 4
  let answers ← word bytes 6
  let authorities ← word bytes 8
  let additional ← word bytes 10
  return ⟨id, flags, #v[questions, answers, authorities, additional]⟩

end Header

/-! ## Writing names -/

/-- What a name means when it is written. -/
inductive Case where
  | asGiven
  | canonical
deriving DecidableEq, Repr

def toAsciiLowercase (byte : UInt8) : UInt8 := if 65 ≤ byte ∧ byte ≤ 90 then byte + 32 else byte

/-- The bytes of a label. -/
def Case.cased (case : Case) (bytes : List UInt8) : List UInt8 :=
  match case with
  | .asGiven => bytes
  | .canonical => bytes.map toAsciiLowercase

/-- Append one label behind its length. -/
def writeLabel (name : String) (case : Case) (out : List UInt8) (label : String) :
    Except Failure (List UInt8) := do
  ensure (label ≠ "") ⟨.protocol, s!"{name} has an empty label"⟩
  ensure (label.utf8ByteSize ≤ mostLabel)
    ⟨.protocol, s!"a label of {name} is longer than {mostLabel} bytes"⟩
  return out ++ UInt8.ofNat label.utf8ByteSize :: case.cased (Text.bytes label)

/-- Append the labels of a name without the dots behind it. -/
def writeLabels (name : String) (case : Case) (out : List UInt8) : Except Failure (List UInt8) :=
  let trimmed := Text.trimEndMatches name '.'
  if trimmed = "" then .ok out else (Text.split trimmed '.').foldlM (writeLabel name case) out

/-- Append a name. -/
def writeName (name : String) (case : Case) (out : List UInt8) : Except Failure (List UInt8) := do
  let written ← writeLabels name case out
  ensure ((written ++ [0]).length - out.length ≤ mostName)
    ⟨.protocol, s!"{name} is longer than {mostName} bytes on the wire"⟩
  return written ++ [0]

/-! ## Reading names -/

/-- A name that is being read. -/
structure Reading where
  name : String
  position : ℕ
  after : Option ℕ
  jumps : ℕ

/-- Put a label behind what was read. -/
def push (name : String) (label : List UInt8) : String :=
  (if name = "" then name else name.push '.') ++ Text.fromUtf8Lossy label

variable (bytes : List UInt8)

/-- One turn of the loop: the name is at its end, or reading goes on. -/
def step (reading : Reading) : Except Failure (Reading ⊕ String × ℕ) := do
  let length ← found bytes[reading.position]? short
  if length &&& 0xC0 = 0xC0 then
    let low ← found bytes[reading.position + 1]? short
    let target := fromBeBytes (length &&& 0x3F) low
    ensure (reading.jumps + 1 ≤ mostPointers)
      ⟨.protocol, "the name compression in this answer leads in a circle"⟩
    return .inl { reading with
      position := target.toNat
      after := some (reading.after.getD (reading.position + 2))
      jumps := reading.jumps + 1 }
  else if length &&& 0xC0 ≠ 0 then
    .error ⟨.protocol, "a label length in this answer uses a reserved form"⟩
  else if length = 0 then return .inr (reading.name, reading.after.getD (reading.position + 1))
  else
    let start := reading.position + 1
    let label ← found (Records.slice bytes start (start + length.toNat)) short
    return .inl { reading with name := push reading.name label, position := start + length.toNat }

/-- Turns of the loop, as long as there is fuel. -/
def run : ℕ → Reading → Option (Except Failure (String × ℕ))
  | 0, _ => none
  | fuel + 1, reading =>
    match step bytes reading with
    | .error failure => some (.error failure)
    | .ok (.inr result) => some (.ok result)
    | .ok (.inl next) => run fuel next

/-- The pointers that may still be followed, and the bytes ahead. -/
def remaining (reading : Reading) : ℕ :=
  (mostPointers - reading.jumps) * (bytes.length + 1) + (bytes.length - reading.position)

/-- What one turn does. -/
inductive Turn (reading : Reading) : Reading ⊕ String × ℕ → Prop where
  | pointer (length low : UInt8) (hlength : bytes[reading.position]? = some length)
    (hmark : length &&& 0xC0 = 0xC0) (hlow : bytes[reading.position + 1]? = some low)
    (hjumps : reading.jumps + 1 ≤ mostPointers) :
    Turn reading (.inl { reading with
      position := (fromBeBytes (length &&& 0x3F) low).toNat
      after := some (reading.after.getD (reading.position + 2))
      jumps := reading.jumps + 1 })
  | root (hlength : bytes[reading.position]? = some 0) :
    Turn reading (.inr (reading.name, reading.after.getD (reading.position + 1)))
  | label (length : UInt8) (label : List UInt8) (hlength : bytes[reading.position]? = some length)
    (hmark : length &&& 0xC0 = 0) (hpos : length ≠ 0)
    (hlabel : Records.slice bytes (reading.position + 1) (reading.position + 1 + length.toNat) =
      some label) :
    Turn reading (.inl { reading with
      name := push reading.name label, position := reading.position + 1 + length.toNat })

variable {bytes}

/-- What a round of the loop does is a turn. -/
theorem turn_of_step {reading : Reading} {next : Reading ⊕ String × ℕ}
    (h : step bytes reading = .ok next) : Turn bytes reading next := by
  obtain ⟨length, hlength, h⟩ := bind_eq_ok.mp h
  rw [found_eq_ok] at hlength
  dsimp only at h
  split at h
  · rename_i hmark
    obtain ⟨low, hlow, h⟩ := bind_eq_ok.mp h
    obtain ⟨_, hjumps, h⟩ := bind_eq_ok.mp h
    obtain rfl := Except.ok.inj h
    exact .pointer length low hlength hmark (found_eq_ok.mp hlow) (ensure_eq_ok.mp hjumps)
  · split at h
    · cases h
    · rename_i hmark
      split at h
      · rename_i hzero
        obtain rfl := Except.ok.inj h
        exact .root (hzero ▸ hlength)
      · rename_i hpos
        obtain ⟨label, hlabel, h⟩ := bind_eq_ok.mp h
        obtain rfl := Except.ok.inj h
        exact .label length label hlength (not_not.mp hmark) hpos (found_eq_ok.mp hlabel)

/-- A turn is what a round of the loop does. -/
theorem step_of_turn {reading : Reading} {next : Reading ⊕ String × ℕ}
    (h : Turn bytes reading next) : step bytes reading = .ok next := by
  cases h with
  | pointer length low hlength hmark hlow hjumps =>
    rw [step, hlength, found_some, ok_bind, if_pos hmark, hlow, found_some, ok_bind, ensure,
      if_pos hjumps]
    rfl
  | root hlength =>
    rw [step, hlength]
    rfl
  | label length label hlength hmark hpos hlabel =>
    have hother : ¬ length &&& 0xC0 = 0xC0 := by
      rw [hmark]
      decide
    rw [step, hlength, found_some, ok_bind, if_neg hother, if_neg (not_not.mpr hmark), if_neg hpos]
    dsimp only
    rw [hlabel]
    rfl

theorem lt_length_of_getElem? {position : ℕ} {byte : UInt8} (h : bytes[position]? = some byte) :
    position < bytes.length := (List.getElem?_eq_some_iff.mp h).1

theorem le_length_of_slice {start stop : ℕ} {part : List UInt8}
    (h : Records.slice bytes start stop = some part) : start ≤ stop ∧ stop ≤ bytes.length := by
  rw [Records.slice] at h
  split at h
  · assumption
  · cases h

/-- Every turn takes something from what remains. -/
theorem remaining_lt {reading next : Reading} (h : Turn bytes reading (.inl next)) :
    remaining bytes next < remaining bytes reading := by
  cases h with
  | pointer length low hlength hmark hlow hjumps =>
    have hless : mostPointers - reading.jumps = mostPointers - (reading.jumps + 1) + 1 := by omega
    rw [remaining, remaining, hless, Nat.add_one_mul]
    dsimp only
    omega
  | label length label hlength hmark hpos hlabel =>
    have hlt := lt_length_of_getElem? hlength
    rw [remaining, remaining]
    dsimp only
    omega

/-- The loop comes to its end. -/
theorem isSome_run {fuel : ℕ} {reading : Reading} (h : remaining bytes reading < fuel) :
    (run bytes fuel reading).isSome := by
  induction fuel generalizing reading with
  | zero => exact absurd h (Nat.not_lt_zero _)
  | succ fuel ih =>
    rw [run]
    split
    · rfl
    · rfl
    · rename_i next hstep
      exact ih ((remaining_lt (turn_of_step hstep)).trans_le (Nat.le_of_lt_succ h))

variable (bytes)

/-- A name of which nothing was read yet. -/
def start (position : ℕ) : Reading := ⟨"", position, none, 0⟩

/-- Read one name, following pointers, and where reading continues. -/
def readName (position : ℕ) : Except Failure (String × ℕ) :=
  (run bytes (remaining bytes (start position) + 1) (start position)).get (isSome_run (Nat.lt_succ_self _))

/-! ## Where reading continues -/

variable {bytes}

/-- What was read of a name that began at some place. -/
structure From (bytes : List UInt8) (began : ℕ) (reading : Reading) : Prop where
  here : reading.after = none → began ≤ reading.position
  after : ∀ after, reading.after = some after → began < after ∧ after ≤ bytes.length

/-- A turn keeps where a name began, and where it goes on behind a jump. -/
theorem From.turn {began : ℕ} {reading next : Reading} (h : From bytes began reading)
    (hturn : Turn bytes reading (.inl next)) : From bytes began next := by
  cases hturn with
  | pointer length low hlength hmark hlow hjumps =>
    refine ⟨nofun, fun after hafter => ?_⟩
    obtain rfl := Option.some.inj hafter
    cases hbefore : reading.after with
    | none =>
      have hbegan := h.here hbefore
      have hlt := lt_length_of_getElem? hlow
      rw [Option.getD_none]
      omega
    | some held => exact h.after held hbefore
  | label length label hlength hmark hpos hlabel =>
    exact ⟨fun hnone => (h.here hnone).trans (by dsimp only; omega), h.after⟩

theorem From.result {began : ℕ} {reading : Reading} {result : String × ℕ}
    (h : From bytes began reading) (hturn : Turn bytes reading (.inr result)) :
    began < result.2 ∧ result.2 ≤ bytes.length := by
  cases hturn with
  | root hlength =>
    have hlt := lt_length_of_getElem? hlength
    cases hafter : reading.after with
    | none =>
      have hbegan := h.here hafter
      rw [Option.getD_none]
      omega
    | some after => exact h.after after hafter

/-- A name that is read ends in the message, behind where it began. -/
theorem bounds_of_run {began fuel : ℕ} {reading : Reading} {result : String × ℕ}
    (hfrom : From bytes began reading) (h : run bytes fuel reading = some (.ok result)) :
    began < result.2 ∧ result.2 ≤ bytes.length := by
  induction fuel generalizing reading with
  | zero => cases h
  | succ fuel ih =>
    rw [run] at h
    split at h
    · cases h
    · rename_i found hstep
      obtain rfl := Except.ok.inj (Option.some.inj h)
      exact hfrom.result (turn_of_step hstep)
    · rename_i next hstep
      exact ih (hfrom.turn (turn_of_step hstep)) h

theorem run_start (position : ℕ) :
    run bytes (remaining bytes (start position) + 1) (start position) = some (readName bytes position) :=
  (Option.some_get _).symm

/-- Reading continues behind where it began, and not behind the end. -/
theorem bounds_of_readName {position next : ℕ} {name : String}
    (h : readName bytes position = .ok (name, next)) : position < next ∧ next ≤ bytes.length := by
  have hstart : From bytes position (start position) := ⟨fun _ => le_rfl, fun _ hafter => by cases hafter⟩
  exact bounds_of_run hstart ((run_start position).trans (congrArg some h))

/-! ## Names that stand in a message -/

/-- A name with so many pointers stands at some place, and ends in front of another. -/
inductive NameAt (bytes : List UInt8) : ℕ → ℕ → List (List UInt8) → ℕ → Prop where
  | root {position : ℕ} (hlength : bytes[position]? = some 0) : NameAt bytes 0 position [] (position + 1)
  | label {pointers position next : ℕ} {labels : List (List UInt8)} (label : List UInt8)
    (hpos : 0 < label.length) (hle : label.length ≤ mostLabel)
    (hlabel : UInt8.ofNat label.length :: label <+: bytes.drop position)
    (hrest : NameAt bytes pointers (position + 1 + label.length) labels next) :
    NameAt bytes pointers position (label :: labels) next
  | pointer {pointers position target next : ℕ} {labels : List (List UInt8)} (high low : UInt8)
    (hhigh : high &&& 0xC0 = 0xC0) (hbytes : [high, low] <+: bytes.drop position)
    (htarget : target = (fromBeBytes (high &&& 0x3F) low).toNat)
    (hrest : NameAt bytes pointers target labels next) :
    NameAt bytes (pointers + 1) position labels (position + 2)

theorem getElem?_of_begins {position : ℕ} {first : UInt8} {others : List UInt8}
    (h : first :: others <+: bytes.drop position) : bytes[position]? = some first := by
  obtain ⟨rest, hrest⟩ := h
  have hhead := @List.getElem?_drop _ bytes position 0
  rw [← hrest, Nat.add_zero] at hhead
  exact hhead.symm

theorem prefix_behind {position : ℕ} (first : List UInt8) {others : List UInt8}
    (h : first ++ others <+: bytes.drop position) : others <+: bytes.drop (position + first.length) := by
  obtain ⟨rest, hrest⟩ := h
  rw [← List.drop_drop, ← hrest, List.append_assoc, List.drop_left]
  exact ⟨rest, rfl⟩

theorem prefix_tail {position : ℕ} {first : UInt8} {others : List UInt8}
    (h : first :: others <+: bytes.drop position) : others <+: bytes.drop (position + 1) :=
  prefix_behind [first] h

theorem drop_of_getElem? {position : ℕ} {first : UInt8} (h : bytes[position]? = some first) :
    bytes.drop position = first :: bytes.drop (position + 1) := by
  obtain ⟨hlt, rfl⟩ := List.getElem?_eq_some_iff.mp h
  exact List.drop_eq_getElem_cons hlt

/-- A slice is what stands at its start. -/
theorem prefix_of_slice {start stop : ℕ} {part : List UInt8}
    (h : Records.slice bytes start stop = some part) :
    part <+: bytes.drop start ∧ part.length = stop - start := by
  obtain ⟨hle, hstop⟩ := le_length_of_slice h
  rw [Records.slice, if_pos ⟨hle, hstop⟩] at h
  obtain rfl := Option.some.inj h
  refine ⟨List.take_prefix _ _, ?_⟩
  rw [List.length_take, List.length_drop]
  omega

/-- What stands somewhere is the slice from there. -/
theorem slice_of_begins {position : ℕ} {part : List UInt8} (hposition : position ≤ bytes.length)
    (h : part <+: bytes.drop position) :
    Records.slice bytes position (position + part.length) = some part := by
  have hle := h.length_le
  rw [List.length_drop] at hle
  rw [Records.slice_eq (by omega)]
  exact congrArg some (List.prefix_iff_eq_take.mp h).symm

theorem mask_label : ∀ n ≤ mostLabel, UInt8.ofNat n &&& 0xC0 = 0 := by decide

theorem le_of_mask {length : UInt8} (h : length &&& 0xC0 = 0) : length.toNat ≤ mostLabel := by
  have hall : ∀ n < 256, UInt8.ofNat n &&& 0xC0 = 0 → n ≤ mostLabel := by decide +kernel
  exact hall _ length.toNat_lt (UInt8.ofNat_toNat.symm ▸ h)

theorem ofNat_length_ne_zero {label : List UInt8} (hpos : 0 < label.length)
    (hle : label.length ≤ mostLabel) : UInt8.ofNat label.length ≠ 0 := by
  intro hzero
  have hlength := UInt8.toNat_ofNat_of_lt' (hle.trans_lt (by decide : mostLabel < UInt8.size))
  rw [hzero] at hlength
  exact hpos.ne hlength

theorem run_of_turn {reading next : Reading} (h : Turn bytes reading (.inl next)) (fuel : ℕ) :
    run bytes (fuel + 1) reading = run bytes fuel next := by
  rw [run, step_of_turn h]

/-- The loop reads a name that stands in the message. -/
theorem run_of_nameAt {pointers position next : ℕ} {labels : List (List UInt8)}
    (h : NameAt bytes pointers position labels next) {reading : Reading}
    (hposition : reading.position = position) (hjumps : reading.jumps + pointers ≤ mostPointers) {fuel : ℕ}
    (hfuel : remaining bytes reading < fuel) :
    run bytes fuel reading = some (.ok (labels.foldl push reading.name, reading.after.getD next)) := by
  induction h generalizing reading fuel with
  | root hlength =>
    obtain ⟨fuel, rfl⟩ := Nat.exists_eq_succ_of_ne_zero (Nat.ne_zero_of_lt hfuel)
    subst hposition
    rw [run, step_of_turn (.root hlength)]
    rfl
  | label label hpos hle hlabel hrest ih =>
    obtain ⟨fuel, rfl⟩ := Nat.exists_eq_succ_of_ne_zero (Nat.ne_zero_of_lt hfuel)
    subst hposition
    have hlength : (UInt8.ofNat label.length).toNat = label.length :=
      UInt8.toNat_ofNat_of_lt' (hle.trans_lt (by decide))
    have hne : UInt8.ofNat label.length ≠ 0 := ofNat_length_ne_zero hpos hle
    have hslice := slice_of_begins (lt_length_of_getElem? (getElem?_of_begins hlabel))
      (prefix_tail hlabel)
    have hturn := Turn.label _ label (getElem?_of_begins hlabel) (mask_label _ hle) hne
      (hlength.symm ▸ hslice)
    have hless := remaining_lt hturn
    rw [hlength] at hturn hless
    rw [run_of_turn hturn, List.foldl_cons]
    refine ih ?_ ?_ (hless.trans_le (Nat.le_of_lt_succ hfuel))
    · rfl
    · exact hjumps
  | pointer high low hhigh hbytes htarget hrest ih =>
    obtain ⟨fuel, rfl⟩ := Nat.exists_eq_succ_of_ne_zero (Nat.ne_zero_of_lt hfuel)
    subst hposition htarget
    have hlow := getElem?_of_begins (prefix_tail hbytes)
    have hturn := Turn.pointer _ low (getElem?_of_begins hbytes) hhigh hlow (by omega)
    have hless := remaining_lt hturn
    rw [run_of_turn hturn]
    have hrest := ih rfl (by dsimp only; omega) (hless.trans_le (Nat.le_of_lt_succ hfuel))
    rw [hrest]
    cases reading.after <;> rfl

/-- The text of the name with some labels. -/
def nameText (labels : List (List UInt8)) : String := labels.foldl push ""

/-- A name that stands somewhere is read from there. -/
theorem readName_of_nameAt {pointers position next : ℕ} {labels : List (List UInt8)}
    (h : NameAt bytes pointers position labels next) (hpointers : pointers ≤ mostPointers) :
    readName bytes position = .ok (nameText labels, next) := by
  have hrun : run bytes (remaining bytes (start position) + 1) (start position) =
      some (.ok (nameText labels, next)) :=
    run_of_nameAt h rfl ((Nat.zero_add pointers).trans_le hpointers) (Nat.lt_succ_self _)
  exact Option.some.inj ((run_start position).symm.trans hrun)

/-- What is read stands there. -/
theorem nameAt_of_run {fuel : ℕ} {reading : Reading} {result : String × ℕ}
    (h : run bytes fuel reading = some (.ok result)) (hjumps : reading.jumps ≤ mostPointers) :
    ∃ pointers labels next, NameAt bytes pointers reading.position labels next ∧
      reading.jumps + pointers ≤ mostPointers ∧
        result = (labels.foldl push reading.name, reading.after.getD next) := by
  induction fuel generalizing reading with
  | zero => cases h
  | succ fuel ih =>
    rw [run] at h
    split at h
    · cases h
    · rename_i found hstep
      obtain rfl := Except.ok.inj (Option.some.inj h)
      cases turn_of_step hstep with
      | root hlength => exact ⟨0, [], _, .root hlength, hjumps, rfl⟩
    · rename_i next hstep
      cases turn_of_step hstep with
      | pointer length low hlength hmark hlow hmore =>
        obtain ⟨pointers, labels, last, hname, hless, hresult⟩ := ih h hmore
        refine ⟨pointers + 1, labels, reading.position + 2,
          .pointer length low hmark ?_ rfl hname, by dsimp only at hless; omega, hresult.trans ?_⟩
        · rw [drop_of_getElem? hlength, drop_of_getElem? hlow]
          exact List.prefix_append [length, low] _
        · cases reading.after <;> rfl
      | label length label hlength hmark hpos hlabel =>
        obtain ⟨pointers, labels, last, hname, hless, hresult⟩ := ih h hjumps
        obtain ⟨hbegins, hsize⟩ := prefix_of_slice hlabel
        rw [Nat.add_sub_cancel_left] at hsize
        have hpositive : 0 < label.length :=
          hsize ▸ Nat.pos_of_ne_zero fun hzero => hpos (UInt8.toNat_inj.mp hzero)
        refine ⟨pointers, label :: labels, last, ?_, hless, hresult⟩
        rw [← hsize] at hname
        refine .label label hpositive (hsize ▸ le_of_mask hmark) ?_ hname
        rw [hsize, UInt8.ofNat_toNat, drop_of_getElem? hlength]
        exact List.cons_prefix_cons.mpr ⟨rfl, hbegins⟩

/-- A name that is read stands there, with no more pointers than may be followed. -/
theorem nameAt_of_readName {position next : ℕ} {name : String}
    (h : readName bytes position = .ok (name, next)) : ∃ pointers labels,
      NameAt bytes pointers position labels next ∧ pointers ≤ mostPointers ∧ name = nameText labels := by
  obtain ⟨pointers, labels, last, hname, hless, hresult⟩ :=
    nameAt_of_run ((run_start position).trans (congrArg some h)) (Nat.zero_le _)
  obtain ⟨rfl, rfl⟩ := Prod.mk.inj hresult
  exact ⟨pointers, labels, hname, (Nat.zero_add pointers).symm.trans_le hless, rfl⟩

/-- What stands somewhere is one name. -/
theorem NameAt.unique {pointers pointers' position next next' : ℕ} {labels labels' : List (List UInt8)}
    (h : NameAt bytes pointers position labels next) (h' : NameAt bytes pointers' position labels' next') :
    labels = labels' ∧ next = next' := by
  induction h generalizing pointers' labels' next' with
  | root hlength =>
    cases h' with
    | root hlength' => exact ⟨rfl, rfl⟩
    | label label hpos hle hlabel hrest =>
      rw [getElem?_of_begins hlabel] at hlength
      exact absurd (Option.some.inj hlength) (ofNat_length_ne_zero hpos hle)
    | pointer high low hhigh hbytes htarget hrest =>
      rw [getElem?_of_begins hbytes] at hlength
      obtain rfl := Option.some.inj hlength
      exact absurd hhigh (by decide)
  | label label hpos hle hlabel hrest ih =>
    have hbyte := getElem?_of_begins hlabel
    cases h' with
    | root hlength =>
      rw [hbyte] at hlength
      exact absurd (Option.some.inj hlength) (ofNat_length_ne_zero hpos hle)
    | label label' hpos' hle' hlabel' hrest' =>
      have hfirst := Option.some.inj (hbyte.symm.trans (getElem?_of_begins hlabel'))
      have hlength : label.length = label'.length := by
        have hnumber := congrArg UInt8.toNat hfirst
        rwa [UInt8.toNat_ofNat_of_lt' (hle.trans_lt (by decide)),
          UInt8.toNat_ofNat_of_lt' (hle'.trans_lt (by decide))] at hnumber
      obtain rfl : label = label' := by
        rw [List.prefix_iff_eq_take.mp (prefix_tail hlabel),
          List.prefix_iff_eq_take.mp (prefix_tail hlabel'), hlength]
      obtain ⟨rfl, rfl⟩ := ih hrest'
      exact ⟨rfl, rfl⟩
    | pointer high low hhigh hbytes htarget hrest' =>
      rw [getElem?_of_begins hbytes] at hbyte
      obtain rfl := Option.some.inj hbyte
      rw [mask_label _ hle] at hhigh
      exact absurd hhigh (by decide)
  | pointer high low hhigh hbytes htarget hrest ih =>
    have hbyte := getElem?_of_begins hbytes
    cases h' with
    | root hlength =>
      rw [hbyte] at hlength
      obtain rfl := Option.some.inj hlength
      exact absurd hhigh (by decide)
    | label label hpos hle hlabel hrest' =>
      rw [getElem?_of_begins hlabel] at hbyte
      obtain rfl := Option.some.inj hbyte
      rw [mask_label _ hle] at hhigh
      exact absurd hhigh (by decide)
    | pointer high' low' hhigh' hbytes' htarget' hrest' =>
      obtain rfl := Option.some.inj (hbyte.symm.trans (getElem?_of_begins hbytes'))
      obtain rfl := Option.some.inj ((getElem?_of_begins (prefix_tail hbytes)).symm.trans
        (getElem?_of_begins (prefix_tail hbytes')))
      subst htarget htarget'
      exact ⟨(ih hrest').1, rfl⟩

/-! ## What is written is read -/

/-- A label is written where it is not empty and not too long. -/
theorem writeLabel_eq_ok {name label : String} {case : Case} {out written : List UInt8} :
    writeLabel name case out label = .ok written ↔ label ≠ "" ∧ label.utf8ByteSize ≤ mostLabel ∧
      written = out ++ UInt8.ofNat label.utf8ByteSize :: case.cased (Text.bytes label) := by
  simp only [writeLabel, bind_eq_ok, ensure_eq_ok]
  constructor
  · rintro ⟨_, hne, _, hle, h⟩
    exact ⟨hne, hle, (Except.ok.inj h).symm⟩
  · rintro ⟨hne, hle, rfl⟩
    exact ⟨(), hne, (), hle, rfl⟩

/-- A label behind its length. -/
def item (case : Case) (label : String) : List UInt8 :=
  UInt8.ofNat label.utf8ByteSize :: case.cased (Text.bytes label)

theorem foldlM_writeLabel_eq_ok {name : String} {labels : List String} {case : Case}
    {out written : List UInt8} :
    labels.foldlM (writeLabel name case) out = .ok written ↔
      (∀ label ∈ labels, label ≠ "" ∧ label.utf8ByteSize ≤ mostLabel) ∧
        written = out ++ labels.flatMap (item case) := by
  induction labels generalizing out with
  | nil =>
    rw [List.foldlM_nil, List.flatMap_nil, List.append_nil]
    exact ⟨fun h => ⟨fun _ hmem => absurd hmem List.not_mem_nil, (Except.ok.inj h).symm⟩,
      fun h => congrArg Except.ok h.2.symm⟩
  | cons label labels ih =>
    rw [List.foldlM_cons, bind_eq_ok, List.forall_mem_cons, List.flatMap_cons, ← List.append_assoc]
    constructor
    · rintro ⟨middle, hlabel, hrest⟩
      obtain ⟨hne, hle, rfl⟩ := writeLabel_eq_ok.mp hlabel
      obtain ⟨hlabels, hwritten⟩ := ih.mp hrest
      exact ⟨⟨⟨hne, hle⟩, hlabels⟩, hwritten⟩
    · rintro ⟨⟨⟨hne, hle⟩, hlabels⟩, hwritten⟩
      exact ⟨_, writeLabel_eq_ok.mpr ⟨hne, hle, rfl⟩, ih.mpr ⟨hlabels, hwritten⟩⟩

/-- The labels of a name. -/
def labelsOf (name : String) : List String :=
  let trimmed := Text.trimEndMatches name '.'
  if trimmed = "" then [] else Text.split trimmed '.'

/-- The bytes of a name. -/
def encoded (case : Case) (name : String) : List UInt8 := (labelsOf name).flatMap (item case) ++ [0]

/-- A name is written when its labels and all of it are short enough, at the end of what is there. -/
theorem writeName_eq_ok {name : String} {case : Case} {out written : List UInt8} :
    writeName name case out = .ok written ↔
      (∀ label ∈ labelsOf name, label ≠ "" ∧ label.utf8ByteSize ≤ mostLabel) ∧
        (encoded case name).length ≤ mostName ∧ written = out ++ encoded case name := by
  have hlabels : writeLabels name case out = (labelsOf name).foldlM (writeLabel name case) out := by
    rw [writeLabels, labelsOf]
    split <;> rfl
  rw [writeName, hlabels, bind_eq_ok]
  constructor
  · rintro ⟨middle, hmiddle, h⟩
    obtain ⟨_, hle, h⟩ := bind_eq_ok.mp h
    obtain ⟨hshort, rfl⟩ := foldlM_writeLabel_eq_ok.mp hmiddle
    rw [ensure_eq_ok, List.append_assoc, List.length_append, Nat.add_sub_cancel_left] at hle
    exact ⟨hshort, hle, (Except.ok.inj h).symm.trans (List.append_assoc ..)⟩
  · rintro ⟨hshort, hle, rfl⟩
    refine ⟨_, foldlM_writeLabel_eq_ok.mpr ⟨hshort, rfl⟩, ?_⟩
    rw [List.append_assoc, List.length_append, Nat.add_sub_cancel_left, ← encoded, ensure, if_pos hle]
    rfl

/-- Labels that are written at some place stand there. -/
theorem nameAt_labels {labels : List String}
    (hlabels : ∀ label ∈ labels, label ≠ "" ∧ label.utf8ByteSize ≤ mostLabel) {position : ℕ}
    (h : labels.flatMap (item .asGiven) ++ [0] <+: bytes.drop position) :
    NameAt bytes 0 position (labels.map Text.bytes)
      (position + (labels.flatMap (item .asGiven) ++ [0]).length) := by
  induction labels generalizing position with
  | nil => exact .root (getElem?_of_begins h)
  | cons label labels ih =>
    obtain ⟨⟨hne, hle⟩, hrest⟩ := List.forall_mem_cons.mp hlabels
    have hlength : (Text.bytes label).length = label.utf8ByteSize := by
      rw [Text.bytes, Array.length_toList]
      rfl
    rw [List.flatMap_cons, List.append_assoc] at h ⊢
    have hpos : 0 < (Text.bytes label).length :=
      hlength ▸ Nat.pos_of_ne_zero fun hzero => hne (String.utf8ByteSize_eq_zero_iff.mp hzero)
    have hnext := ih hrest (prefix_behind _ h)
    have hitem : (item .asGiven label).length = 1 + (Text.bytes label).length := by
      rw [item, List.length_cons, Nat.add_comm]
      rfl
    refine .label _ hpos (hlength ▸ hle) ?_ ?_
    · rw [hlength]
      exact (List.prefix_append _ _).trans h
    · rw [hitem, ← Nat.add_assoc] at hnext
      rwa [List.length_append, hitem, ← Nat.add_assoc, ← Nat.add_assoc]

/-- The text of some labels is what they are parted from by dots. -/
theorem foldl_push (name : String) (hname : name ≠ "") (labels : List String) :
    ((labels.map Text.bytes).foldl push name).toList =
      name.toList ++ Segments.rooted '.' (labels.map String.toList) := by
  induction labels generalizing name with
  | nil => exact (List.append_nil _).symm
  | cons label labels ih =>
    have hpush : push name (Text.bytes label) = name.push '.' ++ label := by
      rw [push, if_neg hname, Text.fromUtf8Lossy_bytes]
    have hne : name.push '.' ++ label ≠ "" := fun h => by
      have hlist := congrArg String.toList h
      simp at hlist
    rw [List.map_cons, List.foldl_cons, hpush, ih _ hne]
    simp [Segments.rooted]

theorem intercalate_cons_eq (first : List Char) (rest : List (List Char)) :
    ['.'].intercalate (first :: rest) = first ++ Segments.rooted '.' rest := by
  induction rest generalizing first with
  | nil => simp [Segments.rooted]
  | cons second rest ih =>
    rw [List.intercalate_cons_cons, ih, List.append_assoc]
    rfl

/-- The text of the labels of a name is the name without the dots behind it. -/
theorem nameText_labelsOf {name : String} (h : ∀ label ∈ labelsOf name, label ≠ "") :
    nameText ((labelsOf name).map Text.bytes) = Text.trimEndMatches name '.' := by
  by_cases hempty : Text.trimEndMatches name '.' = ""
  · rw [labelsOf, hempty]
    rfl
  · have hlabels : labelsOf name = Text.split (Text.trimEndMatches name '.') '.' := if_neg hempty
    have hjoined : ['.'].intercalate ((labelsOf name).map String.toList) =
        (Text.trimEndMatches name '.').toList := by
      rw [hlabels, Text.split, List.map_map, show String.toList ∘ String.ofList = id from
        funext fun _ => String.toList_ofList, List.map_id, List.intercalate_splitOn]
    obtain ⟨first, rest, hsplit⟩ : ∃ first rest, labelsOf name = first :: rest := by
      rw [hlabels, Text.split]
      obtain ⟨part, parts, hparts⟩ := List.exists_cons_of_ne_nil
        (List.splitOn_ne_nil '.' (Text.trimEndMatches name '.').toList)
      exact ⟨_, _, by rw [hparts, List.map_cons]⟩
    have hfirst : push "" (Text.bytes first) = first := by
      rw [push, if_pos rfl, Text.fromUtf8Lossy_bytes, String.empty_append]
    have hne := h first (hsplit ▸ List.mem_cons_self)
    rw [hsplit, List.map_cons, intercalate_cons_eq] at hjoined
    rw [hsplit, nameText, List.map_cons, List.foldl_cons, hfirst]
    exact String.toList_inj.mp ((foldl_push first hne rest).trans hjoined)

/-- A name that is written stands where it was written. -/
theorem nameAt_writeName {name : String} {out written : List UInt8}
    (h : writeName name .asGiven out = .ok written) (rest : List UInt8) :
    NameAt (written ++ rest) 0 out.length ((labelsOf name).map Text.bytes) written.length := by
  obtain ⟨hlabels, -, rfl⟩ := writeName_eq_ok.mp h
  have hstands : encoded .asGiven name <+: (out ++ encoded .asGiven name ++ rest).drop out.length := by
    rw [List.append_assoc, List.drop_left]
    exact List.prefix_append _ _
  rw [List.length_append]
  exact nameAt_labels hlabels hstands

/-- What is written of a name, in front of anything, is read as the name without the dots behind it. -/
theorem readName_writeName {name : String} {out written : List UInt8}
    (h : writeName name .asGiven out = .ok written) (rest : List UInt8) :
    readName (written ++ rest) out.length = .ok (Text.trimEndMatches name '.', written.length) := by
  rw [readName_of_nameAt (nameAt_writeName h rest) (Nat.zero_le _),
    nameText_labelsOf fun label hlabel => ((writeName_eq_ok.mp h).1 label hlabel).1]

end EkEk.Tls.Wire
