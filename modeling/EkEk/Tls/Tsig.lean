import EkEk.Config.Config
import EkEk.Tls.Answers
import Mathlib.Logic.Equiv.Basic

/-!
# Signatures of DNS answers

Reference: `crates/ek-ek-tls/src/dns/tsig.rs`.

An answer is signed by the record at its end. `verify` takes the MAC, the time and the error from that
record, and puts what the MAC was made over together again: from the answer without the record, and from
the name of the key, the name of the algorithm and constants of its own where the record has fields of its
own. `Carries` says which record an answer carries, and `Signature.covered` what a MAC is made over that covers
that very record. `binds_iff` is that the two are the same for the records that have the constants in
their fields and nothing behind them, and for no others.
-/

namespace EkEk.Tls.Tsig

open Checked Wire

/-- How far apart the two clocks may be, in seconds. -/
def fudge : UInt16 := 300

/-- The name of the algorithm as it is written on the wire. -/
def algorithmName : TsigAlgorithm → String
  | .hmacSha256 => "hmac-sha256"
  | .hmacSha512 => "hmac-sha512"

def missing : Failure :=
  ⟨.crypto, "the name server answered without signing, and an unsigned answer proves nothing"⟩

def endsTooEarly : Failure := ⟨.crypto, "the signature record ends too early"⟩

/-- Whether two texts are the same but for the case of their ASCII letters. -/
def eqIgnoreAsciiCase (first second : String) : Bool :=
  (Text.bytes first).map toAsciiLowercase = (Text.bytes second).map toAsciiLowercase

/-! ## The record -/

/-- The fields of a signature record. -/
structure Rdata where
  algorithm : String
  signedAt : ℕ
  fudge : UInt16
  mac : List UInt8
  error : UInt16
  other : List UInt8
deriving DecidableEq, Repr

section

variable (data : List UInt8)

/-- Some bytes of a record. -/
def field (position length : ℕ) : Except Failure (List UInt8) :=
  found (Records.slice data position (position + length)) endsTooEarly

/-- A number of a record. -/
def number (position : ℕ) : Except Failure UInt16 :=
  (field data position 2).map fun bytes => UInt16.ofNat (ByteOrder.value bytes)

def readRdata : Except Failure Rdata := do
  let (algorithm, position) ← readName data 0
  let time ← field data position 6
  let fudge ← number data (position + 6)
  let macSize ← number data (position + 8)
  let mac ← field data (position + 10) macSize.toNat
  let rest := position + 10 + macSize.toNat
  let error ← number data (rest + 2)
  let otherSize ← number data (rest + 4)
  let other ← field data (rest + 6) otherSize.toNat
  return ⟨algorithm, ByteOrder.value time, fudge, mac, error, other⟩

end

/-- The part of a signature record the signature itself covers. -/
def variablesOf (keyName : String) (algorithm : TsigAlgorithm) (signedAt : ℕ) (error : UInt16)
    (other : List UInt8) : Except Failure (List UInt8) := do
  let named ← writeName keyName .canonical []
  let out ← writeName (algorithmName algorithm) .canonical (named ++ u16 classAny ++ u32 0)
  ensure (other.length < 2 ^ 16)
    ⟨.crypto, "a signature carries more trailing data than one record holds"⟩
  return out ++ ByteOrder.bigEndian 6 signedAt ++ u16 fudge ++ u16 error ++
    u16 (UInt16.ofNat other.length) ++ other

/-! ## The last record -/

section

variable (bytes : List UInt8)

/-- A byte of a message, where a record should be. -/
def byteOrMissing (position : ℕ) : Except Halt UInt8 := found bytes[position]? (.failure missing)

/-- Where the last of so many records begins. -/
def lastFrom : ℕ → ℕ → ℕ → Except Halt ℕ
  | 0, begins, _ => .ok begins
  | count + 1, _, position => do
    let (_, next) ← nameAt bytes position
    let length := fromBeBytes (← byteOrMissing bytes (next + 8)) (← byteOrMissing bytes (next + 9))
    lastFrom count position (next + 10 + length.toNat)

/-- How many records a message counts behind its questions. -/
def recordCount (head : Header) : ℕ :=
  head.answers.toNat + head.authorities.toNat + head.additional.toNat

/-- Where the last record of a message begins, if it has one. -/
def lastRecord : Except Halt (Option ℕ) := do
  let head ← Header.read bytes
  let position ← skipQuestions bytes head.questions.toNat 12
  if recordCount head = 0 then return none
  return some (← lastFrom bytes (recordCount head) position position)

end

/-! ## Verifying -/

/-- What a MAC is made over: the MAC of the request behind its length, the answer, and the variables. -/
def digested (requestMac stripped covered : List UInt8) : List UInt8 :=
  u16 (UInt16.ofNat requestMac.length) ++ requestMac ++ stripped ++ covered

/-- A message that counts its additional records like this. -/
def counting (message : List UInt8) (additional : UInt16) : List UInt8 :=
  message.take 10 ++ u16 additional ++ message.drop 12

/-- Why a name server refused a signature. -/
def refusal (error : UInt16) : Failure where
  reason := .configuration
  detail :=
    if error = 16 then
      "the name server does not hold the key this update was signed with; " ++
        "the shared key stored here and the one in its configuration differ"
    else if error = 17 then "the name server knows no key by this name"
    else if error = 18 then
      "the name server and this machine disagree about the time by more than the signature allows"
    else s!"the name server refused the signature with code {error}"

section

variable (hmac : TsigAlgorithm → List UInt8 → List UInt8 → List UInt8)
variable (response : List UInt8) (keyName : String) (algorithm : TsigAlgorithm)
  (secret requestMac : List UInt8) (now : ℕ)

/-- The answer without its own signature record, and with the count it had before. -/
def strip (position : ℕ) : Except Halt (List UInt8) := do
  let stripped ← found (Records.slice response 0 position) .panic
  let additional ← Header.word stripped 10
  ensure (additional ≠ 0) (.failure ⟨.crypto, "the answer carries a signature it does not count"⟩)
  return counting stripped (additional - 1)

/-- Check the signature on an answer against the request it answers. -/
def verify : Except Halt Unit := do
  let position ← found (← lastRecord response) (.failure missing)
  let (name, after) ← nameAt response position
  let kind := fromBeBytes (← byteOrMissing response after) (← byteOrMissing response (after + 1))
  ensure (kind = typeTsig) (.failure missing)
  ensure (eqIgnoreAsciiCase name (Text.trimEndMatches keyName '.'))
    (.failure ⟨.crypto, s!"the name server signed its answer as {name}, not as {keyName}"⟩)
  let length := fromBeBytes (← byteOrMissing response (after + 8)) (← byteOrMissing response (after + 9))
  let start := after + 10
  let data ← found (Records.slice response start (start + length.toNat)) (.failure endsTooEarly)
  let held ← (readRdata data).mapError .failure
  ensure (eqIgnoreAsciiCase held.algorithm (algorithmName algorithm)) (.failure
    ⟨.crypto, s!"the name server signed its answer with {held.algorithm}, not with {algorithmName algorithm}"⟩)
  ensure (held.error = 0) (.failure (refusal held.error))
  ensure (max now held.signedAt - min now held.signedAt ≤ held.fudge.toNat) (.failure ⟨.crypto,
    s!"the answer was signed {max now held.signedAt - min now held.signedAt}s away from this clock, " ++
      s!"more than the {held.fudge}s allowed"⟩)
  let stripped ← strip response position
  let covered ← (variablesOf keyName algorithm held.signedAt held.error held.other).mapError .failure
  ensure (requestMac.length < 2 ^ 16) (.failure ⟨.crypto, "the request signature is not a signature"⟩)
  let expected := hmac algorithm secret (digested requestMac stripped covered)
  ensure (expected = held.mac) (.failure ⟨.crypto,
    "the answer's signature does not match the key this update was signed with"⟩)

end

/-! ## Records an answer carries -/

/-- The last of so many records stands here, and the first of them there. -/
inductive LastAt (bytes : List UInt8) : ℕ → ℕ → ℕ → Prop where
  | one {pointers position next : ℕ} {labels : List (List UInt8)} (length : UInt16)
    (hname : NameAt bytes pointers position labels next) (hpointers : pointers ≤ mostPointers)
    (hlength : u16 length <+: bytes.drop (next + 8)) : LastAt bytes 1 position position
  | more {pointers count position next last : ℕ} {labels : List (List UInt8)} (length : UInt16)
    (hname : NameAt bytes pointers position labels next) (hpointers : pointers ≤ mostPointers)
    (hlength : u16 length <+: bytes.drop (next + 8))
    (hrest : LastAt bytes (count + 1) (next + 10 + length.toNat) last) :
    LastAt bytes (count + 2) position last

/-- The fields of a signature record. -/
structure Signature where
  position : ℕ
  name : List (List UInt8)
  recordClass : UInt16
  ttl : UInt32
  algorithm : List (List UInt8)
  signedAt : ℕ
  fudge : UInt16
  mac : List UInt8
  originalId : UInt16
  error : UInt16
  other : List UInt8

namespace Signature

/-- What stands behind the algorithm. -/
def fields (signature : Signature) : List UInt8 :=
  ByteOrder.bigEndian 6 signature.signedAt ++ u16 signature.fudge ++
    u16 (UInt16.ofNat signature.mac.length) ++ signature.mac ++ u16 signature.originalId ++
      u16 signature.error ++ u16 (UInt16.ofNat signature.other.length) ++ signature.other

structure Fits (signature : Signature) : Prop where
  signedAt : signature.signedAt < 256 ^ 6
  mac : signature.mac.length < 2 ^ 16
  other : signature.other.length < 2 ^ 16

end Signature

/-- The data of a record holds a signature, and so much behind it. -/
structure Holds (data : List UInt8) (signature : Signature) (spare : List UInt8) : Prop where
  fits : signature.Fits
  length : data.length < 2 ^ 16
  stands : ∃ pointers next, NameAt data pointers 0 signature.algorithm next ∧
    pointers ≤ mostPointers ∧ data.drop next = signature.fields ++ spare

/-- The last record of an answer is a signature record with such fields, and there is so much behind it:
in the record, and behind the record. -/
structure Carries (response : List UInt8) (signature : Signature) (spare trailing : List UInt8) : Prop where
  last : ∃ head position, head.write [] <+: response ∧
    QuestionsAt response head.questions.toNat 12 position ∧
      LastAt response (recordCount head) position signature.position
  stands : ∃ pointers next data, NameAt response pointers signature.position signature.name next ∧
    pointers ≤ mostPointers ∧ Holds data signature spare ∧
      response.drop next =
        Record.body typeTsig signature.recordClass signature.ttl data ++ trailing

/-! ### The last record is found -/

variable {bytes : List UInt8}

theorem byteOrMissing_eq_ok {position : ℕ} {byte : UInt8} :
    byteOrMissing bytes position = .ok byte ↔ bytes[position]? = some byte := found_eq_ok

theorem nameAt_eq_ok {position next : ℕ} {name : String} :
    nameAt bytes position = .ok (name, next) ↔ ∃ pointers labels,
      NameAt bytes pointers position labels next ∧ pointers ≤ mostPointers ∧ name = nameText labels := by
  rw [nameAt, mapError_eq_ok]
  constructor
  · exact nameAt_of_readName
  · rintro ⟨pointers, labels, hname, hpointers, rfl⟩
    exact readName_of_nameAt hname hpointers

theorem prefix_of_bytes {position : ℕ} {high low : UInt8} (hhigh : bytes[position]? = some high)
    (hlow : bytes[position + 1]? = some low) : u16 (fromBeBytes high low) <+: bytes.drop position := by
  rw [u16_fromBeBytes, drop_of_getElem? hhigh, drop_of_getElem? hlow]
  exact List.prefix_append [high, low] _

theorem bytes_of_begins {position : ℕ} {n : UInt16} (h : u16 n <+: bytes.drop position) :
    ∃ high low, bytes[position]? = some high ∧ bytes[position + 1]? = some low ∧
      fromBeBytes high low = n := by
  obtain ⟨high, low, hbytes, hn⟩ := u16_eq n
  rw [hbytes] at h
  exact ⟨high, low, getElem?_of_begins h, getElem?_of_begins (prefix_tail h), hn⟩

theorem lastFrom_succ {count begins position last : ℕ} :
    lastFrom bytes (count + 1) begins position = .ok last ↔ ∃ pointers labels next length,
      NameAt bytes pointers position labels next ∧ pointers ≤ mostPointers ∧
        u16 length <+: bytes.drop (next + 8) ∧
          lastFrom bytes count position (next + 10 + length.toNat) = .ok last := by
  rw [lastFrom, bind_eq_ok]
  constructor
  · rintro ⟨⟨name, next⟩, hname, h⟩
    obtain ⟨high, hhigh, h⟩ := bind_eq_ok.mp h
    obtain ⟨low, hlow, h⟩ := bind_eq_ok.mp h
    obtain ⟨pointers, labels, hstands, hpointers, -⟩ := nameAt_eq_ok.mp hname
    exact ⟨pointers, labels, next, _, hstands, hpointers,
      prefix_of_bytes (byteOrMissing_eq_ok.mp hhigh) (byteOrMissing_eq_ok.mp hlow), h⟩
  · rintro ⟨pointers, labels, next, length, hstands, hpointers, hlength, h⟩
    obtain ⟨high, low, hhigh, hlow, rfl⟩ := bytes_of_begins hlength
    refine ⟨_, nameAt_eq_ok.mpr ⟨pointers, labels, hstands, hpointers, rfl⟩, ?_⟩
    exact bind_eq_ok.mpr ⟨high, byteOrMissing_eq_ok.mpr hhigh,
      bind_eq_ok.mpr ⟨low, byteOrMissing_eq_ok.mpr hlow, h⟩⟩

theorem lastFrom_eq_ok {count begins position last : ℕ} :
    lastFrom bytes (count + 1) begins position = .ok last ↔ LastAt bytes (count + 1) position last := by
  induction count generalizing begins position with
  | zero =>
    rw [lastFrom_succ]
    constructor
    · rintro ⟨pointers, labels, next, length, hname, hpointers, hlength, h⟩
      obtain rfl := Except.ok.inj h
      exact .one length hname hpointers hlength
    · intro h
      cases h with
      | one length hname hpointers hlength => exact ⟨_, _, _, length, hname, hpointers, hlength, rfl⟩
  | succ count ih =>
    rw [lastFrom_succ]
    constructor
    · rintro ⟨pointers, labels, next, length, hname, hpointers, hlength, h⟩
      exact .more length hname hpointers hlength (ih.mp h)
    · intro h
      cases h with
      | more length hname hpointers hlength hrest =>
        exact ⟨_, _, _, length, hname, hpointers, hlength, ih.mpr hrest⟩

theorem skipQuestions_eq_ok {count position last : ℕ} :
    skipQuestions bytes count position = .ok last ↔ QuestionsAt bytes count position last := by
  refine ⟨fun h => ?_, skipQuestions_eq⟩
  induction count generalizing position with
  | zero =>
    obtain rfl := Except.ok.inj h
    exact .none position
  | succ count ih =>
    obtain ⟨⟨name, next⟩, hname, h⟩ := bind_eq_ok.mp h
    obtain ⟨pointers, labels, hstands, hpointers, -⟩ := nameAt_eq_ok.mp hname
    exact .more hstands hpointers (ih h)

theorem word_eq_ok {position : ℕ} {n : UInt16} :
    Header.word bytes position = .ok n ↔ u16 n <+: bytes.drop position := by
  refine ⟨fun h => ?_, word_of_begins⟩
  obtain ⟨high, hhigh, h⟩ := bind_eq_ok.mp h
  obtain ⟨low, hlow, h⟩ := bind_eq_ok.mp h
  obtain rfl := Except.ok.inj h
  exact prefix_of_bytes (found_eq_ok.mp hhigh) (found_eq_ok.mp hlow)

theorem prefix_append_of {position : ℕ} {first second : List UInt8} (hfirst : first <+: bytes.drop position)
    (hsecond : second <+: bytes.drop (position + first.length)) :
    first ++ second <+: bytes.drop position := by
  obtain ⟨rest, hrest⟩ := hfirst
  rw [← List.drop_drop, ← hrest, List.drop_left] at hsecond
  rw [← hrest]
  exact (List.prefix_append_right_inj first).mpr hsecond

/-- A header that is read is there. -/
theorem read_eq_ok {head : Header} : Header.read bytes = .ok head ↔ head.write [] <+: bytes := by
  refine ⟨fun h => ?_, read_of_begins⟩
  obtain ⟨_, -, h⟩ := bind_eq_ok.mp h
  obtain ⟨id, hid, h⟩ := bind_eq_ok.mp h
  obtain ⟨flags, hflags, h⟩ := bind_eq_ok.mp h
  obtain ⟨questions, hquestions, h⟩ := bind_eq_ok.mp h
  obtain ⟨answers, hanswers, h⟩ := bind_eq_ok.mp h
  obtain ⟨authorities, hauthorities, h⟩ := bind_eq_ok.mp h
  obtain ⟨additional, hadditional, h⟩ := bind_eq_ok.mp h
  obtain rfl := Except.ok.inj h
  rw [word_eq_ok] at hid hflags hquestions hanswers hauthorities hadditional
  exact prefix_append_of hid (prefix_append_of hflags (prefix_append_of hquestions
    (prefix_append_of hanswers (prefix_append_of hauthorities hadditional))))

theorem LastAt.pos {count position last : ℕ} (h : LastAt bytes count position last) :
    ∃ fewer, count = fewer + 1 := by
  cases h with
  | one => exact ⟨0, rfl⟩
  | more => exact ⟨_, rfl⟩

theorem lastRecord_eq_ok {last : ℕ} : lastRecord bytes = .ok (some last) ↔
    ∃ head position, head.write [] <+: bytes ∧ QuestionsAt bytes head.questions.toNat 12 position ∧
      LastAt bytes (recordCount head) position last := by
  rw [lastRecord, bind_eq_ok]
  constructor
  · rintro ⟨head, hhead, h⟩
    obtain ⟨position, hposition, h⟩ := bind_eq_ok.mp h
    refine ⟨head, position, read_eq_ok.mp hhead, skipQuestions_eq_ok.mp hposition, ?_⟩
    split at h
    · cases h
    · rename_i hsome
      obtain ⟨found, hfound, h⟩ := bind_eq_ok.mp h
      obtain rfl := Option.some.inj (Except.ok.inj h)
      obtain ⟨fewer, hfewer⟩ := Nat.exists_eq_succ_of_ne_zero hsome
      rw [hfewer] at hfound ⊢
      exact lastFrom_eq_ok.mp hfound
  · rintro ⟨head, position, hhead, hquestions, hlast⟩
    obtain ⟨fewer, hfewer⟩ := hlast.pos
    refine ⟨head, read_eq_ok.mpr hhead, ?_⟩
    rw [skipQuestions_eq hquestions, ok_bind, if_neg (by omega)]
    refine bind_eq_ok.mpr ⟨last, ?_, rfl⟩
    rw [hfewer] at hlast ⊢
    exact lastFrom_eq_ok.mpr hlast

/-! ### The fields are read -/

/-- What is read of a signature. -/
def Signature.held (signature : Signature) : Rdata :=
  ⟨nameText signature.algorithm, signature.signedAt, signature.fudge, signature.mac, signature.error,
    signature.other⟩

theorem field_eq_ok {data : List UInt8} {position length : ℕ} {part : List UInt8} :
    field data position length = .ok part ↔
      part <+: data.drop position ∧ part.length = length ∧ position ≤ data.length := by
  rw [field, found_eq_ok]
  constructor
  · intro h
    obtain ⟨hbegins, hlength⟩ := prefix_of_slice h
    obtain ⟨hle, hstop⟩ := le_length_of_slice h
    exact ⟨hbegins, by omega, by omega⟩
  · rintro ⟨hbegins, rfl, hle⟩
    exact slice_of_begins hle hbegins

theorem value_u16 (n : UInt16) : UInt16.ofNat (ByteOrder.value (u16 n)) = n := by
  rw [u16, ByteOrder.value_bigEndian n.toNat_lt, UInt16.ofNat_toNat]

theorem u16_value {part : List UInt8} (h : part.length = 2) :
    u16 (UInt16.ofNat (ByteOrder.value part)) = part := by
  have hlt := ByteOrder.value_lt part
  rw [h] at hlt
  rw [u16, UInt16.toNat_ofNat_of_lt' hlt, ← h]
  exact ByteOrder.bigEndian_value part

theorem number_eq_ok {data : List UInt8} {position : ℕ} {n : UInt16} :
    number data position = .ok n ↔ u16 n <+: data.drop position := by
  rw [number, map_eq_ok]
  constructor
  · rintro ⟨part, hpart, rfl⟩
    obtain ⟨hbegins, hlength, -⟩ := field_eq_ok.mp hpart
    rwa [u16_value hlength]
  · intro h
    have hle := le_of_u16 h
    exact ⟨u16 n, field_eq_ok.mpr ⟨h, rfl, (Nat.le_add_right _ _).trans hle⟩, value_u16 n⟩

/-- What stands behind the algorithm, one field at a time. -/
theorem prefix_fields_iff {data : List UInt8} {position : ℕ} {signature : Signature} :
    signature.fields <+: data.drop position ↔
      ByteOrder.bigEndian 6 signature.signedAt <+: data.drop position ∧
      u16 signature.fudge <+: data.drop (position + 6) ∧
      u16 (UInt16.ofNat signature.mac.length) <+: data.drop (position + 8) ∧
      signature.mac <+: data.drop (position + 10) ∧
      u16 signature.originalId <+: data.drop (position + 10 + signature.mac.length) ∧
      u16 signature.error <+: data.drop (position + 10 + signature.mac.length + 2) ∧
      u16 (UInt16.ofNat signature.other.length) <+:
        data.drop (position + 10 + signature.mac.length + 4) ∧
      signature.other <+: data.drop (position + 10 + signature.mac.length + 6) := by
  have hparts : signature.fields = ByteOrder.bigEndian 6 signature.signedAt ++ (u16 signature.fudge ++
      (u16 (UInt16.ofNat signature.mac.length) ++ (signature.mac ++ (u16 signature.originalId ++
        (u16 signature.error ++ (u16 (UInt16.ofNat signature.other.length) ++ signature.other)))))) := by
    simp only [Signature.fields, List.append_assoc]
  rw [hparts]
  constructor
  · intro h
    have hfudge : _ <+: data.drop (position + 6) := prefix_behind _ h
    have hmacSize : _ <+: data.drop (position + 8) := prefix_behind _ hfudge
    have hmac : _ <+: data.drop (position + 10) := prefix_behind _ hmacSize
    have hid := prefix_behind _ hmac
    have herror : _ <+: data.drop (position + 10 + signature.mac.length + 2) := prefix_behind _ hid
    have hsize : _ <+: data.drop (position + 10 + signature.mac.length + 4) := prefix_behind _ herror
    have hother : _ <+: data.drop (position + 10 + signature.mac.length + 6) := prefix_behind _ hsize
    have hfirst {first second : List UInt8} {position : ℕ} (h : first ++ second <+: data.drop position) :
        first <+: data.drop position := (List.prefix_append _ _).trans h
    exact ⟨hfirst h, hfirst hfudge, hfirst hmacSize, hfirst hmac, hfirst hid, hfirst herror, hfirst hsize,
      hother⟩
  · rintro ⟨htime, hfudge, hmacSize, hmac, hid, herror, hsize, hother⟩
    exact prefix_append_of htime (prefix_append_of hfudge (prefix_append_of hmacSize (prefix_append_of hmac
      (prefix_append_of hid (prefix_append_of herror (prefix_append_of hsize hother))))))

/-- The fields of a signature are read. -/
theorem readRdata_of_holds {data spare : List UInt8} {signature : Signature}
    (h : Holds data signature spare) : readRdata data = .ok signature.held := by
  obtain ⟨pointers, next, hname, hpointers, hdrop⟩ := h.stands
  have hfields : signature.fields <+: data.drop next := hdrop ▸ List.prefix_append _ _
  obtain ⟨htime, hfudge, hmacSize, hmac, -, herror, hsize, hother⟩ := prefix_fields_iff.mp hfields
  have hmacLength : (UInt16.ofNat signature.mac.length).toNat = signature.mac.length :=
    UInt16.toNat_ofNat_of_lt' h.fits.mac
  have hotherLength : (UInt16.ofNat signature.other.length).toNat = signature.other.length :=
    UInt16.toNat_ofNat_of_lt' h.fits.other
  have hend := le_of_u16 hsize
  have hten := le_of_u16 hmacSize
  have hnext := le_of_u16 hfudge
  rw [readRdata, readName_of_nameAt hname hpointers, ok_bind]
  dsimp only
  have hreadTime : field data next 6 = .ok (ByteOrder.bigEndian 6 signature.signedAt) :=
    field_eq_ok.mpr ⟨htime, rfl, by omega⟩
  have hreadMac : field data (next + 10) signature.mac.length = .ok signature.mac :=
    field_eq_ok.mpr ⟨hmac, rfl, hten⟩
  have hreadOther : field data (next + 10 + signature.mac.length + 6) signature.other.length =
      .ok signature.other := field_eq_ok.mpr ⟨hother, rfl, hend⟩
  rw [hreadTime, ok_bind, number_eq_ok.mpr hfudge, ok_bind, number_eq_ok.mpr hmacSize, ok_bind, hmacLength,
    hreadMac, ok_bind, number_eq_ok.mpr herror, ok_bind, number_eq_ok.mpr hsize, ok_bind, hotherLength,
    hreadOther, ok_bind, ByteOrder.value_bigEndian h.fits.signedAt]
  rfl

/-- What is read are the fields of a signature. -/
theorem holds_of_readRdata {data : List UInt8} {held : Rdata} (hlength : data.length < 2 ^ 16)
    (h : readRdata data = .ok held) : ∃ signature spare, Holds data signature spare ∧
      held = signature.held := by
  obtain ⟨⟨algorithm, next⟩, hname, h⟩ := bind_eq_ok.mp h
  obtain ⟨time, htime, h⟩ := bind_eq_ok.mp h
  obtain ⟨fudge, hfudge, h⟩ := bind_eq_ok.mp h
  obtain ⟨macSize, hmacSize, h⟩ := bind_eq_ok.mp h
  obtain ⟨mac, hmac, h⟩ := bind_eq_ok.mp h
  obtain ⟨error, herror, h⟩ := bind_eq_ok.mp h
  obtain ⟨otherSize, hsize, h⟩ := bind_eq_ok.mp h
  obtain ⟨other, hother, h⟩ := bind_eq_ok.mp h
  obtain rfl := Except.ok.inj h
  obtain ⟨pointers, labels, hstands, hpointers, rfl⟩ := nameAt_of_readName hname
  rw [field_eq_ok] at htime hmac hother
  rw [number_eq_ok] at hfudge hmacSize herror hsize
  obtain ⟨htime, htimeLength, -⟩ := htime
  obtain ⟨hmac, hmacLength, -⟩ := hmac
  obtain ⟨hother, hotherLength, -⟩ := hother
  have hid : ∃ id, u16 id <+: data.drop (next + 10 + macSize.toNat) := by
    have hle := le_of_u16 herror
    exact ⟨_, prefix_of_bytes (List.getElem?_eq_getElem (by omega)) (List.getElem?_eq_getElem (by omega))⟩
  obtain ⟨id, hid⟩ := hid
  rw [← hmacLength] at hid herror hsize hother
  let signature : Signature := ⟨0, [], 0, 0, labels, ByteOrder.value time, fudge, mac, id, error, other⟩
  have hmacNumber : UInt16.ofNat mac.length = macSize := by rw [hmacLength, UInt16.ofNat_toNat]
  have hotherNumber : UInt16.ofNat other.length = otherSize := by rw [hotherLength, UInt16.ofNat_toNat]
  have htimeBytes : ByteOrder.bigEndian 6 (ByteOrder.value time) = time := by
    rw [← htimeLength]
    exact ByteOrder.bigEndian_value time
  have hfields : signature.fields <+: data.drop next := by
    refine prefix_fields_iff.mpr ⟨?_, hfudge, ?_, hmac, hid, herror, ?_, hother⟩
    · exact htimeBytes.symm ▸ htime
    · exact hmacNumber.symm ▸ hmacSize
    · exact hotherNumber.symm ▸ hsize
  obtain ⟨spare, hspare⟩ := hfields
  refine ⟨signature, spare, ⟨⟨?_, ?_, ?_⟩, hlength, ⟨pointers, next, hstands, hpointers, hspare.symm⟩⟩, rfl⟩
  · exact htimeLength ▸ ByteOrder.value_lt time
  · exact hmacLength.trans_lt macSize.toNat_lt
  · exact hotherLength.trans_lt otherSize.toNat_lt

/-! ### Names but for the case of letters -/

/-- The bytes a signature covers of a name: its labels in lower case, and no pointers. -/
def canonical (labels : List (List UInt8)) : List UInt8 :=
  (labels.flatMap fun label => UInt8.ofNat label.length :: label.map toAsciiLowercase) ++ [0]

/-- Labels as they stand in a message. -/
def Valid (labels : List (List UInt8)) : Prop := ∀ label ∈ labels, 0 < label.length ∧ label.length ≤ mostLabel

theorem valid_of_nameAt {pointers position next : ℕ} {labels : List (List UInt8)}
    (h : NameAt bytes pointers position labels next) : Valid labels := by
  induction h with
  | root => exact fun _ hmem => absurd hmem List.not_mem_nil
  | label label hpos hle _ _ ih => exact List.forall_mem_cons.mpr ⟨⟨hpos, hle⟩, ih⟩
  | pointer _ _ _ _ _ _ ih => exact ih

theorem length_bytes (label : String) : (Text.bytes label).length = label.utf8ByteSize := by
  rw [Text.bytes, Array.length_toList]
  rfl

theorem encoded_canonical (name : String) :
    encoded .canonical name = canonical ((labelsOf name).map Text.bytes) := by
  have hitem : item .canonical = fun label =>
      UInt8.ofNat (Text.bytes label).length :: (Text.bytes label).map toAsciiLowercase := by
    funext label
    rw [item, length_bytes]
    rfl
  rw [encoded, canonical, List.flatMap_map, hitem]

/-- Where a name ends can be told from its bytes. -/
theorem canonical_append {labels labels' : List (List UInt8)} (h : Valid labels) (h' : Valid labels')
    {rest rest' : List UInt8} (heq : canonical labels ++ rest = canonical labels' ++ rest') :
    labels.map (List.map toAsciiLowercase) = labels'.map (List.map toAsciiLowercase) ∧ rest = rest' := by
  induction labels generalizing labels' with
  | nil =>
    cases labels' with
    | nil => exact ⟨rfl, (List.cons.inj heq).2⟩
    | cons label labels' =>
      obtain ⟨hpos, hle⟩ := h' label List.mem_cons_self
      exact absurd (List.cons.inj heq).1.symm (ofNat_length_ne_zero hpos hle)
  | cons label labels ih =>
    obtain ⟨⟨hpos, hle⟩, hrest⟩ := List.forall_mem_cons.mp h
    cases labels' with
    | nil => exact absurd (List.cons.inj heq).1 (ofNat_length_ne_zero hpos hle)
    | cons label' labels' =>
      obtain ⟨⟨hpos', hle'⟩, hrest'⟩ := List.forall_mem_cons.mp h'
      simp only [canonical, List.flatMap_cons, List.cons_append, List.append_assoc] at heq
      obtain ⟨hlength, heq⟩ := List.cons.inj heq
      have hnumber := congrArg UInt8.toNat hlength
      rw [UInt8.toNat_ofNat_of_lt' (hle.trans_lt (by decide)),
        UInt8.toNat_ofNat_of_lt' (hle'.trans_lt (by decide))] at hnumber
      obtain ⟨hlabel, heq⟩ := List.append_inj heq (by rw [List.length_map, List.length_map, hnumber])
      have hothers := ih hrest hrest' (by simpa only [canonical, List.append_assoc, List.cons_append] using heq)
      exact ⟨by rw [List.map_cons, List.map_cons, hlabel, hothers.1], hothers.2⟩

theorem canonical_congr {labels labels' : List (List UInt8)}
    (h : labels.map (List.map toAsciiLowercase) = labels'.map (List.map toAsciiLowercase)) :
    canonical labels = canonical labels' := by
  have hlower (labels : List (List UInt8)) : canonical labels =
      ((labels.map (List.map toAsciiLowercase)).flatMap fun label =>
        UInt8.ofNat label.length :: label) ++ [0] := by
    rw [canonical, List.flatMap_map]
    simp only [List.length_map]
  rw [hlower, hlower, h]

theorem toAsciiLowercase_of_le {byte : UInt8} (h : 128 ≤ byte.toNat) : toAsciiLowercase byte = byte := by
  rw [toAsciiLowercase, if_neg]
  rintro ⟨-, hle⟩
  rw [UInt8.le_iff_toNat_le] at hle
  exact absurd (h.trans hle) (by decide)

theorem toAsciiLowercase_lt {byte : UInt8} (h : byte.toNat < 128) : (toAsciiLowercase byte).toNat < 128 := by
  have hall : ∀ n < 128, (toAsciiLowercase (UInt8.ofNat n)).toNat < 128 := by decide +kernel
  have hbyte := hall _ h
  rwa [UInt8.ofNat_toNat] at hbyte

/-- Every byte of a character that is none of ASCII has its top bit set. -/
theorem le_of_mem_encode {c : Char} (hc : c.utf8Size ≠ 1) {byte : UInt8}
    (h : byte ∈ String.utf8EncodeChar c) : 128 ≤ byte.toNat := by
  have hmask (b mask : UInt8) (hmask : 128 ≤ mask.toNat) : 128 ≤ (b ||| mask).toNat := by
    rw [UInt8.toNat_or]
    exact hmask.trans Nat.right_le_or
  rcases c.utf8Size_eq with hsize | hsize | hsize | hsize
  · exact absurd hsize hc
  · rw [String.utf8EncodeChar_eq_cons_cons hsize] at h
    simp only [List.mem_cons, List.not_mem_nil, or_false] at h
    rcases h with rfl | rfl <;> exact hmask _ _ (by decide)
  · rw [String.utf8EncodeChar_eq_cons_cons_cons hsize] at h
    simp only [List.mem_cons, List.not_mem_nil, or_false] at h
    rcases h with rfl | rfl | rfl <;> exact hmask _ _ (by decide)
  · rw [String.utf8EncodeChar_eq_cons_cons_cons_cons hsize] at h
    simp only [List.mem_cons, List.not_mem_nil, or_false] at h
    rcases h with rfl | rfl | rfl | rfl <;> exact hmask _ _ (by decide)

theorem map_lower_eq_self {part : List UInt8} (h : ∀ byte ∈ part, 128 ≤ byte.toNat) :
    part.map toAsciiLowercase = part :=
  (List.map_congr_left fun byte hbyte => toAsciiLowercase_of_le (h byte hbyte)).trans (List.map_id _)

/-- What is a character but for the case of a letter is a character. -/
theorem exists_char {c : Char} {part : List UInt8}
    (h : part.map toAsciiLowercase = (String.utf8EncodeChar c).map toAsciiLowercase) :
    ∃ d, part = String.utf8EncodeChar d := by
  have hbelow (byte : UInt8) (hbyte : (toAsciiLowercase byte).toNat < 128) : byte.toNat < 128 := by
    by_contra hle
    rw [toAsciiLowercase_of_le (not_lt.mp hle)] at hbyte
    exact hle hbyte
  by_cases hsize : c.utf8Size = 1
  · rw [String.utf8EncodeChar_eq_singleton hsize, List.map_singleton] at h
    obtain ⟨byte, rfl, hbyte⟩ := List.map_eq_singleton_iff.mp h
    have hval : c.val.toUInt8.toNat < 128 := by
      rw [Char.utf8Size_eq_one_iff, UInt32.le_iff_toNat_le] at hsize
      have hbound : (127 : UInt32).toNat = 127 := rfl
      rw [UInt32.toNat_toUInt8]
      omega
    have hascii : ∀ n < 128, String.utf8EncodeChar (Char.ofNat n) = [UInt8.ofNat n] := by decide +kernel
    have hlow := hbelow byte (hbyte ▸ toAsciiLowercase_lt hval)
    exact ⟨Char.ofNat byte.toNat, by rw [hascii _ hlow, UInt8.ofNat_toNat]⟩
  · have hhigh := fun byte => @le_of_mem_encode c hsize byte
    rw [map_lower_eq_self hhigh] at h
    refine ⟨c, ?_⟩
    rw [← h, map_lower_eq_self]
    intro byte hbyte
    by_contra hlt
    have hmem := List.mem_map_of_mem hbyte (f := toAsciiLowercase)
    rw [h] at hmem
    exact absurd (toAsciiLowercase_lt (not_le.mp hlt)) (not_lt.mpr (hhigh _ hmem))

/-- What is a text but for the case of its letters is a text. -/
theorem exists_text (chars : List Char) {part : List UInt8}
    (h : part.map toAsciiLowercase = (chars.flatMap String.utf8EncodeChar).map toAsciiLowercase) :
    ∃ text, part = Text.bytes text := by
  induction chars generalizing part with
  | nil => exact ⟨"", List.map_eq_nil_iff.mp h⟩
  | cons c chars ih =>
    rw [List.flatMap_cons, List.map_append] at h
    obtain ⟨first, rest, rfl, hfirst, hrest⟩ := List.map_eq_append_iff.mp h
    obtain ⟨d, rfl⟩ := exists_char hfirst
    obtain ⟨text, rfl⟩ := ih hrest
    refine ⟨String.singleton d ++ text, ?_⟩
    rw [Text.bytes_append, Text.bytes_eq_flatMap (String.singleton d)]
    simp

theorem bytes_push {name : String} (hname : name ≠ "") (label : String) :
    Text.bytes (push name (Text.bytes label)) = Text.bytes name ++ 46 :: Text.bytes label := by
  have hdot : name.push '.' = name ++ String.singleton '.' := String.push_eq_append _
  rw [push, if_neg hname, Text.fromUtf8Lossy_bytes, hdot, Text.bytes_append, Text.bytes_append,
    List.append_assoc]
  rfl

theorem push_empty (label : String) : push "" (Text.bytes label) = label := by
  rw [push, if_pos rfl, Text.fromUtf8Lossy_bytes, String.empty_append]

theorem bytes_eq_nil {name : String} : Text.bytes name = [] ↔ name = "" := by
  refine ⟨fun h => Text.bytes_injective h, fun h => ?_⟩
  rw [h]
  rfl

/-- Labels that are the same but for their case make such names. -/
theorem foldl_push_lower {labels : List (List UInt8)} {texts : List String} {name name' : String}
    (hname : (Text.bytes name).map toAsciiLowercase = (Text.bytes name').map toAsciiLowercase)
    (h : labels.map (List.map toAsciiLowercase) =
      (texts.map Text.bytes).map (List.map toAsciiLowercase)) :
    (Text.bytes (labels.foldl push name)).map toAsciiLowercase =
      (Text.bytes ((texts.map Text.bytes).foldl push name')).map toAsciiLowercase := by
  induction labels generalizing texts name name' with
  | nil =>
    obtain rfl := List.map_eq_nil_iff.mp (List.map_eq_nil_iff.mp h.symm)
    exact hname
  | cons label labels ih =>
    cases texts with
    | nil => cases h
    | cons text texts =>
      obtain ⟨hlabel, hrest⟩ := List.cons.inj h
      obtain ⟨own, rfl⟩ := exists_text text.toList (Text.bytes_eq_flatMap text ▸ hlabel)
      rw [List.foldl_cons, List.map_cons, List.foldl_cons]
      refine ih ?_ hrest
      have hempty : name = "" ↔ name' = "" := by
        rw [← bytes_eq_nil, ← bytes_eq_nil, ← List.map_eq_nil_iff (f := toAsciiLowercase), hname,
          List.map_eq_nil_iff]
      by_cases hnil : name = ""
      · rw [hnil, hempty.mp hnil, push_empty, push_empty]
        exact hlabel
      · rw [bytes_push hnil, bytes_push (mt hempty.mpr hnil), List.map_append, List.map_append, hname,
          List.map_cons, List.map_cons, hlabel]

/-- A record that is named as the key is passes for it. -/
theorem eqIgnoreAsciiCase_of_labels {labels : List (List UInt8)} {name : String}
    (hname : ∀ label ∈ labelsOf name, label ≠ "")
    (h : labels.map (List.map toAsciiLowercase) =
      ((labelsOf name).map Text.bytes).map (List.map toAsciiLowercase)) :
    eqIgnoreAsciiCase (nameText labels) (Text.trimEndMatches name '.') = true := by
  rw [← nameText_labelsOf hname]
  exact decide_eq_true (foldl_push_lower rfl h)

/-! ### What a MAC covers -/

/-- What the signature of a record covers of the record itself. -/
def Signature.covered (signature : Signature) : List UInt8 :=
  canonical signature.name ++ (u16 signature.recordClass ++ (u32 signature.ttl ++
    (canonical signature.algorithm ++ (ByteOrder.bigEndian 6 signature.signedAt ++
      (u16 signature.fudge ++ (u16 signature.error ++
        (u16 (UInt16.ofNat signature.other.length) ++ signature.other)))))))

/-- A record that has the name of the key, the name of the algorithm and the constants in its fields. -/
structure Signature.Usual (signature : Signature) (keyName : String) (algorithm : TsigAlgorithm) : Prop where
  name : canonical signature.name = encoded .canonical keyName
  recordClass : signature.recordClass = classAny
  ttl : signature.ttl = 0
  algorithm : canonical signature.algorithm = encoded .canonical (algorithmName algorithm)
  fudge : signature.fudge = Tsig.fudge

theorem writeName_algorithm (algorithm : TsigAlgorithm) (out : List UInt8) :
    writeName (algorithmName algorithm) .canonical out =
      .ok (out ++ encoded .canonical (algorithmName algorithm)) := by
  refine writeName_eq_ok.mpr ⟨?_, ?_, rfl⟩ <;> cases algorithm <;> decide +kernel

/-- The variables are what the signature of a record with the constants covers. -/
theorem variablesOf_eq_ok {keyName : String} {algorithm : TsigAlgorithm} {signedAt : ℕ} {error : UInt16}
    {other covered : List UInt8} :
    variablesOf keyName algorithm signedAt error other = .ok covered ↔
      (∃ named, writeName keyName .canonical [] = .ok named) ∧ other.length < 2 ^ 16 ∧
        covered = encoded .canonical keyName ++ (u16 classAny ++ (u32 0 ++
          (encoded .canonical (algorithmName algorithm) ++ (ByteOrder.bigEndian 6 signedAt ++
            (u16 fudge ++ (u16 error ++ (u16 (UInt16.ofNat other.length) ++ other))))))) := by
  rw [variablesOf, bind_eq_ok]
  constructor
  · rintro ⟨named, hnamed, h⟩
    rw [writeName_algorithm, ok_bind] at h
    obtain ⟨_, hlength, h⟩ := bind_eq_ok.mp h
    refine ⟨⟨named, hnamed⟩, ensure_eq_ok.mp hlength, ?_⟩
    rw [← Except.ok.inj h, (writeName_eq_ok.mp hnamed).2.2]
    simp only [List.append_assoc, List.nil_append]
  · rintro ⟨⟨named, hnamed⟩, hlength, hcovered⟩
    refine ⟨named, hnamed, ?_⟩
    rw [writeName_algorithm, ok_bind]
    refine bind_eq_ok.mpr ⟨(), ensure_eq_ok.mpr hlength, congrArg Except.ok ?_⟩
    rw [hcovered, (writeName_eq_ok.mp hnamed).2.2]
    simp only [List.append_assoc, List.nil_append]

/-! ### Verifying -/

section

variable (hmac : TsigAlgorithm → List UInt8 → List UInt8 → List UInt8)
variable (response : List UInt8) (keyName : String) (algorithm : TsigAlgorithm)
  (secret requestMac : List UInt8) (now : ℕ)

/-- A signature record that is made with the key over its own fields. -/
def Sealed (signature : Signature) : Prop :=
  requestMac.length < 2 ^ 16 ∧ ∃ stripped, strip response signature.position = .ok stripped ∧
    signature.mac = hmac algorithm secret (digested requestMac stripped signature.covered)

/-- A response that ends in a signature record made with the key over its own fields. -/
def Bound : Prop := ∃ signature, Carries response signature [] [] ∧
  Sealed hmac response algorithm secret requestMac signature

/-- The clocks are no further apart than the record allows. -/
def Within (signature : Signature) : Prop :=
  max now signature.signedAt - min now signature.signedAt ≤ signature.fudge.toNat

instance (signature : Signature) : Decidable (Within now signature) := inferInstanceAs (Decidable (_ ≤ _))

/-- What a name server answers that signs with the key, and says the time it allows itself. -/
def Honest : Prop := ∃ signature, Carries response signature [] [] ∧
  Sealed hmac response algorithm secret requestMac signature ∧
    (signature.name.map (List.map toAsciiLowercase) =
        ((labelsOf keyName).map Text.bytes).map (List.map toAsciiLowercase) ∧
      (canonical signature.name).length ≤ mostName) ∧
    signature.algorithm.map (List.map toAsciiLowercase) =
      ((labelsOf (algorithmName algorithm)).map Text.bytes).map (List.map toAsciiLowercase) ∧
    (signature.recordClass = classAny ∧ signature.ttl = 0) ∧ signature.error = 0 ∧ Within now signature

/-- The checks of the fields of a record, and of what a MAC is made over besides. -/
structure Passes (signature : Signature) : Prop where
  name : eqIgnoreAsciiCase (nameText signature.name) (Text.trimEndMatches keyName '.')
  algorithm : eqIgnoreAsciiCase (nameText signature.algorithm) (algorithmName algorithm)
  error : signature.error = 0
  clock : Within now signature
  counted : ∃ stripped, strip response signature.position = .ok stripped
  key : ∃ named, writeName keyName .canonical [] = .ok named
  request : requestMac.length < 2 ^ 16

end

section

variable {hmac : TsigAlgorithm → List UInt8 → List UInt8 → List UInt8}
variable {response : List UInt8} {keyName : String} {algorithm : TsigAlgorithm}
  {secret requestMac : List UInt8} {now : ℕ} {signature : Signature} {spare trailing : List UInt8}

theorem Holds.with_record {data : List UInt8} (h : Holds data signature spare) {position : ℕ}
    {name : List (List UInt8)} {recordClass : UInt16} {ttl : UInt32} : Holds data { signature with
      position := position, name := name, recordClass := recordClass, ttl := ttl } spare :=
  ⟨⟨h.fits.signedAt, h.fits.mac, h.fits.other⟩, h.length, h.stands⟩

/-- What stands behind the name of a record are the parts of one. -/
theorem exists_body {bytes data : List UInt8} {next : ℕ} {kind length : UInt16}
    (hkind : u16 kind <+: bytes.drop next) (hlength : u16 length <+: bytes.drop (next + 8))
    (hsize : data.length = length.toNat) (hdata : data <+: bytes.drop (next + 10)) :
    ∃ recordClass ttl trailing,
      bytes.drop next = Record.body kind recordClass ttl data ++ trailing := by
  have hend := le_of_u16 hlength
  have hclass : ∃ recordClass, u16 recordClass <+: bytes.drop (next + 2) :=
    ⟨_, prefix_of_bytes (List.getElem?_eq_getElem (by omega)) (List.getElem?_eq_getElem (by omega))⟩
  have httl : ∃ ttl, u32 ttl <+: bytes.drop (next + 4) := by
    have hfour : ((bytes.drop (next + 4)).take 4).length = 4 := by
      rw [List.length_take, List.length_drop]
      omega
    have hlt := ByteOrder.value_lt ((bytes.drop (next + 4)).take 4)
    have hsame := ByteOrder.bigEndian_value ((bytes.drop (next + 4)).take 4)
    rw [hfour] at hlt hsame
    refine ⟨UInt32.ofNat (ByteOrder.value ((bytes.drop (next + 4)).take 4)), ?_⟩
    rw [u32, UInt32.toNat_ofNat_of_lt' hlt, hsame]
    exact List.take_prefix _ _
  obtain ⟨recordClass, hclass⟩ := hclass
  obtain ⟨ttl, httl⟩ := httl
  have hnumber : UInt16.ofNat data.length = length := by rw [hsize, UInt16.ofNat_toNat]
  have hwhole : Record.body kind recordClass ttl data <+: bytes.drop next := by
    have hparts := prefix_append_of hkind (prefix_append_of hclass (prefix_append_of httl
      (prefix_append_of hlength hdata)))
    simpa only [Record.body, hnumber, List.append_assoc] using hparts
  obtain ⟨trailing, htrailing⟩ := hwhole
  exact ⟨recordClass, ttl, trailing, htrailing.symm⟩

/-- A record that is carried is accepted when it passes the checks and its MAC covers the constants. -/
theorem verify_of_carries (hcarries : Carries response signature spare trailing)
    (hpasses : Passes response keyName algorithm requestMac now signature) {stripped covered : List UInt8}
    (hstripped : strip response signature.position = .ok stripped)
    (hcovered : variablesOf keyName algorithm signature.signedAt signature.error signature.other = .ok covered)
    (hmac' : hmac algorithm secret (digested requestMac stripped covered) = signature.mac) :
    verify hmac response keyName algorithm secret requestMac now = .ok () := by
  obtain ⟨pointers, next, data, hname, hpointers, hholds, hdrop⟩ := hcarries.stands
  obtain ⟨hkind, hlength, hdata, hend⟩ := prefix_of_body (hdrop ▸ List.prefix_append _ _)
  obtain ⟨high, low, hhigh, hlow, hkindIs⟩ := bytes_of_begins hkind
  obtain ⟨above, below, habove, hbelow, hlengthIs⟩ := bytes_of_begins hlength
  have hnumber : (UInt16.ofNat data.length).toNat = data.length :=
    UInt16.toNat_ofNat_of_lt' hholds.length
  have hread := readRdata_of_holds hholds
  refine bind_eq_ok.mpr ⟨_, lastRecord_eq_ok.mpr hcarries.last, bind_eq_ok.mpr ⟨_, found_some, ?_⟩⟩
  refine bind_eq_ok.mpr ⟨_, nameAt_eq hname hpointers, ?_⟩
  refine bind_eq_ok.mpr ⟨high, byteOrMissing_eq_ok.mpr hhigh, ?_⟩
  refine bind_eq_ok.mpr ⟨low, byteOrMissing_eq_ok.mpr hlow, ?_⟩
  refine bind_eq_ok.mpr ⟨(), ensure_eq_ok.mpr hkindIs, bind_eq_ok.mpr ⟨(), ensure_eq_ok.mpr hpasses.name, ?_⟩⟩
  refine bind_eq_ok.mpr ⟨above, byteOrMissing_eq_ok.mpr habove, ?_⟩
  refine bind_eq_ok.mpr ⟨below, byteOrMissing_eq_ok.mpr hbelow, ?_⟩
  refine bind_eq_ok.mpr ⟨data, ?_, bind_eq_ok.mpr ⟨signature.held, mapError_eq_ok.mpr hread, ?_⟩⟩
  · rw [hlengthIs, hnumber]
    exact found_eq_ok.mpr (slice_of_begins hend hdata)
  refine bind_eq_ok.mpr ⟨(), ensure_eq_ok.mpr hpasses.algorithm, ?_⟩
  refine bind_eq_ok.mpr ⟨(), ensure_eq_ok.mpr hpasses.error, ?_⟩
  refine bind_eq_ok.mpr ⟨(), ensure_eq_ok.mpr hpasses.clock, bind_eq_ok.mpr ⟨stripped, hstripped, ?_⟩⟩
  refine bind_eq_ok.mpr ⟨covered, mapError_eq_ok.mpr hcovered, ?_⟩
  exact bind_eq_ok.mpr ⟨(), ensure_eq_ok.mpr hpasses.request, ensure_eq_ok.mpr hmac'⟩

/-- A record is carried by what is accepted, it passes the checks, and its MAC covers the constants. -/
theorem carries_of_verify (h : verify hmac response keyName algorithm secret requestMac now = .ok ()) :
    ∃ signature spare trailing, Carries response signature spare trailing ∧
      Passes response keyName algorithm requestMac now signature ∧ ∃ stripped covered,
        strip response signature.position = .ok stripped ∧
          variablesOf keyName algorithm signature.signedAt signature.error signature.other = .ok covered ∧
            hmac algorithm secret (digested requestMac stripped covered) = signature.mac := by
  obtain ⟨last, hlast, h⟩ := bind_eq_ok.mp h
  obtain ⟨position, hposition, h⟩ := bind_eq_ok.mp h
  obtain ⟨⟨name, next⟩, hname, h⟩ := bind_eq_ok.mp h
  obtain ⟨high, hhigh, h⟩ := bind_eq_ok.mp h
  obtain ⟨low, hlow, h⟩ := bind_eq_ok.mp h
  obtain ⟨_, hkind, h⟩ := bind_eq_ok.mp h
  obtain ⟨_, hnamed, h⟩ := bind_eq_ok.mp h
  obtain ⟨above, habove, h⟩ := bind_eq_ok.mp h
  obtain ⟨below, hbelow, h⟩ := bind_eq_ok.mp h
  obtain ⟨data, hdata, h⟩ := bind_eq_ok.mp h
  obtain ⟨held, hheld, h⟩ := bind_eq_ok.mp h
  obtain ⟨_, halgorithm, h⟩ := bind_eq_ok.mp h
  obtain ⟨_, herror, h⟩ := bind_eq_ok.mp h
  obtain ⟨_, hclock, h⟩ := bind_eq_ok.mp h
  obtain ⟨stripped, hstripped, h⟩ := bind_eq_ok.mp h
  obtain ⟨covered, hcovered, h⟩ := bind_eq_ok.mp h
  obtain ⟨_, hrequest, h⟩ := bind_eq_ok.mp h
  have hexpected := ensure_eq_ok.mp h
  rw [found_eq_ok] at hposition hdata
  subst hposition
  rw [ensure_eq_ok] at hkind hnamed halgorithm herror hclock hrequest
  rw [mapError_eq_ok] at hheld hcovered
  obtain ⟨pointers, labels, hstands, hpointers, rfl⟩ := nameAt_eq_ok.mp hname
  obtain ⟨hpart, hsize⟩ := prefix_of_slice hdata
  rw [Nat.add_sub_cancel_left] at hsize
  obtain ⟨inner, spare, hholds, rfl⟩ := holds_of_readRdata (hsize.trans_lt (UInt16.toNat_lt _)) hheld
  obtain ⟨recordClass, ttl, trailing, hbody⟩ := exists_body (prefix_of_bytes
    (byteOrMissing_eq_ok.mp hhigh) (byteOrMissing_eq_ok.mp hlow)) (prefix_of_bytes
    (byteOrMissing_eq_ok.mp habove) (byteOrMissing_eq_ok.mp hbelow)) hsize hpart
  rw [hkind] at hbody
  refine ⟨{ inner with position := position, name := labels, recordClass := recordClass, ttl := ttl },
    spare, trailing, ⟨lastRecord_eq_ok.mp hlast, pointers, next, data, hstands, hpointers,
      hholds.with_record, hbody⟩, ?_, stripped, covered, hstripped, hcovered, hexpected⟩
  obtain ⟨hkey, -, -⟩ := variablesOf_eq_ok.mp hcovered
  exact ⟨hnamed, halgorithm, herror, hclock, ⟨stripped, hstripped⟩, hkey, hrequest⟩

/-! ### One record is carried -/

theorem u32_injective : Function.Injective u32 := by
  intro first second h
  have hvalue := congrArg ByteOrder.value h
  rw [u32, u32, ByteOrder.value_bigEndian first.toNat_lt, ByteOrder.value_bigEndian second.toNat_lt]
    at hvalue
  exact UInt32.toNat_inj.mp hvalue

/-- Two numbers with as much behind them. -/
theorem u16_append {n n' : UInt16} {rest rest' : List UInt8} (h : u16 n ++ rest = u16 n' ++ rest') :
    n = n' ∧ rest = rest' :=
  (List.append_inj h rfl).imp_left fun hn => u16_injective hn

/-- Some bytes behind their length, and as much behind them. -/
theorem counted_append {part part' rest rest' : List UInt8} (hpart : part.length < 2 ^ 16)
    (hpart' : part'.length < 2 ^ 16) (h : u16 (UInt16.ofNat part.length) ++ (part ++ rest) =
      u16 (UInt16.ofNat part'.length) ++ (part' ++ rest')) : part = part' ∧ rest = rest' := by
  obtain ⟨hlength, h⟩ := u16_append h
  have hnumber := congrArg UInt16.toNat hlength
  rw [UInt16.toNat_ofNat_of_lt' hpart, UInt16.toNat_ofNat_of_lt' hpart'] at hnumber
  exact List.append_inj h hnumber

theorem fields_append {signature signature' : Signature} (hfits : signature.Fits) (hfits' : signature'.Fits)
    {spare spare' : List UInt8} (h : signature.fields ++ spare = signature'.fields ++ spare') :
    signature.signedAt = signature'.signedAt ∧ signature.fudge = signature'.fudge ∧
      signature.mac = signature'.mac ∧ signature.originalId = signature'.originalId ∧
        signature.error = signature'.error ∧ signature.other = signature'.other ∧ spare = spare' := by
  simp only [Signature.fields, List.append_assoc] at h
  obtain ⟨htime, h⟩ := List.append_inj h (by rw [ByteOrder.length_bigEndian, ByteOrder.length_bigEndian])
  obtain ⟨hfudge, h⟩ := u16_append h
  obtain ⟨hmac, h⟩ := counted_append hfits.mac hfits'.mac h
  obtain ⟨hid, h⟩ := u16_append h
  obtain ⟨herror, h⟩ := u16_append h
  obtain ⟨hother, hspare⟩ := counted_append hfits.other hfits'.other h
  have hvalue := congrArg ByteOrder.value htime
  rw [ByteOrder.value_bigEndian hfits.signedAt, ByteOrder.value_bigEndian hfits'.signedAt] at hvalue
  exact ⟨hvalue, hfudge, hmac, hid, herror, hother, hspare⟩

/-- What an answer carries is one record. -/
theorem Carries.unique {signature' : Signature} {spare' trailing' : List UInt8}
    (h : Carries response signature spare trailing) (h' : Carries response signature' spare' trailing') :
    signature = signature' ∧ spare = spare' ∧ trailing = trailing' := by
  have hposition : signature.position = signature'.position := Option.some.inj (Except.ok.inj
    ((lastRecord_eq_ok.mpr h.last).symm.trans (lastRecord_eq_ok.mpr h'.last)))
  obtain ⟨pointers, next, data, hname, hpointers, hholds, hdrop⟩ := h.stands
  obtain ⟨pointers', next', data', hname', hpointers', hholds', hdrop'⟩ := h'.stands
  rw [← hposition] at hname'
  obtain ⟨hlabels, rfl⟩ := hname.unique hname'
  rw [hdrop] at hdrop'
  simp only [Record.body, List.append_assoc] at hdrop'
  obtain ⟨-, hdrop'⟩ := u16_append hdrop'
  obtain ⟨hclass, hdrop'⟩ := u16_append hdrop'
  obtain ⟨httl, hdrop'⟩ := List.append_inj hdrop' rfl
  obtain ⟨rfl, htrailing⟩ := counted_append hholds.length hholds'.length hdrop'
  obtain ⟨inside, behind, halgorithm, -, hfields⟩ := hholds.stands
  obtain ⟨inside', behind', halgorithm', -, hfields'⟩ := hholds'.stands
  obtain ⟨hsame, rfl⟩ := halgorithm.unique halgorithm'
  obtain ⟨htime, hfudge, hmac, hid, herror, hother, hspare⟩ :=
    fields_append hholds.fits hholds'.fits (hfields.symm.trans hfields')
  refine ⟨?_, hspare, htrailing⟩
  cases signature
  cases signature'
  simp only [Signature.mk.injEq]
  exact ⟨hposition, hlabels, hclass, u32_injective httl, hsame, htime, hfudge, hmac, hid, herror, hother⟩

/-! ### Which records are bound -/

theorem Carries.valid (h : Carries response signature spare trailing) :
    Valid signature.name ∧ Valid signature.algorithm := by
  obtain ⟨pointers, next, data, hname, -, hholds, -⟩ := h.stands
  obtain ⟨inside, behind, halgorithm, -, -⟩ := hholds.stands
  exact ⟨valid_of_nameAt hname, valid_of_nameAt halgorithm⟩

theorem valid_labelsOf {name : String} {case : Case} {out written : List UInt8}
    (h : writeName name case out = .ok written) : Valid ((labelsOf name).map Text.bytes) := by
  obtain ⟨hlabels, -, -⟩ := writeName_eq_ok.mp h
  intro part hpart
  obtain ⟨label, hlabel, rfl⟩ := List.mem_map.mp hpart
  obtain ⟨hne, hle⟩ := hlabels label hlabel
  rw [length_bytes]
  exact ⟨Nat.pos_of_ne_zero fun hzero => hne (String.utf8ByteSize_eq_zero_iff.mp hzero), hle⟩

/-- The variables are what the signature of a record covers exactly if it has the constants. -/
theorem covered_eq_iff (hvalid : Valid signature.name ∧ Valid signature.algorithm) {covered : List UInt8}
    (hcovered : variablesOf keyName algorithm signature.signedAt signature.error signature.other =
      .ok covered) : signature.covered = covered ↔ signature.Usual keyName algorithm := by
  obtain ⟨⟨named, hnamed⟩, -, hsame⟩ := variablesOf_eq_ok.mp hcovered
  have hkey := valid_labelsOf hnamed
  have hown := valid_labelsOf (writeName_algorithm algorithm [])
  rw [hsame]
  constructor
  · intro h
    rw [Signature.covered, encoded_canonical, encoded_canonical] at h
    obtain ⟨hname, h⟩ := canonical_append hvalid.1 hkey h
    obtain ⟨hclass, h⟩ := u16_append h
    obtain ⟨httl, h⟩ := List.append_inj h rfl
    obtain ⟨halgorithm, h⟩ := canonical_append hvalid.2 hown h
    obtain ⟨hfudge, -⟩ := u16_append (List.append_cancel_left h)
    refine ⟨?_, hclass, u32_injective httl, ?_, hfudge⟩
    · rw [encoded_canonical, canonical_congr hname]
    · rw [encoded_canonical, canonical_congr halgorithm]
  · rintro ⟨hname, hclass, httl, halgorithm, hfudge⟩
    rw [Signature.covered, hname, hclass, httl, halgorithm, hfudge]

/-- There are variables for every record that is carried, if the name of the key can be written. -/
theorem Carries.exists_variables (h : Carries response signature spare trailing) (algorithm : TsigAlgorithm)
    (hkey : ∃ named, writeName keyName .canonical [] = .ok named) : ∃ covered,
      variablesOf keyName algorithm signature.signedAt signature.error signature.other = .ok covered := by
  obtain ⟨pointers, next, data, -, -, hholds, -⟩ := h.stands
  exact ⟨_, variablesOf_eq_ok.mpr ⟨hkey, hholds.fits.other, rfl⟩⟩

theorem digested_eq_iff {stripped covered covered' : List UInt8} :
    digested requestMac stripped covered = digested requestMac stripped covered' ↔ covered = covered' := by
  rw [digested, digested, List.append_right_inj]

/-- A record that passes, has the constants and ends its answer is bound by its signature. -/
theorem bound_of_usual (hcarries : Carries response signature [] [])
    (husual : signature.Usual keyName algorithm) {stripped covered : List UInt8}
    (hrequest : requestMac.length < 2 ^ 16) (hstripped : strip response signature.position = .ok stripped)
    (hcovered : variablesOf keyName algorithm signature.signedAt signature.error signature.other = .ok covered)
    (hmac' : hmac algorithm secret (digested requestMac stripped covered) = signature.mac) :
    Bound hmac response algorithm secret requestMac := by
  have hsame := (covered_eq_iff hcarries.valid hcovered).mpr husual
  exact ⟨signature, hcarries, hrequest, stripped, hstripped, by rw [hsame, hmac']⟩

/-- What a name server signs with the key passes the checks. -/
theorem passes_of_honest (hcarries : Carries response signature [] [])
    (hsealed : Sealed hmac response algorithm secret requestMac signature)
    (hname : signature.name.map (List.map toAsciiLowercase) =
      ((labelsOf keyName).map Text.bytes).map (List.map toAsciiLowercase))
    (hlength : (canonical signature.name).length ≤ mostName)
    (halgorithm : signature.algorithm.map (List.map toAsciiLowercase) =
      ((labelsOf (algorithmName algorithm)).map Text.bytes).map (List.map toAsciiLowercase))
    (herror : signature.error = 0) (hwithin : Within now signature) :
    Passes response keyName algorithm requestMac now signature := by
  have hkey : ∀ label ∈ labelsOf keyName, label ≠ "" ∧ label.utf8ByteSize ≤ mostLabel := by
    intro label hlabel
    have hmem := List.mem_map_of_mem (f := List.map toAsciiLowercase) (List.mem_map_of_mem (f := Text.bytes) hlabel)
    rw [← hname] at hmem
    obtain ⟨own, hown, hsame⟩ := List.mem_map.mp hmem
    obtain ⟨hpos, hle⟩ := hcarries.valid.1 own hown
    have hlengths := congrArg List.length hsame
    rw [List.length_map, List.length_map, length_bytes] at hlengths
    refine ⟨fun hempty => ?_, hlengths ▸ hle⟩
    rw [hempty] at hlengths
    exact hpos.ne' hlengths
  have hwritten : ∃ named, writeName keyName .canonical [] = .ok named := by
    refine ⟨_, writeName_eq_ok.mpr ⟨hkey, ?_, rfl⟩⟩
    rwa [encoded_canonical, ← canonical_congr hname]
  obtain ⟨hrequest, stripped, hstripped, -⟩ := hsealed
  refine ⟨?_, ?_, herror, hwithin, ⟨stripped, hstripped⟩, hwritten, hrequest⟩
  · exact eqIgnoreAsciiCase_of_labels (fun label hlabel => (hkey label hlabel).1) hname
  · have hown := writeName_eq_ok.mp (writeName_algorithm algorithm [])
    have hsame := eqIgnoreAsciiCase_of_labels (fun label hlabel => (hown.1 label hlabel).1) halgorithm
    have htrimmed : Text.trimEndMatches (algorithmName algorithm) '.' = algorithmName algorithm := by
      cases algorithm <;> decide +kernel
    rwa [htrimmed] at hsame

end

/-! ### A MAC that is given -/

/-- A key and a message, told apart. -/
def paired (key message : List UInt8) : List UInt8 :=
  List.replicate key.length 1 ++ 0 :: (key ++ message)

theorem paired_injective : Function.Injective2 paired := by
  have hcount (n n' : ℕ) (rest rest' : List UInt8)
      (h : List.replicate n 1 ++ 0 :: rest = List.replicate n' 1 ++ 0 :: rest') : n = n' ∧ rest = rest' := by
    induction n generalizing n' with
    | zero =>
      cases n' with
      | zero => exact ⟨rfl, (List.cons.inj h).2⟩
      | succ n' => exact absurd (List.cons.inj h).1 (by decide)
    | succ n ih =>
      cases n' with
      | zero => exact absurd (List.cons.inj h).1 (by decide)
      | succ n' => exact (ih n' (List.cons.inj h).2).imp_left (congrArg Nat.succ)
  intro key key' message message' h
  obtain ⟨hlength, h⟩ := hcount _ _ _ _ h
  exact List.append_inj h hlength

/-- An injective function of key and message that has a given value at a given place. -/
def giving (key message mac : List UInt8) (_ : TsigAlgorithm) (key' message' : List UInt8) : List UInt8 :=
  Equiv.swap (paired key message) mac (paired key' message')

theorem giving_injective (key message mac : List UInt8) (algorithm : TsigAlgorithm) :
    Function.Injective2 (giving key message mac algorithm) :=
  fun _ _ _ _ h => paired_injective (Equiv.injective _ h)

theorem giving_self (key message mac : List UInt8) (algorithm : TsigAlgorithm) :
    giving key message mac algorithm key message = mac :=
  Equiv.swap_apply_left _ _

section

variable (response : List UInt8) (keyName : String) (algorithm : TsigAlgorithm)
  (secret requestMac : List UInt8) (now : ℕ)

/-- What is accepted is bound by its signature, and what a name server signs is accepted. -/
def Binds : Prop := ∀ hmac : TsigAlgorithm → List UInt8 → List UInt8 → List UInt8,
  (∀ algorithm, Function.Injective2 (hmac algorithm)) →
    (verify hmac response keyName algorithm secret requestMac now = .ok () →
      Bound hmac response algorithm secret requestMac) ∧
    (Honest hmac response keyName algorithm secret requestMac now →
      verify hmac response keyName algorithm secret requestMac now = .ok ())

variable {response keyName algorithm secret requestMac now}

theorem usual_of_binds (h : Binds response keyName algorithm secret requestMac now) {signature : Signature}
    {spare trailing : List UInt8} (hcarries : Carries response signature spare trailing)
    (hpasses : Passes response keyName algorithm requestMac now signature) :
    signature.Usual keyName algorithm ∧ spare = [] ∧ trailing = [] := by
  obtain ⟨stripped, hstripped⟩ := hpasses.counted
  obtain ⟨covered, hcovered⟩ := hcarries.exists_variables algorithm hpasses.key
  let hmac := giving secret (digested requestMac stripped covered) signature.mac
  have hinjective := giving_injective secret (digested requestMac stripped covered) signature.mac
  have hverify : verify hmac response keyName algorithm secret requestMac now = .ok () :=
    verify_of_carries hcarries hpasses hstripped hcovered (giving_self ..)
  obtain ⟨signature', hcarries', -, stripped', hstripped', hmac'⟩ := (h hmac hinjective).1 hverify
  obtain ⟨rfl, hspare, htrailing⟩ := hcarries.unique hcarries'
  obtain rfl := Except.ok.inj (hstripped.symm.trans hstripped')
  refine ⟨(covered_eq_iff hcarries.valid hcovered).mp ?_, hspare, htrailing⟩
  have hsame := (giving_self secret (digested requestMac stripped covered) signature.mac algorithm).trans hmac'
  exact (digested_eq_iff.mp (hinjective algorithm hsame).2).symm

/-- An answer is accepted only if its signature covers it, and accepted whenever a name server signed it,
exactly if a signature record that passes the checks has the constants in its fields and ends the answer. -/
theorem binds_iff (response : List UInt8) (keyName : String) (algorithm : TsigAlgorithm)
    (secret requestMac : List UInt8) (now : ℕ) :
    Binds response keyName algorithm secret requestMac now ↔
      ∀ signature spare trailing, Carries response signature spare trailing →
        Passes response keyName algorithm requestMac now signature →
          signature.Usual keyName algorithm ∧ spare = [] ∧ trailing = [] := by
  refine ⟨fun h signature spare trailing => usual_of_binds h, fun h hmac _ => ⟨fun hverify => ?_, ?_⟩⟩
  · obtain ⟨signature, spare, trailing, hcarries, hpasses, stripped, covered, hstripped, hcovered, hmac'⟩ :=
      carries_of_verify hverify
    obtain ⟨husual, rfl, rfl⟩ := h signature spare trailing hcarries hpasses
    exact bound_of_usual hcarries husual hpasses.request hstripped hcovered hmac'
  · rintro ⟨signature, hcarries, hsealed, ⟨hname, hlength⟩, halgorithm, -, herror, hwithin⟩
    have hpasses := passes_of_honest hcarries hsealed hname hlength halgorithm herror hwithin
    obtain ⟨husual, -⟩ := h signature [] [] hcarries hpasses
    obtain ⟨-, stripped, hstripped, hmac'⟩ := hsealed
    obtain ⟨covered, hcovered⟩ := hcarries.exists_variables algorithm hpasses.key
    refine verify_of_carries hcarries hpasses hstripped hcovered ?_
    rw [hmac', (covered_eq_iff hcarries.valid hcovered).mpr husual]

end

/-- A signature record of a name server that allows ten minutes. -/
def tenMinutes : Signature where
  position := 12
  name := [Text.bytes "key"]
  recordClass := classAny
  ttl := 0
  algorithm := [Text.bytes "hmac-sha256"]
  signedAt := 1700000000
  fudge := 600
  mac := List.replicate 32 0
  originalId := 7
  error := 0
  other := []

/-- An answer that ends in it. -/
def answered : List UInt8 :=
  Header.write ⟨7, 0xA800, #v[0, 0, 0, 1]⟩ [] ++ encoded .asGiven "key" ++
    Record.body typeTsig classAny 0 (encoded .asGiven "hmac-sha256" ++ tenMinutes.fields)

theorem carries_answered : Carries answered tenMinutes [] [] := by
  have hname : NameAt answered 0 12 ((labelsOf "key").map Text.bytes) 17 :=
    nameAt_labels (by decide +kernel) (by decide +kernel)
  have halgorithm : NameAt (encoded .asGiven "hmac-sha256" ++ tenMinutes.fields) 0 0
      ((labelsOf "hmac-sha256").map Text.bytes) 13 :=
    nameAt_labels (by decide +kernel) (by decide +kernel)
  refine ⟨⟨⟨7, 0xA800, #v[0, 0, 0, 1]⟩, 12, by decide +kernel, .none 12, ?_⟩,
    ⟨0, 17, encoded .asGiven "hmac-sha256" ++ tenMinutes.fields, ?_, by decide, ?_, by decide +kernel⟩⟩
  · exact .one 61 hname (by decide) (by decide +kernel)
  · exact hname
  · exact ⟨⟨by decide, by decide, by decide⟩, by decide +kernel, 0, 13, halgorithm, by decide,
      by decide +kernel⟩

/-- A name server that allows any other time than five minutes is not understood. -/
theorem ten_minutes_unbound : ¬ Binds answered "key" .hmacSha256 [1] [2] 1700000000 := by
  intro h
  have hstripped : (strip answered 12).isOk = true := by decide +kernel
  have hpasses : Passes answered "key" .hmacSha256 [2] 1700000000 tenMinutes := by
    refine ⟨by decide +kernel, by decide +kernel, rfl, by decide +kernel, ?_, ?_, by decide⟩
    · cases hstrip : strip answered 12 with
      | ok stripped => exact ⟨stripped, hstrip⟩
      | error halt =>
        rw [hstrip] at hstripped
        cases hstripped
    · exact ⟨_, writeName_eq_ok.mpr ⟨by decide +kernel, by decide +kernel, rfl⟩⟩
  exact absurd (usual_of_binds h carries_answered hpasses).1.fudge (by decide)

end EkEk.Tls.Tsig
