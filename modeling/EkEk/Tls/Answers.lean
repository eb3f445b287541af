import EkEk.Tls.Wire

/-!
# Records in DNS messages

Reference: `crates/ek-ek-tls/src/dns/wire.rs` (`Record`, `txt_data`, `update`, `question`, `txt_answers`,
`read_strings`).

Reading an answer takes every offset and every length from the message. A function that reads has the
outcome `panic` where the source indexes or slices, and `txtAnswers` never has it. `RecordsAt` says where
the records of an answer stand, and `txtAnswers_eq` that their values are what is read.
-/

namespace EkEk.Tls.Wire

open Checked

/-! ## Writing -/

/-- One record an update adds or takes away. -/
structure Record where
  name : String
  kind : UInt16
  recordClass : UInt16
  ttl : UInt32
  data : List UInt8
deriving DecidableEq, Repr

/-- A TXT value in one character string. -/
def txtData (value : String) : Except Failure (List UInt8) := do
  ensure (value.utf8ByteSize ≤ mostString)
    ⟨.protocol, s!"a TXT value longer than {mostString} bytes needs more than one string"⟩
  return item .asGiven value

namespace Record

/-- A TXT record to add. -/
def addTxt (name value : String) (ttl : UInt32) : Except Failure Record :=
  (txtData value).map fun data => ⟨name, typeTxt, classIn, ttl, data⟩

/-- Every TXT record at one name, marked for deletion. -/
def deleteTxtSet (name : String) : Record := ⟨name, typeTxt, classAny, 0, []⟩

/-- What stands behind the name of a record. -/
def body (kind recordClass : UInt16) (ttl : UInt32) (data : List UInt8) : List UInt8 :=
  u16 kind ++ u16 recordClass ++ u32 ttl ++ u16 (UInt16.ofNat data.length) ++ data

def write (record : Record) (out : List UInt8) : Except Failure (List UInt8) := do
  let named ← writeName record.name .asGiven out
  ensure (record.data.length < 2 ^ 16) ⟨.protocol, "a record carries more data than one record can"⟩
  return named ++ body record.kind record.recordClass record.ttl record.data

end Record

/-- A dynamic update of some records of a zone. -/
def update (id : UInt16) (zone : String) (changes : List Record) : Except Failure (List UInt8) := do
  ensure (changes.length < 2 ^ 16) ⟨.protocol, "more changes than one update message holds"⟩
  let header : Header := ⟨id, opcodeUpdate <<< 11, #v[1, 0, UInt16.ofNat changes.length, 0]⟩
  let zoned ← writeName zone .asGiven (header.write [])
  changes.foldlM (fun out change => change.write out) (zoned ++ u16 typeSoa ++ u16 classIn)

/-- A question for one record type at one name. -/
def question (id : UInt16) (name : String) (kind : UInt16) : Except Failure (List UInt8) := do
  -- recursion desired
  let header : Header := ⟨id, 0x0100, #v[1, 0, 0, 0]⟩
  let named ← writeName name .asGiven (header.write [])
  return named ++ u16 kind ++ u16 classIn

/-! ## Reading -/

section

variable (bytes : List UInt8)

/-- A byte of a message. -/
def byteAt (position : ℕ) : Except Halt UInt8 := found bytes[position]? (.failure short)

/-- A name of a message. -/
def nameAt (position : ℕ) : Except Halt (String × ℕ) := (readName bytes position).mapError .failure

/-- Where reading continues behind some questions. -/
def skipQuestions : ℕ → ℕ → Except Halt ℕ
  | 0, position => .ok position
  | count + 1, position => do
    let (_, next) ← nameAt bytes position
    -- the type and the class
    skipQuestions count (next + 4)

/-- The character strings from some place on, one behind the other. -/
def stringsFrom (position : ℕ) : Except Halt String :=
  if position < bytes.length then do
    let length ← found bytes[position]? .panic
    let stop := min (position + 1 + length.toNat) bytes.length
    let part ← found (Records.slice bytes (position + 1) stop) .panic
    let rest ← stringsFrom stop
    return Text.fromUtf8Lossy part ++ rest
  else .ok ""
termination_by bytes.length - position
decreasing_by omega

/-- Join the character strings of one TXT record. -/
def readStrings : Except Halt String := stringsFrom bytes 0

/-- The value of a record, if it is a TXT record. -/
def valueOf (kind : UInt16) (data : List UInt8) : Except Halt (Option String) :=
  if kind = typeTxt then (readStrings data).map some else .ok none

/-- The TXT values of so many records. -/
def answersFrom : ℕ → ℕ → Except Halt (List String)
  | 0, _ => .ok []
  | count + 1, position => do
    let (_, next) ← nameAt bytes position
    let kind := fromBeBytes (← byteAt bytes next) (← byteAt bytes (next + 1))
    let length := fromBeBytes (← byteAt bytes (next + 8)) (← byteAt bytes (next + 9))
    let start := next + 10
    let data ← found (Records.slice bytes start (start + length.toNat)) (.failure short)
    let value ← valueOf kind data
    let later ← answersFrom count (start + length.toNat)
    return value.toList ++ later

/-- Every TXT value of the answer section. -/
def txtAnswers : Except Halt (List String) := do
  let head ← Header.read bytes
  let position ← skipQuestions bytes head.questions.toNat 12
  answersFrom bytes head.answers.toNat position

end

/-! ## Nothing panics -/

/-- A computation that does not panic. -/
def Safe {α : Type} (x : Except Halt α) : Prop := x ≠ .error .panic

section

variable {α β : Type}

theorem Safe.ok (a : α) : Safe (.ok a) := nofun

/-- A reader is safe where its parts are. -/
theorem Safe.bind {x : Except Halt α} {f : α → Except Halt β} (hx : Safe x)
    (hf : ∀ a, x = .ok a → Safe (f a)) : Safe (x >>= f) := by
  cases hxv : x with
  | error halt =>
    intro h
    exact hx (hxv.trans (congrArg Except.error (Except.error.inj h)))
  | ok a => exact hf a hxv

theorem Safe.found {o : Option α} {failure : Failure} : Safe (found o (.failure failure)) := by
  cases o <;> nofun

theorem Safe.found_of_some {o : Option α} {halt : Halt} (h : o.isSome) : Safe (Checked.found o halt) := by
  obtain ⟨a, rfl⟩ := Option.isSome_iff_exists.mp h
  exact Safe.ok a

theorem Safe.mapError {x : Except Failure α} : Safe (x.mapError .failure) := by
  cases x <;> nofun

end

variable {bytes : List UInt8}

theorem isSome_getElem? {position : ℕ} (h : position < bytes.length) : bytes[position]?.isSome := by
  rw [List.getElem?_eq_getElem h]
  rfl

/-- A slice within the message does not panic. -/
theorem isSome_slice {start stop : ℕ} (h : start ≤ stop) (hstop : stop ≤ bytes.length) :
    (Records.slice bytes start stop).isSome := by
  rw [Records.slice, if_pos ⟨h, hstop⟩]
  rfl

/-- A word within the message is read safely. -/
theorem safe_word {position : ℕ} (h : position + 1 < bytes.length) : Safe (Header.word bytes position) :=
  (Safe.found_of_some (isSome_getElem? (Nat.lt_of_succ_lt h))).bind fun _ _ =>
    (Safe.found_of_some (isSome_getElem? h)).bind fun _ _ => Safe.ok _

/-- A header is read safely, whatever the bytes. -/
theorem safe_read (bytes : List UInt8) : Safe (Header.read bytes) := by
  by_cases h : 12 ≤ bytes.length
  · rw [Header.read, ensure, if_pos h, ok_bind]
    exact (safe_word (by omega)).bind fun _ _ => (safe_word (by omega)).bind fun _ _ =>
      (safe_word (by omega)).bind fun _ _ => (safe_word (by omega)).bind fun _ _ =>
        (safe_word (by omega)).bind fun _ _ => (safe_word (by omega)).bind fun _ _ => Safe.ok _
  · rw [Header.read, ensure, if_neg h]
    exact fun hpanic => Halt.noConfusion (Except.error.inj hpanic)

/-- Questions are skipped safely, however many there are said to be. -/
theorem safe_skipQuestions (count position : ℕ) : Safe (skipQuestions bytes count position) := by
  induction count generalizing position with
  | zero => exact Safe.ok position
  | succ count ih => exact Safe.mapError.bind fun _ _ => ih _

/-- The strings of a record are read safely. -/
theorem safe_stringsFrom (position : ℕ) : Safe (stringsFrom bytes position) := by
  induction position using stringsFrom.induct bytes with
  | case1 position hlt ih =>
    rw [stringsFrom, if_pos hlt]
    refine (Safe.found_of_some (isSome_getElem? hlt)).bind fun length _ => ?_
    exact (Safe.found_of_some (isSome_slice (by omega) (Nat.min_le_right _ _))).bind fun _ _ =>
      (ih length).bind fun _ _ => Safe.ok _
  | case2 position hend =>
    rw [stringsFrom, if_neg hend]
    exact Safe.ok _

/-- The data of a record is read safely. -/
theorem safe_valueOf (kind : UInt16) (data : List UInt8) : Safe (valueOf kind data) := by
  rw [valueOf]
  split
  · exact (safe_stringsFrom 0).bind fun _ _ => Safe.ok _
  · exact Safe.ok _

/-- Answers are read safely, however many there are said to be. -/
theorem safe_answersFrom (count position : ℕ) : Safe (answersFrom bytes count position) := by
  induction count generalizing position with
  | zero => exact Safe.ok []
  | succ count ih =>
    exact Safe.mapError.bind fun _ _ => Safe.found.bind fun _ _ => Safe.found.bind fun _ _ =>
      Safe.found.bind fun _ _ => Safe.found.bind fun _ _ => Safe.found.bind fun _ _ =>
        (safe_valueOf _ _).bind fun _ _ => (ih _).bind fun _ _ => Safe.ok _

/-- Reading the answers of any message ends without a panic. -/
theorem safe_txtAnswers (bytes : List UInt8) : Safe (txtAnswers bytes) :=
  (safe_read bytes).bind fun _ _ => (safe_skipQuestions _ _).bind fun _ _ => safe_answersFrom _ _

/-! ## What is there is read -/

/-- What one record of an answer holds: the character strings of a TXT record, or anything else. -/
inductive Entry where
  | txt (strings : List String)
  | other (kind : UInt16) (data : List UInt8)

namespace Entry

/-- The type of a record. -/
def kind : Entry → UInt16
  | txt _ => typeTxt
  | other kind _ => kind

/-- The bytes of the data of a record. -/
def data : Entry → List UInt8
  | txt strings => strings.flatMap (item .asGiven)
  | other _ data => data

/-- The value of a TXT record is its strings, one behind the other. -/
def value : Entry → Option String
  | txt strings => some (String.join strings)
  | other _ _ => none

structure Fits (entry : Entry) : Prop where
  length : entry.data.length < 2 ^ 16
  strings : ∀ strings, entry = txt strings → ∀ string ∈ strings, string.utf8ByteSize ≤ mostString
  kind : ∀ kind data, entry = other kind data → kind ≠ typeTxt

end Entry

/-- So many questions stand at some place, and end in front of another. -/
inductive QuestionsAt (bytes : List UInt8) : ℕ → ℕ → ℕ → Prop where
  | none (position : ℕ) : QuestionsAt bytes 0 position position
  | more {pointers count position next last : ℕ} {labels : List (List UInt8)}
    (hname : NameAt bytes pointers position labels next) (hpointers : pointers ≤ mostPointers)
    (hrest : QuestionsAt bytes count (next + 4) last) : QuestionsAt bytes (count + 1) position last

/-- Some records stand at some place, one behind the other. -/
inductive RecordsAt (bytes : List UInt8) : ℕ → List Entry → Prop where
  | none (position : ℕ) : RecordsAt bytes position []
  | more {pointers position next : ℕ} {labels : List (List UInt8)} {entry : Entry}
    {entries : List Entry} (recordClass : UInt16) (ttl : UInt32)
    (hname : NameAt bytes pointers position labels next) (hpointers : pointers ≤ mostPointers)
    (hfits : entry.Fits)
    (hbody : Record.body entry.kind recordClass ttl entry.data <+: bytes.drop next)
    (hrest : RecordsAt bytes (next + 10 + entry.data.length) entries) :
    RecordsAt bytes position (entry :: entries)

/-- A message with some questions and, behind them, some answers. -/
structure Message (bytes : List UInt8) (head : Header) (entries : List Entry) : Prop where
  begins : head.write [] <+: bytes
  sections : ∃ position, QuestionsAt bytes head.questions.toNat 12 position ∧
    RecordsAt bytes position entries
  answers : head.answers.toNat = entries.length

theorem le_of_begins {position : ℕ} {part : List UInt8} (hpart : part ≠ [])
    (h : part <+: bytes.drop position) : position + part.length ≤ bytes.length := by
  have hle := h.length_le
  have hpos := List.length_pos_iff.mpr hpart
  rw [List.length_drop] at hle
  omega

theorem le_of_u16 {position : ℕ} {n : UInt16} (h : u16 n <+: bytes.drop position) :
    position + 2 ≤ bytes.length := le_of_begins (List.cons_ne_nil _ _) h

theorem byteAt_of_begins {position : ℕ} {first : UInt8} {others : List UInt8}
    (h : first :: others <+: bytes.drop position) : byteAt bytes position = .ok first := by
  rw [byteAt, getElem?_of_begins h]
  rfl

/-- The two bytes of a number. -/
theorem byteAt_u16 {position : ℕ} {n : UInt16} (h : u16 n <+: bytes.drop position) :
    ∃ high low, byteAt bytes position = .ok high ∧
      byteAt bytes (position + 1) = .ok low ∧ fromBeBytes high low = n := by
  obtain ⟨high, low, hbytes, hn⟩ := u16_eq n
  rw [hbytes] at h
  exact ⟨high, low, byteAt_of_begins h, byteAt_of_begins (prefix_tail h), hn⟩

theorem word_of_begins {position : ℕ} {n : UInt16} (h : u16 n <+: bytes.drop position) :
    Header.word bytes position = .ok n := by
  obtain ⟨high, low, hbytes, rfl⟩ := u16_eq n
  rw [hbytes] at h
  rw [Header.word, getElem?_of_begins h, getElem?_of_begins (prefix_tail h)]
  rfl

/-- A header that is written is read. -/
theorem read_of_begins {head : Header} (h : head.write [] <+: bytes) :
    Header.read bytes = .ok head := by
  obtain ⟨id, flags, counts⟩ := head
  obtain ⟨⟨counts⟩, hsize⟩ := counts
  obtain ⟨questions, answers, authorities, additional, rfl⟩ := List.length_eq_four.mp hsize
  have hlength : 12 ≤ bytes.length := h.length_le
  have hid : u16 id ++ (u16 flags ++ (u16 questions ++ (u16 answers ++ (u16 authorities ++
      u16 additional)))) <+: bytes.drop 0 := h
  have hflags : _ <+: bytes.drop 2 := prefix_behind _ hid
  have hquestions : _ <+: bytes.drop 4 := prefix_behind _ hflags
  have hanswers : _ <+: bytes.drop 6 := prefix_behind _ hquestions
  have hauthorities : _ <+: bytes.drop 8 := prefix_behind _ hanswers
  have hadditional : u16 additional <+: bytes.drop 10 := prefix_behind _ hauthorities
  rw [Header.read, ensure, if_pos hlength, ok_bind,
    word_of_begins ((List.prefix_append _ _).trans hid), ok_bind,
    word_of_begins ((List.prefix_append _ _).trans hflags), ok_bind,
    word_of_begins ((List.prefix_append _ _).trans hquestions), ok_bind,
    word_of_begins ((List.prefix_append _ _).trans hanswers), ok_bind,
    word_of_begins ((List.prefix_append _ _).trans hauthorities), ok_bind,
    word_of_begins hadditional, ok_bind]
  rfl

/-- The character strings of a TXT record are joined. -/
theorem stringsFrom_eq {strings : List String}
    (hstrings : ∀ string ∈ strings, string.utf8ByteSize ≤ mostString) {position : ℕ}
    (h : bytes.drop position = strings.flatMap (item .asGiven)) :
    stringsFrom bytes position = .ok (String.join strings) := by
  induction strings generalizing position with
  | nil =>
    have hend : bytes.length ≤ position := List.drop_eq_nil_iff.mp h
    rw [stringsFrom, if_neg (not_lt.mpr hend)]
    rfl
  | cons string strings ih =>
    obtain ⟨hle, hrest⟩ := List.forall_mem_cons.mp hstrings
    rw [List.flatMap_cons] at h
    have hitem : item .asGiven string <+: bytes.drop position := h ▸ List.prefix_append _ _
    have hbyte := getElem?_of_begins hitem
    have hlength : (UInt8.ofNat string.utf8ByteSize).toNat = (Text.bytes string).length := by
      rw [UInt8.toNat_ofNat_of_lt' (hle.trans_lt (by decide)), Text.bytes, Array.length_toList]
      rfl
    have hlt := lt_length_of_getElem? hbyte
    have hslice : Records.slice bytes (position + 1) (position + 1 + (Text.bytes string).length) =
        some (Text.bytes string) := slice_of_begins hlt (prefix_tail hitem)
    have hstop := (le_length_of_slice hslice).2
    have hnext : bytes.drop (position + 1 + (Text.bytes string).length) =
        strings.flatMap (item .asGiven) := by
      rw [← List.drop_drop, ← List.drop_drop, h]
      exact List.drop_left
    rw [stringsFrom, if_pos hlt, hbyte, found_some, ok_bind]
    dsimp only
    rw [hlength, Nat.min_eq_left hstop, hslice, found_some, ok_bind, ih hrest hnext, ok_bind,
      Text.fromUtf8Lossy_bytes, String.join_cons]
    rfl

/-- The data of a record is read back. -/
theorem valueOf_data {entry : Entry} (h : entry.Fits) :
    valueOf entry.kind entry.data = .ok entry.value := by
  cases entry with
  | txt strings =>
    have hread : readStrings (strings.flatMap (item .asGiven)) = .ok (String.join strings) :=
      stringsFrom_eq (h.strings strings rfl) rfl
    rw [valueOf, Entry.kind, if_pos rfl, Entry.data, hread]
    rfl
  | other kind data =>
    rw [valueOf, Entry.kind, if_neg (h.kind kind data rfl)]
    rfl

/-- A name that stands in the message is read, as long as it does not jump too often. -/
theorem nameAt_eq {pointers position next : ℕ} {labels : List (List UInt8)}
    (h : NameAt bytes pointers position labels next) (hpointers : pointers ≤ mostPointers) :
    nameAt bytes position = .ok (nameText labels, next) := by
  rw [nameAt, readName_of_nameAt h hpointers]
  rfl

/-- Questions that stand in the message are skipped to their end. -/
theorem skipQuestions_eq {count position last : ℕ} (h : QuestionsAt bytes count position last) :
    skipQuestions bytes count position = .ok last := by
  induction h with
  | none position => rfl
  | more hname hpointers hrest ih =>
    rw [skipQuestions, nameAt_eq hname hpointers, ok_bind]
    exact ih

/-- The parts of a record behind its name. -/
theorem prefix_of_body {kind recordClass : UInt16} {ttl : UInt32} {data : List UInt8} {next : ℕ}
    (h : Record.body kind recordClass ttl data <+: bytes.drop next) :
    u16 kind <+: bytes.drop next ∧ u16 (UInt16.ofNat data.length) <+: bytes.drop (next + 8) ∧
      data <+: bytes.drop (next + 10) ∧ next + 10 ≤ bytes.length := by
  have hparts : u16 kind ++ (u16 recordClass ++ (u32 ttl ++ (u16 (UInt16.ofNat data.length) ++ data)))
      <+: bytes.drop next := by
    simpa only [Record.body, List.append_assoc] using h
  have hclass : _ <+: bytes.drop (next + 2) := prefix_behind _ hparts
  have httl : _ <+: bytes.drop (next + 4) := prefix_behind _ hclass
  have hlength : _ <+: bytes.drop (next + 8) := prefix_behind _ httl
  have hnumber := (List.prefix_append _ _).trans hlength
  exact ⟨(List.prefix_append _ _).trans hparts, hnumber, prefix_behind _ hlength, le_of_u16 hnumber⟩

/-- The records that stand somewhere are read from there. -/
theorem answersFrom_eq {position : ℕ} {entries : List Entry} (h : RecordsAt bytes position entries) :
    answersFrom bytes entries.length position = .ok (entries.filterMap Entry.value) := by
  induction h with
  | none position => rfl
  | @more pointers position next labels entry entries recordClass ttl hname hpointers hfits hbody hrest ih =>
    obtain ⟨hkindBytes, hlength, hdata, hend⟩ := prefix_of_body hbody
    obtain ⟨high, low, hhigh, hlow, hkind⟩ := byteAt_u16 hkindBytes
    obtain ⟨above, below, habove, hbelow, hsize⟩ := byteAt_u16 hlength
    have hnumber : (UInt16.ofNat entry.data.length).toNat = entry.data.length :=
      UInt16.toNat_ofNat_of_lt' hfits.length
    rw [List.length_cons, answersFrom, nameAt_eq hname hpointers, ok_bind]
    dsimp only
    rw [hhigh, ok_bind, hlow, ok_bind, habove, ok_bind, hbelow, ok_bind, hkind, hsize, hnumber,
      slice_of_begins hend hdata, found_some, ok_bind, valueOf_data hfits, ok_bind,
      ih, ok_bind, List.filterMap_cons]
    cases entry.value <;> rfl

/-- Every value of the answers of a message is read, in the order they stand there. -/
theorem txtAnswers_eq {head : Header} {entries : List Entry} (h : Message bytes head entries) :
    txtAnswers bytes = .ok (entries.filterMap Entry.value) := by
  obtain ⟨position, hquestions, hrecords⟩ := h.sections
  rw [txtAnswers, read_of_begins h.begins, ok_bind, skipQuestions_eq hquestions, ok_bind, h.answers]
  exact answersFrom_eq hrecords

/-! ## What is written is read -/

/-- A record an update adds a value with. -/
def Record.Adds (record : Record) (value : String) : Prop :=
  ∃ name ttl, addTxt name value ttl = .ok record

/-- A text is written where it fits one string. -/
theorem txtData_eq_ok {value : String} {data : List UInt8} :
    txtData value = .ok data ↔ value.utf8ByteSize ≤ mostString ∧ data = item .asGiven value := by
  rw [txtData, bind_eq_ok]
  constructor
  · rintro ⟨_, hle, h⟩
    exact ⟨ensure_eq_ok.mp hle, (Except.ok.inj h).symm⟩
  · rintro ⟨hle, rfl⟩
    exact ⟨(), ensure_eq_ok.mpr hle, rfl⟩

/-- A record is written where its name is one and its data fits. -/
theorem write_eq_ok {record : Record} {out written : List UInt8} :
    record.write out = .ok written ↔ ∃ named, writeName record.name .asGiven out = .ok named ∧
      record.data.length < 2 ^ 16 ∧
        written = named ++ Record.body record.kind record.recordClass record.ttl record.data := by
  rw [Record.write, bind_eq_ok]
  constructor
  · rintro ⟨named, hnamed, h⟩
    obtain ⟨_, hlength, h⟩ := bind_eq_ok.mp h
    exact ⟨named, hnamed, ensure_eq_ok.mp hlength, (Except.ok.inj h).symm⟩
  · rintro ⟨named, hnamed, hlength, rfl⟩
    exact ⟨named, hnamed, bind_eq_ok.mpr ⟨(), ensure_eq_ok.mpr hlength, rfl⟩⟩

theorem length_body (kind recordClass : UInt16) (ttl : UInt32) (data : List UInt8) :
    (Record.body kind recordClass ttl data).length = 10 + data.length := by
  simp only [Record.body, List.length_append, length_u16, length_u32]

theorem length_write (head : Header) : (head.write []).length = 12 := by
  obtain ⟨id, flags, ⟨⟨counts⟩, hsize⟩⟩ := head
  obtain ⟨questions, answers, authorities, additional, rfl⟩ := List.length_eq_four.mp hsize
  rfl

theorem filterMap_values (values : List String) :
    values.filterMap (Entry.value ∘ fun value => .txt [value]) = values := by
  have hvalue : (Entry.value ∘ fun value => .txt [value]) = some := by
    funext value
    show some (String.join [value]) = some value
    rw [String.join_cons, String.join_nil, String.append_empty]
  rw [hvalue, List.filterMap_some]

/-- Writing only appends. -/
theorem prefix_write {records : List Record} {out written : List UInt8}
    (h : records.foldlM (fun out record => record.write out) out = .ok written) : out <+: written := by
  induction records generalizing out with
  | nil => exact Except.ok.inj h ▸ List.prefix_rfl
  | cons record records ih =>
    rw [List.foldlM_cons, bind_eq_ok] at h
    obtain ⟨middle, hmiddle, hrest⟩ := h
    obtain ⟨named, hnamed, -, rfl⟩ := write_eq_ok.mp hmiddle
    obtain ⟨-, -, rfl⟩ := writeName_eq_ok.mp hnamed
    exact (List.prefix_append _ _).trans ((List.prefix_append _ _).trans (ih hrest))

/-- TXT records that are written stand where they were written. -/
theorem recordsAt_write {records : List Record} {values : List String}
    (hvalues : List.Forall₂ Record.Adds records values) {out written : List UInt8}
    (h : records.foldlM (fun out record => record.write out) out = .ok written) (rest : List UInt8) :
    RecordsAt (written ++ rest) out.length (values.map fun value => .txt [value]) := by
  induction hvalues generalizing out with
  | nil => exact .none _
  | @cons record value records values hadds hvalues ih =>
    rw [List.foldlM_cons, bind_eq_ok] at h
    obtain ⟨middle, hmiddle, hrest⟩ := h
    obtain ⟨named, hnamed, hlength, rfl⟩ := write_eq_ok.mp hmiddle
    obtain ⟨name, ttl, hadded⟩ := hadds
    obtain ⟨data, hdata, rfl⟩ := map_eq_ok.mp hadded
    obtain ⟨hle, rfl⟩ := txtData_eq_ok.mp hdata
    have hone : (Entry.txt [value]).data = item .asGiven value := List.append_nil _
    have hfits : (Entry.txt [value]).Fits := by
      refine ⟨hone ▸ hlength, fun strings heq string hmem => ?_, fun _ _ heq => nomatch heq⟩
      obtain rfl := Entry.txt.inj heq
      exact List.mem_singleton.mp hmem ▸ hle
    have hlater := ih hrest
    obtain ⟨tail, rfl⟩ := prefix_write hrest
    have hstands := nameAt_writeName hnamed
      (Record.body typeTxt classIn ttl (item .asGiven value) ++ (tail ++ rest))
    rw [← List.append_assoc, ← List.append_assoc] at hstands
    refine .more classIn ttl hstands (Nat.zero_le _) hfits ?_ ?_
    · rw [hone, List.append_assoc, List.append_assoc, List.drop_left]
      exact List.prefix_append _ _
    · rw [hone]
      rwa [List.length_append, length_body, ← Nat.add_assoc] at hlater

/-- The values of TXT records that are written as answers are read. -/
theorem txtAnswers_written {records : List Record} {values : List String}
    (hvalues : List.Forall₂ Record.Adds records values) {head : Header} {written : List UInt8}
    (hquestions : head.questions = 0) (hanswers : head.answers.toNat = records.length)
    (h : records.foldlM (fun out record => record.write out) (head.write []) = .ok written)
    (rest : List UInt8) : txtAnswers (written ++ rest) = .ok values := by
  have hrecords := recordsAt_write hvalues h rest
  have hlength : (head.write []).length = 12 := length_write head
  rw [hlength] at hrecords
  have hnone : QuestionsAt (written ++ rest) head.questions.toNat 12 12 := by
    rw [hquestions]
    exact .none 12
  have hmessage : Message (written ++ rest) head (values.map fun value => .txt [value]) := by
    refine ⟨(prefix_write h).trans (List.prefix_append _ _), ⟨12, hnone, hrecords⟩, ?_⟩
    rw [List.length_map, hanswers, hvalues.length_eq]
  rw [txtAnswers_eq hmessage, List.filterMap_map]
  exact congrArg Except.ok (filterMap_values values)

/-- The codec of names and records: what is written is read back, every name ends and reading continues
behind it, no message panics, and the values of an answer are read in their order. -/
theorem codec_sound :
    (∀ name out written rest, writeName name .asGiven out = .ok written →
      readName (written ++ rest) out.length = .ok (Text.trimEndMatches name '.', written.length)) ∧
    (∀ bytes position, (∃ fuel, run bytes fuel (start position) = some (readName bytes position)) ∧
      ∀ name next, readName bytes position = .ok (name, next) → position < next ∧ next ≤ bytes.length) ∧
    (∀ bytes, txtAnswers bytes ≠ .error .panic) ∧
    ∀ bytes head entries, Message bytes head entries →
      txtAnswers bytes = .ok (entries.filterMap Entry.value) := by
  refine ⟨fun name out written rest h => readName_writeName h rest, fun bytes position => ?_,
    safe_txtAnswers, fun bytes head entries => txtAnswers_eq⟩
  exact ⟨⟨_, run_start position⟩, fun name next => bounds_of_readName⟩

/-- An answer whose question's name is pointed to, with a value in two strings behind a CNAME. -/
def pointed : List UInt8 :=
  Header.write ⟨7, 0x8180, #v[1, 2, 0, 0]⟩ [] ++ encoded .asGiven "a.example" ++ u16 typeTxt ++ u16 classIn ++
    ([0xC0, 12] ++ Record.body 5 classIn 60 [0xC0, 12]) ++
      ([0xC0, 12] ++ Record.body typeTxt classIn 60 (item .asGiven "to" ++ item .asGiven "ken"))

theorem message_pointed : Message pointed ⟨7, 0x8180, #v[1, 2, 0, 0]⟩
    [.other 5 [0xC0, 12], .txt ["to", "ken"]] := by
  have hname : NameAt pointed 0 12 ((labelsOf "a.example").map Text.bytes) 23 :=
    nameAt_labels (by decide +kernel) (by decide +kernel)
  have hpointer (position : ℕ) (h : [0xC0, 12] <+: pointed.drop position) :
      NameAt pointed 1 position ((labelsOf "a.example").map Text.bytes) (position + 2) :=
    .pointer 0xC0 12 (by decide) h rfl hname
  refine ⟨by decide +kernel, ⟨27, .more hname (by decide) (.none 27), ?_⟩, rfl⟩
  refine .more classIn 60 (hpointer 27 (by decide +kernel)) (by decide) ?_ (by decide +kernel)
    (.more classIn 60 (hpointer 41 (by decide +kernel)) (by decide) ?_ (by decide +kernel) (.none _))
  · exact ⟨by decide, (fun _ heq => nomatch heq), fun kind data heq => by cases heq; decide⟩
  · exact ⟨by decide +kernel, fun strings heq => by cases heq; decide +kernel, fun _ _ heq => nomatch heq⟩

theorem pointed_is_read : txtAnswers pointed = .ok ["token"] :=
  codec_sound.2.2.2 pointed _ _ message_pointed

end EkEk.Tls.Wire
