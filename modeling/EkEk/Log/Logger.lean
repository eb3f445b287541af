import EkEk.JsonWrite
import EkEk.Lib.Lines
import EkEk.Lib.Runs
import EkEk.Log.Scan

/-!
# The installed logger

Reference: `crates/ek-ek-log/src/logger.rs`, `level.rs`, `access.rs` and `sink.rs`.

Records go to a bounded queue that a writer drains, so that a blocked consumer of the output never holds
whoever writes a record; one that finds the queue full is dropped and counted. `logged_run` says what is on
the output, in the queue and in the count after any run.
-/

namespace EkEk.Log

open Json Lines Mask

/-! ## Masked texts are texts -/

/-- The bytes of some characters. -/
def Encoded (bytes : List UInt8) : Prop := ∃ chars : List Char, bytes = chars.flatMap String.utf8EncodeChar

theorem encoded_nil : Encoded [] := ⟨[], rfl⟩

theorem Encoded.append {first later : List UInt8} (h : Encoded first) (hlater : Encoded later) :
    Encoded (first ++ later) := by
  obtain ⟨chars, rfl⟩ := h
  obtain ⟨others, rfl⟩ := hlater
  exact ⟨chars ++ others, List.flatMap_append.symm⟩

theorem encoded_bytes (s : String) : Encoded (Text.bytes s) := ⟨s.toList, Text.bytes_eq_flatMap s⟩

theorem Encoded.exists_text {bytes : List UInt8} (h : Encoded bytes) : ∃ s, Text.fromUtf8 bytes = some s := by
  obtain ⟨chars, rfl⟩ := h
  refine ⟨String.ofList chars, Text.fromUtf8_eq_some.mpr ?_⟩
  rw [Text.bytes_eq_flatMap, String.toList_ofList]

theorem Encoded.chars {bytes : List UInt8} (h : Encoded bytes) : Chars bytes := by
  obtain ⟨chars, rfl⟩ := h
  induction chars with
  | nil => exact .nil
  | cons c chars ih => exact .cons (isChar_utf8EncodeChar c) ih

/-- A text is cut between two characters where what follows begins with one. -/
theorem Encoded.split {front rest : List UInt8} (h : Encoded (front ++ rest)) (hrest : Chars rest) :
    Encoded front ∧ Encoded rest := by
  obtain ⟨chars, htext⟩ := h
  induction chars generalizing front with
  | nil =>
    obtain ⟨rfl, rfl⟩ := List.append_eq_nil_iff.mp htext
    exact ⟨encoded_nil, encoded_nil⟩
  | cons c chars ih =>
    rw [List.flatMap_cons] at htext
    by_cases hlength : (String.utf8EncodeChar c).length ≤ front.length
    · obtain ⟨middle, rfl⟩ := List.prefix_of_prefix_length_le (List.prefix_append _ _)
        (htext ▸ List.prefix_append front rest) hlength
      rw [List.append_assoc] at htext
      obtain ⟨⟨others, hothers⟩, hend⟩ := ih (List.append_cancel_left htext)
      exact ⟨⟨c :: others, by rw [List.flatMap_cons, hothers]⟩, hend⟩
    · cases front with
      | nil => exact ⟨encoded_nil, c :: chars, htext⟩
      | cons byte front =>
        -- The rest begins inside a character.
        exfalso
        obtain ⟨first, tail, hc, -, -, htail⟩ := isChar_utf8EncodeChar c
        rw [hc] at htext hlength
        have hlt : front.length < tail.length := by simpa using hlength
        have hdrop : rest = tail.drop front.length ++ chars.flatMap String.utf8EncodeChar := by
          have := congrArg (List.drop (front.length + 1)) htext
          simpa [List.drop_append_of_le_length hlt.le] using this
        rw [List.drop_eq_getElem_cons hlt] at hdrop
        rw [hdrop, List.cons_append] at hrest
        have := htail _ (List.getElem_mem hlt)
        rw [hrest.first.1] at this
        cases this

/-- What the mask takes the place of begins and ends between two characters. -/
theorem hit_chars {before rest : List UInt8} (h : Chars rest) {kept stop : ℕ}
    (hhit : hit before rest = some (kept, stop)) :
    0 < stop ∧ Chars (rest.drop kept) ∧ Chars (rest.drop stop) := by
  rw [hit] at hhit
  cases hvalue : valueOf before rest with
  | some found =>
    obtain ⟨-, -, hpos, hkept, hstop⟩ := valueOf_spec h hvalue
    rw [hvalue] at hhit
    obtain rfl := Option.some.inj hhit
    exact ⟨hpos, hkept, hstop⟩
  | none =>
    rw [hvalue, Option.none_or] at hhit
    obtain ⟨last, hblock, heq⟩ := Option.map_eq_some_iff.mp hhit
    obtain ⟨rfl, rfl⟩ := Prod.mk.inj heq
    exact ⟨block_pos hblock, h, chars_of_lowercase h (block_spec h.lowercase hblock).2⟩

/-- What is masked of a text is a text. -/
theorem encoded_masked {rest : List UInt8} (h : Encoded rest) (before : List UInt8) :
    Encoded (masked before rest) := by
  induction hlength : rest.length using Nat.strong_induction_on generalizing rest before with
  | _ length ih =>
    cases hrest : rest with
    | nil =>
      rw [masked]
      exact encoded_nil
    | cons byte tail =>
      rw [← hrest]
      cases hhit : hit before rest with
      | some found =>
        obtain ⟨kept, stop⟩ := found
        obtain ⟨hpos, hkept, hstop⟩ := hit_chars h.chars hhit
        have hfront := (Encoded.split (by rwa [List.take_append_drop]) hkept).1
        have hbehind := (Encoded.split (by rwa [List.take_append_drop]) hstop).2
        rw [masked_of_some hhit hpos (by rw [hrest]; exact List.cons_ne_nil _ _)]
        refine (hfront.append ?_).append (ih _ ?_ hbehind _ rfl)
        · exact encoded_bytes "***"
        · rw [← hlength, List.length_drop, hrest, List.length_cons]
          omega
      | none =>
        -- The bytes of a character go through one by one.
        obtain ⟨chars, hchars⟩ := h
        cases chars with
        | nil =>
          rw [hchars, List.flatMap_nil] at hrest
          cases hrest
        | cons c chars =>
          obtain ⟨first, others, hc, -, -, hothers⟩ := isChar_utf8EncodeChar c
          rw [List.flatMap_cons, hc, List.cons_append] at hchars
          rw [hchars] at hhit ⊢
          rw [masked_of_none hhit, masked_continuation hothers, ← List.cons_append, ← hc]
          refine Encoded.append ⟨[c], by simp⟩ (ih _ ?_ ⟨chars, rfl⟩ _ rfl)
          rw [← hlength, hchars, List.length_cons, List.length_append]
          omega

/-- A message is a text when it is masked. -/
theorem exists_message (text : String) : ∃ s, (message text).bind Text.fromUtf8 = some s := by
  rw [message_eq]
  exact (encoded_masked (encoded_bytes text) []).exists_text

/-- The message as it is written. -/
def maskedText (text : String) : String := ((message text).bind Text.fromUtf8).getD ""

/-- Masking never panics, and what it writes is text. -/
theorem message_maskedText (text : String) : message text = some (Text.bytes (maskedText text)) := by
  obtain ⟨s, hs⟩ := exists_message text
  obtain ⟨bytes, hbytes, htext⟩ := Option.bind_eq_some_iff.mp hs
  rw [maskedText, hs, Option.getD_some, hbytes, Text.fromUtf8_eq_some.mp htext]

/-! ## Records -/

/-- How much detail the application log carries. -/
inductive Level where
  | error
  | warn
  | info
  | debug
  | trace
deriving DecidableEq, Repr

namespace Level

def name : Level → String
  | error => "error"
  | warn => "warn"
  | info => "info"
  | debug => "debug"
  | trace => "trace"

/-- The number a level is stored as. -/
def code : Level → UInt8
  | error => 0
  | warn => 1
  | info => 2
  | debug => 3
  | trace => 4

/-- The level a stored number stands for. -/
def fromCode (code : UInt8) : Level :=
  if code = 0 then error
  else if code = 1 then warn
  else if code = 3 then debug
  else if code = 4 then trace
  else info

theorem fromCode_code (level : Level) : fromCode level.code = level := by
  cases level <;> rfl

end Level

inductive Protocol where
  | http
  | tcp
  | udp
deriving DecidableEq, Repr

def Protocol.name : Protocol → String
  | http => "http"
  | tcp => "tcp"
  | udp => "udp"

/-- One finished request or connection. The duration is a number of 64 bits. -/
structure Access where
  protocol : Protocol
  frontend : String
  client : String
  durationMs : UInt64
  requestId : Option String
  backendPool : Option String
  backendMember : Option String
  method : Option String
  path : Option String
  status : Option UInt16
  bytesToBackend : Option UInt64
  bytesFromBackend : Option UInt64
  session : Option String
  sni : Option String
deriving DecidableEq, Repr

/-- Whether the bits are those of a number, and not of an infinity or of none. -/
def finite (bits : UInt64) : Bool := (bits >>> 52) &&& 0x7FF ≠ 0x7FF

/-- A member that is left out where there is nothing to say. -/
def skipping {α : Type} (name : String) (write : α → Value) (held : Option α) : List (String × Value) :=
  (held.map fun value => (name, write value)).toList

/-- The fields of an access record, in the order of their declaration. -/
def Access.members (access : Access) : List (String × Value) :=
  [("protocol", .string access.protocol.name), ("frontend", .string access.frontend),
    ("client", .string access.client),
    ("duration_ms", if finite access.durationMs then .number (.float access.durationMs) else .null)] ++
  skipping "request_id" .string access.requestId ++
  skipping "backend_pool" .string access.backendPool ++
  skipping "backend_member" .string access.backendMember ++
  skipping "method" .string access.method ++
  skipping "path" .string access.path ++
  skipping "status" (fun status : UInt16 => .number (.posInt status.toUInt64)) access.status ++
  skipping "bytes_to_backend" (fun count => .number (.posInt count)) access.bytesToBackend ++
  skipping "bytes_from_backend" (fun count => .number (.posInt count)) access.bytesFromBackend ++
  skipping "session" .string access.session ++
  skipping "sni" .string access.sni

/-- `AppRecord`. -/
def appRecord (ts : String) (level : Level) (target text : String) : Value :=
  .object [("ts", .string ts), ("kind", .string "app"), ("level", .string level.name),
    ("target", .string target), ("message", .string (maskedText text))]

/-- `AccessRecord`. -/
def accessRecord (ts : String) (access : Access) : Value :=
  .object ([("ts", .string ts), ("kind", .string "access")] ++ access.members)

/-! ## The logger -/

/-- How many records may wait to be written. -/
def QUEUE : ℕ := 8192

/-- The logger, and the lines its sink was handed. Without a writer every record is dropped. -/
structure Logger where
  level : UInt8
  queue : List String
  dropped : UInt64
  sink : List String
  draining : Bool

/-- What happens to a logger. -/
inductive Event where
  | log (ts : String) (level : Level) (target text : String)
  | access (ts : String) (access : Access)
  | setLevel (level : Level)
  | write

namespace Logger

def new (level : Level) (draining : Bool) : Logger := ⟨level.code, [], 0, [], draining⟩

/-- Queue one line, or count a drop. -/
def enqueue (l : Logger) (line : String) : Logger :=
  if l.draining && decide (l.queue.length < QUEUE) then { l with queue := l.queue ++ [line] }
  else { l with dropped := l.dropped + 1 }

/-- The writer takes the next line. -/
def write (l : Logger) : Logger :=
  match l.queue with
  | [] => l
  | line :: queue => { l with queue, sink := l.sink ++ [line] }

variable (ryu : UInt64 → List Char)

def step (l : Logger) : Event → Logger
  | .log ts level target text =>
    if level.code ≤ (Level.fromCode l.level).code then l.enqueue (toText ryu (appRecord ts level target text))
    else l
  | .access ts access => l.enqueue (toText ryu (accessRecord ts access))
  | .setLevel level => { l with level := level.code }
  | .write => l.write

end Logger

/-- The records of a run that the level lets through. -/
def offered : Level → List Event → List Value
  | _, [] => []
  | level, .log ts own target text :: rest =>
    if own.code ≤ level.code then appRecord ts own target text :: offered level rest else offered level rest
  | level, .access ts access :: rest => accessRecord ts access :: offered level rest
  | _, .setLevel level :: rest => offered level rest
  | level, .write :: rest => offered level rest

/-- What is on standard output: each line of the sink, with its line end. -/
def output (l : Logger) : List UInt8 := l.sink.flatMap fun line => Text.bytes line ++ [10]

section

variable {ryu : UInt64 → List Char} {l : Logger}

/-! ## Nothing is lost without a count -/

/-- What became of the lines there were. -/
structure Accounted (lines : List String) (l : Logger) : Prop where
  kept : (l.sink ++ l.queue).Sublist lines
  bounded : l.queue.length ≤ QUEUE
  counted : l.dropped = UInt64.ofNat (lines.length - (l.sink ++ l.queue).length)
  all : l.draining = true → lines.length ≤ QUEUE → l.sink ++ l.queue = lines

theorem Accounted.enqueue {lines : List String} (h : Accounted lines l) (line : String) :
    Accounted (lines ++ [line]) (l.enqueue line) := by
  have hle := h.kept.length_le
  rw [Logger.enqueue]
  split
  · rename_i hroom
    rw [Bool.and_eq_true, decide_eq_true_iff] at hroom
    refine ⟨?_, ?_, ?_, fun hdraining hfew => ?_⟩ <;> dsimp only <;> try rw [← List.append_assoc]
    · exact h.kept.append_right [line]
    · rw [List.length_append, List.length_singleton]
      exact hroom.2
    · refine h.counted.trans (congrArg UInt64.ofNat ?_)
      simp only [List.length_append, List.length_singleton]
      omega
    · rw [List.length_append] at hfew
      rw [h.all hdraining (Nat.le_of_add_right_le hfew)]
  · rename_i hfull
    refine ⟨h.kept.trans (List.sublist_append_left _ _), h.bounded, ?_, fun hdraining hfew => ?_⟩
    · have hone : (lines ++ [line]).length - (l.sink ++ l.queue).length =
          lines.length - (l.sink ++ l.queue).length + 1 := by
        rw [List.length_append, List.length_singleton, Nat.sub_add_comm hle]
      rw [hone, UInt64.ofNat_add, h.counted]
      rfl
    · exfalso
      rw [List.length_append, List.length_singleton] at hfew
      rw [List.length_append] at hle
      refine hfull ?_
      rw [Bool.and_eq_true, decide_eq_true_iff]
      exact ⟨hdraining, by omega⟩

theorem Accounted.write {lines : List String} (h : Accounted lines l) : Accounted lines l.write := by
  unfold Logger.write
  split
  · exact h
  · rename_i line queue hqueue
    have hsame : l.sink ++ [line] ++ queue = l.sink ++ l.queue := by
      rw [hqueue, List.append_assoc, List.singleton_append]
    have hbound := h.bounded
    rw [hqueue, List.length_cons] at hbound
    refine ⟨?_, Nat.le_of_succ_le hbound, ?_, ?_⟩ <;> dsimp only <;> rw [hsame]
    · exact h.kept
    · exact h.counted
    · exact h.all

@[simp] theorem level_enqueue (l : Logger) (line : String) : (l.enqueue line).level = l.level := by
  rw [Logger.enqueue]
  split <;> rfl

@[simp] theorem level_write (l : Logger) : l.write.level = l.level := by
  unfold Logger.write
  split <;> rfl

theorem Accounted.run {lines : List String} (h : Accounted lines l) {level : Level}
    (hlevel : l.level = level.code)
    (events : List Event) :
    Accounted (lines ++ (offered level events).map (toText ryu)) (Runs.run (Logger.step ryu) l events) := by
  induction events generalizing l lines level with
  | nil =>
    rw [offered, List.map_nil, List.append_nil]
    exact h
  | cons event events ih =>
    rw [Runs.run_cons]
    cases event with
    | log ts own target text =>
      rw [Logger.step, hlevel, Level.fromCode_code, offered]
      split
      · rw [List.map_cons, List.append_cons]
        exact ih (h.enqueue _) (by rw [level_enqueue, hlevel])
      · exact ih h hlevel
    | access ts access =>
      rw [Logger.step, offered, List.map_cons, List.append_cons]
      exact ih (h.enqueue _) (by rw [level_enqueue, hlevel])
    | setLevel other =>
      have hset : Accounted lines { l with level := other.code } := ⟨h.kept, h.bounded, h.counted, h.all⟩
      exact ih hset rfl
    | write => exact ih h.write ((level_write l).trans hlevel)

theorem draining_step (l : Logger) (event : Event) : (l.step ryu event).draining = l.draining := by
  have henqueue (line : String) : (l.enqueue line).draining = l.draining := by
    rw [Logger.enqueue]
    split <;> rfl
  cases event with
  | log ts own target text =>
    rw [Logger.step]
    split
    · exact henqueue _
    · rfl
  | access ts access => exact henqueue _
  | setLevel level => rfl
  | write =>
    show l.write.draining = _
    unfold Logger.write
    split <;> rfl

theorem accounted_new (level : Level) (draining : Bool) : Accounted [] (.new level draining) :=
  ⟨List.Sublist.slnil, Nat.zero_le _, rfl, fun _ _ => rfl⟩

/-- What reaches the sink are records in the order they were offered, each one whole; at most the queue waits,
the count says how many are missing, and none is as long as the queue has not been filled. -/
theorem logged_run (level : Level) (draining : Bool) (events : List Event) :
    let l := Runs.run (Logger.step ryu) (.new level draining) events
    let lines := (offered level events).map (toText ryu)
    (l.sink ++ l.queue).Sublist lines ∧ l.queue.length ≤ QUEUE ∧
      l.dropped = UInt64.ofNat (lines.length - (l.sink ++ l.queue).length) ∧
      (draining = true → lines.length ≤ QUEUE → l.sink ++ l.queue = lines) := by
  intro l lines
  have h : Accounted lines l := (accounted_new level draining).run rfl events
  have hdraining : l.draining = draining :=
    Runs.run_inv (fun l event hl => (draining_step l event).trans hl) rfl events
  exact ⟨h.kept, h.bounded, h.counted, hdraining ▸ h.all⟩

/-! ## A record is a line -/

variable {float : String → Option UInt64}

/-- An application record as it is read: its members by their names. -/
def appRead (ts : String) (level : Level) (target text : String) : Value :=
  .object [("kind", .string "app"), ("level", .string level.name), ("message", .string (maskedText text)),
    ("target", .string target), ("ts", .string ts)]

theorem fromStr_appRecord (ts : String) (level : Level) (target text : String) :
    fromStr float (toText ryu (appRecord ts level target text)) = some (appRead ts level target text) := by
  rw [fromStr_toText (by simp [appRecord, Whole, WholeMembers])
    (by simp [appRecord, deep, deepMembers, deepest])]
  rfl

theorem mem_offered {level : Level} {events : List Event} {record : Value}
    (h : record ∈ offered level events) :
    (∃ ts own target text, .log ts own target text ∈ events ∧ record = appRecord ts own target text) ∨
      ∃ ts access, .access ts access ∈ events ∧ record = accessRecord ts access := by
  induction events generalizing level with
  | nil => cases h
  | cons event events ih =>
    have hlater {level : Level} (h : record ∈ offered level events) :
        (∃ ts own target text, .log ts own target text ∈ event :: events ∧
          record = appRecord ts own target text) ∨
          ∃ ts access, .access ts access ∈ event :: events ∧ record = accessRecord ts access := by
      rcases ih h with ⟨ts, own, target, text, hmem, heq⟩ | ⟨ts, access, hmem, heq⟩
      · exact .inl ⟨ts, own, target, text, List.mem_cons_of_mem _ hmem, heq⟩
      · exact .inr ⟨ts, access, List.mem_cons_of_mem _ hmem, heq⟩
    cases event with
    | log ts own target text =>
      rw [offered] at h
      split at h
      · rcases List.mem_cons.mp h with heq | hmem
        · exact .inl ⟨ts, own, target, text, List.mem_cons_self, heq⟩
        · exact hlater hmem
      · exact hlater h
    | access ts access =>
      rw [offered] at h
      rcases List.mem_cons.mp h with heq | hmem
      · exact .inr ⟨ts, access, List.mem_cons_self, heq⟩
      · exact hlater hmem
    | setLevel level => exact hlater h
    | write => exact hlater h

/-- The output is read line by line as it was written: an application record says what was logged, with the
secrets masked, and nothing that was logged makes a line of its own. -/
theorem output_run (hryu : ∀ bits, ∀ c ∈ ryu bits, 32 ≤ c.toNat) (level : Level) (draining : Bool)
    (events : List Event) :
    let l := Runs.run (Logger.step ryu) (.new level draining) events
    lines 10 (output l) = l.sink.map Text.bytes ∧
      ∀ line ∈ l.sink,
        (∃ ts own target text, .log ts own target text ∈ events ∧
          fromStr float line = some (appRead ts own target text)) ∨
        ∃ ts access, .access ts access ∈ events ∧ line = toText ryu (accessRecord ts access) := by
  intro l
  have hkept : (l.sink ++ l.queue).Sublist ([] ++ (offered level events).map (toText ryu)) :=
    ((accounted_new level draining).run rfl events).kept
  have hsink (line : String) (hline : line ∈ l.sink) :
      ∃ record ∈ offered level events, toText ryu record = line :=
    List.mem_map.mp (hkept.subset (List.mem_append_left _ hline))
  refine ⟨?_, fun line hline => ?_⟩
  · have hbreak : ∀ line ∈ l.sink.map Text.bytes, 10 ∉ line := by
      intro bytes hbytes
      obtain ⟨line, hline, rfl⟩ := List.mem_map.mp hbytes
      obtain ⟨record, -, rfl⟩ := hsink line hline
      refine Text.newline_notMem_bytes fun hmem => ?_
      rw [toText, String.toList_ofList] at hmem
      exact absurd (space_le_write escapes_escaped record (.inr hryu) _ hmem) (by decide)
    rw [← lines_flatMap hbreak, output, List.flatMap_map]
  · obtain ⟨record, hrecord, rfl⟩ := hsink line hline
    rcases mem_offered hrecord with ⟨ts, own, target, text, hmem, rfl⟩ | ⟨ts, access, hmem, rfl⟩
    · exact .inl ⟨ts, own, target, text, hmem, fromStr_appRecord ts own target text⟩
    · exact .inr ⟨ts, access, hmem, rfl⟩

/-- A line break in what is logged makes no line. -/
theorem output_broken :
    lines 10 (output (Runs.run (Logger.step fun _ => ['1', '.', '0']) (.new .info true)
      [.log "now" .warn "proxy" "one\ntwo", .write])) =
        [Text.bytes (toText (fun _ => ['1', '.', '0']) (appRecord "now" .warn "proxy" "one\ntwo"))] :=
  (@output_run _ (fun _ => none) (fun _ => by simp) .info true _).1

end

end EkEk.Log
