import EkEk.Peer.Authority
import EkEk.Serde
import EkEk.Text

/-!
# Messages and lines

Reference: `crates/ek-ek-peer/src/message.rs`, `crates/ek-ek-peer/src/wire.rs`, and `read_line` and
`take_line` of `crates/ek-ek-peer/src/channel.rs`.

A message is one line of JSON. The writer has no limit on a line. The reader has one, and asks for it
each time it has taken in what was there without finding the end of the line. `received_iff` says
what comes of it: a message arrives whole, however it was cut into reads and whatever follows it, and
the reader stays within its limit, exactly if the line with its newline fits the limit.

The JSON library is `Serde` at the type of the messages, and `Body` is its type of values.
-/

namespace EkEk.Peer

/-! ## What two nodes say to each other -/

/-- The opening line of a connection. -/
structure Hello where
  protocol : String
  schemaVersion : UInt32
deriving DecidableEq, Repr

structure HelloAnswer where
  protocol : String
  schemaVersion : UInt32
  node : String
deriving DecidableEq, Repr

structure HealthAsk where
  protocol : String
deriving DecidableEq, Repr

structure HealthAnswer where
  protocol : String
  node : String
deriving DecidableEq, Repr

/-- A call addressed to a named service. -/
structure Call (Body : Type) where
  service : String
  body : Body
deriving DecidableEq, Repr

structure Reply (Body : Type) where
  body : Body
deriving DecidableEq, Repr

/-- A question that was refused. -/
structure Refusal where
  reason : String
  detail : String
deriving DecidableEq, Repr

/-- Anything one node asks another. -/
inductive Ask (Body : Type) where
  | hello (hello : Hello)
  | health (ask : HealthAsk)
  | call (call : Call Body)
deriving DecidableEq, Repr

/-- Anything a node answers with. -/
inductive Answer (Body : Type) where
  | hello (answer : HelloAnswer)
  | health (answer : HealthAnswer)
  | reply (reply : Reply Body)
  | refused (refusal : Refusal)
deriving DecidableEq, Repr

/-- The release of the peer protocol this build speaks. -/
def protocolRelease : String := "ek-ek-peer/1"

/-! ## Lines -/

/-- The longest line a peer may send. -/
def mostLineBytes : ℕ := 64 * 1024

/-- How much a buffered reader holds at once. -/
def bufferBytes : ℕ := 8 * 1024

section

variable {T : Type*} (serde : Serde T)

/-- A message as one line, newline included. -/
def encode (message : T) : Except Failure String :=
  match serde.toString message with
  | .error error => .error ⟨.protocol, s!"a message could not be written out: {error}"⟩
  | .ok line =>
    if '\n' ∈ line.toList then .error ⟨.protocol, "a message would have split across lines"⟩
    else .ok (line ++ "\n")

/-- A line without the line ends behind it. -/
def trimLineEnds (line : String) : String :=
  String.ofList (line.toList.rdropWhile fun c => c = '\n' ∨ c = '\r')

/-- Read one line back into a message. -/
def decode (line : String) : Except Failure T :=
  let line := trimLineEnds line
  if line = "" then .error ⟨.protocol, "an empty line is not a message"⟩
  else
    match serde.fromStr line with
    | .error error => .error ⟨.protocol, s!"a message could not be read back: {error}"⟩
    | .ok message => .ok message

end

/-! ## Reading lines -/

/-- What a reader gives one after the other: bytes, none of them once the peer went away, or what
went wrong. -/
abbrev Reads := List (Except String (List UInt8))

/-- How reading a line ended: what came of it, what can still be read, and the most that was
buffered. -/
structure Taken (α : Type*) where
  outcome : Except Failure (Option α)
  rest : Reads
  most : ℕ

/-- What the peer's going away means for what was read so far. -/
def gone (line : List UInt8) : Except Failure (Option (List UInt8)) :=
  if line = [] then .ok none
  else .error ⟨.network, "a peer went away in the middle of a message"⟩

/-- What is left of a read of which so many bytes were consumed. -/
def consume (available : List UInt8) (used : ℕ) (rest : Reads) : Reads :=
  if available.drop used = [] then rest else .ok (available.drop used) :: rest

/-- Take a line off a reader, given what was taken before. The buffer only grows, so that what it
holds at the end is the most it held. -/
def takeLine (line : List UInt8) : Reads → Taken (List UInt8)
  | [] => ⟨gone line, [], line.length⟩
  | .error error :: rest =>
    ⟨.error ⟨.network, s!"a peer message could not be read: {error}"⟩, rest, line.length⟩
  | .ok available :: rest =>
    if available = [] then ⟨gone line, .ok [] :: rest, line.length⟩
    else
      match available.findIdx? (· = 10) with
      | some i =>
        let line := line ++ available.take (i + 1)
        ⟨.ok (some line), consume available (i + 1) rest, line.length⟩
      | none =>
        let line := line ++ available
        if line.length > mostLineBytes then
          ⟨.error ⟨.protocol, s!"a peer sent more than {mostLineBytes} bytes without a newline"⟩,
            rest, line.length⟩
        else takeLine line rest

/-- Read one line of text, or nothing when the peer went away. -/
def readLine (reads : Reads) : Taken String :=
  let taken := takeLine [] reads
  { taken with
    outcome :=
      match taken.outcome with
      | .error failure => .error failure
      | .ok none => .ok none
      | .ok (some bytes) =>
        match Text.fromUtf8 bytes with
        | some line => .ok (some line)
        | none => .error ⟨.protocol, "a peer sent no text: invalid utf-8 sequence"⟩ }

/-- Bytes as a buffered reader may give them: in pieces that hold something and fit the buffer. -/
structure Split (chunks : List (List UInt8)) (stream : List UInt8) : Prop where
  nonempty : ∀ chunk ∈ chunks, chunk ≠ []
  buffered : ∀ chunk ∈ chunks, chunk.length ≤ bufferBytes
  whole : chunks.flatten = stream

/-- The bytes up to the first newline and with it, or all of them. -/
def firstLine (stream : List UInt8) : List UInt8 :=
  stream.take ((stream.takeWhile (· ≠ 10)).length + 1)

/-- The bytes of reads none of which went wrong. -/
def remaining (reads : Reads) : List UInt8 := reads.flatMap fun read => read.toOption.getD []

section

variable {line before after available stream : List UInt8} {chunks : List (List UInt8)}

@[simp] theorem firstLine_nil : firstLine [] = [] := rfl

theorem firstLine_newline (after : List UInt8) : firstLine (10 :: after) = [10] := by
  simp [firstLine]

theorem firstLine_cons {byte : UInt8} (h : byte ≠ 10) (rest : List UInt8) :
    firstLine (byte :: rest) = byte :: firstLine rest := by
  simp [firstLine, h]

theorem firstLine_append (h : 10 ∉ before) (rest : List UInt8) :
    firstLine (before ++ rest) = before ++ firstLine rest := by
  induction before with
  | nil => rfl
  | cons byte before ih =>
    have hbyte : byte ≠ 10 := fun heq => h (heq ▸ List.mem_cons_self)
    rw [List.cons_append, firstLine_cons hbyte, ih fun hmem => h (List.mem_cons_of_mem _ hmem),
      List.cons_append]

theorem findIdx_of_newline (h : 10 ∉ before) :
    (before ++ 10 :: after).findIdx? (· = 10) = some before.length := by
  rw [List.findIdx?_append, List.findIdx?_eq_none_iff.mpr]
  · simp [List.findIdx?_cons]
  · intro byte hbyte
    simp only [decide_eq_false_iff_not]
    rintro rfl
    exact h hbyte

theorem findIdx_of_none (h : 10 ∉ available) : available.findIdx? (· = 10) = none := by
  rw [List.findIdx?_eq_none_iff]
  intro byte hbyte
  simp only [decide_eq_false_iff_not]
  rintro rfl
  exact h hbyte

theorem remaining_consume (available : List UInt8) (used : ℕ) (rest : Reads) :
    remaining (consume available used rest) = available.drop used ++ remaining rest := by
  rw [consume]
  split
  · rename_i h
    rw [h, List.nil_append]
  · simp [remaining, Except.toOption]

theorem remaining_map (chunks : List (List UInt8)) :
    remaining (chunks.map .ok) = chunks.flatten := by
  induction chunks with
  | nil => rfl
  | cons chunk chunks ih => simpa [remaining, Except.toOption] using ih

/-! ### The line is taken -/

/-- A read with the end of the line in it ends the line. -/
theorem takeLine_newline (line after : List UInt8) (hbefore : 10 ∉ before) (rest : Reads) :
    takeLine line (.ok (before ++ 10 :: after) :: rest) =
      ⟨.ok (some (line ++ before ++ [10])), consume (before ++ 10 :: after) (before.length + 1) rest,
        line.length + before.length + 1⟩ := by
  have htake : (before ++ 10 :: after).take (before.length + 1) = before ++ [10] := by
    rw [List.take_append]
    simp
  rw [takeLine, if_neg (by simp), findIdx_of_newline hbefore]
  simp [htake, Nat.add_assoc]

/-- A read without the end of the line goes to what was taken, while it fits. -/
theorem takeLine_more (hne : available ≠ []) (hnone : 10 ∉ available)
    (hfits : line.length + available.length ≤ mostLineBytes) (rest : Reads) :
    takeLine line (.ok available :: rest) = takeLine (line ++ available) rest := by
  rw [takeLine, if_neg hne, findIdx_of_none hnone]
  simp [Nat.not_lt.mpr hfits]

/-- A line that fits is taken whole, however it was cut into reads, and what follows it is left. -/
theorem takeLine_of_fits (line : List UInt8) (hnonempty : ∀ chunk ∈ chunks, chunk ≠ [])
    (hbefore : 10 ∉ before) (hwhole : chunks.flatten = before ++ 10 :: after)
    (hfits : line.length + before.length ≤ mostLineBytes) :
    (takeLine line (chunks.map .ok)).outcome = .ok (some (line ++ before ++ [10])) ∧
      remaining (takeLine line (chunks.map .ok)).rest = after ∧
      (takeLine line (chunks.map .ok)).most = line.length + before.length + 1 := by
  induction chunks generalizing line before with
  | nil => simp at hwhole
  | cons chunk chunks ih =>
    rw [List.flatten_cons] at hwhole
    -- the newline is in this read, or the read is the beginning of what comes before it
    rcases List.append_eq_append_iff.mp hwhole with ⟨more, hmore, hrest⟩ | ⟨more, hmore, hrest⟩
    · have hchunk : 10 ∉ chunk := fun hmem => hbefore (hmore ▸ List.mem_append_left _ hmem)
      have hmoreNone : 10 ∉ more := fun hmem => hbefore (hmore ▸ List.mem_append_right _ hmem)
      rw [hmore, List.length_append] at hfits
      have htaken := ih (line ++ chunk)
        (fun other hother => hnonempty other (List.mem_cons_of_mem _ hother)) hmoreNone hrest
        (by rw [List.length_append]; omega)
      rw [List.map_cons, takeLine_more (hnonempty chunk List.mem_cons_self) hchunk (by omega), hmore]
      refine ⟨?_, htaken.2.1, ?_⟩
      · rw [htaken.1, ← List.append_assoc]
      · rw [htaken.2.2, List.length_append, List.length_append]
        omega
    · cases more with
      | nil =>
        -- the read ends right before the newline
        rw [List.append_nil] at hmore
        rw [List.nil_append] at hrest
        have htaken := ih (line ++ before)
          (fun other hother => hnonempty other (List.mem_cons_of_mem _ hother)) List.not_mem_nil
          hrest.symm (by rw [List.length_append]; simpa using hfits)
        rw [hmore, List.map_cons, takeLine_more (hmore ▸ hnonempty chunk List.mem_cons_self)
          hbefore hfits]
        simpa [Nat.add_assoc] using htaken
      | cons byte more =>
        obtain ⟨rfl, rfl⟩ := List.cons.inj hrest
        rw [hmore, List.map_cons, takeLine_newline line more hbefore]
        refine ⟨rfl, ?_, rfl⟩
        rw [remaining_consume, remaining_map]
        simp

/-! ### The buffer -/

/-- No more is buffered than the first line, whatever the reads. -/
theorem most_takeLine_le (line : List UInt8) (chunks : List (List UInt8)) :
    (takeLine line (chunks.map .ok)).most ≤ line.length + (firstLine chunks.flatten).length := by
  induction chunks generalizing line with
  | nil => simp [takeLine]
  | cons chunk chunks ih =>
    by_cases hmem : 10 ∈ chunk
    · obtain ⟨before, after, rfl, hbefore⟩ := List.eq_append_cons_of_mem hmem
      have hfirst : firstLine (before ++ 10 :: after ++ chunks.flatten) = before ++ [10] := by
        rw [List.append_assoc, firstLine_append hbefore, List.cons_append, firstLine_newline]
      rw [List.map_cons, takeLine_newline line after hbefore, List.flatten_cons, hfirst, List.length_append,
        List.length_singleton]
      exact Nat.le_of_eq (Nat.add_assoc _ _ _)
    · rw [List.flatten_cons, firstLine_append hmem, List.length_append, List.map_cons, takeLine]
      split
      · simp
      · rw [findIdx_of_none hmem]
        simp only
        split
        · simp
        · refine (ih _).trans ?_
          rw [List.length_append]
          omega

/-- Read byte by byte, a first line that does not fit is buffered past the limit. -/
theorem most_takeLine_bytewise (hline : line.length ≤ mostLineBytes)
    (hlong : mostLineBytes < line.length + (firstLine stream).length) :
    mostLineBytes < (takeLine line ((stream.map fun byte => [byte]).map .ok)).most := by
  induction stream generalizing line with
  | nil =>
    rw [firstLine_nil, List.length_nil] at hlong
    omega
  | cons byte stream ih =>
    by_cases hbyte : byte = 10
    · subst hbyte
      rw [firstLine_newline] at hlong
      have hnewline := takeLine_newline line [] List.not_mem_nil
        ((stream.map fun byte => [byte]).map .ok)
      rw [List.nil_append] at hnewline
      rw [List.map_cons, List.map_cons, hnewline]
      exact hlong
    · rw [firstLine_cons hbyte, List.length_cons] at hlong
      by_cases hfits : line.length + 1 ≤ mostLineBytes
      · rw [List.map_cons, List.map_cons, takeLine_more (by simp) (by simpa using Ne.symm hbyte)
          (by simpa using hfits)]
        refine ih (by simpa using hfits) ?_
        rw [List.length_append, List.length_singleton]
        omega
      · rw [List.map_cons, List.map_cons, takeLine, if_neg (by simp),
          findIdx_of_none (by simpa using Ne.symm hbyte)]
        simp only [List.length_append, List.length_singleton]
        rw [if_pos (by omega)]
        exact Nat.lt_of_not_le hfits

/-- Read byte by byte, a line that has more before its end than the limit is given up. -/
theorem outcome_takeLine_bytewise (line after : List UInt8) (hbefore : 10 ∉ before) (hline : line.length ≤ mostLineBytes)
    (hlong : mostLineBytes < line.length + before.length) :
    ∃ failure, (takeLine line (((before ++ after).map fun byte => [byte]).map .ok)).outcome =
      .error failure := by
  induction before generalizing line with
  | nil =>
    rw [List.length_nil] at hlong
    omega
  | cons byte before ih =>
    have hbyte : 10 ∉ [byte] := fun hmem =>
      hbefore (List.mem_singleton.mp hmem ▸ List.mem_cons_self)
    rw [List.length_cons] at hlong
    by_cases hfits : line.length + 1 ≤ mostLineBytes
    · rw [List.cons_append, List.map_cons, List.map_cons,
        takeLine_more (by simp) hbyte (by simpa using hfits)]
      refine ih _ (fun hmem => hbefore (List.mem_cons_of_mem _ hmem)) (by simpa using hfits) ?_
      rw [List.length_append, List.length_singleton]
      omega
    · rw [List.cons_append, List.map_cons, List.map_cons, takeLine, if_neg (by simp),
        findIdx_of_none hbyte]
      simp only [List.length_append, List.length_singleton]
      rw [if_pos (by omega)]
      exact ⟨_, rfl⟩

/-- Bytes read one by one. -/
theorem split_bytewise (stream : List UInt8) : Split (stream.map fun byte => [byte]) stream where
  nonempty chunk hchunk := by
    obtain ⟨byte, -, rfl⟩ := List.mem_map.mp hchunk
    simp
  buffered chunk hchunk := by
    obtain ⟨byte, -, rfl⟩ := List.mem_map.mp hchunk
    simp [bufferBytes]
  whole := by
    induction stream with
    | nil => rfl
    | cons byte stream ih => rw [List.map_cons, List.flatten_cons, ih, List.singleton_append]

/-- However a stream is read, the reader stays within its limit, exactly if the first line fits it. -/
theorem most_le_iff (stream : List UInt8) :
    (∀ chunks, Split chunks stream → (takeLine [] (chunks.map .ok)).most ≤ mostLineBytes) ↔
      (firstLine stream).length ≤ mostLineBytes := by
  constructor
  · intro h
    by_contra hlong
    refine Nat.not_lt.mpr (h _ (split_bytewise stream)) (most_takeLine_bytewise (Nat.zero_le _) ?_)
    simpa using hlong
  · intro hfits chunks hsplit
    refine (most_takeLine_le [] chunks).trans ?_
    rw [hsplit.whole, List.length_nil, Nat.zero_add]
    exact hfits

end

/-! ## Messages -/

/-- A message, and the text the library has for it: it is what the library reads the message back
from, it is not empty, and control characters are escaped in it. -/
structure Carries {T : Type*} (serde : Serde T) (message : T) (text : String) : Prop where
  written : serde.toString message = .ok text
  readBack : serde.fromStr text = .ok message
  nonempty : text ≠ ""
  escaped : ∀ c ∈ text.toList, ' ' ≤ c

/-- A message arrives: reading takes its line and leaves what follows, the line is the message, and
the reader stays within its limit. -/
def Arrives {T : Type*} (serde : Serde T) (message : T) (following : List UInt8) (reads : Reads) :
    Prop :=
  (∃ line, (readLine reads).outcome = .ok (some line) ∧ decode serde line = .ok message) ∧
    remaining (readLine reads).rest = following ∧ (readLine reads).most ≤ mostLineBytes

section

variable {T : Type*} {serde : Serde T} {message : T} {text : String}

theorem Carries.newline_notMem (h : Carries serde message text) : '\n' ∉ text.toList := by
  intro hmem
  exact absurd (h.escaped _ hmem) (by decide)

theorem Carries.encode (h : Carries serde message text) :
    encode serde message = .ok (text ++ "\n") := by
  rw [Peer.encode, h.written]
  exact if_neg h.newline_notMem

theorem Carries.trimLineEnds (h : Carries serde message text) :
    trimLineEnds (text ++ "\n") = text := by
  have hlist : (text ++ "\n").toList = text.toList ++ ['\n'] := by simp
  have hkept : text.toList.rdropWhile (fun c => c = '\n' ∨ c = '\r') = text.toList := by
    rw [List.rdropWhile_eq_self_iff]
    intro hne
    have hlast := h.escaped _ (List.getLast_mem hne)
    simp only [decide_eq_true_eq, not_or]
    constructor <;> rintro hend <;> rw [hend] at hlast <;> exact absurd hlast (by decide)
  rw [Peer.trimLineEnds, hlist, List.rdropWhile_concat_pos _ _ _ (by decide), hkept,
    String.ofList_toList]

/-- The line a message was written as is read back as the message. -/
theorem Carries.decode (h : Carries serde message text) :
    decode serde (text ++ "\n") = .ok message := by
  rw [Peer.decode, h.trimLineEnds, if_neg h.nonempty, h.readBack]

theorem bytes_line (text : String) : Text.bytes (text ++ "\n") = Text.bytes text ++ [10] := by
  rw [Text.bytes_append]
  rfl

theorem Carries.firstLine (h : Carries serde message text) (following : List UInt8) :
    firstLine (Text.bytes (text ++ "\n") ++ following) = Text.bytes (text ++ "\n") := by
  rw [bytes_line, List.append_assoc, firstLine_append (Text.newline_notMem_bytes h.newline_notMem),
    List.singleton_append, firstLine_newline]

/-- A message whose line fits arrives, however it is cut into reads and whatever follows it. -/
theorem Carries.arrives (h : Carries serde message text) {following : List UInt8}
    {chunks : List (List UInt8)} (hsplit : Split chunks (Text.bytes (text ++ "\n") ++ following))
    (hfits : (Text.bytes (text ++ "\n")).length ≤ mostLineBytes) :
    Arrives serde message following (chunks.map .ok) := by
  have hwhole := hsplit.whole
  rw [bytes_line, List.append_assoc, List.singleton_append] at hwhole
  rw [bytes_line, List.length_append, List.length_singleton] at hfits
  obtain ⟨houtcome, hrest, hmost⟩ := takeLine_of_fits [] hsplit.nonempty
    (Text.newline_notMem_bytes h.newline_notMem) hwhole (by rw [List.length_nil]; omega)
  have hbytes : Text.fromUtf8 ([] ++ Text.bytes text ++ [10]) = some (text ++ "\n") := by
    rw [List.nil_append, ← bytes_line, Text.fromUtf8_bytes]
  refine ⟨⟨text ++ "\n", ?_, h.decode⟩, hrest, ?_⟩
  · rw [readLine, houtcome]
    simp only
    rw [hbytes]
  · rw [readLine, hmost, List.length_nil]
    omega

end

/-- Every message is written as one line. It arrives, whatever way its bytes are cut into reads and
whatever follows them, exactly if the line fits the reader's limit; and a reader stays within its
limit on a stream, whatever way it is cut, exactly if the first line of the stream fits. -/
theorem received_iff {T : Type*} (serde : Serde T) (message : T) (text : String)
    (h : Carries serde message text) :
    (∃ line, encode serde message = .ok line ∧ ∀ following,
      (∀ chunks, Split chunks (Text.bytes line ++ following) →
        Arrives serde message following (chunks.map .ok)) ↔
      (Text.bytes line).length ≤ mostLineBytes) ∧
    ∀ stream, (∀ chunks, Split chunks stream →
      (readLine (chunks.map .ok)).most ≤ mostLineBytes) ↔
        (firstLine stream).length ≤ mostLineBytes := by
  refine ⟨⟨text ++ "\n", h.encode, fun following => ⟨fun hall => ?_, fun hfits chunks hsplit =>
    h.arrives hsplit hfits⟩⟩, fun stream => most_le_iff stream⟩
  have hmost := (most_le_iff _).mp fun chunks hsplit => (hall chunks hsplit).2.2
  rwa [h.firstLine] at hmost

/-- How the line of a call to append entries begins. -/
def appendHead : String :=
  "\x7b\"message\":\"call\",\"service\":\"raft.append_entries\",\"body\":\""

/-- How it ends. -/
def appendTail : String := "\"\x7d"

/-- The JSON of calls to append entries whose body is a text without anything to escape in it. -/
def appending : Serde (Ask String) where
  toString
    | .call ⟨"raft.append_entries", body⟩ => .ok (appendHead ++ body ++ appendTail)
    | _ => .error "not a call to append entries"
  fromStr line :=
    .ok (.call ⟨"raft.append_entries",
      String.ofList ((line.toList.drop appendHead.toList.length).dropLast.dropLast)⟩)

/-- A call to append entries with so many letters. -/
def appendCall (letters : ℕ) : Ask String :=
  .call ⟨"raft.append_entries", String.ofList (List.replicate letters 'a')⟩

/-- The text of that call. -/
def appendText (letters : ℕ) : String :=
  appendHead ++ String.ofList (List.replicate letters 'a') ++ appendTail

/-- A text that can be gone through character by character. -/
theorem escaped_of_all {chars : List Char} (h : chars.all (fun c => ' ' ≤ c) = true) :
    ∀ c ∈ chars, ' ' ≤ c := by
  intro c hc
  exact of_decide_eq_true (List.all_eq_true.mp h c hc)

theorem appending_carries (letters : ℕ) :
    Carries appending (appendCall letters) (appendText letters) := by
  have hlist : (appendText letters).toList =
      appendHead.toList ++ (List.replicate letters 'a' ++ ['"', '\x7d']) := by
    simp [appendText, appendTail]
  refine ⟨rfl, ?_, ?_, ?_⟩
  · have hbody : ((appendText letters).toList.drop appendHead.toList.length).dropLast.dropLast =
        List.replicate letters 'a' := by
      rw [hlist, List.drop_left]
      simp [List.dropLast_append_of_ne_nil]
    simp only [appending, hbody]
    rfl
  · intro hempty
    have hnil := hlist.symm.trans (congrArg String.toList hempty)
    simp at hnil
  · intro c hc
    rw [hlist, List.mem_append, List.mem_append] at hc
    rcases hc with hc | hc | hc
    · exact escaped_of_all (by decide) c hc
    · rw [List.eq_of_mem_replicate hc]
      decide
    · exact escaped_of_all (by decide) c hc

theorem length_appendLine (letters : ℕ) :
    (Text.bytes (appendText letters ++ "\n")).length = letters + 61 := by
  have hletters : Text.bytes (String.ofList (List.replicate letters 'a')) =
      List.replicate letters 97 := by
    rw [Text.bytes_eq_flatMap, String.toList_ofList]
    induction letters with
    | zero => rfl
    | succ letters ih =>
      rw [List.replicate_succ, List.flatMap_cons, ih, List.replicate_succ]
      rfl
  have hhead : (Text.bytes appendHead).length = 58 := rfl
  have htail : (Text.bytes appendTail).length = 2 := rfl
  rw [bytes_line, appendText, Text.bytes_append, Text.bytes_append, hletters]
  simp only [List.length_append, List.length_replicate, List.length_singleton, hhead, htail]
  omega

/-- A short call arrives when it is read byte by byte. -/
theorem received_short :
    Arrives appending (appendCall 1) []
      (((Text.bytes (appendText 1 ++ "\n") ++ []).map fun byte => [byte]).map .ok) := by
  obtain ⟨⟨line, hline, harrives⟩, -⟩ :=
    received_iff appending (appendCall 1) (appendText 1) (appending_carries 1)
  rw [(appending_carries 1).encode] at hline
  obtain rfl := Except.ok.inj hline
  refine (harrives []).mpr ?_ _ (split_bytewise _)
  rw [length_appendLine, mostLineBytes]
  omega

theorem refused_appendCall {letters : ℕ} (h : mostLineBytes ≤ letters) :
    ∃ failure, (readLine (((Text.bytes (appendText letters ++ "\n")).map
      fun byte => [byte]).map .ok)).outcome = .error failure := by
  have hlength := length_appendLine letters
  rw [bytes_line, List.length_append, List.length_singleton] at hlength
  obtain ⟨failure, hfailure⟩ := outcome_takeLine_bytewise [] [10]
    (Text.newline_notMem_bytes (appending_carries letters).newline_notMem) (Nat.zero_le _)
    (by rw [List.length_nil]; omega)
  refine ⟨failure, ?_⟩
  rw [readLine, bytes_line, hfailure]

/-- A call whose body has as many letters as a line may have bytes is written out, and when it is
read byte by byte the reader gives up on it. -/
theorem long_call_refused :
    encode appending (appendCall mostLineBytes) = .ok (appendText mostLineBytes ++ "\n") ∧
      Split ((Text.bytes (appendText mostLineBytes ++ "\n")).map fun byte => [byte])
        (Text.bytes (appendText mostLineBytes ++ "\n")) ∧
      ∃ failure, (readLine (((Text.bytes (appendText mostLineBytes ++ "\n")).map
        fun byte => [byte]).map .ok)).outcome = .error failure :=
  ⟨(appending_carries mostLineBytes).encode, split_bytewise _, refused_appendCall le_rfl⟩

end EkEk.Peer
