import EkEk.JsonWrite
import EkEk.Lib.Lines
import EkEk.Utf8

/-!
# One message a line

Reference: `crates/ek-ek-ipc/src/wire.rs`, and the readers of `crates/ek-ek-agent/src/socket.rs` and
`crates/ek-ek-dataplane/src/link.rs`.

The agent and the traffic path write each message as a line of its own and read line by line, up to the
first that is no message. `heard_cut` says what is heard of messages when the connection ends at any byte.
-/

namespace EkEk.Agent.Framing

open Json Lines

variable (ryu : UInt64 → List Char) (float : String → Option UInt64) (complaint : String → String)

/-- Write a message as one line, newline included. -/
def encode (message : Value) : Except String String :=
  let line := toText ryu message
  if '\n' ∈ line.toList then .error "a message would have split across lines" else .ok (line ++ "\n")

/-- Read one line back into a message. What the library says of a line it cannot read is a parameter. -/
def decode (line : String) : Except String Value :=
  let line := String.ofList (line.toList.rdropWhile fun c => c = '\n' ∨ c = '\r')
  if line = "" then .error "an empty line is not a message"
  else
    match fromStr float line with
    | some message => .ok message
    | none => .error s!"a message could not be read back: {complaint line}"

/-- What is heard of some lines, up to the first that is no message. -/
def heardOf : List (List UInt8) → List Value
  | [] => []
  | line :: rest =>
    match Text.fromUtf8 line with
    | none => []
    | some line =>
      match decode float complaint line with
      | .error _ => []
      | .ok message => message :: heardOf rest

/-- What is heard of what arrived. -/
def heard (bytes : List UInt8) : List Value := heardOf float complaint (lines 10 bytes)

/-- What is written of some messages. -/
def sent (messages : List Value) : List UInt8 :=
  messages.flatMap fun message =>
    match encode ryu message with
    | .ok line => Text.bytes line
    | .error _ => []

/-- A message: an array or an object of integers, texts, and so on, that is not nested too deep. -/
structure Message (message : Value) : Prop where
  whole : Whole message
  deep : deep message ≤ deepest
  nested : (∃ elements, message = .array elements) ∨ ∃ members, message = .object members

section

variable {ryu float complaint} {message : Value} {messages : List Value}

theorem space_le_toText (h : Message message) {c : Char} (hc : c ∈ (toText ryu message).toList) :
    32 ≤ c.toNat := by
  rw [toText, String.toList_ofList] at hc
  exact space_le_write escapes_escaped message (.inl h.whole) c hc

theorem newline_notMem (h : Message message) : '\n' ∉ (toText ryu message).toList := fun hc =>
  absurd (space_le_toText h hc) (by decide)

/-- A message never splits across lines. -/
theorem encode_eq (h : Message message) : encode ryu message = .ok (toText ryu message ++ "\n") := by
  rw [encode]
  exact if_neg (newline_notMem h)

theorem sent_cons (h : Message message) :
    sent ryu (message :: messages) = Text.bytes (toText ryu message) ++ 10 :: sent ryu messages := by
  rw [sent, List.flatMap_cons, encode_eq h]
  show Text.bytes (_ ++ _) ++ _ = _
  rw [Text.bytes_append, List.append_assoc]
  rfl

/-- Nothing is taken off a line without line ends. -/
theorem decode_of_space {line : String} (hspace : ∀ c ∈ line.toList, 32 ≤ c.toNat) (hne : line ≠ "") :
    decode float complaint line =
      match fromStr float line with
      | some message => .ok message
      | none => .error s!"a message could not be read back: {complaint line}" := by
  have htrim : line.toList.rdropWhile (fun c => c = '\n' ∨ c = '\r') = line.toList := by
    refine List.rdropWhile_eq_self_iff.mpr fun hlist hlast => ?_
    have hmem := hspace _ (List.getLast_mem hlist)
    rw [decide_eq_true_iff] at hlast
    rcases hlast with hlast | hlast <;> rw [hlast] at hmem <;> exact absurd hmem (by decide)
  rw [decode, htrim, String.ofList_toList, if_neg hne]

theorem toText_ne (h : Message message) : toText ryu message ≠ "" := by
  obtain ⟨c, rest, hcons, -⟩ := write_cons escaped ryu h.whole
  rw [toText, hcons]
  intro heq
  have := congrArg String.toList heq
  rw [String.toList_ofList] at this
  cases this

/-- A line is read as the message it was written for. -/
theorem decode_toText (h : Message message) :
    decode float complaint (toText ryu message) = .ok (normal message) := by
  rw [decode_of_space (fun c hc => space_le_toText h hc) (toText_ne h), fromStr_toText h.whole h.deep]

/-- A line that was cut off is not. -/
theorem decode_cut (h : Message message) {cut : String} (hcut : cut.toList <+: (toText ryu message).toList)
    (hne : cut ≠ toText ryu message) : ∃ error, decode float complaint cut = .error error := by
  by_cases hempty : cut = ""
  · rw [hempty]
    exact ⟨_, rfl⟩
  · obtain ⟨more, hmore⟩ := hcut
    have hspace : ∀ c ∈ cut.toList, 32 ≤ c.toNat := fun c hc =>
      space_le_toText h (hmore ▸ List.mem_append_left more hc)
    rw [decode_of_space hspace hempty]
    have hunread : fromStr float (String.ofList cut.toList) = none := by
      refine fromStr_truncated escapes_escaped h.whole h.deep h.nested
        (hmore.trans (by rw [toText, String.toList_ofList])) ?_
      rintro rfl
      rw [List.append_nil] at hmore
      exact hne (String.toList_injective hmore)
    rw [String.ofList_toList] at hunread
    rw [hunread]
    exact ⟨_, rfl⟩

/-! ## Lines -/

theorem newline_notMem_line (h : Message message) : 10 ∉ Text.bytes (toText ryu message) :=
  Text.newline_notMem_bytes (newline_notMem h)

/-- What is heard of a line that nothing follows. -/
theorem heard_last (h : Message message) {cut : List UInt8} (hcut : cut <+: Text.bytes (toText ryu message)) :
    heard float complaint cut = [] ∨ heard float complaint cut = [normal message] := by
  by_cases hempty : cut = []
  · rw [hempty]
    exact .inl rfl
  · rw [heard, lines_eq_singleton (fun hmem => newline_notMem_line h (hcut.subset hmem)) hempty, heardOf]
    split
    · exact .inl rfl
    · rename_i line hline
      obtain rfl := Text.fromUtf8_eq_some.mp hline
      by_cases hwhole : line = toText ryu message
      · rw [hwhole, decode_toText h]
        exact .inr rfl
      · obtain ⟨more, hmore⟩ := hcut
        rw [Text.bytes_eq_flatMap, Text.bytes_eq_flatMap] at hmore
        obtain ⟨error, herror⟩ : ∃ error, decode float complaint line = .error error :=
          decode_cut h (Text.prefix_of_flatMap hmore) hwhole
        rw [herror]
        exact .inl rfl

theorem sent_take_succ (h : Message message) (whole : ℕ) :
    sent ryu ((message :: messages).take (whole + 1)) =
      (Text.bytes (toText ryu message) ++ [10]) ++ sent ryu (messages.take whole) := by
  rw [List.take_succ_cons, sent_cons h, List.append_assoc, List.singleton_append]

/-- A line that has arrived is heard, and then what is behind it. -/
theorem heard_line (h : Message message) (behind : List UInt8) :
    heard float complaint (Text.bytes (toText ryu message) ++ [10] ++ behind) =
      normal message :: heard float complaint behind := by
  rw [heard, List.append_assoc, List.singleton_append, lines_append (newline_notMem_line h), heardOf,
    Text.fromUtf8_bytes]
  dsimp only
  rw [decode_toText h]
  rfl

/-- While the line of a message has not arrived, neither it nor a later one has. -/
theorem whole_eq_zero (h : Message message) {cut : List UInt8}
    (hshort : cut.length ≤ (Text.bytes (toText ryu message)).length) {whole : ℕ}
    (hsent : sent ryu ((message :: messages).take whole) <+: cut) : whole = 0 := by
  cases whole with
  | zero => rfl
  | succ whole =>
    have hlength := hsent.length_le
    rw [sent_take_succ h, List.length_append, List.length_append, List.length_singleton] at hlength
    omega

/-- Wherever the connection ends, what is heard is what was said up to there, message by message: each one as
it was written, and each one that arrived whole. -/
theorem heard_cut (h : ∀ message ∈ messages, Message message) {cut : List UInt8}
    (hcut : cut <+: sent ryu messages) :
    ∃ count ≤ messages.length, heard float complaint cut = (messages.take count).map normal ∧
      ∀ whole ≤ messages.length, sent ryu (messages.take whole) <+: cut → whole ≤ count := by
  induction messages generalizing cut with
  | nil =>
    rw [List.prefix_nil.mp hcut]
    exact ⟨0, le_rfl, rfl, fun whole hwhole _ => hwhole⟩
  | cons message messages ih =>
    obtain ⟨hmessage, hmessages⟩ := List.forall_mem_cons.mp h
    rw [sent_cons hmessage] at hcut
    rcases Nat.lt_or_ge (Text.bytes (toText ryu message)).length cut.length with hlong | hshort
    · -- The line of the message has arrived.
      have hline : Text.bytes (toText ryu message) ++ [10] <+: cut := by
        refine List.prefix_of_prefix_length_le ⟨sent ryu messages, ?_⟩ hcut ?_
        · rw [List.append_assoc, List.singleton_append]
        · rw [List.length_append, List.length_singleton]
          exact hlong
      obtain ⟨behind, rfl⟩ := hline
      rw [List.append_cons _ 10 (sent ryu messages), List.prefix_append_right_inj] at hcut
      obtain ⟨count, hcount, hheard, hwhole⟩ := ih hmessages hcut
      refine ⟨count + 1, Nat.succ_le_succ hcount, ?_, fun whole hle hsent => ?_⟩
      · rw [heard_line hmessage, hheard, List.take_succ_cons, List.map_cons]
      · cases whole with
        | zero => exact Nat.zero_le _
        | succ whole =>
          rw [sent_take_succ hmessage, List.prefix_append_right_inj] at hsent
          exact Nat.succ_le_succ (hwhole whole (Nat.le_of_succ_le_succ hle) hsent)
    · -- It has not, and no later one has.
      have hpart : cut <+: Text.bytes (toText ryu message) :=
        List.prefix_of_prefix_length_le hcut (List.prefix_append _ _) hshort
      rcases heard_last hmessage hpart with hnothing | hone
      · exact ⟨0, Nat.zero_le _, hnothing, fun whole _ hsent =>
          (whole_eq_zero hmessage hshort hsent).le⟩
      · exact ⟨1, Nat.succ_le_succ (Nat.zero_le _), hone, fun whole _ hsent =>
          (whole_eq_zero hmessage hshort hsent).le.trans (Nat.zero_le 1)⟩

/-- The question the agent asks. -/
def question : Value := .object [("message", .string "ping"), ("nonce", .number (.posInt 7))]

theorem heard_question : heard (fun _ => none) id (sent (fun _ => []) [question]) = [question] := by
  have hmessage : Message question := ⟨by simp [question, Whole, WholeMembers], by decide, .inr ⟨_, rfl⟩⟩
  obtain ⟨count, hcount, hheard, hall⟩ :=
    @heard_cut (fun _ => []) (fun _ => none) id [question] (by simpa using hmessage) _ List.prefix_rfl
  obtain rfl : count = 1 := le_antisymm hcount (hall 1 le_rfl List.prefix_rfl)
  exact hheard.trans (by decide)

end

end EkEk.Agent.Framing
