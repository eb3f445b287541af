import EkEk.Dataplane.ClientHello

/-!
# Waiting for a ClientHello

Reference: `opening` of `crates/ek-ek-dataplane/src/stream.rs`, and `Refusal` of `live.rs`.

A passthrough connection is read until the bytes in hand say where it goes. They are looked at again,
all of them, after every read, and the wait ends with the first answer that is not that more is needed.
How the bytes of a connection are cut into reads is up to the network.

`read_settled_iff` says which answers a longer input can still change: that of a ClientHello whose
fields are followed by less than the length of its extensions. Where no buffer is of that kind and none
has grown past the limit, what a connection is told is a function of its first bytes alone
(`opening_eq`).
-/

namespace EkEk.Dataplane

open Cursor ClientHello

/-! ## What later bytes can change -/

namespace ClientHello

theorem byte_grows {input later rest : List UInt8} {x : UInt8} (h : byte input = some (x, rest)) :
    byte (input ++ later) = some (x, rest ++ later) := by
  obtain rfl := byte_eq_some.mp h
  rfl

theorem short_grows {input later rest : List UInt8} {n : ℕ} (h : short input = some (n, rest)) :
    short (input ++ later) = some (n, rest ++ later) := by
  obtain ⟨hlt, rfl⟩ := short_eq_some.mp h
  exact short_eq_some.mpr ⟨hlt, List.append_assoc _ _ _⟩

theorem skip_grows {count : ℕ} {input later rest : List UInt8} {u : Unit}
    (h : skip count input = some (u, rest)) :
    skip count (input ++ later) = some (u, rest ++ later) := by
  obtain ⟨taken, hlength, rfl⟩ := skip_eq_some.mp h
  exact skip_eq_some.mpr ⟨taken, hlength, List.append_assoc _ _ _⟩

theorem skipByteVector_grows {input later rest : List UInt8} {u : Unit}
    (h : skipByteVector input = some (u, rest)) :
    skipByteVector (input ++ later) = some (u, rest ++ later) := by
  obtain ⟨bytes, hfits, rfl⟩ := skipByteVector_eq_some.mp h
  exact skipByteVector_eq_some.mpr ⟨bytes, hfits, List.append_assoc _ _ _⟩

theorem skipShortVector_grows {input later rest : List UInt8} {u : Unit}
    (h : skipShortVector input = some (u, rest)) :
    skipShortVector (input ++ later) = some (u, rest ++ later) := by
  obtain ⟨bytes, hfits, rfl⟩ := skipShortVector_eq_some.mp h
  exact skipShortVector_eq_some.mpr ⟨bytes, hfits, List.append_assoc _ _ _⟩

theorem wholeBody_grows (recordLength : ℕ) : Grows .more (wholeBody recordLength) := by
  constructor
  · intro input later rest u h
    rw [wholeBody] at h ⊢
    split at h
    · cases h
    · rename_i hleft
      obtain ⟨-, rfl⟩ := Prod.mk.inj (Except.ok.inj h)
      rw [if_neg (by rw [List.length_append]; omega)]
  · intro input later outcome h hne
    rw [wholeBody] at h
    split at h
    · exact absurd (Except.error.inj h).symm hne
    · cases h

/-- Before the extensions only waiting can turn into something else. -/
theorem beforeExtensions_grows : Grows .more beforeExtensions := by
  have hheader : Grows .more recordHeader :=
    (Grows.orReturn byte_grows).bind fun _ => (Grows.returnIf _ _).bind fun _ =>
      (Grows.orReturn skip_grows).bind fun _ => (Grows.orReturn short_grows).bind fun _ =>
        (Grows.returnIf _ _).bind fun _ => Grows.pure _
  have hfields : Grows .more helloFields :=
    (Grows.orReturn byte_grows).bind fun _ => (Grows.returnIf _ _).bind fun _ =>
      (Grows.orReturn skip_grows).bind fun _ => (Grows.orReturn skip_grows).bind fun _ =>
        (Grows.orReturn skipByteVector_grows).bind fun _ =>
          (Grows.orReturn skipShortVector_grows).bind fun _ =>
            Grows.orReturn skipByteVector_grows
  exact hheader.bind fun recordLength => (wholeBody_grows recordLength).bind fun _ => hfields

/-- Once their length is there, the extensions can only be waited for. -/
theorem afterFields_append {input : List UInt8} (hlength : 2 ≤ input.length)
    (hdecided : afterFields input ≠ .more) (later : List UInt8) :
    afterFields (input ++ later) = afterFields input := by
  cases hshort : short input with
  | none =>
    match input, hlength, hshort with
    | _ :: _ :: _, _, hnone => nomatch hnone
  | some taken =>
    obtain ⟨count, left⟩ := taken
    cases hslice : slice count left with
    | none => exact absurd (by simp only [afterFields, hshort, hslice]) hdecided
    | some sliced =>
      obtain ⟨extensions, tail⟩ := sliced
      obtain ⟨hcount, rfl⟩ := slice_eq_some.mp hslice
      have hgrown : slice count (extensions ++ tail ++ later) = some (extensions, tail ++ later) :=
        slice_eq_some.mpr ⟨hcount, List.append_assoc _ _ _⟩
      simp only [afterFields, hshort, hslice, short_grows hshort, hgrown]

/-- A complete first record, and the fields of a ClientHello with less than the length of its
extensions behind them. -/
def CutShort (bytes : List UInt8) : Prop :=
  ∃ body after, FirstRecord bytes body after ∧
    ∃ fields left, Fields fields ∧ body ++ after = fields ++ left ∧ left.length < 2

theorem read_of_fields {bytes body after fields left : List UInt8}
    (hrecord : FirstRecord bytes body after) (hfields : Fields fields)
    (heq : body ++ after = fields ++ left) : read bytes = afterFields left := by
  have hread := (beforeExtensions_eq_ok (u := ())).mpr ⟨body, after, hrecord, fields, hfields, heq⟩
  rw [read, hread]

theorem afterFields_of_lt {left : List UInt8} (h : left.length < 2) :
    afterFields left = .nameless := by
  match left, h with
  | [], _ => rfl
  | [_], _ => rfl

/-- A length that is never there. -/
theorem afterFields_high {left : List UInt8} (h : left.length < 2) :
    afterFields (left ++ [255, 255]) = .more := by
  match left, h with
  | [], _ => decide
  | [high], _ =>
    have hlong : [(255 : UInt8)].length < high.toNat * 256 + (255 : UInt8).toNat := by
      have : (255 : UInt8).toNat = 255 := rfl
      simp only [List.length_singleton]
      omega
    simp only [afterFields, List.cons_append, List.nil_append, short, slice, if_pos hlong]

/-- An answer is the same for every longer input unless it is that of a ClientHello that was cut short
at its extensions. -/
theorem read_settled_iff (bytes : List UInt8) :
    (∀ later, read bytes ≠ .more → read (bytes ++ later) = read bytes) ↔ ¬ CutShort bytes := by
  constructor
  · rintro h ⟨body, after, hrecord, fields, left, hfields, heq, hlt⟩
    have hread : read bytes = .nameless :=
      (read_of_fields hrecord hfields heq).trans (afterFields_of_lt hlt)
    have hgrown : beforeExtensions (bytes ++ [255, 255]) = .ok ((), left ++ [255, 255]) :=
      beforeExtensions_grows.ok
        (beforeExtensions_eq_ok.mpr ⟨body, after, hrecord, fields, hfields, heq⟩)
    -- two more bytes are taken for a length, and that many never arrive
    have hmore : read (bytes ++ [255, 255]) = .more := by
      rw [read, hgrown]
      exact afterFields_high hlt
    have hdecided : read bytes ≠ .more := by
      rw [hread]
      rintro ⟨⟩
    have hsame := h [255, 255] hdecided
    rw [hmore, hread] at hsame
    cases hsame
  · intro hwhole later hdecided
    cases hbefore : beforeExtensions bytes with
    | error outcome =>
      have hread : read bytes = outcome := by rw [read, hbefore]
      rw [hread] at hdecided ⊢
      rw [read, beforeExtensions_grows.error hbefore hdecided]
    | ok taken =>
      obtain ⟨u, rest⟩ := taken
      have hread : read bytes = afterFields rest := by rw [read, hbefore]
      -- otherwise the input would be cut short, since the fields were walked past
      have hlength : 2 ≤ rest.length := by
        by_contra hshort
        obtain ⟨body, after, hrecord, fields, hfields, heq⟩ := beforeExtensions_eq_ok.mp hbefore
        exact hwhole ⟨body, after, hrecord, fields, rest, hfields, heq, by omega⟩
      rw [hread] at hdecided ⊢
      rw [read, beforeExtensions_grows.ok hbefore]
      exact afterFields_append hlength hdecided later

end ClientHello

/-! ## The wait -/

/-- Why a connection is refused. -/
inductive Refusal where
  | noPool
  | helloNeverArrived
  | notAHandshake
deriving DecidableEq, Repr

/-- What a connection said before anything was forwarded. -/
structure Opening where
  askedFor : Option String
  read : List UInt8
deriving DecidableEq, Repr

/-- How much is taken off a connection at once. -/
def mostChunkBytes : ℕ := 4096

/-- What one read takes off a connection. -/
structure Chunk where
  bytes : List UInt8
  nonempty : bytes ≠ []
  fits : bytes.length ≤ mostChunkBytes

/-- Read until the ClientHello is complete, or give up. The reads that take something off the
connection are given; after them the client goes away, a read fails or the time runs out. -/
def opening (held : List UInt8) (reads : List Chunk) : Except Refusal Opening :=
  match ClientHello.read held with
  | .named name => .ok ⟨some name, held⟩
  | .nameless => .ok ⟨none, held⟩
  | .notAHandshake => .error .notAHandshake
  | .more =>
    if held.length ≥ mostHelloBytes then .error .helloNeverArrived
    else
      match reads with
      | chunk :: later => opening (held ++ chunk.bytes) later
      | [] => .error .helloNeverArrived

/-- Where a connection is to be routed: by the name it asked for, or not at all. -/
def decision (reads : List Chunk) : Except Refusal (Option String) :=
  (opening [] reads).map Opening.askedFor

/-- The bytes of a connection. -/
def stream (reads : List Chunk) : List UInt8 := reads.flatMap Chunk.bytes

/-- The buffers that are looked at. -/
def looked (held : List UInt8) : List Chunk → List (List UInt8)
  | [] => [held]
  | chunk :: later =>
    held :: if ClientHello.read held = .more ∧ held.length < mostHelloBytes
      then looked (held ++ chunk.bytes) later else []

/-- A buffer that does not end where extensions would begin and has not grown past the limit. -/
structure Settled (buffer : List UInt8) : Prop where
  whole : ¬ CutShort buffer
  bounded : buffer.length ≤ mostHelloBytes

/-- The decision an answer leads to. -/
def decided : ClientHello.Outcome → Except Refusal (Option String)
  | .named name => .ok (some name)
  | .nameless => .ok none
  | .notAHandshake => .error .notAHandshake
  | .more => .error .helloNeverArrived

theorem opening_of_decided {held : List UInt8} (h : ClientHello.read held ≠ .more)
    (reads : List Chunk) :
    (opening held reads).map Opening.askedFor = decided (ClientHello.read held) := by
  rw [opening.eq_def]
  cases hread : ClientHello.read held with
  | named name => rfl
  | nameless => rfl
  | notAHandshake => rfl
  | more => exact absurd hread h

/-- The decision on a connection is that on its first bytes, as many as the limit allows, if every
buffer that is looked at is settled. -/
theorem opening_eq {held : List UInt8} {reads : List Chunk}
    (h : ∀ buffer ∈ looked held reads, Settled buffer) :
    (opening held reads).map Opening.askedFor =
      decided (ClientHello.read ((held ++ stream reads).take mostHelloBytes)) := by
  induction reads generalizing held with
  | nil =>
    have hsettled := h held (List.mem_singleton.mpr rfl)
    rw [stream, List.flatMap_nil, List.append_nil, List.take_of_length_le hsettled.bounded]
    by_cases hread : ClientHello.read held = .more
    · rw [opening.eq_def, hread]
      by_cases hlimit : held.length ≥ mostHelloBytes
      · simp only [if_pos hlimit]
        rfl
      · simp only [if_neg hlimit]
        rfl
    · exact opening_of_decided hread []
  | cons chunk later ih =>
    have hsettled := h held List.mem_cons_self
    have htake : (held ++ stream (chunk :: later)).take mostHelloBytes =
        held ++ (stream (chunk :: later)).take (mostHelloBytes - held.length) := by
      rw [List.take_append, List.take_of_length_le hsettled.bounded]
    by_cases hread : ClientHello.read held = .more
    · by_cases hlimit : held.length < mostHelloBytes
      · -- the next read is looked at together with what is held
        have hnext : ∀ buffer ∈ looked (held ++ chunk.bytes) later, Settled buffer := by
          intro buffer hbuffer
          refine h buffer (List.mem_cons_of_mem _ ?_)
          rwa [if_pos ⟨hread, hlimit⟩]
        rw [opening.eq_def, hread]
        simp only [if_neg (Nat.not_le.mpr hlimit)]
        rw [ih hnext, List.append_assoc]
        rfl
      · have hfull : mostHelloBytes - held.length = 0 := by omega
        rw [htake, hfull, List.take_zero, List.append_nil, opening.eq_def, hread]
        simp only [if_pos (Nat.not_lt.mp hlimit)]
        rfl
    · rw [opening_of_decided hread, htake,
        (read_settled_iff held).mpr hsettled.whole _ hread]

/-- An answer is the same for every longer input exactly where the input was not cut short at its
extensions, and two ways of cutting one connection into reads lead to the same decision if every buffer
they look at is settled. -/
theorem decision_independent_of_reads (bytes : List UInt8) (reads reads' : List Chunk)
    (hstream : stream reads = stream reads') :
    ((∀ later, ClientHello.read bytes ≠ .more →
        ClientHello.read (bytes ++ later) = ClientHello.read bytes) ↔ ¬ CutShort bytes) ∧
      ((∀ buffer ∈ looked [] reads ++ looked [] reads', Settled buffer) →
        decision reads = decision reads') := by
  refine ⟨read_settled_iff bytes, fun hsettled => ?_⟩
  have hfirst := opening_eq fun buffer hbuffer => hsettled buffer (List.mem_append_left _ hbuffer)
  have hsecond := opening_eq fun buffer hbuffer => hsettled buffer (List.mem_append_right _ hbuffer)
  rw [decision, decision, hfirst, hsecond, hstream]

/-! ### Cutting a ClientHello in two -/

/-- A record with a ClientHello for `a`, with the header in a read of its own. -/
def headerFirst : List Chunk :=
  [⟨(recordOf (bareFields ++ shortVector (asking "a")) []).take 5, by decide, by decide⟩,
    ⟨(recordOf (bareFields ++ shortVector (asking "a")) []).drop 5, by decide, by decide⟩]

/-- The same record in one read. -/
def atOnce : List Chunk :=
  [⟨recordOf (bareFields ++ shortVector (asking "a")) [], by decide, by decide⟩]

/-- A ClientHello with extensions is not cut short at them. -/
theorem not_cutShort_of_hello {name : String} {hello : List UInt8} (hname : Hello name hello)
    (hne : hello ≠ []) (hfits : hello.length < 65536) : ¬ CutShort (recordOf hello []) := by
  rintro ⟨body, after, hrecord, fields, left, hfields, heq, hlt⟩
  obtain ⟨rfl, rfl⟩ := (firstRecord_recordOf hne hfits []).unique hrecord
  obtain ⟨hfields', -, -⟩ := hname
  rename_i fields' extensions
  rw [List.append_nil] at heq
  obtain ⟨-, -, rfl⟩ := helloFields_reads.unique (x := ()) (y := ()) hfields' hfields heq
  simp only [shortVector, u16, List.length_append, List.length_cons, List.length_nil] at hlt
  omega

/-- A header alone is no record. -/
theorem not_cutShort_of_length {bytes : List UInt8} (h : bytes.length ≤ 5) : ¬ CutShort bytes := by
  rintro ⟨body, after, ⟨hne, -, version, hversion, rfl⟩, -⟩
  have hpositive := List.length_pos_of_ne_nil hne
  simp only [shortVector, u16, List.length_cons, List.length_append, List.length_nil] at h
  omega

/-- Cut after its header or not at all, the record leads to the same decision. -/
theorem headerFirst_decides_as_atOnce : decision headerFirst = decision atOnce := by
  refine (decision_independent_of_reads [] headerFirst atOnce (by decide)).2 fun buffer hbuffer => ?_
  have hlooked : looked [] headerFirst ++ looked [] atOnce =
      [[], (recordOf (bareFields ++ shortVector (asking "a")) []).take 5,
        recordOf (bareFields ++ shortVector (asking "a")) [], [],
        recordOf (bareFields ++ shortVector (asking "a")) []] := by decide
  have hwhole : ¬ CutShort (recordOf (bareFields ++ shortVector (asking "a")) []) :=
    not_cutShort_of_hello (hello_asking (by decide) (by decide)) (by decide) (by decide)
  rw [hlooked] at hbuffer
  simp only [List.mem_cons, List.not_mem_nil, or_false] at hbuffer
  rcases hbuffer with rfl | rfl | rfl | rfl | rfl
  · exact ⟨not_cutShort_of_length (by decide), by decide⟩
  · exact ⟨not_cutShort_of_length (by decide), by decide⟩
  · exact ⟨hwhole, by decide⟩
  · exact ⟨not_cutShort_of_length (by decide), by decide⟩
  · exact ⟨hwhole, by decide⟩

/-! ### Cutting a ClientHello short -/

/-- A ClientHello without extensions, and the start of the next record in a read of its own. -/
def recordFirst : List Chunk :=
  [⟨recordOf bareFields [], by decide, by decide⟩, ⟨[handshakeRecord, 3], by decide, by decide⟩]

/-- The same bytes in one read. -/
def withNextRecord : List Chunk :=
  [⟨recordOf bareFields [] ++ [handshakeRecord, 3], by decide, by decide⟩]

/-- What the first record is answered with is taken back when the next record begins, and where the
connection goes depends on whether both come in one read. -/
theorem cut_short_decides_by_reads :
    ClientHello.read (recordOf bareFields []) = .nameless ∧
      ClientHello.read (recordOf bareFields [] ++ [handshakeRecord, 3]) = .more ∧
      stream recordFirst = stream withNextRecord ∧ decision recordFirst = .ok none ∧
      decision withNextRecord = .error .helloNeverArrived := by
  refine ⟨by decide, by decide, by decide, by decide, by decide⟩

/-! ## How long the buffer gets -/

/-- A buffer that the wait goes on with. -/
def Waits (buffer : List UInt8) : Prop :=
  ClientHello.read buffer = .more ∧ buffer.length < mostHelloBytes

/-- A read that is taken while the answer is that more is needed takes no more than is left to the
limit. -/
def ReadsFit (reads : List Chunk) : Prop :=
  ∀ before chunk after, reads = before ++ chunk :: after →
    (∀ first, first <+: before → ClientHello.read (stream first) = .more) →
    (stream before).length < mostHelloBytes →
    chunk.bytes.length ≤ mostHelloBytes - (stream before).length

theorem stream_append (first later : List Chunk) :
    stream (first ++ later) = stream first ++ stream later :=
  List.flatMap_append

theorem stream_cons (chunk : Chunk) (later : List Chunk) :
    stream (chunk :: later) = chunk.bytes ++ stream later :=
  List.flatMap_cons

/-- The buffers that are looked at are what the first reads gave, as long as the wait went on. -/
theorem mem_looked_iff {held buffer : List UInt8} {reads : List Chunk} : buffer ∈ looked held reads ↔
    ∃ before, before <+: reads ∧ buffer = held ++ stream before ∧
      ∀ first, first <+: before → first ≠ before → Waits (held ++ stream first) := by
  induction reads generalizing held with
  | nil =>
    rw [looked, List.mem_singleton]
    constructor
    · rintro rfl
      refine ⟨[], List.prefix_rfl, (List.append_nil _).symm, fun first hfirst hne => ?_⟩
      exact absurd (List.prefix_nil.mp hfirst) hne
    · rintro ⟨before, hbefore, rfl, -⟩
      rw [List.prefix_nil.mp hbefore]
      exact List.append_nil _
  | cons chunk reads ih =>
    rw [looked, List.mem_cons]
    constructor
    · rintro (rfl | hlater)
      · refine ⟨[], List.nil_prefix, (List.append_nil _).symm, fun first hfirst hne => ?_⟩
        exact absurd (List.prefix_nil.mp hfirst) hne
      · split at hlater
        · rename_i hwaits
          obtain ⟨before, hbefore, rfl, hall⟩ := ih.mp hlater
          refine ⟨chunk :: before, List.cons_prefix_cons.mpr ⟨rfl, hbefore⟩, ?_,
            fun first hfirst hne => ?_⟩
          · rw [stream_cons, List.append_assoc]
          · rcases List.prefix_cons_iff.mp hfirst with rfl | ⟨front, rfl, hfront⟩
            · exact (List.append_nil held).symm ▸ hwaits
            · rw [stream_cons, ← List.append_assoc]
              exact hall front hfront fun heq => hne (heq ▸ rfl)
        · exact absurd hlater List.not_mem_nil
    · rintro ⟨before, hbefore, rfl, hall⟩
      rcases List.prefix_cons_iff.mp hbefore with rfl | ⟨before, rfl, hrest⟩
      · exact .inl (List.append_nil held)
      · have hwaits : Waits (held ++ []) := hall [] List.nil_prefix (List.cons_ne_nil _ _).symm
        rw [List.append_nil] at hwaits
        rw [if_pos (show ClientHello.read held = .more ∧ held.length < mostHelloBytes from hwaits)]
        refine .inr (ih.mpr ⟨before, hrest, ?_, fun front hfront hne => ?_⟩)
        · rw [stream_cons, List.append_assoc]
        · have hnext := hall (chunk :: front) (List.cons_prefix_cons.mpr ⟨rfl, hfront⟩) fun heq =>
            hne (List.cons.inj heq).2
          rwa [stream_cons, ← List.append_assoc] at hnext

/-- What is forwarded is the last buffer that was looked at. -/
theorem read_mem_looked {held : List UInt8} {reads : List Chunk} {result : Opening}
    (h : opening held reads = .ok result) : result.read ∈ looked held reads := by
  induction reads generalizing held with
  | nil =>
    rw [opening.eq_def] at h
    rw [looked, List.mem_singleton]
    split at h
    · obtain rfl := Except.ok.inj h
      rfl
    · obtain rfl := Except.ok.inj h
      rfl
    · cases h
    · split at h <;> cases h
  | cons chunk reads ih =>
    rw [opening.eq_def] at h
    rw [looked]
    split at h
    · obtain rfl := Except.ok.inj h
      exact List.mem_cons_self
    · obtain rfl := Except.ok.inj h
      exact List.mem_cons_self
    · cases h
    · rename_i hmore
      split at h
      · cases h
      · rename_i hlimit
        rw [if_pos ⟨hmore, not_le.mp hlimit⟩]
        exact List.mem_cons_of_mem _ (ih h)

theorem length_stream_concat (front : List Chunk) (chunk : Chunk) :
    (stream (front ++ [chunk])).length = (stream front).length + chunk.bytes.length := by
  rw [stream_append, List.length_append, stream_cons]
  show _ + (chunk.bytes ++ []).length = _
  rw [List.append_nil]

theorem length_stream_le {first before : List Chunk} (h : first <+: before) :
    (stream first).length ≤ (stream before).length := by
  obtain ⟨rest, rfl⟩ := h
  rw [stream_append, List.length_append]
  exact Nat.le_add_right _ _

/-- Every read but the last was followed by another one. -/
theorem prefix_ne_concat_iff {first front : List Chunk} {chunk : Chunk} :
    first <+: front ++ [chunk] ∧ first ≠ front ++ [chunk] ↔ first <+: front := by
  rw [List.prefix_concat_iff]
  constructor
  · rintro ⟨heq | hfirst, hne⟩
    · exact absurd heq hne
    · exact hfirst
  · intro hfirst
    refine ⟨.inr hfirst, fun heq => ?_⟩
    have hlength := hfirst.length_le
    rw [heq, List.length_append, List.length_singleton] at hlength
    omega

/-- A buffer has the bytes of one read more than one the wait went on with. -/
theorem length_lt_of_mem_looked {buffer : List UInt8} {reads : List Chunk}
    (h : buffer ∈ looked [] reads) : buffer.length < mostHelloBytes + mostChunkBytes := by
  obtain ⟨before, -, rfl, hall⟩ := mem_looked_iff.mp h
  rw [List.nil_append]
  rcases List.eq_nil_or_concat' before with rfl | ⟨front, chunk, rfl⟩
  · decide
  · obtain ⟨hearly, hne⟩ := prefix_ne_concat_iff.mpr (List.prefix_refl front)
    have hwaits : (stream front).length < mostHelloBytes := (hall front hearly hne).2
    have hfits := chunk.fits
    rw [length_stream_concat]
    omega

/-- No buffer is longer than the limit exactly if every read that is waited for fits in. -/
theorem looked_bounded_iff (reads : List Chunk) :
    (∀ buffer ∈ looked [] reads, buffer.length ≤ mostHelloBytes) ↔ ReadsFit reads := by
  constructor
  · rintro hbounded before chunk after rfl hmore hlimit
    have hmem : stream (before ++ [chunk]) ∈ looked [] (before ++ chunk :: after) := by
      refine mem_looked_iff.mpr ⟨before ++ [chunk], ⟨after, by simp⟩, rfl, fun first hfirst hne => ?_⟩
      have hearly := prefix_ne_concat_iff.mp ⟨hfirst, hne⟩
      exact ⟨hmore first hearly, (length_stream_le hearly).trans_lt hlimit⟩
    have hlength := hbounded _ hmem
    rw [length_stream_concat] at hlength
    omega
  · rintro hfits buffer hbuffer
    obtain ⟨before, ⟨after, rfl⟩, rfl, hall⟩ := mem_looked_iff.mp hbuffer
    rw [List.nil_append]
    rcases List.eq_nil_or_concat' before with rfl | ⟨front, chunk, rfl⟩
    · exact Nat.zero_le _
    · have hwaits : ∀ first, first <+: front → Waits (stream first) := fun first hfirst => by
        obtain ⟨hearly, hne⟩ := prefix_ne_concat_iff.mpr hfirst
        exact hall first hearly hne
      have hlimit := (hwaits front (List.prefix_refl front)).2
      have hroom := hfits front chunk after (by simp) (fun first hfirst => (hwaits first hfirst).1) hlimit
      rw [length_stream_concat]
      omega

/-- The header of a record of so many bytes. -/
def headerOf (recordLength : ℕ) : List UInt8 :=
  handshakeRecord :: ([3, 1] ++ u16 recordLength)

theorem length_headerOf (recordLength : ℕ) : (headerOf recordLength).length = 5 := rfl

/-- A record that is not all here is waited for. -/
theorem read_headerOf {recordLength : ℕ} {body : List UInt8} (hlimit : recordLength < 65536)
    (h : body.length < recordLength) : ClientHello.read (headerOf recordLength ++ body) = .more := by
  have hheader : recordHeader (headerOf recordLength ++ body) = .ok (recordLength, body) :=
    (recordHeader_reads _ _ _).mpr ⟨_, .mk rfl (Nat.ne_zero_of_lt h) hlimit, rfl⟩
  have hwhole : wholeBody recordLength body = .error .more := by
    rw [wholeBody, if_pos h]
  have hbefore : beforeExtensions (headerOf recordLength ++ body) = .error .more := by
    rw [beforeExtensions, bind_apply_of_ok hheader, bind_apply_of_error hwhole]
  rw [ClientHello.read, hbefore]

/-- A read of so many bytes of a body. -/
def filler (count : ℕ) (hpositive : 0 < count) (hfits : count ≤ mostChunkBytes) : Chunk where
  bytes := List.replicate count 0
  nonempty := mt (List.replicate_eq_nil_iff _).mp (Nat.pos_iff_ne_zero.mp hpositive)
  fits := (List.length_replicate ..).trans_le hfits

theorem length_stream_replicate (chunk : Chunk) (times : ℕ) :
    (stream (List.replicate times chunk)).length = times * chunk.bytes.length := by
  induction times with
  | zero => exact (Nat.zero_mul _).symm
  | succ times ih =>
    rw [List.replicate_succ, stream_cons, List.length_append, ih, Nat.succ_mul, Nat.add_comm]

/-- A quarter of the longest record, less a byte. -/
def quarter : Chunk :=
  filler 4095 (by decide) (by decide)

theorem length_quarter : quarter.bytes.length = 4095 :=
  List.length_replicate

/-- A record of 16384 bytes whose body comes in five reads. -/
def longRecord : List Chunk :=
  ⟨headerOf 16384, List.cons_ne_nil _ _, by decide⟩ :: List.replicate 5 quarter

theorem longRecord_waits {first : List Chunk} (h : first <+: longRecord) (hne : first ≠ longRecord) :
    Waits (stream first) := by
  rcases List.prefix_cons_iff.mp h with rfl | ⟨front, rfl, hfront⟩
  · exact ⟨rfl, by decide⟩
  · obtain ⟨hlength, hfront⟩ := List.prefix_replicate_iff.mp hfront
    have hshort : front.length ≠ 5 := fun heq => hne (by rw [longRecord, ← heq, ← hfront])
    have hbody : (stream front).length = front.length * 4095 := by
      rw [hfront, length_stream_replicate, length_quarter, List.length_replicate]
    rw [stream_cons]
    constructor
    · exact read_headerOf (by decide) (by omega)
    · rw [List.length_append, length_headerOf, mostHelloBytes]
      omega

/-- The last read is longer than what is left. -/
theorem longRecord_exceeds : ∃ buffer ∈ looked [] longRecord, buffer.length = mostHelloBytes + 4091 := by
  have hbuffer : stream longRecord = [] ++ stream longRecord := (List.nil_append _).symm
  refine ⟨stream longRecord, mem_looked_iff.mpr ⟨longRecord, List.prefix_rfl, hbuffer, ?_⟩, ?_⟩
  · intro first hfirst hne
    exact longRecord_waits hfirst hne
  · have hlength : (stream longRecord).length = 5 + 5 * 4095 := by
      rw [longRecord, stream_cons, List.length_append, length_headerOf, length_stream_replicate,
        length_quarter]
    simp only [mostHelloBytes]
    omega

end EkEk.Dataplane
