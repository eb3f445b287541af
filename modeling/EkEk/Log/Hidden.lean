import EkEk.Log.Header

/-!
# What of a value is hidden

Reference: `crates/ek-ek-log/src/mask.rs`.

A header stands in a message with whole lines before it and a line break behind its value. The scan of the
message passes over a value in which it sees no end and no part of a private key, and what it writes is then
the same for every such value (`message_text_eq`).
-/

namespace EkEk.Mask

open Text (bytes)
open Searching (find)

/-! ## The header itself -/

section

variable {name after : List UInt8} (hname : name.map toAsciiLowercase ∈ SECRET)

/-- No secret name begins with another one. -/
theorem secret_begins : ∀ name ∈ SECRET, 58 ∉ name ∧ ∀ other ∈ SECRET, other <+: name → other = name := by
  decide

/-- A secret name is found where it stands behind something that is over. -/
theorem secret_name {before name : List UInt8} (hbefore : boundary before = true) (hname : name ∈ SECRET)
    (rest : List UInt8) : secret before (name ++ 58 :: rest) = some name := by
  rw [secret, if_pos hbefore]
  have hholds : (name.isPrefixOf (name ++ 58 :: rest) &&
      ((name ++ 58 :: rest)[name.length]?).all boundaryAfter) = true := by
    rw [List.isPrefixOf_iff_prefix.mpr (List.prefix_append name _), List.getElem?_append_right le_rfl,
      Nat.sub_self]
    rfl
  generalize htext : name ++ 58 :: rest = text at hholds ⊢
  have hsome : (SECRET.find? fun other =>
      other.isPrefixOf text && (text[other.length]?).all boundaryAfter).isSome :=
    List.find?_isSome.mpr ⟨name, hname, hholds⟩
  obtain ⟨found, hfound⟩ := Option.isSome_iff_exists.mp hsome
  have hmem := List.mem_of_find?_eq_some hfound
  have hinside : found <+: name := by
    have hbegins := List.find?_some hfound
    rw [Bool.and_eq_true, List.isPrefixOf_iff_prefix, ← htext] at hbegins
    have hparted : Searching.Parted found name (58 :: rest) :=
      Searching.parted_of_head (by simpa using (secret_begins found hmem).1)
    exact hparted 0 (List.length_pos_iff.mpr (secret_ascii name hname).1) hbegins.1
  rw [hfound, (secret_begins name hname).2 found hmem hinside]

theorem boundary_breaks {before text : List UInt8} (h : before.reverse = text)
    (htext : text = [] ∨ Breaks text) :
    boundary (before.map toAsciiLowercase) = true := by
  obtain rfl | ⟨earlier, lineBreak, hbreak, rfl⟩ := htext
  · rw [List.reverse_eq_nil_iff.mp h]
    rfl
  · have hall : ∀ lineBreak ∈ breaks, ∀ earlier : List UInt8,
        boundary ((lineBreak.reverse ++ earlier).map toAsciiLowercase) = true := by
      rw [forall_mem_breaks]
      exact ⟨fun _ => rfl, fun _ => rfl, fun _ => rfl, fun _ => rfl⟩
    rw [List.reverse_eq_iff.mp h, List.reverse_append]
    exact hall lineBreak hbreak _

include hname in
/-- What is found at a secret name with a colon behind it. -/
theorem valueOf_name {before : List UInt8} (hbefore : boundary (before.map toAsciiLowercase) = true)
    (rest : List UInt8) : valueOf before (name ++ 58 :: rest) =
      (span (58 :: rest)).map fun found => (name.length + found.1, name.length + found.2) := by
  have hlower : (name ++ 58 :: rest).map toAsciiLowercase =
      name.map toAsciiLowercase ++ 58 :: rest.map toAsciiLowercase := List.map_append
  rw [valueOf, hlower, secret_name hbefore hname, Option.bind_some, List.length_map, List.drop_left]

/-- A value behind a colon and a blank. -/
theorem span_colon {blank : UInt8} (hblank : isAsciiWhitespace blank = true) (rest : List UInt8) :
    span (58 :: blank :: rest) = some (rest.length + 2 - (rest.dropWhile isAsciiWhitespace).length,
      rest.length + 2 - (stripped (rest.dropWhile isAsciiWhitespace)).1.length +
        valueLength (stripped (rest.dropWhile isAsciiWhitespace)).2
          (stripped (rest.dropWhile isAsciiWhitespace)).1) := by
  have hname : afterName (58 :: blank :: rest) = 58 :: blank :: rest := rfl
  have hcolon : ((58 : UInt8) == 58 || (58 : UInt8) == 61) = true := rfl
  rw [span_eq_some hname hcolon, List.dropWhile_cons_of_pos hblank]
  rfl

include hname in
/-- The mask takes the place of the value of a header. -/
theorem hit_line {before value : List UInt8} (hbefore : boundary (before.map toAsciiLowercase) = true)
    (h : Fine value) (hafter : Broken after) :
    hit before (line name value after) = some (name.length + 2, name.length + 2 + value.length) := by
  obtain ⟨first, rest, rfl⟩ := List.exists_cons_of_ne_nil h.ne_nil
  have hblank : (first :: rest ++ after).dropWhile isAsciiWhitespace = first :: rest ++ after :=
    List.dropWhile_cons_of_neg (by simp [h.starts first rfl])
  obtain ⟨inner, hinner, hle, hstripped⟩ := stripped_plain h.toPlain hafter
  rw [hit, line, valueOf_name hname hbefore, span_colon (by decide), hblank, hstripped,
    valueLength_broken hinner hafter, Option.map_some, Option.some_or]
  simp only [List.length_append, Option.some.injEq, Prod.mk.injEq]
  omega

/-- Behind a value the scan does not know it. -/
theorem masked_behind (hafter : Broken after) (k : ℕ) (front other before earlier : List UInt8) :
    masked (((front ++ after).take (front.length + k)).reverse ++ before)
      ((front ++ after).drop (front.length + k)) =
      masked (((other ++ after).take (other.length + k)).reverse ++ earlier)
        ((other ++ after).drop (other.length + k)) := by
  obtain ⟨byte, tail, rfl, hbyte⟩ := hafter.exists_cons
  rw [List.take_length_add_append, List.take_length_add_append, ← List.drop_drop, ← List.drop_drop,
    List.drop_left, List.drop_left, List.reverse_append, List.reverse_append, List.append_assoc,
    List.append_assoc]
  exact masked_congr_break hbyte k _ _

include hname in
/-- What a header is masked to. -/
theorem masked_line {before value : List UInt8} (hbefore : boundary (before.map toAsciiLowercase) = true)
    (h : Fine value) (hafter : Broken after) :
    masked before (line name value after) = name ++ 58 :: 32 :: (MASK ++ masked [] after) := by
  have hne : line name value after ≠ [] := by simp [line]
  have hlength : (name ++ 58 :: 32 :: value).length = name.length + 2 + value.length := by
    simp only [List.length_append, List.length_cons]
    omega
  have htake : (line name value after).take (name.length + 2) = name ++ [58, 32] := by
    rw [line, List.take_length_add_append]
    rfl
  have hbehind := masked_behind hafter 0 (name ++ 58 :: 32 :: value) [] before []
  rw [← line_eq, hlength] at hbehind
  rw [masked_of_some (hit_line hname hbefore h hafter) (by omega) hne, htake]
  simp only [Nat.add_zero] at hbehind
  rw [hbehind]
  simp

include hname in
/-- What is written from a position before a header on does not depend on the value. -/
theorem masked_append_line {text before front value other : List UInt8}
    (hfront : before.reverse ++ text = front)
    (hline : front = [] ∨ Breaks front) (hafter : Broken after) (hvalue : Fine value) (hother : Fine other) :
    masked before (text ++ line name value after) = masked before (text ++ line name other after) := by
  induction hlength : text.length using Nat.strong_induction_on generalizing text before with
  | _ length ih =>
    cases text with
    | nil =>
      rw [List.append_nil] at hfront
      have hbefore := boundary_breaks hfront hline
      rw [List.nil_append, List.nil_append, masked_line hname hbefore hvalue hafter,
        masked_line hname hbefore hother hafter]
    | cons byte tail =>
      have htext : LineEnd (byte :: tail) := by
        obtain rfl | hbreaks := hline
        · simp at hfront
        · have hdrop : front.drop before.length = byte :: tail := by
            rw [← hfront, ← List.length_reverse, List.drop_left]
          have hlt : before.length < front.length := by
            rw [← hfront]
            simp
          have hend := LineEnd.drop (.inl hbreaks) hlt
          rwa [hdrop] at hend
      obtain h | ⟨kept, stop, hkept, hstop, h⟩ | ⟨kept, k, hkept, h⟩ := uniform_hit hname htext hafter before
      · -- The scan takes one byte.
        have hnone (value : List UInt8) (hfine : Fine value) :
            masked before (byte :: tail ++ line name value after) =
              byte :: masked (byte :: before) (tail ++ line name value after) :=
          masked_of_none (h value hfine)
        rw [hnone value hvalue, hnone other hother,
          ih tail.length (by rw [← hlength]; exact Nat.lt_succ_self _) (by simpa using hfront) rfl]
      · -- The scan goes on in the text.
        have hpos := hit_pos (h value hvalue)
        have hsome (value : List UInt8) (hfine : Fine value) :
            masked before (byte :: tail ++ line name value after) = (byte :: tail).take kept ++ MASK ++
              masked (((byte :: tail).take stop).reverse ++ before)
                ((byte :: tail).drop stop ++ line name value after) := by
          rw [masked_of_some (h value hfine) hpos (by simp), List.take_append_of_le_length hkept,
            List.take_append_of_le_length hstop, List.drop_append_of_le_length hstop]
        have hrest : ((byte :: tail).drop stop).length < length := by
          rw [List.length_drop]
          dsimp only at hpos
          omega
        rw [hsome value hvalue, hsome other hother, ih _ hrest (by simpa using hfront) rfl]
      · -- The scan goes on behind the value.
        have hsome (value : List UInt8) (hfine : Fine value) :
            masked before (byte :: tail ++ line name value after) = (byte :: tail).take kept ++ MASK ++
              masked ((((byte :: tail ++ (name ++ 58 :: 32 :: value)) ++ after).take
                ((byte :: tail ++ (name ++ 58 :: 32 :: value)).length + k)).reverse ++ before)
                (((byte :: tail ++ (name ++ 58 :: 32 :: value)) ++ after).drop
                  ((byte :: tail ++ (name ++ 58 :: 32 :: value)).length + k)) := by
          have hstop : (byte :: tail ++ (name ++ 58 :: 32 :: value)).length + k =
              (byte :: tail).length + (name.length + 2 + value.length) + k := by
            simp only [List.length_append, List.length_cons]
            omega
          have hall : (byte :: tail ++ (name ++ 58 :: 32 :: value)) ++ after =
              byte :: tail ++ line name value after := by
            rw [line_eq, List.append_assoc]
          rw [masked_of_some (h value hfine) (by omega) (by simp), List.take_append_of_le_length hkept,
            hstop, hall]
        rw [hsome value hvalue, hsome other hother, masked_behind hafter]

end

/-! ## Messages with a header -/

/-- What a line ends with. -/
def lineBreaks : List String := ["\r", "\n", "\\r", "\\n"]

/-- A message without the value of a header: whole lines before the header and a line break behind it. -/
structure Context where
  front : String
  name : String
  lineBreak : String
  rest : String
  wholeLines : front = "" ∨ ∃ earlier, ∃ lineBreak ∈ lineBreaks, front = earlier ++ lineBreak
  secret : (bytes name).map toAsciiLowercase ∈ SECRET
  broken : lineBreak ∈ lineBreaks

/-- The message with a value. -/
def Context.text (context : Context) (value : String) : String :=
  context.front ++ context.name ++ ": " ++ value ++ context.lineBreak ++ context.rest

/-- A value without line breaks. -/
def LineFree (value : String) : Prop := ∀ lineBreak ∈ lineBreaks, ¬ bytes lineBreak <:+: bytes value

instance (value : String) : Decidable (LineFree value) :=
  List.decidableBAll (fun lineBreak => ¬ bytes lineBreak <:+: bytes value) lineBreaks

/-- A value with nothing in it that the scan takes for an end, a beginning or a part of a private key. -/
structure Safe (value : String) : Prop where
  nonempty : value ≠ ""
  starts : ∀ byte ∈ (bytes value).head?, isAsciiWhitespace byte = false
  closed : ∀ byte ∈ bytes value, ends byte = false
  dashes : ¬ CLOSE <:+: (bytes value).map toAsciiLowercase
  key : ¬ PRIVATE_KEY <:+: (bytes value).map toAsciiLowercase

instance (value : String) : Decidable (Safe value) :=
  decidable_of_iff (value ≠ "" ∧ ((bytes value).head?.all fun byte => !isAsciiWhitespace byte) = true ∧
    ((bytes value).all fun byte => !ends byte) = true ∧ ¬ CLOSE <:+: (bytes value).map toAsciiLowercase ∧
      ¬ PRIVATE_KEY <:+: (bytes value).map toAsciiLowercase)
    ⟨fun ⟨h1, h2, h3, h4, h5⟩ => ⟨h1, by simpa [Option.all_eq_true] using h2, by simpa using h3, h4, h5⟩,
      fun ⟨h1, h2, h3, h4, h5⟩ => ⟨h1, by simpa [Option.all_eq_true] using h2, by simpa using h3, h4, h5⟩⟩

theorem bytes_lineBreaks : lineBreaks.map bytes = breaks := by decide

theorem mem_breaks {lineBreak : String} (h : lineBreak ∈ lineBreaks) : bytes lineBreak ∈ breaks := by
  rw [← bytes_lineBreaks]
  exact List.mem_map_of_mem h

theorem LineFree.unbroken {value : String} (h : LineFree value) :
    ∀ lineBreak ∈ breaks, ¬ lineBreak <:+: bytes value := by
  rw [← bytes_lineBreaks]
  intro lineBreak hbreak
  obtain ⟨source, hsource, rfl⟩ := List.mem_map.mp hbreak
  exact h source hsource

theorem Safe.fine {value : String} (h : Safe value) (hvalue : LineFree value) : Fine (bytes value) where
  closed := h.closed
  unbroken := hvalue.unbroken
  ne_nil := fun hnil => h.nonempty (Text.bytes_injective (hnil.trans (by decide)))
  starts := h.starts
  dashes := h.dashes
  key := h.key

theorem bytes_text (context : Context) (value : String) : bytes (context.text value) =
    bytes context.front ++ line (bytes context.name) (bytes value)
      (bytes context.lineBreak ++ bytes context.rest) := by
  have hseparator : bytes ": " = [58, 32] := by decide
  simp only [Context.text, Text.bytes_append, hseparator, line, List.append_assoc]
  rfl

theorem Context.lines (context : Context) : bytes context.front = [] ∨ Breaks (bytes context.front) := by
  obtain hempty | ⟨earlier, lineBreak, hbreak, hfront⟩ := context.wholeLines
  · rw [hempty]
    exact .inl (by decide)
  · rw [hfront, Text.bytes_append]
    exact .inr ⟨_, _, mem_breaks hbreak, rfl⟩

theorem Context.after (context : Context) : Broken (bytes context.lineBreak ++ bytes context.rest) :=
  ⟨_, mem_breaks context.broken, List.prefix_append _ _⟩

/-- The mask hides the whole of a value in which it sees no end and no part of a private key. -/
theorem message_text_eq (context : Context) {v w : String} (hv : Fine (bytes v)) (hw : Fine (bytes w)) :
    message (context.text v) = message (context.text w) := by
  rw [message_eq, message_eq, bytes_text, bytes_text]
  have hfront : ([] : List UInt8).reverse ++ bytes context.front = bytes context.front := rfl
  rw [masked_append_line context.secret hfront context.lines context.after hv hw]

end EkEk.Mask
