import EkEk.Log.Scan

/-!
# The scan around a line break

Reference: `crates/ek-ek-log/src/mask.rs`.

Once the scan is behind the first byte of a line break it knows nothing of what stood before it
(`masked_congr_break`). A text that no line ends in, such as a secret name, stands in a text that ends
with a line break or does not, whatever follows that (`Inline.prefix_iff`).
-/

namespace EkEk.Mask

open Text (bytes)
open Searching (find)

/-! ## What is known of the bytes before -/

/-- Two texts before a position that the scan does not tell apart. -/
def Agree (before other : List UInt8) : Prop :=
  boundary (before.map toAsciiLowercase) = boundary (other.map toAsciiLowercase) ∧ before.head? = other.head?

theorem Agree.cons {before other : List UInt8} (h : Agree before other) (byte : UInt8) :
    Agree (byte :: before) (byte :: other) := by
  refine ⟨?_, rfl⟩
  rw [List.map_cons, List.map_cons, boundary, boundary, List.head?_map, List.head?_map, h.2]

/-- More of the same text does not tell them apart. -/
theorem Agree.append {before other : List UInt8} (h : Agree before other) (front : List UInt8) :
    Agree (front ++ before) (front ++ other) := by
  induction front with
  | nil => exact h
  | cons byte front ih => exact ih.cons byte

/-- A secret is found or not, whichever of the two texts is in front. -/
theorem hit_congr {before other rest : List UInt8} (h : Agree before other) :
    hit before rest = hit other rest := by
  rw [hit, hit, valueOf, valueOf, secret, secret, h.1]

/-- A secret takes at least one byte. -/
theorem hit_pos {before rest : List UInt8} {found : ℕ × ℕ} (h : hit before rest = some found) :
    0 < found.2 := by
  rw [hit] at h
  cases hvalue : valueOf before rest with
  | some value =>
    rw [hvalue] at h
    obtain rfl := Option.some.inj h
    rw [valueOf] at hvalue
    obtain ⟨name, hname, hspan⟩ := Option.bind_eq_some_iff.mp hvalue
    obtain ⟨inside, -, rfl⟩ := Option.map_eq_some_iff.mp hspan
    have := List.length_pos_iff.mpr (secret_ascii name (isPrefixOf_of_secret hname).1).1
    dsimp only
    omega
  | none =>
    rw [hvalue, Option.none_or] at h
    obtain ⟨stop, hstop, rfl⟩ := Option.map_eq_some_iff.mp h
    exact block_pos hstop

/-- What is masked does not depend on which of the two texts is in front. -/
theorem masked_congr {before other rest : List UInt8} (h : Agree before other) :
    masked before rest = masked other rest := by
  induction hlength : rest.length using Nat.strong_induction_on generalizing before other rest with
  | _ length ih =>
    cases rest with
    | nil => rw [masked, masked]
    | cons byte rest =>
      cases hhit : hit before (byte :: rest) with
      | none =>
        rw [masked_of_none hhit, masked_of_none ((hit_congr h).symm.trans hhit),
          ih rest.length (by rw [← hlength]; exact Nat.lt_succ_self _) (h.cons byte) rfl]
      | some found =>
        obtain ⟨kept, stop⟩ := found
        have hpos := hit_pos hhit
        dsimp only at hpos
        rw [masked_of_some hhit hpos (List.cons_ne_nil _ _),
          masked_of_some ((hit_congr h).symm.trans hhit) hpos (List.cons_ne_nil _ _),
          ih ((byte :: rest).drop stop).length ?_ (h.append _) rfl]
        rw [List.length_drop, ← hlength]
        rw [List.length_cons]
        omega

/-! ## Line breaks -/

/-- A line break, or one as a debug format writes it. -/
def breaks : List (List UInt8) := [[13], [10], [92, 114], [92, 110]]

/-- A text that ends with a line break. -/
def Breaks (text : List UInt8) : Prop := ∃ earlier, ∃ lineBreak ∈ breaks, text = earlier ++ lineBreak

/-- There are four ways to write a break. -/
theorem forall_mem_breaks {p : List UInt8 → Prop} :
    (∀ lineBreak ∈ breaks, p lineBreak) ↔ p [13] ∧ p [10] ∧ p [92, 114] ∧ p [92, 110] := by
  simp [breaks]

/-- Behind the first byte of a line break the bytes before it do not matter. -/
theorem agree_break {byte : UInt8} (h : byte = 13 ∨ byte = 10 ∨ byte = 92) (before other : List UInt8) :
    Agree (byte :: before) (byte :: other) := by
  refine ⟨?_, rfl⟩
  rw [List.map_cons, List.map_cons, boundary, boundary]
  obtain rfl | rfl | rfl := h <;> rfl

/-- A text that begins with a line break. -/
def Broken (text : List UInt8) : Prop := ∃ lineBreak ∈ breaks, lineBreak <+: text

/-- A break begins with one of three bytes. -/
theorem Broken.exists_cons {text : List UInt8} (h : Broken text) :
    ∃ byte tail, text = byte :: tail ∧ (byte = 13 ∨ byte = 10 ∨ byte = 92) := by
  obtain ⟨lineBreak, hbreak, tail, rfl⟩ := h
  revert hbreak
  revert lineBreak
  rw [forall_mem_breaks]
  exact ⟨⟨_, _, rfl, .inl rfl⟩, ⟨_, _, rfl, .inr (.inl rfl)⟩, ⟨_, _, rfl, .inr (.inr rfl)⟩,
    ⟨_, _, rfl, .inr (.inr rfl)⟩⟩

theorem Broken.head {text : List UInt8} (h : Broken text) :
    ∀ byte ∈ text.head?, byte = 13 ∨ byte = 10 ∨ byte = 92 := by
  obtain ⟨first, tail, rfl, hfirst⟩ := h.exists_cons
  intro byte hbyte
  rwa [← Option.mem_some_iff.mp hbyte]

/-- From a line break on, the scan does not know what stood before it. -/
theorem masked_congr_break {byte : UInt8} {tail : List UInt8} (h : byte = 13 ∨ byte = 10 ∨ byte = 92) (k : ℕ)
    (before other : List UInt8) :
    masked (((byte :: tail).take k).reverse ++ before) ((byte :: tail).drop k) =
      masked (((byte :: tail).take k).reverse ++ other) ((byte :: tail).drop k) := by
  cases k with
  | zero =>
    have hnone (before : List UInt8) : hit before (byte :: tail) = none :=
      hit_eq_none (by obtain rfl | rfl | rfl := h <;> decide)
    rw [List.drop_zero, List.take_zero, List.reverse_nil, List.nil_append, List.nil_append,
      masked_of_none (hnone before), masked_of_none (hnone other), masked_congr (agree_break h before other)]
  | succ k =>
    apply masked_congr
    rw [List.take_succ_cons, List.reverse_cons, List.append_assoc, List.append_assoc]
    exact (agree_break h before other).append _

/-- The rest of a text that ends with a line break: it ends with one, or is the last byte of one. -/
def LineEnd (text : List UInt8) : Prop := Breaks text ∨ text = [114] ∨ text = [110]

/-- More in front does not change how a text ends. -/
theorem Breaks.append {text : List UInt8} (h : Breaks text) (front : List UInt8) :
    Breaks (front ++ text) := by
  obtain ⟨earlier, lineBreak, hbreak, rfl⟩ := h
  exact ⟨front ++ earlier, lineBreak, hbreak, (List.append_assoc _ _ _).symm⟩

/-- A text that ends with a break is not empty. -/
theorem Breaks.ne_nil {text : List UInt8} (h : Breaks text) : text ≠ [] := by
  obtain ⟨earlier, lineBreak, hbreak, rfl⟩ := h
  have hne : ∀ lineBreak ∈ breaks, lineBreak ≠ [] := by decide
  exact fun hnil => hne lineBreak hbreak (List.append_eq_nil_iff.mp hnil).2

/-- What is left of a text that ends with a line break. -/
theorem Breaks.tail {byte : UInt8} {text : List UInt8} (h : Breaks (byte :: text)) (hne : text ≠ []) :
    LineEnd text ∧ (byte ≠ 92 → Breaks text) := by
  obtain ⟨earlier, lineBreak, hbreak, htext⟩ := h
  cases earlier with
  | cons first earlier =>
    have hbreaks : Breaks text := ⟨earlier, lineBreak, hbreak, (List.cons.inj htext).2⟩
    exact ⟨.inl hbreaks, fun _ => hbreaks⟩
  | nil =>
    rw [List.nil_append] at htext
    subst htext
    simp only [breaks, List.mem_cons, List.cons.injEq, List.not_mem_nil, or_false] at hbreak
    obtain ⟨-, hnil⟩ | ⟨-, hnil⟩ | ⟨rfl, rfl⟩ | ⟨rfl, rfl⟩ := hbreak
    · exact absurd hnil hne
    · exact absurd hnil hne
    · exact ⟨.inr (.inl rfl), fun hne => absurd rfl hne⟩
    · exact ⟨.inr (.inr rfl), fun hne => absurd rfl hne⟩

/-- A text that ends with a line break ends with one without its front, unless that ends within it. -/
theorem Breaks.drop_front {front text : List UInt8} (h : Breaks (front ++ text)) (hne : text ≠ [])
    (hfront : front.getLast? ≠ some 92) : Breaks text := by
  induction front with
  | nil => exact h
  | cons byte front ih =>
    have htail := h.tail (by simp [hne])
    cases front with
    | nil => exact htail.2 (by simpa using hfront)
    | cons other front =>
      rw [List.getLast?_cons_cons] at hfront
      obtain hbreaks | hletter | hletter := htail.1
      · exact ih hbreaks hfront
      · simp [hne] at hletter
      · simp [hne] at hletter

theorem LineEnd.ne_nil {text : List UInt8} (h : LineEnd text) : text ≠ [] := by
  obtain h | rfl | rfl := h
  · exact h.ne_nil
  · exact List.cons_ne_nil _ _
  · exact List.cons_ne_nil _ _

/-- What is left of such a text behind its first byte is such a text. -/
theorem LineEnd.tail {byte : UInt8} {text : List UInt8} (h : LineEnd (byte :: text)) (hne : text ≠ []) :
    LineEnd text := by
  obtain h | h | h := h
  · exact (h.tail hne).1
  · exact absurd (List.cons.inj h).2 hne
  · exact absurd (List.cons.inj h).2 hne

/-- What is left of such a text anywhere is such a text. -/
theorem LineEnd.drop {text : List UInt8} (h : LineEnd text) {k : ℕ} (hk : k < text.length) :
    LineEnd (text.drop k) := by
  induction k generalizing text with
  | zero => exact h
  | succ k ih =>
    obtain ⟨byte, tail, rfl⟩ := List.exists_cons_of_ne_nil h.ne_nil
    rw [List.length_cons, Nat.succ_lt_succ_iff] at hk
    rw [List.drop_succ_cons]
    exact ih (h.tail (List.length_pos_iff.mp (by omega))) hk

/-- Such a text is skipped over whole, or leaves such a text. -/
theorem LineEnd.dropWhile {text : List UInt8} (h : LineEnd text) (p : UInt8 → Bool) :
    text.dropWhile p = [] ∨ LineEnd (text.dropWhile p) := by
  induction text with
  | nil => exact .inl rfl
  | cons byte text ih =>
    rw [List.dropWhile_cons]
    split
    · cases text with
      | nil => exact .inl rfl
      | cons other text => exact ih (h.tail (List.cons_ne_nil _ _))
    · exact .inr h

theorem Breaks.dropWhile {text : List UInt8} (h : Breaks text) :
    text.dropWhile isAsciiWhitespace = [] ∨ Breaks (text.dropWhile isAsciiWhitespace) := by
  induction text with
  | nil => exact .inl rfl
  | cons byte text ih =>
    rw [List.dropWhile_cons]
    split <;> rename_i hblank
    · cases text with
      | nil => exact .inl rfl
      | cons other text =>
        refine ih ((h.tail (List.cons_ne_nil _ _)).2 ?_)
        rintro rfl
        exact absurd hblank (by decide)
    · exact .inr h

/-- Lower case changes no break. -/
theorem LineEnd.lowercase {text : List UInt8} (h : LineEnd text) : LineEnd (text.map toAsciiLowercase) := by
  obtain ⟨earlier, lineBreak, hbreak, rfl⟩ | rfl | rfl := h
  · refine .inl ⟨earlier.map toAsciiLowercase, lineBreak, hbreak, ?_⟩
    have hsame : ∀ lineBreak ∈ breaks, lineBreak.map toAsciiLowercase = lineBreak := by decide
    rw [List.map_append, hsame lineBreak hbreak]
  · exact .inr (.inl rfl)
  · exact .inr (.inr rfl)

/-! ## Texts within a line -/

/-- A text that no line ends in. -/
structure Inline (pattern : List UInt8) : Prop where
  noReturn : 13 ∉ pattern
  noNewline : 10 ∉ pattern
  noEscape : 92 ∉ pattern ∨ 110 ∉ pattern ∧ 114 ∉ pattern
  starts : pattern.head? ≠ some 110 ∧ pattern.head? ≠ some 114

instance (pattern : List UInt8) : Decidable (Inline pattern) :=
  decidable_of_iff (13 ∉ pattern ∧ 10 ∉ pattern ∧ (92 ∉ pattern ∨ 110 ∉ pattern ∧ 114 ∉ pattern) ∧
    pattern.head? ≠ some 110 ∧ pattern.head? ≠ some 114)
    ⟨fun ⟨h1, h2, h3, h4⟩ => ⟨h1, h2, h3, h4⟩, fun ⟨h1, h2, h3, h4⟩ => ⟨h1, h2, h3, h4⟩⟩

/-- It ends before the line does. -/
theorem Inline.length_lt {pattern text rest : List UInt8} (h : Inline pattern) (htext : LineEnd text)
    (hbegins : pattern <+: text ++ rest) : pattern.length < text.length := by
  by_contra hlength
  obtain ⟨more, hmore⟩ : text <+: pattern :=
    List.prefix_of_prefix_length_le (List.prefix_append text rest) hbegins (by omega)
  obtain ⟨earlier, lineBreak, hbreak, rfl⟩ | rfl | rfl := htext
  · have hmem : ∀ byte ∈ lineBreak, byte ∈ pattern := fun byte hbyte => by
      rw [← hmore]
      simp [hbyte]
    simp only [breaks, List.mem_cons, List.not_mem_nil, or_false] at hbreak
    obtain rfl | rfl | rfl | rfl := hbreak
    · exact h.noReturn (hmem 13 (by decide))
    · exact h.noNewline (hmem 10 (by decide))
    · obtain hescape | ⟨-, hletter⟩ := h.noEscape
      · exact hescape (hmem 92 (by decide))
      · exact hletter (hmem 114 (by decide))
    · obtain hescape | ⟨hletter, -⟩ := h.noEscape
      · exact hescape (hmem 92 (by decide))
      · exact hletter (hmem 110 (by decide))
  · exact h.starts.2 (by rw [← hmore]; rfl)
  · exact h.starts.1 (by rw [← hmore]; rfl)

/-- It stands at the front of a line whatever follows the line. -/
theorem Inline.prefix_iff {pattern text : List UInt8} (h : Inline pattern) (htext : LineEnd text)
    (rest : List UInt8) : pattern <+: text ++ rest ↔ pattern <+: text := by
  constructor
  · intro hbegins
    exact List.prefix_of_prefix_length_le hbegins (List.prefix_append text rest)
      (h.length_lt htext hbegins).le
  · intro hbegins
    exact hbegins.trans (List.prefix_append text rest)

/-- It does not go on into a line break that it cannot begin. -/
theorem Inline.prefix_of_broken {pattern plain after : List UInt8} (h : Inline pattern)
    (hlast : pattern.getLast? ≠ some 92) (hafter : Broken after) (hbegins : pattern <+: plain ++ after) :
    pattern <+: plain := by
  obtain ⟨lineBreak, hbreak, more, rfl⟩ := hafter
  rw [← List.append_assoc] at hbegins
  have hlt := h.length_lt (.inl ⟨plain, lineBreak, hbreak, rfl⟩) hbegins
  have hinside : pattern <+: plain ++ lineBreak :=
    List.prefix_of_prefix_length_le hbegins (List.prefix_append _ more) hlt.le
  rw [List.length_append] at hlt
  refine List.prefix_of_prefix_length_le hinside (List.prefix_append plain lineBreak) ?_
  by_contra hlength
  -- Only the first byte of an escaped line break could be its last.
  simp only [breaks, List.mem_cons, List.not_mem_nil, or_false] at hbreak
  have hescape : ∀ letter, lineBreak = [92, letter] → False := by
    rintro letter rfl
    have hall : pattern <+: (plain ++ [92]) ++ [letter] := by simpa using hinside
    have hsame : pattern = plain ++ [92] := by
      have hfits : pattern <+: plain ++ [92] := by
        refine List.prefix_of_prefix_length_le hall (List.prefix_append _ _) ?_
        rw [List.length_append]
        exact Nat.le_of_lt_succ hlt
      refine hfits.eq_of_length_le ?_
      rw [List.length_append, List.length_singleton]
      omega
    exact hlast (by rw [hsame]; simp)
  obtain rfl | rfl | rfl | rfl := hbreak
  · rw [List.length_singleton] at hlt
    omega
  · rw [List.length_singleton] at hlt
    omega
  · exact hescape _ rfl
  · exact hescape _ rfl

/-- A pattern without breaks is found on one side of a line end, and not across it. -/
theorem Inline.find_append {pattern text : List UInt8} (h : Inline pattern) (hne : pattern ≠ [])
    (htext : LineEnd text) (rest : List UInt8) :
    find pattern (text ++ rest) = (find pattern text).or ((find pattern rest).map (· + text.length)) := by
  refine Searching.find_append hne fun i hi hbegins => ?_
  exact (h.prefix_iff (htext.drop hi) rest).mp hbegins

/-- No secret name goes over a line end. -/
theorem secret_inline : ∀ name ∈ SECRET, Inline name := by decide

/-- Nor does a mark of a private key. -/
theorem marks_inline : Inline OPEN ∧ Inline CLOSE ∧ Inline END ∧ Inline PRIVATE_KEY := by decide

/-- Nor does a wrapper. -/
theorem wrappers_inline : ∀ wrapper ∈ wrappers, Inline wrapper ∧ wrapper.getLast? ≠ some 92 := by
  decide

/-! ## Where a value ends -/

/-- A text in which no value ends. -/
structure Plain (text : List UInt8) : Prop where
  closed : ∀ byte ∈ text, ends byte = false
  unbroken : ∀ lineBreak ∈ breaks, ¬ lineBreak <:+: text

/-- The end of a plain text is plain. -/
theorem Plain.suffix {front text : List UInt8} (h : Plain (front ++ text)) : Plain text :=
  ⟨fun byte hbyte => h.closed byte (List.mem_append_right front hbyte), fun lineBreak hbreak hwithin =>
    h.unbroken lineBreak hbreak (hwithin.trans (List.suffix_append front text).isInfix)⟩

theorem breaks_singleton {byte : UInt8} (h : Breaks [byte]) : byte = 13 ∨ byte = 10 := by
  obtain ⟨earlier, lineBreak, hbreak, htext⟩ := h
  obtain ⟨-, hsame⟩ | ⟨-, hempty⟩ := List.append_eq_singleton_iff.mp htext.symm
  · rw [hsame] at hbreak
    simpa [breaks] using hbreak
  · have hne : ∀ lineBreak ∈ breaks, lineBreak ≠ [] := by decide
    exact absurd hempty (hne lineBreak hbreak)

/-- A value ends within a text that ends with a line break. -/
theorem valueLength_breaks (quoted : Bool) {text : List UInt8} (h : Breaks text) (rest : List UInt8) :
    valueLength quoted (text ++ rest) = valueLength quoted text ∧ valueLength quoted text ≤ text.length := by
  induction text with
  | nil => exact absurd rfl h.ne_nil
  | cons byte text ih =>
    cases text with
    | nil =>
      obtain rfl | rfl := breaks_singleton h
      · exact ⟨rfl, by cases quoted <;> decide⟩
      · exact ⟨rfl, by cases quoted <;> decide⟩
    | cons other text =>
      have hescaped : escapedBreak (byte :: (other :: text ++ rest)) =
          escapedBreak (byte :: other :: text) := by
        simp [escapedBreak, List.isPrefixOf]
      rw [List.cons_append, valueLength, valueLength, hescaped]
      split <;> rename_i hescape
      · exact ⟨rfl, Nat.zero_le _⟩
      · split
        · split <;> simp
        · have hbreaks : Breaks (other :: text) := by
            obtain hbreaks | hletter | hletter := (h.tail (List.cons_ne_nil _ _)).1
            · exact hbreaks
            · refine (h.tail (List.cons_ne_nil _ _)).2 ?_
              rintro rfl
              exact hescape (by rw [hletter]; rfl)
            · refine (h.tail (List.cons_ne_nil _ _)).2 ?_
              rintro rfl
              exact hescape (by rw [hletter]; rfl)
          obtain ⟨hsame, hle⟩ := ih hbreaks
          exact ⟨congrArg (· + 1) hsame, Nat.succ_le_succ hle⟩

/-- A value without an end in it goes as far as the end that follows it. -/
theorem valueLength_plain {plain after : List UInt8} (h : Plain plain) (hafter : valueLength false after = 0)
    (hhead : ∀ byte ∈ after.head?, byte ≠ 114 ∧ byte ≠ 110) :
    valueLength false (plain ++ after) = plain.length := by
  induction plain with
  | nil => exact hafter
  | cons byte plain ih =>
    have htail : Plain plain := Plain.suffix (show Plain ([byte] ++ plain) from h)
    have hnone (letter : UInt8) (hbreak : [92, letter] ∈ breaks) (hletter : letter ∉ after.head?) :
        ¬ [92, letter] <+: byte :: (plain ++ after) := by
      intro hbegins
      cases plain with
      | nil =>
        obtain ⟨-, rest, hrest⟩ := List.cons_prefix_cons.mp hbegins
        rw [List.nil_append] at hrest
        exact hletter (by rw [← hrest]; rfl)
      | cons other plain =>
        rw [List.cons_append, List.cons_prefix_cons, List.cons_prefix_cons] at hbegins
        obtain ⟨rfl, rfl, -⟩ := hbegins
        exact h.unbroken _ hbreak ⟨[], plain, rfl⟩
    have hescaped : ¬ escapedBreak (byte :: (plain ++ after)) = true := by
      rw [escapedBreak, Bool.or_eq_true, List.isPrefixOf_iff_prefix, List.isPrefixOf_iff_prefix]
      rintro (hbegins | hbegins)
      · exact hnone 114 (by decide) (fun hmem => (hhead _ hmem).1 rfl) hbegins
      · exact hnone 110 (by decide) (fun hmem => (hhead _ hmem).2 rfl) hbegins
    rw [List.cons_append, valueLength, if_neg hescaped, h.closed byte List.mem_cons_self, if_neg (by simp),
      ih htail]
    rfl

/-- A value without quotes ends where its line does. -/
theorem valueLength_broken {plain after : List UInt8} (h : Plain plain) (hafter : Broken after) :
    valueLength false (plain ++ after) = plain.length := by
  refine valueLength_plain h ?_ fun byte hbyte => ?_
  · obtain ⟨lineBreak, hbreak, more, rfl⟩ := hafter
    revert hbreak
    revert lineBreak
    rw [forall_mem_breaks]
    exact ⟨rfl, rfl, rfl, rfl⟩
  · obtain rfl | rfl | rfl := hafter.head byte hbyte <;> decide

/-- A wrapper is taken off within the line. -/
theorem strip_breaks {wrapper : List UInt8} (hinline : Inline wrapper ∧ wrapper.getLast? ≠ some 92)
    {held : List UInt8 × Bool} (h : Breaks held.1) (rest : List UInt8) : Breaks (strip held wrapper).1 ∧
      (strip held wrapper).1.length ≤ held.1.length ∧
      strip (held.1 ++ rest, held.2) wrapper = ((strip held wrapper).1 ++ rest, (strip held wrapper).2) := by
  have hsame := hinline.1.prefix_iff (.inl h) rest
  simp only [strip, List.isPrefixOf_iff_prefix, hsame]
  by_cases hbegins : wrapper <+: held.1
  · have hlt := hinline.1.length_lt (.inl h) (hsame.mpr hbegins)
    obtain ⟨inner, hinner⟩ := hbegins
    have hdrop : held.1.drop wrapper.length = inner := by rw [← hinner, List.drop_left]
    have hne : inner ≠ [] := by
      rintro rfl
      rw [← hinner, List.append_nil] at hlt
      exact lt_irrefl _ hlt
    rw [if_pos ⟨inner, hinner⟩, if_pos ⟨inner, hinner⟩, List.drop_append_of_le_length hlt.le, hdrop]
    rw [← hinner] at h ⊢
    exact ⟨h.drop_front hne hinline.2, by simp, rfl⟩
  · rw [if_neg hbegins, if_neg hbegins]
    exact ⟨h, le_rfl, rfl⟩

/-- All wrappers are taken off within the line. -/
theorem foldl_strip_breaks {wrappers : List (List UInt8)}
    (hinline : ∀ wrapper ∈ wrappers, Inline wrapper ∧ wrapper.getLast? ≠ some 92) {held : List UInt8 × Bool}
    (h : Breaks held.1) (rest : List UInt8) : Breaks (wrappers.foldl strip held).1 ∧
      (wrappers.foldl strip held).1.length ≤ held.1.length ∧
      wrappers.foldl strip (held.1 ++ rest, held.2) =
        ((wrappers.foldl strip held).1 ++ rest, (wrappers.foldl strip held).2) := by
  induction wrappers generalizing held with
  | nil => exact ⟨h, le_rfl, rfl⟩
  | cons wrapper wrappers ih =>
    rw [List.forall_mem_cons] at hinline
    obtain ⟨hbreaks, hle, hsame⟩ := strip_breaks hinline.1 h rest
    obtain ⟨hinner, hinnerle, hfold⟩ := ih hinline.2 hbreaks
    rw [List.foldl_cons, List.foldl_cons, hsame]
    exact ⟨hinner, hinnerle.trans hle, hfold⟩

/-- The wrappers of a value are taken off it whatever follows the line break it ends with. -/
theorem stripped_breaks {text : List UInt8} (h : Breaks text) (rest : List UInt8) :
    Breaks (stripped text).1 ∧ (stripped text).1.length ≤ text.length ∧
      stripped (text ++ rest) = ((stripped text).1 ++ rest, (stripped text).2) :=
  foldl_strip_breaks wrappers_inline (show Breaks (text, false).1 from h) rest

/-- What wrappers leave of a plain text is plain. -/
theorem foldl_strip_plain {wrappers : List (List UInt8)}
    (hinline : ∀ wrapper ∈ wrappers, Inline wrapper ∧ wrapper.getLast? ≠ some 92) {plain after : List UInt8}
    (h : Plain plain) (hafter : Broken after) :
    ∃ inner, Plain inner ∧ inner.length ≤ plain.length ∧
      wrappers.foldl strip (plain ++ after, false) = (inner ++ after, false) := by
  induction wrappers generalizing plain with
  | nil => exact ⟨plain, h, le_rfl, rfl⟩
  | cons wrapper wrappers ih =>
    rw [List.forall_mem_cons] at hinline
    rw [List.foldl_cons]
    by_cases hbegins : wrapper <+: plain ++ after
    · obtain ⟨inner, rfl⟩ := hinline.1.1.prefix_of_broken hinline.1.2 hafter hbegins
      have hquote : wrapper.getLast? ≠ some 34 := by
        intro hlast
        have hmem := List.mem_of_getLast? hlast
        exact absurd (h.closed 34 (List.mem_append_left _ hmem)) (by decide)
      have hstrip : strip (wrapper ++ inner ++ after, false) wrapper = (inner ++ after, false) := by
        rw [strip, if_pos (List.isPrefixOf_iff_prefix.mpr hbegins)]
        simp [hquote]
      obtain ⟨rest, hrest, hle, hfold⟩ := ih hinline.2 h.suffix
      rw [hstrip]
      exact ⟨rest, hrest, hle.trans (List.suffix_append wrapper inner).length_le, hfold⟩
    · rw [strip, if_neg (mt List.isPrefixOf_iff_prefix.mp hbegins)]
      exact ih hinline.2 h

/-- No quote is taken off a value without an end in it. -/
theorem stripped_plain {plain after : List UInt8} (h : Plain plain) (hafter : Broken after) :
    ∃ inner, Plain inner ∧ inner.length ≤ plain.length ∧
      stripped (plain ++ after) = (inner ++ after, false) :=
  foldl_strip_plain wrappers_inline h hafter

end EkEk.Mask
