import EkEk.Net
import Mathlib.Data.List.Basic

/-!
# The text of an address

The text of an address (`std::net`) says which address it is. It is parted at its colons: an IPv4
address has none, a mapped one has a dot after its colons, and from the parts of any other the segments
can be put together again, since what is left out of a text is a run of zeros.
-/

namespace EkEk

/-- The digits of the bases that addresses are written in. -/
theorem digitChar_injOn {m n : ℕ} (hm : m < 16) (hn : n < 16) (h : m.digitChar = n.digitChar) : m = n := by
  have hall : ∀ m < 16, ∀ n < 16, Nat.digitChar m = Nat.digitChar n → m = n := by decide
  exact hall m hm n hn h

/-- Neither a colon nor a dot is a digit. -/
theorem digitChar_ne {n : ℕ} (hn : n < 16) : n.digitChar ≠ ':' ∧ n.digitChar ≠ '.' := by
  have hall : ∀ n < 16, Nat.digitChar n ≠ ':' ∧ Nat.digitChar n ≠ '.' := by decide
  exact hall n hn

section

variable {b : ℕ} (hb : 1 < b) (hle : b ≤ 16)

include hb hle

/-- A number is known from its digits. -/
theorem toDigits_injective : Function.Injective (Nat.toDigits b) := by
  intro m
  induction m using Nat.strongRecOn with
  | ind m ih =>
    intro n h
    rw [Nat.toDigits_eq_if hb, Nat.toDigits_eq_if (n := n) hb] at h
    split at h <;> rename_i hm <;> split at h <;> rename_i hn
    · exact digitChar_injOn (by omega) (by omega) (List.singleton_inj.mp h)
    · have := congrArg List.length h
      have := Nat.length_toDigits_pos (b := b) (n := n / b)
      simp only [List.length_append, List.length_singleton] at *
      omega
    · have := congrArg List.length h
      have := Nat.length_toDigits_pos (b := b) (n := m / b)
      simp only [List.length_append, List.length_singleton] at *
      omega
    · obtain ⟨hlead, hlast⟩ := List.append_inj' h rfl
      have hmod := digitChar_injOn ((Nat.mod_lt m (by omega)).trans_le hle)
        ((Nat.mod_lt n (by omega)).trans_le hle) (List.singleton_inj.mp hlast)
      have hdiv := ih (m / b) (Nat.div_lt_self (by omega) hb) hlead
      rw [← Nat.div_add_mod m b, ← Nat.div_add_mod n b, hdiv, hmod]

/-- A digit is neither a colon nor a dot. -/
theorem ne_of_mem_toDigits {n : ℕ} {c : Char} (h : c ∈ Nat.toDigits b n) : c ≠ ':' ∧ c ≠ '.' := by
  induction n using Nat.strongRecOn with
  | ind n ih =>
    rw [Nat.toDigits_eq_if hb] at h
    split at h <;> rename_i hn
    · rw [List.mem_singleton.mp h]
      exact digitChar_ne (by omega)
    · obtain hlead | hlast := List.mem_append.mp h
      · exact ih (n / b) (Nat.div_lt_self (by omega) hb) hlead
      · rw [List.mem_singleton.mp hlast]
        exact digitChar_ne ((Nat.mod_lt n (by omega)).trans_le hle)

end

/-! ## The four octets -/

namespace Ipv4Addr

/-- The octets in decimal, as they stand between the dots. -/
def texts (address : Ipv4Addr) : List (List Char) :=
  address.octets.map fun octet => Nat.toDigits 10 octet.toNat

/-- An IPv4 address is four texts with dots between them. -/
theorem toList_display (address : Ipv4Addr) : address.display.toList = ['.'].intercalate address.texts := by
  rw [display, String.toList_intercalate, List.map_map]
  congr 1
  exact List.map_congr_left fun octet _ => by simp

theorem ne_of_mem_texts {address : Ipv4Addr} {text : List Char} (h : text ∈ address.texts) {c : Char}
    (hc : c ∈ text) : c ≠ ':' ∧ c ≠ '.' := by
  obtain ⟨octet, -, rfl⟩ := List.mem_map.mp h
  exact ne_of_mem_toDigits (by decide) (by decide) hc

theorem display_injective : Function.Injective display := by
  intro x y h
  have hsplit (z : Ipv4Addr) : z.display.toList.splitOn '.' = z.texts := by
    rw [toList_display]
    refine List.splitOn_intercalate '.' (fun text htext hdot => ?_) (by simp [texts, octets])
    exact (ne_of_mem_texts htext hdot).2 rfl
  have htexts : x.texts = y.texts := by rw [← hsplit, ← hsplit, h]
  have hinj : Function.Injective fun octet : UInt8 => Nat.toDigits 10 octet.toNat :=
    (toDigits_injective (by decide) (by decide)).comp fun _ _ => UInt8.toNat_inj.mp
  have hoctets := hinj.list_map htexts
  obtain ⟨a, b, c, d⟩ := x
  obtain ⟨a', b', c', d'⟩ := y
  simpa [octets] using hoctets

/-- No colon stands in the text of an IPv4 address. -/
theorem colon_notMem_display (address : Ipv4Addr) : ':' ∉ address.display.toList := by
  have hdigits (octet : UInt8) : ':' ∉ Nat.toDigits 10 octet.toNat := fun h =>
    (ne_of_mem_toDigits (by decide) (by decide) h).1 rfl
  rw [toList_display]
  simp [texts, octets, List.intercalate_cons_cons, hdigits]

/-- A dot does. -/
theorem dot_mem_display (address : Ipv4Addr) : '.' ∈ address.display.toList := by
  rw [toList_display]
  simp [texts, octets, List.intercalate_cons_cons]

end Ipv4Addr

namespace Ipv6

/-- An IPv6 address has eight segments. -/
theorem length_segments (address : BitVec 128) : (segments address).length = 8 := by simp [segments]

/-- An IPv6 address is known from its segments. -/
theorem segments_injective : Function.Injective segments := by
  intro x y h
  have hx := x.isLt
  have hy := y.isLt
  apply BitVec.eq_of_toNat_eq
  simp [segments, List.range_succ] at h
  omega

/-- A segment has sixteen bits. -/
theorem segment_lt {address : BitVec 128} {segment : ℕ} (h : segment ∈ segments address) :
    segment < 65536 := by
  obtain ⟨i, -, rfl⟩ := List.mem_map.mp h
  exact Nat.mod_lt _ (by decide)

/-! ## The run of zeros -/

/-- A stretch of segments that are all zero. -/
structure Zeros (segments : List ℕ) (run : ℕ × ℕ) : Prop where
  within : run.1 + run.2 ≤ segments.length
  zero : ∀ i, run.1 ≤ i → i < run.1 + run.2 → segments[i]? = some 0

theorem Zeros.nothing {segments : List ℕ} : Zeros segments (0, 0) where
  within := by simp
  zero i _ hi := by simp at hi

/-- A stretch stays one where more is read. -/
theorem Zeros.append {segments : List ℕ} {run : ℕ × ℕ} (h : Zeros segments run) (segment : ℕ) :
    Zeros (segments ++ [segment]) run where
  within := by
    have := h.within
    rw [List.length_append]
    omega
  zero i hi hlt := by
    have := h.within
    rw [List.getElem?_append_left (by omega)]
    exact h.zero i hi hlt

/-- The run being read, with one zero more. -/
def nextRun (run : ℕ × ℕ) (index : ℕ) : ℕ × ℕ := if run.2 = 0 then (index, 1) else (run.1, run.2 + 1)

/-- A run that ends where a zero follows goes on over it, and one begins there if there was none. -/
theorem Zeros.longer {segments : List ℕ} {run : ℕ × ℕ} (h : Zeros segments run)
    (hend : run.2 = 0 ∨ run.1 + run.2 = segments.length) :
    Zeros (segments ++ [0]) (nextRun run segments.length) := by
  by_cases hnone : run.2 = 0
  · rw [nextRun, if_pos hnone]
    refine ⟨by simp, fun i hi hlt => ?_⟩
    have hi : i = segments.length := by omega
    simp [hi]
  · rw [nextRun, if_neg hnone]
    have hend := hend.resolve_left hnone
    refine ⟨by simp only [List.length_append, List.length_singleton]; omega, fun i hi hlt => ?_⟩
    by_cases hlast : i = segments.length
    · simp [hlast]
    · rw [List.getElem?_append_left (by omega)]
      exact h.zero i hi (by omega)

/-- A stretch that is not over ends where the reading is. -/
theorem nextRun_ends {segments : List ℕ} {run : ℕ × ℕ}
    (hend : run.2 = 0 ∨ run.1 + run.2 = segments.length) :
    (nextRun run segments.length).1 + (nextRun run segments.length).2 = (segments ++ [0]).length := by
  rw [nextRun, List.length_append, List.length_singleton]
  split
  · rfl
  · dsimp only
    omega

/-- One segment read: the longest run so far and the one being read. -/
def readSegment (found : (ℕ × ℕ) × (ℕ × ℕ)) (segment : ℕ × ℕ) : (ℕ × ℕ) × (ℕ × ℕ) :=
  if segment.1 = 0 then
    (if found.1.2 < (nextRun found.2 segment.2).2 then nextRun found.2 segment.2 else found.1,
      nextRun found.2 segment.2)
  else (found.1, (0, 0))

/-- What holds of the two runs once some segments are read. -/
structure Reading (segments : List ℕ) (found : (ℕ × ℕ) × (ℕ × ℕ)) : Prop where
  longest : Zeros segments found.1
  current : Zeros segments found.2
  ends : found.2.2 = 0 ∨ found.2.1 + found.2.2 = segments.length

/-- One segment more is read. -/
theorem Reading.read {segments : List ℕ} {found : (ℕ × ℕ) × (ℕ × ℕ)} (h : Reading segments found)
    (segment : ℕ) : Reading (segments ++ [segment]) (readSegment found (segment, segments.length)) := by
  by_cases hzero : segment = 0
  · subst hzero
    have hlonger := h.current.longer h.ends
    rw [readSegment, if_pos rfl]
    refine ⟨?_, hlonger, .inr ?_⟩
    · split
      · exact hlonger
      · exact h.longest.append 0
    · exact nextRun_ends h.ends
  · rw [readSegment, if_neg hzero]
    exact ⟨h.longest.append segment, .nothing, .inl rfl⟩

/-- What is left out of a text is zeros. -/
theorem zeros_longestZeros (segments : List ℕ) : Zeros segments (longestZeros segments) := by
  suffices h : ∀ rest done found, Reading done found →
      Reading (done ++ rest) ((rest.zipIdx done.length).foldl readSegment found) from
    (h segments [] _ ⟨.nothing, .nothing, .inl rfl⟩).longest
  intro rest
  induction rest with
  | nil =>
    intro done found h
    simpa using h
  | cons segment rest ih =>
    intro done found h
    have := ih (done ++ [segment]) _ (h.read segment)
    rwa [List.append_assoc, List.singleton_append, List.length_append, List.length_singleton] at this

/-- The segments again, from what stands on the two sides of a run of zeros. -/
theorem Zeros.eq_append {segments : List ℕ} {run : ℕ × ℕ} (h : Zeros segments run) :
    segments = segments.take run.1 ++ List.replicate run.2 0 ++ segments.drop (run.1 + run.2) := by
  have hzeros : (segments.drop run.1).take run.2 = List.replicate run.2 0 := by
    have := h.within
    refine List.eq_replicate_iff.mpr ⟨by simp; omega, fun segment hsegment => ?_⟩
    obtain ⟨i, hi, rfl⟩ := List.mem_iff_getElem.mp hsegment
    have hlt : i < run.2 := by
      rw [List.length_take] at hi
      omega
    obtain ⟨_, hzero⟩ := List.getElem?_eq_some_iff.mp (h.zero (run.1 + i) (by omega) (by omega))
    simpa using hzero
  rw [← hzeros, List.append_assoc, ← List.drop_drop, List.take_append_drop, List.take_append_drop]

/-! ## The parts between the colons -/

/-- A segment as it is written. -/
def hex (segment : ℕ) : String := String.ofList (Nat.toDigits 16 segment)

/-- A segment is known from its digits. -/
theorem hex_injective : Function.Injective hex := fun _ _ h =>
  toDigits_injective (by decide) (by decide) (String.ofList_injective h)

/-- No segment is written as nothing. -/
theorem hex_ne_empty (segment : ℕ) : hex segment ≠ "" := by
  intro h
  have := congrArg String.toList h
  rw [hex, String.toList_ofList] at this
  exact Nat.toDigits_ne_nil this

/-- What stands on one side of a run of zeros. -/
def side (texts : List String) : List String := if texts = [] then [""] else texts

/-- The parts of the text of an address that is no mapped one. -/
def parts (segments : List ℕ) : List String :=
  let (start, length) := longestZeros segments
  if length ≤ 1 then segments.map hex
  else side ((segments.take start).map hex) ++ "" :: side ((segments.drop (start + length)).map hex)

/-- The text of one side is that of its segments, and empty where it has none. -/
theorem intercalate_side (segments : List ℕ) :
    ":".intercalate (side (segments.map hex)) = groups segments := by
  rw [groups, side]
  split <;> rename_i h
  · rw [List.map_eq_nil_iff.mp h]
    rfl
  · rfl

theorem side_ne_nil (texts : List String) : side texts ≠ [] := by
  rw [side]
  split <;> simp_all

/-- An address that is no mapped one is its parts with colons between them. -/
theorem display_eq {address : BitVec 128} (h : (segments address).take 6 ≠ [0, 0, 0, 0, 0, 0xffff]) :
    display address = ":".intercalate (parts (segments address)) := by
  rw [display, parts]
  simp only [if_neg h]
  split
  · rfl
  · rw [String.intercalate_append_of_ne_nil (side_ne_nil _) (by simp),
      String.intercalate_cons_of_ne_nil (side_ne_nil _), intercalate_side, intercalate_side]
    have hcolons : "::" = ":" ++ ("" ++ ":") := by decide
    rw [hcolons]
    simp only [String.append_assoc]

/-- The parts before a part of no length, or all of them. -/
def before (parts : List String) : List String := parts.takeWhile (· ≠ "")

/-- The first side ends before the part that stands for the zeros. -/
theorem before_side {texts : List String} (h : ∀ text ∈ texts, text ≠ "") (rest : List String) :
    before (side texts ++ "" :: rest) = texts := by
  rw [before, side]
  split <;> rename_i hnil
  · simp [hnil]
  · rw [List.takeWhile_append_of_pos (by simpa using h)]
    simp

/-- The other side is read from the end. -/
theorem reverse_side (texts : List String) : (side texts).reverse = side texts.reverse := by
  rw [side, side]
  split <;> simp_all

/-- The segments, as they are written, from the parts of a text. -/
def spread (parts : List String) : List String :=
  if "" ∈ parts then
    let first := before parts
    let last := (before parts.reverse).reverse
    first ++ List.replicate (8 - (first.length + last.length)) "0" ++ last
  else parts

/-- The segments are read back from the parts: what is missing between them is zeros. -/
theorem spread_parts {segments : List ℕ} (h : segments.length = 8) :
    spread (parts segments) = segments.map hex := by
  have hne (segments : List ℕ) : ∀ text ∈ segments.map hex, text ≠ "" := by
    intro text htext
    obtain ⟨segment, -, rfl⟩ := List.mem_map.mp htext
    exact hex_ne_empty segment
  have hzeros := zeros_longestZeros segments
  rw [parts]
  rcases hrun : longestZeros segments with ⟨start, length⟩
  rw [hrun] at hzeros
  dsimp only
  split
  · rw [spread, if_neg fun hmem => hne segments _ hmem rfl]
  · have hwithin := hzeros.within
    have hlast : (side ((segments.take start).map hex) ++
        "" :: side ((segments.drop (start + length)).map hex)).reverse =
        side ((segments.drop (start + length)).map hex).reverse ++
          "" :: side ((segments.take start).map hex).reverse := by
      simp [reverse_side]
    have hreversed : ∀ text ∈ ((segments.drop (start + length)).map hex).reverse, text ≠ "" :=
      fun text htext => hne _ text (List.mem_reverse.mp htext)
    rw [spread, if_pos (by simp), hlast, before_side (hne _), before_side hreversed,
      List.reverse_reverse]
    dsimp only
    conv_rhs => rw [hzeros.eq_append]
    have hcount : 8 - (((segments.take start).map hex).length +
        ((segments.drop (start + length)).map hex).length) = length := by
      simp only [List.length_map, List.length_take, List.length_drop]
      dsimp only at hwithin
      omega
    rw [hcount, List.map_append, List.map_append, List.map_replicate]
    rfl

/-! ## The text of an address -/

theorem ne_of_mem_hex {segment : ℕ} {c : Char} (hc : c ∈ (hex segment).toList) : c ≠ ':' ∧ c ≠ '.' := by
  rw [hex, String.toList_ofList] at hc
  exact ne_of_mem_toDigits (by decide) (by decide) hc

theorem ne_of_mem_side {segments : List ℕ} {part : String} (h : part ∈ side (segments.map hex)) {c : Char}
    (hc : c ∈ part.toList) : c ≠ ':' ∧ c ≠ '.' := by
  rw [side] at h
  split at h
  · rw [List.mem_singleton.mp h] at hc
    simp at hc
  · obtain ⟨segment, -, rfl⟩ := List.mem_map.mp h
    exact ne_of_mem_hex hc

/-- Neither a colon nor a dot stands in a part. -/
theorem ne_of_mem_parts {segments : List ℕ} {part : String} (h : part ∈ parts segments) {c : Char}
    (hc : c ∈ part.toList) : c ≠ ':' ∧ c ≠ '.' := by
  rw [parts] at h
  dsimp only at h
  split at h
  · obtain ⟨segment, -, rfl⟩ := List.mem_map.mp h
    exact ne_of_mem_hex hc
  · obtain hfirst | hlast := List.mem_append.mp h
    · exact ne_of_mem_side hfirst hc
    · obtain rfl | hlast := List.mem_cons.mp hlast
      · simp at hc
      · exact ne_of_mem_side hlast hc

end Ipv6

namespace IpAddr

/-- The IPv4 address that the last two segments of a mapped one are. -/
def mapped (segments : List ℕ) : Ipv4Addr :=
  ⟨UInt8.ofNat (segments.getD 6 0 / 256), UInt8.ofNat (segments.getD 6 0),
    UInt8.ofNat (segments.getD 7 0 / 256), UInt8.ofNat (segments.getD 7 0)⟩

/-- What stands between the colons of the text of an address. -/
def parts : IpAddr → List String
  | .v4 address => [address.display]
  | .v6 address =>
    if (Ipv6.segments address).take 6 = [0, 0, 0, 0, 0, 0xffff] then
      ["", "", "ffff", (mapped (Ipv6.segments address)).display]
    else Ipv6.parts (Ipv6.segments address)

theorem display_eq (address : IpAddr) : address.display = ":".intercalate address.parts := by
  cases address with
  | v4 address => simp [display, parts]
  | v6 address =>
    rw [display, parts]
    split <;> rename_i h
    · rw [Ipv6.display]
      simp only [if_pos h, mapped, String.intercalate_cons_cons, String.intercalate_singleton]
      simp [← String.append_assoc]
    · exact Ipv6.display_eq h

theorem colon_notMem_parts {address : IpAddr} {part : String} (h : part ∈ address.parts) :
    ':' ∉ part.toList := by
  cases address with
  | v4 address =>
    rw [List.mem_singleton.mp h]
    exact Ipv4Addr.colon_notMem_display address
  | v6 address =>
    rw [parts] at h
    split at h
    · simp only [List.mem_cons, List.not_mem_nil, or_false] at h
      obtain rfl | rfl | rfl | rfl := h
      · decide
      · decide
      · decide
      · exact Ipv4Addr.colon_notMem_display _
    · exact fun hc => (Ipv6.ne_of_mem_parts h hc).1 rfl

/-- No address is written as nothing. -/
theorem parts_ne_nil (address : IpAddr) : address.parts ≠ [] := by
  cases address with
  | v4 address => simp [parts]
  | v6 address =>
    rw [parts]
    split
    · simp
    · intro h
      have := Ipv6.spread_parts (Ipv6.length_segments address)
      rw [h] at this
      simpa [Ipv6.spread, Ipv6.length_segments] using congrArg List.length this

/-- The last two segments of a mapped address are the octets of the other. -/
theorem segments_of_mapped {x y : BitVec 128} (htake : (Ipv6.segments x).take 6 = (Ipv6.segments y).take 6)
    (h : mapped (Ipv6.segments x) = mapped (Ipv6.segments y)) : Ipv6.segments x = Ipv6.segments y := by
  have hlast (z : BitVec 128) :
      (Ipv6.segments z).drop 6 = [(Ipv6.segments z).getD 6 0, (Ipv6.segments z).getD 7 0] := by
    rfl
  have hlt (z : BitVec 128) (i : ℕ) : (Ipv6.segments z).getD i 0 < 65536 := by
    rw [List.getD_eq_getElem?_getD]
    cases hi : (Ipv6.segments z)[i]? with
    | none => decide
    | some segment => exact Ipv6.segment_lt (List.mem_of_getElem? hi)
  have := hlt x 6
  have := hlt y 6
  have := hlt x 7
  have := hlt y 7
  simp only [mapped, Ipv4Addr.mk.injEq, ← UInt8.toNat_inj, UInt8.toNat_ofNat'] at h
  rw [← List.take_append_drop 6 (Ipv6.segments x), ← List.take_append_drop 6 (Ipv6.segments y), htake,
    hlast, hlast]
  congr 2
  · omega
  · congr 1
    omega

/-- A dot stands in the text of a mapped address and of no other. -/
theorem display_notMem_parts (address : Ipv4Addr) (segments : List ℕ) :
    address.display ∉ Ipv6.parts segments := fun h =>
  (Ipv6.ne_of_mem_parts h (Ipv4Addr.dot_mem_display address)).2 rfl

theorem parts_injective : Function.Injective parts := by
  intro x y h
  cases x with
  | v4 x =>
    cases y with
    | v4 y => rw [Ipv4Addr.display_injective (List.singleton_inj.mp h)]
    | v6 y =>
      rw [parts, parts] at h
      split at h
      · simp at h
      · exact absurd (h ▸ List.mem_singleton_self _) (display_notMem_parts x _)
  | v6 x =>
    cases y with
    | v4 y =>
      rw [parts, parts] at h
      split at h
      · simp at h
      · exact absurd (h ▸ List.mem_singleton_self _) (display_notMem_parts y _)
    | v6 y =>
      congr 1
      apply Ipv6.segments_injective
      rw [parts, parts] at h
      split at h <;> rename_i hx <;> split at h <;> rename_i hy
      · simp only [List.cons.injEq, and_true, true_and] at h
        exact segments_of_mapped (hx.trans hy.symm) (Ipv4Addr.display_injective h)
      · exact absurd (h ▸ by simp) (display_notMem_parts (mapped (Ipv6.segments x)) (Ipv6.segments y))
      · exact absurd (h ▸ by simp) (display_notMem_parts (mapped (Ipv6.segments y)) (Ipv6.segments x))
      · have hspread := congrArg Ipv6.spread h
        rw [Ipv6.spread_parts (Ipv6.length_segments x), Ipv6.spread_parts (Ipv6.length_segments y)] at hspread
        exact Ipv6.hex_injective.list_map hspread

/-- Two addresses with one text are one address. -/
theorem display_injective : Function.Injective display := by
  have hsplit (z : IpAddr) : z.display.toList.splitOn ':' = z.parts.map String.toList := by
    rw [display_eq, String.toList_intercalate]
    refine List.splitOn_intercalate ':' (fun text htext => ?_) (by simpa using parts_ne_nil z)
    obtain ⟨part, hpart, rfl⟩ := List.mem_map.mp htext
    exact colon_notMem_parts hpart
  intro x y h
  have hparts : x.parts.map String.toList = y.parts.map String.toList := by rw [← hsplit, ← hsplit, h]
  have hinj : Function.Injective String.toList := fun _ _ => String.toList_inj.mp
  exact parts_injective (hinj.list_map hparts)

end IpAddr

/-! ## What addresses are written with -/

/-- Digits, colons and dots. -/
def addressChars : List Char := "0123456789abcdef:.".toList

/-- At most so many characters of an address. -/
def Within (most : ℕ) (text : List Char) : Prop := text.length ≤ most ∧ ∀ c ∈ text, c ∈ addressChars

/-- A number that has so many digits takes so many characters. -/
theorem within_toDigits {b : ℕ} (hb : 1 < b) (hle : b ≤ 16) {n digits : ℕ} (hpos : 0 < digits)
    (hn : n < b ^ digits) : Within digits (Nat.toDigits b n) := by
  refine ⟨(Nat.length_toDigits_le_iff hb hpos).mpr hn, fun c hc => ?_⟩
  clear hn
  induction n using Nat.strongRecOn with
  | ind n ih =>
    have hdigit : ∀ n < 16, Nat.digitChar n ∈ addressChars := by decide
    rw [Nat.toDigits_eq_if hb] at hc
    split at hc <;> rename_i hsmall
    · rw [List.mem_singleton.mp hc]
      exact hdigit n (by omega)
    · rcases List.mem_append.mp hc with hlead | hlast
      · exact ih (n / b) (Nat.div_lt_self (by omega) hb) hlead
      · rw [List.mem_singleton.mp hlast]
        exact hdigit _ ((Nat.mod_lt n (by omega)).trans_le hle)

theorem Within.mono {most more : ℕ} {text : List Char} (h : Within most text) (hle : most ≤ more) :
    Within more text := ⟨h.1.trans hle, h.2⟩

theorem Within.append {most more : ℕ} {text later : List Char} (h : Within most text)
    (hlater : Within more later) : Within (most + more) (text ++ later) := by
  refine ⟨?_, fun c hc => (List.mem_append.mp hc).elim (h.2 c) (hlater.2 c)⟩
  rw [List.length_append]
  exact Nat.add_le_add h.1 hlater.1

/-- Parts with a character between them. -/
theorem within_intercalate {sep : Char} (hsep : sep ∈ addressChars) {most : ℕ} {parts : List (List Char)}
    (h : ∀ part ∈ parts, Within most part) :
    Within (parts.length * (most + 1) - 1) ([sep].intercalate parts) := by
  induction parts with
  | nil => exact ⟨Nat.zero_le _, fun c hc => absurd hc List.not_mem_nil⟩
  | cons part parts ih =>
    obtain ⟨hpart, hparts⟩ := List.forall_mem_cons.mp h
    cases parts with
    | nil =>
      rw [List.intercalate_singleton]
      exact hpart.mono (by simp)
    | cons next parts =>
      rw [List.intercalate_cons_cons]
      have hone : Within 1 [sep] := ⟨Nat.le_refl 1, by simpa using hsep⟩
      refine ((hpart.append hone).append (ih hparts)).mono ?_
      have hpos : 0 < (next :: parts).length * (most + 1) := Nat.mul_pos (Nat.succ_pos _) (Nat.succ_pos _)
      rw [List.length_cons (a := part), Nat.succ_mul]
      omega

/-- An IPv4 address takes at most fifteen characters. -/
theorem Ipv4Addr.within_display (address : Ipv4Addr) : Within 15 address.display.toList := by
  rw [toList_display]
  have hoctets : ∀ text ∈ address.texts, Within 3 text := by
    intro text htext
    obtain ⟨octet, -, rfl⟩ := List.mem_map.mp htext
    have := octet.toNat_lt
    exact within_toDigits (by decide) (by decide) (by decide) (by omega)
  exact (within_intercalate (by decide) hoctets).mono (by simp [texts, octets])

/-- A segment takes at most four. -/
theorem Ipv6.within_hex {address : BitVec 128} {segment : ℕ} (h : segment ∈ segments address) :
    Within 4 (hex segment).toList := by
  rw [hex, String.toList_ofList]
  exact within_toDigits (by decide) (by decide) (by decide) (segment_lt h)

namespace Ipv6

theorem length_side (texts : List String) : (side texts).length = max texts.length 1 := by
  rw [side]
  split <;> rename_i h
  · rw [h]
    rfl
  · exact (Nat.max_eq_left (List.length_pos_of_ne_nil h)).symm

/-- A part of one side takes at most four. -/
theorem within_side {segments : List ℕ} (h : ∀ segment ∈ segments, Within 4 (hex segment).toList)
    {part : String} (hpart : part ∈ side (segments.map hex)) : Within 4 part.toList := by
  rw [side] at hpart
  split at hpart
  · rw [List.mem_singleton.mp hpart]
    exact ⟨Nat.zero_le _, fun c hc => absurd hc (by simp)⟩
  · obtain ⟨segment, hsegment, rfl⟩ := List.mem_map.mp hpart
    exact h segment hsegment

/-- A run of zeros that is left out is two segments long at least, so there are never more than eight
parts. -/
theorem within_parts (address : BitVec 128) :
    (∀ part ∈ parts (segments address), Within 4 part.toList) ∧ (parts (segments address)).length ≤ 8 := by
  have hhex : ∀ segment ∈ segments address, Within 4 (hex segment).toList := fun _ => within_hex
  have hwithin := (zeros_longestZeros (segments address)).within
  have hlength := length_segments address
  rw [parts]
  rcases hrun : longestZeros (segments address) with ⟨start, length⟩
  rw [hrun] at hwithin
  dsimp only at hwithin ⊢
  split
  · refine ⟨fun part hpart => ?_, by rw [List.length_map, hlength]⟩
    obtain ⟨segment, hsegment, rfl⟩ := List.mem_map.mp hpart
    exact hhex segment hsegment
  · refine ⟨fun part hpart => ?_, ?_⟩
    · rcases List.mem_append.mp hpart with hfirst | hlast
      · exact within_side (fun segment h => hhex segment (List.mem_of_mem_take h)) hfirst
      · rcases List.mem_cons.mp hlast with rfl | hlast
        · exact ⟨Nat.zero_le _, fun c hc => absurd hc (by simp)⟩
        · exact within_side (fun segment h => hhex segment (List.mem_of_mem_drop h)) hlast
    · rw [List.length_append, List.length_cons, length_side, length_side, List.length_map, List.length_map,
        List.length_take, List.length_drop]
      omega

end Ipv6

/-- The text of an address is short, and has nothing in it but digits, colons and dots. -/
theorem IpAddr.within_display (address : IpAddr) : Within 39 address.display.toList := by
  cases address with
  | v4 address => exact address.within_display.mono (by decide)
  | v6 address =>
    rw [display, Ipv6.display]
    dsimp only
    split <;> rename_i hmapped
    · have hcolon : ':' ∈ addressChars := by decide
      have hf : 'f' ∈ addressChars := by decide
      have hfront : Within 7 "::ffff:".toList := by
        refine ⟨by decide, fun c hc => ?_⟩
        change c ∈ [':', ':', 'f', 'f', 'f', 'f', ':'] at hc
        simp only [List.mem_cons, List.not_mem_nil, or_false] at hc
        rcases hc with rfl | rfl | rfl | rfl | rfl | rfl | rfl <;> assumption
      rw [String.toList_append]
      exact (hfront.append (Ipv4Addr.within_display _)).mono (by decide)
    · obtain ⟨hparts, hcount⟩ := Ipv6.within_parts address
      have hdisplay := Ipv6.display_eq hmapped
      rw [Ipv6.display] at hdisplay
      dsimp only at hdisplay
      rw [if_neg hmapped] at hdisplay
      rw [hdisplay, String.toList_intercalate]
      have hwithin : ∀ text ∈ (Ipv6.parts (Ipv6.segments address)).map String.toList, Within 4 text := by
        intro text htext
        obtain ⟨part, hpart, rfl⟩ := List.mem_map.mp htext
        exact hparts part hpart
      refine (within_intercalate (by decide) hwithin).mono ?_
      rw [List.length_map]
      omega

end EkEk
