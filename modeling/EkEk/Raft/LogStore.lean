import EkEk.Lib.Overflow
import EkEk.Lib.Runs
import EkEk.Raft.Types

/-!
# The replication log

Reference: `crates/ek-ek-raft/src/log.rs`.

The log of consensus on the store's journal. Entries are written out as JSON and read back the same
way, and a purge writes its marker and removes its records in two steps. A range of any shape becomes
a half-open one before the journal sees it.

`Tracked` keeps beside the journal what the calls say should be in it: the entries that were appended
and not truncated since, and what was purged. `log_refines` says how the two agree in every run of
contiguous appends, truncations and purges, with crashes in the middle of a purge.
-/

namespace EkEk.Raft

open Store Checked
open Overflow (saturatingAdd toNat_saturatingAdd)

/-! ## Ranges -/

/-- One end of a range. -/
inductive Bound where
  | included (value : UInt64)
  | excluded (value : UInt64)
  | unbounded
deriving DecidableEq, Repr

/-- A range of positions, with ends of any shape. -/
structure Range where
  start : Bound
  stop : Bound
deriving DecidableEq, Repr

namespace Range

/-- The first position of a range. -/
def first (range : Range) : UInt64 :=
  match range.start with
  | .included value => value
  | .excluded value => saturatingAdd value 1
  | .unbounded => 0

/-- The position behind the last one of a range. -/
def last (range : Range) : UInt64 :=
  match range.stop with
  | .included value => saturatingAdd value 1
  | .excluded value => value
  | .unbounded => .ofNat (2 ^ 64 - 1)

/-- What lies in a range. -/
def Contains (range : Range) (index : UInt64) : Prop :=
  (match range.start with
    | .included value => value.toNat ≤ index.toNat
    | .excluded value => value.toNat < index.toNat
    | .unbounded => True) ∧
  match range.stop with
  | .included value => index.toNat ≤ value.toNat
  | .excluded value => index.toNat < value.toNat
  | .unbounded => True

/-- Both ends of a range, once it is half-open, are positions the database holds. -/
def Fits (range : Range) : Prop :=
  range.first.toNat ≤ mostPosition ∧ range.last.toNat ≤ mostPosition

/-- Below the last position the database holds, the next number is one more. -/
theorem toNat_next {value : UInt64} (h : (saturatingAdd value 1).toNat ≤ mostPosition) :
    (saturatingAdd value 1).toNat = value.toNat + 1 := by
  have hcount : (saturatingAdd value 1).toNat = min (value.toNat + 1) (2 ^ 64 - 1) :=
      toNat_saturatingAdd value 1
  rw [mostPosition] at h
  omega

/-- A range that fits holds what its half-open form holds. -/
theorem contains_iff {range : Range} (h : range.Fits) (index : UInt64) :
    range.Contains index ↔ range.first.toNat ≤ index.toNat ∧ index.toNat < range.last.toNat := by
  obtain ⟨start, stop⟩ := range
  refine and_congr ?_ ?_
  · have hfirst := h.1
    cases start with
    | included value => exact Iff.rfl
    | excluded value =>
      simp only [first] at hfirst ⊢
      rw [toNat_next hfirst]
      omega
    | unbounded => simp [first]
  · have hlast := h.2
    cases stop with
    | included value =>
      simp only [last] at hlast ⊢
      rw [toNat_next hlast]
      omega
    | excluded value => exact Iff.rfl
    | unbounded =>
      simp only [last, mostPosition, UInt64.toNat_ofNat'] at hlast
      omega

end Range

/-! ## The store -/

/-- The JSON of entries and of their identities. -/
structure Codec (Payload : Type) where
  entry : Serde (Entry Payload)
  logId : Serde LogId

/-- Both can be written out and are read back. -/
structure Codec.Lawful {Payload : Type} (codec : Codec Payload) : Prop where
  entry : codec.entry.Lawful
  logId : codec.logId.Lawful

/-- What the log says about itself. -/
structure LogState where
  lastPurgedLogId : Option LogId
  lastLogId : Option LogId
deriving DecidableEq, Repr

namespace LogStore

variable {Payload : Type} (codec : Codec Payload)

/-- The record an entry is kept as. -/
def record (entry : Entry Payload) : Except Fault Record :=
  match codec.entry.toString entry with
  | .ok payload => .ok ⟨entry.logId.index, payload⟩
  | .error error => .error (.writeLogs error)

/-- Write entries to the journal. -/
def keep (journal : Journal) (entries : List (Entry Payload)) : Except Fault Journal := do
  let records ← entries.mapM (record codec)
  (journal.append records).mapError fun error => .writeLogs error.diagnostic

/-- The entry a record holds. -/
def entryOf (record : Record) : Except Fault (Entry Payload) :=
  (codec.entry.fromStr record.payload).mapError .readLogs

/-- The entries in a range. -/
def tryGetLogEntries (journal : Journal) (range : Range) : Except Fault (List (Entry Payload)) := do
  let records ← (journal.records range.first range.last).mapError fun error =>
    .readLogs error.diagnostic
  records.mapM (entryOf codec)

/-- A marker that holds the identity of an entry. -/
def readMarker (journal : Journal) (name : String) : Except Fault (Option LogId) :=
  match journal.marker name with
  | none => .ok none
  | some held =>
    match codec.logId.fromStr held with
    | .ok id => .ok (some id)
    | .error error => .error (.readLogs error)

/-- Where the log ends: at its last record, or at what was purged if it holds none. -/
def getLogState (journal : Journal) : Except Fault LogState := do
  let purged ← readMarker codec journal Marker.purged
  match journal.span with
  | none => .ok ⟨purged, purged⟩
  | some (_, last) =>
    let held ← (journal.records last (saturatingAdd last 1)).mapError fun error =>
      .readLogs error.diagnostic
    match held with
    | [] => .ok ⟨purged, purged⟩
    | record :: _ =>
      let entry ← entryOf codec record
      .ok ⟨purged, some entry.logId⟩

def truncate (journal : Journal) (id : LogId) : Except Fault Journal :=
  (journal.truncateFrom id.index).mapError fun error => .writeLogs error.diagnostic

/-- The first write of a purge. -/
def markPurged (journal : Journal) (id : LogId) : Except Fault Journal :=
  match codec.logId.toString id with
  | .ok text => .ok (journal.setMarker Marker.purged (some text))
  | .error error => .error (.writeLogs error)

/-- The second write of a purge. -/
def removePurged (journal : Journal) (id : LogId) : Except Fault Journal :=
  (journal.purgeUpto id.index).mapError fun error => .writeLogs error.diagnostic

/-! ## What the calls say -/

/-- A journal, with what the calls say should be in it: the entries that were appended and not
truncated since, what was last purged, and the position up to which a purge has removed records. -/
structure Tracked (Payload : Type) where
  journal : Journal
  appended : List (Entry Payload)
  purged : Option LogId
  reached : Option ℕ

inductive Operation (Payload : Type) where
  | append (entries : List (Entry Payload))
  | truncate (id : LogId)
  | purge (id : LogId)
  /-- A purge that gets no further than its marker. -/
  | crash (id : LogId)
  | reopen

namespace Tracked

def new : Tracked Payload := ⟨.create, [], none, none⟩

def step (s : Tracked Payload) : Operation Payload → Tracked Payload
  | .append entries =>
    match keep codec s.journal entries with
    | .ok journal => { s with journal := journal, appended := s.appended ++ entries }
    | .error _ => s
  | .truncate id =>
    match LogStore.truncate s.journal id with
    | .ok journal => { s with
        journal := journal
        appended := s.appended.filter fun entry => entry.position < id.index.toNat }
    | .error _ => s
  | .purge id =>
    match markPurged codec s.journal id with
    | .error _ => s
    | .ok marked =>
      match removePurged marked id with
      | .ok journal => { s with
          journal := journal, purged := some id, reached := some id.index.toNat }
      | .error _ => { s with journal := marked, purged := some id }
  | .crash id =>
    match markPurged codec s.journal id with
    | .error _ => s
    | .ok marked => { s with journal := marked, purged := some id }
  | .reopen => s

/-- Whether an entry lies above a position. -/
def past (position : Option ℕ) (entry : Entry Payload) : Bool :=
  position.all fun position => position < entry.position

/-- The position of what was last purged. -/
def purgedPosition (s : Tracked Payload) : Option ℕ := s.purged.map fun id => id.index.toNat

/-- The entries no purge has removed. -/
def held (s : Tracked Payload) : List (Entry Payload) := s.appended.filter (past s.reached)

/-- The entries above what was purged. -/
def live (s : Tracked Payload) : List (Entry Payload) := s.appended.filter (past s.purgedPosition)

/-- A purge was cut short, and none has been carried through since. -/
def Cut (s : Tracked Payload) : Prop := s.reached ≠ s.purgedPosition

/-- Where the log ends: at the last entry above what was purged, or at what was purged. -/
def last (s : Tracked Payload) : Option LogId :=
  (s.live.getLast?.map fun entry => entry.logId).or s.purged

/-- Entries one after the other, the first one right behind the end of the log. -/
def Contiguous (s : Tracked Payload) (entries : List (Entry Payload)) : Prop :=
  (∀ id ∈ s.last, ∀ entry ∈ entries.head?, entry.position = id.index.toNat + 1) ∧
    entries.IsChain fun first second => second.position = first.position + 1

/-- The last of some entries lies above a purge, or is what was purged. -/
def Ends (entries : List (Entry Payload)) (purged : Option LogId) : Prop :=
  ∀ id ∈ purged, ∀ entry ∈ entries.getLast?, id.index.toNat < entry.position ∨ entry.logId = id

/-- What an operation has to meet. Entries are contiguous and below the last position, a purge does
not go back, and where a purge is cut short, or a log with one cut short is truncated, the records
that are left do not end below it. -/
def Meets (s : Tracked Payload) : Operation Payload → Prop
  | .append entries => s.Contiguous entries ∧ ∀ entry ∈ entries, entry.position < mostPosition
  | .truncate id => Ends (s.held.filter fun entry => entry.position < id.index.toNat) s.purged
  | .purge id => id.index.toNat ≤ mostPosition ∧ ∀ earlier ∈ s.purged,
      earlier.index.toNat ≤ id.index.toNat
  | .crash id => Ends s.held (some id) ∧ ∀ earlier ∈ s.purged, earlier.index.toNat ≤ id.index.toNat
  | .reopen => True

/-- Reading a range succeeds, in the order of the positions, and gives exactly the entries of the range
above what was purged; below it only such as a purge that was cut short has left. -/
def Exact (s : Tracked Payload) (range : Range) : Prop :=
  ∃ entries, tryGetLogEntries codec s.journal range = .ok entries ∧
    entries.Pairwise (fun first second => first.position < second.position) ∧
    (∀ entry, past s.purgedPosition entry = true →
      (entry ∈ entries ↔ entry ∈ s.appended ∧ range.Contains entry.logId.index)) ∧
    ∀ entry ∈ entries, past s.purgedPosition entry = false →
      s.Cut ∧ entry ∈ s.appended ∧ range.Contains entry.logId.index

/-! ## The invariant -/

/-- The row an entry is kept in. -/
def row (entry : Entry Payload) : ℕ × String := (entry.position, codec.entry.text entry)

/-- The journal holds what no purge has removed, in the order of the positions. -/
structure Stored (s : Tracked Payload) : Prop where
  sorted : s.appended.Pairwise fun first second => first.position < second.position
  bounded : ∀ entry ∈ s.appended, entry.position < mostPosition
  rows : s.journal.log = s.held.map (row codec)
  marker : s.journal.marker Marker.purged = s.purged.map codec.logId.text

/-- And it does not end below what was purged, whatever a purge that was cut short has left. -/
structure Agrees (s : Tracked Payload) : Prop extends Stored codec s where
  behind : ∀ position ∈ s.reached, ∃ id ∈ s.purged, position ≤ id.index.toNat
  ends : Ends s.held s.purged

section

variable {codec} {s : Tracked Payload} {entry : Entry Payload} {id : LogId}

theorem past_eq_true {position : Option ℕ} :
    past position entry = true ↔ ∀ p ∈ position, p < entry.position := by
  cases position <;> simp [past]

theorem past_purgedPosition :
    past s.purgedPosition entry = true ↔ ∀ id ∈ s.purged, id.index.toNat < entry.position := by
  rw [past_eq_true, purgedPosition]
  cases s.purged <;> simp

theorem agrees_new : (new : Tracked Payload).Agrees codec where
  sorted := .nil
  bounded _ h := absurd h List.not_mem_nil
  rows := rfl
  marker := rfl
  behind _ h := nomatch h
  ends _ h := nomatch h

/-- What lies above what was purged was not removed. -/
theorem Agrees.past_reached (h : s.Agrees codec) (hpast : past s.purgedPosition entry = true) :
    past s.reached entry = true := by
  rw [past_purgedPosition] at hpast
  rw [past_eq_true]
  intro position hposition
  obtain ⟨id, hid, hle⟩ := h.behind position hposition
  exact Nat.lt_of_le_of_lt hle (hpast id hid)

theorem Agrees.mem_held (h : s.Agrees codec) (hpast : past s.purgedPosition entry = true) :
    entry ∈ s.held ↔ entry ∈ s.appended := by
  rw [held, List.mem_filter]
  exact and_iff_left (h.past_reached hpast)

theorem Agrees.live_eq (h : s.Agrees codec) : s.live = s.held.filter (past s.purgedPosition) := by
  rw [live, held, List.filter_filter]
  refine List.filter_congr fun entry _ => ?_
  cases hpast : past s.purgedPosition entry with
  | false => rfl
  | true => rw [h.past_reached hpast, Bool.and_true]

theorem Stored.sorted_held (h : s.Stored codec) :
    s.held.Pairwise fun first second => first.position < second.position :=
  h.sorted.sublist List.filter_sublist

/-- Nothing stands behind the last entry of a sorted list. -/
theorem le_of_getLast {entries : List (Entry Payload)} {final : Entry Payload}
    (hsorted : entries.Pairwise fun first second => first.position < second.position)
    (hfinal : entries.getLast? = some final) (hmem : entry ∈ entries) :
    entry.position ≤ final.position := by
  obtain ⟨before, rfl⟩ := List.getLast?_eq_some_iff.mp hfinal
  rcases List.mem_append.mp hmem with hbefore | hlast
  · exact Nat.le_of_lt ((List.pairwise_append.mp hsorted).2.2 entry hbefore final
      (List.mem_singleton_self _))
  · rw [List.mem_singleton.mp hlast]

/-- The log ends at its last record, or at what was purged if it has none. -/
theorem Agrees.last_eq (h : s.Agrees codec) :
    s.last = (s.held.getLast?.map fun entry => entry.logId).or s.purged := by
  rw [last]
  cases hfinal : s.held.getLast? with
  | none =>
    have hnil : s.live = [] := by
      rw [h.live_eq, List.getLast?_eq_none_iff.mp hfinal, List.filter_nil]
    rw [hnil]
    rfl
  | some final =>
    obtain ⟨before, hbefore⟩ := List.getLast?_eq_some_iff.mp hfinal
    cases hpast : past s.purgedPosition final with
    | true =>
      have hlive : s.live.getLast? = some final := by
        rw [h.live_eq, hbefore, List.filter_append, List.filter_cons_of_pos hpast, List.filter_nil,
          List.getLast?_concat]
      rw [hlive]
    | false =>
      -- then the last record is what was purged, and no entry lies above it
      obtain ⟨id, hid, hle⟩ : ∃ id ∈ s.purged, ¬ id.index.toNat < final.position := by
        rw [← Bool.not_eq_true, past_purgedPosition] at hpast
        push Not at hpast
        obtain ⟨id, hid, hle⟩ := hpast
        exact ⟨id, hid, Nat.not_lt.mpr hle⟩
      have hends : final.logId = id := (h.ends id hid final hfinal).resolve_left hle
      have hnil : s.live = [] := by
        rw [h.live_eq, List.filter_eq_nil_iff]
        intro entry hentry habove
        have habove := past_purgedPosition.mp habove id hid
        have hfar := le_of_getLast h.sorted_held hfinal hentry
        omega
      rw [hnil, Option.mem_def.mp hid, ← hends]
      rfl

/-- Everything that was appended or purged lies at the end of the log or before it. -/
theorem Agrees.le_last (h : s.Agrees codec) {position : ℕ}
    (hposition : (∃ entry ∈ s.appended, entry.position = position) ∨
      ∃ id ∈ s.purged, id.index.toNat = position) :
    ∃ id ∈ s.last, position ≤ id.index.toNat := by
  cases hfinal : s.live.getLast? with
  | none =>
    have hlast : s.last = s.purged := by rw [last, hfinal]; rfl
    rw [hlast]
    rcases hposition with ⟨entry, hentry, rfl⟩ | ⟨id, hid, rfl⟩
    · have hbelow : ¬ past s.purgedPosition entry = true := by
        intro hpast
        have hlive : entry ∈ s.live := List.mem_filter.mpr ⟨hentry, hpast⟩
        rw [List.getLast?_eq_none_iff.mp hfinal] at hlive
        exact absurd hlive List.not_mem_nil
      rw [past_purgedPosition] at hbelow
      push Not at hbelow
      exact hbelow
    · exact ⟨id, hid, Nat.le_refl _⟩
  | some final =>
    have hlast : s.last = some final.logId := by rw [last, hfinal]; rfl
    rw [hlast]
    refine ⟨final.logId, rfl, ?_⟩
    have hmem := List.mem_of_getLast? hfinal
    have hpast := past_purgedPosition.mp (List.mem_filter.mp hmem).2
    have hsorted : s.live.Pairwise fun first second => first.position < second.position :=
      h.sorted.sublist List.filter_sublist
    rcases hposition with ⟨entry, hentry, rfl⟩ | ⟨id, hid, rfl⟩
    · by_cases hlive : past s.purgedPosition entry = true
      · exact le_of_getLast hsorted hfinal (List.mem_filter.mpr ⟨hentry, hlive⟩)
      · rw [past_purgedPosition] at hlive
        push Not at hlive
        obtain ⟨id, hid, hle⟩ := hlive
        exact hle.trans (Nat.le_of_lt (hpast id hid))
    · exact Nat.le_of_lt (hpast id hid)

/-! ## The steps -/

/-- Contiguous entries lie behind everything that was appended or purged, one after the other. -/
theorem lt_of_contiguous {entries : List (Entry Payload)} (hcontiguous : s.Contiguous entries) :
    entries.Pairwise (fun first second => first.position < second.position) ∧
      ∀ entry ∈ entries, ∀ id ∈ s.last, id.index.toNat < entry.position := by
  obtain ⟨hfirst, hchain⟩ := hcontiguous
  have hless : entries.IsChain fun first second => first.position < second.position :=
    hchain.imp fun _ _ hnext => by omega
  have hsorted : entries.Pairwise fun first second => first.position < second.position := by
    have : IsTrans (Entry Payload) fun first second => first.position < second.position :=
      ⟨fun _ _ _ => Nat.lt_trans⟩
    exact List.isChain_iff_pairwise.mp hless
  refine ⟨hsorted, fun entry hentry id hid => ?_⟩
  cases entries with
  | nil => exact absurd hentry List.not_mem_nil
  | cons first rest =>
    have hposition := hfirst id hid first rfl
    rcases List.mem_cons.mp hentry with rfl | hrest
    · omega
    · have hlater := (List.pairwise_cons.mp hsorted).1 entry hrest
      omega

/-- Entries behind everything that is held are written as they are. -/
theorem keep_eq (hcodec : codec.Lawful) {journal : Journal} {entries : List (Entry Payload)}
    (hbound : ∀ entry ∈ entries, entry.position < mostPosition)
    (hsorted : entries.Pairwise fun first second => first.position < second.position)
    (habove : ∀ held ∈ journal.log, ∀ entry ∈ entries, held.1 < entry.position) :
    keep codec journal entries =
      .ok { journal with log := journal.log ++ entries.map (row codec) } := by
  have hrecords : entries.mapM (record codec) =
      .ok (entries.map fun entry => ⟨entry.logId.index, codec.entry.text entry⟩) := by
    refine mapM_eq_ok fun entry _ => ?_
    rw [record, hcodec.entry.toString_eq entry]
  rw [keep, hrecords, ok_bind, Journal.append_of_lt, mapError_ok, List.map_map]
  · rfl
  · intro record hrecord
    obtain ⟨entry, hentry, rfl⟩ := List.mem_map.mp hrecord
    exact Nat.le_of_lt (hbound entry hentry)
  · exact List.pairwise_map.mpr hsorted
  · intro held hheld record hrecord
    obtain ⟨entry, hentry, rfl⟩ := List.mem_map.mp hrecord
    exact habove held hheld entry hentry

/-- Contiguous entries are written behind what is held. -/
theorem Agrees.step_append (hcodec : codec.Lawful) (h : s.Agrees codec)
    {entries : List (Entry Payload)} (hcontiguous : s.Contiguous entries)
    (hbound : ∀ entry ∈ entries, entry.position < mostPosition) :
    s.step codec (.append entries) = { s with
      journal := { s.journal with log := s.journal.log ++ entries.map (row codec) }
      appended := s.appended ++ entries } := by
  obtain ⟨hsorted, habove⟩ := lt_of_contiguous hcontiguous
  have hkeep : keep codec s.journal entries =
      .ok { s.journal with log := s.journal.log ++ entries.map (row codec) } := by
    refine keep_eq hcodec hbound hsorted fun held hmem entry hentry => ?_
    rw [h.rows] at hmem
    obtain ⟨old, hold, rfl⟩ := List.mem_map.mp hmem
    obtain ⟨id, hid, hle⟩ := h.le_last (.inl ⟨old, List.mem_of_mem_filter hold, rfl⟩)
    exact Nat.lt_of_le_of_lt hle (habove entry hentry id hid)
  rw [step, hkeep]

theorem Agrees.append (hcodec : codec.Lawful) (h : s.Agrees codec) {entries : List (Entry Payload)}
    (hcontiguous : s.Contiguous entries) (hbound : ∀ entry ∈ entries, entry.position < mostPosition) :
    (s.step codec (.append entries)).Agrees codec := by
  obtain ⟨hsorted, habove⟩ := lt_of_contiguous hcontiguous
  have hpast : ∀ entry ∈ entries, past s.purgedPosition entry = true := by
    intro entry hentry
    rw [past_purgedPosition]
    intro purged hpurged
    obtain ⟨id, hid, hle⟩ := h.le_last (.inr ⟨purged, hpurged, rfl⟩)
    exact Nat.lt_of_le_of_lt hle (habove entry hentry id hid)
  have hheld : (s.appended ++ entries).filter (past s.reached) = s.held ++ entries := by
    rw [List.filter_append, held, List.filter_eq_self.mpr fun entry hentry =>
      h.past_reached (hpast entry hentry)]
  rw [h.step_append hcodec hcontiguous hbound]
  refine ⟨⟨?_, ?_, ?_, h.marker⟩, h.behind, ?_⟩
  · refine List.pairwise_append.mpr ⟨h.sorted, hsorted, fun old hold entry hentry => ?_⟩
    obtain ⟨id, hid, hle⟩ := h.le_last (.inl ⟨old, hold, rfl⟩)
    exact Nat.lt_of_le_of_lt hle (habove entry hentry id hid)
  · intro entry hentry
    exact (List.mem_append.mp hentry).elim (h.bounded entry) (hbound entry)
  · simp only [held, hheld, h.rows, List.map_append]
  · intro id hid entry hentry
    simp only [held, hheld] at hentry
    rcases List.mem_append.mp (List.mem_of_getLast? hentry) with hold | hnewEntry
    · cases hentries : entries with
      | nil =>
        rw [hentries, List.append_nil] at hentry
        exact h.ends id hid entry hentry
      | cons first rest =>
        -- the last of all is one of the new ones
        rw [List.getLast?_append_of_ne_nil _ (by simp [hentries])] at hentry
        exact .inl (past_purgedPosition.mp (hpast entry (List.mem_of_getLast? hentry)) id hid)
    · exact .inl (past_purgedPosition.mp (hpast entry hnewEntry) id hid)

theorem Agrees.truncate (h : s.Agrees codec)
    (hends : Ends (s.held.filter fun entry => entry.position < id.index.toNat) s.purged) :
    (s.step codec (.truncate id)).Agrees codec := by
  rw [step]
  cases htruncate : LogStore.truncate s.journal id with
  | error fault => exact h
  | ok journal =>
    rw [LogStore.truncate, mapError_eq_ok, Journal.truncateFrom] at htruncate
    simp only [bind_eq_ok, asI64_eq_ok, Except.ok.injEq] at htruncate
    obtain ⟨position, ⟨-, rfl⟩, rfl⟩ := htruncate
    have hheld : (s.appended.filter fun entry => entry.position < id.index.toNat).filter
        (past s.reached) = s.held.filter fun entry => entry.position < id.index.toNat := by
      rw [held, List.filter_filter, List.filter_filter]
      exact List.filter_congr fun entry _ => Bool.and_comm _ _
    refine ⟨⟨h.sorted.sublist List.filter_sublist, fun entry hentry => ?_, ?_, h.marker⟩, h.behind, ?_⟩
    · exact h.bounded entry (List.mem_of_mem_filter hentry)
    · simp only [held, hheld, h.rows, List.filter_map]
      rfl
    · rw [held, hheld]
      exact hends

theorem markPurged_eq (hcodec : codec.Lawful) (journal : Journal) (id : LogId) :
    markPurged codec journal id =
      .ok (journal.setMarker Marker.purged (some (codec.logId.text id))) := by
  rw [markPurged, hcodec.logId.toString_eq id]

/-- A purge that gets no further than its marker leaves the records as they are. -/
theorem Stored.crash (hcodec : codec.Lawful) (h : s.Stored codec) (id : LogId) :
    (s.step codec (.crash id)).Stored codec ∧ (s.step codec (.crash id)).purged = some id ∧
      (s.step codec (.crash id)).held = s.held := by
  rw [step, markPurged_eq hcodec]
  exact ⟨⟨h.sorted, h.bounded, h.rows, Finmap.lookup_insert _⟩, rfl, rfl⟩

theorem Agrees.crash (hcodec : codec.Lawful) (h : s.Agrees codec) (hends : Ends s.held (some id))
    (hforward : ∀ earlier ∈ s.purged, earlier.index.toNat ≤ id.index.toNat) :
    (s.step codec (.crash id)).Agrees codec := by
  obtain ⟨hstored, -, -⟩ := h.toStored.crash hcodec id
  refine ⟨hstored, ?_, ?_⟩ <;> rw [step, markPurged_eq hcodec]
  · intro position hposition
    obtain ⟨earlier, hearlier, hle⟩ := h.behind position hposition
    exact ⟨id, rfl, hle.trans (hforward earlier hearlier)⟩
  · exact hends

theorem Agrees.purge (hcodec : codec.Lawful) (h : s.Agrees codec)
    (hbound : id.index.toNat ≤ mostPosition)
    (hforward : ∀ earlier ∈ s.purged, earlier.index.toNat ≤ id.index.toNat) :
    (s.step codec (.purge id)).Agrees codec := by
  have hremove : removePurged (s.journal.setMarker Marker.purged (some (codec.logId.text id))) id =
      .ok { s.journal with
        log := s.journal.log.filter fun held => id.index.toNat < held.1
        markers := s.journal.markers.insert Marker.purged (codec.logId.text id) } := by
    rw [removePurged, Journal.purgeUpto, asI64_of_le hbound, ok_bind, mapError_ok]
    rfl
  -- what the purge leaves is what lies above it, whatever earlier purges have removed
  have hheld : s.appended.filter (past (some id.index.toNat)) =
      s.held.filter fun entry => id.index.toNat < entry.position := by
    rw [held, List.filter_filter]
    refine List.filter_congr fun entry _ => ?_
    have hreached : id.index.toNat < entry.position → past s.reached entry = true := by
      intro habove
      rw [past_eq_true]
      intro position hposition
      obtain ⟨earlier, hearlier, hle⟩ := h.behind position hposition
      have := hforward earlier hearlier
      omega
    have hsome : past (some id.index.toNat) entry = decide (id.index.toNat < entry.position) := rfl
    by_cases habove : id.index.toNat < entry.position
    · simp [hsome, habove, hreached habove]
    · simp [hsome, habove]
  rw [step, markPurged_eq hcodec]
  simp only [hremove]
  refine ⟨⟨h.sorted, h.bounded, ?_, ?_⟩, fun position hposition => ?_, ?_⟩
  · simp only [held, hheld, h.rows, List.filter_map]
    rfl
  · exact Finmap.lookup_insert _
  · exact ⟨id, rfl, Nat.le_of_eq (Option.some.inj hposition).symm⟩
  · intro purged hpurged entry hentry
    obtain rfl : id = purged := Option.some.inj hpurged
    have hpast := (List.mem_filter.mp (List.mem_of_getLast? hentry)).2
    exact .inl (past_eq_true.mp hpast _ rfl)

/-- An operation that meets its condition leaves a journal that holds what the calls say. -/
theorem Agrees.step (hcodec : codec.Lawful) (h : s.Agrees codec) {operation : Operation Payload}
    (hmeets : s.Meets operation) : (s.step codec operation).Agrees codec := by
  cases operation with
  | append entries => exact h.append hcodec hmeets.1 hmeets.2
  | truncate id => exact h.truncate hmeets
  | purge id => exact h.purge hcodec hmeets.1 hmeets.2
  | crash id => exact h.crash hcodec hmeets.1 hmeets.2
  | reopen => exact h

/-! ## What is read back -/

/-- A range that fits is read as the entries it holds, of those that are still there. -/
theorem Agrees.tryGetLogEntries_eq (hcodec : codec.Lawful) (h : s.Agrees codec) {range : Range}
    (hfits : range.Fits) : tryGetLogEntries codec s.journal range =
      .ok (s.held.filter fun entry =>
        range.first.toNat ≤ entry.position ∧ entry.position < range.last.toNat) := by
  rw [tryGetLogEntries, Journal.records_of_le hfits.1 hfits.2, mapError_ok, ok_bind, h.rows,
    List.filter_map, List.map_map]
  have hread : ∀ entry : Entry Payload, entryOf codec
      ((fun held : ℕ × String => (⟨.ofNat held.1, held.2⟩ : Record)) (row codec entry)) =
      .ok entry := by
    intro entry
    rw [entryOf, row, hcodec.entry.fromStr_text entry, mapError_ok]
  rw [List.mapM_map]
  exact (mapM_eq_ok fun entry _ => hread entry).trans (congrArg Except.ok (List.map_id _))

/-- A range can be read, and is read right, exactly if it fits. -/
theorem Agrees.exact_iff (hcodec : codec.Lawful) (h : s.Agrees codec) (range : Range) :
    s.Exact codec range ↔ range.Fits := by
  constructor
  · rintro ⟨entries, hread, -⟩
    by_contra hfits
    obtain ⟨error, herror⟩ : ∃ error, s.journal.records range.first range.last = .error error :=
      Journal.records_fails_iff.mpr hfits
    rw [tryGetLogEntries, herror] at hread
    cases hread
  · intro hfits
    have hmem (entry : Entry Payload) : entry ∈ (s.held.filter fun entry =>
        range.first.toNat ≤ entry.position ∧ entry.position < range.last.toNat) ↔
        entry ∈ s.held ∧ range.Contains entry.logId.index := by
      rw [List.mem_filter, Range.contains_iff hfits, decide_eq_true_iff]
      rfl
    refine ⟨_, h.tryGetLogEntries_eq hcodec hfits, h.sorted_held.sublist List.filter_sublist,
      fun entry hpast => ?_, fun entry hentry hbelow => ?_⟩
    · rw [hmem, h.mem_held hpast]
    · obtain ⟨hheld, hcontains⟩ := (hmem entry).mp hentry
      obtain ⟨happended, hreached⟩ := List.mem_filter.mp hheld
      refine ⟨fun hsame => ?_, happended, hcontains⟩
      rw [hsame, hbelow] at hreached
      exact Bool.false_ne_true hreached

theorem Stored.readMarker_eq (hcodec : codec.Lawful) (h : s.Stored codec) :
    readMarker codec s.journal Marker.purged = .ok s.purged := by
  rw [readMarker, h.marker]
  cases s.purged with
  | none => rfl
  | some id =>
    simp only [Option.map_some]
    rw [hcodec.logId.fromStr_text id]

/-- The log says that it ends at its last record, or at what was purged if it has none. -/
theorem Stored.getLogState_eq (hcodec : codec.Lawful) (h : s.Stored codec) :
    getLogState codec s.journal =
      .ok ⟨s.purged, (s.held.getLast?.map fun entry => entry.logId).or s.purged⟩ := by
  rw [getLogState, h.readMarker_eq hcodec, ok_bind, Journal.span, h.rows]
  cases hfinal : s.held.getLast? with
  | none => simp [List.getLast?_eq_none_iff.mp hfinal]
  | some final =>
    have hbound : final.position < mostPosition :=
      h.bounded final (List.mem_of_mem_filter (List.mem_of_getLast? hfinal))
    have hindex : UInt64.ofNat final.position = final.logId.index :=
      UInt64.ofNat_toNat
    have hsucc : (saturatingAdd final.logId.index 1).toNat = final.position + 1 := by
      have hposition : final.position = final.logId.index.toNat := rfl
      have hcount : (saturatingAdd final.logId.index 1).toNat = min (final.logId.index.toNat + 1)
          (2 ^ 64 - 1) :=
        toNat_saturatingAdd final.logId.index 1
      rw [mostPosition] at hbound
      omega
    -- the range from the last position holds the last record, and nothing else
    have honly : s.held.filter (fun entry => final.position ≤ entry.position ∧
        entry.position < final.position + 1) = [final] := by
      obtain ⟨before, hbefore⟩ := List.getLast?_eq_some_iff.mp hfinal
      have hsorted := h.sorted_held
      rw [hbefore] at hsorted ⊢
      rw [List.filter_append, List.filter_eq_nil_iff.mpr, List.nil_append]
      · simp
      · intro entry hentry
        have := (List.pairwise_append.mp hsorted).2.2 entry hentry final (List.mem_singleton_self _)
        simp only [decide_eq_true_eq]
        omega
    obtain ⟨first, hfirst⟩ : ∃ first, s.held.head? = some first := by
      obtain ⟨before, hbefore⟩ := List.getLast?_eq_some_iff.mp hfinal
      rw [hbefore]
      cases before with
      | nil => exact ⟨final, rfl⟩
      | cons first before => exact ⟨first, rfl⟩
    have hrecords : s.journal.records final.logId.index (saturatingAdd final.logId.index 1) =
        .ok [⟨final.logId.index, codec.entry.text final⟩] := by
      rw [Journal.records_of_le (Nat.le_of_lt hbound) (by omega), h.rows, List.filter_map, hsucc]
      have honly := congrArg (List.map fun entry => (⟨.ofNat (row codec entry).1,
        (row codec entry).2⟩ : Record)) honly
      rw [List.map_map]
      exact congrArg Except.ok (honly.trans (by rw [List.map_singleton, row, hindex]))
    rw [List.head?_map, List.getLast?_map, hfirst, hfinal]
    simp only [Option.map_some, row, hindex]
    rw [hrecords, mapError_ok, ok_bind]
    simp only [entryOf, hcodec.entry.fromStr_text final, mapError_ok, ok_bind]
    rfl

end

/-- In every run whose operations meet their conditions, the log holds what the calls say: a range is
read, and read right, exactly if both of its ends are positions of the database once it is half-open;
and the log ends at the last entry above what was purged or at what was purged, never below it. -/
theorem log_refines (codec : Codec Payload) (hcodec : codec.Lawful)
    (operations : List (Operation Payload))
    (h : Runs.Along (step codec) Meets new operations) :
    (∀ range, (Runs.run (step codec) new operations).Exact codec range ↔ range.Fits) ∧
    getLogState codec (Runs.run (step codec) new operations).journal =
      .ok ⟨(Runs.run (step codec) new operations).purged,
        (Runs.run (step codec) new operations).last⟩ ∧
    ∀ purged ∈ (Runs.run (step codec) new operations).purged,
      ∃ id ∈ (Runs.run (step codec) new operations).last, purged.index.toNat ≤ id.index.toNat := by
  have hagrees : (Runs.run (step codec) new operations).Agrees codec :=
    h.inv (fun _ _ hagrees hmeets => hagrees.step hcodec hmeets) agrees_new
  have hstate := hagrees.getLogState_eq hcodec
  rw [← hagrees.last_eq] at hstate
  exact ⟨fun range => hagrees.exact_iff hcodec range, hstate, fun purged hpurged =>
    hagrees.le_last (.inr ⟨purged, hpurged, rfl⟩)⟩

end Tracked

/-! ## The JSON of entries that carry nothing -/

/-- The numbers a text has in it, given the digits of one that were read. -/
def numbers (number : Option ℕ) : List Char → List ℕ
  | [] => number.toList
  | c :: rest =>
    if c.isDigit then numbers (some (10 * number.getD 0 + (c.toNat - '0'.toNat))) rest
    else number.toList ++ numbers none rest

theorem numbers_digits {digits : List Char} (h : ∀ c ∈ digits, c.isDigit = true) (number : ℕ)
    (rest : List Char) :
    numbers (some number) (digits ++ rest) =
      numbers (some (Nat.ofDigitChars 10 digits number)) rest := by
  induction digits generalizing number with
  | nil => simp
  | cons c digits ih =>
    rw [List.cons_append, numbers, if_pos (h c List.mem_cons_self),
      ih fun other hother => h other (List.mem_cons_of_mem _ hother), Nat.ofDigitChars_cons]
    rfl

/-- A number written in decimal is read as it was, if it is not the rest of another one. -/
theorem numbers_repr (number : ℕ) (rest : List Char) :
    numbers none (number.repr.toList ++ rest) = numbers (some number) rest := by
  have hdigits : ∀ c ∈ number.repr.toList, c.isDigit = true := by
    intro c hc
    rw [Nat.toList_repr] at hc
    exact Nat.isDigit_of_mem_toDigits (by decide) (by decide) hc
  have hvalue : Nat.ofDigitChars 10 number.repr.toList 0 = number := by
    rw [Nat.toList_repr, Nat.ofDigitChars_ten_toDigits]
  cases hlist : number.repr.toList with
  | nil => exact absurd (Nat.toList_repr.symm.trans hlist) Nat.toDigits_ne_nil
  | cons c digits =>
    rw [hlist] at hdigits hvalue
    rw [List.cons_append, numbers, if_pos (hdigits c List.mem_cons_self),
      numbers_digits fun other hother => hdigits other (List.mem_cons_of_mem _ hother)]
    rw [Nat.ofDigitChars_cons] at hvalue
    exact congrArg (fun value => numbers (some value) rest) hvalue

/-- A text without digits ends a number, and has none in it. -/
theorem numbers_text (text : String) (hne : text ≠ "")
    (h : text.toList.all (fun c => !c.isDigit) = true) (number : Option ℕ) (rest : List Char) :
    numbers number (text.toList ++ rest) = number.toList ++ numbers none rest := by
  have hlist : text.toList ≠ [] := fun hnil => hne (String.toList_eq_nil_iff.mp hnil)
  generalize text.toList = chars at h hlist
  induction chars generalizing number with
  | nil => exact absurd rfl hlist
  | cons c others ih =>
    simp only [List.all_cons, Bool.and_eq_true, Bool.not_eq_true'] at h
    rw [List.cons_append, numbers, if_neg (by simp [h.1])]
    cases others with
    | nil => rfl
    | cons next others => rw [ih none h.2 (by simp), Option.toList_none, List.nil_append]

/-- The JSON of an identity. -/
def logIdText (id : LogId) : String :=
  "\x7b\"leader_id\":\x7b\"term\":" ++ id.leader.term.toNat.repr ++ ",\"node_id\":" ++
    id.leader.node.toNat.repr ++ "\x7d,\"index\":" ++ id.index.toNat.repr ++ "\x7d"

/-- The identity three numbers are. -/
def logIdOf : List ℕ → Except String LogId
  | [term, node, index] => .ok ⟨⟨.ofNat term, .ofNat node⟩, .ofNat index⟩
  | _ => .error "expected an identity"

/-- The JSON of entries that carry nothing, told by the numbers in it. -/
def blankCodec : Codec Unit where
  entry := {
    toString entry := .ok ("\x7b\"log_id\":" ++ logIdText entry.logId ++ ",\"payload\":\"Blank\"\x7d")
    fromStr text := (logIdOf (numbers none text.toList)).map fun id => ⟨id, ()⟩ }
  logId := {
    toString id := .ok (logIdText id)
    fromStr text := logIdOf (numbers none text.toList) }

/-- Three numbers between texts without digits. -/
theorem numbers_three {a b c d : String} (ha : a ≠ "" ∧ a.toList.all (fun c => !c.isDigit) = true)
    (hb : b ≠ "" ∧ b.toList.all (fun c => !c.isDigit) = true)
    (hc : c ≠ "" ∧ c.toList.all (fun c => !c.isDigit) = true)
    (hd : d ≠ "" ∧ d.toList.all (fun c => !c.isDigit) = true) (x y z : ℕ) (rest : List Char) :
    numbers none ((a ++ x.repr ++ b ++ y.repr ++ c ++ z.repr ++ d).toList ++ rest) =
      [x, y, z] ++ numbers none rest := by
  simp only [String.toList_append, List.append_assoc]
  rw [numbers_text a ha.1 ha.2, numbers_repr, numbers_text b hb.1 hb.2, numbers_repr,
    numbers_text c hc.1 hc.2, numbers_repr, numbers_text d hd.1 hd.2]
  simp

theorem numbers_logIdText (id : LogId) (rest : List Char) :
    numbers none ((logIdText id).toList ++ rest) =
      [id.leader.term.toNat, id.leader.node.toNat, id.index.toNat] ++ numbers none rest :=
  numbers_three (by decide) (by decide) (by decide) (by decide) _ _ _ rest

theorem logIdOf_numbers (id : LogId) :
    logIdOf [id.leader.term.toNat, id.leader.node.toNat, id.index.toNat] = .ok id := by
  simp [logIdOf]

theorem blankCodec_lawful : blankCodec.Lawful where
  logId id := by
    refine ⟨logIdText id, rfl, ?_⟩
    have hnumbers := numbers_logIdText id []
    rw [List.append_nil] at hnumbers
    simp only [blankCodec]
    rw [hnumbers]
    exact logIdOf_numbers id
  entry entry := by
    refine ⟨_, rfl, ?_⟩
    have hsplit : ("\x7b\"log_id\":" ++ logIdText entry.logId ++ ",\"payload\":\"Blank\"\x7d").toList =
        "\x7b\"log_id\":".toList ++ ((logIdText entry.logId).toList ++
          (",\"payload\":\"Blank\"\x7d".toList ++ [])) := by
      simp only [String.toList_append, List.append_assoc, List.append_nil]
    have hnumbers : numbers none
        ("\x7b\"log_id\":" ++ logIdText entry.logId ++ ",\"payload\":\"Blank\"\x7d").toList =
        [entry.logId.leader.term.toNat, entry.logId.leader.node.toNat,
          entry.logId.index.toNat] := by
      rw [hsplit, numbers_text _ (by decide) (by decide), numbers_logIdText,
        numbers_text _ (by decide) (by decide)]
      simp [numbers]
    simp only [blankCodec]
    rw [hnumbers, logIdOf_numbers]
    rfl

namespace Tracked

/-- An entry that carries nothing, written by the seventh node. -/
def blank (index : UInt64) : Entry Unit := ⟨⟨⟨1, 7⟩, index⟩, ()⟩

theorem meets_blanks : (new : Tracked Unit).Meets (.append [blank 1, blank 2]) := by
  refine ⟨⟨fun id hid => (nomatch hid), ?_⟩, ?_⟩
  · simp [blank, Entry.position]
  · simp [blank, Entry.position, mostPosition]

/-- Two entries are appended and the first one is purged: what lies below the third position is read,
and it is the second entry. -/
theorem log_refines_blanks :
    (Runs.run (step blankCodec) new
      [.append [blank 1, blank 2], .purge (blank 1).logId]).Exact blankCodec
      ⟨.unbounded, .excluded 3⟩ := by
  refine ((log_refines blankCodec blankCodec_lawful
    [.append [blank 1, blank 2], .purge (blank 1).logId]
    ⟨meets_blanks, ⟨?_, ?_⟩, trivial⟩).1 _).mpr ?_
  · simp [blank, mostPosition]
  · rw [agrees_new.step_append blankCodec_lawful meets_blanks.1 meets_blanks.2]
    exact fun _ hid => nomatch hid
  · simp [Range.Fits, Range.first, Range.last, mostPosition]

/-- A range without an upper end cannot be read. And where a purge past everything that is held is cut
short, the log says that it ends below what it says was purged. -/
theorem log_misreports :
    (¬ (Runs.run (step blankCodec) new [.append [blank 1, blank 2]]).Exact blankCodec
      ⟨.unbounded, .unbounded⟩) ∧
    getLogState blankCodec (Runs.run (step blankCodec) new
      [.append [blank 1, blank 2], .crash (blank 5).logId]).journal =
      .ok ⟨some (blank 5).logId, some (blank 2).logId⟩ := by
  have hagrees := agrees_new.append blankCodec_lawful meets_blanks.1 meets_blanks.2
  have hheld : (new.step blankCodec (.append [blank 1, blank 2])).held = [blank 1, blank 2] := by
    rw [agrees_new.step_append blankCodec_lawful meets_blanks.1 meets_blanks.2]
    rfl
  constructor
  · rw [Runs.run_cons, Runs.run_nil, hagrees.exact_iff blankCodec_lawful]
    simp [Range.Fits, Range.last, mostPosition]
  · obtain ⟨hstored, hpurged, hsame⟩ :=
      hagrees.toStored.crash blankCodec_lawful (blank 5).logId
    rw [Runs.run_cons, Runs.run_cons, Runs.run_nil, hstored.getLogState_eq blankCodec_lawful,
      hpurged, hsame, hheld]
    rfl

end Tracked

end LogStore

end EkEk.Raft
