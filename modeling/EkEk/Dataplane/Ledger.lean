import EkEk.Dataplane.Udp
import EkEk.Lib.Runs

/-!
# What becomes of every session

Reference: `crates/ek-ek-dataplane/src/udp.rs`.

A session owns a socket, and whoever calls the table closes the sockets of what it gets back. A ledger is
a table with what has been done to it: the sessions that were put in, those that were handed back, and
the clients in the order they were put in or refreshed. The rank of a session is its place in that
order, so that what is evicted for its rank is what was used longest ago.

A session that is put in for a client that has one already takes its place, and the one that was there
is neither in the table any more nor handed back. `sound_iff` says that nothing else gets lost.
-/

namespace EkEk.Dataplane

variable {S : Type}

/-- What a session is made of and keeps. -/
def Session.load (session : Session S) : BackendId × MemberId × SocketAddr × S :=
  (session.pool, session.member, session.address, session.socket)

/-- The sessions a table holds. -/
def Sessions.loads (table : Sessions S) : List (BackendId × MemberId × SocketAddr × S) :=
  (table.entries.rows.map Prod.snd).map Session.load

/-- A call of the table. -/
inductive Op (S : Type) where
  | insert (client : Client) (pool : BackendId) (member : MemberId) (address : SocketAddr) (socket : S)
    (now : ℕ)
  | refresh (client : Client) (now : ℕ)
  | remove (client : Client)
  | retune (limit idleSeconds : UInt32)
  | expire (now : ℕ)
  | retainMembers (present : BackendId → MemberId → Bool)
  | clear

namespace Op

/-- The table after a call, and what the caller gets back to close. A refresh only lends the session. -/
def apply (table : Sessions S) : Op S → Sessions S × List (Session S)
  | .insert client pool member address socket now =>
    let (after, evicted) := table.insert client pool member address socket now
    (after, evicted.toList)
  | .refresh client now => ((table.refresh client now).1, [])
  | .remove client => ((table.remove client).1, (table.remove client).2.toList)
  | .retune limit idleSeconds => table.retune limit idleSeconds
  | .expire now => table.expire now
  | .retainMembers present => table.retainMembers present
  | .clear => table.clear

/-- What a call puts in. -/
def inserted : Op S → List (BackendId × MemberId × SocketAddr × S)
  | .insert _ pool member address socket _ => [(pool, member, address, socket)]
  | _ => []

/-- Whose session a call uses. -/
def uses (table : Sessions S) : Op S → List Client
  | .insert client _ _ _ _ _ => [client]
  | .refresh client _ => if table.holds client then [client] else []
  | _ => []

/-- A call does not put a session in for a client that has one. -/
def Fresh (table : Sessions S) : Op S → Prop
  | .insert client _ _ _ _ _ => table.holds client = false
  | _ => True

end Op

/-- A table and its history. -/
structure Ledger (S : Type) where
  table : Sessions S
  inserted : List (BackendId × MemberId × SocketAddr × S)
  returned : List (Session S)
  uses : List Client

/-- A client was used last as the so-manieth. -/
def LastUse (uses : List Client) (client : Client) (rank : ℕ) : Prop :=
  uses[rank]? = some client ∧ ∀ later, rank < later → uses[later]? ≠ some client

namespace Ledger

/-- A new table. -/
def start (limit idleSeconds : UInt32) : Ledger S := ⟨.new limit idleSeconds, [], [], []⟩

/-- One call. -/
def step (ledger : Ledger S) (op : Op S) : Ledger S where
  table := (op.apply ledger.table).1
  inserted := ledger.inserted ++ op.inserted
  returned := ledger.returned ++ (op.apply ledger.table).2
  uses := ledger.uses ++ op.uses ledger.table

/-- Every session that was put in is in the table or was handed back, and that once. -/
def Conserved (ledger : Ledger S) : Prop :=
  ledger.inserted.Perm (ledger.returned.map Session.load ++ ledger.table.loads)

/-- Of two sessions the first one was used last before the second one was. -/
def Older (uses : List Client) (client other : Client) : Prop :=
  ∃ rank rank', LastUse uses client rank ∧ LastUse uses other rank' ∧ rank < rank'

end Ledger

/-- What every call keeps: there is room in the table, and ranks are places in the order of use. -/
structure Kept (table : Sessions S) (uses : List Client) : Prop where
  limit_pos : 0 < table.limit
  bound : table.length ≤ table.limit
  next : table.next = uses.length
  lastUse : ∀ row ∈ table.entries.rows, LastUse uses row.1 row.2.rank

/-! ## The order of use -/

variable {uses : List Client} {client other : Client} {rank : ℕ}

theorem LastUse.lt (h : LastUse uses client rank) : rank < uses.length :=
  (List.getElem?_eq_some_iff.mp h.1).1

theorem lastUse_concat_self (uses : List Client) (client : Client) :
    LastUse (uses ++ [client]) client uses.length := by
  refine ⟨by simp, fun later hlater hin => ?_⟩
  have hlt := (List.getElem?_eq_some_iff.mp hin).1
  rw [List.length_append, List.length_singleton] at hlt
  omega

theorem LastUse.concat (h : LastUse uses other rank) (hne : other ≠ client) :
    LastUse (uses ++ [client]) other rank := by
  refine ⟨(List.getElem?_append_left h.lt).trans h.1, fun later hlater hin => ?_⟩
  rcases lt_or_ge later uses.length with hlt | hge
  · rw [List.getElem?_append_left hlt] at hin
    exact h.2 later hlater hin
  · rw [List.getElem?_append_right hge] at hin
    exact hne (List.mem_singleton.mp (List.mem_of_getElem? hin))

namespace Sessions

variable {table : Sessions S}

/-! ## What leaves the table -/

/-- A table that one client was evicted from. -/
def without (table : Sessions S) (client : Client) : Sessions S :=
  { table with entries := table.entries.remove client, evicted := table.evicted + 1 }

@[simp] theorem limit_without (client : Client) : (table.without client).limit = table.limit := rfl

theorem length_without {row : Client × Session S} (h : row ∈ table.entries.rows) :
    (table.without row.1).length + 1 = table.length :=
  (Assoc.perm_cons_remove h).length_eq.symm

/-- What is evicted from a table that holds anything has the lowest rank. -/
theorem evictLeastUsed_spec (h : 0 < table.length) : ∃ oldest ∈ table.entries.rows,
    table.evictLeastUsed = (table.without oldest.1, some oldest.2) ∧
    ∀ row ∈ table.entries.rows, oldest.2.rank ≤ row.2.rank := by
  cases hleast : table.entries.rows.argmin fun row => toLex (row.2.rank, row.1.key) with
  | none => exact absurd (List.argmin_eq_none.mp hleast) (List.ne_nil_of_length_pos h)
  | some oldest =>
    refine ⟨oldest, List.argmin_mem hleast, by rw [evictLeastUsed, hleast, without], fun row hrow => ?_⟩
    have hle := List.le_of_mem_argmin hrow hleast
    rcases Prod.Lex.le_iff.mp hle with hlt | ⟨heq, -⟩
    · exact hlt.le
    · exact heq.le

/-- A table some sessions have been evicted from, the one used longest ago first. -/
structure EvictedTo (table after : Sessions S) (evicted : List (Session S)) : Prop where
  limit : after.limit = table.limit
  next : after.next = table.next
  perm : (table.entries.rows.map Prod.snd).Perm (evicted ++ after.entries.rows.map Prod.snd)
  sorted : evicted.Pairwise fun first second => first.rank ≤ second.rank
  low : ∀ session ∈ evicted, ∀ row ∈ after.entries.rows, session.rank ≤ row.2.rank

theorem EvictedTo.refl (table : Sessions S) : EvictedTo table table [] :=
  ⟨rfl, rfl, List.Perm.refl _, List.Pairwise.nil, fun _ h => absurd h List.not_mem_nil⟩

/-- One session more, evicted in front of the others. -/
theorem EvictedTo.cons {oldest : Client × Session S} {after : Sessions S} {evicted : List (Session S)}
    (hmem : oldest ∈ table.entries.rows) (hleast : ∀ row ∈ table.entries.rows, oldest.2.rank ≤ row.2.rank)
    (h : EvictedTo (table.without oldest.1) after evicted) :
    EvictedTo table after (oldest.2 :: evicted) := by
  have hrest : ∀ session ∈ evicted ++ after.entries.rows.map Prod.snd, oldest.2.rank ≤ session.rank := by
    intro session hsession
    obtain ⟨row, hrow, rfl⟩ := List.mem_map.mp (h.perm.mem_iff.mpr hsession)
    exact hleast row (Assoc.mem_remove.mp hrow).1
  refine ⟨h.limit, h.next, ?_, ?_, ?_⟩
  · exact ((Assoc.perm_cons_remove hmem).map Prod.snd).trans (h.perm.cons oldest.2)
  · exact List.pairwise_cons.mpr ⟨fun session hsession => hrest session (List.mem_append_left _ hsession),
      h.sorted⟩
  · intro session hsession row hrow
    rcases List.mem_cons.mp hsession with rfl | hlater
    · exact hrest row.2 (List.mem_append_right _ (List.mem_map_of_mem hrow))
    · exact h.low session hlater row hrow

/-- Evicting down to the limit gets there. -/
theorem evictDown_spec (fuel : ℕ) (table : Sessions S) (hfuel : table.length ≤ fuel) :
    EvictedTo table (evictDown fuel table).1 (evictDown fuel table).2 ∧
      (evictDown fuel table).1.length = min table.length table.limit := by
  induction fuel generalizing table with
  | zero =>
    rw [Nat.le_zero.mp hfuel, Nat.zero_min]
    exact ⟨EvictedTo.refl table, Nat.le_zero.mp hfuel⟩
  | succ fuel ih =>
    rw [evictDown]
    split
    · rename_i hover
      obtain ⟨oldest, hmem, hevict, hleast⟩ := evictLeastUsed_spec (Nat.zero_lt_of_lt hover)
      have hless := length_without hmem
      rw [hevict]
      obtain ⟨hevicted, hdown⟩ := ih (table.without oldest.1) (by omega)
      refine ⟨hevicted.cons hmem hleast, hdown.trans ?_⟩
      rw [limit_without]
      omega
    · rename_i hfits
      exact ⟨EvictedTo.refl table, (min_eq_left (not_lt.mp hfits)).symm⟩

/-- New settings evict what is too much for them. -/
theorem retune_spec (table : Sessions S) (limit idleSeconds : UInt32) :
    EvictedTo { table with
        limit := (settings limit idleSeconds).1
        idle := (settings limit idleSeconds).2 }
        (table.retune limit idleSeconds).1 (table.retune limit idleSeconds).2 ∧
      (table.retune limit idleSeconds).1.length = min table.length (settings limit idleSeconds).1 := by
  exact evictDown_spec table.length _ le_rfl

theorem settings_pos (limit idleSeconds : UInt32) : 0 < (settings limit idleSeconds).1 := by
  show 0 < (if limit = 0 then defaultSessionLimit else limit).toNat
  split
  · decide
  · rename_i hlimit
    exact Nat.pos_of_ne_zero fun hzero => hlimit (UInt32.toNat_inj.mp hzero)

/-- Making room for a client: nobody leaves, or in a full table whoever was used longest ago. -/
theorem makeRoom_spec (table : Sessions S) (client : Client) (hpos : 0 < table.limit) :
    (¬ (table.limit ≤ table.length ∧ table.holds client = false) ∧
      table.makeRoom client = (table, none)) ∨
    ((table.limit ≤ table.length ∧ table.holds client = false) ∧ ∃ oldest ∈ table.entries.rows,
      table.makeRoom client = (table.without oldest.1, some oldest.2) ∧
      ∀ row ∈ table.entries.rows, oldest.2.rank ≤ row.2.rank) := by
  rw [makeRoom]
  split
  · rename_i hfull
    exact .inr ⟨hfull, evictLeastUsed_spec (hpos.trans_le hfull.1)⟩
  · rename_i hroom
    exact .inl ⟨hroom, rfl⟩

end Sessions

/-! ## What every call keeps -/

section Kept

variable {table after : Sessions S}

theorem kept_new (limit idleSeconds : UInt32) :
    Kept (Sessions.new limit idleSeconds : Sessions S) [] where
  limit_pos := Sessions.settings_pos limit idleSeconds
  bound := Nat.zero_le _
  next := rfl
  lastUse := fun _ h => absurd h List.not_mem_nil

/-- Sessions leave. -/
theorem Kept.of_subset (h : Kept table uses) (hlimit : 0 < after.limit)
    (hbound : after.length ≤ after.limit) (hnext : after.next = table.next)
    (hsubset : after.entries.rows ⊆ table.entries.rows) : Kept after uses :=
  ⟨hlimit, hbound, hnext.trans h.next, fun row hrow => h.lastUse row (hsubset hrow)⟩

/-- A session is put in or refreshed. -/
theorem Kept.use (h : Kept table uses) {session : Session S} (hrank : session.rank = table.next)
    (hbound : (table.entries.insert client session).rows.length ≤ table.limit) :
    Kept { table with
      entries := table.entries.insert client session
      next := table.next + 1 } (uses ++ [client]) := by
  refine ⟨h.limit_pos, hbound, ?_, fun row hrow => ?_⟩
  · rw [List.length_append, List.length_singleton, ← h.next]
  · rcases Assoc.mem_insert.mp hrow with rfl | ⟨hold, hother⟩
    · show LastUse _ client session.rank
      rw [hrank, h.next]
      exact lastUse_concat_self uses client
    · exact (h.lastUse row hold).concat hother

/-- Putting a session in makes the table longer by one, unless it takes the place of another one. -/
theorem length_insert (table : Sessions S) (client : Client) (session : Session S) :
    (table.entries.insert client session).rows.length =
      if table.holds client then table.length else table.length + 1 := by
  rw [(table.entries.insert_perm client session).length_eq, List.length_cons, Sessions.holds]
  cases hget : table.entries.get client with
  | none =>
    rw [Assoc.rows_remove_of_none hget]
    rfl
  | some held =>
    rw [Option.isSome_some, if_pos rfl, Sessions.length,
      (Assoc.perm_cons_remove (Assoc.get_eq_some.mp hget)).length_eq, List.length_cons]

theorem holds_eq_false_iff : table.holds client = false ↔ table.entries.get client = none := by
  rw [Sessions.holds, Option.isSome_eq_false_iff, Option.isNone_iff_eq_none]

theorem holds_without (gone : Client) (h : table.holds client = false) :
    (table.without gone).holds client = false := by
  rw [holds_eq_false_iff] at h ⊢
  refine Option.eq_none_iff_forall_ne_some.mpr fun session hget => ?_
  have hmem := (Assoc.mem_remove.mp (Assoc.get_eq_some.mp hget)).1
  exact absurd (h.symm.trans (Assoc.get_eq_some.mpr hmem)) (Option.some_ne_none session).symm

theorem Kept.insert (h : Kept table uses) (client : Client) (pool : BackendId) (member : MemberId)
    (address : SocketAddr) (socket : S) (now : ℕ) :
    Kept (table.insert client pool member address socket now).1 (uses ++ [client]) := by
  rcases table.makeRoom_spec client h.limit_pos with
    ⟨hroom, hmade⟩ | ⟨⟨hfull, hnew⟩, oldest, hmem, hmade, -⟩
  · rw [Sessions.insert, hmade]
    refine h.use rfl ?_
    rw [length_insert]
    split
    · exact h.bound
    · rename_i hheld
      have hlt : ¬ table.limit ≤ table.length := fun hfull => hroom ⟨hfull, by simpa using hheld⟩
      omega
  · rw [Sessions.insert, hmade]
    have hless := Sessions.length_without hmem
    have hkept : Kept (table.without oldest.1) uses :=
      h.of_subset h.limit_pos (by rw [Sessions.limit_without]; have := h.bound; omega) rfl
        fun row hrow => (Assoc.mem_remove.mp hrow).1
    refine hkept.use rfl ?_
    rw [length_insert, holds_without oldest.1 hnew, if_neg Bool.false_ne_true, Sessions.limit_without]
    have := h.bound
    omega

theorem Kept.refresh (h : Kept table uses) (client : Client) (now : ℕ) :
    Kept (table.refresh client now).1 (uses ++ if table.holds client then [client] else []) := by
  cases hget : table.entries.get client with
  | none =>
    rw [Sessions.refresh_of_none hget, Sessions.holds, hget]
    exact (List.append_nil uses).symm ▸ h
  | some session =>
    rw [Sessions.refresh, hget, Sessions.holds, hget]
    refine h.use rfl ?_
    rw [length_insert, Sessions.holds, hget, Option.isSome_some, if_pos rfl]
    exact h.bound

/-- A table that lets some of its sessions go. -/
theorem Kept.retain (h : Kept table uses) (keep : Client → Session S → Bool) (expired : ℕ) :
    Kept { table with
      entries := table.entries.retain keep
      expired := expired } uses := by
  refine h.of_subset h.limit_pos (le_trans ?_ h.bound) rfl fun row hrow => (Assoc.mem_retain.mp hrow).1
  exact List.length_filter_le _ _

theorem Kept.retune (h : Kept table uses) (limit idleSeconds : UInt32) :
    Kept (table.retune limit idleSeconds).1 uses := by
  obtain ⟨hevicted, hlength⟩ := table.retune_spec limit idleSeconds
  refine h.of_subset ?_ ?_ hevicted.next (Sessions.retune_subset limit idleSeconds)
  · rw [hevicted.limit]
    exact Sessions.settings_pos limit idleSeconds
  · rw [hlength, hevicted.limit]
    exact min_le_right _ _

/-- Every call keeps it. -/
theorem Kept.apply (h : Kept table uses) (op : Op S) :
    Kept (op.apply table).1 (uses ++ op.uses table) := by
  cases op with
  | insert client pool member address socket now => exact h.insert client pool member address socket now
  | refresh client now => exact h.refresh client now
  | remove client =>
    exact (List.append_nil uses).symm ▸ h.retain (fun other _ => other ≠ client) table.expired
  | retune limit idleSeconds => exact (List.append_nil uses).symm ▸ h.retune limit idleSeconds
  | expire now =>
    exact (List.append_nil uses).symm ▸ h.retain (fun _ session => session.idleFor now < table.idle) _
  | retainMembers present =>
    exact (List.append_nil uses).symm ▸
      h.retain (fun _ session => present session.pool session.member) table.expired
  | clear =>
    exact (List.append_nil uses).symm ▸ h.of_subset h.limit_pos (Nat.zero_le _) rfl
      fun _ hrow => absurd hrow List.not_mem_nil

/-- The ranks of the sessions are apart. -/
theorem Kept.eq_of_rank_eq (h : Kept table uses) {row row' : Client × Session S}
    (hrow : row ∈ table.entries.rows) (hrow' : row' ∈ table.entries.rows)
    (hrank : row.2.rank = row'.2.rank) : row = row' := by
  have hclient : row.1 = row'.1 := by
    have hlast := (h.lastUse row hrow).1
    rw [hrank, (h.lastUse row' hrow').1] at hlast
    exact (Option.some.inj hlast).symm
  exact Assoc.eq_of_fst_eq hrow hrow' hclient

theorem Kept.ranks_nodup (h : Kept table uses) :
    (table.entries.rows.map fun row => row.2.rank).Nodup :=
  table.entries.rows_nodup.map_on fun _ hrow _ hrow' => h.eq_of_rank_eq hrow hrow'

theorem Kept.older (h : Kept table uses) {row row' : Client × Session S}
    (hrow : row ∈ table.entries.rows) (hrow' : row' ∈ table.entries.rows) (hne : row' ≠ row)
    (hle : row.2.rank ≤ row'.2.rank) : Ledger.Older uses row.1 row'.1 :=
  ⟨_, _, h.lastUse row hrow, h.lastUse row' hrow',
    lt_of_le_of_ne hle fun heq => hne (h.eq_of_rank_eq hrow hrow' heq).symm⟩

end Kept

/-! ## What becomes of the sessions -/

section Conserved

variable {table : Sessions S}

/-- A session that is put in for a client without one. -/
theorem loads_insert (h : table.holds client = false) (session : Session S) :
    (((table.entries.insert client session).rows.map Prod.snd).map Session.load).Perm
      (session.load :: table.loads) := by
  have hperm := table.entries.insert_perm client session
  rw [Assoc.rows_remove_of_none (holds_eq_false_iff.mp h)] at hperm
  exact (hperm.map Prod.snd).map Session.load

theorem loads_without {row : Client × Session S} (h : row ∈ table.entries.rows) :
    table.loads.Perm (row.2.load :: (table.without row.1).loads) :=
  ((Assoc.perm_cons_remove h).map Prod.snd).map Session.load

/-- A refresh changes nothing that a session keeps. -/
theorem loads_refresh (table : Sessions S) (client : Client) (now : ℕ) :
    table.loads.Perm (table.refresh client now).1.loads := by
  cases hget : table.entries.get client with
  | none => rw [Sessions.refresh_of_none hget]
  | some session =>
    rw [Sessions.refresh, hget]
    have hbefore := ((Assoc.perm_cons_remove (Assoc.get_eq_some.mp hget)).map Prod.snd).map Session.load
    have hafter := ((table.entries.insert_perm client
      { session with used := now, rank := table.next }).map Prod.snd).map Session.load
    exact hbefore.trans hafter.symm

theorem loads_insert_call (hpos : 0 < table.limit) (hnew : table.holds client = false)
    (pool : BackendId) (member : MemberId) (address : SocketAddr) (socket : S) (now : ℕ) :
    ((pool, member, address, socket) :: table.loads).Perm
      ((table.insert client pool member address socket now).2.toList.map Session.load ++
        (table.insert client pool member address socket now).1.loads) := by
  rcases table.makeRoom_spec client hpos with ⟨-, hmade⟩ | ⟨-, oldest, hmem, hmade, -⟩
  · rw [Sessions.insert, hmade]
    exact (loads_insert hnew ⟨pool, member, address, socket, now, table.next⟩).symm
  · rw [Sessions.insert, hmade]
    have hgone := (loads_without hmem).cons (pool, member, address, socket)
    have hput := (loads_insert (holds_without oldest.1 hnew)
      ⟨pool, member, address, socket, now, table.next⟩).cons oldest.2.load
    exact (hgone.trans (List.Perm.swap _ _ _)).trans hput.symm

/-- What stays in the table and what a test sorts out. -/
theorem loads_partition (table : Sessions S) (keep : Session S → Bool) : table.loads.Perm
    ((table.partition keep).2.map Session.load ++ (table.partition keep).1.loads) := by
  have hrows := List.filter_append_perm (fun row : Client × Session S => keep row.2) table.entries.rows
  have hloads := ((hrows.map Prod.snd).map Session.load).symm
  rw [List.map_append, List.map_append] at hloads
  exact hloads.trans List.perm_append_comm

theorem loads_remove (table : Sessions S) (client : Client) : table.loads.Perm
    ((table.remove client).2.toList.map Session.load ++ (table.remove client).1.loads) := by
  cases hget : table.entries.get client with
  | none =>
    rw [Sessions.remove, hget, Sessions.loads, Sessions.loads, Assoc.rows_remove_of_none hget]
    exact List.Perm.refl _
  | some session =>
    rw [Sessions.remove, hget]
    exact ((Assoc.perm_cons_remove (Assoc.get_eq_some.mp hget)).map Prod.snd).map Session.load

/-- A call hands back what it takes out, unless it puts a session in the place of another one. -/
theorem Op.loads_apply (op : Op S) (hpos : 0 < table.limit) (hfresh : op.Fresh table) :
    (op.inserted ++ table.loads).Perm
      ((op.apply table).2.map Session.load ++ (op.apply table).1.loads) := by
  cases op with
  | insert client pool member address socket now =>
    exact loads_insert_call hpos hfresh pool member address socket now
  | refresh client now => exact loads_refresh table client now
  | remove client => exact loads_remove table client
  | retune limit idleSeconds =>
    have hperm := ((table.retune_spec limit idleSeconds).1.perm).map Session.load
    rwa [List.map_append] at hperm
  | expire now => exact loads_partition table fun session => session.idleFor now < table.idle
  | retainMembers present =>
    exact loads_partition table fun session => present session.pool session.member
  | clear => exact List.Perm.of_eq (List.append_nil _).symm

/-- A session that is put in the place of another one is one session more, and the table is no longer. -/
theorem Op.length_loads (op : Op S) (hstale : ¬ op.Fresh table) :
    (op.inserted ++ table.loads).length =
      ((op.apply table).2.map Session.load ++ (op.apply table).1.loads).length + 1 := by
  cases op with
  | insert client pool member address socket now =>
    have hheld : table.holds client = true := by simpa [Op.Fresh] using hstale
    have hmade : table.makeRoom client = (table, none) := by
      rw [Sessions.makeRoom, if_neg (fun h => Bool.false_ne_true (h.2.symm.trans hheld))]
    have hlength := length_insert table client ⟨pool, member, address, socket, now, table.next⟩
    rw [if_pos hheld] at hlength
    simp only [Op.apply, Op.inserted, Sessions.insert, hmade, Sessions.loads, List.length_append,
      List.length_map, hlength, Sessions.length, Option.toList_none, List.length_nil,
      List.length_singleton]
    omega
  | refresh | remove | retune | expire | retainMembers | clear => exact absurd trivial hstale

namespace Ledger

variable {ledger : Ledger S}

theorem Conserved.step (h : ledger.Conserved) (hpos : 0 < ledger.table.limit) {op : Op S}
    (hfresh : op.Fresh ledger.table) : (ledger.step op).Conserved := by
  have hop := op.loads_apply hpos hfresh
  show (ledger.inserted ++ op.inserted).Perm _
  rw [Ledger.step, List.map_append, List.append_assoc]
  refine ((h.append_right op.inserted).trans ?_).trans (hop.append_left _)
  rw [List.append_assoc]
  exact List.perm_append_comm.append_left _

theorem not_conserved_step (h : ledger.Conserved) {op : Op S} (hstale : ¬ op.Fresh ledger.table) :
    ¬ (ledger.step op).Conserved := by
  intro hafter
  have hbefore := h.length_eq
  have hlength := hafter.length_eq
  have hop := op.length_loads hstale
  simp only [Ledger.step, List.map_append, List.length_append, List.length_map] at hbefore hlength hop
  omega

/-- What is asked of a table with a history. -/
structure Sound (ledger : Ledger S) : Prop where
  bound : ledger.table.length ≤ ledger.table.limit
  distinct : (ledger.table.entries.rows.map fun row => row.2.rank).Nodup
  below : ∀ row ∈ ledger.table.entries.rows, row.2.rank < ledger.table.next
  /-- A rank is the place of the last insert or refresh in the order of them. -/
  lastUse : ∀ row ∈ ledger.table.entries.rows, LastUse ledger.uses row.1 row.2.rank
  /-- A new client in a full table: whoever was used longest ago leaves, and nobody else. -/
  evicts : ∀ client pool member address socket now,
    ledger.table.limit ≤ ledger.table.length → ledger.table.holds client = false →
    ∃ oldest ∈ ledger.table.entries.rows,
      (ledger.table.insert client pool member address socket now).2 = some oldest.2 ∧
      ∀ row ∈ ledger.table.entries.rows, row ≠ oldest → Older ledger.uses oldest.1 row.1 ∧
        row ∈ (ledger.table.insert client pool member address socket now).1.entries.rows
  /-- New settings: those used longest ago leave, one after another, until the others fit. -/
  retunes : ∀ limit idleSeconds,
    (ledger.table.retune limit idleSeconds).1.length =
      min ledger.table.length (Sessions.settings limit idleSeconds).1 ∧
    (ledger.table.entries.rows.map Prod.snd).Perm ((ledger.table.retune limit idleSeconds).2 ++
      (ledger.table.retune limit idleSeconds).1.entries.rows.map Prod.snd) ∧
    (ledger.table.retune limit idleSeconds).2.Pairwise (fun first second => first.rank < second.rank) ∧
    ∀ session ∈ (ledger.table.retune limit idleSeconds).2,
      ∀ row ∈ (ledger.table.retune limit idleSeconds).1.entries.rows, session.rank < row.2.rank
  conserved : ledger.Conserved

theorem evicts_of_kept (h : Kept ledger.table ledger.uses) (client : Client) (pool : BackendId)
    (member : MemberId) (address : SocketAddr) (socket : S) (now : ℕ)
    (hfull : ledger.table.limit ≤ ledger.table.length) (hnew : ledger.table.holds client = false) :
    ∃ oldest ∈ ledger.table.entries.rows,
      (ledger.table.insert client pool member address socket now).2 = some oldest.2 ∧
      ∀ row ∈ ledger.table.entries.rows, row ≠ oldest → Older ledger.uses oldest.1 row.1 ∧
        row ∈ (ledger.table.insert client pool member address socket now).1.entries.rows := by
  rcases ledger.table.makeRoom_spec client h.limit_pos with ⟨hroom, -⟩ | ⟨-, oldest, hmem, hmade, hleast⟩
  · exact absurd ⟨hfull, hnew⟩ hroom
  · refine ⟨oldest, hmem, by rw [Sessions.insert, hmade], fun row hrow hne => ?_⟩
    refine ⟨h.older hmem hrow hne (hleast row hrow), ?_⟩
    rw [Sessions.insert, hmade]
    have hother : row.1 ≠ oldest.1 := fun hsame => hne (Assoc.eq_of_fst_eq hrow hmem hsame)
    have hclient : row.1 ≠ client := fun hsame => by
      have hget : ledger.table.entries.get client = some row.2 := Assoc.get_eq_some.mpr (hsame ▸ hrow)
      exact absurd ((holds_eq_false_iff.mp hnew).symm.trans hget) (Option.some_ne_none row.2).symm
    exact Assoc.mem_insert.mpr (.inr ⟨Assoc.mem_remove.mpr ⟨hrow, hother⟩, hclient⟩)

theorem retunes_of_kept (h : Kept ledger.table ledger.uses) (limit idleSeconds : UInt32) :
    (ledger.table.retune limit idleSeconds).1.length =
      min ledger.table.length (Sessions.settings limit idleSeconds).1 ∧
    (ledger.table.entries.rows.map Prod.snd).Perm ((ledger.table.retune limit idleSeconds).2 ++
      (ledger.table.retune limit idleSeconds).1.entries.rows.map Prod.snd) ∧
    (ledger.table.retune limit idleSeconds).2.Pairwise (fun first second => first.rank < second.rank) ∧
    ∀ session ∈ (ledger.table.retune limit idleSeconds).2,
      ∀ row ∈ (ledger.table.retune limit idleSeconds).1.entries.rows, session.rank < row.2.rank := by
  obtain ⟨hevicted, hlength⟩ := ledger.table.retune_spec limit idleSeconds
  -- no rank is there twice, in the table or among what left it
  have hranks := h.ranks_nodup
  rw [← Function.comp_def Session.rank, ← List.map_map] at hranks
  have hapart := (hevicted.perm.map Session.rank).nodup_iff.mp hranks
  rw [List.map_append, List.nodup_append] at hapart
  obtain ⟨hevictedApart, -, hcross⟩ := hapart
  refine ⟨hlength, hevicted.perm, ?_, fun session hsession row hrow => ?_⟩
  · have hne := List.pairwise_map.mp hevictedApart
    exact (hevicted.sorted.and hne).imp fun hboth => lt_of_le_of_ne hboth.1 hboth.2
  · refine lt_of_le_of_ne (hevicted.low session hsession row hrow) ?_
    exact hcross _ (List.mem_map_of_mem hsession) _
      (List.mem_map_of_mem (List.mem_map_of_mem hrow))

theorem sound_of_kept (h : Kept ledger.table ledger.uses) (hconserved : ledger.Conserved) :
    ledger.Sound where
  bound := h.bound
  distinct := h.ranks_nodup
  below := fun row hrow => h.next ▸ (h.lastUse row hrow).lt
  lastUse := h.lastUse
  evicts := evicts_of_kept h
  retunes := retunes_of_kept h
  conserved := hconserved

/-- In every run the table is sound in all its states exactly if no call puts a session in for a client
that has one. -/
theorem sound_iff (limit idleSeconds : UInt32) (ops : List (Op S)) :
    (∀ first, first <+: ops → (Runs.run step (start limit idleSeconds) first).Sound) ↔
      Runs.Along step (fun ledger op => op.Fresh ledger.table) (start limit idleSeconds) ops := by
  refine @Runs.along_iff _ _ step _
    (fun ledger => Kept ledger.table ledger.uses ∧ ledger.Conserved) _
    (fun ledger h => sound_of_kept h.1 h.2) ?_ ?_ (start limit idleSeconds)
    ⟨kept_new limit idleSeconds, List.Perm.refl []⟩ ops
  · exact fun ledger op h hfresh => ⟨h.1.apply op, h.2.step h.1.limit_pos hfresh⟩
  · exact fun ledger op h hstale hsound => not_conserved_step h.2 hstale hsound.conserved

/-- A client. -/
def caller : Client := ⟨.v4 ⟨10, 0, 0, 7⟩, 40000, 0, 0⟩

/-- A session that is put in for it. -/
def putIn (socket : ℕ) (now : ℕ) : Op ℕ := .insert caller ⟨"dns"⟩ ⟨"one"⟩ ⟨.v4 ⟨10, 0, 1, 1⟩, 53⟩ socket now

/-- Two sessions for one client. Of the first one nobody hears again. -/
theorem replaced_is_lost :
    (Runs.run step (start 0 0) [putIn 1 5, putIn 2 6]).inserted.map (fun load => load.2.2.2) = [1, 2] ∧
      (Runs.run step (start 0 0) [putIn 1 5, putIn 2 6]).table.loads.map (fun load => load.2.2.2) = [2] ∧
      (Runs.run step (start 0 0) [putIn 1 5, putIn 2 6]).returned = [] ∧
      ¬ (Runs.run step (start 0 0) [putIn 1 5, putIn 2 6]).Conserved := by
  refine ⟨by decide, by decide, by decide, fun h => ?_⟩
  exact absurd h.length_eq (by decide)

end Ledger

end Conserved

end EkEk.Dataplane
