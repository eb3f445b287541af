import EkEk.Dataplane.Listeners
import EkEk.Lib.Assoc
import Mathlib.Data.List.MinMax
import Mathlib.Data.Prod.Lex

/-!
# The UDP session table

Reference: `crates/ek-ek-dataplane/src/udp.rs`.

A table remembers which member a client was sent to. It is bounded, and the session used longest ago
makes room for a new one. Sessions are ranked by a counter, so that two of them are never used at the
same time. Instants and durations are in nanoseconds.

What leaves the table is handed back to the caller, who closes its socket.
-/

namespace EkEk.Dataplane

/-- Where the datagrams of a client come from. The last two are of IPv6 addresses only. -/
structure Client where
  ip : IpAddr
  port : UInt16
  flowinfo : UInt32
  scopeId : UInt32
deriving DecidableEq, Repr

namespace Client

/-- The order of socket addresses: IPv4 first, then by address, port, flow and scope. -/
def key (client : Client) : ℕ ×ₗ ℕ ×ₗ ℕ ×ₗ ℕ ×ₗ ℕ :=
  let (family, address) : ℕ × ℕ := match client.ip with
    | .v4 address => (0, address.toNat)
    | .v6 address => (1, address.toNat)
  toLex (family, toLex (address, toLex (client.port.toNat, toLex (client.flowinfo.toNat,
    client.scopeId.toNat))))

/-- A socket address as it is printed. -/
def display (client : Client) : String :=
  match client.ip with
  | .v4 address => address.display ++ ":" ++ toString client.port.toNat
  | .v6 address =>
    let scope := if client.scopeId = 0 then "" else "%" ++ toString client.scopeId.toNat
    "[" ++ Ipv6.display address ++ scope ++ "]:" ++ toString client.port.toNat

end Client

/-- Sessions a frontend keeps when its configuration names no limit. -/
def defaultSessionLimit : UInt32 := 16384

/-- How long a session may sit idle when its frontend names no timeout. -/
def defaultIdleSeconds : UInt32 := 120

/-- What one client is pinned to. -/
structure Session (S : Type) where
  pool : BackendId
  member : MemberId
  address : SocketAddr
  socket : S
  used : ℕ
  rank : ℕ
deriving DecidableEq, Repr

/-- Where a session leads: its pool, its member and the address of the member. -/
def Session.pin {S : Type} (session : Session S) : BackendId × MemberId × SocketAddr :=
  (session.pool, session.member, session.address)

/-- How long a session has been idle. -/
def Session.idleFor {S : Type} (session : Session S) (now : ℕ) : ℕ := now - session.used

/-- One frontend's sessions, bounded and ordered by use. -/
structure Sessions (S : Type) where
  entries : Assoc Client (Session S)
  limit : ℕ
  idle : ℕ
  /-- The next rank to hand out. -/
  next : ℕ
  evicted : ℕ
  expired : ℕ
deriving DecidableEq, Repr

namespace Sessions

variable {S : Type}

/-- The settings a table runs with. Zero means the default for both. -/
def settings (limit idleSeconds : UInt32) : ℕ × ℕ :=
  let limit := if limit = 0 then defaultSessionLimit else limit
  let idleSeconds := if idleSeconds = 0 then defaultIdleSeconds else idleSeconds
  (limit.toNat, idleSeconds.toNat * 10 ^ 9)

/-- A table from a frontend's settings. -/
def new (limit idleSeconds : UInt32) : Sessions S where
  entries := .empty
  limit := (settings limit idleSeconds).1
  idle := (settings limit idleSeconds).2
  next := 0
  evicted := 0
  expired := 0

/-- How many sessions the table holds. -/
def length (sessions : Sessions S) : ℕ := sessions.entries.rows.length

/-- Remove the session used longest ago. -/
def evictLeastUsed (sessions : Sessions S) : Sessions S × Option (Session S) :=
  match sessions.entries.rows.argmin fun row => toLex (row.2.rank, row.1.key) with
  | some oldest =>
    ({ sessions with
      entries := sessions.entries.remove oldest.1
      evicted := sessions.evicted + 1 }, some oldest.2)
  | none => (sessions, none)

/-- Evict down to the limit, at most so many times. -/
def evictDown : ℕ → Sessions S → Sessions S × List (Session S)
  | 0, sessions => (sessions, [])
  | fuel + 1, sessions =>
    if sessions.limit < sessions.length then
      match sessions.evictLeastUsed with
      | (rest, some session) => ((evictDown fuel rest).1, session :: (evictDown fuel rest).2)
      | (rest, none) => (rest, [])
    else (sessions, [])

/-- Apply settings from a configuration that has changed. Each round of evictions takes one session
out, so there are no more rounds than sessions. -/
def retune (sessions : Sessions S) (limit idleSeconds : UInt32) : Sessions S × List (Session S) :=
  evictDown sessions.length { sessions with
    limit := (settings limit idleSeconds).1
    idle := (settings limit idleSeconds).2 }

/-- Whether a client has a session. -/
def holds (sessions : Sessions S) (client : Client) : Bool := (sessions.entries.get client).isSome

/-- The session a client has, refreshing its place in the use order. -/
def refresh (sessions : Sessions S) (client : Client) (now : ℕ) : Sessions S × Option (Session S) :=
  match sessions.entries.get client with
  | some session =>
    let session := { session with used := now, rank := sessions.next }
    ({ sessions with
      entries := sessions.entries.insert client session
      next := sessions.next + 1 }, some session)
  | none => (sessions, none)

/-- Make room for a client that has no session if the table is full. -/
def makeRoom (sessions : Sessions S) (client : Client) : Sessions S × Option (Session S) :=
  if sessions.limit ≤ sessions.length ∧ sessions.holds client = false then sessions.evictLeastUsed
  else (sessions, none)

/-- Put a session in, making room first when the table is full. -/
def insert (sessions : Sessions S) (client : Client) (pool : BackendId) (member : MemberId)
    (address : SocketAddr) (socket : S) (now : ℕ) : Sessions S × Option (Session S) :=
  let made := sessions.makeRoom client
  ({ made.1 with
    entries := made.1.entries.insert client ⟨pool, member, address, socket, now, made.1.next⟩
    next := made.1.next + 1 }, made.2)

/-- Drop the session a client holds. -/
def remove (sessions : Sessions S) (client : Client) : Sessions S × Option (Session S) :=
  ({ sessions with entries := sessions.entries.remove client }, sessions.entries.get client)

/-- Keep the sessions that pass a test, and hand the others back. -/
def partition (sessions : Sessions S) (keep : Session S → Bool) : Sessions S × List (Session S) :=
  ({ sessions with entries := sessions.entries.retain fun _ session => keep session },
    (sessions.entries.rows.filter fun row => !keep row.2).map Prod.snd)

/-- Drop every session that has been idle too long. -/
def expire (sessions : Sessions S) (now : ℕ) : Sessions S × List (Session S) :=
  let (kept, dropped) := sessions.partition fun session => session.idleFor now < sessions.idle
  ({ kept with expired := sessions.expired + dropped.length }, dropped)

/-- Empty the table. -/
def clear (sessions : Sessions S) : Sessions S × List (Session S) :=
  ({ sessions with entries := .empty }, sessions.entries.rows.map Prod.snd)

/-- Drop every session pinned to a member that is no longer there. -/
def retainMembers (sessions : Sessions S) (present : BackendId → MemberId → Bool) :
    Sessions S × List (Session S) :=
  sessions.partition fun session => present session.pool session.member

/-! ## What stays and what leaves -/

variable {sessions : Sessions S} {client : Client} {row : Client × Session S} {now : ℕ}

theorem evictLeastUsed_subset (sessions : Sessions S) :
    sessions.evictLeastUsed.1.entries.rows ⊆ sessions.entries.rows := by
  intro row hrow
  rw [evictLeastUsed] at hrow
  split at hrow
  · exact (Assoc.mem_remove.mp hrow).1
  · exact hrow

theorem evictDown_subset (fuel : ℕ) (sessions : Sessions S) :
    (evictDown fuel sessions).1.entries.rows ⊆ sessions.entries.rows := by
  induction fuel generalizing sessions with
  | zero => exact List.Subset.refl _
  | succ fuel ih =>
    rw [evictDown]
    split
    · have hevicted := evictLeastUsed_subset sessions
      split
      · rename_i heq
        rw [heq] at hevicted
        exact List.Subset.trans (ih _) hevicted
      · rename_i heq
        rw [heq] at hevicted
        exact hevicted
    · exact List.Subset.refl _

/-- New settings let nobody in. -/
theorem retune_subset (limit idleSeconds : UInt32) :
    (sessions.retune limit idleSeconds).1.entries.rows ⊆ sessions.entries.rows :=
  evictDown_subset _ _

theorem mem_expire : row ∈ (sessions.expire now).1.entries.rows ↔
    row ∈ sessions.entries.rows ∧ row.2.idleFor now < sessions.idle := by
  show row ∈ (sessions.entries.retain _).rows ↔ _
  rw [Assoc.mem_retain, decide_eq_true_eq]

theorem mem_retainMembers {present : BackendId → MemberId → Bool} :
    row ∈ (sessions.retainMembers present).1.entries.rows ↔
      row ∈ sessions.entries.rows ∧ present row.2.pool row.2.member = true :=
  Assoc.mem_retain

/-- A new session is the client's, and everybody else was there before. -/
theorem mem_of_mem_insert {pool : BackendId} {member : MemberId} {address : SocketAddr} {socket : S}
    (h : row ∈ (sessions.insert client pool member address socket now).1.entries.rows) :
    (row.1 = client ∧ row.2.pool = pool ∧ row.2.member = member ∧ row.2.address = address) ∨
      row ∈ sessions.entries.rows := by
  have hroom : (sessions.makeRoom client).1.entries.rows ⊆ sessions.entries.rows := by
    rw [makeRoom]
    split
    · exact evictLeastUsed_subset sessions
    · exact List.Subset.refl _
  rcases Assoc.mem_insert.mp h with rfl | ⟨hold, -⟩
  · exact .inl ⟨rfl, rfl, rfl, rfl⟩
  · exact .inr (hroom hold)

/-- Only a full table drops anybody for a new session. -/
theorem mem_insert_of_mem {pool : BackendId} {member : MemberId} {address : SocketAddr} {socket : S}
    (hroom : sessions.length < sessions.limit) (hother : row.1 ≠ client)
    (h : row ∈ sessions.entries.rows) :
    row ∈ (sessions.insert client pool member address socket now).1.entries.rows := by
  have hmade : sessions.makeRoom client = (sessions, none) := by
    rw [makeRoom, if_neg]
    rintro ⟨hfull, -⟩
    omega
  refine Assoc.mem_insert.mpr (.inr ⟨?_, hother⟩)
  rw [hmade]
  exact h

theorem refresh_of_none (h : sessions.entries.get client = none) (now : ℕ) :
    sessions.refresh client now = (sessions, none) := by
  rw [refresh, h]

/-- A client that is not found by a datagram has no session. -/
theorem holds_eq_false (h : (sessions.refresh client now).2 = none) : sessions.holds client = false := by
  rw [refresh] at h
  split at h
  · cases h
  · rename_i hheld
    rw [holds, hheld, Option.isSome_none]

/-- A datagram leaves everybody pinned to what they were pinned to. -/
theorem mem_refresh_iff (now : ℕ) {pin : BackendId × MemberId × SocketAddr} {other : Client} :
    (∃ session, (other, session) ∈ (sessions.refresh client now).1.entries.rows ∧ session.pin = pin) ↔
      ∃ session, (other, session) ∈ sessions.entries.rows ∧ session.pin = pin := by
  cases hheld : sessions.entries.get client with
  | none => rw [refresh_of_none hheld]
  | some held =>
    have hmem := Assoc.get_eq_some.mp hheld
    have hentries : (sessions.refresh client now).1.entries =
        sessions.entries.insert client { held with used := now, rank := sessions.next } := by
      rw [refresh, hheld]
    rw [hentries]
    constructor
    · rintro ⟨session, hsession, hpin⟩
      rcases Assoc.mem_insert.mp hsession with heq | ⟨hold, -⟩
      · obtain ⟨rfl, rfl⟩ := Prod.mk.inj heq
        exact ⟨held, hmem, hpin⟩
      · exact ⟨session, hold, hpin⟩
    · rintro ⟨session, hsession, hpin⟩
      by_cases hclient : other = client
      · subst hclient
        obtain rfl : session = held :=
          Option.some.inj ((Assoc.get_eq_some.mpr hsession).symm.trans hheld)
        exact ⟨_, Assoc.mem_insert.mpr (.inl rfl), hpin⟩
      · exact ⟨session, Assoc.mem_insert.mpr (.inr ⟨hsession, hclient⟩), hpin⟩

end Sessions

end EkEk.Dataplane
