import EkEk.Dataplane.Live
import EkEk.Dataplane.Opening
import EkEk.Dataplane.Proxy
import EkEk.Dataplane.ProxyProto

/-!
# Connections that are passed on byte by byte

Reference: `crates/ek-ek-dataplane/src/stream.rs`.

A connection is routed once, from the configuration it found when it came. The member it goes to is sent
the header that states the client, then what was read to route it, then what the client sends; what the
member answers goes back. Everything the outside does may come at any point: reads, writes that fail in
the middle, either side going away, other connections, deliveries.

`relayed_run` says what each side has been sent, and `counted_run` that the balancer counts the connections
that are passed on, and no others.
-/

namespace EkEk.Dataplane

namespace StreamProxy

open ProxyProto (announced Header)

/-- What one connection was routed to. -/
structure Routed where
  pool : BackendId
  member : MemberId
  address : SocketAddr
  connectTimeout : Option ℕ
  idleTimeout : Option ℕ
  proxyProtocol : ProxyProtocol
  logged : Bool
deriving DecidableEq, Repr

/-- What the record of a connection says. -/
structure Access where
  pool : BackendId
  member : MemberId
  sni : Option String
  up : ℕ
  down : ℕ
deriving DecidableEq, Repr

/-- How far a connection has come. -/
inductive Stage where
  | waiting
  | connecting
  | announcing
  | forwarding
  | coupled
  | done
deriving DecidableEq, Repr

/-- One connection, with what was read from either side and what was written to it. -/
structure Conn where
  live : Live
  ends : Option (SocketAddr × SocketAddr)
  stage : Stage
  routed : Option Routed
  opened : Option Opening
  received : List UInt8
  sent : List UInt8
  replied : List UInt8
  returned : List UInt8
  toBackend : ℕ
  fromBackend : ℕ
  record : Option Access

/-- What the connections of a frontend share. -/
structure Shared where
  live : Live
  balancer : Balancer
  seen : UInt64

section

variable (toLowercase : String → String)

/-- The pool for a name: that of the first rule that covers it, or else the default. -/
def poolFor (frontend : Frontend) (askedFor : Option String) : Option BackendId :=
  (askedFor.bind fun name =>
    (frontend.sniRules.find? fun rule => Route.hostMatches toLowercase rule.sniPattern name).map
      SniRule.backend).or
      frontend.defaultBackend

/-- Decide where a connection goes. -/
def route (name : FrontendId) (shared : Shared) (live : Live) (client : IpAddr) (askedFor : Option String) :
    Shared × Option Routed :=
  match live.frontend name with
  | none => (shared, none)
  | some frontend =>
    match (poolFor toLowercase frontend askedFor).bind fun backend => live.pool backend with
    | none => (shared, none)
    | some pool =>
      match shared.balancer.choose pool (live.ring pool.id) client with
      | (balancer, none) => ({ shared with balancer }, none)
      | (balancer, some member) =>
        ({ shared with balancer, seen := shared.seen + 1 }, some
          { pool := pool.id
            member := member.id
            address := ⟨member.address, member.port⟩
            connectTimeout := Proxy.limitOf frontend.connectTimeoutSeconds
            idleTimeout := Proxy.limitOf frontend.idleTimeoutSeconds
            proxyProtocol := frontend.proxyProtocol
            logged := Proxy.writes frontend.accessLog shared.seen })

end

/-! ## What happens to a connection -/

/-- What the outside does to one connection: the reads it is routed by, whether the member accepts it, how
the next write ends, bytes from either side and how writing them ends, a quiet stretch that may cut off a
write, and either side going away or breaking. A write that fails has written some bytes before. -/
inductive Happening where
  | arrived (reads : List Chunk)
  | connected (ok : Bool)
  | wrote (failed : Option ℕ)
  | up (bytes : List UInt8) (failed : Option ℕ)
  | down (bytes : List UInt8) (failed : Option ℕ)
  | idleUp (bytes : List UInt8) (written : ℕ)
  | idleDown (bytes : List UInt8) (written : ℕ)
  | closed
  | broken

/-- What a write leaves on the wire. -/
def written (bytes : List UInt8) : Option ℕ → List UInt8
  | none => bytes
  | some count => bytes.take count

namespace Conn

/-- A connection that was accepted. It holds on to the configuration it found. -/
def accept (live : Live) (ends : Option (SocketAddr × SocketAddr)) : Conn :=
  ⟨live, ends, .waiting, none, none, [], [], [], [], 0, 0, none⟩

/-- The address a connection came from. -/
def clientAddress (c : Conn) : IpAddr := (c.ends.map fun ends => ends.1.ip).getD (.v4 ⟨0, 0, 0, 0⟩)

/-- The header the member is sent. -/
def head (c : Conn) : List UInt8 :=
  ((c.routed.bind fun routed => announced routed.proxyProtocol c.ends).map Header.bytes).getD []

/-- What was read to route the connection. -/
def hello (c : Conn) : List UInt8 := (c.opened.map Opening.read).getD []

/-- Bytes on their way to the member. -/
def upward (c : Conn) (bytes : List UInt8) (failed : Option ℕ) : Conn :=
  { c with received := c.received ++ bytes, sent := c.sent ++ written bytes failed }

/-- Bytes on their way to the client. -/
def downward (c : Conn) (bytes : List UInt8) (failed : Option ℕ) : Conn :=
  { c with replied := c.replied ++ bytes, returned := c.returned ++ written bytes failed }

/-- The end of a connection that was passed on, with the bytes that were counted if it did not break. -/
def finish (c : Conn) (moved : Option (ℕ × ℕ)) : Conn :=
  let (up, down) := moved.getD (0, 0)
  { c with
    stage := .done
    record := (c.routed.filter Routed.logged).map fun routed =>
      ⟨routed.pool, routed.member, c.opened.bind Opening.askedFor, up + c.hello.length, down⟩ }

end Conn

section

variable (toLowercase : String → String) (name : FrontendId) (passthrough : Bool)

/-- Read the name on a passthrough frontend, and decide where the connection goes. -/
def start (shared : Shared) (c : Conn) (reads : List Chunk) : Shared × Conn :=
  match if passthrough then (opening [] reads).map some else .ok none with
  | .error _ => (shared, { c with stage := .done })
  | .ok opened =>
    let (shared, routed) := route toLowercase name shared c.live c.clientAddress
      (opened.bind Opening.askedFor)
    (shared, { c with
      stage := if routed.isSome then .connecting else .done
      routed := routed
      opened := opened
      received := (opened.map Opening.read).getD [] })

/-- The connection counts from here on. -/
def Shared.open (shared : Shared) (routed : Option Routed) : Shared :=
  match routed with
  | some routed => { shared with balancer := shared.balancer.opened name routed.pool routed.member }
  | none => shared

/-- The connection counts no more. -/
def Shared.close (shared : Shared) (routed : Option Routed) : Shared :=
  match routed with
  | some routed => { shared with balancer := shared.balancer.closed name routed.pool routed.member }
  | none => shared

/-- One thing that happens to a connection, if it can happen where the connection is. -/
def step (shared : Shared) (c : Conn) (happening : Happening) : Shared × Conn :=
  match c.stage, happening with
  | .waiting, .arrived reads => start toLowercase name passthrough shared c reads
  | .connecting, .connected ok => (shared, { c with stage := if ok then .announcing else .done })
  | .announcing, .wrote failed =>
    -- where there is no header nothing is written, and nothing fails
    let whole := c.head = [] ∨ failed = none
    (shared, { c with
      sent := c.sent ++ written c.head failed
      stage := if whole then .forwarding else .done })
  | .forwarding, .wrote failed =>
    let c' := { c with sent := c.sent ++ written c.hello failed }
    if c.hello = [] ∨ failed = none then (shared.open name c.routed, { c' with stage := .coupled })
    else (shared, { c' with stage := .done })
  | .coupled, .up bytes none =>
    let c := c.upward bytes none
    (shared, { c with toBackend := c.toBackend + bytes.length })
  | .coupled, .down bytes none =>
    let c := c.downward bytes none
    (shared, { c with fromBackend := c.fromBackend + bytes.length })
  | .coupled, .up bytes failed => (shared.close name c.routed, (c.upward bytes failed).finish none)
  | .coupled, .down bytes failed => (shared.close name c.routed, (c.downward bytes failed).finish none)
  | .coupled, .idleUp bytes count =>
    (shared.close name c.routed, (c.upward bytes (some count)).finish (some (c.toBackend, c.fromBackend)))
  | .coupled, .idleDown bytes count =>
    (shared.close name c.routed, (c.downward bytes (some count)).finish (some (c.toBackend, c.fromBackend)))
  | .coupled, .closed => (shared.close name c.routed, c.finish (some (c.toBackend, c.fromBackend)))
  | .coupled, .broken => (shared.close name c.routed, c.finish none)
  | _, _ => (shared, c)

end

/-! ## The frontend -/

/-- The connections of a frontend, in the order they came, and what they share. -/
structure State where
  shared : Shared
  conns : List Conn

/-- What happens to a frontend and around it. -/
inductive Event where
  | accept (ends : Option (SocketAddr × SocketAddr))
  | happens (place : ℕ) (happening : Happening)
  | deliver (update : ConfigUpdate)
  | balance (event : Balancer.Event)

/-- A frontend nobody has connected to. -/
def State.new (live : Live) (balancer : Balancer) : State := ⟨⟨live, balancer, 0⟩, []⟩

section

variable (toLowercase : String → String) (name : FrontendId) (passthrough : Bool)

/-- One event. -/
def State.step (s : State) : Event → State
  | .accept ends => { s with conns := s.conns ++ [.accept s.shared.live ends] }
  | .happens place happening =>
    match s.conns[place]? with
    | none => s
    | some c =>
      let (shared, c) := StreamProxy.step toLowercase name passthrough s.shared c happening
      ⟨shared, s.conns.set place c⟩
  | .deliver update => { s with shared := { s.shared with live := (s.shared.live.apply update).1 } }
  | .balance event => { s with shared := { s.shared with balancer := s.shared.balancer.step event } }

end

/-! ## What either side was sent -/

section

variable {toLowercase : String → String} {name : FrontendId} {passthrough : Bool} {shared : Shared} {c : Conn}
  {happening : Happening} {bytes : List UInt8} {failed : Option ℕ}

theorem written_begins (bytes : List UInt8) (failed : Option ℕ) : written bytes failed <+: bytes := by
  cases failed with
  | none => exact List.prefix_refl bytes
  | some count => exact List.take_prefix count bytes

/-- A write that does not fail, or that there is nothing to do for. -/
theorem written_of_whole (h : bytes = [] ∨ failed = none) : written bytes failed = bytes := by
  rcases h with rfl | rfl
  · exact List.prefix_nil.mp (written_begins [] failed)
  · rfl

/-- Nothing has been passed on yet. -/
def Quiet (c : Conn) : Prop := c.replied = [] ∧ c.returned = [] ∧ c.toBackend = 0 ∧ c.fromBackend = 0

/-- What is known of a connection where it is. -/
def AtStage (c : Conn) : Prop :=
  match c.stage with
  | .waiting => c.routed = none ∧ c.received = [] ∧ c.sent = [] ∧ Quiet c
  | .connecting | .announcing => c.routed.isSome ∧ c.received = c.hello ∧ c.sent = [] ∧ Quiet c
  | .forwarding => c.routed.isSome ∧ c.received = c.hello ∧ c.sent = c.head ∧ Quiet c
  | .coupled =>
    c.routed.isSome ∧ c.hello <+: c.received ∧ c.sent = c.head ++ c.received ∧ c.returned = c.replied ∧
      c.received.length = c.hello.length + c.toBackend ∧ c.returned.length = c.fromBackend
  | .done => True

/-- The member is one of the pool that a configuration names for what a connection asked for. -/
def Chosen (toLowercase : String → String) (name : FrontendId) (live : Live) (askedFor : Option String)
    (routed : Routed) : Prop :=
  ∃ frontend pool member, live.frontend name = some frontend ∧
    poolFor toLowercase frontend askedFor = some pool.id ∧ live.pool pool.id = some pool ∧
    member ∈ enabled pool ∧ routed.pool = pool.id ∧ routed.member = member.id ∧
    routed.address = ⟨member.address, member.port⟩ ∧ routed.proxyProtocol = frontend.proxyProtocol

/-- What holds of a connection wherever it is: the member was sent the header and then what the client
sent, or a part of that from the beginning, the client was sent what the member answered, or a part of it,
and neither was sent anything unless the connection was routed. -/
structure Relayed (toLowercase : String → String) (name : FrontendId) (c : Conn) : Prop where
  up : c.sent <+: c.head ++ c.received
  down : c.returned <+: c.replied
  refused : c.routed = none → c.sent = [] ∧ c.returned = []
  chosen : ∀ routed, c.routed = some routed →
    Chosen toLowercase name c.live (c.opened.bind Opening.askedFor) routed
  recorded : ∀ record, c.record = some record →
    record.up + c.head.length ≤ c.sent.length ∧ record.down ≤ c.returned.length
  unrecorded : c.stage ≠ .done → c.record = none
  stage : AtStage c

theorem relayed_accept (live : Live) (ends : Option (SocketAddr × SocketAddr)) :
    Relayed toLowercase name (.accept live ends) where
  up := List.nil_prefix
  down := List.nil_prefix
  refused := fun _ => ⟨rfl, rfl⟩
  chosen := fun _ h => absurd h.symm (Option.some_ne_none _)
  recorded := fun _ h => absurd h.symm (Option.some_ne_none _)
  unrecorded := fun _ => rfl
  stage := ⟨rfl, rfl, rfl, rfl, rfl, rfl, rfl⟩

theorem route_chosen {live : Live} {client : IpAddr} {askedFor : Option String} {routed : Routed}
    (h : (route toLowercase name shared live client askedFor).2 = some routed) :
    Chosen toLowercase name live askedFor routed := by
  rw [route] at h
  split at h
  · cases h
  · rename_i frontend hfrontend
    split at h
    · cases h
    · rename_i pool hpool
      obtain ⟨id, hid, hfound⟩ := Option.bind_eq_some_iff.mp hpool
      obtain rfl := (Live.pool_eq_some hfound).2
      split at h
      · cases h
      · rename_i balancer member hchosen
        obtain rfl := Option.some.inj h
        have hmember := Balancer.mem_enabled_of_chooseBy (congrArg Prod.snd hchosen)
        exact ⟨frontend, pool, member, hfrontend, hid, hfound, hmember, rfl, rfl, rfl, rfl⟩

/-- A connection that is routed has been sent nothing yet. -/
theorem Relayed.start (h : Relayed toLowercase name c) (hstage : c.stage = .waiting) (reads : List Chunk) :
    Relayed toLowercase name (start toLowercase name passthrough shared c reads).2 := by
  have hrecord := h.unrecorded (by rw [hstage]; decide)
  have hat := h.stage
  rw [AtStage, hstage] at hat
  obtain ⟨hrouted, hreceived, hsent, hquiet⟩ := hat
  rw [StreamProxy.start]
  split
  · exact ⟨h.up, h.down, h.refused, h.chosen, h.recorded, fun _ => hrecord, trivial⟩
  · rename_i opened hopened
    dsimp only
    refine ⟨?_, h.down, fun _ => ⟨hsent, hquiet.2.1⟩, fun routed hchosen => route_chosen hchosen, ?_,
      fun _ => hrecord, ?_⟩
    · rw [hsent]
      exact List.nil_prefix
    · intro record hsome
      rw [hrecord] at hsome
      cases hsome
    · cases hchosen : (route toLowercase name shared c.live c.clientAddress
        (opened.bind Opening.askedFor)).2 with
      | none => trivial
      | some routed => exact ⟨rfl, rfl, hsent, hquiet⟩

/-- Bytes that follow what was sent, up to where a write failed. -/
theorem append_written (front : List UInt8) {sent received : List UInt8} (h : sent = front ++ received)
    (bytes : List UInt8)
    (failed : Option ℕ) : sent ++ written bytes failed <+: front ++ (received ++ bytes) := by
  rw [h, List.append_assoc]
  exact (List.prefix_append_right_inj front).mpr
    ((List.prefix_append_right_inj received).mpr (written_begins bytes failed))

/-- A connection that is passed on, or was until a write failed. -/
structure Carried (toLowercase : String → String) (name : FrontendId) (c : Conn) : Prop where
  up : c.sent <+: c.head ++ c.received
  down : c.returned <+: c.replied
  routed : c.routed.isSome
  chosen : ∀ routed, c.routed = some routed →
    Chosen toLowercase name c.live (c.opened.bind Opening.askedFor) routed
  countedUp : c.head.length + c.hello.length + c.toBackend ≤ c.sent.length
  countedDown : c.fromBackend ≤ c.returned.length

theorem Relayed.carried (h : Relayed toLowercase name c) (hstage : c.stage = .coupled) :
    Carried toLowercase name c := by
  have hat := h.stage
  rw [AtStage, hstage] at hat
  obtain ⟨hrouted, -, hsent, -, hup, hdown⟩ := hat
  refine ⟨h.up, h.down, hrouted, h.chosen, ?_, hdown.ge⟩
  rw [hsent, List.length_append, hup]
  omega

theorem Relayed.upward (h : Relayed toLowercase name c) (hstage : c.stage = .coupled) (bytes : List UInt8)
    (failed : Option ℕ) : Carried toLowercase name (c.upward bytes failed) := by
  have hcarried := h.carried hstage
  have hat := h.stage
  rw [AtStage, hstage] at hat
  refine ⟨append_written _ hat.2.2.1 bytes failed, h.down, hcarried.routed, h.chosen, ?_,
    hcarried.countedDown⟩
  exact hcarried.countedUp.trans (List.prefix_append _ _).length_le

theorem Relayed.downward (h : Relayed toLowercase name c) (hstage : c.stage = .coupled) (bytes : List UInt8)
    (failed : Option ℕ) : Carried toLowercase name (c.downward bytes failed) := by
  have hcarried := h.carried hstage
  have hat := h.stage
  rw [AtStage, hstage] at hat
  refine ⟨h.up, append_written [] hat.2.2.2.1 bytes failed, hcarried.routed, h.chosen,
    hcarried.countedUp, ?_⟩
  exact hcarried.countedDown.trans (List.prefix_append _ _).length_le

/-- What was counted was sent. -/
theorem Carried.finish (h : Carried toLowercase name c) {moved : Option (ℕ × ℕ)}
    (hmoved : ∀ counts, moved = some counts → counts = (c.toBackend, c.fromBackend)) :
    Relayed toLowercase name (c.finish moved) := by
  refine ⟨h.up, h.down, fun hnone => ?_, h.chosen, fun record hrecord => ?_, fun hdone => absurd rfl hdone,
    trivial⟩
  · exact absurd h.routed (by rw [show c.routed = none from hnone]; decide)
  · obtain ⟨routed, -, rfl⟩ := Option.map_eq_some_iff.mp hrecord
    have hup := h.countedUp
    have hdown := h.countedDown
    show (moved.getD (0, 0)).1 + c.hello.length + c.head.length ≤ c.sent.length ∧
      (moved.getD (0, 0)).2 ≤ c.returned.length
    cases moved with
    | none =>
      rw [Option.getD_none]
      omega
    | some counts =>
      rw [Option.getD_some, hmoved counts rfl]
      omega

/-- A connection that was routed and has not ended. -/
theorem relayed_of_routed (hrouted : c.routed.isSome)
    (hchosen : ∀ routed, c.routed = some routed →
      Chosen toLowercase name c.live (c.opened.bind Opening.askedFor) routed)
    (hrecord : c.record = none) (hup : c.sent <+: c.head ++ c.received) (hdown : c.returned <+: c.replied)
    (hstage : AtStage c) : Relayed toLowercase name c where
  up := hup
  down := hdown
  refused := fun hnone => absurd hrouted (by rw [hnone]; decide)
  chosen := hchosen
  recorded := fun record hsome => absurd (hrecord.symm.trans hsome) (Option.some_ne_none record).symm
  unrecorded := fun _ => hrecord
  stage := hstage

/-- The write of the header. -/
theorem Relayed.announce (h : Relayed toLowercase name c) (hstage : c.stage = .announcing)
    (failed : Option ℕ) : Relayed toLowercase name { c with
      sent := c.sent ++ written c.head failed
      stage := if c.head = [] ∨ failed = none then .forwarding else .done } := by
  have hrecord := h.unrecorded (by rw [hstage]; decide)
  have hat := h.stage
  rw [AtStage, hstage] at hat
  obtain ⟨hrouted, hreceived, hsent, hquiet⟩ := hat
  have hwritten : c.sent ++ written c.head failed <+: c.head := by
    rw [hsent, List.nil_append]
    exact written_begins c.head failed
  refine relayed_of_routed hrouted h.chosen hrecord (hwritten.trans (List.prefix_append _ _)) h.down ?_
  by_cases hwhole : c.head = [] ∨ failed = none
  · have hall : c.sent ++ written c.head failed = c.head := by
      rw [hsent, written_of_whole hwhole, List.nil_append]
    simp only [AtStage, if_pos hwhole]
    exact ⟨hrouted, hreceived, hall, hquiet⟩
  · simp only [AtStage, if_neg hwhole]

/-- The write of what was read to route the connection. -/
theorem Relayed.forward (h : Relayed toLowercase name c) (hstage : c.stage = .forwarding)
    (failed : Option ℕ) :
    Relayed toLowercase name { c with sent := c.sent ++ written c.hello failed, stage := .done } ∧
      (c.hello = [] ∨ failed = none →
        Relayed toLowercase name { c with sent := c.sent ++ written c.hello failed, stage := .coupled }) := by
  have hrecord := h.unrecorded (by rw [hstage]; decide)
  have hat := h.stage
  rw [AtStage, hstage] at hat
  obtain ⟨hrouted, hreceived, hsent, hreplied, hreturned, hup, hdown⟩ := hat
  have hwritten : c.sent ++ written c.hello failed <+: c.head ++ c.received := by
    rw [hsent, hreceived]
    exact (List.prefix_append_right_inj c.head).mpr (written_begins c.hello failed)
  refine ⟨relayed_of_routed hrouted h.chosen hrecord hwritten h.down trivial, fun hwhole => ?_⟩
  refine relayed_of_routed hrouted h.chosen hrecord hwritten h.down ⟨hrouted, ?_, ?_, ?_, ?_, ?_⟩
  · exact hreceived ▸ List.prefix_refl _
  · show c.sent ++ written c.hello failed = c.head ++ c.received
    rw [hsent, written_of_whole hwhole, hreceived]
  · exact hreturned.trans hreplied.symm
  · show c.received.length = c.hello.length + c.toBackend
    rw [hreceived, hup, Nat.add_zero]
  · show c.returned.length = c.fromBackend
    rw [hreturned, hdown, List.length_nil]

/-- Bytes of the client that arrive at the member. -/
theorem Relayed.moveUp (h : Relayed toLowercase name c) (hstage : c.stage = .coupled) (bytes : List UInt8) :
    Relayed toLowercase name { c.upward bytes none with toBackend := c.toBackend + bytes.length } := by
  have hrecord := h.unrecorded (by rw [hstage]; decide)
  have hcarried := h.upward hstage bytes none
  have hat := h.stage
  rw [AtStage, hstage] at hat
  obtain ⟨hrouted, hhello, hsent, hreturned, hup, hdown⟩ := hat
  refine relayed_of_routed hrouted h.chosen hrecord hcarried.up h.down ?_
  rw [AtStage, show (c.upward bytes none).stage = .coupled from hstage]
  refine ⟨hrouted, hhello.trans (List.prefix_append _ _), ?_, hreturned, ?_, hdown⟩
  · show c.sent ++ bytes = c.head ++ (c.received ++ bytes)
    rw [hsent, List.append_assoc]
  · show (c.received ++ bytes).length = c.hello.length + (c.toBackend + bytes.length)
    rw [List.length_append, hup, Nat.add_assoc]

/-- Bytes of the member that arrive at the client. -/
theorem Relayed.moveDown (h : Relayed toLowercase name c) (hstage : c.stage = .coupled) (bytes : List UInt8) :
    Relayed toLowercase name { c.downward bytes none with fromBackend := c.fromBackend + bytes.length } := by
  have hrecord := h.unrecorded (by rw [hstage]; decide)
  have hcarried := h.downward hstage bytes none
  have hat := h.stage
  rw [AtStage, hstage] at hat
  obtain ⟨hrouted, hhello, hsent, hreturned, hup, hdown⟩ := hat
  refine relayed_of_routed hrouted h.chosen hrecord h.up hcarried.down ?_
  rw [AtStage, show (c.downward bytes none).stage = .coupled from hstage]
  refine ⟨hrouted, hhello, hsent, ?_, hup, ?_⟩
  · show c.returned ++ bytes = c.replied ++ bytes
    rw [hreturned]
  · show (c.returned ++ bytes).length = c.fromBackend + bytes.length
    rw [List.length_append, hdown]

theorem Relayed.step (h : Relayed toLowercase name c) (shared : Shared) (happening : Happening) :
    Relayed toLowercase name (step toLowercase name passthrough shared c happening).2 := by
  unfold StreamProxy.step
  split
  case h_1 hstage => exact h.start hstage _
  case h_2 ok hstage =>
    have hrecord := h.unrecorded (by rw [hstage]; decide)
    have hat := h.stage
    rw [AtStage, hstage] at hat
    refine relayed_of_routed hat.1 h.chosen hrecord h.up h.down ?_
    cases ok with
    | true => exact hat
    | false => trivial
  case h_3 failed hstage => exact h.announce hstage failed
  case h_4 failed hstage =>
    obtain ⟨hfailed, hwhole⟩ := h.forward hstage failed
    dsimp only
    split
    · rename_i hok
      exact hwhole hok
    · exact hfailed
  case h_5 bytes hstage => exact h.moveUp hstage bytes
  case h_6 bytes hstage => exact h.moveDown hstage bytes
  case h_7 bytes failed _ hstage =>
    exact (h.upward hstage bytes failed).finish fun _ hsome => absurd hsome.symm (Option.some_ne_none _)
  case h_8 bytes failed _ hstage =>
    exact (h.downward hstage bytes failed).finish fun _ hsome => absurd hsome.symm (Option.some_ne_none _)
  case h_9 bytes count hstage =>
    exact (h.upward hstage bytes (some count)).finish fun _ hsome => (Option.some.inj hsome).symm
  case h_10 bytes count hstage =>
    exact (h.downward hstage bytes (some count)).finish fun _ hsome => (Option.some.inj hsome).symm
  case h_11 hstage => exact (h.carried hstage).finish fun _ hsome => (Option.some.inj hsome).symm
  case h_12 hstage => exact (h.carried hstage).finish fun _ hsome => absurd hsome.symm (Option.some_ne_none _)
  case h_13 => exact h

theorem relayed_event {s : State} (h : ∀ c ∈ s.conns, Relayed toLowercase name c) (event : Event) :
    ∀ c ∈ (s.step toLowercase name passthrough event).conns, Relayed toLowercase name c := by
  cases event with
  | accept ends =>
    intro c hc
    rcases List.mem_append.mp hc with hold | hnew
    · exact h c hold
    · rw [List.mem_singleton.mp hnew]
      exact relayed_accept s.shared.live ends
  | happens place happening =>
    rw [State.step]
    split
    · exact h
    · rename_i c hfound
      intro other hother
      rcases List.mem_or_eq_of_mem_set hother with hold | rfl
      · exact h other hold
      · exact (h c (List.mem_of_getElem? hfound)).step s.shared happening
  | deliver update =>
    rw [State.step]
    exact h
  | balance event =>
    rw [State.step]
    exact h

/-- Whatever happens, in whatever order, every connection of a frontend is passed on as it came: the member
is sent the header and then what the client sent, nothing left out and nothing out of order, the client
what the member answered, and the record claims no byte that did not cross. -/
theorem relayed_run (live : Live) (balancer : Balancer) (events : List Event) :
    ∀ c ∈ (Runs.run (State.step toLowercase name passthrough) (.new live balancer) events).conns,
      Relayed toLowercase name c := by
  have hstep (s : State) (event : Event) (h : ∀ c ∈ s.conns, Relayed toLowercase name c) :
      ∀ c ∈ (s.step toLowercase name passthrough event).conns, Relayed toLowercase name c :=
    relayed_event h event
  exact Runs.run_inv hstep (fun c hc => absurd hc List.not_mem_nil) events

end

/-! ## What the balancer counts -/

/-- How many connections a frontend has open to a member. -/
def openOn (balancer : Balancer) (key : MemberKey) : UInt64 := (balancer.openCounts.get key).getD 0

theorem openOn_opened (balancer : Balancer) (frontend : FrontendId) (pool : BackendId) (member : MemberId)
    (key : MemberKey) : openOn (balancer.opened frontend pool member) key =
      if key = (frontend, pool, member) then openOn balancer key + 1 else openOn balancer key := by
  show ((balancer.openCounts.insert _ _).get key).getD 0 = _
  rw [Assoc.get_insert]
  split <;> rename_i h
  · rw [h]
    rfl
  · rfl

theorem openOn_closed (balancer : Balancer) (frontend : FrontendId) (pool : BackendId) (member : MemberId)
    (key : MemberKey) : openOn (balancer.closed frontend pool member) key =
      if key = (frontend, pool, member) ∧ openOn balancer key ≠ 0 then openOn balancer key - 1
      else openOn balancer key := by
  rw [Balancer.closed]
  split
  · rename_i count hget
    show ((balancer.openCounts.insert _ _).get key).getD 0 = _
    rw [Assoc.get_insert]
    by_cases hkey : key = (frontend, pool, member)
    · subst hkey
      have hopen : openOn balancer (frontend, pool, member) = count := by rw [openOn, hget, Option.getD_some]
      rw [hopen, if_pos rfl, Option.getD_some]
      by_cases hzero : count = 0
      · simp [hzero]
      · simp [hzero]
    · rw [if_neg hkey, if_neg fun h => hkey h.1, openOn]
  · rename_i hget
    rw [if_neg]
    rintro ⟨rfl, hne⟩
    exact hne (by rw [openOn, hget]; rfl)

section

variable {toLowercase : String → String} {name : FrontendId} {passthrough : Bool} {shared : Shared} {c : Conn}
  {key : BackendId × MemberId}

/-- Whether a connection is passed on to a member. -/
def carried (key : BackendId × MemberId) (c : Conn) : Bool :=
  c.stage = .coupled && c.routed.any fun routed => (routed.pool, routed.member) = key

theorem openCounts_choose (balancer : Balancer) (pool : Backend) (ring : HashRing) (client : IpAddr) :
    (balancer.choose pool ring client).1.openCounts = balancer.openCounts := by
  rw [Balancer.choose, Balancer.chooseBy]
  dsimp only
  split
  · rfl
  · split <;> rfl

theorem openCounts_route {live : Live} {client : IpAddr} {askedFor : Option String} :
    (route toLowercase name shared live client askedFor).1.balancer.openCounts =
      shared.balancer.openCounts := by
  rw [route]
  split
  · rfl
  · split
    · rfl
    · rename_i pool _
      have hchoose := openCounts_choose shared.balancer pool (live.ring pool.id) client
      split <;> rename_i heq <;> rw [heq] at hchoose <;> exact hchoose

/-- What a step does to the counts: nothing, or the connection comes to be passed on and is counted, or it
stops being passed on and is counted no more. -/
theorem step_counts (toLowercase : String → String) (name : FrontendId) (passthrough : Bool) (shared : Shared)
    (c : Conn) (happening : Happening) :
    let after := step toLowercase name passthrough shared c happening
    after.1.balancer.openCounts = shared.balancer.openCounts ∧ (∀ key, carried key after.2 = carried key c) ∨
      (after.1 = shared.open name c.routed ∧ c.stage = .forwarding ∧ after.2.stage = .coupled ∧
        after.2.routed = c.routed) ∨
      after.1 = shared.close name c.routed ∧ c.stage = .coupled ∧ after.2.stage = .done := by
  intro after
  have hquiet {c' : Conn} (h : c.stage ≠ .coupled) (h' : c'.stage ≠ .coupled) (key : BackendId × MemberId) :
      carried key c' = carried key c := by
    rw [carried, carried, decide_eq_false h, decide_eq_false h', Bool.false_and, Bool.false_and]
  have hsame {c' : Conn} (h : c'.stage = c.stage) (h' : c'.routed = c.routed) (key : BackendId × MemberId) :
      carried key c' = carried key c := by rw [carried, carried, h, h']
  have hdone : Stage.done ≠ .coupled := by decide
  have hconnecting : Stage.connecting ≠ .coupled := by decide
  have hannouncing : Stage.announcing ≠ .coupled := by decide
  have hforwarding : Stage.forwarding ≠ .coupled := by decide
  unfold after StreamProxy.step
  split
  case h_1 reads hstage =>
    refine .inl ?_
    rw [start]
    split
    · exact ⟨rfl, hquiet (by rw [hstage]; decide) hdone⟩
    · refine ⟨openCounts_route, hquiet (by rw [hstage]; decide) ?_⟩
      dsimp only
      split
      · exact hconnecting
      · exact hdone
  case h_2 ok hstage =>
    refine .inl ⟨rfl, hquiet (by rw [hstage]; exact hconnecting) ?_⟩
    cases ok with
    | true => exact hannouncing
    | false => exact hdone
  case h_3 failed hstage =>
    refine .inl ⟨rfl, hquiet (by rw [hstage]; exact hannouncing) ?_⟩
    dsimp only
    split
    · exact hforwarding
    · exact hdone
  case h_4 failed hstage =>
    dsimp only
    split
    · exact .inr (.inl ⟨rfl, hstage, rfl, rfl⟩)
    · exact .inl ⟨rfl, hquiet (by rw [hstage]; exact hforwarding) hdone⟩
  case h_5 bytes hstage => exact .inl ⟨rfl, hsame rfl rfl⟩
  case h_6 bytes hstage => exact .inl ⟨rfl, hsame rfl rfl⟩
  case h_7 hstage => exact .inr (.inr ⟨rfl, hstage, rfl⟩)
  case h_8 hstage => exact .inr (.inr ⟨rfl, hstage, rfl⟩)
  case h_9 hstage => exact .inr (.inr ⟨rfl, hstage, rfl⟩)
  case h_10 hstage => exact .inr (.inr ⟨rfl, hstage, rfl⟩)
  case h_11 hstage => exact .inr (.inr ⟨rfl, hstage, rfl⟩)
  case h_12 hstage => exact .inr (.inr ⟨rfl, hstage, rfl⟩)
  case h_13 => exact .inl ⟨rfl, hsame rfl rfl⟩

/-- What other frontends and the health checks do to the balancer. -/
def Elsewhere (name : FrontendId) : Event → Prop
  | .balance (.opened frontend _ _) | .balance (.closed frontend _ _) => frontend ≠ name
  | _ => True

theorem openOn_elsewhere {balancer : Balancer} {event : Balancer.Event}
    (h : Elsewhere name (.balance event)) :
    openOn (balancer.step event) (name, key) = openOn balancer (name, key) := by
  cases event with
  | request pool ring bytes =>
    rw [openOn, openOn, Balancer.step, Balancer.chooseBy]
    dsimp only
    split
    · rfl
    · split <;> rfl
  | opened frontend pool member =>
    rw [Balancer.step, openOn_opened, if_neg]
    rintro heq
    exact h (Prod.mk.inj heq).1.symm
  | closed frontend pool member =>
    rw [Balancer.step, openOn_closed, if_neg]
    rintro ⟨heq, -⟩
    exact h (Prod.mk.inj heq).1.symm
  | probed => rfl

theorem openOn_open (routed : Option Routed) : openOn (shared.open name routed).balancer (name, key) =
    if routed.any fun routed => (routed.pool, routed.member) = key
    then openOn shared.balancer (name, key) + 1 else openOn shared.balancer (name, key) := by
  cases routed with
  | none => rfl
  | some routed =>
    rw [Shared.open, openOn_opened]
    refine if_congr ?_ rfl rfl
    simp [eq_comm]

theorem openOn_close (routed : Option Routed) : openOn (shared.close name routed).balancer (name, key) =
    if (routed.any fun routed => (routed.pool, routed.member) = key) ∧ openOn shared.balancer (name, key) ≠ 0
    then openOn shared.balancer (name, key) - 1 else openOn shared.balancer (name, key) := by
  cases routed with
  | none => rfl
  | some routed =>
    rw [Shared.close, openOn_closed]
    refine if_congr (and_congr_left fun _ => ?_) rfl rfl
    simp [eq_comm]

/-- The count of a member is the number of connections that are passed on to it. -/
def Counted (name : FrontendId) (s : State) : Prop :=
  s.conns.length < 2 ^ 64 → ∀ key, (openOn s.shared.balancer (name, key)).toNat = s.conns.countP (carried key)

theorem Counted.happens {s : State} (h : Counted name s) (place : ℕ) (happening : Happening) :
    Counted name (s.step toLowercase name passthrough (.happens place happening)) := by
  rw [State.step]
  split
  · exact h
  · rename_i c hfound
    intro hfew key
    obtain ⟨hplace, hc⟩ := List.getElem?_eq_some_iff.mp hfound
    rw [List.length_set] at hfew
    have hbefore := h hfew key
    have hin : carried key c = true → 0 < s.conns.countP (carried key) := fun hcarried =>
      List.countP_pos_iff.mpr ⟨c, List.mem_of_getElem? hfound, hcarried⟩
    set after := step toLowercase name passthrough s.shared c happening with hafter
    have hmost := List.countP_le_length (p := carried key) (l := s.conns.set place after.2)
    rw [List.length_set] at hmost
    rw [List.countP_set hplace, hc] at hmost ⊢
    show (openOn after.1.balancer (name, key)).toNat = _
    rcases step_counts toLowercase name passthrough s.shared c happening with ⟨hsame, hcarried⟩ |
      ⟨hopen, hstage, hcoupled, hrouted⟩ |
        ⟨hclose, hstage, hdone⟩
    · rw [hcarried key, openOn, hsame]
      rw [openOn] at hbefore
      split <;> rename_i hcase
      · have := hin hcase
        omega
      · omega
    · have hout : carried key c = false := by
        rw [carried, hstage]
        rfl
      have hnow : carried key after.2 = c.routed.any fun routed => (routed.pool, routed.member) = key := by
        rw [carried, hcoupled, hrouted]
        rfl
      rw [hout, hnow] at hmost ⊢
      rw [hopen, openOn_open]
      split <;> rename_i hcase
      · rw [if_pos hcase, if_neg Bool.false_ne_true, Nat.sub_zero] at hmost
        rw [UInt64.toNat_add, UInt64.toNat_one, hbefore, Nat.mod_eq_of_lt (by omega),
          if_neg Bool.false_ne_true,
          Nat.sub_zero]
      · rw [if_neg Bool.false_ne_true, Nat.sub_zero, Nat.add_zero, hbefore]
    · have hnow : carried key c = c.routed.any fun routed => (routed.pool, routed.member) = key := by
        rw [carried, hstage]
        rfl
      have hout : carried key after.2 = false := by
        rw [carried, hdone]
        rfl
      rw [hnow] at hin
      rw [hout, hnow, if_neg Bool.false_ne_true, Nat.add_zero, hclose, openOn_close]
      split <;> rename_i hcase
      · rw [if_pos hcase.1]
        have hone : (1 : UInt64) ≤ openOn s.shared.balancer (name, key) := by
          rw [UInt64.le_iff_toNat_le, UInt64.toNat_one, hbefore]
          exact hin hcase.1
        rw [UInt64.toNat_sub_of_le _ _ hone, UInt64.toNat_one, hbefore]
      · by_cases hto : (c.routed.any fun routed => (routed.pool, routed.member) = key) = true
        · have hzero : openOn s.shared.balancer (name, key) = 0 := not_not.mp fun hne => hcase ⟨hto, hne⟩
          rw [hzero, UInt64.toNat_zero] at hbefore
          have := hin hto
          omega
        · rw [if_neg hto, Nat.sub_zero, hbefore]

/-- The count stays right, whatever happens on the frontend. -/
theorem Counted.step {s : State} (h : Counted name s) {event : Event} (hevent : Elsewhere name event) :
    Counted name (s.step toLowercase name passthrough event) := by
  cases event with
  | accept ends =>
    rw [State.step]
    intro hfew key
    have hlength : s.conns.length < 2 ^ 64 := by
      rw [List.length_append] at hfew
      omega
    rw [List.countP_append, ← h hlength key]
    rfl
  | happens place happening => exact h.happens place happening
  | deliver update =>
    rw [State.step]
    intro hfew key
    exact h hfew key
  | balance event =>
    rw [State.step]
    intro hfew key
    rw [← h hfew key, openOn_elsewhere hevent]

/-- A connection that ends, however it ends, is counted no more: the balancer counts the connections of the
frontend that are passed on to a member now, and no others. -/
theorem counted_run (live : Live) (balancer : Balancer) (hfresh : ∀ key, openOn balancer (name, key) = 0)
    (events : List Event) (helsewhere : ∀ event ∈ events, Elsewhere name event) :
    Counted name (Runs.run (State.step toLowercase name passthrough) (.new live balancer) events) := by
  have hnew : Counted name (.new live balancer) := fun _ key => by
    show (openOn balancer (name, key)).toNat = 0
    rw [hfresh key, UInt64.toNat_zero]
  suffices hrun : ∀ s, Counted name s →
      Counted name (Runs.run (State.step toLowercase name passthrough) s events) from hrun _ hnew
  clear hnew
  induction events with
  | nil => exact fun s h => h
  | cons event events ih =>
    intro s h
    obtain ⟨hevent, hrest⟩ := List.forall_mem_cons.mp helsewhere
    exact ih hrest _ (h.step hevent)

/-- A mail server behind a frontend that states the client. -/
def mail : Live := Live.build
  { generation := 1
    config := { Config.empty with
      vips := [⟨⟨"one"⟩, .v4 ⟨10, 0, 0, 1⟩, 24, "eth0", none⟩]
      frontends := [{ plain "smtp" "one" with proxyProtocol := .v1, defaultBackend := some ⟨"mail"⟩ }]
      backends := [⟨⟨"mail"⟩, [⟨⟨"main"⟩, .v4 ⟨10, 0, 0, 11⟩, 25, 1, .enabled⟩], .roundRobin, none,
        .disabled, .enabled, 0, 0⟩] }
    challenges := .empty }

/-- Two connections that are passed on, the first of which breaks. -/
def twoCalls : List Event :=
  [.accept none, .happens 0 (.arrived []), .happens 0 (.connected true), .happens 0 (.wrote none),
    .happens 0 (.wrote none), .accept none, .happens 1 (.arrived []), .happens 1 (.connected true),
    .happens 1 (.wrote none), .happens 0 (.up [69, 72, 76, 79] (some 2)), .happens 1 (.wrote none)]

/-- The connections of the two calls, where they are in the end. -/
def called : List Conn := (Runs.run (State.step id ⟨"smtp"⟩ false) (.new mail .new) twoCalls).conns

theorem called_ne_nil : called ≠ [] := List.ne_nil_of_length_pos (by decide)

theorem relayed_twoCalls : Relayed id ⟨"smtp"⟩ (called.head called_ne_nil) ∧
    (called.head called_ne_nil).sent = (called.head called_ne_nil).head ++ [69, 72] :=
  ⟨relayed_run mail .new twoCalls _ (List.head_mem called_ne_nil), by decide⟩

theorem counted_twoCalls : (openOn
    (Runs.run (State.step id ⟨"smtp"⟩ false) (.new mail .new) twoCalls).shared.balancer
      (⟨"smtp"⟩, ⟨"mail"⟩, ⟨"main"⟩)).toNat = 1 :=
  (counted_run mail .new (fun _ => rfl) twoCalls (by simp [twoCalls, Elsewhere]) (by decide)
    (⟨"mail"⟩, ⟨"main"⟩)).trans (by decide)

end

end StreamProxy

end EkEk.Dataplane
