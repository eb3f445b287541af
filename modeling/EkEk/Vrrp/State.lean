import EkEk.Vrrp.Packet

/-!
# Who holds the virtual router

Reference: `crates/ek-ek-vrrp/src/state.rs`.

The machine reads no clock and owns no socket: every method takes the moment it is called at and
returns the machine it leaves behind together with the actions its caller has to carry out.
Instants and durations are counted in nanoseconds.

What `receive` makes of bytes is said once, by `receive_encode` and `receive_encode_of_count`: a
packet some node encoded towards this one is heard as it was meant, unless it holds more addresses
than its count byte can say.
-/

namespace EkEk.Vrrp

/-- A moment, in nanoseconds. -/
abbrev Instant := ℕ

/-- A span of time, in nanoseconds. -/
abbrev Duration := ℕ

/-- Where the virtual router stands on this node. -/
inductive State where
  | initialise
  | backup
  | master
deriving DecidableEq, Repr

/-- Why a state changed. -/
inductive Reason where
  | started
  | nobodyElseAnswered
  | strongerPeer
  | stopped
  | addressRefused
  | gatewayLost
deriving DecidableEq, Repr

/-- One state change, ready to be written to the log. -/
structure Transition where
  source : State
  target : State
  reason : Reason
deriving DecidableEq, Repr

/-- Something the caller has to do. -/
inductive Action where
  | advertise (advertisement : Advertisement)
  | record (transition : Transition)
  | takeAddresses
  | dropAddresses
deriving DecidableEq, Repr

/-- Why an advertisement was not acted on. -/
inductive Ignored where
  | unknownPeer
  | broken (why : Malformed)
  | otherRouter (vrid : UInt8)
deriving DecidableEq, Repr

/-- What a virtual router is set up with. -/
structure Settings where
  vrid : UInt8
  priority : UInt8
  interval : Duration
  preempt : Bool
  address : Ipv4Addr
  virtualAddresses : List Ipv4Addr
  peers : List Ipv4Addr
deriving DecidableEq, Repr

namespace Settings

/-- The interval in the unit the packet carries it in, saturating at twelve bits. -/
def intervalCentiseconds (settings : Settings) : UInt16 :=
  let hundredths := settings.interval / 1000000 / 10
  if hundredths > 0x0FFF then 0x0FFF else UInt16.ofNat hundredths

/-- How long this node waits before it starts its own claim, cut to a `u64` of nanoseconds. -/
def skewTime (settings : Settings) : Duration :=
  (256 - settings.priority.toNat) * settings.interval / 256 % 2 ^ 64

/-- How long silence has to last before this node claims the role. -/
def masterDownInterval (settings : Settings) : Duration :=
  (settings.interval * 3 % 2 ^ 64 + settings.skewTime) % 2 ^ 64

end Settings

/-- One virtual router on this node. -/
structure Machine where
  settings : Settings
  /-- What the configuration asked this node to claim. -/
  configured : UInt8
  state : State
  /-- When the next advertisement is due, while this node is master. -/
  advertiseAt : Option Instant
  /-- When silence has lasted long enough to claim the role. -/
  claimAt : Option Instant
  accepted : ℕ
  ignored : ℕ
deriving DecidableEq, Repr

namespace Machine

/-- A machine that has not started yet. -/
def new (settings : Settings) : Machine where
  settings := settings
  configured := settings.priority
  state := .initialise
  advertiseAt := none
  claimAt := none
  accepted := 0
  ignored := 0

/-- The advertisement this node sends, at the priority given. -/
def advertisement (m : Machine) (priority : UInt8) : Advertisement where
  vrid := m.settings.vrid
  priority := priority
  intervalCentiseconds := m.settings.intervalCentiseconds
  addresses := m.settings.virtualAddresses

/-- Take the role. -/
def becomeMaster (m : Machine) (now : Instant) (reason : Reason) : Machine × List Action :=
  ({ m with state := .master, claimAt := none, advertiseAt := some (now + m.settings.interval) },
    [.record ⟨m.state, .master, reason⟩,
      -- Before the advertisement, so the address exists by the time a peer hears the claim.
      .takeAddresses,
      .advertise (m.advertisement m.settings.priority)])

/-- Give the role up because somebody stronger holds it. -/
def becomeBackup (m : Machine) (now : Instant) (reason : Reason) : Machine × List Action :=
  ({ m with
      state := .backup
      advertiseAt := none
      claimAt := some (now + m.settings.masterDownInterval) },
    [.record ⟨m.state, .backup, reason⟩, .dropAddresses])

/-- Start the machine. A node whose priority says it owns the addresses claims the role at once;
every other node waits. -/
def start (m : Machine) (now : Instant) : Machine × List Action :=
  if m.settings.priority = 255 then
    ((m.becomeMaster now .started).1, .dropAddresses :: (m.becomeMaster now .started).2)
  else
    ({ m with
        state := .backup
        advertiseAt := none
        claimAt := some (now + m.settings.masterDownInterval) },
      [.dropAddresses, .record ⟨m.state, .backup, .started⟩])

/-- Whether a moment that may be set has come. -/
def due (moment : Option Instant) (now : Instant) : Bool :=
  moment.any (· ≤ now)

/-- Move the machine on to this moment. -/
def tick (m : Machine) (now : Instant) : Machine × List Action :=
  match m.state with
  | .master =>
    if due m.advertiseAt now then
      ({ m with advertiseAt := some (now + m.settings.interval) },
        [.advertise (m.advertisement m.settings.priority)])
    else (m, [])
  | .backup =>
    if due m.claimAt now then m.becomeMaster now .nobodyElseAnswered else (m, [])
  | .initialise => (m, [])

/-- Whether a sender's claim beats this node's. The address settles a tie. -/
def outrankedBy (m : Machine) (sender : Ipv4Addr) (priority : UInt8) : Bool :=
  priority > m.settings.priority
    || (priority == m.settings.priority && decide (m.settings.address < sender))

/-- Whether this node's claim beats a sender's. -/
def outranks (m : Machine) (sender : Ipv4Addr) (priority : UInt8) : Bool :=
  m.settings.priority > priority
    || (priority == m.settings.priority && decide (sender < m.settings.address))

/-- What a master does with an advertisement it hears. -/
def masterHeard (m : Machine) (sender : Ipv4Addr) (heard : Advertisement) (now : Instant) :
    Machine × List Action :=
  if heard.priority = givingUp then
    ({ m with advertiseAt := some (now + m.settings.interval) },
      [.advertise (m.advertisement m.settings.priority)])
  else if m.outrankedBy sender heard.priority then m.becomeBackup now .strongerPeer
  else (m, [])

/-- What a backup does with an advertisement it hears. -/
def backupHeard (m : Machine) (sender : Ipv4Addr) (heard : Advertisement) (now : Instant) :
    Machine × List Action :=
  if heard.priority = givingUp then
    ({ m with claimAt := some (now + m.settings.skewTime) }, [])
  else if !m.settings.preempt || !m.outranks sender heard.priority then
    ({ m with claimAt := some (now + m.settings.masterDownInterval) }, [])
  else (m, [])

/-- What the state makes of an advertisement that was accepted. -/
def heard (m : Machine) (sender : Ipv4Addr) (advertisement : Advertisement) (now : Instant) :
    Machine × List Action :=
  match m.state with
  | .master => m.masterHeard sender advertisement now
  | .backup => m.backupHeard sender advertisement now
  | .initialise => (m, [])

/-- The first of this router's addresses the packet's checksum covers, and what it says there. -/
def read (m : Machine) (sender : Ipv4Addr) (bytes : List UInt8) : Option Advertisement :=
  (m.settings.virtualAddresses ++ [m.settings.address]).findSome? fun receiver =>
    (Advertisement.decode bytes sender receiver).toOption

/-- Take an advertisement and say why it was dropped, when it was. -/
def judge (m : Machine) (sender : Ipv4Addr) (bytes : List UInt8) (now : Instant) :
    Machine × Except Ignored (List Action) :=
  -- First, before anything reads the bytes.
  if sender ∉ m.settings.peers then
    ({ m with ignored := m.ignored + 1 }, .error .unknownPeer)
  else
    match m.read sender bytes with
    | none =>
      let why := match Advertisement.decode bytes sender m.settings.address with
        | .error why => why
        | .ok _ => .checksum
      ({ m with ignored := m.ignored + 1 }, .error (.broken why))
    | some advertisement =>
      if advertisement.vrid ≠ m.settings.vrid then
        ({ m with ignored := m.ignored + 1 }, .error (.otherRouter advertisement.vrid))
      else
        let heard := { m with accepted := m.accepted + 1 }.heard sender advertisement now
        (heard.1, .ok heard.2)

/-- Take an advertisement that arrived, and do nothing at all when it is dropped. -/
def receive (m : Machine) (sender : Ipv4Addr) (bytes : List UInt8) (now : Instant) :
    Machine × List Action :=
  ((m.judge sender bytes now).1, (m.judge sender bytes now).2.toOption.getD [])

/-- Give the role up on purpose. -/
def stop (m : Machine) (_now : Instant) : Machine × List Action :=
  ({ m with state := .initialise, advertiseAt := none, claimAt := none },
    (if m.state = .master then [.advertise (m.advertisement givingUp)] else [])
      ++ [.dropAddresses, .record ⟨m.state, .initialise, .stopped⟩])

/-- Give the role up because the addresses could not be taken. -/
def renounce (m : Machine) (now : Instant) : Machine × List Action :=
  if m.state ≠ .master then (m, []) else m.becomeBackup now .addressRefused

/-- Lower this node's claim and stand the node down if it holds the role. -/
def demote (m : Machine) (target : UInt8) (now : Instant) : Machine × List Action :=
  if m.settings.priority = target then (m, [])
  else
    let lowered := { m with settings := { m.settings with priority := target } }
    if m.state ≠ .master then (lowered, []) else lowered.becomeBackup now .gatewayLost

/-- Put the claim back where the configuration had it. -/
def restore (m : Machine) (_now : Instant) : Machine × List Action :=
  ({ m with settings := { m.settings with priority := m.configured } }, [])

/-! ## What a packet a peer encoded does here -/

/-- A packet is either dropped and counted, or it is an advertisement of this router from one of
its peers and the state decides what it means. -/
theorem receive_cases (m : Machine) (sender : Ipv4Addr) (bytes : List UInt8) (now : Instant) :
    m.receive sender bytes now = ({ m with ignored := m.ignored + 1 }, []) ∨
      ∃ advertisement, sender ∈ m.settings.peers ∧ m.read sender bytes = some advertisement ∧
        advertisement.vrid = m.settings.vrid ∧
        m.receive sender bytes now
          = { m with accepted := m.accepted + 1 }.heard sender advertisement now := by
  by_cases hpeer : sender ∈ m.settings.peers
  swap
  · exact .inl (by simp only [receive, judge, if_pos hpeer]; rfl)
  cases hread : m.read sender bytes with
  | none => exact .inl (by simp only [receive, judge, if_neg (not_not.mpr hpeer), hread]; rfl)
  | some advertisement =>
    by_cases hvrid : advertisement.vrid = m.settings.vrid
    · refine .inr ⟨advertisement, hpeer, rfl, hvrid, ?_⟩
      simp only [receive, judge, if_neg (not_not.mpr hpeer), hread, if_neg (not_not.mpr hvrid)]
      rfl
    · refine .inl ?_
      simp only [receive, judge, if_neg (not_not.mpr hpeer), hread, if_pos hvrid]
      rfl

/-- What the machine hears and when it ticks never changes what it was set up with. -/
theorem heard_settings (m : Machine) (sender : Ipv4Addr) (advertisement : Advertisement)
    (now : Instant) :
    (m.heard sender advertisement now).1.settings = m.settings ∧
      (m.heard sender advertisement now).1.configured = m.configured := by
  unfold heard
  split
  · unfold masterHeard
    split_ifs <;> exact ⟨rfl, rfl⟩
  · unfold backupHeard
    split_ifs <;> exact ⟨rfl, rfl⟩
  · exact ⟨rfl, rfl⟩

theorem receive_settings (m : Machine) (sender : Ipv4Addr) (bytes : List UInt8) (now : Instant) :
    (m.receive sender bytes now).1.settings = m.settings ∧
      (m.receive sender bytes now).1.configured = m.configured := by
  rcases m.receive_cases sender bytes now with hdropped | ⟨advertisement, _, _, _, hheard⟩
  · rw [hdropped]
    exact ⟨rfl, rfl⟩
  · rw [hheard]
    exact heard_settings { m with accepted := m.accepted + 1 } sender advertisement now

theorem tick_settings (m : Machine) (now : Instant) :
    (m.tick now).1.settings = m.settings ∧ (m.tick now).1.configured = m.configured := by
  unfold tick
  split
  · split <;> exact ⟨rfl, rfl⟩
  · split <;> exact ⟨rfl, rfl⟩
  · exact ⟨rfl, rfl⟩

/-- Starting does not change the claim either. -/
theorem start_settings (m : Machine) (now : Instant) :
    (m.start now).1.settings = m.settings ∧ (m.start now).1.configured = m.configured := by
  unfold start
  split <;> exact ⟨rfl, rfl⟩

/-- A demoted machine claims what it was lowered to. -/
theorem demote_priority (m : Machine) (target : UInt8) (now : Instant) :
    (m.demote target now).1.settings.priority = target ∧
      (m.demote target now).1.configured = m.configured := by
  unfold demote
  split
  · rename_i hsame
    exact ⟨hsame, rfl⟩
  · dsimp only
    split <;> exact ⟨rfl, rfl⟩

/-- A packet encoded towards this node's own address is read as it was sent. The virtual addresses
tried first can only agree: what a packet says does not depend on who checks it. -/
theorem read_encode (m : Machine) {sent : Advertisement} (hcount : sent.addresses.length ≤ 255)
    (sender : Ipv4Addr) :
    m.read sender (sent.encode sender m.settings.address) = some sent.clamped := by
  have hown := Advertisement.decode_encode hcount sender m.settings.address
  have hsome : m.read sender (sent.encode sender m.settings.address) ≠ none := by
    intro hnone
    have hlast := List.findSome?_eq_none_iff.mp hnone m.settings.address
      (List.mem_append_right _ (List.mem_singleton_self _))
    rw [hown] at hlast
    exact absurd hlast (Option.some_ne_none _)
  obtain ⟨found, hfound⟩ := Option.ne_none_iff_exists'.mp hsome
  obtain ⟨receiver, _, hread⟩ := List.exists_of_findSome?_eq_some hfound
  cases hdecode : Advertisement.decode (sent.encode sender m.settings.address) sender receiver with
  | error why =>
    rw [hdecode] at hread
    exact absurd hread.symm (Option.some_ne_none _)
  | ok there =>
    rw [hdecode] at hread
    rw [hfound, ← hread, Advertisement.decode_unique hdecode hown]
    rfl

/-- A packet with more addresses than the count byte can say is read by nobody. -/
theorem read_encode_of_count (m : Machine) {sent : Advertisement}
    (hcount : 255 < sent.addresses.length) (sender receiver : Ipv4Addr) :
    m.read sender (sent.encode sender receiver) = none := by
  rw [read, List.findSome?_eq_none_iff]
  intro address _
  rw [Advertisement.decode_encode_of_count hcount]
  rfl

/-- An advertisement of this router, encoded towards this node by one of its peers, is heard. -/
theorem receive_encode {m : Machine} {sender : Ipv4Addr} {sent : Advertisement}
    (hpeer : sender ∈ m.settings.peers) (hvrid : sent.vrid = m.settings.vrid)
    (hcount : sent.addresses.length ≤ 255) (now : Instant) :
    m.receive sender (sent.encode sender m.settings.address) now
      = { m with accepted := m.accepted + 1 }.heard sender sent.clamped now := by
  have hsame : ¬ sent.clamped.vrid ≠ m.settings.vrid := not_not.mpr hvrid
  simp only [receive, judge, read_encode m hcount sender, if_neg (not_not.mpr hpeer), if_neg hsame]
  rfl

/-- An advertisement with too many addresses is dropped, whoever it is from. -/
theorem receive_encode_of_count {m : Machine} {sent : Advertisement}
    (hcount : 255 < sent.addresses.length) (sender receiver : Ipv4Addr) (now : Instant) :
    m.receive sender (sent.encode sender receiver) now = ({ m with ignored := m.ignored + 1 }, []) := by
  simp only [receive, judge, read_encode_of_count m hcount sender receiver]
  split <;> rfl

end Machine

end EkEk.Vrrp
