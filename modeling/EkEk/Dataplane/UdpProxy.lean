import EkEk.Dataplane.Live
import EkEk.Dataplane.Udp

/-!
# The UDP traffic path

Reference: `crates/ek-ek-dataplane/src/udpproxy.rs`.

One loop serves one UDP frontend: it takes datagrams, sweeps its session table now and then, and drains
when it is told to stop. The configuration and the balancer belong to the whole process, so they change
between any two steps of the loop and while the loop waits: a datagram waits for the socket of its new
session, and a sweep loads the configuration anew for each of its parts.

A session keeps the address of its member, and a sweep looks at identities. `sweeps_name` says that the
table is right after every sweep as long as no delivery gives a member another address under a session,
and `draining_stays_iff` when sessions of a draining member survive the sweeps.
-/

namespace EkEk.Dataplane.UdpProxy

open Validation

/-- The return half of a session: a socket connected to a member, read for a client. -/
structure Upstream where
  connected : SocketAddr
  client : Client
deriving DecidableEq, Repr

/-- What the loop of a frontend works on. -/
structure State where
  live : Live
  balancer : Balancer
  sessions : Sessions Upstream
  /-- When the shutdown signal arrived. -/
  draining : Option ℕ
  running : Bool

/-- What other tasks of the process do. -/
inductive Outside where
  | deliver (update : ConfigUpdate)
  | balance (event : Balancer.Event)

/-- What happens to the loop. The changes are those that land while a step waits. -/
inductive Event where
  | outside (change : Outside)
  | datagram (client : Client) (now : ℕ) (opens : Bool) (during : List Outside)
  | sweep (now : ℕ) (during : List Outside) (later : ℕ) (after : List Outside)
  | stop (now : ℕ)

namespace State

/-- Another task changes what is shared. -/
def outside (s : State) : Outside → State
  | .deliver update => { s with live := (s.live.apply update).1 }
  | .balance event => { s with balancer := s.balancer.step event }

variable (frontend : FrontendId)

/-- The frontend's session settings in the live configuration. -/
def settings (live : Live) : UInt32 × UInt32 :=
  match live.frontend frontend with
  | some frontend => (frontend.udpSessionLimit, frontend.idleTimeoutSeconds)
  | none => (0, 0)

/-- How long the frontend gets to empty its table before it is cut. -/
def drainLimit (live : Live) : ℕ :=
  match live.frontend frontend with
  | some frontend => frontend.drainTimeoutSeconds.toNat * 10 ^ 9
  | none => 0

/-- The loop before its first datagram. -/
def start (update : ConfigUpdate) (balancer : Balancer) : State where
  live := .build update
  balancer := balancer
  sessions :=
    let (limit, idleSeconds) := settings frontend (.build update)
    .new limit idleSeconds
  draining := none
  running := true

/-- The member for a client that has no session. -/
def chosen (s : State) (client : Client) : Balancer × Option (BackendId × BackendMember) :=
  match s.live.frontend frontend with
  | none => (s.balancer, none)
  | some frontend =>
    match frontend.defaultBackend with
    | none => (s.balancer, none)
    | some name =>
      match s.live.pool name with
      | none => (s.balancer, none)
      | some pool =>
        -- the port is part of the key, since the pair is what identifies a session
        let (balancer, member) :=
          s.balancer.chooseBy pool (s.live.ring name) (Text.bytes client.display)
        (balancer, member.map fun member => (name, member))

/-- Put the session of a client in the table once its socket is there. A frontend that drains opens no
new session. -/
def keep (s : State) (client : Client) (now : ℕ) (opens : Bool) (name : BackendId)
    (member : BackendMember) : State :=
  let target : SocketAddr := ⟨member.address, member.port⟩
  if opens = false ∨ s.draining.isSome then s
  else { s with
    sessions := (s.sessions.insert client name member.id target ⟨target, client⟩ now).1 }

/-- Send one datagram on, opening a session for a client that has none. The configuration was read
before the socket is waited for. -/
def forward (s : State) (client : Client) (now : ℕ) (opens : Bool) (during : List Outside) : State :=
  match s.sessions.refresh client now with
  | (sessions, some _) => { s with sessions }
  | (_, none) =>
    match s.chosen frontend client with
    | (balancer, none) => { s with balancer }
    | (balancer, some (name, member)) =>
      (Runs.run outside { s with balancer } during).keep client now opens name member

/-- The first part of a sweep: new settings, and out with the idle sessions. -/
def tuned (s : State) (now : ℕ) : State :=
  let (limit, idleSeconds) := settings frontend s.live
  { s with sessions := ((s.sessions.retune limit idleSeconds).1.expire now).1 }

/-- Whether a session's member can take traffic under the live configuration. -/
def present (s : State) (name : BackendId) (member : MemberId) : Bool :=
  match s.live.pool name with
  | some pool => (eligible pool s.balancer.health).any fun candidate => candidate.id = member
  | none => false

/-- The second part of a sweep: out with the sessions whose member is missing. -/
def dropMissingMembers (s : State) : State :=
  { s with sessions := (s.sessions.retainMembers s.present).1 }

/-- What the second part of a sweep works on. -/
def checked (s : State) (now : ℕ) (during : List Outside) : State :=
  Runs.run outside (s.tuned frontend now) during

/-- The table after a sweep. -/
def swept (s : State) (now : ℕ) (during : List Outside) : State :=
  (s.checked frontend now during).dropMissingMembers

/-- The end of a sweep: a frontend that drains is done when its table is empty or its time is up. -/
def finish (s : State) (later : ℕ) : State :=
  match s.draining with
  | none => s
  | some started =>
    if s.sessions.length = 0 then { s with running := false }
    else if drainLimit frontend s.live ≤ later - started then
      { s with sessions := s.sessions.clear.1, running := false }
    else s

/-- One step. A loop that has returned takes no more datagrams. -/
def step (s : State) : Event → State
  | .outside change => s.outside change
  | .datagram client now opens during =>
    if s.running then s.forward frontend client now opens during else s
  | .sweep now during later after =>
    if s.running then (Runs.run outside (s.swept frontend now during) after).finish frontend later else s
  | .stop now =>
    if s.running ∧ s.draining = none then
      { s with draining := some now, running := s.sessions.length ≠ 0 }
    else s

end State

/-! ## Addresses -/

/-- A configuration names the address of a session for its pool and its member. -/
def Named (config : Config) (session : Session Upstream) : Prop :=
  ∃ pool ∈ config.backends, pool.id = session.pool ∧
    ∃ member ∈ pool.members, member.id = session.member ∧
      session.address = ⟨member.address, member.port⟩

/-- A configuration has no other address for a member in service. -/
def AddressKept (config : Config) (pin : BackendId × MemberId × SocketAddr) : Prop :=
  ∀ pool ∈ config.backends, pool.id = pin.1 → ∀ member ∈ enabled pool, member.id = pin.2.1 →
    pin.2.2 = ⟨member.address, member.port⟩

instance (config : Config) (session : Session Upstream) : Decidable (Named config session) :=
  inferInstanceAs (Decidable (∃ pool ∈ config.backends, pool.id = session.pool ∧
    ∃ member ∈ pool.members, member.id = session.member ∧
      session.address = ⟨member.address, member.port⟩))

instance (config : Config) (pin : BackendId × MemberId × SocketAddr) :
    Decidable (AddressKept config pin) :=
  inferInstanceAs (Decidable (∀ pool ∈ config.backends, pool.id = pin.1 → ∀ member ∈ enabled pool,
    member.id = pin.2.1 → pin.2.2 = ⟨member.address, member.port⟩))

/-- A delivery that is accepted moves no member that something is pinned to. -/
def Outside.Keeps (pins : List (BackendId × MemberId × SocketAddr)) : Outside → Prop
  | .deliver update => Accepted update.config → ∀ pin ∈ pins, AddressKept update.config pin
  | .balance _ => True

namespace State

variable (frontend : FrontendId)

/-- What the sessions of the table are pinned to. -/
def pins (s : State) : List (BackendId × MemberId × SocketAddr) :=
  s.sessions.entries.rows.map fun row => row.2.pin

/-- What a datagram of a client without a session is pinned to. -/
def pinOf (s : State) (client : Client) : List (BackendId × MemberId × SocketAddr) :=
  (s.chosen frontend client).2.toList.map fun choice =>
    (choice.1, choice.2.id, ⟨choice.2.address, choice.2.port⟩)

/-- No delivery that lands in a step gives a member in service another address while a session of the
table, or the one that is being opened, is pinned to it. -/
def Keeping (s : State) : Event → Prop
  | .outside change => change.Keeps s.pins
  | .datagram client _ _ during => s.running → s.sessions.holds client = false →
    ∀ change ∈ during, change.Keeps (s.pins ++ s.pinOf frontend client)
  | .sweep now during _ after => s.running →
    (∀ change ∈ during, change.Keeps (s.tuned frontend now).pins) ∧
      ∀ change ∈ after, change.Keeps (s.swept frontend now during).pins
  | .stop _ => True

/-- Right after a sweep, every session left is pinned to an address the configuration names. -/
def SweepNames (s : State) : Event → Prop
  | .sweep now during _ _ => s.running → ∀ row ∈ (s.swept frontend now during).sessions.entries.rows,
    Named (s.swept frontend now during).live.config row.2
  | _ => True

/-- The live configuration was accepted, and has no other address for what something is pinned to. -/
def Current (pins : List (BackendId × MemberId × SocketAddr)) (s : State) : Prop :=
  Accepted s.live.config ∧ ∀ pin ∈ pins, AddressKept s.live.config pin

/-- The table is up to date with the live configuration. -/
def UpToDate (s : State) : Prop := Current s.pins s

variable {frontend} {s : State} {known : List (BackendId × MemberId × SocketAddr)}

@[simp] theorem outside_sessions (change : Outside) : (s.outside change).sessions = s.sessions := by
  cases change <;> simp only [outside]

@[simp] theorem run_outside_sessions (changes : List Outside) :
    (Runs.run outside s changes).sessions = s.sessions := by
  induction changes generalizing s with
  | nil => rfl
  | cons change changes ih => rw [Runs.run_cons, ih, outside_sessions]

theorem Current.outside (h : Current known s) {change : Outside} (hkeeps : change.Keeps known) :
    Current known (s.outside change) := by
  cases change with
  | balance event =>
    simp only [Current, State.outside]
    exact h
  | deliver update =>
    simp only [Current, State.outside]
    rcases Live.apply_cases s.live update with ⟨haccepted, heq⟩ | ⟨-, heq⟩
    · rw [heq]
      exact ⟨haccepted, hkeeps haccepted⟩
    · rw [heq]
      exact h

theorem Current.run (h : Current known s) {changes : List Outside}
    (hkeeps : ∀ change ∈ changes, change.Keeps known) :
    Current known (Runs.run State.outside s changes) := by
  induction changes generalizing s with
  | nil => exact h
  | cons change changes ih =>
    exact ih (h.outside (hkeeps change List.mem_cons_self)) fun later hlater =>
      hkeeps later (List.mem_cons_of_mem _ hlater)

/-- The member for a new client is in service in a pool of the live configuration. -/
theorem chosen_eq_some {client : Client} {name : BackendId} {member : BackendMember}
    (h : (s.chosen frontend client).2 = some (name, member)) :
    ∃ pool ∈ s.live.config.backends, pool.id = name ∧ member ∈ enabled pool := by
  rw [chosen] at h
  split at h
  · cases h
  · split at h
    · cases h
    · split at h
      · cases h
      · rename_i pool hpool
        obtain ⟨chosen, hchosen, heq⟩ := Option.map_eq_some_iff.mp h
        obtain ⟨rfl, rfl⟩ := Prod.mk.inj heq
        obtain ⟨hmem, hid⟩ := Live.pool_eq_some hpool
        exact ⟨pool, hmem, hid, Balancer.mem_enabled_of_chooseBy hchosen⟩

/-- What a new session is pinned to is what the configuration names. -/
theorem addressKept_pinOf (haccepted : Accepted s.live.config) {client : Client}
    {pin : BackendId × MemberId × SocketAddr} (h : pin ∈ s.pinOf frontend client) :
    AddressKept s.live.config pin := by
  obtain ⟨⟨name, member⟩, hchosen, rfl⟩ := List.mem_map.mp h
  obtain ⟨pool, hpool, hid, hmember⟩ := chosen_eq_some (Option.mem_toList.mp hchosen)
  intro other hother hotherId candidate hcandidate hcandidateId
  obtain rfl := backend_eq_of_id haccepted hother hpool (hotherId.trans hid.symm)
  have hsame : candidate = member := member_eq_of_id haccepted hother (List.mem_of_mem_filter hcandidate)
    (List.mem_of_mem_filter hmember) hcandidateId
  rw [hsame]

theorem Current.mono (h : Current known s) {fewer : List (BackendId × MemberId × SocketAddr)}
    (hsubset : fewer ⊆ known) : Current fewer s :=
  ⟨h.1, fun pin hpin => h.2 pin (hsubset hpin)⟩

theorem pins_subset {t : State} (h : t.sessions.entries.rows ⊆ s.sessions.entries.rows) :
    t.pins ⊆ s.pins :=
  List.map_subset _ h

theorem tuned_subset (now : ℕ) :
    (s.tuned frontend now).sessions.entries.rows ⊆ s.sessions.entries.rows := by
  intro row hrow
  exact Sessions.retune_subset _ _ (Sessions.mem_expire.mp hrow).1

theorem mem_swept {now : ℕ} {during : List Outside} {row : Client × Session Upstream} :
    row ∈ (s.swept frontend now during).sessions.entries.rows ↔
      row ∈ (s.tuned frontend now).sessions.entries.rows ∧
        (s.checked frontend now during).present row.2.pool row.2.member = true := by
  have hsessions : (s.checked frontend now during).sessions = (s.tuned frontend now).sessions :=
    run_outside_sessions during
  rw [← hsessions]
  exact Sessions.mem_retainMembers

/-- A session that passed the sweep has a member in service. -/
theorem exists_of_present {name : BackendId} {member : MemberId} (h : s.present name member = true) :
    ∃ pool ∈ s.live.config.backends, pool.id = name ∧
      ∃ candidate ∈ eligible pool s.balancer.health, candidate.id = member := by
  rw [present] at h
  split at h
  · rename_i pool hpool
    obtain ⟨hmem, hid⟩ := Live.pool_eq_some hpool
    obtain ⟨candidate, hcandidate, heq⟩ := List.any_eq_true.mp h
    exact ⟨pool, hmem, hid, candidate, hcandidate, of_decide_eq_true heq⟩
  · cases h

/-- After a sweep of a table that is up to date, the configuration names every address in it. -/
theorem named_of_current {now : ℕ} {during : List Outside}
    (h : Current (s.tuned frontend now).pins (s.checked frontend now during))
    {row : Client × Session Upstream}
    (hrow : row ∈ (s.swept frontend now during).sessions.entries.rows) :
    Named (s.swept frontend now during).live.config row.2 := by
  obtain ⟨hin, hpresent⟩ := mem_swept.mp hrow
  obtain ⟨pool, hpool, hid, member, hmember, hmemberId⟩ := exists_of_present hpresent
  have hkept := h.2 _ (List.mem_map_of_mem hin)
  have hserving : member ∈ enabled pool := List.mem_of_mem_filter hmember
  exact ⟨pool, hpool, hid, member, List.mem_of_mem_filter hserving, hmemberId,
    hkept pool hpool hid member hserving hmemberId⟩

/-- What a datagram does: it refreshes the session of its client, finds nobody to go to, or opens a
session, unless the socket is refused or the frontend drains. -/
theorem forward_cases (frontend : FrontendId) (s : State) (client : Client) (now : ℕ) (opens : Bool)
    (during : List Outside) :
    (∃ sessions session, s.sessions.refresh client now = (sessions, some session) ∧
      s.forward frontend client now opens during = { s with sessions }) ∨
    (∃ balancer, s.forward frontend client now opens during = { s with balancer }) ∨
    s.sessions.holds client = false ∧ ∃ balancer name member,
      s.chosen frontend client = (balancer, some (name, member)) ∧
      (s.forward frontend client now opens during = Runs.run State.outside { s with balancer } during ∨
        s.forward frontend client now opens during =
          { Runs.run State.outside { s with balancer } during with
            sessions := (s.sessions.insert client name member.id ⟨member.address, member.port⟩
              ⟨⟨member.address, member.port⟩, client⟩ now).1 }) := by
  rw [State.forward]
  split
  · rename_i sessions session hrefresh
    exact .inl ⟨sessions, session, hrefresh, rfl⟩
  · rename_i hrefresh
    split
    · rename_i balancer hchosen
      exact .inr (.inl ⟨balancer, rfl⟩)
    · rename_i balancer name member hchosen
      have hnone : s.sessions.holds client = false := Sessions.holds_eq_false (by rw [hrefresh])
      have hsessions : (Runs.run State.outside { s with balancer } during).sessions = s.sessions :=
        run_outside_sessions during
      refine .inr (.inr ⟨hnone, balancer, name, member, hchosen, ?_⟩)
      rw [keep, hsessions]
      split
      · exact .inl rfl
      · exact .inr rfl

/-- A session that is opened or refreshed is one that was there, or the one that was chosen. -/
theorem UpToDate.forward (h : s.UpToDate) {client : Client} {now : ℕ} {opens : Bool}
    {during : List Outside} (hkeeps : s.sessions.holds client = false →
      ∀ change ∈ during, change.Keeps (s.pins ++ s.pinOf frontend client)) :
    (s.forward frontend client now opens during).UpToDate := by
  rcases forward_cases frontend s client now opens during with
    ⟨sessions, session, hrefresh, heq⟩ | ⟨balancer, heq⟩ |
      ⟨hnone, balancer, name, member, hchosen, hopened⟩
  · rw [heq]
    refine ⟨h.1, fun pin hpin => ?_⟩
    obtain ⟨⟨other, held⟩, hheld, rfl⟩ := List.mem_map.mp hpin
    have hrow : (other, held) ∈ (s.sessions.refresh client now).1.entries.rows := by
      rw [hrefresh]
      exact hheld
    obtain ⟨before, hbefore, heq⟩ := (Sessions.mem_refresh_iff now).mp ⟨held, hrow, rfl⟩
    exact heq ▸ h.2 _ (List.mem_map.mpr ⟨_, hbefore, rfl⟩)
  · rw [heq]
    exact h
  · have hall : Current (s.pins ++ s.pinOf frontend client)
        (Runs.run State.outside { s with balancer } during) := by
      refine Current.run (s := { s with balancer }) ⟨h.1, fun pin hpin => ?_⟩ (hkeeps hnone)
      rcases List.mem_append.mp hpin with hold | hnew
      · exact h.2 pin hold
      · exact addressKept_pinOf h.1 hnew
    rcases hopened with heq | heq
    · rw [heq]
      refine hall.mono (List.subset_append_of_subset_left _ ?_)
      rw [pins, run_outside_sessions, pins]
      exact List.Subset.refl _
    · rw [heq]
      refine ⟨hall.1, fun pin hpin => hall.2 pin ?_⟩
      obtain ⟨row, hrow, rfl⟩ := List.mem_map.mp hpin
      rcases Sessions.mem_of_mem_insert hrow with ⟨-, hpool, hmember, haddress⟩ | hold
      · refine List.mem_append_right _ (List.mem_map.mpr ⟨(name, member), ?_, ?_⟩)
        · rw [hchosen]
          exact List.mem_singleton.mpr rfl
        · rw [Session.pin, hpool, hmember, haddress]
      · exact List.mem_append_left _ (List.mem_map.mpr ⟨row, hold, rfl⟩)

/-- The end of a sweep leaves the sessions alone, or takes all of them at the deadline of a frontend that
drains. -/
theorem finish_cases (frontend : FrontendId) (s : State) (later : ℕ) :
    (s.finish frontend later).live = s.live ∧
      ((s.finish frontend later).sessions = s.sessions ∨
        (s.finish frontend later).sessions.entries.rows = [] ∧
          ∃ started, s.draining = some started ∧ drainLimit frontend s.live ≤ later - started) := by
  rw [State.finish]
  split
  · exact ⟨rfl, .inl rfl⟩
  · rename_i started hstarted
    split
    · exact ⟨rfl, .inl rfl⟩
    · split
      · rename_i hdeadline
        exact ⟨rfl, .inr ⟨rfl, started, hstarted, hdeadline⟩⟩
      · exact ⟨rfl, .inl rfl⟩

theorem UpToDate.finish (h : s.UpToDate) (later : ℕ) : (s.finish frontend later).UpToDate := by
  obtain ⟨hlive, hsessions⟩ := finish_cases frontend s later
  rw [UpToDate, Current, hlive, pins]
  rcases hsessions with heq | ⟨heq, -⟩
  · rw [heq]
    exact h
  · rw [heq]
    exact ⟨h.1, fun pin hpin => absurd hpin List.not_mem_nil⟩

theorem UpToDate.tuned (h : s.UpToDate) (now : ℕ) : (s.tuned frontend now).UpToDate :=
  ⟨h.1, fun pin hpin => h.2 pin (pins_subset (tuned_subset now) hpin)⟩

/-- A step that meets the condition leaves the table up to date. -/
theorem UpToDate.step (h : s.UpToDate) {event : Event} (hkeeping : s.Keeping frontend event) :
    (s.step frontend event).UpToDate := by
  cases event with
  | outside change =>
    rw [State.step, UpToDate, pins, outside_sessions]
    exact Current.outside h hkeeping
  | datagram client now opens during =>
    rw [State.step]
    split
    · rename_i hrunning
      exact h.forward (hkeeping hrunning)
    · exact h
  | sweep now during later after =>
    rw [State.step]
    split
    · rename_i hrunning
      obtain ⟨hduring, hafter⟩ := hkeeping hrunning
      have hchecked : Current (s.tuned frontend now).pins (s.checked frontend now during) :=
        Current.run (h.tuned now) hduring
      have hswept : (s.swept frontend now during).UpToDate := by
        refine ⟨hchecked.1, fun pin hpin => hchecked.2 pin (pins_subset ?_ hpin)⟩
        exact fun row hrow => (mem_swept.mp hrow).1
      refine UpToDate.finish ?_ later
      rw [UpToDate, pins, run_outside_sessions]
      exact Current.run hswept hafter
    · exact h
  | stop now =>
    rw [State.step]
    split
    · exact h
    · exact h

/-- In every run in which no delivery moves a member under a session, each sweep leaves a table whose
addresses the live configuration names. -/
theorem sweeps_name (frontend : FrontendId) {update : ConfigUpdate} (haccepted : Accepted update.config)
    (balancer : Balancer) (events : List Event)
    (h : Runs.Along (State.step frontend) (State.Keeping frontend) (start frontend update balancer) events) :
    Runs.Along (State.step frontend) (SweepNames frontend) (start frontend update balancer) events := by
  have hstart : (start frontend update balancer).UpToDate :=
    ⟨haccepted, fun pin hpin => absurd hpin List.not_mem_nil⟩
  refine Runs.Along.imp (fun s event (hs : s.UpToDate) hkeeping => hs.step hkeeping)
    (fun s event hs hkeeping => ?_) hstart h
  cases event with
  | sweep now during later after =>
    intro hrunning row hrow
    exact named_of_current (Current.run (hs.tuned now) (hkeeping hrunning).1) hrow
  | outside change => trivial
  | datagram client now opens during => trivial
  | stop now => trivial

/-- A resolver behind one UDP frontend, with the last octet of its address. -/
def resolver (last : UInt8) (adminState : AdminState) : ConfigUpdate where
  generation := 1
  config := { Config.empty with
    vips := [⟨⟨"one"⟩, .v4 ⟨10, 0, 0, 1⟩, 24, "eth0", none⟩]
    frontends := [{ plain "dns" "one" with transport := .udp, defaultBackend := some ⟨"resolvers"⟩ }]
    backends := [⟨⟨"resolvers"⟩, [⟨⟨"main"⟩, .v4 ⟨10, 0, 0, last⟩, 53, 1, adminState⟩], .roundRobin, none,
      .disabled, .enabled, 0, 0⟩] }
  challenges := .empty

/-- A client of the resolver. -/
def asking : Client := ⟨.v4 ⟨10, 0, 1, 1⟩, 40000, 0, 0⟩

theorem same_address_named : validate (resolver 11 .enabled).config = .ok () ∧
    Runs.Along (State.step ⟨"dns"⟩) (SweepNames ⟨"dns"⟩) (start ⟨"dns"⟩ (resolver 11 .enabled) .new)
      [.datagram asking 0 true [], .outside (.deliver (resolver 11 .enabled)), .sweep 1 [] 1 []] := by
  have haccepted : validate (resolver 11 .enabled).config = .ok () := by decide
  refine ⟨haccepted, sweeps_name ⟨"dns"⟩ (validate_eq_ok.mp haccepted) .new _ ⟨?_, ?_, ?_, trivial⟩⟩
  · intro _ _ change hchange
    exact absurd hchange List.not_mem_nil
  · intro _
    decide
  · exact fun _ => ⟨fun change h => absurd h List.not_mem_nil, fun change h => absurd h List.not_mem_nil⟩

/-- The loop after a datagram and a delivery that moves the member. -/
def moved : State :=
  State.step ⟨"dns"⟩ (State.step ⟨"dns"⟩ (start ⟨"dns"⟩ (resolver 11 .enabled) .new)
    (.datagram asking 0 true [])) (.outside (.deliver (resolver 12 .enabled)))

/-- A member that moves to another address under its identity: the session opened before stays where it
was, and the sweep lets it. -/
theorem renumbered_not_named : validate (resolver 11 .enabled).config = .ok () ∧
    validate (resolver 12 .enabled).config = .ok () ∧
    ¬ Runs.Along (State.step ⟨"dns"⟩) (SweepNames ⟨"dns"⟩) (start ⟨"dns"⟩ (resolver 11 .enabled) .new)
      [.datagram asking 0 true [], .outside (.deliver (resolver 12 .enabled)), .sweep 1 [] 1 []] := by
  refine ⟨by decide, by decide, ?_⟩
  rintro ⟨-, -, hnames, -⟩
  have hleft : ¬ ∀ row ∈ (moved.swept ⟨"dns"⟩ 1 []).sessions.entries.rows,
      Named (moved.swept ⟨"dns"⟩ 1 []).live.config row.2 := by decide +kernel
  exact hleft (hnames (by decide +kernel))

/-! ## Draining members -/

/-- A session is pinned to a member that is in its pool, draining and healthy. -/
def Drained (s : State) (session : Session Upstream) : Prop :=
  ∃ pool ∈ s.live.config.backends, pool.id = session.pool ∧
    ∃ member ∈ pool.members, member.id = session.member ∧ member.adminState = .draining ∧
      s.balancer.health.isHealthy pool.id member.id = true

instance (s : State) (session : Session Upstream) : Decidable (Drained s session) :=
  inferInstanceAs (Decidable (∃ pool ∈ s.live.config.backends, pool.id = session.pool ∧
    ∃ member ∈ pool.members, member.id = session.member ∧ member.adminState = .draining ∧
      s.balancer.health.isHealthy pool.id member.id = true))

/-- What a step may do to the session of a draining member. A datagram may evict it when the table is
full. A sweep may evict it for a lower limit and drop it for sitting idle, which is what the first part
does, and the deadline of a frontend that drains itself takes everybody; the look at the members takes
nobody whose member is draining and healthy. -/
def DrainingStays (frontend : FrontendId) (s : State) : Event → Prop
  | .outside change => (s.step frontend (.outside change)).sessions = s.sessions
  | .stop now => (s.step frontend (.stop now)).sessions = s.sessions
  | .datagram client now opens during => s.sessions.length < s.sessions.limit →
    ∀ row ∈ s.sessions.entries.rows, ∃ session, session.pin = row.2.pin ∧
      (row.1, session) ∈ (s.step frontend (.datagram client now opens during)).sessions.entries.rows
  | .sweep now during later after => s.running →
    (∀ row ∈ (s.tuned frontend now).sessions.entries.rows,
      (s.checked frontend now during).Drained row.2 →
        row ∈ (s.swept frontend now during).sessions.entries.rows) ∧
    ∀ row ∈ (s.swept frontend now during).sessions.entries.rows,
      row ∈ (s.step frontend (.sweep now during later after)).sessions.entries.rows ∨
        ∃ started, s.draining = some started ∧
          drainLimit frontend (Runs.run outside (s.swept frontend now during) after).live ≤ later - started

/-- No session that is left for a sweep to look at has a draining member that is healthy. -/
def NoneDraining (frontend : FrontendId) (s : State) : Event → Prop
  | .sweep now during _ _ => s.running → ∀ row ∈ (s.tuned frontend now).sessions.entries.rows,
    ¬ (s.checked frontend now during).Drained row.2
  | _ => True

@[simp] theorem outside_draining (change : Outside) : (s.outside change).draining = s.draining := by
  cases change <;> simp only [outside]

@[simp] theorem run_outside_draining (changes : List Outside) :
    (Runs.run outside s changes).draining = s.draining := by
  induction changes generalizing s with
  | nil => rfl
  | cons change changes ih => rw [Runs.run_cons, ih, outside_draining]

/-- Only accepted configurations are served. -/
def LiveAccepted (s : State) : Prop := Accepted s.live.config

theorem LiveAccepted.run (h : s.LiveAccepted) (changes : List Outside) :
    (Runs.run outside s changes).LiveAccepted := by
  refine Runs.run_inv (fun s change (hs : s.LiveAccepted) => ?_) h changes
  cases change with
  | deliver update =>
    simp only [LiveAccepted, outside]
    exact Live.accepted_apply hs
  | balance event =>
    simp only [LiveAccepted, outside]
    exact hs

theorem LiveAccepted.checked (h : s.LiveAccepted) (now : ℕ) (during : List Outside) :
    (s.checked frontend now during).LiveAccepted :=
  LiveAccepted.run (s := s.tuned frontend now) h during

/-- Every step leaves an accepted configuration. -/
theorem LiveAccepted.step (h : s.LiveAccepted) (event : Event) :
    (s.step frontend event).LiveAccepted := by
  cases event with
  | outside change => exact h.run [change]
  | datagram client now opens during =>
    rw [State.step]
    split
    · rcases forward_cases frontend s client now opens during with
        ⟨sessions, session, -, heq⟩ | ⟨balancer, heq⟩ | ⟨-, balancer, name, member, -, heq | heq⟩
      · exact heq ▸ h
      · exact heq ▸ h
      · exact heq ▸ LiveAccepted.run (s := { s with balancer }) h during
      · exact heq ▸ LiveAccepted.run (s := { s with balancer }) h during
    · exact h
  | sweep now during later after =>
    rw [State.step]
    split
    · have hswept := LiveAccepted.run (s := s.swept frontend now during) (h.checked now during) after
      rw [LiveAccepted, (finish_cases frontend _ later).1]
      exact hswept
    · exact h
  | stop now =>
    rw [State.step]
    split
    · exact h
    · exact h

/-- A sweep looks for a member in service, and a draining one is not. -/
theorem not_present_of_drained (haccepted : s.LiveAccepted) {session : Session Upstream}
    (h : s.Drained session) : s.present session.pool session.member = false := by
  refine Bool.eq_false_iff.mpr fun hpresent => ?_
  obtain ⟨pool, hpool, hid, member, hmember, hmemberId, hdraining, -⟩ := h
  obtain ⟨other, hother, hotherId, candidate, hcandidate, hcandidateId⟩ := exists_of_present hpresent
  obtain rfl := backend_eq_of_id haccepted hother hpool (hotherId.trans hid.symm)
  have hserving : candidate ∈ enabled other := List.mem_of_mem_filter hcandidate
  obtain ⟨hin, henabled⟩ := List.mem_filter.mp hserving
  obtain rfl := member_eq_of_id haccepted hother hin hmember (hcandidateId.trans hmemberId.symm)
  rw [hdraining] at henabled
  cases of_decide_eq_true henabled

/-- A datagram takes no session out of a table that has room. -/
theorem datagram_stays {client : Client} {now : ℕ} {opens : Bool} {during : List Outside}
    (hroom : s.sessions.length < s.sessions.limit) {row : Client × Session Upstream}
    (hrow : row ∈ s.sessions.entries.rows) : ∃ session, session.pin = row.2.pin ∧
      (row.1, session) ∈ (s.step frontend (.datagram client now opens during)).sessions.entries.rows := by
  rw [step]
  split
  · rcases forward_cases frontend s client now opens during with
      ⟨sessions, session, hrefresh, heq⟩ | ⟨balancer, heq⟩ |
        ⟨hnone, balancer, name, member, -, heq | heq⟩
    · rw [heq]
      obtain ⟨held, hheld, hpin⟩ := (Sessions.mem_refresh_iff now).mpr ⟨row.2, hrow, rfl⟩
      rw [hrefresh] at hheld
      exact ⟨held, hpin, hheld⟩
    · rw [heq]
      exact ⟨row.2, rfl, hrow⟩
    · rw [heq, run_outside_sessions]
      exact ⟨row.2, rfl, hrow⟩
    · rw [heq]
      refine ⟨row.2, rfl, Sessions.mem_insert_of_mem hroom ?_ hrow⟩
      rintro rfl
      rw [Sessions.holds, Assoc.get_eq_some.mpr hrow] at hnone
      cases hnone
  · exact ⟨row.2, rfl, hrow⟩

/-- Only the deadline of a frontend that drains takes what a sweep left. -/
theorem mem_finish {later : ℕ} {row : Client × Session Upstream} (h : row ∈ s.sessions.entries.rows) :
    row ∈ (s.finish frontend later).sessions.entries.rows ∨
      ∃ started, s.draining = some started ∧ drainLimit frontend s.live ≤ later - started := by
  rcases (finish_cases frontend s later).2 with heq | ⟨-, hdeadline⟩
  · rw [heq]
    exact .inl h
  · exact .inr hdeadline

/-- What a step does to the sessions of draining members hangs on the sweeps alone. -/
theorem stays_iff_noneDraining (haccepted : s.LiveAccepted) (event : Event) :
    s.DrainingStays frontend event ↔ s.NoneDraining frontend event := by
  cases event with
  | outside change => exact iff_of_true (outside_sessions change) trivial
  | stop now =>
    refine iff_of_true ?_ trivial
    rw [DrainingStays, step]
    split <;> rfl
  | datagram client now opens during =>
    exact iff_of_true (fun hroom row hrow => datagram_stays hroom hrow) trivial
  | sweep now during later after =>
    have hchecked : (s.checked frontend now during).LiveAccepted := haccepted.checked now during
    constructor
    · intro hstays hrunning row hrow hdrained
      have hin := mem_swept.mp ((hstays hrunning).1 row hrow hdrained)
      rw [not_present_of_drained hchecked hdrained] at hin
      cases hin.2
    · intro hnone hrunning
      refine ⟨fun row hrow hdrained => absurd hdrained (hnone hrunning row hrow), fun row hrow => ?_⟩
      rw [step, if_pos hrunning]
      have hafter : row ∈ (Runs.run outside (s.swept frontend now during) after).sessions.entries.rows := by
        rw [run_outside_sessions]
        exact hrow
      have hsame : (Runs.run outside (s.swept frontend now during) after).draining = s.draining := by
        rw [run_outside_draining]
        exact run_outside_draining during
      rw [← hsame]
      exact mem_finish hafter

/-- In a run the sessions of draining members stay until they end exactly when no sweep finds any. -/
theorem draining_stays_iff (frontend : FrontendId) {update : ConfigUpdate}
    (haccepted : Accepted update.config) (balancer : Balancer) (events : List Event) :
    Runs.Along (State.step frontend) (State.DrainingStays frontend) (start frontend update balancer)
        events ↔
      Runs.Along (State.step frontend) (State.NoneDraining frontend) (start frontend update balancer)
        events := by
  have hstart : (start frontend update balancer).LiveAccepted := haccepted
  exact @Runs.along_congr _ _ _ _ _ LiveAccepted (fun s event hs => hs.step event)
    (fun s event hs => stays_iff_noneDraining hs event) _ hstart events

theorem enabled_stays : validate (resolver 11 .enabled).config = .ok () ∧
    Runs.Along (State.step ⟨"dns"⟩) (State.DrainingStays ⟨"dns"⟩)
      (start ⟨"dns"⟩ (resolver 11 .enabled) .new)
      [.datagram asking 0 true [], .sweep 1 [] 1 []] := by
  have haccepted : validate (resolver 11 .enabled).config = .ok () := by decide
  refine ⟨haccepted, (draining_stays_iff ⟨"dns"⟩ (validate_eq_ok.mp haccepted) .new _).mpr
    ⟨trivial, fun _ => ?_, trivial⟩⟩
  decide +kernel

/-- The loop after a datagram and a delivery that sets the member to draining. -/
def drained : State :=
  State.step ⟨"dns"⟩ (State.step ⟨"dns"⟩ (start ⟨"dns"⟩ (resolver 11 .enabled) .new)
    (.datagram asking 0 true [])) (.outside (.deliver (resolver 11 .draining)))

/-- A member that is set to draining loses its session in the next sweep. -/
theorem draining_dropped : validate (resolver 11 .enabled).config = .ok () ∧
    validate (resolver 11 .draining).config = .ok () ∧
    ¬ Runs.Along (State.step ⟨"dns"⟩) (State.DrainingStays ⟨"dns"⟩)
      (start ⟨"dns"⟩ (resolver 11 .enabled) .new)
      [.datagram asking 0 true [], .outside (.deliver (resolver 11 .draining)), .sweep 1 [] 1 []] := by
  refine ⟨by decide, by decide, ?_⟩
  rintro ⟨-, -, hstays, -⟩
  have hleft : ¬ ∀ row ∈ (drained.tuned ⟨"dns"⟩ 1).sessions.entries.rows,
      (drained.checked ⟨"dns"⟩ 1 []).Drained row.2 →
        row ∈ (drained.swept ⟨"dns"⟩ 1 []).sessions.entries.rows := by decide +kernel
  exact hleft (hstays (by decide +kernel)).1

end State

end EkEk.Dataplane.UdpProxy
