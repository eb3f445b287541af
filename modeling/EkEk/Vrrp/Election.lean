import EkEk.Vrrp.State
import Mathlib.Data.Fintype.Lattice
import Mathlib.Data.Finite.Prod
import Mathlib.Data.Prod.Lex

/-!
# An election among masters

Reference: `crates/ek-ek-vrrp/src/state.rs`, `crates/ek-ek-vrrp/tests/election.rs`.

Any number of machines of one virtual router are master at once, and each of them hears what every
other one sent. All a machine compares is the claim in front of it with its own, so agreement has to
come out of local comparisons, in whatever order the packets arrive.

`Standing` is the invariant of the exchange: a machine is master exactly as long as no claim that
beats it has arrived. `Machine.Beats` says which claims those are, and the count byte is part of it:
a sender with more than 255 addresses beats nobody, because nobody can read what it sends.
-/

namespace EkEk.Vrrp

namespace Machine

/-- What an election compares: the priority first, then the address. -/
def rank (m : Machine) : ℕ ×ₗ ℕ :=
  toLex (m.settings.priority.toNat, m.settings.address.toNat)

/-- The advertisement this node sends now, as the bytes towards one address. -/
def packet (m : Machine) (receiver : Ipv4Addr) : List UInt8 :=
  (m.advertisement m.settings.priority).encode m.settings.address receiver

/-- Whether what `sender` sends makes `m` stand down. -/
def Beats (sender m : Machine) : Prop :=
  sender.settings.virtualAddresses.length ≤ 255 ∧ m.rank < sender.rank

theorem outrankedBy_iff (m : Machine) (sender : Ipv4Addr) (priority : UInt8) :
    m.outrankedBy sender priority = true ↔
      m.rank < toLex (priority.toNat, sender.toNat) := by
  rw [outrankedBy, rank, Prod.Lex.toLex_lt_toLex, Bool.or_eq_true, Bool.and_eq_true,
    decide_eq_true_iff, decide_eq_true_iff, beq_iff_eq, ← UInt8.toNat_inj, Ipv4Addr.lt_iff,
    gt_iff_lt, UInt8.lt_iff_toNat_lt, eq_comm]

end Machine

/-- One packet arriving: who sent it, who hears it and when. -/
structure Delivery (ι : Type) where
  sender : ι
  receiver : ι
  now : Instant

/-- The machines and everything each of them has asked its caller to do. -/
abbrev Net (ι : Type) := ι → Machine × List Action

section Election

variable {ι : Type}

/-- Hand one packet to the machine it was sent to. What was sent is fixed by `machines`, the
machines as they stood when the exchange began. -/
def deliver [DecidableEq ι] (machines : ι → Machine) (net : Net ι) (delivery : Delivery ι) : Net ι :=
  let hears := (net delivery.receiver).1
  let sender := machines delivery.sender
  let heard := hears.receive sender.settings.address
    (sender.packet (machines delivery.receiver).settings.address) delivery.now
  Function.update net delivery.receiver (heard.1, (net delivery.receiver).2 ++ heard.2)

/-- Hand over packets in the order given. -/
def exchange [DecidableEq ι] (machines : ι → Machine) (deliveries : List (Delivery ι)) : Net ι :=
  deliveries.foldl (deliver machines) fun i => (machines i, [])

/-- Masters of one virtual router that know each other. -/
structure Rivals (machines : ι → Machine) : Prop where
  vrid : ∀ i j, (machines i).settings.vrid = (machines j).settings.vrid
  addresses : Function.Injective fun i => (machines i).settings.address
  priority : ∀ i, 1 ≤ (machines i).settings.priority
  peers : ∀ i j, i ≠ j → (machines j).settings.address ∈ (machines i).settings.peers
  master : ∀ i, (machines i).state = .master

/-- Every machine's packet reaches every other machine, and nothing else is delivered. -/
structure AllDelivered (deliveries : List (Delivery ι)) : Prop where
  others : ∀ delivery ∈ deliveries, delivery.sender ≠ delivery.receiver
  each : ∀ i j, i ≠ j → ∃ delivery ∈ deliveries, delivery.sender = i ∧ delivery.receiver = j

/-- The machine no other one outranks. -/
def Greatest (machines : ι → Machine) (i : ι) : Prop :=
  ∀ j, j ≠ i → (machines j).rank < (machines i).rank

/-- The election is over: the greatest machine is master, and every other one is backup and has
asked for its addresses to be dropped. -/
def Settled (machines : ι → Machine) (net : Net ι) : Prop :=
  ∃ i, Greatest machines i ∧ (net i).1.state = .master ∧
    ∀ j, j ≠ i → (net j).1.state = .backup ∧ .dropAddresses ∈ (net j).2

/-! ## What one delivery does -/

/-- Whether a claim that beats machine `i` is among the deliveries. -/
def Beaten (machines : ι → Machine) (deliveries : List (Delivery ι)) (i : ι) : Prop :=
  ∃ delivery ∈ deliveries, delivery.receiver = i ∧
    (machines delivery.sender).Beats (machines i)

/-- Where machine `i` stands after the deliveries. -/
structure Standing (machines : ι → Machine) (deliveries : List (Delivery ι)) (net : Net ι)
    (i : ι) : Prop where
  settings : (net i).1.settings = (machines i).settings
  holds : ¬ Beaten machines deliveries i → (net i).1.state = .master
  yields : Beaten machines deliveries i →
    (net i).1.state = .backup ∧ .dropAddresses ∈ (net i).2

/-- A master that hears a claim it does not give way to does nothing, and otherwise stands down. -/
theorem heard_master {m : Machine} (hm : m.state = .master) (sender : Ipv4Addr)
    {sent : Advertisement} (hpriority : sent.priority ≠ givingUp) (now : Instant) :
    m.heard sender sent now
      = if m.outrankedBy sender sent.priority then m.becomeBackup now .strongerPeer
        else (m, []) := by
  rw [Machine.heard, hm]
  exact if_neg hpriority

/-- Whatever a backup hears it stays a backup. -/
theorem heard_backup {m : Machine} (hm : m.state = .backup) (sender : Ipv4Addr)
    (sent : Advertisement) (now : Instant) :
    (m.heard sender sent now).1.settings = m.settings ∧
      (m.heard sender sent now).1.state = .backup := by
  rw [Machine.heard, hm]
  unfold Machine.backupHeard
  split_ifs <;> exact ⟨rfl, hm⟩

/-- What a rival's packet does to a machine: a master it beats stands down, and everybody else
keeps the state it had. -/
theorem receive_packet {machines : ι → Machine} (h : Rivals machines) {i j : ι} (hne : j ≠ i)
    {m : Machine} (hsettings : m.settings = (machines i).settings) (hstate : m.state ≠ .initialise)
    (now : Instant) :
    let heard := m.receive (machines j).settings.address
      ((machines j).packet (machines i).settings.address) now
    heard.1.settings = m.settings ∧
      ((machines j).Beats (machines i) → heard.1.state = .backup ∧
        (m.state = .master → .dropAddresses ∈ heard.2)) ∧
      (¬ (machines j).Beats (machines i) → heard.1.state = m.state) := by
  intro heard
  by_cases hcount : (machines j).settings.virtualAddresses.length ≤ 255
  swap
  · -- Too many addresses: the packet is dropped before the state is looked at.
    have hheard : heard = ({ m with ignored := m.ignored + 1 }, []) :=
      Machine.receive_encode_of_count (not_le.mp hcount) _ _ now
    rw [hheard]
    exact ⟨rfl, fun hbeats => absurd hbeats.1 hcount, fun _ => rfl⟩
  set sent := (machines j).advertisement (machines j).settings.priority
  have hheard : heard = { m with accepted := m.accepted + 1 }.heard
      (machines j).settings.address sent.clamped now := by
    rw [← Machine.receive_encode (by rw [hsettings]; exact h.peers i j hne.symm)
      (by rw [hsettings]; exact h.vrid j i) hcount now, hsettings]
    rfl
  -- A machine that takes part never sends the priority of one that gives up.
  have hnonzero : sent.clamped.priority ≠ givingUp := by
    intro hzero
    have hpriority := h.priority j
    rw [show (machines j).settings.priority = givingUp from hzero] at hpriority
    exact absurd hpriority (by decide)
  have hbeats : { m with accepted := m.accepted + 1 }.outrankedBy (machines j).settings.address
      sent.clamped.priority = true ↔ (machines j).Beats (machines i) := by
    rw [Machine.outrankedBy_iff, Machine.Beats, Machine.rank, Machine.rank, hsettings]
    exact ⟨fun hlt => ⟨hcount, hlt⟩, fun hlt => hlt.2⟩
  rw [hheard]
  have hkind : m.state = .backup ∨ m.state = .master := by
    cases hm : m.state with
    | initialise => exact absurd hm hstate
    | backup => exact .inl rfl
    | master => exact .inr rfl
  rcases hkind with hm | hm
  · obtain ⟨hkept, hstays⟩ := heard_backup (m := { m with accepted := m.accepted + 1 }) hm
      (machines j).settings.address sent.clamped now
    refine ⟨hkept, fun _ => ⟨hstays, fun hmaster => ?_⟩, fun _ => hstays.trans hm.symm⟩
    exact State.noConfusion (hm.symm.trans hmaster)
  · rw [heard_master (m := { m with accepted := m.accepted + 1 }) hm _ hnonzero]
    by_cases hb : (machines j).Beats (machines i)
    · rw [if_pos (hbeats.mpr hb)]
      exact ⟨rfl, fun _ => ⟨rfl, fun _ => List.mem_cons_of_mem _ (List.mem_singleton_self _)⟩,
        fun hnot => absurd hb hnot⟩
    · rw [if_neg (mt hbeats.mp hb)]
      exact ⟨rfl, fun hyes => absurd hyes hb, fun _ => rfl⟩

theorem beaten_snoc {machines : ι → Machine} {deliveries : List (Delivery ι)}
    {delivery : Delivery ι} {i : ι} :
    Beaten machines (deliveries ++ [delivery]) i ↔
      Beaten machines deliveries i ∨
        delivery.receiver = i ∧ (machines delivery.sender).Beats (machines i) := by
  simp only [Beaten, List.mem_append, List.mem_singleton, or_and_right, exists_or, exists_eq_left]

theorem Standing.state_ne {machines : ι → Machine} {deliveries : List (Delivery ι)} {net : Net ι}
    {i : ι} (h : Standing machines deliveries net i) : (net i).1.state ≠ .initialise := by
  by_cases hbeaten : Beaten machines deliveries i
  · rw [(h.yields hbeaten).1]
    exact State.noConfusion
  · rw [h.holds hbeaten]
    exact State.noConfusion

/-- One delivery keeps the invariant. -/
theorem standing_deliver [DecidableEq ι] {machines : ι → Machine} (h : Rivals machines)
    {deliveries : List (Delivery ι)} {delivery : Delivery ι}
    (hother : delivery.sender ≠ delivery.receiver) {net : Net ι}
    (hnet : ∀ i, Standing machines deliveries net i) (i : ι) :
    Standing machines (deliveries ++ [delivery]) (deliver machines net delivery) i := by
  by_cases hi : i = delivery.receiver
  · subst hi
    obtain ⟨hsettings, hyields, hholds⟩ := receive_packet h hother (hnet _).settings
      (hnet _).state_ne delivery.now
    have hstands := hnet delivery.receiver
    simp only [deliver]
    constructor
    · rw [Function.update_self]
      exact hsettings.trans hstands.settings
    · intro hfree
      rw [beaten_snoc, not_or] at hfree
      rw [Function.update_self]
      exact (hholds fun hb => hfree.2 ⟨rfl, hb⟩).trans (hstands.holds hfree.1)
    · intro hbeaten
      rw [Function.update_self]
      by_cases hbefore : Beaten machines deliveries delivery.receiver
      · -- Already a backup: it stays one whatever arrives.
        obtain ⟨hbackup, hdropped⟩ := hstands.yields hbefore
        refine ⟨?_, List.mem_append_left _ hdropped⟩
        by_cases hb : (machines delivery.sender).Beats (machines delivery.receiver)
        · exact (hyields hb).1
        · exact (hholds hb).trans hbackup
      · obtain ⟨hbackup, hdropped⟩ := hyields ((beaten_snoc.mp hbeaten).resolve_left hbefore).2
        exact ⟨hbackup, List.mem_append_right _ (hdropped (hstands.holds hbefore))⟩
  · have hsame : Beaten machines (deliveries ++ [delivery]) i ↔ Beaten machines deliveries i := by
      rw [beaten_snoc]
      exact or_iff_left fun hnew => hi hnew.1.symm
    obtain ⟨hsettings, hholds, hyields⟩ := hnet i
    simp only [deliver]
    constructor <;> rw [Function.update_of_ne hi]
    · exact hsettings
    · rwa [hsame]
    · rwa [hsame]

/-- The invariant holds after any deliveries between rivals. -/
theorem standing_exchange [DecidableEq ι] {machines : ι → Machine} (h : Rivals machines)
    {deliveries : List (Delivery ι)}
    (hothers : ∀ delivery ∈ deliveries, delivery.sender ≠ delivery.receiver) (i : ι) :
    Standing machines deliveries (exchange machines deliveries) i := by
  induction deliveries using List.reverseRecOn generalizing i with
  | nil =>
    refine ⟨rfl, fun _ => h.master i, ?_⟩
    rintro ⟨delivery, hmem, _⟩
    exact absurd hmem List.not_mem_nil
  | append_singleton deliveries delivery ih =>
    have hlast := hothers delivery (List.mem_append_right _ (List.mem_singleton_self _))
    have hinit := ih fun d hd => hothers d (List.mem_append_left _ hd)
    rw [exchange, List.foldl_append]
    exact standing_deliver h hlast hinit i

/-! ## When the election settles -/

theorem rank_injective {machines : ι → Machine} (h : Rivals machines) :
    Function.Injective fun i => (machines i).rank := by
  intro i j hij
  apply h.addresses
  apply Ipv4Addr.toNat_injective
  exact (Prod.ext_iff.mp (toLex.injective hij)).2

/-- Among finitely many machines one outranks the others. -/
theorem exists_greatest [Finite ι] [Nonempty ι] {machines : ι → Machine} (h : Rivals machines) :
    ∃ i, Greatest machines i := by
  obtain ⟨i, hi⟩ := Finite.exists_max fun i => (machines i).rank
  exact ⟨i, fun j hj => lt_of_le_of_ne (hi j) fun heq => hj (rank_injective h heq)⟩

/-- Once everything is delivered a machine is beaten exactly when somebody beats it. -/
theorem beaten_iff {machines : ι → Machine} {deliveries : List (Delivery ι)}
    (hall : AllDelivered deliveries) (i : ι) :
    Beaten machines deliveries i ↔ ∃ j, j ≠ i ∧ (machines j).Beats (machines i) := by
  constructor
  · rintro ⟨delivery, hmem, rfl, hbeats⟩
    exact ⟨delivery.sender, hall.others delivery hmem, hbeats⟩
  · rintro ⟨j, hne, hbeats⟩
    obtain ⟨delivery, hmem, hsender, hreceiver⟩ := hall.each j i hne
    exact ⟨delivery, hmem, hreceiver, by rwa [hsender]⟩

/-- The greatest machine settles the election when its packets can be read, or when there is
nobody to read them. -/
theorem settled_of_greatest [DecidableEq ι] {machines : ι → Machine} (h : Rivals machines)
    {deliveries : List (Delivery ι)} (hall : AllDelivered deliveries) {i : ι}
    (hi : Greatest machines i)
    (hread : (machines i).settings.virtualAddresses.length ≤ 255 ∨ ∀ j, j = i) :
    Settled machines (exchange machines deliveries) := by
  have hstands := standing_exchange h hall.others
  refine ⟨i, hi, (hstands i).holds ?_, ?_⟩
  · rw [beaten_iff hall]
    rintro ⟨j, hne, _, hlt⟩
    exact lt_asymm hlt (hi j hne)
  · intro j hne
    have hcount := hread.resolve_right fun honly => hne (honly j)
    exact (hstands j).yields ((beaten_iff hall j).mpr ⟨i, hne.symm, hcount, hi j hne⟩)

/-- The greatest machine settles nothing when its packets cannot be read: the next one below it
hears no claim that beats its own. -/
theorem not_settled_of_greatest [DecidableEq ι] [Finite ι] {machines : ι → Machine} (h : Rivals machines)
    {deliveries : List (Delivery ι)} (hall : AllDelivered deliveries) {i : ι}
    (hi : Greatest machines i) (hcount : 255 < (machines i).settings.virtualAddresses.length)
    {other : ι} (hother : other ≠ i) :
    ¬ Settled machines (exchange machines deliveries) := by
  have hnonempty : Nonempty { j // j ≠ i } := ⟨⟨other, hother⟩⟩
  obtain ⟨⟨next, hnext⟩, hmax⟩ := Finite.exists_max fun j : { j // j ≠ i } => (machines j).rank
  have hmaster : ((exchange machines deliveries) next).1.state = .master := by
    apply (standing_exchange h hall.others next).holds
    rw [beaten_iff hall]
    rintro ⟨j, _, hread, hlt⟩
    by_cases hji : j = i
    · subst hji
      exact absurd hread (not_le.mpr hcount)
    · exact absurd hlt (not_lt.mpr (hmax ⟨j, hji⟩))
  rintro ⟨top, htop, _, hbackup⟩
  by_cases hnt : next = top
  · subst hnt
    exact lt_asymm (htop i hnext.symm) (hi next hnext)
  · rw [(hbackup next hnt).1] at hmaster
    exact State.noConfusion hmaster

/-- Whatever the order of delivery, an election among masters settles exactly when the machine that
should win it carries no more addresses than an advertisement can count, or is alone. -/
theorem exchange_settled_iff [DecidableEq ι] [Finite ι] [Nonempty ι] {machines : ι → Machine}
    (h : Rivals machines) {deliveries : List (Delivery ι)} (hall : AllDelivered deliveries) :
    Settled machines (exchange machines deliveries) ↔
      ∃ i, Greatest machines i ∧
        ((machines i).settings.virtualAddresses.length ≤ 255 ∨ ∀ j, j = i) := by
  constructor
  · intro hsettled
    obtain ⟨i, hi⟩ := exists_greatest h
    refine ⟨i, hi, ?_⟩
    by_contra hnot
    rw [not_or, not_le, not_forall] at hnot
    obtain ⟨hcount, other, hother⟩ := hnot
    exact not_settled_of_greatest h hall hi hcount hother hsettled
  · rintro ⟨i, hi, hread⟩
    exact settled_of_greatest h hall hi hread

end Election

/-! ## Two masters of equal priority -/

/-- A master at `10.0.0.1` or `10.0.0.2` that carries the addresses given. -/
def twin (carried : List Ipv4Addr) (second : Bool) : Machine where
  settings := {
    vrid := 7
    priority := 100
    interval := 1000000000
    preempt := true
    address := if second then ⟨10, 0, 0, 2⟩ else ⟨10, 0, 0, 1⟩
    virtualAddresses := carried
    peers := [if second then ⟨10, 0, 0, 1⟩ else ⟨10, 0, 0, 2⟩] }
  configured := 100
  state := .master
  advertiseAt := some 0
  claimAt := none
  accepted := 0
  ignored := 0

/-- Both packets, the stronger claim first. -/
def bothWays : List (Delivery Bool) := [⟨true, false, 0⟩, ⟨false, true, 1⟩]

theorem rivals_twin (carried : List Ipv4Addr) : Rivals (twin carried) where
  vrid := fun _ _ => rfl
  addresses := by
    intro i j hij
    cases i <;> cases j <;> first | rfl | exact absurd hij (by simp [twin])
  priority := fun _ => (by decide : (1 : UInt8) ≤ 100)
  peers := by
    intro i j hne
    cases i <;> cases j <;> first | exact absurd rfl hne | exact List.mem_singleton_self _
  master := fun _ => rfl

theorem allDelivered_bothWays : AllDelivered bothWays where
  others := by decide
  each := by
    intro i j hne
    cases i <;> cases j <;> first | exact absurd rfl hne | decide

theorem greatest_twin (carried : List Ipv4Addr) : Greatest (twin carried) true := by
  intro j hne
  cases j with
  | true => exact absurd rfl hne
  | false => exact Prod.Lex.toLex_lt_toLex.mpr (.inr ⟨rfl, by simp [twin, Ipv4Addr.toNat]⟩)

/-- Two masters with one address between them settle it. -/
theorem twins_settle :
    Settled (twin [⟨10, 0, 0, 9⟩]) (exchange (twin [⟨10, 0, 0, 9⟩]) bothWays) :=
  (exchange_settled_iff (rivals_twin _) allDelivered_bothWays).mpr
    ⟨true, greatest_twin _, .inl (by decide)⟩

/-- Two masters with 256 addresses between them both stay master. -/
theorem crowded_twins_do_not_settle :
    ¬ Settled (twin ((List.range 256).map fun i => ⟨10, 0, 1, UInt8.ofNat i⟩))
      (exchange (twin ((List.range 256).map fun i => ⟨10, 0, 1, UInt8.ofNat i⟩)) bothWays) := by
  refine not_settled_of_greatest (rivals_twin _) allDelivered_bothWays (greatest_twin _) ?_
    (show false ≠ true from Bool.noConfusion)
  rw [show (twin ((List.range 256).map fun i => ⟨10, 0, 1, UInt8.ofNat i⟩) true).settings.virtualAddresses
      = (List.range 256).map fun i => ⟨10, 0, 1, UInt8.ofNat i⟩ from rfl, List.length_map,
    List.length_range]
  decide

end EkEk.Vrrp
