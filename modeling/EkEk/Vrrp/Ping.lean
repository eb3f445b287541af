import EkEk.Vrrp.Router

/-!
# Reading the gateway's answers off the socket

Reference: `crates/ek-ek-vrrp/src/ping.rs`, `echo.rs` and `header.rs`, with the loop of
`Router::check_gateway` in `router.rs`.

A raw socket sees every ICMP packet of the machine. `Pinger.collect` takes one arrival off its queue, and
says the same of an empty queue as of a packet that is not a reply to this process. The loop that reads the
answers ends there, so what a round hears is `echoes`, the replies in front of the first such packet, and
`counted_iff_readInTime` says what that does to an answer that has arrived.
-/

namespace EkEk.Vrrp

open OnesComplement
open Overflow (saturatingAdd toNat_saturatingAdd)

namespace Header

/-- The shortest IPv4 header, in bytes. -/
def shortest : ℕ := 20

/-- The source address an IPv4 header names. -/
def sender (bytes : List UInt8) : Option Ipv4Addr :=
  match bytes.drop 12 with
  | a :: b :: c :: d :: _ => some ⟨a, b, c, d⟩
  | _ => none

/-- The bytes after the IPv4 header. -/
def payload (bytes : List UInt8) : Option (List UInt8) := do
  let first ← bytes.head?
  -- the low nibble counts words of 32 bits
  let header := (first &&& 0x0F).toNat * 4
  if header < shortest then none
  else if header ≤ bytes.length then some (bytes.drop header)
  else none

end Header

/-- What a reply said. -/
structure Echo where
  identifier : UInt16
  sequence : UInt16
deriving DecidableEq, Repr

namespace Echo

/-- An echo reply, which answers. -/
def replyType : UInt8 := 0

/-- Bytes of an echo message before its payload. -/
def header : ℕ := 8

/-- The one's complement sum RFC 1071 describes, over the message alone. -/
def checksum (message : List UInt8) : UInt16 := ~~~ UInt16.ofNat (fold (sumPairs 0 message))

/-- The number two bytes stand for, the high one first. -/
def fromBeBytes (high low : UInt8) : UInt16 := UInt16.ofNat (high.toNat * 256 + low.toNat)

/-- Read an echo reply. -/
def reply (bytes : List UInt8) : Option Echo := do
  let first ← bytes.head?
  if first ≠ replyType then none
  else if bytes.length < header then none
  -- a correct message, its own checksum included, sums to zero
  else if checksum bytes ≠ 0 then none
  else some ⟨fromBeBytes (bytes.getD 4 0) (bytes.getD 5 0), fromBeBytes (bytes.getD 6 0) (bytes.getD 7 0)⟩

end Echo

namespace Pinger

/-- What one read of the socket comes to, when there is something to read. -/
abbrev Arrival := Except IoError (List UInt8)

/-- The most bytes one read takes. -/
def most : ℕ := 1500

/-- The answer in one packet, if it is a reply to the asker with this identifier. -/
def answerIn (identifier : UInt16) (packet : List UInt8) : Option (Ipv4Addr × Echo) := do
  let sender ← Header.sender packet
  let body ← Header.payload packet
  let echo ← Echo.reply body
  if echo.identifier ≠ identifier then none else some (sender, echo)

/-- Take what has arrived, and say what answered. -/
def collect (identifier : UInt16) :
    List Arrival → Except IoError (Option (Ipv4Addr × Echo)) × List Arrival
  | [] => (.ok none, [])
  | .error error :: rest => (.error error, rest)
  | .ok packet :: rest => (.ok (answerIn identifier (packet.take most)), rest)

/-- The answers a round reads: those in front of the first arrival that is none. -/
def echoes (identifier : UInt16) : List Arrival → List (Ipv4Addr × UInt16)
  | [] => []
  | .error _ :: _ => []
  | .ok packet :: rest =>
    match answerIn identifier (packet.take most) with
    | some (sender, echo) => (sender, echo.sequence) :: echoes identifier rest
    | none => []

end Pinger

/-- Read the answers that arrived, one arrival after the other, until the socket gives none. Says what
the check is then, and whether one of the answers ended a lost gateway. -/
def Check.drain (identifier : UInt16) (check : Check) : List Pinger.Arrival → Check × Bool
  | [] => (check, false)
  | arrival :: rest =>
    match (Pinger.collect identifier (arrival :: rest)).1 with
    | .ok (some (sender, echo)) =>
      if check.watch.gateway ≠ some (.v4 sender) then check.drain identifier rest
      else if check.waiting ≠ some echo.sequence then check.drain identifier rest
      else
        let answered := check.watch.answered
        let later := { check with watch := answered.1, waiting := none }.drain identifier rest
        (later.1, (answered.2 == some .restore) || later.2)
    | .ok none => (check, false)
    | .error _ => (check, false)

/-- What the loop reads off the socket is what a round with these echoes reads. -/
theorem Check.drain_eq (identifier : UInt16) (check : Check) (queue : List Pinger.Arrival) :
    check.drain identifier queue = check.collect (Pinger.echoes identifier queue) := by
  induction queue generalizing check with
  | nil => rfl
  | cons arrival rest ih =>
    cases arrival with
    | error error => rfl
    | ok packet =>
      rw [drain, Pinger.collect, Pinger.echoes]
      cases Pinger.answerIn identifier (packet.take Pinger.most) with
      | none => rfl
      | some answer =>
        obtain ⟨sender, echo⟩ := answer
        simp only [Check.collect]
        split
        · exact ih check
        · split
          · exact ih check
          · rw [ih]

namespace Check

/-- The check behind the question of a round: what is outstanding when one is due is missed, and so is one
that cannot be sent. -/
def afterAsking (check : Check) (round : Round) : Check :=
  let due := check.watch.due round.now
  match due.2 with
  | none => { check with watch := due.1 }
  | some gateway =>
    let missed : Check :=
      { check with watch := if check.waiting.isSome then due.1.missed.1 else due.1, waiting := none }
    match gateway with
    | .v6 _ => missed
    | .v4 _ =>
      match round.asked with
      | .ok () => { missed with sequence := check.sequence + 1, waiting := some (check.sequence + 1) }
      | .error _ => { missed with sequence := check.sequence + 1, watch := missed.watch.missed.1 }

/-- The check with its question answered. -/
def withAnswer (check : Check) : Check := { check with watch := check.watch.answered.1, waiting := none }

end Check

namespace Router

theorem noteMissed_checker (r : Router) (now : Instant) :
    (r.noteMissed now).1.checker =
      r.checker.map fun check => { check with watch := check.watch.missed.1 } := by
  rw [noteMissed]
  split
  · rename_i hnone
    rw [hnone]
    rfl
  · rename_i check hsome
    rw [hsome]
    dsimp only
    split <;> rfl

theorem missWaiting_checker (r : Router) (check : Check) (now : Instant) :
    (r.missWaiting check now).1.checker = some { check with
      watch := if check.waiting.isSome then check.watch.missed.1 else check.watch, waiting := none } := by
  rw [missWaiting]
  split
  · rw [noteMissed_checker]
    rfl
  · rfl

theorem askWhenDue_checker {r : Router} {check : Check} (h : r.checker = some check) (round : Round) :
    (r.askWhenDue round).1.checker = some (check.afterAsking round) := by
  rw [askWhenDue, h, Check.afterAsking]
  dsimp only
  cases (check.watch.due round.now).2 with
  | none => rfl
  | some gateway =>
    have hmissed := missWaiting_checker r { check with watch := (check.watch.due round.now).1 } round.now
    cases gateway with
    | v6 address => exact hmissed
    | v4 address =>
      dsimp only
      rw [ask, hmissed]
      dsimp only
      cases round.asked with
      | ok done => rfl
      | error error =>
        dsimp only
        rw [noteMissed_checker]
        rfl

/-- One round of the gateway check, reading its answers off the socket. -/
def checkSocket (r : Router) (identifier : UInt16) (queue : List Pinger.Arrival) (round : Round) :
    Router × List Action :=
  r.checkGateway { round with echoes := Pinger.echoes identifier queue }

theorem checkSocket_checker {r : Router} {check : Check} (h : r.checker = some check)
    (identifier : UInt16) (queue : List Pinger.Arrival) (round : Round) :
    (r.checkSocket identifier queue round).1.checker =
      some ((check.drain identifier queue).1.afterAsking round) := by
  rw [checkSocket, checkGateway, h, Check.drain_eq]
  dsimp only
  have hheard : (r.readAnswers check (Pinger.echoes identifier queue) round.now).1.checker
      = some (check.collect (Pinger.echoes identifier queue)).1 := by
    rw [readAnswers]
    dsimp only
    split <;> rfl
  exact askWhenDue_checker hheard { round with echoes := Pinger.echoes identifier queue }

end Router

/-! ## Which answers are counted -/

namespace Pinger

/-- The queue holds a reply from the gateway to the question that is outstanding. -/
def HoldsReply (identifier : UInt16) (gateway : Ipv4Addr) (sequence : UInt16) (queue : List Arrival) :
    Prop :=
  ∃ packet, .ok packet ∈ queue ∧ answerIn identifier packet = some (gateway, ⟨identifier, sequence⟩)

/-- Such a reply stands in the queue with nothing in front of it but replies to this process. -/
def ReadInTime (identifier : UInt16) (gateway : Ipv4Addr) (sequence : UInt16) (queue : List Arrival) :
    Prop :=
  ∃ before packet after, queue = before ++ .ok packet :: after ∧
    answerIn identifier (packet.take most) = some (gateway, ⟨identifier, sequence⟩) ∧
    ∀ arrival ∈ before, ∃ earlier answer, arrival = .ok earlier ∧
      answerIn identifier (earlier.take most) = some answer

theorem identifier_of_answerIn {identifier : UInt16} {packet : List UInt8} {sender : Ipv4Addr}
    {echo : Echo} (h : answerIn identifier packet = some (sender, echo)) :
    echo.identifier = identifier := by
  rw [answerIn] at h
  obtain ⟨sender', -, h⟩ := Option.bind_eq_some_iff.mp h
  obtain ⟨body, -, h⟩ := Option.bind_eq_some_iff.mp h
  obtain ⟨echo', -, h⟩ := Option.bind_eq_some_iff.mp h
  split at h
  · cases h
  · rename_i hsame
    obtain ⟨-, rfl⟩ := Prod.mk.inj (Option.some.inj h)
    exact not_not.mp hsame

theorem mem_echoes_iff {identifier : UInt16} {gateway : Ipv4Addr} {sequence : UInt16}
    {queue : List Arrival} :
    (gateway, sequence) ∈ echoes identifier queue ↔ ReadInTime identifier gateway sequence queue := by
  constructor
  · intro hmem
    induction queue with
    | nil => exact absurd hmem List.not_mem_nil
    | cons arrival rest ih =>
      cases arrival with
      | error error => exact absurd hmem List.not_mem_nil
      | ok packet =>
        rw [echoes] at hmem
        cases hanswer : answerIn identifier (packet.take most) with
        | none =>
          rw [hanswer] at hmem
          exact absurd hmem List.not_mem_nil
        | some answer =>
          obtain ⟨sender, echo⟩ := answer
          rw [hanswer] at hmem
          rcases List.mem_cons.mp hmem with hfirst | hlater
          · obtain ⟨rfl, rfl⟩ := Prod.mk.inj hfirst
            refine ⟨[], packet, rest, rfl, ?_, fun _ hnone => absurd hnone List.not_mem_nil⟩
            rw [hanswer, ← identifier_of_answerIn hanswer]
          · obtain ⟨before, reply, after, rfl, hreply, hbefore⟩ := ih hlater
            refine ⟨.ok packet :: before, reply, after, rfl, hreply, fun other hother => ?_⟩
            rcases List.mem_cons.mp hother with rfl | hother
            · exact ⟨packet, _, rfl, hanswer⟩
            · exact hbefore other hother
  · rintro ⟨before, packet, after, rfl, hreply, hbefore⟩
    induction before with
    | nil =>
      rw [List.nil_append, echoes, hreply]
      exact List.mem_cons_self
    | cons arrival rest ih =>
      obtain ⟨earlier, answer, rfl, hanswer⟩ := hbefore _ List.mem_cons_self
      rw [List.cons_append, echoes, hanswer]
      exact List.mem_cons_of_mem _ (ih fun other hother => hbefore other (List.mem_cons_of_mem _ hother))

end Pinger

namespace Check

variable {check : Check} {gateway : Ipv4Addr} {sequence : UInt16}

/-- Answers to other questions, and answers of other hosts, change nothing. -/
theorem collect_eq_self {echoes : List (Ipv4Addr × UInt16)}
    (h : ∀ echo ∈ echoes, check.watch.gateway = some (.v4 echo.1) → check.waiting ≠ some echo.2) :
    check.collect echoes = (check, false) := by
  induction echoes with
  | nil => rfl
  | cons echo rest ih =>
    have hrest := ih fun other hother => h other (List.mem_cons_of_mem _ hother)
    rw [collect]
    split
    · exact hrest
    · rename_i hsender
      rw [if_pos (h echo List.mem_cons_self (not_not.mp hsender))]
      exact hrest

/-- The first answer to the question is counted, and no other. -/
theorem collect_eq_withAnswer (hgateway : check.watch.gateway = some (.v4 gateway))
    (hwaiting : check.waiting = some sequence) {echoes : List (Ipv4Addr × UInt16)}
    (hmem : (gateway, sequence) ∈ echoes) : (check.collect echoes).1 = check.withAnswer := by
  induction echoes with
  | nil => exact absurd hmem List.not_mem_nil
  | cons echo rest ih =>
    rw [collect]
    split
    · rename_i hsender
      refine ih ((List.mem_cons.mp hmem).resolve_left ?_)
      rintro rfl
      exact hsender hgateway
    · split
      · rename_i hsequence
        refine ih ((List.mem_cons.mp hmem).resolve_left ?_)
        rintro rfl
        exact hsequence hwaiting
      · -- nothing is outstanding any more, so the rest is not looked at
        have hrest := @collect_eq_self check.withAnswer rest fun _ _ _ => (Option.some_ne_none _).symm
        exact congrArg Prod.fst hrest

end Check

namespace Watch

theorem answered_eq (watch : Watch) :
    watch.answered.1 = { watch with answeredOnce := true, missing := 0, lowered := false } := by
  unfold answered
  split
  · rfl
  · rename_i hlowered
    rw [Bool.not_eq_true] at hlowered
    rw [← hlowered]

/-- An answer leaves the moment of the next question alone. -/
theorem due_answered (watch : Watch) (now : Instant) :
    watch.answered.1.due now = ((watch.due now).1.answered.1, (watch.due now).2) := by
  obtain ⟨gateway, interval, threshold, answeredOnce, missing, lowered, dueAt⟩ := watch
  rw [answered_eq, answered_eq, due, due]
  cases gateway with
  | none => rfl
  | some gateway =>
    cases dueAt with
    | none => rfl
    | some moment =>
      dsimp only
      split <;> rfl

theorem missed_fields (watch : Watch) :
    watch.missed.1.gateway = watch.gateway ∧ watch.missed.1.answeredOnce = watch.answeredOnce ∧
      (watch.gateway.isSome → watch.answeredOnce = true →
        watch.missed.1.missing = saturatingAdd watch.missing 1) := by
  unfold missed
  split
  · rename_i hsilent
    refine ⟨rfl, rfl, fun hgateway hanswered => ?_⟩
    rw [hanswered, Bool.not_true, Bool.or_false] at hsilent
    rw [Option.isNone_iff_eq_none.mp hsilent] at hgateway
    cases hgateway
  · dsimp only
    split <;> exact ⟨rfl, rfl, fun _ _ => rfl⟩

theorem gateway_due (watch : Watch) (now : Instant) : (watch.due now).1.gateway = watch.gateway := by
  unfold due
  split
  · rfl
  · split
    · rfl
    · split <;> rfl

/-- A miss is not an answer. -/
theorem missed_ne_answered {watch : Watch} (hgateway : watch.gateway.isSome) :
    watch.missed.1 ≠ watch.answered.1 ∧ watch.missed.1.missed.1 ≠ watch.answered.1.missed.1 := by
  have hsame : watch.answered.1.gateway = watch.gateway := by rw [answered_eq]
  have honce : watch.answered.1.answeredOnce = true := by rw [answered_eq]
  have hzero : watch.answered.1.missing = 0 := by rw [answered_eq]
  obtain ⟨hgateway₁, honce₁, hmissing₁⟩ := watch.missed_fields
  obtain ⟨-, honce₂, hmissing₂⟩ := watch.missed.1.missed_fields
  obtain ⟨-, honce₃, hmissing₃⟩ := watch.answered.1.missed_fields
  by_cases hanswered : watch.answeredOnce = true
  · have hcounts (n : UInt32) : (saturatingAdd n 1).toNat = min (n.toNat + 1) 0xFFFFFFFF :=
      toNat_saturatingAdd n 1
    have hfirst := hmissing₁ hgateway hanswered
    have hsecond := hmissing₂ (hgateway₁ ▸ hgateway) (honce₁.trans hanswered)
    have hthird := hmissing₃ (hsame ▸ hgateway) honce
    rw [hfirst] at hsecond
    rw [hzero] at hthird
    refine ⟨fun heq => ?_, fun heq => ?_⟩
    · have hcount := congrArg UInt32.toNat (hfirst.symm.trans ((congrArg missing heq).trans hzero))
      rw [hcounts, UInt32.toNat_zero] at hcount
      omega
    · have hcount := congrArg UInt32.toNat (hsecond.symm.trans ((congrArg missing heq).trans hthird))
      rw [hcounts, hcounts, hcounts, UInt32.toNat_zero] at hcount
      omega
  · rw [Bool.not_eq_true] at hanswered
    refine ⟨fun heq => ?_, fun heq => ?_⟩
    · have hmark := honce₁.symm.trans ((congrArg answeredOnce heq).trans honce)
      exact Bool.noConfusion (hanswered.symm.trans hmark)
    · have hmark := (honce₂.trans honce₁).symm.trans ((congrArg answeredOnce heq).trans (honce₃.trans honce))
      exact Bool.noConfusion (hanswered.symm.trans hmark)

end Watch

/-- A question that is left outstanding is told from one that was answered, whether or not the next one
is due. -/
theorem Check.afterAsking_ne {check : Check} (hgateway : check.watch.gateway.isSome)
    (hwaiting : check.waiting.isSome) (round : Round) :
    check.afterAsking round ≠ check.withAnswer.afterAsking round := by
  have hdue : ((check.watch.due round.now).1).gateway.isSome := by
    rw [Watch.gateway_due]
    exact hgateway
  obtain ⟨hone, htwo⟩ := Watch.missed_ne_answered hdue
  rw [afterAsking, afterAsking, withAnswer, Watch.due_answered]
  dsimp only
  rw [if_pos hwaiting]
  intro heq
  cases hask : (check.watch.due round.now).2 with
  | none =>
    rw [hask] at heq
    have hnone : check.waiting = none := congrArg Check.waiting heq
    rw [hnone] at hwaiting
    cases hwaiting
  | some gateway =>
    rw [hask] at heq
    cases gateway with
    | v6 address => exact hone (congrArg Check.watch heq)
    | v4 address =>
      dsimp only at heq
      cases hasked : round.asked with
      | ok done =>
        rw [hasked] at heq
        exact hone (congrArg Check.watch heq)
      | error error =>
        rw [hasked] at heq
        exact htwo (congrArg Check.watch heq)

/-- **An answer counts exactly when it is read in time.** A round takes the outstanding question for
answered, and then asks when it is due with nothing outstanding, exactly when the reply stands in the
queue with nothing in front of it but replies to this process. -/
theorem counted_iff_readInTime {r : Router} {check : Check} {gateway : Ipv4Addr} {sequence : UInt16}
    (hcheck : r.checker = some check) (hgateway : check.watch.gateway = some (.v4 gateway))
    (hwaiting : check.waiting = some sequence) (identifier : UInt16) (queue : List Pinger.Arrival)
    (round : Round) :
    (r.checkSocket identifier queue round).1.checker = some (check.withAnswer.afterAsking round) ↔
      Pinger.ReadInTime identifier gateway sequence queue := by
  rw [Router.checkSocket_checker hcheck, Check.drain_eq, ← Pinger.mem_echoes_iff]
  refine ⟨fun hcounted => ?_, fun hmem => by rw [Check.collect_eq_withAnswer hgateway hwaiting hmem]⟩
  by_contra hmem
  have hsame : check.collect (Pinger.echoes identifier queue) = (check, false) := by
    refine Check.collect_eq_self fun echo hecho hsender hsequence => hmem ?_
    obtain ⟨rfl⟩ := Option.some.inj (hgateway.symm.trans hsender)
    obtain rfl := Option.some.inj (hwaiting.symm.trans hsequence)
    exact hecho
  rw [hsame] at hcounted
  refine Check.afterAsking_ne ?_ ?_ round (Option.some.inj hcounted)
  · rw [hgateway]
    rfl
  · rw [hwaiting]
    rfl

/-! ## A reply behind somebody else's -/

/-- A reply of the host 10.0.0.254, with a given identifier and the checksum that goes with it. -/
def replyPacket (identifier sum : UInt8) : List UInt8 :=
  [0x45, 0, 0, 28, 0, 0, 0, 0, 64, 1, 0, 0, 10, 0, 0, 254, 10, 0, 0, 1,
    0, 0, 0xFF, sum, 0, identifier, 0, 2]

/-- A node whose gateway has answered before, and that is due to ask its third question. -/
def pinging : Router where
  machine := .new {
    vrid := 7
    priority := 100
    interval := 1000
    preempt := true
    address := ⟨10, 0, 0, 1⟩
    virtualAddresses := [⟨10, 0, 0, 9⟩]
    peers := [⟨10, 0, 0, 2⟩] }
  carrier := ⟨⟨2, []⟩, [⟨.v4 ⟨10, 0, 0, 9⟩, 24⟩], none, false, 0⟩
  checker := some ⟨⟨some (.v4 ⟨10, 0, 0, 254⟩), 2000, 1, true, 0, false, some 4000⟩, 2, some 2⟩
  peers := [⟨10, 0, 0, 2⟩]
  demotedPriority := 50
  done := []

/-- A reply that stands behind another reply to this process is counted. -/
theorem counted_behind_own_reply :
    (pinging.checkSocket 7 [.ok (replyPacket 7 0xF6), .ok (replyPacket 7 0xF6)]
        ⟨[], [], .ok (), 4000⟩).1.checker =
      some ⟨⟨some (.v4 ⟨10, 0, 0, 254⟩), 2000, 1, true, 0, false, some 6000⟩, 3, some 3⟩ := by
  have hcounted := @counted_iff_readInTime pinging
    ⟨⟨some (.v4 ⟨10, 0, 0, 254⟩), 2000, 1, true, 0, false, some 4000⟩, 2, some 2⟩ ⟨10, 0, 0, 254⟩ 2 rfl rfl
    rfl 7 [.ok (replyPacket 7 0xF6), .ok (replyPacket 7 0xF6)] ⟨[], [], .ok (), 4000⟩
  refine hcounted.mpr ⟨[.ok (replyPacket 7 0xF6)], replyPacket 7 0xF6, [], rfl, ?_, fun arrival hmem => ?_⟩
  · decide +kernel
  · exact ⟨replyPacket 7 0xF6, (⟨10, 0, 0, 254⟩, ⟨7, 2⟩), List.mem_singleton.mp hmem, by decide +kernel⟩

/-- A reply that stands behind another process's is missed: the round lowers the claim. -/
theorem missed_behind_foreign_reply :
    ¬ ∀ (r : Router) (check : Check) (gateway : Ipv4Addr) (sequence identifier : UInt16)
        (queue : List Pinger.Arrival) (round : Round),
      r.checker = some check → check.watch.gateway = some (.v4 gateway) → check.waiting = some sequence →
      Pinger.HoldsReply identifier gateway sequence queue →
        (r.checkSocket identifier queue round).1.checker = some (check.withAnswer.afterAsking round) := by
  intro h
  have hcounted := h pinging _ ⟨10, 0, 0, 254⟩ 2 7 [.ok (replyPacket 9 0xF4), .ok (replyPacket 7 0xF6)]
    ⟨[], [], .ok (), 4000⟩ rfl rfl rfl
    ⟨replyPacket 7 0xF6, List.mem_cons_of_mem _ List.mem_cons_self, by decide +kernel⟩
  exact absurd hcounted (by decide +kernel)

end EkEk.Vrrp
