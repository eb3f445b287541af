import EkEk.Config.Config
import EkEk.Tls.Order

/-!
# Driving an order

Reference: `crates/ek-ek-tls/src/acme.rs`, with the attempts of `attempt.rs`.

`drive` sends what a flow asks for and hands back what the server answers, `run` closes the challenge
path behind it, and `obtainPlannedOver` tries again where the fault might pass. The server is the list
of what becomes of the requests, in their order. A list that is too short leaves the driver waiting, and
it has then not returned.

Whatever is recorded on the way changes a world of the caller's. `drive_keeps` and `run_keeps` are the
rules for it: what every recording keeps holds when the driver is done, and at the end of an attempt the
path was closed. The waits between requests are left out.
-/

namespace EkEk.Tls

open Checked

/-- What an order has reached that has to outlive the process driving it. -/
structure Reached where
  orderUrl : Option String
  publication : Publication
deriving DecidableEq

/-- One answer, with the nonce the server attached to it. -/
structure Reply where
  answer : Answer
  nonce : Option String
deriving DecidableEq, Repr

/-- What becomes of requests. -/
abbrev Replies := List (Except Failure Reply)

/-- What an order produced. -/
structure Obtained where
  chainPem : List UInt8
  keyPem : List UInt8
deriving DecidableEq, Repr

/-- What the TLS library does with private keys, and whether a transport can be built. -/
structure Keys (Key : Type) where
  thumbprint : Key → Except Failure String
  sign : Key → Identify → Option String → String → String → Option String → Except Failure String
  /-- A signing request for some names, in DER. -/
  requestWith : List String → Key → Except Failure (List UInt8)
  toPem : Key → Except Failure (List UInt8)
  fromPem : List UInt8 → Except Failure Key
  https : AcmeSettings → Except Failure Unit

/-- How one order is driven. -/
structure Plan (Key : Type) where
  key : Option Key
  resume : Option String

/-- What has been reached so far. -/
def Flow.reached (flow : Flow) : Reached := ⟨flow.order, flow.published⟩

/-- The variables of the loop. -/
structure Driving where
  flow : Flow
  nonce : Option String
  live : Reached
  rejected : ℕ

/-- How driving ended, if it did, with what was recorded last and what the server has not been asked
for yet. -/
structure Driven (W : Type) where
  outcome : Option (Except Failure String)
  live : Reached
  world : W
  left : Replies

/-- How an attempt or an order ended, if it did. -/
structure Ran (α W : Type) where
  outcome : Option (Except Failure α)
  world : W
  left : Replies

section

variable {Key W : Type} (lib : Libraries) (keys : Keys Key) (account : Key)
  (record : Reached → W → Except Failure Unit × W)

/-- Record what changed since it was last recorded, before the ask goes out. -/
def note (driving : Driving) (world : W) : Except Failure Unit × Driving × W :=
  if driving.flow.reached = driving.live then (.ok (), driving, world)
  else
    -- remembered before the attempt, because one that fails may have left something behind
    let driving := { driving with live := driving.flow.reached }
    let (recorded, world) := record driving.live world
    (recorded, driving, world)

/-- The body a request carries, signed unless it is an unsigned read. -/
def requestBody (driving : Driving) : Ask → Except Failure (Option String)
  | .read _ => .ok none
  | .send url payload identify => do
    let held ← found driving.nonce
      (⟨.protocol, "the server sent no nonce to sign with"⟩ : Failure)
    let body ← keys.sign account identify driving.flow.account url held payload
    .ok (some body)

/-- The loop's variables behind an answer. -/
def answered (driving : Driving) (reply : Reply) : Except Failure Driving := do
  let (flow, progress) ← driving.flow.accept lib reply.answer
  match progress with
  | .moved => .ok { driving with flow := flow, nonce := reply.nonce, rejected := 0 }
  | .again =>
    if mostNonceRetries < driving.rejected + 1 then
      .error ⟨.server, s!"the server rejected {mostNonceRetries} nonces in a row"⟩
    else if reply.nonce = none then
      .error ⟨.protocol, "the server rejected the nonce and sent no replacement"⟩
    else .ok { driving with flow := flow, nonce := reply.nonce, rejected := driving.rejected + 1 }

/-- The certificate a finished flow has collected. -/
def collected (flow : Flow) : Except Failure String :=
  found flow.chain ⟨.protocol, "the order finished without a certificate"⟩

/-- The body of one attempt. -/
def drive : Replies → Driving → W → Driven W
  | replies, driving, world =>
    match driving.flow.next with
    | none => ⟨some (collected driving.flow), driving.live, world, replies⟩
    | some ask =>
      match note record driving world with
      | (.error failure, driving, world) => ⟨some (.error failure), driving.live, world, replies⟩
      | (.ok (), driving, world) =>
        match requestBody keys account driving ask, replies with
        | .error failure, replies => ⟨some (.error failure), driving.live, world, replies⟩
        | .ok _, [] => ⟨none, driving.live, world, []⟩
        | .ok _, .error failure :: left => ⟨some (.error failure), driving.live, world, left⟩
        | .ok _, .ok reply :: left =>
          match answered lib driving reply with
          | .error failure => ⟨some (.error failure), driving.live, world, left⟩
          | .ok driving => drive left driving world
termination_by structural replies => replies

/-- What closes the path a publication opened. -/
def closing (live : Reached) : Reached := ⟨live.orderUrl, ⟨live.publication.kind, ∅⟩⟩

/-- An attempt with its path closed. A path that stays open is a fault in its own right. -/
def settled (outcome : Except Failure String) (closed : Except Failure Unit) :
    Except Failure String :=
  match outcome, closed with
  | .ok chain, .ok () => .ok chain
  | .ok _, .error close => .error close
  | .error failure, _ => .error failure

/-- Drive one attempt from the directory to the certificate. -/
def run (flow : Flow) (replies : Replies) (world : W) : Ran String W :=
  let driven := drive lib keys account record replies ⟨flow, none, flow.reached, 0⟩ world
  match driven.outcome with
  | none => ⟨none, driven.world, driven.left⟩
  | some outcome =>
    if driven.live.publication.isEmpty then ⟨some outcome, driven.world, driven.left⟩
    else
      let (closed, world) := record (closing driven.live) driven.world
      ⟨some (settled outcome closed), world, driven.left⟩

/-- How many times one order is attempted. -/
def attemptCount : ℕ := 5

/-- The flow of an attempt. -/
def attemptFlow (settings : AcmeSettings) (names : List String) (kind : Challenge)
    (thumbprint csr : String) : Option String → Flow
  | some url =>
    .resume settings.directoryUrl names thumbprint settings.contactEmail csr kind url
  | none => .new settings.directoryUrl names thumbprint settings.contactEmail csr kind

theorem attemptFlow_fresh (settings : AcmeSettings) (names : List String) (kind : Challenge)
    (thumbprint csr : String) (resume : Option String) :
    (attemptFlow settings names kind thumbprint csr resume).kind = kind ∧
      (attemptFlow settings names kind thumbprint csr resume).published = .default := by
  cases resume <;> exact ⟨rfl, rfl⟩

/-- What is said when the attempts ran out. -/
def tooManyAttempts (names : List String) (last : Option Failure) : Failure :=
  let joined := ", ".intercalate names
  match last with
  | none => ⟨.tooManyAttempts, s!"no attempt was made for {joined}"⟩
  | some failure => ⟨.tooManyAttempts, s!"{attemptCount} attempts failed, last: {failure.text}"⟩

variable (settings : AcmeSettings) (names : List String) (kind : Challenge) (plan : Plan Key)
  (drawn : ℕ → Except Failure Key)

/-- The key of an attempt and its signing request. A key that is not pinned is a fresh one. -/
def attemptRequest (attempt : ℕ) : Except Failure (Key × List UInt8) := do
  let key ← match plan.key with
    | some key => .ok key
    | none => drawn attempt
  let der ← keys.requestWith names key
  .ok (key, der)

/-- The attempts that are left, behind the failure of the last one. -/
def attempts (thumbprint : String) : List ℕ → Option Failure → Replies → W → Ran Obtained W
  | [], last, replies, world => ⟨some (.error (tooManyAttempts names last)), world, replies⟩
  | attempt :: later, _, replies, world =>
    match attemptRequest keys names plan drawn attempt with
    | .error failure => ⟨some (.error failure), world, replies⟩
    | .ok (key, der) =>
      -- only the first attempt takes an order over
      let flow := attemptFlow settings names kind thumbprint (base64url lib der)
        (plan.resume.filter fun _ => attempt = 1)
      let ran := run lib keys account record flow replies world
      match ran.outcome with
      | none => ⟨none, ran.world, ran.left⟩
      | some (.ok chain) =>
        ⟨some ((keys.toPem key).map fun pem => ⟨Text.bytes chain, pem⟩), ran.world, ran.left⟩
      | some (.error failure) =>
        if failure.worthRetrying then attempts thumbprint later (some failure) ran.left ran.world
        else ⟨some (.error failure), ran.world, ran.left⟩

/-- Obtain a certificate the way the plan says, over a transport somebody else built. -/
def obtainPlannedOver (replies : Replies) (world : W) : Ran Obtained W :=
  match keys.thumbprint account with
  | .error failure => ⟨some (.error failure), world, replies⟩
  | .ok thumbprint =>
    attempts lib keys account record settings names kind plan drawn thumbprint
      (List.range' 1 attemptCount) none replies world

/-- Obtain a certificate the way the plan says. -/
def obtainPlanned (replies : Replies) (world : W) : Ran Obtained W :=
  match keys.https settings with
  | .error failure => ⟨some (.error failure), world, replies⟩
  | .ok () => obtainPlannedOver lib keys account record settings names kind plan drawn replies world

end

/-! ## What recordings keep -/

section

variable {Key W : Type} {lib : Libraries} {keys : Keys Key} {account : Key}
  {record : Reached → W → Except Failure Unit × W} {kind : Challenge}

/-- A publication that answers a challenge of one kind, if it answers any. -/
def AnswersOnly (kind : Challenge) (publication : Publication) : Prop :=
  publication.kind = none ∨ publication.kind = some kind

/-- What may be recorded behind another recording of the same attempt: nothing is taken away. -/
structure Follows (kind : Challenge) (live reached : Reached) : Prop where
  own : AnswersOnly kind reached.publication
  grows : ∀ name ∈ live.publication.entries, name ∈ reached.publication.entries

/-- The loop's variables, with what was recorded last being part of what has been reached. -/
structure Steady (kind : Challenge) (driving : Driving) : Prop where
  sameKind : driving.flow.kind = kind
  own : driving.flow.PublishesOwn
  live : AnswersOnly kind driving.live.publication
  grows : driving.flow.stage ≠ .done →
    ∀ name ∈ driving.live.publication.entries, name ∈ driving.flow.published.entries

theorem stage_ne_done {flow : Flow} {ask : Ask} (h : flow.next = some ask) : flow.stage ≠ .done := by
  intro hdone
  rw [Flow.next, hdone] at h
  cases h

theorem Steady.follows {driving : Driving} (h : Steady kind driving)
    (hstage : driving.flow.stage ≠ .done) : Follows kind driving.live driving.flow.reached := by
  refine ⟨?_, h.grows hstage⟩
  rw [AnswersOnly, ← h.sameKind]
  exact h.own

/-- An answer leaves what was recorded alone. -/
theorem live_answered {driving driving' : Driving} {reply : Reply}
    (h : answered lib driving reply = .ok driving') : driving'.live = driving.live := by
  rw [answered] at h
  obtain ⟨⟨flow, progress⟩, -, h⟩ := bind_eq_ok.mp h
  cases progress with
  | moved => rw [← Except.ok.inj h]
  | again =>
    dsimp only at h
    split at h
    · cases h
    · split at h
      · cases h
      · rw [← Except.ok.inj h]

/-- An answer moves the flow on, or it is a rejected nonce. -/
theorem flow_answered {driving driving' : Driving} {reply : Reply}
    (h : answered lib driving reply = .ok driving') :
    (driving'.flow = driving.flow ∧ driving'.rejected = driving.rejected + 1 ∧
      driving'.rejected ≤ mostNonceRetries) ∨
    driving.flow.readAnswer lib reply.answer = .ok driving'.flow ∧ driving'.rejected = 0 := by
  rw [answered] at h
  obtain ⟨⟨flow, progress⟩, haccept, h⟩ := bind_eq_ok.mp h
  rcases Flow.accept_eq_ok haccept with ⟨rfl, rfl⟩ | ⟨hread, rfl⟩
  · dsimp only at h
    split at h
    · cases h
    · rename_i hfew
      split at h
      · cases h
      · obtain rfl := Except.ok.inj h
        exact .inl ⟨rfl, rfl, not_lt.mp hfew⟩
  · obtain rfl := Except.ok.inj h
    exact .inr ⟨hread, rfl⟩

theorem Steady.answered {driving driving' : Driving} {reply : Reply} (h : Steady kind driving)
    (hstage : driving.flow.stage ≠ .done) (hanswered : answered lib driving reply = .ok driving') :
    Steady kind driving' := by
  have hlive := live_answered hanswered
  rcases flow_answered hanswered with ⟨hflow, -, -⟩ | ⟨hread, -⟩
  · exact ⟨hflow ▸ h.sameKind, hflow ▸ h.own, hlive ▸ h.live, hlive ▸ hflow ▸ h.grows⟩
  · obtain ⟨hkind, hown, hgrows⟩ := (Flow.publishes_readAnswer hread).continues
    refine ⟨hkind.trans h.sameKind, hown h.own, hlive ▸ h.live, fun hdone name hname => ?_⟩
    rw [hlive] at hname
    exact hgrows hdone name (h.grows hstage name hname)

/-- Recording what changed leaves the flow alone, and what was reached is then recorded. -/
theorem note_eq {driving noted : Driving} {world world' : W} {recorded : Except Failure Unit}
    (h : note record driving world = (recorded, noted, world')) :
    noted.flow = driving.flow ∧ noted.live = driving.flow.reached ∧ noted.rejected = driving.rejected := by
  rw [note] at h
  split at h
  · rename_i hsame
    obtain ⟨rfl, rfl⟩ := Prod.mk.inj (Prod.mk.inj h).2
    exact ⟨rfl, hsame.symm, rfl⟩
  · obtain ⟨rfl, rfl⟩ := Prod.mk.inj (Prod.mk.inj h).2
    exact ⟨rfl, rfl, rfl⟩

theorem Steady.note {driving noted : Driving} {world world' : W} {recorded : Except Failure Unit}
    (h : Steady kind driving) (hstage : driving.flow.stage ≠ .done)
    (hnote : note record driving world = (recorded, noted, world')) : Steady kind noted := by
  obtain ⟨hflow, hlive, -⟩ := note_eq hnote
  refine ⟨hflow ▸ h.sameKind, hflow ▸ h.own, hlive ▸ (h.follows hstage).own, fun _ name hname => ?_⟩
  rw [hlive] at hname
  rw [hflow]
  exact hname

section

variable {J : Reached → W → Prop} (hrecord : ∀ live reached world, J live world →
  Follows kind live reached → J reached (record reached world).2)
include hrecord

theorem note_keeps {driving noted : Driving} {world world' : W} {ask : Ask}
    {recorded : Except Failure Unit} (hsteady : Steady kind driving)
    (hnext : driving.flow.next = some ask) (hnote : note record driving world = (recorded, noted, world'))
    (h : J driving.live world) : J noted.live world' ∧ Steady kind noted := by
  have hstage := stage_ne_done hnext
  refine ⟨?_, hsteady.note hstage hnote⟩
  rw [note] at hnote
  split at hnote
  · obtain ⟨rfl, rfl⟩ := Prod.mk.inj (Prod.mk.inj hnote).2
    exact h
  · obtain ⟨rfl, rfl⟩ := Prod.mk.inj (Prod.mk.inj hnote).2
    exact hrecord _ _ _ h (hsteady.follows hstage)

/-- What every recording keeps, of what was recorded last and of the world, holds where driving ends or
waits. -/
theorem drive_keeps (replies : Replies) {driving : Driving} {world : W}
    (hsteady : Steady kind driving) (h : J driving.live world) :
    J (drive lib keys account record replies driving world).live
        (drive lib keys account record replies driving world).world ∧
      AnswersOnly kind (drive lib keys account record replies driving world).live.publication := by
  fun_induction drive lib keys account record replies driving world with
  | case1 replies driving world hnext => exact ⟨h, hsteady.live⟩
  -- the loop is left right after what changed was recorded
  | case2 replies driving world ask hnext failure noted world' hnote =>
    exact (note_keeps hrecord hsteady hnext hnote h).imp_right Steady.live
  | case3 driving world ask hnext noted world' hnote failure replies hbody =>
    exact (note_keeps hrecord hsteady hnext hnote h).imp_right Steady.live
  | case4 driving world ask hnext noted world' hnote body hbody =>
    exact (note_keeps hrecord hsteady hnext hnote h).imp_right Steady.live
  | case5 driving world ask hnext noted world' hnote body failure left hbody =>
    exact (note_keeps hrecord hsteady hnext hnote h).imp_right Steady.live
  | case6 driving world ask hnext noted world' hnote body reply left hbody failure hanswered =>
    exact (note_keeps hrecord hsteady hnext hnote h).imp_right Steady.live
  | case7 driving world ask hnext noted world' hnote body reply left hbody driving' hanswered ih =>
    obtain ⟨hnoted, hsteady'⟩ := note_keeps hrecord hsteady hnext hnote h
    have hstage : noted.flow.stage ≠ .done := (note_eq hnote).1 ▸ stage_ne_done hnext
    refine ih (hsteady'.answered hstage hanswered) ?_
    rwa [live_answered hanswered]

variable {K : W → Prop} (hempty : ∀ live world, J live world → live.publication.isEmpty → K world)
  (hclose : ∀ live world, J live world → AnswersOnly kind live.publication →
    ¬ live.publication.isEmpty → K (record (closing live) world).2)
include hempty hclose

/-- At the end of an attempt the path was closed. Until then the attempt waits with what it recorded. -/
theorem run_keeps (replies : Replies) {flow : Flow} {world : W} (hkind : flow.kind = kind)
    (hfresh : flow.published = .default) (h : J flow.reached world) :
    ((run lib keys account record flow replies world).outcome = none ∧
      ∃ live, J live (run lib keys account record flow replies world).world) ∨
    K (run lib keys account record flow replies world).world := by
  have hsteady : Steady kind ⟨flow, none, flow.reached, 0⟩ := by
    refine ⟨hkind, .inl (by rw [hfresh]; rfl), .inl ?_, fun _ name hname => hname⟩
    rw [Flow.reached, hfresh]
    rfl
  obtain ⟨hdriven, hown⟩ := drive_keeps hrecord replies hsteady h
  rw [run]
  dsimp only
  split
  · exact .inl ⟨rfl, _, hdriven⟩
  · split
    · rename_i hnone
      exact .inr (hempty _ _ hdriven hnone)
    · rename_i hsome
      exact .inr (hclose _ _ hdriven hown hsome)

variable {settings : AcmeSettings} {names : List String} {plan : Plan Key}
  {drawn : ℕ → Except Failure Key} (hstart : ∀ orderUrl world, K world → J ⟨orderUrl, .default⟩ world)
include hstart

theorem attempts_keeps (thumbprint : String) (left : List ℕ) (last : Option Failure) (replies : Replies)
    {world : W} (h : K world) :
    let ran := attempts lib keys account record settings names kind plan drawn thumbprint left last
      replies world
    (ran.outcome = none ∧ ∃ live, J live ran.world) ∨ K ran.world := by
  induction left generalizing last replies world with
  | nil => exact .inr h
  | cons attempt later ih =>
    dsimp only
    rw [attempts]
    split
    · exact .inr h
    · rename_i key der _
      set flow := attemptFlow settings names kind thumbprint (base64url lib der)
        (plan.resume.filter fun _ => attempt = 1) with hflow
      obtain ⟨hkind, hfresh⟩ : flow.kind = kind ∧ flow.published = .default :=
        hflow ▸ attemptFlow_fresh settings names kind thumbprint _ _
      have hbegun : J flow.reached world := by
        rw [Flow.reached, hfresh]
        exact hstart _ _ h
      have hran : ((run lib keys account record flow replies world).outcome = none ∧
          ∃ live, J live (run lib keys account record flow replies world).world) ∨
          K (run lib keys account record flow replies world).world :=
        run_keeps hrecord hempty hclose replies hkind hfresh hbegun
      dsimp only
      split
      · exact hran.imp_left fun hopen => ⟨rfl, hopen.2⟩
      · rename_i hended
        rw [hended] at hran
        exact .inr (hran.resolve_left fun hopen => by cases hopen.1)
      · rename_i failure hended
        rw [hended] at hran
        have hclosed := hran.resolve_left fun hopen => by cases hopen.1
        split
        · exact ih (some failure) _ hclosed
        · exact .inr hclosed

/-- At the end of an order every path was closed. Until then the order waits with what its attempt
recorded. -/
theorem obtainPlanned_keeps (replies : Replies) {world : W} (h : K world) :
    let ran := obtainPlanned lib keys account record settings names kind plan drawn replies world
    (ran.outcome = none ∧ ∃ live, J live ran.world) ∨ K ran.world := by
  dsimp only
  rw [obtainPlanned]
  split
  · exact .inr h
  · rw [obtainPlannedOver]
    split
    · exact .inr h
    · exact attempts_keeps hrecord hempty hclose hstart _ _ none replies h

end

/-- What every recording keeps of the world holds wherever an order ends or waits. -/
theorem obtainPlanned_world {I : W → Prop} (hrecord : ∀ reached world, I world → I (record reached world).2)
    (settings : AcmeSettings) (names : List String) (plan : Plan Key) (drawn : ℕ → Except Failure Key)
    (replies : Replies) {world : W} (h : I world) :
    I (obtainPlanned lib keys account record settings names kind plan drawn replies world).world := by
  rcases @obtainPlanned_keeps Key W lib keys account record kind (fun _ => I)
    (fun _ reached world h _ => hrecord reached world h) I (fun _ _ h _ => h)
    (fun live world h _ _ => hrecord (closing live) world h) settings names plan drawn
    (fun _ _ h => h) replies world h with ⟨-, _, hopen⟩ | hended
  · exact hopen
  · exact hended

end

end EkEk.Tls
