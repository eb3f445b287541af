import EkEk.Tls.Acme

/-!
# Closing the challenge path

Reference: `run`, `drive` and `obtain_planned_over` of `crates/ek-ek-tls/src/acme.rs`.

While a server checks a challenge, its answer stands where anybody can ask for it, and every way out of
an attempt has to take it away again. What is to be taken away is remembered before it is recorded,
because a recording that fails may have left something behind.

`traced` is a callback that also writes down each of its calls and what became of it. The driver reads
nothing of the world it carries, so two callbacks that give the same answers drive the same attempt
(`drive_related`), and what is shown of the calls of a traced attempt is what an attempt really does.
-/

namespace EkEk.Tls

open Checked

/-- One call of the callback. -/
structure Recording where
  reached : Reached
  outcome : Except Failure Unit

/-- A call that has something published. -/
def Recording.Opens (call : Recording) : Prop := ¬ call.reached.publication.isEmpty

/-- The callback, with its calls written down. -/
def traced {W : Type} (record : Reached → W → Except Failure Unit × W) (reached : Reached)
    (world : W × List Recording) : Except Failure Unit × W × List Recording :=
  let (outcome, world') := record reached world.1
  (outcome, world', world.2 ++ [⟨reached, outcome⟩])

/-! ## What the world has no part in -/

section

variable {Key W W' : Type} {lib : Libraries} {keys : Keys Key} {account : Key}
  {record : Reached → W → Except Failure Unit × W} {record' : Reached → W' → Except Failure Unit × W'}

/-- Two loops that went the same way, in worlds that correspond. -/
structure Driven.Related (R : W → W' → Prop) (driven : Driven W) (driven' : Driven W') : Prop where
  outcome : driven'.outcome = driven.outcome
  live : driven'.live = driven.live
  world : R driven.world driven'.world
  left : driven'.left = driven.left

/-- Two attempts or orders that went the same way, in worlds that correspond. -/
structure Ran.Related {α : Type} (R : W → W' → Prop) (ran : Ran α W) (ran' : Ran α W') : Prop where
  outcome : ran'.outcome = ran.outcome
  world : R ran.world ran'.world
  left : ran'.left = ran.left

/-- Callbacks that answer the same and keep the correspondence of their worlds. -/
def AnswerAlike (R : W → W' → Prop) (record : Reached → W → Except Failure Unit × W)
    (record' : Reached → W' → Except Failure Unit × W') : Prop :=
  ∀ reached world world', R world world' →
    (record' reached world').1 = (record reached world).1 ∧
      R (record reached world).2 (record' reached world').2

variable {R : W → W' → Prop} (halike : AnswerAlike R record record')
include halike

theorem note_related {driving noted : Driving} {world after : W} {world' : W'}
    {recorded : Except Failure Unit} (hnote : note record driving world = (recorded, noted, after))
    (h : R world world') :
    ∃ after', note record' driving world' = (recorded, noted, after') ∧ R after after' := by
  rw [note] at hnote
  split at hnote
  · rename_i hsame
    obtain ⟨rfl, hrest⟩ := Prod.mk.inj hnote
    obtain ⟨rfl, rfl⟩ := Prod.mk.inj hrest
    exact ⟨world', by rw [note, if_pos hsame], h⟩
  · rename_i hchanged
    obtain ⟨rfl, hrest⟩ := Prod.mk.inj hnote
    obtain ⟨rfl, rfl⟩ := Prod.mk.inj hrest
    obtain ⟨hanswer, hworld⟩ := halike driving.flow.reached world world' h
    refine ⟨_, ?_, hworld⟩
    rw [note, if_neg hchanged]
    exact Prod.ext hanswer rfl

/-- The driver looks at no world. -/
theorem drive_related (replies : Replies) (driving : Driving) {world : W} {world' : W'}
    (h : R world world') :
    Driven.Related R (drive lib keys account record replies driving world)
      (drive lib keys account record' replies driving world') := by
  fun_induction drive lib keys account record replies driving world generalizing world' with
  | case1 replies driving world hnext =>
    rw [drive, hnext]
    exact ⟨rfl, rfl, h, rfl⟩
  | case2 replies driving world ask hnext failure noted after hnote =>
    obtain ⟨after', hnote', hafter⟩ := note_related halike hnote h
    rw [drive, hnext]
    simp only [hnote']
    exact ⟨rfl, rfl, hafter, rfl⟩
  | case3 driving world ask hnext noted after hnote failure replies hbody =>
    obtain ⟨after', hnote', hafter⟩ := note_related halike hnote h
    rw [drive, hnext]
    simp only [hnote', hbody]
    exact ⟨rfl, rfl, hafter, rfl⟩
  | case4 driving world ask hnext noted after hnote body hbody =>
    obtain ⟨after', hnote', hafter⟩ := note_related halike hnote h
    rw [drive, hnext]
    simp only [hnote', hbody]
    exact ⟨rfl, rfl, hafter, rfl⟩
  | case5 driving world ask hnext noted after hnote body failure left hbody =>
    obtain ⟨after', hnote', hafter⟩ := note_related halike hnote h
    rw [drive, hnext]
    simp only [hnote', hbody]
    exact ⟨rfl, rfl, hafter, rfl⟩
  | case6 driving world ask hnext noted after hnote body reply left hbody failure hanswered =>
    obtain ⟨after', hnote', hafter⟩ := note_related halike hnote h
    rw [drive, hnext]
    simp only [hnote', hbody, hanswered]
    exact ⟨rfl, rfl, hafter, rfl⟩
  | case7 driving world ask hnext noted after hnote body reply left hbody driving' hanswered ih =>
    obtain ⟨after', hnote', hafter⟩ := note_related halike hnote h
    have hdrive' : drive lib keys account record' (.ok reply :: left) driving world' =
        drive lib keys account record' left driving' after' := by
      rw [drive, hnext]
      simp only [hnote', hbody, hanswered]
    rw [hdrive']
    exact ih hafter

theorem run_related (flow : Flow) (replies : Replies) {world : W} {world' : W'} (h : R world world') :
    Ran.Related R (run lib keys account record flow replies world)
      (run lib keys account record' flow replies world') := by
  have hdriven : Driven.Related R
      (drive lib keys account record replies ⟨flow, none, flow.reached, 0⟩ world)
      (drive lib keys account record' replies ⟨flow, none, flow.reached, 0⟩ world') :=
    drive_related halike replies _ h
  rw [run, run]
  dsimp only
  rw [hdriven.outcome, hdriven.live, hdriven.left]
  split
  · exact ⟨rfl, hdriven.world, rfl⟩
  · split
    · exact ⟨rfl, hdriven.world, rfl⟩
    · obtain ⟨hclosed, hworld⟩ := halike (closing _) _ _ hdriven.world
      refine ⟨?_, hworld, rfl⟩
      dsimp only
      rw [hclosed]

variable {settings : AcmeSettings} {names : List String} {kind : Challenge} {plan : Plan Key}
  {drawn : ℕ → Except Failure Key}

theorem attempts_related (thumbprint : String) (left : List ℕ) (last : Option Failure)
    (replies : Replies) {world : W} {world' : W'} (h : R world world') :
    Ran.Related R
      (attempts lib keys account record settings names kind plan drawn thumbprint left last replies
        world)
      (attempts lib keys account record' settings names kind plan drawn thumbprint left last replies
        world') := by
  induction left generalizing last replies world world' with
  | nil => exact ⟨rfl, h, rfl⟩
  | cons attempt later ih =>
    rw [attempts, attempts]
    split
    · exact ⟨rfl, h, rfl⟩
    · rename_i key der _
      have hran : Ran.Related R
          (run lib keys account record (attemptFlow settings names kind thumbprint
            (base64url lib der) (plan.resume.filter fun _ => attempt = 1)) replies world)
          (run lib keys account record' (attemptFlow settings names kind thumbprint
            (base64url lib der) (plan.resume.filter fun _ => attempt = 1)) replies world') :=
        run_related halike _ replies h
      dsimp only
      rw [hran.outcome, hran.left]
      split
      · exact ⟨rfl, hran.world, rfl⟩
      · exact ⟨rfl, hran.world, rfl⟩
      · split
        · exact ih _ _ hran.world
        · exact ⟨rfl, hran.world, rfl⟩

theorem obtainPlannedOver_related (replies : Replies) {world : W} {world' : W'}
    (h : R world world') :
    Ran.Related R
      (obtainPlannedOver lib keys account record settings names kind plan drawn replies world)
      (obtainPlannedOver lib keys account record' settings names kind plan drawn replies world') := by
  rw [obtainPlannedOver, obtainPlannedOver]
  split
  · exact ⟨rfl, h, rfl⟩
  · exact attempts_related halike _ _ _ _ h

end

/-! ## The calls of one attempt -/

theorem Publication.isEmpty_iff {publication : Publication} :
    publication.isEmpty ↔ ∀ name, name ∉ publication.entries := by
  constructor
  · intro h name
    rw [Publication.isEmpty] at h
    rw [h]
    exact Finmap.notMem_empty
  · intro h
    refine Finmap.ext_lookup fun name => ?_
    rw [Finmap.lookup_eq_none.mpr (h name), Finmap.lookup_eq_none.mpr Finmap.notMem_empty]

/-- What stays published keeps the path open. -/
theorem Publication.not_isEmpty_mono {publication more : Publication}
    (hgrows : ∀ name ∈ publication.entries, name ∈ more.entries) (h : ¬ publication.isEmpty) :
    ¬ more.isEmpty := by
  intro hmore
  rw [Publication.isEmpty_iff] at h hmore
  exact h fun name hname => hmore name (hgrows name hname)

section

variable {Key W : Type} {lib : Libraries} {keys : Keys Key} {account : Key}
  {record : Reached → W → Except Failure Unit × W} {start : Flow}

/-- Writing the calls down changes nothing. -/
theorem answerAlike_traced :
    AnswerAlike (fun world (logged : W × List Recording) => logged.1 = world) record
      (traced record) := by
  rintro reached world ⟨world', calls⟩ rfl
  exact ⟨rfl, rfl⟩

/-- Nor does what was written down before. -/
theorem answerAlike_behind (calls : List Recording) :
    AnswerAlike (fun (logged behind : W × List Recording) =>
      behind.1 = logged.1 ∧ behind.2 = calls ++ logged.2) (traced record) (traced record) := by
  rintro reached ⟨world, later⟩ ⟨world', all⟩ ⟨hworld, hall⟩
  obtain rfl : world' = world := hworld
  obtain rfl : all = calls ++ later := hall
  exact ⟨rfl, rfl, List.append_assoc _ _ _⟩

/-- The calls of an attempt so far, with what was recorded last and where the flow is. -/
structure Logged (start flow : Flow) (live : Reached) (calls : List Recording) : Prop where
  kind : flow.kind = start.kind
  grows : flow.stage ≠ .done →
    ∀ name ∈ live.publication.entries, name ∈ flow.published.entries
  last : calls ≠ [] → ∃ before outcome, calls = before ++ [⟨live, outcome⟩]
  stays : ∀ call ∈ calls, call.Opens → ¬ live.publication.isEmpty
  named : start.NamesItsKind →
    flow.NamesItsKind ∧ ∀ call ∈ calls, call.Opens → call.reached.publication.kind = some start.kind

theorem Logged.recorded {flow : Flow} {live : Reached} {calls : List Recording}
    (h : Logged start flow live calls) (hstage : flow.stage ≠ .done) (outcome : Except Failure Unit) :
    Logged start flow flow.reached (calls ++ [⟨flow.reached, outcome⟩]) := by
  refine ⟨h.kind, fun _ name hname => hname, fun _ => ⟨calls, outcome, rfl⟩, ?_, fun hstart => ?_⟩
  · intro call hcall hopens
    rcases List.mem_append.mp hcall with hbefore | hnew
    -- what an earlier call has published is part of what is published now
    · exact Publication.not_isEmpty_mono (h.grows hstage) (h.stays call hbefore hopens)
    · obtain rfl := List.mem_singleton.mp hnew
      exact hopens
  · obtain ⟨hflow, hcalls⟩ := h.named hstart
    refine ⟨hflow, fun call hcall hopens => ?_⟩
    rcases List.mem_append.mp hcall with hbefore | hnew
    · exact hcalls call hbefore hopens
    · obtain rfl := List.mem_singleton.mp hnew
      rw [← h.kind]
      exact hflow hopens

theorem Logged.note {driving noted : Driving} {world after : W × List Recording} {ask : Ask}
    {recorded : Except Failure Unit} (h : Logged start driving.flow driving.live world.2)
    (hnext : driving.flow.next = some ask)
    (hnote : note (traced record) driving world = (recorded, noted, after)) :
    Logged start noted.flow noted.live after.2 := by
  rw [Tls.note] at hnote
  split at hnote
  · obtain ⟨rfl, rfl⟩ := Prod.mk.inj (Prod.mk.inj hnote).2
    exact h
  · obtain ⟨rfl, rfl⟩ := Prod.mk.inj (Prod.mk.inj hnote).2
    exact h.recorded (stage_ne_done hnext) _

theorem Logged.answered {driving driving' : Driving} {reply : Reply} {calls : List Recording}
    (h : Logged start driving.flow driving.live calls) (hstage : driving.flow.stage ≠ .done)
    (hanswered : answered lib driving reply = .ok driving') :
    Logged start driving'.flow driving'.live calls := by
  rw [live_answered hanswered]
  rcases flow_answered hanswered with ⟨hflow, -, -⟩ | ⟨hread, -⟩
  · rw [hflow]
    exact h
  · have hpublishes := Flow.publishes_readAnswer hread
    refine ⟨hpublishes.kind.trans h.kind, fun hdone name hname => ?_, h.last, h.stays,
      fun hstart => ?_⟩
    · exact hpublishes.continues.grows hdone name (h.grows hstage name hname)
    · exact (h.named hstart).imp_left hpublishes.namesItsKind

theorem drive_logged (replies : Replies) {driving : Driving} {world : W × List Recording}
    (h : Logged start driving.flow driving.live world.2) :
    ∃ flow, Logged start flow (drive lib keys account (traced record) replies driving world).live
      (drive lib keys account (traced record) replies driving world).world.2 := by
  fun_induction drive lib keys account (traced record) replies driving world with
  | case1 replies driving world hnext => exact ⟨_, h⟩
  | case2 replies driving world ask hnext failure noted after hnote => exact ⟨_, h.note hnext hnote⟩
  | case3 driving world ask hnext noted after hnote failure replies hbody =>
    exact ⟨_, h.note hnext hnote⟩
  | case4 driving world ask hnext noted after hnote body hbody => exact ⟨_, h.note hnext hnote⟩
  | case5 driving world ask hnext noted after hnote body failure left hbody =>
    exact ⟨_, h.note hnext hnote⟩
  | case6 driving world ask hnext noted after hnote body reply left hbody failure hanswered =>
    exact ⟨_, h.note hnext hnote⟩
  | case7 driving world ask hnext noted after hnote body reply left hbody driving' hanswered ih =>
    have hstage : noted.flow.stage ≠ .done := (note_eq hnote).1 ▸ stage_ne_done hnext
    exact ih ((h.note hnext hnote).answered hstage hanswered)

/-! ## The last call -/

/-- An attempt that had something published when it returned has closed its path: the last call takes
away what the one before it had published, under its kind, and the attempt is a success only if that
call was. -/
def ClosesPath (ran : Ran String (W × List Recording)) : Prop :=
  ∀ outcome, ran.outcome = some outcome → (∃ call ∈ ran.world.2, call.Opens) →
    ∃ before opening close, ran.world.2 = before ++ [opening, close] ∧ opening.Opens ∧
      close.reached.publication = ⟨opening.reached.publication.kind, ∅⟩ ∧
      (outcome.isOk → close.outcome = .ok ())

/-- All publications answer one kind of challenge. -/
def OneKind (calls : List Recording) : Prop :=
  ∀ call ∈ calls, ∀ other ∈ calls, call.Opens → other.Opens →
    call.reached.publication.kind = other.reached.publication.kind

theorem ok_of_settled {outcome : Except Failure String} {closed : Except Failure Unit}
    (h : (settled outcome closed).isOk) : closed = .ok () := by
  cases closed with
  | ok => rfl
  | error => cases outcome <;> cases h

theorem mem_of_opens {calls : List Recording} {live : Reached} {closed : Except Failure Unit}
    {call : Recording} (hcall : call ∈ calls ++ [⟨closing live, closed⟩]) (hopens : call.Opens) :
    call ∈ calls := by
  refine (List.mem_append.mp hcall).resolve_right fun hnew => ?_
  obtain rfl := List.mem_singleton.mp hnew
  exact hopens rfl

/-- The call that closes the path comes right behind the one that opened it, or that opened it wider. -/
theorem Logged.closes {flow : Flow} {live : Reached} {calls : List Recording}
    (h : Logged start flow live calls) {call : Recording} {closed : Except Failure Unit}
    (hcall : call ∈ calls ++ [⟨closing live, closed⟩]) (hopens : call.Opens) :
    ∃ before opening, calls ++ [⟨closing live, closed⟩] = before ++ [opening, ⟨closing live, closed⟩] ∧
      opening.Opens ∧ opening.reached = live := by
  have hbefore : call ∈ calls := mem_of_opens hcall hopens
  obtain ⟨before, outcome, rfl⟩ := h.last (List.ne_nil_of_mem hbefore)
  refine ⟨before, ⟨live, outcome⟩, by rw [List.append_assoc]; rfl, ?_, rfl⟩
  exact h.stays call hbefore hopens

theorem Logged.oneKind {flow : Flow} {live : Reached} {calls : List Recording}
    (h : Logged start flow live calls) (hstart : start.NamesItsKind) : OneKind calls := by
  intro call hcall other hother hopens hothers
  have hcalls := (h.named hstart).2
  rw [hcalls call hcall hopens, hcalls other hother hothers]

theorem OneKind.closed {calls : List Recording} (h : OneKind calls) (live : Reached)
    (closed : Except Failure Unit) : OneKind (calls ++ [⟨closing live, closed⟩]) := by
  intro call hcall other hother hopens hothers
  exact h call (mem_of_opens hcall hopens) other (mem_of_opens hother hothers) hopens hothers

theorem run_closes (flow : Flow) (replies : Replies) (world : W) :
    let ran := run lib keys account (traced record) flow replies (world, [])
    ClosesPath ran ∧ (flow.NamesItsKind → OneKind ran.world.2) := by
  have hstart : Logged flow flow flow.reached [] :=
    ⟨rfl, fun _ name hname => hname, fun h => absurd rfl h, by simp, fun h => ⟨h, by simp⟩⟩
  set driven := drive lib keys account (traced record) replies ⟨flow, none, flow.reached, 0⟩
    (world, []) with hdriven
  obtain ⟨flow', hlogged⟩ : ∃ flow', Logged flow flow' driven.live driven.world.2 :=
    drive_logged replies hstart
  dsimp only
  rw [run, ← hdriven]
  dsimp only
  split
  -- the attempt waits for an answer and has not returned
  · exact ⟨fun outcome h => absurd h (Option.some_ne_none outcome).symm, hlogged.oneKind⟩
  · rename_i outcome _
    split
    · rename_i hempty
      refine ⟨fun _ _ hopened => ?_, hlogged.oneKind⟩
      obtain ⟨call, hcall, hopens⟩ := hopened
      exact absurd hempty (hlogged.stays call hcall hopens)
    · refine ⟨fun ended hended hopened => ?_, fun hnamed => (hlogged.oneKind hnamed).closed _ _⟩
      obtain ⟨call, hcall, hopens⟩ := hopened
      obtain ⟨before, opening, hcalls, hopening, hlive⟩ := hlogged.closes hcall hopens
      refine ⟨before, opening, _, hcalls, hopening, by rw [hlive]; rfl, fun hok => ?_⟩
      obtain rfl := Option.some.inj hended
      exact ok_of_settled hok

end

/-! ## The attempts of an order -/

section

variable {Key W : Type} (lib : Libraries) (keys : Keys Key) (account : Key)
  (record : Reached → W → Except Failure Unit × W) (settings : AcmeSettings) (names : List String)
  (kind : Challenge) (plan : Plan Key) (drawn : ℕ → Except Failure Key)

/-- What becomes of each attempt that is made, every one with a list of calls of its own. -/
def attemptRuns (thumbprint : String) :
    List ℕ → Replies → W → List (Ran String (W × List Recording))
  | [], _, _ => []
  | attempt :: later, replies, world =>
    match attemptRequest keys names plan drawn attempt with
    | .error _ => []
    | .ok (_, der) =>
      let flow := attemptFlow settings names kind thumbprint (base64url lib der)
        (plan.resume.filter fun _ => attempt = 1)
      let ran := run lib keys account (traced record) flow replies (world, [])
      match ran.outcome with
      | some (.error failure) =>
        if failure.worthRetrying then ran :: attemptRuns thumbprint later ran.left ran.world.1
        else [ran]
      | _ => [ran]

/-- What becomes of each attempt of an order. -/
def orderRuns (replies : Replies) (world : W) : List (Ran String (W × List Recording)) :=
  match keys.thumbprint account with
  | .error _ => []
  | .ok thumbprint =>
    attemptRuns lib keys account record settings names kind plan drawn thumbprint
      (List.range' 1 attemptCount) replies world

variable {lib keys account record settings names kind plan drawn}

/-- Every attempt is a run of a flow that starts with nothing published. -/
theorem exists_run_of_mem_attemptRuns {thumbprint : String} {left : List ℕ} {replies : Replies}
    {world : W} {ran : Ran String (W × List Recording)}
    (h : ran ∈ attemptRuns lib keys account record settings names kind plan drawn thumbprint left
      replies world) :
    ∃ flow replies world, flow.NamesItsKind ∧
      ran = run lib keys account (traced record) flow replies (world, []) := by
  induction left generalizing replies world with
  | nil => cases h
  | cons attempt later ih =>
    rw [attemptRuns] at h
    split at h
    · cases h
    · rename_i key der _
      have hfresh := (attemptFlow_fresh settings names kind thumbprint (base64url lib der)
        (plan.resume.filter fun _ => attempt = 1)).2
      have hnamed : (attemptFlow settings names kind thumbprint (base64url lib der)
          (plan.resume.filter fun _ => attempt = 1)).NamesItsKind := by
        intro hopen
        rw [hfresh] at hopen
        exact absurd rfl hopen
      dsimp only at h
      split at h
      · split at h
        · rcases List.mem_cons.mp h with rfl | hlater
          · exact ⟨_, _, _, hnamed, rfl⟩
          · exact ih hlater
        · exact ⟨_, _, _, hnamed, List.mem_singleton.mp h⟩
      · exact ⟨_, _, _, hnamed, List.mem_singleton.mp h⟩

/-- An attempt writes its calls behind those that are written down. -/
theorem run_behind (flow : Flow) (replies : Replies) (world : W) (calls : List Recording) :
    run lib keys account (traced record) flow replies (world, calls) =
      let ran := run lib keys account (traced record) flow replies (world, [])
      ⟨ran.outcome, (ran.world.1, calls ++ ran.world.2), ran.left⟩ := by
  have hrelated : Ran.Related _
      (run lib keys account (traced record) flow replies (world, []))
      (run lib keys account (traced record) flow replies (world, calls)) :=
    run_related (answerAlike_behind calls) flow replies ⟨rfl, (List.append_nil calls).symm⟩
  obtain ⟨houtcome, ⟨hworld, hcalls⟩, hleft⟩ := hrelated
  dsimp only
  rw [← houtcome, ← hworld, ← hcalls, ← hleft]

/-- The calls of an order are those of its attempts, one attempt behind the other. -/
theorem attempts_calls (thumbprint : String) (left : List ℕ) (last : Option Failure)
    (replies : Replies) (world : W) (calls : List Recording) :
    (attempts lib keys account (traced record) settings names kind plan drawn thumbprint left last
      replies (world, calls)).world.2 =
      calls ++ (attemptRuns lib keys account record settings names kind plan drawn thumbprint left
        replies world).flatMap fun ran => ran.world.2 := by
  induction left generalizing last replies world calls with
  | nil => exact (List.append_nil calls).symm
  | cons attempt later ih =>
    rw [attempts, attemptRuns]
    cases attemptRequest keys names plan drawn attempt with
    | error failure => exact (List.append_nil calls).symm
    | ok request =>
      obtain ⟨key, der⟩ := request
      dsimp only
      rw [run_behind]
      dsimp only
      generalize run lib keys account (traced record) (attemptFlow settings names kind thumbprint
        (base64url lib der) (plan.resume.filter fun _ => attempt = 1)) replies (world, []) = ran
      rcases hended : ran.outcome with _ | (failure | chain)
      · simp only [List.flatMap_singleton]
      · dsimp only
        split
        · rw [ih, List.flatMap_cons, List.append_assoc]
        · simp only [List.flatMap_singleton]
      · simp only [List.flatMap_singleton]

theorem obtainPlannedOver_calls (replies : Replies) (world : W) :
    (obtainPlannedOver lib keys account (traced record) settings names kind plan drawn replies
      (world, [])).world.2 =
      (orderRuns lib keys account record settings names kind plan drawn replies world).flatMap
        fun ran => ran.world.2 := by
  rw [obtainPlannedOver, orderRuns]
  cases keys.thumbprint account with
  | error failure => rfl
  | ok thumbprint => exact attempts_calls thumbprint _ none replies world []

theorem closes_of_mem_orderRuns {replies : Replies} {world : W}
    {ran : Ran String (W × List Recording)}
    (h : ran ∈ orderRuns lib keys account record settings names kind plan drawn replies world) :
    ClosesPath ran ∧ OneKind ran.world.2 := by
  rw [orderRuns] at h
  split at h
  · cases h
  · obtain ⟨flow, replies, world, hnamed, rfl⟩ := exists_run_of_mem_attemptRuns h
    exact (run_closes flow replies world).imp_right fun hkind => hkind hnamed

end

/-- The challenge path is closed on every exit, of an attempt and of each attempt of an order. Tracing the
callback changes nothing of what happens. Every flow there can be names its kind, because one that was
just made publishes nothing, and no answer takes the name away. -/
theorem path_closed_on_every_exit {Key W : Type} (lib : Libraries) (keys : Keys Key) (account : Key)
    (record : Reached → W → Except Failure Unit × W) :
    (∀ (flow : Flow) (replies : Replies) (world : W),
      let ran := run lib keys account (traced record) flow replies (world, [])
      run lib keys account record flow replies world = ⟨ran.outcome, ran.world.1, ran.left⟩ ∧
        ClosesPath ran ∧ (flow.NamesItsKind → OneKind ran.world.2)) ∧
    ∀ (settings : AcmeSettings) (names : List String) (kind : Challenge) (plan : Plan Key)
      (drawn : ℕ → Except Failure Key) (replies : Replies) (world : W),
      let ran := obtainPlannedOver lib keys account (traced record) settings names kind plan drawn
        replies (world, [])
      let made := orderRuns lib keys account record settings names kind plan drawn replies world
      obtainPlannedOver lib keys account record settings names kind plan drawn replies world =
          ⟨ran.outcome, ran.world.1, ran.left⟩ ∧
        ran.world.2 = made.flatMap (fun attempt => attempt.world.2) ∧
        ∀ attempt ∈ made, ClosesPath attempt ∧ OneKind attempt.world.2 := by
  constructor
  · intro flow replies world
    have herased : Ran.Related _ (run lib keys account record flow replies world)
        (run lib keys account (traced record) flow replies (world, [])) :=
      run_related answerAlike_traced flow replies rfl
    obtain ⟨houtcome, hworld, hleft⟩ := herased
    refine ⟨?_, run_closes flow replies world⟩
    rw [houtcome, hworld, hleft]
  · intro settings names kind plan drawn replies world
    have herased : Ran.Related _
        (obtainPlannedOver lib keys account record settings names kind plan drawn replies world)
        (obtainPlannedOver lib keys account (traced record) settings names kind plan drawn replies
          (world, [])) :=
      obtainPlannedOver_related answerAlike_traced replies rfl
    obtain ⟨houtcome, hworld, hleft⟩ := herased
    refine ⟨?_, obtainPlannedOver_calls replies world, fun attempt => closes_of_mem_orderRuns⟩
    rw [houtcome, hworld, hleft]

end EkEk.Tls
