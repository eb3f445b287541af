import EkEk.Lib.Runs
import EkEk.Program.TakeOver
import Mathlib.Tactic.Tauto

/-!
# What goes up at a name server

Reference: `Answering::apply` and `obtain_order` of `crates/ek-ek/src/acme.rs`, and `run` of
`crates/ek-ek-tls/src/acme.rs`.

A driver remembers the record names it has published, and what closes an attempt withdraws them. The
names are remembered nowhere else. A driver that stops takes them with it, and so does an attempt whose
closing is not reached because what it wants to file is refused.

A run of an order is the deeds of its drivers, one after the other. Each may be cut off anywhere, and the
next one starts from the state the deeds so far have left. A ledger over these deeds has the names
that are up and those of them that are lost: nobody remembers them any more, and nobody has published
them again. `down_iff_none_lost` says that losing names is the only way for one to stay up when the record
is gone.
-/

namespace EkEk.Program

open Store Tls

/-! ## The ledger -/

/-- What is known from outside about an order. -/
structure Ledger where
  state : Option Snapshot
  up : Finset String
  lost : Finset String

namespace Ledger

/-- What a deed changes. A driver that begins, and an attempt that cannot file what it reached, may
have lost everything that is up. -/
def step (ledger : Ledger) : Deed → Ledger
  | .started | .unfiled => { ledger with lost := ledger.up }
  | .stored state => { ledger with state := some state }
  | .published names =>
    { ledger with up := ledger.up ∪ names, lost := ledger.lost \ names }
  | .withdrawn names =>
    { ledger with up := ledger.up \ names, lost := ledger.lost \ names }

/-- Without a record, everything that is up is lost. -/
def Covered (id : CertificateId) (ledger : Ledger) : Prop :=
  Running id ledger.state ∨ ledger.up ⊆ ledger.lost

/-- What is lost is up. -/
theorem lost_subset_step {ledger : Ledger} (h : ledger.lost ⊆ ledger.up) (deed : Deed) :
    (ledger.step deed).lost ⊆ (ledger.step deed).up := by
  cases deed with
  | started => exact Finset.Subset.refl _
  | unfiled => exact Finset.Subset.refl _
  | stored state => exact h
  | published names => exact Finset.sdiff_subset.trans (h.trans Finset.subset_union_left)
  | withdrawn names => exact Finset.sdiff_subset_sdiff h (Finset.Subset.refl _)

/-- Without a record, nothing is up. -/
def Down (id : CertificateId) (ledger : Ledger) : Prop := ¬ Running id ledger.state → ledger.up = ∅

/-- A write that takes the record away is made while nothing is lost. -/
def TakenDown (id : CertificateId) (ledger : Ledger) : Deed → Prop
  | .stored next => Running id ledger.state → ¬ Running id (some next) → ledger.lost = ∅
  | _ => True

/-- Behind one deed that leaves what is up covered. -/
theorem down_step_iff {id : CertificateId} {ledger : Ledger} {deed : Deed} (hdown : ledger.Down id)
    (hlost : ledger.lost ⊆ ledger.up) (hcovered : (ledger.step deed).Covered id) :
    (ledger.step deed).Down id ↔ ledger.TakenDown id deed := by
  cases deed with
  | started => exact iff_of_true hdown trivial
  | unfiled => exact iff_of_true hdown trivial
  | stored next =>
    constructor
    · intro hdown' _ hgone
      have hup : ledger.up = ∅ := hdown' hgone
      exact Finset.subset_empty.mp (hup ▸ hlost)
    · intro htaken hgone
      by_cases hrunning : Running id ledger.state
      · have hup : ledger.up ⊆ ledger.lost := hcovered.resolve_left hgone
        rw [htaken hrunning hgone] at hup
        exact Finset.subset_empty.mp hup
      · exact hdown hrunning
  | published names =>
    refine iff_of_true (fun hgone => ?_) trivial
    -- whatever is published without a record would be neither lost nor covered
    have hup : ledger.up ∪ names ⊆ ledger.lost \ names := hcovered.resolve_left hgone
    have hnames : names = ∅ := by
      refine Finset.eq_empty_of_forall_notMem fun name hname => ?_
      exact (Finset.mem_sdiff.mp (hup (Finset.mem_union_right _ hname))).2 hname
    change ledger.up ∪ names = ∅
    rw [hdown hgone, hnames, Finset.union_empty]
  | withdrawn names =>
    refine iff_of_true (fun hgone => ?_) trivial
    have hup : ledger.up = ∅ := hdown hgone
    simp only [step, hup, Finset.empty_sdiff]

theorem down_iff_along {id : CertificateId} {ledger : Ledger} {deeds : List Deed}
    (hdown : ledger.Down id) (hlost : ledger.lost ⊆ ledger.up)
    (hcovered : ∀ first, first <+: deeds → (Runs.run step ledger first).Covered id) :
    (∀ first, first <+: deeds → (Runs.run step ledger first).Down id) ↔
      Runs.Along step (TakenDown id) ledger deeds := by
  induction deeds generalizing ledger with
  | nil =>
    refine iff_of_true (fun first hfirst => ?_) trivial
    rw [List.prefix_nil.mp hfirst]
    exact hdown
  | cons deed later ih =>
    have hstep := down_step_iff hdown hlost (hcovered [deed] ⟨later, rfl⟩)
    have hlater (hdown' : (ledger.step deed).Down id) :=
      ih hdown' (lost_subset_step hlost deed) fun first hfirst =>
        hcovered (deed :: first) (List.cons_prefix_cons.mpr ⟨rfl, hfirst⟩)
    constructor
    · intro hall
      have hdown' : (ledger.step deed).Down id := hall [deed] ⟨later, rfl⟩
      refine ⟨hstep.mp hdown', (hlater hdown').mp fun first hfirst => ?_⟩
      exact hall (deed :: first) (List.cons_prefix_cons.mpr ⟨rfl, hfirst⟩)
    · rintro ⟨htaken, halong⟩ first hfirst
      rcases List.prefix_cons_iff.mp hfirst with rfl | ⟨rest, rfl, hrest⟩
      · exact hdown
      · exact (hlater (hstep.mpr htaken)).mpr halong rest hrest

end Ledger

namespace Order

open Acting (Ensures Keeps)

variable {Key : Type} {out : Outside Key} {order : Order} {start : Ledger} {id : CertificateId}

/-! ## One driver -/

/-- The ledger after what a driver has done. -/
def ledger (start : Ledger) (world : World) : Ledger := Runs.run Ledger.step start world.trace

/-- A driver whose state is the ledger's, and whose deeds so far have covered what is up. -/
structure Tracks (id : CertificateId) (start : Ledger) (world : World) : Prop where
  state : (ledger start world).state = world.state
  covered : ∀ first, first <+: world.trace → (Runs.run Ledger.step start first).Covered id

/-- Nothing is up but what is lost or has one of some names. -/
def UpTo (names : Finset String) (start : Ledger) (world : World) : Prop :=
  (ledger start world).up ⊆ (ledger start world).lost ∪ names

/-- A driver that has nothing up that it could still withdraw. -/
structure Settled (id : CertificateId) (start : Ledger) (world : World) : Prop where
  tracks : Tracks id start world
  upTo : UpTo ∅ start world

theorem ledger_append (world : World) (deed : Deed) {world' : World}
    (h : world'.trace = world.trace ++ [deed]) :
    ledger start world' = (ledger start world).step deed := by
  rw [ledger, h, Runs.run_append]
  rfl

/-- One more deed. -/
theorem Tracks.append {world world' : World} {deed : Deed} (h : Tracks id start world)
    (htrace : world'.trace = world.trace ++ [deed])
    (hstate : ((ledger start world).step deed).state = world'.state)
    (hcovered : ((ledger start world).step deed).Covered id) : Tracks id start world' := by
  refine ⟨?_, fun first hfirst => ?_⟩
  · rw [ledger_append world deed htrace, hstate]
  · rw [htrace] at hfirst
    rcases List.prefix_concat_iff.mp hfirst with rfl | hfirst
    · rw [Runs.run_append]
      exact hcovered
    · exact h.covered first hfirst

/-- What is neither a deed nor an access to the state makes no difference. -/
theorem Tracks.same {world world' : World} (h : Tracks id start world)
    (htrace : world'.trace = world.trace) (hstate : world'.state = world.state) :
    Tracks id start world' := by
  refine ⟨?_, htrace ▸ h.covered⟩
  rw [ledger, htrace, hstate]
  exact h.state

theorem Settled.same {world world' : World} (h : Settled id start world)
    (htrace : world'.trace = world.trace) (hstate : world'.state = world.state) :
    Settled id start world' := by
  refine ⟨h.tracks.same htrace hstate, ?_⟩
  rw [UpTo, ledger, htrace]
  exact h.upTo

theorem upTo_empty {world : World} :
    UpTo ∅ start world ↔ (ledger start world).up ⊆ (ledger start world).lost := by
  rw [UpTo, Finset.union_empty]

theorem settled_call {α : Type} (outcome : ℕ → Except Failure α) :
    Keeps (Settled id start) (call outcome) :=
  .of_world fun _ h => h.same rfl rfl

theorem settled_now : Keeps (Settled id start) (now out) := .of_world fun _ h => h

theorem settled_read : Keeps (Settled id start) (read out) := by
  refine .of_world fun world h => ?_
  simp only [read]
  split
  · exact h.same rfl rfl
  · exact h.same rfl rfl
  · exact h.same rfl rfl

/-- While nothing can be withdrawn, any write will do. -/
theorem settled_update (edit : Option Snapshot → Except Failure Snapshot) :
    Keeps (Settled id start) (update out edit) := by
  refine .of_world fun world h => ?_
  rcases update_cases out edit world with ⟨failure, hrun⟩ | ⟨next, outcome, -, hrun⟩ <;> rw [hrun]
  · exact h.same rfl rfl
  · have hup := upTo_empty.mp h.upTo
    refine ⟨h.tracks.append rfl rfl (.inr hup), upTo_empty.mpr ?_⟩
    rw [ledger_append world (.stored next) rfl]
    exact hup

theorem settled_accountKey : Keeps (Settled id start) (accountKey out order) := by
  refine settled_read.bind fun state => ?_
  split
  · exact .lift _
  · exact (settled_call _).bind fun _ => (Keeps.lift _).bind fun _ => (settled_update _).bind fun _ =>
      .pure _

theorem settled_openOrder (kind : Challenge) (names : List String) :
    Keeps (Settled id start) (openOrder out order kind names) := by
  refine settled_read.bind fun state => ?_
  split
  · exact settled_read.bind fun _ => (Keeps.lift _).bind fun _ => .pure _
  · exact (settled_call _).bind fun _ => (Keeps.lift _).bind fun _ => settled_now.bind fun _ =>
      (settled_update _).bind fun _ => .pure _

theorem settled_closeOrder : Keeps (Settled id start) (closeOrder out order) := by
  refine settled_read.bind fun state => ?_
  split
  · exact settled_update _
  · exact .pure ()

theorem settled_signingKey (opened : Opened) :
    Keeps (Settled id start) (signingKey out order opened) := by
  rw [signingKey]
  split
  · exact .pure _
  · exact settled_closeOrder.bind fun _ => .fail _

theorem settled_answeringFor (checked : Wanted) :
    Keeps (Settled id start) (answeringFor out order checked) := by
  rw [answeringFor]
  split
  · exact (Keeps.lift _).bind fun _ => .pure _
  · exact settled_read.bind fun _ => (Keeps.lift _).bind fun _ => (Keeps.lift _).bind fun _ => .pure _

/-- Nothing goes up before the certificate authority is asked. -/
theorem settled_prepare : Keeps (Settled id start) (prepare out order) := by
  have hopening : Keeps (Settled id start) (opening out order) :=
    (Keeps.lift _).bind fun _ => settled_accountKey.bind fun _ => (settled_openOrder _ _).bind fun _ =>
      .pure _
  exact hopening.bind fun _ => (settled_signingKey _).bind fun _ => (settled_answeringFor _).bind
    fun _ => .pure _

/-- Nothing goes up once the drive has ended. -/
theorem settled_finish (prepared : Prepared Key) (outcome : Except Failure Obtained) :
    Keeps (Settled id start) (finish out order prepared outcome) := by
  cases outcome with
  | error failure => exact settled_closeOrder.bind fun _ => .fail _
  | ok obtained =>
    have husable : Keeps (Settled id start) (usable out order.id) :=
      settled_read.bind fun _ => (Keeps.lift _).bind fun _ => (Keeps.lift _).bind fun _ =>
        (Keeps.lift _).bind fun _ => settled_now.bind fun _ => (Keeps.lift _).bind fun _ => .pure _
    exact settled_now.bind fun _ => (Keeps.lift _).bind fun _ => (settled_update _).bind fun _ =>
      husable.bind fun _ => .pure _

/-! ## While an order is driven -/

/-- The names an attempt has up and would withdraw. -/
def remembered (answering : Answering) (live : Tls.Reached) (world : World) : Finset String :=
  match answering with
  | .http01 _ _ => ∅
  | .dns01 _ _ => world.live ∩ live.publication.entries.keys

/-- A driver in an attempt: what is up is lost or will be withdrawn. -/
structure Publishing (id : CertificateId) (start : Ledger) (answering : Answering) (live : Tls.Reached)
    (world : World) : Prop where
  tracks : Tracks id start world
  upTo : UpTo (remembered answering live world) start world

/-- A driver whose order has its record, with some names remembered. -/
structure Holding (id : CertificateId) (start : Ledger) (live names : Finset String) (world : World) :
    Prop where
  tracks : Tracks id start world
  running : Running id world.state
  live : world.live = live
  upTo : UpTo names start world

/-- Whoever cannot file what was reached has lost what is up. -/
theorem settled_unfiled {world : World} (h : Tracks id start world) :
    Settled id start ((does .unfiled).run world).2 := by
  refine ⟨h.append rfl h.state (.inr (Finset.Subset.refl _)), upTo_empty.mpr ?_⟩
  rw [ledger_append world .unfiled rfl]
  exact Finset.Subset.refl _

/-- What was reached is filed with the record, or everything that is up is lost. -/
theorem ensures_filed (reached : Tls.Reached) (names live : Finset String) :
    Ensures (fun world => Tracks order.id start world ∧ world.live = live ∧ UpTo names start world)
      (filed out order reached) (fun _ => Holding order.id start live names)
      (Settled order.id start) := by
  rintro world ⟨htracks, hlive, hupTo⟩
  simp only [filed, fileReached]
  rcases update_cases out _ world with ⟨failure, hrun⟩ | ⟨next, outcome, hnext, hrun⟩ <;> rw [hrun]
  · exact .of_error (settled_unfiled (htracks.same rfl rfl))
  · have hrunning := running_fileReached hnext
    have htracks' : Tracks order.id start
        ⟨some next, world.live, world.calls + 1, world.trace ++ [.stored next]⟩ :=
      htracks.append rfl rfl (.inl hrunning)
    cases outcome with
    | error failure => exact .of_error (settled_unfiled htracks')
    | ok _ =>
      refine .of_ok ⟨htracks', hrunning, hlive, ?_⟩
      rw [UpTo, ledger_append world (.stored next) rfl]
      exact hupTo

section

variable {live names : Finset String} {E : World → Prop}

/-- A deed at a name server, by an order that has its record. -/
theorem Tracks.does {world : World} {deed : Deed} (h : Tracks id start world)
    (hrunning : Running id world.state)
    (hdeed : ∀ ledger : Ledger, (ledger.step deed).state = ledger.state) :
    Tracks id start ((Order.does deed).run world).2 := by
  refine h.append rfl ((hdeed _).trans h.state) (.inl ?_)
  rw [hdeed, h.state]
  exact hrunning

theorem ensures_published {added : Finset String} (hnames : names ⊆ added) :
    Ensures (Holding id start live names) (does (.published added))
      (fun _ => Holding id start live added) E := by
  intro world h
  refine .of_ok ⟨h.tracks.does h.running fun _ => rfl, h.running, h.live, ?_⟩
  rw [UpTo, ledger_append world (.published added) rfl]
  intro name hname
  have hup := @h.upTo name
  simp only [Ledger.step, Finset.mem_union, Finset.mem_sdiff] at hname hup ⊢
  have hadded := @hnames name
  tauto

theorem ensures_withdrawn (gone : Finset String) :
    Ensures (Holding id start live names) (does (.withdrawn gone))
      (fun _ => Holding id start live (names \ gone)) E := by
  intro world h
  refine .of_ok ⟨h.tracks.does h.running fun _ => rfl, h.running, h.live, ?_⟩
  rw [UpTo, ledger_append world (.withdrawn gone) rfl]
  intro name hname
  have hup := @h.upTo name
  simp only [Ledger.step, Finset.mem_union, Finset.mem_sdiff] at hname hup ⊢
  tauto

theorem holding_call {α : Type} (outcome : ℕ → Except Failure α) :
    Keeps (Holding id start live names) (call outcome) :=
  .of_world fun _ h => ⟨h.tracks.same rfl rfl, h.running, h.live, h.upTo⟩

theorem ensures_replaceLive (replaced : Finset String) :
    Ensures (Holding id start live names) (replaceLive replaced)
      (fun previous world => previous = live ∧ Holding id start replaced names world) E :=
  fun _ h => .of_ok ⟨h.live, h.tracks.same rfl rfl, h.running, rfl, h.upTo⟩

end

section

variable {provider : DnsProvider} {secret : String} {live reached : Tls.Reached}

theorem Holding.mono {names fewer more : Finset String} {world : World}
    (h : Holding id start names fewer world) (hmore : fewer ⊆ more) : Holding id start names more world :=
  ⟨h.tracks, h.running, h.live, h.upTo.trans (Finset.union_subset_union_right hmore)⟩

theorem Holding.publishing {names : Finset String} {world : World}
    (h : Holding id start names (names ∩ reached.publication.entries.keys) world) :
    Publishing id start (.dns01 provider secret) reached world := by
  refine ⟨h.tracks, ?_⟩
  rw [remembered, h.live]
  exact h.upTo

theorem Holding.settled {names : Finset String} {world : World} (h : Holding id start names ∅ world) :
    Settled id start world := ⟨h.tracks, h.upTo⟩

/-- A publication that takes nothing away. -/
theorem ensures_apply (previous : Finset String)
    (hgrows : live.publication.entries.keys ⊆ reached.publication.entries.keys) :
    Ensures (Holding id start previous (previous ∩ live.publication.entries.keys))
      (apply out (.dns01 provider secret) reached)
      (fun _ => Publishing id start (.dns01 provider secret) reached)
      (Publishing id start (.dns01 provider secret) reached) := by
  set names := reached.publication.entries.keys with hnames
  set ours := previous ∩ live.publication.entries.keys with hours
  have hfew : ours ⊆ names := Finset.inter_subset_right.trans hgrows
  have hpublishing : ∀ world, Holding id start names names world →
      Publishing id start (.dns01 provider secret) reached world := by
    intro world h
    have hself : Holding id start names (names ∩ names) world := by rwa [Finset.inter_self]
    exact hself.publishing
  -- a publication of the other kind changes nothing
  refine Ensures.bind (Q := fun _ => Holding id start previous ours) (.lift (fun _ _ _ h => h) ?_)
    fun _ => ?_
  · intro world h
    exact (h.mono (Finset.inter_subset_inter_left hgrows)).publishing
  refine (ensures_replaceLive names).bind fun replaced world ⟨_, hworld⟩ => ?_
  refine Ensures.bind (P := Holding id start names ours) (Q := fun _ => Holding id start names names)
    ?_ (fun _ => ?_) world hworld
  · rw [Acting.onlyIf]
    split
    · exact (ensures_published hfew).bind fun _ => (holding_call _).ensures hpublishing
    · exact .pure fun world h => h.mono hfew
  · rw [Acting.onlyIf]
    split
    · refine (ensures_withdrawn _).bind fun _ => ?_
      exact (holding_call _).weaken (fun _ h => h)
        (fun _ world h => hpublishing world (h.mono Finset.sdiff_subset))
        (fun world h => hpublishing world (h.mono Finset.sdiff_subset))
    · exact .pure hpublishing

/-- What closes an attempt withdraws what was remembered. -/
theorem ensures_apply_closing (previous : Finset String)
    (hmeant : (closing live).publication.meantFor .dns01 = .ok ()) :
    Ensures (Holding id start previous (previous ∩ live.publication.entries.keys))
      (apply out (.dns01 provider secret) (closing live)) (fun _ => Settled id start)
      (Settled id start) := by
  set ours := previous ∩ live.publication.entries.keys with hours
  refine Ensures.bind (Q := fun _ => Holding id start previous ours)
    (fun world h => ?_) fun _ => ?_
  · rw [Answering.kind, hmeant]
    exact .of_ok h
  refine (ensures_replaceLive _).bind fun replaced world ⟨hreplaced, hworld⟩ => ?_
  obtain rfl := hreplaced
  have hnone : (closing live).publication.entries = ∅ := rfl
  refine Ensures.bind (P := Holding id start ∅ ours) (Q := fun _ => Holding id start ∅ ours)
    ?_ (fun _ => ?_) world hworld
  · rw [Acting.onlyIf, if_neg (fun h => h hnone)]
    exact .pure fun _ h => h
  · have hgone : replaced \ (closing live).publication.entries.keys = replaced := by
      rw [hnone, Finmap.keys_empty, Finset.sdiff_empty]
    rw [hgone, Acting.onlyIf]
    have hdown : ours \ replaced = ∅ := Finset.sdiff_eq_empty_iff_subset.mpr Finset.inter_subset_left
    split
    · refine (ensures_withdrawn _).bind fun _ => ?_
      rw [hdown]
      exact (holding_call _).weaken (fun _ h => h) (fun _ _ h => h.settled) (fun _ h => h.settled)
    · rename_i hempty
      have hnone : ours ⊆ ∅ := Finset.inter_subset_left.trans (not_not.mp hempty).subset
      exact .pure fun world h => (h.mono hnone).settled

end

theorem Settled.publishing {world : World} (h : Settled id start world) (answering : Answering)
    (live : Tls.Reached) : Publishing id start answering live world :=
  ⟨h.tracks, h.upTo.trans (Finset.union_subset_union_right (Finset.empty_subset _))⟩

/-- The traffic path has nothing to do with name servers. -/
theorem settled_apply (listener : IpAddr × UInt16) (file : Option String) (reached : Tls.Reached) :
    Keeps (Settled id start) (apply out (.http01 listener file) reached) := by
  have hlive (names : Finset String) : Keeps (Settled id start) (replaceLive names) :=
    .of_world fun _ h => h.same rfl rfl
  exact (Keeps.lift _).bind fun _ => (hlive _).bind fun _ =>
    (keeps_writeOut settled_call file _).bind fun _ => settled_call _

/-- What is reached is recorded, and what is up stays remembered or is lost. -/
theorem publishing_recordReached {kind : Challenge} {answering : Answering} {live reached : Tls.Reached}
    {world : World} (hfollows : Follows kind live reached)
    (h : Publishing order.id start answering live world) :
    Publishing order.id start answering reached
      ((recordReached out order answering reached).run world).2 := by
  have hfiled : Ensures _ (filed out order reached) (fun _ => Holding order.id start world.live
      (remembered answering live world)) (Settled order.id start) := ensures_filed _ _ _
  cases answering with
  | http01 listener file =>
    refine Settled.publishing ?_ _ _
    refine (hfiled.bind fun _ => ?_).always ⟨h.tracks, rfl, h.upTo⟩
    exact (settled_apply listener file reached).weaken (fun _ h => h.settled) (fun _ _ h => h)
      (fun _ h => h)
  | dns01 provider secret =>
    have hgrows : live.publication.entries.keys ⊆ reached.publication.entries.keys := by
      intro name hname
      rw [Finmap.mem_keys] at hname ⊢
      exact hfollows.grows name hname
    refine ((hfiled.weaken (fun _ h => h) (fun _ _ h => h) fun _ h => h.publishing _ _).bind
      fun _ => ?_).always ⟨h.tracks, rfl, h.upTo⟩
    exact ensures_apply world.live hgrows

theorem meantFor_closing {kind : Challenge} {live : Tls.Reached}
    (h : AnswersOnly kind live.publication) : (closing live).publication.meantFor kind = .ok () := by
  rcases h with h | h
  · rw [Publication.meantFor, closing, h]
  · rw [Publication.meantFor, closing, h]
    exact Checked.ensure_eq_ok.mpr rfl

/-- An attempt is closed, and nothing it had up is still there unless it is lost. -/
theorem settled_closing {kind : Challenge} {answering : Answering} (hkind : answering.kind = kind)
    {live : Tls.Reached} {world : World} (hanswers : AnswersOnly kind live.publication)
    (h : Publishing order.id start answering live world) :
    Settled order.id start ((recordReached out order answering (closing live)).run world).2 := by
  have hfiled : Ensures _ (filed out order (closing live)) (fun _ => Holding order.id start world.live
      (remembered answering live world)) (Settled order.id start) := ensures_filed _ _ _
  refine (hfiled.bind fun _ => ?_).always ⟨h.tracks, rfl, h.upTo⟩
  cases answering with
  | http01 listener file =>
    exact (settled_apply listener file _).weaken (fun _ h => h.settled) (fun _ _ h => h) (fun _ h => h)
  | dns01 provider secret =>
    obtain rfl : kind = .dns01 := hkind.symm
    exact ensures_apply_closing world.live (meantFor_closing hanswers)

/-- A drive that has ended has nothing up but what is lost. -/
theorem tracks_driven {prepared : Prepared Key} (hkind : prepared.answering.kind = prepared.kind)
    (replies : Replies) {world : World} (h : Settled order.id start world) :
    Tracks order.id start (driven out order prepared replies world).world ∧
      ((driven out order prepared replies world).outcome ≠ none →
        Settled order.id start (driven out order prepared replies world).world) := by
  -- an attempt that has published nothing has nothing to close
  have hempty (live : Tls.Reached) (world : World)
      (h : Publishing order.id start prepared.answering live world) (hnone : live.publication.isEmpty) :
      Settled order.id start world := by
    refine ⟨h.tracks, h.upTo.trans (Finset.union_subset_union_right ?_)⟩
    cases prepared.answering with
    | http01 listener file => exact Finset.Subset.refl _
    | dns01 provider secret =>
      rw [Publication.isEmpty] at hnone
      rw [remembered, hnone, Finmap.keys_empty, Finset.inter_empty]
  rcases @obtainPlanned_keeps Key World out.lib out.keys prepared.account
    (fun reached => (recordReached out order prepared.answering reached).run) prepared.kind
    (Publishing order.id start prepared.answering)
    (fun _ _ _ h hfollows => publishing_recordReached hfollows h) (Settled order.id start)
    hempty (fun _ _ h hanswers _ => settled_closing hkind hanswers h)
    prepared.settings prepared.names prepared.plan out.generate
    (fun _ _ h => h.publishing _ _) replies world h with ⟨hopen, _, hwaiting⟩ | hended
  · exact ⟨hwaiting.tracks, fun hreturned => absurd hopen hreturned⟩
  · exact ⟨hended.tracks, fun _ => hended⟩

/-- What answers an order answers its challenge. -/
theorem kind_prepared {prepared : Prepared Key} {world world' : World}
    (h : (prepare out order).run world = (.ok prepared, world')) :
    prepared.answering.kind = prepared.kind := by
  rw [prepare] at h
  obtain ⟨opening, world₁, -, hdrive⟩ := Acting.bind_eq_ok h
  obtain ⟨key, world₂, -, hsigned⟩ := Acting.bind_eq_ok hdrive
  obtain ⟨answering, world₃, hanswering, hlast⟩ := Acting.bind_eq_ok hsigned
  obtain ⟨rfl, -⟩ := Acting.pure_eq_ok hlast
  rw [answeringFor] at hanswering
  split at hanswering <;> rename_i hkind
  · obtain ⟨bound, world₄, -, hanswering⟩ := Acting.bind_eq_ok hanswering
    obtain ⟨rfl, -⟩ := Acting.pure_eq_ok hanswering
    exact hkind.symm
  · obtain ⟨state, world₄, -, hread⟩ := Acting.bind_eq_ok hanswering
    obtain ⟨held, world₅, -, hheld⟩ := Acting.bind_eq_ok hread
    obtain ⟨found, world₆, -, hfound⟩ := Acting.bind_eq_ok hheld
    obtain ⟨rfl, -⟩ := Acting.pure_eq_ok hfound
    exact hkind.symm

/-- Wherever a driver stops, what is up is covered. -/
theorem tracks_obtainOrder (out : Outside Key) (order : Order) (replies : Replies)
    (hstart : start.up ⊆ start.lost) :
    Tracks order.id start (obtainOrder out order replies start.state).world := by
  have hbegin : Settled order.id start (.start start.state) := by
    refine ⟨⟨rfl, fun first hfirst => .inr ?_⟩, upTo_empty.mpr hstart⟩
    rw [List.prefix_nil.mp hfirst]
    exact hstart
  have hsettled : Settled order.id start ((prepare out order).run (.start start.state)).2 :=
    settled_prepare.world hbegin
  rw [obtainOrder]
  rcases hprepare : (prepare out order).run (.start start.state) with ⟨failure | prepared, world⟩ <;>
    rw [hprepare] at hsettled
  · exact hsettled.tracks
  · obtain ⟨htracks, hended⟩ := tracks_driven (kind_prepared hprepare) replies hsettled
    dsimp only
    split
    · exact htracks
    · rename_i outcome houtcome
      have hdriven := hended (by rw [houtcome]; exact Option.some_ne_none outcome)
      exact ((settled_finish prepared outcome).world hdriven).tracks

end Order

/-! ## Drivers -/

/-- A driver of an order, with what it meets and how many deeds it has before it stops. -/
structure Driver (Key : Type) where
  out : Outside Key
  config : Config
  delivery : Delivery
  node : Option NodeId
  replies : Replies
  stops : ℕ

namespace Driver

variable {Key : Type}

/-- What a driver does with the state it finds, until it stops. -/
def deeds (id : CertificateId) (state : Option Snapshot) (driver : Driver Key) : List Deed :=
  let order : Order := ⟨driver.config, driver.delivery, id, driver.node⟩
  .started :: (order.obtainOrder driver.out driver.replies state).world.trace.take driver.stops

/-- What drivers do one after the other, each with the state the last one has left. -/
def history (id : CertificateId) : Ledger → List (Driver Key) → List Deed
  | _, [] => []
  | ledger, driver :: later =>
    let deeds := driver.deeds id ledger.state
    deeds ++ history id (Runs.run Ledger.step ledger deeds) later

variable {id : CertificateId}

/-- Wherever a driver stops, what is up without a record is lost. -/
theorem covered_deeds {ledger : Ledger} (hledger : ledger.Covered id) (driver : Driver Key) :
    ∀ first, first <+: driver.deeds id ledger.state →
      (Runs.run Ledger.step ledger first).Covered id := by
  intro first hfirst
  rcases List.prefix_cons_iff.mp hfirst with rfl | ⟨rest, rfl, hrest⟩
  · exact hledger
  · -- a driver that begins finds everything that is up lost
    have htracks : Order.Tracks id (ledger.step .started) _ :=
      Order.tracks_obtainOrder driver.out ⟨driver.config, driver.delivery, id, driver.node⟩
        driver.replies (Finset.Subset.refl _)
    exact htracks.covered rest (hrest.trans (List.take_prefix _ _))

theorem covered_history {ledger : Ledger} (hledger : ledger.Covered id) (drivers : List (Driver Key)) :
    ∀ first, first <+: history id ledger drivers → (Runs.run Ledger.step ledger first).Covered id := by
  induction drivers generalizing ledger with
  | nil =>
    intro first hfirst
    rw [List.prefix_nil.mp hfirst]
    exact hledger
  | cons driver later ih =>
    intro first hfirst
    have hdeeds := covered_deeds hledger driver
    rcases List.prefix_or_prefix_of_prefix hfirst (List.prefix_append _ _) with hshort | ⟨rest, rfl⟩
    · exact hdeeds first hshort
    · rw [Runs.run_append]
      refine ih (hdeeds _ (List.prefix_refl _)) rest ?_
      exact (List.prefix_append_right_inj _).mp hfirst

/-- **What goes up comes down unless it is lost.** Over every run of an order and at every point of it,
nothing is up when the record is gone, exactly if the record is only ever taken away while nothing is
lost: every name that was up when a driver stopped, or when an attempt could not file what it reached, has
been published again or withdrawn by then. -/
theorem down_iff_none_lost (id : CertificateId) (state : Option Snapshot) (drivers : List (Driver Key)) :
    (∀ first, first <+: history id ⟨state, ∅, ∅⟩ drivers →
      (Runs.run Ledger.step ⟨state, ∅, ∅⟩ first).Down id) ↔
    Runs.Along Ledger.step (Ledger.TakenDown id) ⟨state, ∅, ∅⟩
      (history id ⟨state, ∅, ∅⟩ drivers) := by
  refine Ledger.down_iff_along (fun _ => rfl) (Finset.Subset.refl _) ?_
  exact covered_history (.inr (Finset.Subset.refl _)) drivers

/-! ## A driver that stops -/

def pendingBody : String :=
  "\x7b\"status\":\"pending\",\"authorizations\":[\"https://ca.example/authorization/1\"]," ++
    "\"finalize\":\"https://ca.example/finalize/1\"\x7d"

def failedBody : String :=
  "\x7b\"status\":\"invalid\",\"authorizations\":[\"https://ca.example/authorization/1\"]," ++
    "\"finalize\":\"https://ca.example/finalize/1\"\x7d"

def challengeBody : String :=
  "\x7b\"status\":\"pending\",\"identifier\":\x7b\"type\":\"dns\",\"value\":\"a.example\"\x7d," ++
    "\"challenges\":[\x7b\"type\":\"dns-01\",\"token\":\"t1\"," ++
    "\"url\":\"https://ca.example/challenge/1\"\x7d]\x7d"

def orderDocument (status : String) : Value :=
  .object [("status", .string status),
    ("authorizations", .array [.string "https://ca.example/authorization/1"]),
    ("finalize", .string "https://ca.example/finalize/1")]

/-- A parser for the documents below, and the printing of one digest. -/
def readingPending : Libraries :=
  { reading with
    fromStr := fun body =>
      if body = pendingBody then .ok (orderDocument "pending")
      else if body = failedBody then .ok (orderDocument "invalid")
      else if body = challengeBody then .ok (.object [("status", .string "pending"),
        ("identifier", .object [("type", .string "dns"), ("value", .string "a.example")]),
        ("challenges", .array [.object [("type", .string "dns-01"), ("token", .string "t1"),
          ("url", .string "https://ca.example/challenge/1")]])])
      else reading.fromStr body
    encodeBlock := fun _ => "mA6I9snSUQiMwiFtS3v82dw1l4gYajboLce9QVRrjng=" }

/-- The way to the order. -/
def upToOrder : Replies := [
  .ok ⟨⟨200, directoryBody, none⟩, none⟩,
  .ok ⟨⟨200, "", none⟩, some "nonce"⟩,
  .ok ⟨⟨201, "", some "https://ca.example/account/1"⟩, some "nonce"⟩]

def driverOf (replies : Replies) : Driver Unit where
  out := { Order.undisturbed with lib := readingPending }
  config := Order.dnsOrder.config
  delivery := .replicated
  node := none
  replies := replies
  stops := 100

/-- A driver that stops once its answer is up. -/
def publishes : Driver Unit := driverOf (upToOrder ++ [
  .ok ⟨⟨201, pendingBody, some "https://ca.example/order/1"⟩, some "nonce"⟩,
  .ok ⟨⟨200, challengeBody, none⟩, some "nonce"⟩])

/-- A driver that takes over an order that has failed. -/
def givesUp : Driver Unit := driverOf (upToOrder ++ [.ok ⟨⟨200, failedBody, none⟩, some "nonce"⟩])

/-- The answer of a driver that stopped stays up when the one that takes over gives up. -/
theorem stopped_stays_up :
    ¬ ∀ first, first <+: history ⟨"web"⟩ ⟨some Order.credentialed, ∅, ∅⟩ [publishes, givesUp] →
      (Runs.run Ledger.step ⟨some Order.credentialed, ∅, ∅⟩ first).Down ⟨"web"⟩ := by
  intro hdown
  have hend := hdown _ (List.prefix_refl _)
  rw [Ledger.Down] at hend
  revert hend
  decide +kernel

end Driver

end EkEk.Program
