import EkEk.Program.Ordering
import EkEk.Tls.Ending

/-!
# The ways out of an order

Reference: `obtain_order`, `open_order` and `close_order` of `crates/ek-ek/src/acme.rs`.

An order has a record and a signing key in the state while it runs. `close_order` takes both away on a
way out, and the last write does when the certificate is filed. With the state readable and writable
throughout, `clean_iff_not_left` says on which ways out the two are gone: on all but three. Before the
order is opened nothing is taken away, so that what the state held of an order stays. A DNS provider or
a credential that is missing ends the order after it was opened, and so does a certificate that cannot
be used, and neither of the two closes it.
-/

namespace EkEk.Program

open Store Tls

/-- A state that holds nothing of an order. -/
def Clean (id : CertificateId) (state : Option Snapshot) : Prop :=
  ∀ held ∈ state, id ∉ held.orders ∧ orderKeyId id ∉ held.secrets

instance (id : CertificateId) (state : Option Snapshot) : Decidable (Clean id state) :=
  inferInstanceAs (Decidable (∀ held ∈ state, id ∉ held.orders ∧ orderKeyId id ∉ held.secrets))

/-- A state that holds the record of an order. -/
def Running (id : CertificateId) (state : Option Snapshot) : Prop := ∃ held ∈ state, id ∈ held.orders

instance (id : CertificateId) (state : Option Snapshot) : Decidable (Running id state) :=
  inferInstanceAs (Decidable (∃ held ∈ state, id ∈ held.orders))

theorem Running.not_clean {id : CertificateId} {state : Option Snapshot} (h : Running id state) :
    ¬ Clean id state := by
  obtain ⟨held, hheld, hid⟩ := h
  exact fun hclean => (hclean held hheld).1 hid

theorem clean_orderClosed (state : Snapshot) (id : CertificateId) :
    Clean id (some (orderClosed state id)) := by
  rintro _ ⟨⟩
  exact ⟨by simp [orderClosed], by simp [orderClosed]⟩

/-- Keeping an account key changes no order. -/
theorem clean_accountKeyed (state : Option Snapshot) (captured : Config) (pem : Secret)
    (id : CertificateId) : Clean id (some (accountKeyed state captured pem)) ↔ Clean id state := by
  have hother : orderKeyId id ≠ accountKeySecret := by
    rw [accountKeySecret_eq]
    exact keyId_ne_orderKeyId.symm
  cases state with
  | none =>
    refine iff_of_true ?_ (fun held hheld => by cases hheld)
    rintro _ ⟨⟩
    simp [accountKeyed, replaced, Snapshot.withSecret, Snapshot.new, hother, Finmap.notMem_empty]
  | some held => simp [Clean, accountKeyed, replaced, Snapshot.withSecret, hother]

/-- Whatever is filed is filed with the record. -/
theorem running_fileReached {id : CertificateId} {state : Option Snapshot} {reached : Program.Reached}
    {driver : Option NodeId} {next : Snapshot}
    (h : Program.fileReached state id reached driver = .ok next) : Running id (some next) := by
  rw [Program.fileReached] at h
  obtain ⟨held, -, h⟩ := Checked.bind_eq_ok.mp h
  obtain ⟨record, -, h⟩ := Checked.bind_eq_ok.mp h
  obtain rfl := Except.ok.inj h
  exact ⟨_, rfl, Finmap.mem_insert.mpr (.inl rfl)⟩

namespace Order

open Acting (Ensures Keeps)

variable {Key : Type} {out : Outside Key} {order : Order}

/-- A world whose state is as said. -/
def On (P : Option Snapshot → Prop) (world : World) : Prop := P world.state

variable {P Q : Option Snapshot → Prop} {E : World → Prop}

theorem keeps_call {α : Type} (outcome : ℕ → Except Failure α) : Keeps (On P) (call outcome) :=
  .of_world fun _ h => h

theorem keeps_now : Keeps (On P) (now out) := .of_world fun _ h => h

theorem keeps_does (deed : Deed) : Keeps (On P) (does deed) := .of_world fun _ h => h

theorem keeps_replaceLive (names : Finset String) : Keeps (On P) (replaceLive names) :=
  .of_world fun _ h => h

theorem keeps_writeOut {I : World → Prop}
    (hcall : ∀ outcome : ℕ → Except Failure Unit, Keeps I (call outcome)) (file : Option String)
    (answers : Answers) : Keeps I (writeOut out file answers) := by
  cases file with
  | none => exact .pure ()
  | some path => exact hcall fun n => out.writeChallenges n path answers

/-- A write leaves the state alone, or it is made. -/
theorem update_cases (out : Outside Key) (edit : Option Snapshot → Except Failure Snapshot)
    (world : World) :
    (∃ failure, (update out edit).run world =
      (.error failure, { world with calls := world.calls + 1 })) ∨
    ∃ next outcome, edit world.state = .ok next ∧ (update out edit).run world =
      (outcome, ⟨some next, world.live, world.calls + 1, world.trace ++ [.stored next]⟩) := by
  simp only [update]
  split
  · exact .inl ⟨_, rfl⟩
  · exact .inl ⟨_, rfl⟩
  · rename_i next _ hedit
    exact .inr ⟨next, _, hedit, rfl⟩
  · rename_i failure next _ hedit
    exact .inr ⟨next, _, hedit, rfl⟩

/-- What every edit keeps stays with the state, whether or not an edit is refused. -/
theorem keeps_update {edit : Option Snapshot → Except Failure Snapshot}
    (h : ∀ state next, P state → edit state = .ok next → P (some next)) :
    Keeps (On P) (update out edit) := by
  refine .of_world fun world hworld => ?_
  rcases update_cases out edit world with ⟨failure, hrun⟩ | ⟨next, outcome, hedit, hrun⟩ <;> rw [hrun]
  · exact hworld
  · exact h _ _ hworld hedit

/-! ## The drive -/

theorem keeps_fileReached (reached : Tls.Reached) :
    Keeps (On (Running order.id)) (fileReached out order reached) :=
  keeps_update fun _ _ _ hedit => running_fileReached hedit

theorem keeps_apply (answering : Answering) (reached : Tls.Reached) :
    Keeps (On P) (apply out answering reached) := by
  refine (Keeps.lift _).bind fun _ => ?_
  split
  · refine (keeps_replaceLive _).bind fun previous => (keeps_writeOut keeps_call _ _).bind fun _ => ?_
    exact keeps_call _
  · refine (keeps_replaceLive _).bind fun previous => Keeps.bind (.onlyIf ?_) fun _ => .onlyIf ?_
    · exact (keeps_does _).bind fun _ => keeps_call _
    · exact (keeps_does _).bind fun _ => keeps_call _

theorem keeps_filed (reached : Tls.Reached) :
    Keeps (On (Running order.id)) (filed out order reached) := by
  refine .of_world fun world h => ?_
  have hfiled : On (Running order.id) ((fileReached out order reached).run world).2 :=
    (keeps_fileReached reached).world h
  simp only [filed]
  rcases hrun : (fileReached out order reached).run world with ⟨failure | _, world'⟩ <;>
    rw [hrun] at hfiled
  · exact hfiled
  · exact hfiled

theorem keeps_recordReached (answering : Answering) (reached : Tls.Reached) :
    Keeps (On (Running order.id)) (recordReached out order answering reached) :=
  (keeps_filed reached).bind fun _ => keeps_apply answering reached

/-- A drive leaves the record where it is. -/
theorem running_driven (prepared : Prepared Key) (replies : Replies) {world : World}
    (h : On (Running order.id) world) :
    On (Running order.id) (driven out order prepared replies world).world :=
  obtainPlanned_world (fun reached _ h => (keeps_recordReached prepared.answering reached).world h) _ _ _ _
    replies h

section

variable (hstore : ∀ n, out.store n = .fine)
include hstore

/-! ## A state that can be read and written -/

theorem ensures_read : Ensures (On P) (read out) (fun state => On fun held => state = held ∧ P held) E := by
  intro world h
  simp only [read, hstore]
  exact .of_ok ⟨rfl, h⟩

theorem ensures_update {edit : Option Snapshot → Except Failure Snapshot}
    (h : ∀ state, P state → ∃ next, edit state = .ok next ∧ Q (some next)) :
    Ensures (On P) (update out edit) (fun _ => On Q) E := by
  intro world hworld
  obtain ⟨next, hedit, hnext⟩ := h _ hworld
  simp only [update, hstore, hedit]
  exact .of_ok hnext

/-! ## Up to the drive -/

/-- The account key is there or made, and no order changes by it. -/
theorem ensures_accountKey (state : Option Snapshot) :
    Ensures (On (· = state)) (accountKey out order)
      (fun _ => On fun held => held.isSome ∧ (Clean order.id held ↔ Clean order.id state))
      (On fun held => Clean order.id held ↔ Clean order.id state) := by
  refine (ensures_read hstore).bind fun read => ?_
  split
  · rename_i pem hpem
    refine .lift (fun _ world _ h => ?_) (fun world h => by rw [On, h.2])
    obtain ⟨hread, hstate⟩ := h
    obtain ⟨held, hheld, -⟩ := Option.bind_eq_some_iff.mp hpem
    rw [On, ← hread, hheld, ← hstate, ← hread, hheld]
    exact ⟨rfl, Iff.rfl⟩
  · have hsame : ∀ world, On (fun held => read = held ∧ held = state) world →
        On (fun held => Clean order.id held ↔ Clean order.id state) world := by
      intro world h
      rw [On, h.2]
    refine ((keeps_call out.accountKey).ensures hsame).bind fun generated => ?_
    refine ((Keeps.lift (out.accountToPem generated)).ensures hsame).bind fun pem => ?_
    refine (ensures_update hstore fun held h => ⟨_, rfl, rfl, ?_⟩).bind fun _ => .pure fun _ h => h
    rw [clean_accountKeyed, h.2]

/-- An order that was opened runs. One that was not is as it was. -/
theorem ensures_openOrder (kind : Challenge) (names : List String) (state : Option Snapshot) :
    Ensures (On fun held => held.isSome ∧ (Clean order.id held ↔ Clean order.id state))
      (openOrder out order kind names) (fun _ => On (Running order.id))
      (On fun held => Clean order.id held ↔ Clean order.id state) := by
  refine (ensures_read hstore).bind fun read => ?_
  split
  · rename_i record hrecord
    obtain ⟨held, hheld, hlookup⟩ := Option.bind_eq_some_iff.mp hrecord
    have hrunning : Running order.id read := by
      refine ⟨held, hheld, ?_⟩
      exact Finmap.mem_of_lookup_eq_some hlookup
    refine (ensures_read hstore).bind fun again => ?_
    refine Ensures.bind (Q := fun _ => On (Running order.id)) (.lift ?_ fun world h => h.2.2.2)
      fun key => .pure fun _ h => h
    intro key world _ h
    rw [On, ← h.2.1]
    exact hrunning
  · refine ((keeps_call out.generate).ensures fun world h => h.2.2).bind fun key => ?_
    refine ((Keeps.lift (out.keys.toPem key)).ensures fun world h => h.2.2).bind fun pem => ?_
    refine (keeps_now.ensures fun world h => h.2.2).bind fun startedAt => ?_
    refine (ensures_update (Q := Running order.id) hstore fun held h => ?_).bind fun _ =>
      .pure fun _ h => h
    obtain ⟨held, rfl⟩ := Option.isSome_iff_exists.mp h.2.1
    exact ⟨_, rfl, _, rfl, Finmap.mem_insert.mpr (.inl rfl)⟩

/-- Everything before the drive either opens the order or leaves it as it was. -/
theorem ensures_opening (state : Option Snapshot) :
    Ensures (On (· = state)) (opening out order)
      (fun opening world => On (Running order.id) world ∧ wanted order = .ok opening.wanted)
      (On fun held => Clean order.id held ↔ Clean order.id state) := by
  have hchecked : Ensures (On (· = state)) (Acting.lift (wanted order))
      (fun checked world => On (· = state) world ∧ wanted order = .ok checked)
      (On fun held => Clean order.id held ↔ Clean order.id state) :=
    .lift (fun _ _ hok h => ⟨h, hok⟩) (fun world h => by rw [On, h])
  refine hchecked.bind fun checked world ⟨hworld, hok⟩ => ?_
  refine ((ensures_accountKey hstore state).bind fun account => ?_) world hworld
  exact (ensures_openOrder hstore _ _ state).bind fun opened => .pure fun _ h => ⟨h, hok⟩

theorem ensures_closeOrder :
    Ensures (On (Running order.id)) (closeOrder out order) (fun _ => On (Clean order.id)) E := by
  refine (ensures_read hstore).bind fun read world ⟨hread, hrunning⟩ => ?_
  obtain ⟨held, hheld, hid⟩ := hrunning
  rw [if_pos ⟨held, hread ▸ hheld, hid⟩]
  refine ensures_update (P := Running order.id) hstore (fun state h => ?_) world ⟨held, hheld, hid⟩
  obtain ⟨held, rfl, -⟩ := h
  exact ⟨_, rfl, clean_orderClosed held order.id⟩

/-- A way out that closes the order. -/
theorem ensures_closed {α : Type} (failure : Failure) :
    Ensures (On (Running order.id)) (do closeOrder out order; Acting.fail failure : Act α)
      (fun _ _ => False) (On (Clean order.id)) :=
  (ensures_closeOrder hstore).bind fun _ => .fail fun _ h => h

/-! ## The end -/

/-- Reading a certificate back changes nothing. -/
theorem keeps_usable (id : CertificateId) : Keeps (On P) (usable out id) := by
  have hread : Keeps (On P) (read out) :=
    (ensures_read hstore).weaken (fun _ h => h) (fun _ _ h => h.2) (fun _ h => h)
  exact hread.bind fun _ => (Keeps.lift _).bind fun _ => (Keeps.lift _).bind fun _ =>
    (Keeps.lift _).bind fun _ => keeps_now.bind fun _ => (Keeps.lift _).bind fun _ => .pure _

theorem clean_finish_error (prepared : Prepared Key) (failure : Failure) {world : World}
    (h : On (Running order.id) world) :
    On (Clean order.id) ((finish out order prepared (.error failure)).run world).2 :=
  ((ensures_closed hstore failure).weaken (fun _ h => h) (fun _ _ h => h.elim) fun _ h => h).always h

/-- A certificate that passes its inspection is filed, and the order is over. One that does not leaves
the order running. -/
theorem clean_finish_ok (prepared : Prepared Key) (obtained : Obtained) {world : World}
    (h : On (Running order.id) world) :
    On (Clean order.id) ((finish out order prepared (.ok obtained)).run world).2 ↔
      ¬ ∃ codes, out.inspect obtained.chainPem obtained.keyPem (out.now world.calls) =
        .error codes := by
  have hnow : (now out).run world = (.ok (out.now world.calls), world) := rfl
  rw [finish, Acting.bind_of_ok hnow]
  cases hinspect : out.inspect obtained.chainPem obtained.keyPem (out.now world.calls) with
  | error codes =>
    rw [Acting.bind_of_error rfl]
    exact iff_of_false h.not_clean (fun hpasses => hpasses ⟨codes, rfl⟩)
  | ok upload =>
    rw [Acting.bind_of_ok rfl]
    refine iff_of_true ?_ (by rintro ⟨codes, ⟨⟩⟩)
    refine (Ensures.bind (Q := fun _ => On (Clean order.id)) ?_ fun _ => ?_).always h
    · exact ensures_update hstore fun state _ => ⟨_, rfl, clean_orderClosed _ _⟩
    · exact (keeps_usable hstore order.id).bind fun _ => Keeps.pure ()

end

/-! ## Where the answers go -/

/-- An HTTP-01 order that nothing stops has a listener. -/
theorem isSome_bound {checked : Wanted} (h : wanted order = .ok checked)
    (hkind : checked.kind = .http01) : checked.bound.isSome := by
  simp only [wanted, Checked.bind_eq_ok] at h
  obtain ⟨certificate, -, kind, -, -, -, -, -, settings, -, bound, hbound, h⟩ := h
  obtain rfl := Except.ok.inj h
  obtain rfl : kind = .http01 := hkind
  simp only [boundFor, Checked.bind_eq_ok] at hbound
  obtain ⟨listener, -, vip, -, hbound⟩ := hbound
  rw [← Except.ok.inj hbound]
  rfl

/-- What answers an order is there unless the order is a DNS-01 order without its provider. -/
theorem answeringFor_fine (hstore : ∀ n, out.store n = .fine) {checked : Wanted}
    (hwanted : wanted order = .ok checked) {world : World} {held : Snapshot}
    (hheld : world.state = some held) :
    (∃ answering world', (answeringFor out order checked).run world = (.ok answering, world') ∧
        world'.state = world.state ∧ ¬ (checked.kind = .dns01 ∧
          ∃ failure, dnsProvider order.config held checked.certificate.source = .error failure)) ∨
      ∃ failure world', (answeringFor out order checked).run world = (.error failure, world') ∧
        world'.state = world.state ∧ checked.kind = .dns01 ∧
          dnsProvider order.config held checked.certificate.source = .error failure := by
  rw [answeringFor]
  cases hkind : checked.kind with
  | http01 =>
    obtain ⟨bound, hbound⟩ := Option.isSome_iff_exists.mp (isSome_bound hwanted hkind)
    rw [hbound]
    exact .inl ⟨_, world, rfl, rfl, by rintro ⟨⟨⟩, -⟩⟩
  | dns01 =>
    have hread : (read out).run world = (.ok (some held), { world with calls := world.calls + 1 }) := by
      simp only [read, hstore, hheld]
    dsimp only
    rw [Acting.bind_of_ok hread, Acting.bind_of_ok rfl]
    cases hprovider : dnsProvider order.config held checked.certificate.source with
    | error failure => exact .inr ⟨failure, _, rfl, rfl, rfl, rfl⟩
    | ok found => exact .inl ⟨_, _, rfl, rfl, by rintro ⟨-, _, ⟨⟩⟩⟩

/-! ## Every way out -/

variable (out order) (replies : Replies) (state : Option Snapshot)

/-- Something stops the order before it is opened. -/
def NotOpened : Prop := ∃ failure world, (opening out order).run (.start state) = (.error failure, world)

/-- A DNS-01 order was opened, and its provider is not in the configuration or its credential not in the
state. -/
def NoProvider : Prop :=
  ∃ opening world key held failure,
    (Order.opening out order).run (.start state) = (.ok opening, world) ∧
      out.keys.fromPem opening.opened.keyPem.expose = .ok key ∧ opening.wanted.kind = .dns01 ∧
      world.state = some held ∧
      dnsProvider order.config held opening.wanted.certificate.source = .error failure

/-- The certificate authority has issued a certificate that does not pass its inspection. -/
def Unusable : Prop :=
  ∃ prepared world obtained codes, (prepare out order).run (.start state) = (.ok prepared, world) ∧
    (driven out order prepared replies world).outcome = some (.ok obtained) ∧
    out.inspect obtained.chainPem obtained.keyPem
      (out.now (driven out order prepared replies world).world.calls) = .error codes

variable {out order replies state}

/-- An order that was prepared leaves nothing behind unless what it obtained cannot be used. -/
theorem clean_iff_usable (hstore : ∀ n, out.store n = .fine) {prepared : Prepared Key} {world : World}
    (hprepare : (prepare out order).run (.start state) = (.ok prepared, world))
    (hrunning : On (Running order.id) world)
    (hreturned : (obtainOrder out order replies state).outcome ≠ none) :
    Clean order.id (obtainOrder out order replies state).world.state ↔
      ¬ Unusable out order replies state := by
  have hdriven : On (Running order.id) (driven out order prepared replies world).world :=
    running_driven prepared replies hrunning
  have hunusable : Unusable out order replies state ↔
      ∃ obtained, (driven out order prepared replies world).outcome = some (.ok obtained) ∧
        ∃ codes, out.inspect obtained.chainPem obtained.keyPem
          (out.now (driven out order prepared replies world).world.calls) = .error codes := by
    constructor
    · rintro ⟨prepared', world', obtained, codes, hprepare', houtcome, hinspect⟩
      obtain ⟨hok, rfl⟩ := Prod.mk.inj (hprepare.symm.trans hprepare')
      obtain rfl := Except.ok.inj hok
      exact ⟨obtained, houtcome, codes, hinspect⟩
    · rintro ⟨obtained, houtcome, codes, hinspect⟩
      exact ⟨prepared, world, obtained, codes, hprepare, houtcome, hinspect⟩
  rw [hunusable]
  simp only [obtainOrder, hprepare] at hreturned ⊢
  rcases houtcome : (driven out order prepared replies world).outcome with _ | failure | obtained
  · rw [houtcome] at hreturned
    exact absurd rfl hreturned
  · refine iff_of_true (clean_finish_error hstore prepared failure hdriven) ?_
    rintro ⟨obtained, ⟨⟩, -⟩
  · refine (clean_finish_ok hstore prepared obtained hdriven).trans (not_congr ?_)
    constructor
    · exact fun hcodes => ⟨obtained, rfl, hcodes⟩
    · rintro ⟨_, ⟨⟩, hcodes⟩
      exact hcodes

/-- What is there before the certificate authority is asked. -/
inductive Began (out : Outside Key) (order : Order) (state : Option Snapshot) :
    Except Failure (Prepared Key) × World → Prop
  | stopped {failure : Failure} {world : World} (hnotOpened : NotOpened out order state)
      (hprovider : ¬ NoProvider out order state)
      (hsame : Clean order.id world.state ↔ Clean order.id state) :
      Began out order state (.error failure, world)
  | closed {failure : Failure} {world : World} (hopened : ¬ NotOpened out order state)
      (hprovider : ¬ NoProvider out order state) (hclean : Clean order.id world.state) :
      Began out order state (.error failure, world)
  | unprovided {failure : Failure} {world : World} (hprovider : NoProvider out order state)
      (hrunning : Running order.id world.state) : Began out order state (.error failure, world)
  | prepared {prepared : Prepared Key} {world : World} (hopened : ¬ NotOpened out order state)
      (hprovider : ¬ NoProvider out order state) (hrunning : Running order.id world.state) :
      Began out order state (.ok prepared, world)

theorem began (hstore : ∀ n, out.store n = .fine) :
    Began out order state ((prepare out order).run (.start state)) := by
  have hleft : Acting.Left _ _ ((opening out order).run (.start state)) :=
    ensures_opening hstore state (.start state) rfl
  rcases hopening : (opening out order).run (.start state) with ⟨failure | opened, world⟩ <;>
    rw [hopening] at hleft
  · rw [prepare, Acting.bind_of_error hopening]
    refine .stopped ⟨failure, world, hopening⟩ ?_ (hleft.error failure rfl)
    rintro ⟨_, _, _, _, _, hok, -⟩
    cases (Prod.mk.inj (hopening.symm.trans hok)).1
  · obtain ⟨hrunning, hwanted⟩ := hleft.ok opened rfl
    have hopened : ¬ NotOpened out order state := by
      rintro ⟨_, _, herror⟩
      cases (Prod.mk.inj (hopening.symm.trans herror)).1
    rw [prepare, Acting.bind_of_ok hopening]
    cases hkey : out.keys.fromPem opened.opened.keyPem.expose with
    | error failure =>
      have hclosed : Acting.Left (fun _ _ => False) (On (Clean order.id))
          ((signingKey out order opened.opened).run world) := by
        rw [signingKey, hkey]
        exact ensures_closed hstore failure world hrunning
      rcases hrun : (signingKey out order opened.opened).run world with ⟨e | key, world'⟩ <;>
        rw [hrun] at hclosed
      · rw [Acting.bind_of_error hrun]
        refine .closed hopened ?_ (hclosed.error e rfl)
        rintro ⟨_, _, _, _, _, hok, hfine, -⟩
        obtain rfl := Except.ok.inj (Prod.mk.inj (hopening.symm.trans hok)).1
        cases hkey.symm.trans hfine
      · exact (hclosed.ok key rfl).elim
    | ok key =>
      have hsigning : (signingKey out order opened.opened).run world = (.ok key, world) := by
        rw [signingKey, hkey]
        rfl
      rw [Acting.bind_of_ok hsigning]
      obtain ⟨held, hheld, hid⟩ := hrunning
      rcases answeringFor_fine hstore hwanted hheld with
        ⟨answering, world', hrun, hsame, hfound⟩ | ⟨failure, world', hrun, hsame, hkind, hmissing⟩
      · rw [Acting.bind_of_ok hrun]
        refine .prepared hopened ?_ ⟨held, hsame ▸ hheld, hid⟩
        rintro ⟨_, _, _, _, failure, hok, -, hkind, hheld', hmissing⟩
        obtain ⟨hsame', rfl⟩ := Prod.mk.inj (hopening.symm.trans hok)
        obtain rfl := Except.ok.inj hsame'
        obtain rfl := Option.some.inj (hheld.symm.trans hheld')
        exact hfound ⟨hkind, failure, hmissing⟩
      · rw [Acting.bind_of_error hrun]
        exact .unprovided ⟨opened, world, key, held, failure, hopening, hkey, hkind, hheld, hmissing⟩
          ⟨held, hsame ▸ hheld, hid⟩

/-- An order that was not prepared has issued nothing. -/
theorem not_unusable {failure : Failure} {world : World}
    (h : (prepare out order).run (.start state) = (.error failure, world)) :
    ¬ Unusable out order replies state := by
  rintro ⟨_, _, _, _, hok, -⟩
  cases (Prod.mk.inj (h.symm.trans hok)).1

/-- **An order leaves nothing behind on every way out but three.** The state holds neither its record nor
its key when it returns, unless it held one already and the order was not opened, or the DNS provider of
an order that was opened is missing, or the certificate that was issued cannot be used. -/
theorem clean_iff_not_left (out : Outside Key) (order : Order) (replies : Replies)
    (state : Option Snapshot) (hstore : ∀ n, out.store n = .fine)
    (hreturned : (obtainOrder out order replies state).outcome ≠ none) :
    Clean order.id (obtainOrder out order replies state).world.state ↔
      ¬ (¬ Clean order.id state ∧ NotOpened out order state ∨ NoProvider out order state ∨
        Unusable out order replies state) := by
  have hbegan : Began out order state _ := began hstore
  rcases hprepare : (prepare out order).run (.start state) with ⟨failure | prepared, world⟩ <;>
    rw [hprepare] at hbegan
  · have husable : ¬ Unusable out order replies state := not_unusable hprepare
    have hworld : (obtainOrder out order replies state).world = world := by
      simp only [obtainOrder, hprepare]
    rw [hworld]
    cases hbegan with
    | stopped hnotOpened hprovider hsame =>
      rw [hsame]
      constructor
      · rintro hclean (⟨hunclean, -⟩ | hmissing | hunusable)
        · exact hunclean hclean
        · exact hprovider hmissing
        · exact husable hunusable
      · intro hnone
        by_contra hunclean
        exact hnone (.inl ⟨hunclean, hnotOpened⟩)
    | closed hopened hprovider hclean =>
      refine iff_of_true hclean ?_
      rintro (⟨-, hnotOpened⟩ | hmissing | hunusable)
      · exact hopened hnotOpened
      · exact hprovider hmissing
      · exact husable hunusable
    | unprovided hprovider hrunning =>
      exact iff_of_false hrunning.not_clean fun hnone => hnone (.inr (.inl hprovider))
  · cases hbegan with
    | prepared hopened hprovider hrunning =>
      refine (clean_iff_usable hstore hprepare hrunning hreturned).trans (not_congr ?_)
      constructor
      · exact fun hunusable => .inr (.inr hunusable)
      · rintro (⟨-, hnotOpened⟩ | hmissing | hunusable)
        · exact absurd hnotOpened hopened
        · exact absurd hmissing hprovider
        · exact hunusable

/-! ## An order that is answered by hand -/

/-- A DNS-01 order for one name. -/
def dnsOrder : Order where
  config := { Config.empty with
    certificates := [⟨⟨"web"⟩, ["a.example"], .acmeDns01 ⟨"ns"⟩, none, none, none⟩]
    dnsProviders := [⟨⟨"ns"⟩, .cloudflare "zone" ⟨"ns.token"⟩ "", 60⟩]
    acme := some ca }
  delivery := .replicated
  id := ⟨"web"⟩
  driver := none

/-- An outside on which nothing fails. -/
def undisturbed : Outside Unit where
  lib := reading
  keys := unsigned
  accountFromPem _ := .ok ()
  accountToPem _ := .ok []
  accountKey _ := .ok ()
  generate _ := .ok ()
  inspect chain key _ := .ok ⟨["a.example"], ⟨0, 1⟩, ⟨chain⟩, ⟨key⟩⟩
  now _ := 0
  store _ := .fine
  publish _ _ _ _ := .ok ()
  withdraw _ _ _ _ := .ok ()
  writeChallenges _ _ _ := .ok ()
  reachable _ _ _ _ := .ok ()

/-- A state with the credential of the order's provider. -/
def credentialed : Snapshot := (Snapshot.new dnsOrder.config).withSecret ⟨"ns.token"⟩ ⟨[0x78]⟩

/-- A certificate authority that cannot be trusted ends the order, and nothing of it is left. -/
theorem untrusted_leaves_nothing :
    let replies : Replies := [.error ⟨.crypto, "the certificate of the server is not trusted"⟩]
    (obtainOrder undisturbed dnsOrder replies (some credentialed)).outcome ≠ none ∧
      ¬ (¬ Clean dnsOrder.id (some credentialed) ∧ NotOpened undisturbed dnsOrder (some credentialed) ∨
        NoProvider undisturbed dnsOrder (some credentialed) ∨
        Unusable undisturbed dnsOrder replies (some credentialed)) := by
  intro replies
  have hreturned : (obtainOrder undisturbed dnsOrder replies (some credentialed)).outcome ≠ none := by
    decide +kernel
  refine ⟨hreturned, (clean_iff_not_left undisturbed dnsOrder replies (some credentialed)
    (fun _ => rfl) hreturned).mp ?_⟩
  decide +kernel

/-- Without its credential, an order is opened and never closed. -/
theorem uncredentialed_left_open :
    (∀ n, undisturbed.store n = .fine) ∧
      (obtainOrder undisturbed dnsOrder [] (some (.new dnsOrder.config))).outcome ≠ none ∧
      Clean dnsOrder.id (some (.new dnsOrder.config)) ∧
      ¬ Clean dnsOrder.id
        (obtainOrder undisturbed dnsOrder [] (some (.new dnsOrder.config))).world.state := by
  refine ⟨fun _ => rfl, ?_, ?_, ?_⟩
  · decide +kernel
  · decide +kernel
  · decide +kernel

end Order

end EkEk.Program
