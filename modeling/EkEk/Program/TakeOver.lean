import EkEk.Program.Exits

/-!
# Taking over an order

Reference: `obtain_order` and `open_order` of `crates/ek-ek/src/acme.rs`, and
`crates/ek-ek-store/src/order.rs`.

The record of an order keeps the names it was placed for and the challenge it answers, so that an order
whose certificate is configured anew is still finished the way it was started. A driver that takes the
order over reads its signing key and its URL from the record, and the names and the challenge from the
configuration it was handed. `finishes_iff_unchanged` is what follows: the order is finished as it was
started exactly if the configuration still says the same of both.
-/

namespace EkEk.Program

open Store Tls

namespace Order

variable {Key : Type} {out : Outside Key} {order : Order}

/-- An order that is driven as its record says. -/
structure Finishes (out : Outside Key) (record : OrderRecord) (prepared : Prepared Key)
    (state : Option Snapshot) : Prop where
  names : prepared.names = record.names
  challenge : recorded prepared.kind = record.challenge
  key : ∃ held ∈ state, ∃ secret key, held.secrets.lookup record.key = some secret ∧
    out.keys.fromPem secret.expose = .ok key ∧ prepared.plan.key = some key
  url : prepared.plan.resume = record.orderUrl

/-! ## Accesses that succeeded -/

section

variable {world world' : World}

theorem read_eq_ok {state : Option Snapshot} (h : (read out).run world = (.ok state, world')) :
    state = world.state ∧ world'.state = world.state := by
  simp only [read] at h
  split at h
  · obtain ⟨hstate, rfl⟩ := Prod.mk.inj h
    exact ⟨(Except.ok.inj hstate).symm, rfl⟩
  · cases (Prod.mk.inj h).1
  · cases (Prod.mk.inj h).1

theorem update_eq_ok {edit : Option Snapshot → Except Failure Snapshot}
    (h : (update out edit).run world = (.ok (), world')) :
    ∃ next, edit world.state = .ok next ∧ world'.state = some next := by
  simp only [update] at h
  split at h
  · cases (Prod.mk.inj h).1
  · cases (Prod.mk.inj h).1
  · rename_i next _ hedit
    obtain ⟨-, rfl⟩ := Prod.mk.inj h
    exact ⟨next, hedit, rfl⟩
  · cases (Prod.mk.inj h).1

theorem call_eq_ok {α : Type} {outcome : ℕ → Except Failure α} {a : α}
    (h : (call outcome).run world = (.ok a, world')) : world'.state = world.state := by
  obtain ⟨-, rfl⟩ := Prod.mk.inj h
  rfl

/-- A record stays with the state while the account key is read or made. -/
theorem orders_accountKey {account : Key} {state : Snapshot} (hstate : world.state = some state)
    (h : (accountKey out order).run world = (.ok account, world')) :
    ∃ held, world'.state = some held ∧ held.orders = state.orders := by
  rw [accountKey] at h
  obtain ⟨read, world₁, hread, h⟩ := Acting.bind_eq_ok h
  obtain ⟨rfl, hsame⟩ := read_eq_ok hread
  split at h
  · obtain ⟨-, rfl⟩ := Acting.lift_eq_ok h
    exact ⟨state, hsame.trans hstate, rfl⟩
  · obtain ⟨generated, world₂, hcall, hmade⟩ := Acting.bind_eq_ok h
    obtain ⟨pem, world₃, hpem, hkept⟩ := Acting.bind_eq_ok hmade
    obtain ⟨_, world₄, hupdate, hlast⟩ := Acting.bind_eq_ok hkept
    obtain ⟨-, rfl⟩ := Acting.lift_eq_ok hpem
    obtain ⟨-, rfl⟩ := Acting.pure_eq_ok hlast
    obtain ⟨next, hnext, hwritten⟩ := update_eq_ok hupdate
    rw [call_eq_ok hcall, hsame, hstate] at hnext
    obtain rfl := Except.ok.inj hnext
    exact ⟨_, hwritten, rfl⟩

/-- The order that is there is taken over, with its key and its URL. -/
theorem openOrder_taken {kind : Challenge} {names : List String} {opened : Opened} {state : Snapshot}
    {record : OrderRecord} (hstate : world.state = some state)
    (hrecord : state.orders.lookup order.id = some record)
    (h : (openOrder out order kind names).run world = (.ok opened, world')) :
    world'.state = some state ∧ state.secrets.lookup record.key = some opened.keyPem ∧
      opened.resume = record.orderUrl := by
  rw [openOrder] at h
  obtain ⟨read, world₁, hread, h⟩ := Acting.bind_eq_ok h
  obtain ⟨rfl, hsame⟩ := read_eq_ok hread
  have hfound : (world.state.bind fun state => state.orders.lookup order.id) = some record := by
    rw [hstate, Option.bind_some, hrecord]
  rw [hfound] at h
  obtain ⟨again, world₂, hagain, htaken⟩ := Acting.bind_eq_ok h
  obtain ⟨rfl, hsame'⟩ := read_eq_ok hagain
  obtain ⟨key, world₃, hkey, hlast⟩ := Acting.bind_eq_ok htaken
  obtain ⟨hlookup, rfl⟩ := Acting.lift_eq_ok hkey
  obtain ⟨rfl, rfl⟩ := Acting.pure_eq_ok hlast
  rw [Checked.found_eq_ok, hsame, hstate, Option.bind_some] at hlookup
  exact ⟨(hsame'.trans hsame).trans hstate, hlookup, rfl⟩

theorem state_answeringFor {checked : Wanted} {answering : Answering}
    (h : (answeringFor out order checked).run world = (.ok answering, world')) :
    world'.state = world.state := by
  rw [answeringFor] at h
  split at h
  · obtain ⟨bound, world₁, hbound, hlast⟩ := Acting.bind_eq_ok h
    obtain ⟨-, rfl⟩ := Acting.lift_eq_ok hbound
    obtain ⟨-, rfl⟩ := Acting.pure_eq_ok hlast
    rfl
  · obtain ⟨state, world₁, hread, hstate⟩ := Acting.bind_eq_ok h
    obtain ⟨held, world₂, hheld, hprovider⟩ := Acting.bind_eq_ok hstate
    obtain ⟨found, world₃, hfound, hlast⟩ := Acting.bind_eq_ok hprovider
    obtain ⟨-, rfl⟩ := Acting.lift_eq_ok hheld
    obtain ⟨-, rfl⟩ := Acting.lift_eq_ok hfound
    obtain ⟨-, rfl⟩ := Acting.pure_eq_ok hlast
    exact (read_eq_ok hread).2

/-- A key an order signs with is the one that was opened, and the state is as it was. -/
theorem signingKey_eq_ok {opened : Opened} {key : Key}
    (h : (signingKey out order opened).run world = (.ok key, world')) :
    out.keys.fromPem opened.keyPem.expose = .ok key ∧ world' = world := by
  rw [signingKey] at h
  split at h
  · rename_i key' hkey
    obtain ⟨rfl, rfl⟩ := Acting.pure_eq_ok h
    exact ⟨hkey, rfl⟩
  · obtain ⟨_, world₁, -, h⟩ := Acting.bind_eq_ok h
    cases (Prod.mk.inj h).1

end

/-- What an order is driven with where there is a record: the names and the challenge are those of the
configuration, and the key and the URL those of the record. -/
theorem prepare_taken {state : Snapshot} {record : OrderRecord} {prepared : Prepared Key} {world : World}
    (hrecord : state.orders.lookup order.id = some record)
    (h : (prepare out order).run (.start (some state)) = (.ok prepared, world)) :
    (∃ certificate, Tls.held order.config order.id = some certificate ∧
      prepared.names = certificate.sniNames ∧ challengeOf certificate.source = some prepared.kind) ∧
    (∃ held ∈ world.state, ∃ secret key, held.secrets.lookup record.key = some secret ∧
      out.keys.fromPem secret.expose = .ok key ∧ prepared.plan.key = some key) ∧
    prepared.plan.resume = record.orderUrl := by
  rw [prepare] at h
  obtain ⟨opening, world₁, hopening, hdrive⟩ := Acting.bind_eq_ok h
  obtain ⟨key, world₂, hkey, hsigned⟩ := Acting.bind_eq_ok hdrive
  obtain ⟨answering, world₃, hanswering, hlast⟩ := Acting.bind_eq_ok hsigned
  obtain ⟨rfl, rfl⟩ := Acting.pure_eq_ok hlast
  obtain ⟨hfrom, rfl⟩ := signingKey_eq_ok hkey
  rw [Order.opening] at hopening
  obtain ⟨checked, world₄, hchecked, hplaced⟩ := Acting.bind_eq_ok hopening
  obtain ⟨account, world₅, haccount, hordered⟩ := Acting.bind_eq_ok hplaced
  obtain ⟨opened, world₆, hopened, hended⟩ := Acting.bind_eq_ok hordered
  obtain ⟨rfl, rfl⟩ := Acting.pure_eq_ok hended
  obtain ⟨hwanted, rfl⟩ := Acting.lift_eq_ok hchecked
  obtain ⟨held, hheld, horders⟩ := orders_accountKey rfl haccount
  obtain ⟨hstate, hlookup, hurl⟩ := openOrder_taken hheld (horders ▸ hrecord) hopened
  simp only [wanted, Checked.bind_eq_ok, Checked.found_eq_ok] at hwanted
  obtain ⟨certificate, hcertificate, kind, hkind, -, -, -, -, settings, -, bound, -, hwanted⟩ := hwanted
  obtain rfl := Except.ok.inj hwanted
  refine ⟨⟨certificate, hcertificate, rfl, hkind⟩, ⟨held, ?_, _, key, hlookup, hfrom, rfl⟩, hurl⟩
  rw [state_answeringFor hanswering, hstate]
  rfl

/-- **An order that is taken over is finished as it was started exactly if the configuration still says
the same.** The signing key and the URL are always the record's. The names and the challenge are those
the certificate is configured with now. -/
theorem finishes_iff_unchanged (out : Outside Key) (order : Order) (state : Snapshot)
    (record : OrderRecord) (prepared : Prepared Key) (world : World)
    (hrecord : state.orders.lookup order.id = some record)
    (hprepare : (prepare out order).run (.start (some state)) = (.ok prepared, world)) :
    Finishes out record prepared world.state ↔
      ∃ certificate, Tls.held order.config order.id = some certificate ∧
        certificate.sniNames = record.names ∧
        (challengeOf certificate.source).map recorded = some record.challenge := by
  obtain ⟨⟨certificate, hcertificate, hnames, hkind⟩, hkey, hurl⟩ := prepare_taken hrecord hprepare
  constructor
  · rintro ⟨hsame, hchallenge, -, -⟩
    refine ⟨certificate, hcertificate, hnames ▸ hsame, ?_⟩
    rw [hkind, Option.map_some, hchallenge]
  · rintro ⟨certificate', hcertificate', hsame, hchallenge⟩
    obtain rfl := Option.some.inj (hcertificate.symm.trans hcertificate')
    rw [hkind, Option.map_some] at hchallenge
    exact ⟨hnames.trans hsame, Option.some.inj hchallenge, hkey, hurl⟩

/-- An order of another driver, opened for a name. -/
def leftBehind (name : String) : Snapshot :=
  orderOpened credentialed ⟨"web"⟩ (openingRecord ⟨"web"⟩ [name] .dns01 none 0) ⟨[]⟩

/-- An order for the name that is configured is taken over as it was started. -/
theorem same_name_finished :
    ∃ prepared world, (prepare undisturbed dnsOrder).run (.start (some (leftBehind "a.example"))) =
        (.ok prepared, world) ∧
      Finishes undisturbed (openingRecord ⟨"web"⟩ ["a.example"] .dns01 none 0) prepared world.state := by
  refine ⟨_, _, rfl, (finishes_iff_unchanged undisturbed dnsOrder (leftBehind "a.example")
    (openingRecord ⟨"web"⟩ ["a.example"] .dns01 none 0) _ _ ?_ rfl).mpr ?_⟩
  · decide +kernel
  · exact ⟨_, rfl, rfl, rfl⟩

/-- An order for a name that is not configured any more goes on for the one that is. -/
theorem other_name_finished :
    ∃ prepared world, (prepare undisturbed dnsOrder).run (.start (some (leftBehind "b.example"))) =
        (.ok prepared, world) ∧
      (leftBehind "b.example").orders.lookup dnsOrder.id =
        some (openingRecord ⟨"web"⟩ ["b.example"] .dns01 none 0) ∧
      ¬ Finishes undisturbed (openingRecord ⟨"web"⟩ ["b.example"] .dns01 none 0) prepared
        world.state := by
  refine ⟨_, _, rfl, ?_, ?_⟩
  · decide +kernel
  · rintro ⟨hnames, -, -, -⟩
    exact absurd hnames (by decide)

end Order

end EkEk.Program
