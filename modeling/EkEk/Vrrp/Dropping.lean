import EkEk.Vrrp.Carrier

/-!
# What is left on the interface

Reference: `crates/ek-ek-vrrp/src/carrier.rs`.

`Carrier.dropAll` asks the kernel to take one carried address off after the other. `dropEach` is the same
loop together with what it does to the interface, and `mem_dropEach` says what is left: whatever does not
stand in front of the first refusal.

Everything behind that refusal stays, whether the kernel would have taken it off or not.
`only_refused_left_iff` says when that does no harm.
-/

namespace EkEk.Vrrp

/-- What the kernel answers for an address. -/
abbrev Answered := Address × Except IoError Unit

/-- The kernel refuses to take an address off, for another reason than that it is not there. -/
def Refuses (answer : Except IoError Unit) : Prop :=
  ∃ error, answer = .error error ∧ error ≠ .rawOsError notThere

instance (answer : Except IoError Unit) : Decidable (Refuses answer) :=
  match answer with
  | .ok () => .isFalse fun ⟨_, h, _⟩ => by cases h
  | .error error =>
    decidable_of_iff (error ≠ .rawOsError notThere)
      ⟨fun h => ⟨error, rfl, h⟩, fun ⟨_, hsame, h⟩ => Except.error.inj hsame ▸ h⟩

namespace Carrier

/-- The loop of `dropAll` over the addresses on the interface. An address the kernel says is not there is
not there. -/
def dropEach (kernel : Kernel) : ℕ → List Address → List Address → List Address × Except IoError Unit
  | _, [], on => (on, .ok ())
  | asked, address :: rest, on =>
    match kernel.change asked .remove address with
    | .ok () => dropEach kernel (asked + 1) rest (on.filter (· ≠ address))
    | .error error =>
      if error = .rawOsError notThere then
        dropEach kernel (asked + 1) rest (on.filter (· ≠ address))
      else (on, .error error)

/-- How the kernel answers for every address of a list, in turn. -/
def answersFrom (kernel : Kernel) : ℕ → List Address → List Answered
  | _, [] => []
  | asked, address :: rest =>
    (address, kernel.change asked .remove address) :: answersFrom kernel (asked + 1) rest

/-- The addresses that are to be taken off. -/
def carriedAddresses (carrier : Carrier) : List Address := carrier.addresses.map carrier.address

/-- How the kernel answers for every address of a carrier. -/
def answers (kernel : Kernel) (carrier : Carrier) : List Answered :=
  answersFrom kernel carrier.asked carrier.carriedAddresses

/-- What is on the interface once a carrier has dropped its addresses. -/
def leftOn (kernel : Kernel) (carrier : Carrier) (on : List Address) : List Address :=
  (dropEach kernel carrier.asked carrier.carriedAddresses on).1

/-- The loop over the interface ends as `dropAll` does. -/
theorem dropEach_result (kernel : Kernel) (carrier : Carrier) (on : List Address) :
    (dropEach kernel carrier.asked carrier.carriedAddresses on).2 = (carrier.dropAll kernel).2 := by
  rw [dropAll]
  dsimp only
  rw [← carriedAddresses]
  generalize carrier.carriedAddresses = addresses
  generalize carrier.asked = asked
  induction addresses generalizing asked on with
  | nil => rfl
  | cons address rest ih =>
    rw [dropEach, askEach]
    cases kernel.change asked .remove address with
    | ok done => exact ih _ _
    | error error =>
      dsimp only
      by_cases hthere : error = .rawOsError notThere
      · rw [if_pos hthere, if_pos hthere]
        exact ih _ _
      · rw [if_neg hthere, if_neg hthere]

theorem map_answersFrom (kernel : Kernel) (asked : ℕ) (addresses : List Address) :
    (answersFrom kernel asked addresses).map Prod.fst = addresses := by
  induction addresses generalizing asked with
  | nil => rfl
  | cons address rest ih => rw [answersFrom, List.map_cons, ih]

/-! ## What is taken off -/

/-- An address that was taken off: neither its own removal nor one in front of it was refused. -/
def TakenOff (answers : List Answered) (address : Address) : Prop :=
  ∃ front answer back, answers = front ++ (address, answer) :: back ∧ ¬ Refuses answer ∧
    ∀ earlier ∈ front, ¬ Refuses earlier.2

theorem takenOff_cons {first : Answered} {answers : List Answered} {address : Address} :
    TakenOff (first :: answers) address ↔
      ¬ Refuses first.2 ∧ (first.1 = address ∨ TakenOff answers address) := by
  constructor
  · rintro ⟨front, answer, back, hsplit, hanswer, hfront⟩
    cases front with
    | nil =>
      obtain ⟨rfl, -⟩ := List.cons.inj hsplit
      exact ⟨hanswer, .inl rfl⟩
    | cons earlier front =>
      obtain ⟨rfl, hrest⟩ := List.cons.inj hsplit
      refine ⟨hfront first List.mem_cons_self, .inr ⟨front, answer, back, hrest, hanswer, ?_⟩⟩
      exact fun earlier hearlier => hfront earlier (List.mem_cons_of_mem _ hearlier)
  · rintro ⟨hfirst, rfl | ⟨front, answer, back, rfl, hanswer, hfront⟩⟩
    · exact ⟨[], first.2, answers, rfl, hfirst, fun _ hnone => absurd hnone List.not_mem_nil⟩
    · refine ⟨first :: front, answer, back, rfl, hanswer, fun earlier hearlier => ?_⟩
      rcases List.mem_cons.mp hearlier with rfl | hearlier
      · exact hfirst
      · exact hfront earlier hearlier

/-- What is left is what was there and was not taken off. -/
theorem mem_dropEach {kernel : Kernel} {asked : ℕ} {addresses on : List Address} {address : Address} :
    address ∈ (dropEach kernel asked addresses on).1 ↔
      address ∈ on ∧ ¬ TakenOff (answersFrom kernel asked addresses) address := by
  induction addresses generalizing asked on with
  | nil =>
    refine ⟨fun hmem => ⟨hmem, ?_⟩, fun h => h.1⟩
    rintro ⟨front, answer, back, hnil, -⟩
    exact absurd hnil.symm (by simp [answersFrom])
  | cons first rest ih =>
    -- an answer that is no refusal takes the first address off and goes on
    have hgone : address ∈ (dropEach kernel (asked + 1) rest (on.filter (· ≠ first))).1 ↔
        address ∈ on ∧
          ¬ (first = address ∨ TakenOff (answersFrom kernel (asked + 1) rest) address) := by
      rw [ih, List.mem_filter, decide_eq_true_eq]
      tauto
    rw [dropEach, answersFrom, takenOff_cons]
    cases kernel.change asked .remove first with
    | ok done =>
      have hagreed : ¬ Refuses (.ok done) := by
        rintro ⟨error, herror, -⟩
        cases herror
      rw [and_iff_right hagreed]
      exact hgone
    | error error =>
      dsimp only
      by_cases hthere : error = .rawOsError notThere
      · have hagreed : ¬ Refuses (.error error) := by
          rintro ⟨_, hsame, hnot⟩
          exact hnot (Except.error.inj hsame ▸ hthere)
        rw [if_pos hthere, and_iff_right hagreed]
        exact hgone
      · have hrefused : Refuses (.error error) := ⟨error, rfl, hthere⟩
        rw [if_neg hthere]
        tauto

/-- The first refusal of a list that has one. -/
theorem exists_first_refusal {answers : List Answered} (h : ∃ answered ∈ answers, Refuses answered.2) :
    ∃ front refused back, answers = front ++ refused :: back ∧ Refuses refused.2 ∧
      ∀ earlier ∈ front, ¬ Refuses earlier.2 := by
  obtain ⟨answered, hmem, hrefuses⟩ := h
  have hsome : (answers.find? fun answered => Refuses answered.2).isSome :=
    List.find?_isSome.mpr ⟨answered, hmem, decide_eq_true hrefuses⟩
  obtain ⟨refused, hfind⟩ := Option.isSome_iff_exists.mp hsome
  obtain ⟨hrefused, front, back, hsplit, hfront⟩ := List.find?_eq_some_iff_append.mp hfind
  refine ⟨front, refused, back, hsplit, of_decide_eq_true hrefused, fun earlier hearlier => ?_⟩
  simpa using hfront earlier hearlier

/-- What is taken off stands in front of the first refusal. -/
theorem TakenOff.mem_front {front back : List Answered} {refused : Answered} {address : Address}
    (h : TakenOff (front ++ refused :: back) address) (hrefused : Refuses refused.2) :
    address ∈ front.map Prod.fst := by
  induction front with
  | nil => exact absurd hrefused (takenOff_cons.mp h).1
  | cons first front ih =>
    rcases (takenOff_cons.mp h).2 with hfirst | hlater
    · rw [← hfirst]
      exact List.mem_cons_self
    · exact List.mem_cons_of_mem _ (ih hlater)

/-- What stands in front of every refusal is taken off. -/
theorem takenOff_of_mem_front {front : List Answered} (back : List Answered) {address : Address}
    (hfront : ∀ earlier ∈ front, ¬ Refuses earlier.2) (h : address ∈ front.map Prod.fst) :
    TakenOff (front ++ back) address := by
  obtain ⟨answered, hmem, rfl⟩ := List.mem_map.mp h
  obtain ⟨first, second, rfl⟩ := List.append_of_mem hmem
  refine ⟨first, answered.2, second ++ back, ?_, hfront answered hmem, ?_⟩
  · rw [List.append_assoc, List.cons_append]
  · exact fun earlier hearlier => hfront earlier (List.mem_append_left _ hearlier)

/-! ## Which addresses stay -/

/-- An address whose removal the kernel never refuses. -/
def Removable (answers : List Answered) (address : Address) : Prop :=
  ∀ answer, (address, answer) ∈ answers → ¬ Refuses answer

/-- **Only refused addresses are left exactly when no removable one stands behind the first refusal.** The
loop ends at the first refusal, so an address behind it that is on the interface and that the kernel would
take off stays, unless it was named in front of it as well. -/
theorem only_refused_left_iff (kernel : Kernel) (carrier : Carrier) (on : List Address) :
    (∀ address ∈ carrier.carriedAddresses, address ∈ carrier.leftOn kernel on →
        ∃ answer, (address, answer) ∈ carrier.answers kernel ∧ Refuses answer) ↔
      ∀ front refused back, carrier.answers kernel = front ++ refused :: back → Refuses refused.2 →
        (∀ earlier ∈ front, ¬ Refuses earlier.2) →
        ∀ address ∈ back.map Prod.fst, Removable (carrier.answers kernel) address → address ∈ on →
          address ∈ front.map Prod.fst := by
  have hmap : (carrier.answers kernel).map Prod.fst = carrier.carriedAddresses := map_answersFrom _ _ _
  have hleft (address : Address) : address ∈ carrier.leftOn kernel on ↔
      address ∈ on ∧ ¬ TakenOff (carrier.answers kernel) address := mem_dropEach
  constructor
  · intro honly front refused back hsplit hrefused hfront address hback hremovable hon
    have hcarried : address ∈ carrier.carriedAddresses := by
      rw [← hmap, hsplit, List.map_append, List.map_cons]
      exact List.mem_append_right _ (List.mem_cons_of_mem _ hback)
    have htaken : TakenOff (carrier.answers kernel) address := by
      by_contra hnot
      obtain ⟨answer, hanswer, hrefuses⟩ := honly address hcarried ((hleft address).mpr ⟨hon, hnot⟩)
      exact hremovable answer hanswer hrefuses
    rw [hsplit] at htaken
    exact htaken.mem_front hrefused
  · intro hharmless address hcarried hmem
    obtain ⟨hon, hnot⟩ := (hleft address).mp hmem
    by_contra hrefused
    have hremovable : Removable (carrier.answers kernel) address :=
      fun answer hanswer hrefuses => hrefused ⟨answer, hanswer, hrefuses⟩
    rw [← hmap] at hcarried
    obtain ⟨⟨address, answer⟩, hanswered, rfl⟩ := List.mem_map.mp hcarried
    -- it was not taken off, so something is refused in front of it
    obtain ⟨earlier, later, hsplit⟩ := List.append_of_mem hanswered
    have hearlier : ∃ answered ∈ earlier, Refuses answered.2 := by
      by_contra hnone
      refine hnot ⟨earlier, answer, later, hsplit, hremovable answer hanswered, ?_⟩
      exact fun answered hmem hrefuses => hnone ⟨answered, hmem, hrefuses⟩
    obtain ⟨front, refused, middle, rfl, hrefuses, hfront⟩ := exists_first_refusal hearlier
    rw [List.append_assoc, List.cons_append] at hsplit
    have hback : address ∈ (middle ++ (address, answer) :: later).map Prod.fst := by simp
    have hnamed := hharmless front refused _ hsplit hrefuses hfront address hback hremovable hon
    rw [hsplit] at hnot
    exact hnot (takenOff_of_mem_front _ hfront hnamed)

/-! ## A refusal in front of a removable address -/

/-- Two carried addresses. -/
def twoCarried : Carrier where
  interface := ⟨2, []⟩
  addresses := [⟨.v4 ⟨10, 0, 0, 8⟩, 24⟩, ⟨.v4 ⟨10, 0, 0, 9⟩, 24⟩]
  due := none
  silent := false
  asked := 0

/-- A kernel that refuses to take the first address off. -/
def refusing : Kernel where
  change := fun _ _ address =>
    if address.address = .v4 ⟨10, 0, 0, 8⟩ then .error (.rawOsError 1) else .ok ()
  send := fun _ _ => .ok ()

/-- The second address, which the kernel would take off, stays with the first. -/
theorem removable_left_behind :
    ¬ ∀ (kernel : Kernel) (carrier : Carrier) (on : List Address),
      ∀ address ∈ carrier.carriedAddresses, address ∈ carrier.leftOn kernel on →
        ∃ answer, (address, answer) ∈ carrier.answers kernel ∧ Refuses answer := by
  intro h
  obtain ⟨answer, hanswer, hrefuses⟩ := h refusing twoCarried twoCarried.carriedAddresses
    ⟨.v4 ⟨10, 0, 0, 9⟩, 24, 2⟩ (by decide) (by decide)
  have hagreed : ∀ answered ∈ twoCarried.answers refusing,
      answered.1 = ⟨.v4 ⟨10, 0, 0, 9⟩, 24, 2⟩ → ¬ Refuses answered.2 := by decide
  exact hagreed _ hanswer rfl hrefuses

end Carrier

end EkEk.Vrrp
