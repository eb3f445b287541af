import Mathlib.Init

/-!
# Actions

An action changes a world and ends with a value or with an error. Either way the world it leaves is
there, so what was done before an error stays done. `Ensures` is the triple for actions: from every
world with the precondition, the action ends with a value and a world that are as said, or with an
error and a world that is as said. The rules follow the ways actions are built.
-/

/-- An action on a world. -/
structure Acting (ε W α : Type) where
  run : W → Except ε α × W

namespace Acting

variable {ε W α β : Type}

/-- Do what comes next with the value, unless there was an error. -/
def andThen (x : Acting ε W α) (f : α → Acting ε W β) : Acting ε W β where
  run w :=
    match x.run w with
    | (.ok a, w') => (f a).run w'
    | (.error e, w') => (.error e, w')

instance : Monad (Acting ε W) where
  pure a := ⟨fun w => (.ok a, w)⟩
  bind := andThen

/-- A computation that leaves the world alone. -/
def lift (x : Except ε α) : Acting ε W α := ⟨fun w => (x, w)⟩

/-- End with an error. -/
def fail (e : ε) : Acting ε W α := lift (.error e)

/-- Do something under a condition. -/
def onlyIf (p : Prop) [Decidable p] (x : Acting ε W Unit) : Acting ε W Unit := if p then x else pure ()

/-- Do something with every element, one after the other, up to the first error. -/
def each (f : α → Acting ε W Unit) : List α → Acting ε W Unit
  | [] => pure ()
  | a :: rest => f a >>= fun _ => each f rest

/-- The second part starts in the world that the first one left, if that got through. -/
theorem run_bind (x : Acting ε W α) (f : α → Acting ε W β) (w : W) :
    (x >>= f).run w =
      match x.run w with
      | (.ok a, w') => (f a).run w'
      | (.error e, w') => (.error e, w') := rfl

/-- Behind a part that got through, a chain is the rest of it. -/
theorem bind_of_ok {x : Acting ε W α} {f : α → Acting ε W β} {w w' : W} {a : α}
    (h : x.run w = (.ok a, w')) : (x >>= f).run w = (f a).run w' := by
  rw [run_bind, h]

/-- A part that fails ends the chain, in the world it leaves. -/
theorem bind_of_error {x : Acting ε W α} {f : α → Acting ε W β} {w w' : W} {e : ε}
    (h : x.run w = (.error e, w')) : (x >>= f).run w = (.error e, w') := by
  rw [run_bind, h]

/-- A chain that got through did so in both its parts. -/
theorem bind_eq_ok {x : Acting ε W α} {f : α → Acting ε W β} {w w'' : W} {b : β}
    (h : (x >>= f).run w = (.ok b, w'')) :
    ∃ a w', x.run w = (.ok a, w') ∧ (f a).run w' = (.ok b, w'') := by
  rcases hrun : x.run w with ⟨e | a, w'⟩
  · rw [bind_of_error hrun] at h
    cases (Prod.mk.inj h).1
  · rw [bind_of_ok hrun] at h
    exact ⟨a, w', rfl, h⟩

/-- Handing a value on leaves the world alone. -/
theorem pure_eq_ok {a b : α} {w w' : W} (h : (pure a : Acting ε W α).run w = (.ok b, w')) :
    a = b ∧ w' = w := by
  cases h
  exact ⟨rfl, rfl⟩

/-- A pure computation leaves the world alone. -/
theorem lift_eq_ok {x : Except ε α} {a : α} {w w' : W} (h : (lift x).run w = (.ok a, w')) :
    x = .ok a ∧ w' = w := by
  cases h
  exact ⟨rfl, rfl⟩

/-- What an action leaves behind. -/
structure Left (Q : α → W → Prop) (E : W → Prop) (left : Except ε α × W) : Prop where
  ok : ∀ a, left.1 = .ok a → Q a left.2
  error : ∀ e, left.1 = .error e → E left.2

/-- From every world with the precondition, an action ends as said. -/
def Ensures (P : W → Prop) (x : Acting ε W α) (Q : α → W → Prop) (E : W → Prop) : Prop :=
  ∀ w, P w → Left Q E (x.run w)

variable {P : W → Prop} {Q : α → W → Prop} {R : β → W → Prop} {E : W → Prop} {x : Acting ε W α}
  {f : α → Acting ε W β}

theorem Left.of_ok {a : α} {w : W} (h : Q a w) : Left Q E ((.ok a, w) : Except ε α × W) :=
  ⟨fun _ hok => Except.ok.inj hok ▸ h, fun _ herror => by cases herror⟩

theorem Left.of_error {e : ε} {w : W} (h : E w) : Left Q E ((.error e, w) : Except ε α × W) :=
  ⟨fun _ hok => (by cases hok), fun _ _ => h⟩

namespace Ensures

theorem pure {a : α} (h : ∀ w, P w → Q a w) : Ensures P (Pure.pure a : Acting ε W α) Q E :=
  fun w hw => .of_ok (h w hw)

theorem lift {y : Except ε α} (hok : ∀ a w, y = .ok a → P w → Q a w) (herror : ∀ w, P w → E w) :
    Ensures P (lift y) Q E :=
  fun w hw => ⟨fun a ha => hok a w ha hw, fun _ _ => herror w hw⟩

theorem fail {e : ε} (h : ∀ w, P w → E w) : Ensures P (fail e : Acting ε W α) Q E :=
  fun w hw => .of_error (h w hw)

/-- What the first part ensures is what the second one starts from. -/
theorem bind (hx : Ensures P x Q E) (hf : ∀ a, Ensures (Q a) (f a) R E) :
    Ensures P (x >>= f) R E := by
  intro w hw
  have hleft := hx w hw
  rw [run_bind]
  rcases hrun : x.run w with ⟨e | a, w'⟩ <;> rw [hrun] at hleft
  · exact .of_error (hleft.error e rfl)
  · exact hf a w' (hleft.ok a rfl)

/-- A loop ends as said when its body takes what is said of the elements so far to one more. -/
theorem each {f : α → Acting ε W Unit} {I : List α → W → Prop} (elements : List α)
    (h : ∀ done a, a ∈ elements → Ensures (I done) (f a) (fun _ => I (done ++ [a])) E) (done : List α) :
    Ensures (I done) (each f elements) (fun _ => I (done ++ elements)) E := by
  induction elements generalizing done with
  | nil => exact pure fun w hw => by rwa [List.append_nil]
  | cons a rest ih =>
    refine bind (h done a List.mem_cons_self) fun _ => ?_
    have hrest := ih (fun done b hb => h done b (List.mem_cons_of_mem a hb)) (done ++ [a])
    rwa [List.append_assoc, List.singleton_append] at hrest

/-- A specification holds from less, and of less. -/
theorem weaken {P' E' : W → Prop} {Q' : α → W → Prop} (h : Ensures P x Q E) (hP : ∀ w, P' w → P w)
    (hQ : ∀ a w, Q a w → Q' a w) (hE : ∀ w, E w → E' w) : Ensures P' x Q' E' :=
  fun w hw => ⟨fun a ha => hQ a _ ((h w (hP w hw)).ok a ha),
    fun e he => hE _ ((h w (hP w hw)).error e he)⟩

/-- What holds however an action ends. -/
theorem always {R : W → Prop} (h : Ensures P x (fun _ => R) R) {w : W} (hw : P w) : R (x.run w).2 := by
  rcases hrun : (x.run w).1 with e | a
  · exact (h w hw).error e hrun
  · exact (h w hw).ok a hrun

end Ensures

/-- An action that keeps something, however it ends. -/
def Keeps (I : W → Prop) (x : Acting ε W α) : Prop := Ensures I x (fun _ => I) I

namespace Keeps

variable {I : W → Prop}

/-- An action keeps what holds of the world whichever way it ends. -/
theorem of_world (h : ∀ w, I w → I (x.run w).2) : Keeps I x :=
  fun w hw => ⟨fun _ _ => h w hw, fun _ _ => h w hw⟩

/-- What is kept may be weakened where there is an error. -/
theorem ensures (h : Keeps I x) (hE : ∀ w, I w → E w) : Ensures I x (fun _ => I) E :=
  Ensures.weaken h (fun _ hw => hw) (fun _ _ hw => hw) hE

theorem pure (a : α) : Keeps I (Pure.pure a : Acting ε W α) := Ensures.pure fun _ hw => hw

theorem lift (y : Except ε α) : Keeps I (Acting.lift y : Acting ε W α) :=
  Ensures.lift (fun _ _ _ hw => hw) fun _ hw => hw

theorem fail (e : ε) : Keeps I (Acting.fail e : Acting ε W α) := Ensures.fail fun _ hw => hw

/-- A chain keeps what both its parts keep. -/
theorem bind (hx : Keeps I x) (hf : ∀ a, Keeps I (f a)) : Keeps I (x >>= f) := Ensures.bind hx hf

/-- An action that is left out keeps everything. -/
theorem onlyIf {p : Prop} [Decidable p] {y : Acting ε W Unit} (hy : Keeps I y) :
    Keeps I (Acting.onlyIf p y) := by
  rw [Acting.onlyIf]
  split
  · exact hy
  · exact pure ()

/-- What an action keeps holds of the world it leaves. -/
theorem world (h : Keeps I x) {w : W} (hw : I w) : I (x.run w).2 := Ensures.always h hw

end Keeps

end Acting
