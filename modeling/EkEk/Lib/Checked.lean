import Mathlib.Data.List.Forall2

/-!
# Checked computations

A check either passes or ends the computation with an error. `ensure` checks a condition and `found`
an option. The lemmas say when a chain of checks gets through, so that what a successful computation
has established is read off its equation. `Both` compares two chains of checks: they get through with
related results, or neither does.
-/

namespace Checked

universe u

variable {ε ε' : Type*} {α β : Type u}

/-- Go on if a condition holds, and fail otherwise. -/
def ensure (p : Prop) [Decidable p] (e : ε) : Except ε Unit := if p then .ok () else .error e

/-- Go on with a value if there is one, and fail otherwise. -/
def found (o : Option α) (e : ε) : Except ε α := o.elim (.error e) .ok

/-- What got through is handed on. -/
@[simp] theorem ok_bind {a : α} {f : α → Except ε β} : (Except.ok a >>= f) = f a := rfl

/-- A chain gets through where both its parts do. -/
@[simp] theorem bind_eq_ok {x : Except ε α} {f : α → Except ε β} {r : β} :
    (x >>= f) = .ok r ↔ ∃ a, x = .ok a ∧ f a = .ok r := by
  cases x with
  | error e => simp [bind, Except.bind]
  | ok a => simp [bind, Except.bind]

/-- A check gets through where its condition holds. -/
@[simp] theorem ensure_eq_ok {p : Prop} [Decidable p] {e : ε} {u : Unit} :
    ensure p e = .ok u ↔ p := by
  by_cases h : p <;> simp [ensure, h]

/-- A lookup gets through where there is a value. -/
@[simp] theorem found_eq_ok {o : Option α} {e : ε} {a : α} : found o e = .ok a ↔ o = some a := by
  cases o <;> simp [found]

theorem found_some {a : α} {e : ε} : found (some a) e = .ok a := rfl

theorem mapError_ok {f : ε → ε'} {a : α} : (Except.ok a).mapError f = .ok a := rfl

theorem mapError_error {f : ε → ε'} {e : ε} :
    (Except.error e : Except ε α).mapError f = .error (f e) := rfl

/-- How an error is reported does not decide what gets through. -/
@[simp] theorem mapError_eq_ok {x : Except ε α} {f : ε → ε'} {a : α} :
    x.mapError f = .ok a ↔ x = .ok a := by
  cases x with
  | error e => simp [mapError_error]
  | ok a => simp [mapError_ok]

/-- A result that is worked on further was there. -/
theorem map_eq_ok {x : Except ε α} {f : α → β} {b : β} :
    x.map f = .ok b ↔ ∃ a, x = .ok a ∧ f a = b := by
  cases x with
  | error e => simp [Except.map]
  | ok a => simp [Except.map]

/-- Where every element passes, all of them do. -/
theorem mapM_eq_ok {γ : Type*} {f : γ → Except ε α} {g : γ → α} {l : List γ}
    (h : ∀ x ∈ l, f x = .ok (g x)) : l.mapM f = .ok (l.map g) := by
  induction l with
  | nil => rfl
  | cons x l ih =>
    rw [List.mapM_cons, h x List.mem_cons_self, ok_bind,
      ih fun y hy => h y (List.mem_cons_of_mem _ hy), ok_bind]
    rfl

/-- Where every element passes with a result that is related to it, all of them do. -/
theorem mapM_forall₂ {γ : Type*} {f : γ → Except ε α} {R : γ → α → Prop} {l : List γ}
    (h : ∀ x ∈ l, ∃ y, f x = .ok y ∧ R x y) : ∃ l', l.mapM f = .ok l' ∧ List.Forall₂ R l l' := by
  induction l with
  | nil => exact ⟨[], rfl, .nil⟩
  | cons x l ih =>
    obtain ⟨y, hy, hrel⟩ := h x List.mem_cons_self
    obtain ⟨l', hl', hrels⟩ := ih fun z hz => h z (List.mem_cons_of_mem _ hz)
    refine ⟨y :: l', ?_, .cons hrel hrels⟩
    rw [List.mapM_cons, hy, ok_bind, hl', ok_bind]
    rfl

/-- Results that lead back to what they came from do so together. -/
theorem mapM_of_forall₂ {γ : Type u} {g : α → Except ε γ} {l : List γ} {l' : List α}
    (h : List.Forall₂ (fun x y => g y = .ok x) l l') : l'.mapM g = .ok l := by
  induction h with
  | nil => rfl
  | cons hx _ ih =>
    rw [List.mapM_cons, hx, ok_bind, ih, ok_bind]
    rfl

/-- What gets through one check of the elements gets through another that passes as much. -/
theorem mapM_mono {γ : Type*} {f g : γ → Except ε α} {l : List γ} {l' : List α}
    (h : ∀ x y, f x = .ok y → g x = .ok y) (hl : l.mapM f = .ok l') : l.mapM g = .ok l' := by
  induction l generalizing l' with
  | nil => exact hl
  | cons x l ih =>
    rw [List.mapM_cons, bind_eq_ok] at hl
    obtain ⟨y, hy, hrest⟩ := hl
    rw [bind_eq_ok] at hrest
    obtain ⟨ys, hys, hsame⟩ := hrest
    rw [List.mapM_cons, h x y hy, ok_bind, ih hys, ok_bind]
    exact hsame

/-- Lists that are related through a third one, row by row, are related. -/
theorem forall₂_trans {γ δ η : Type*} {R : γ → δ → Prop} {S : δ → η → Prop} {T : γ → η → Prop}
    (htrans : ∀ x y z, R x y → S y z → T x z) {l : List γ} {l' : List δ} {l'' : List η}
    (h : List.Forall₂ R l l') (h' : List.Forall₂ S l' l'') : List.Forall₂ T l l'' := by
  induction h generalizing l'' with
  | nil =>
    cases h'
    exact .nil
  | cons hxy _ ih =>
    cases h' with
    | cons hyz hrest => exact .cons (htrans _ _ _ hxy hyz) (ih hrest)

/-- Whatever went in has a result that is related to it. -/
theorem exists_of_forall₂ {γ δ : Type*} {R : γ → δ → Prop} {l : List γ} {l' : List δ}
    (h : List.Forall₂ R l l') {x : γ} (hx : x ∈ l) : ∃ y ∈ l', R x y := by
  induction h with
  | nil => exact absurd hx List.not_mem_nil
  | cons hrel _ ih =>
    rcases List.mem_cons.mp hx with rfl | hrest
    · exact ⟨_, List.mem_cons_self, hrel⟩
    · obtain ⟨y, hy, hxy⟩ := ih hrest
      exact ⟨y, List.mem_cons_of_mem _ hy, hxy⟩

/-- Forgetting the error forgets no result. -/
theorem toOption_eq_some {x : Except ε α} {a : α} : x.toOption = some a ↔ x = .ok a := by
  cases x <;> simp [Except.toOption]

/-! ### How a computation fails -/

/-- Whatever error a computation ends with is of some kind. -/
def Fails {α : Type*} (p : ε → Prop) (x : Except ε α) : Prop := ∀ e, x = .error e → p e

namespace Fails

variable {p : ε → Prop}

/-- What gets through does not fail in any way. -/
theorem ok {α : Type*} (a : α) : Fails p (.ok a) := fun _ h => nomatch h

/-- A failure is as the one error it ends with. -/
theorem error {α : Type*} {e : ε} (h : p e) : Fails p (.error e : Except ε α) := by
  rintro _ ⟨⟩
  exact h

/-- A chain fails as its parts do. -/
theorem bind {x : Except ε α} {f : α → Except ε β} (h : Fails p x) (hnext : ∀ a, Fails p (f a)) :
    Fails p (x >>= f) := by
  cases x with
  | error e => exact error (h e rfl)
  | ok a => exact hnext a

/-- A loop fails as its rounds do. -/
theorem mapM {γ : Type*} {f : γ → Except ε α} (h : ∀ x, Fails p (f x)) (l : List γ) :
    Fails p (l.mapM f) := by
  induction l with
  | nil => exact ok []
  | cons x l ih =>
    rw [List.mapM_cons]
    exact (h x).bind fun _ => ih.bind fun _ => ok _

/-- Errors that are translated fail as the translations do. -/
theorem mapError {α : Type*} {f : ε' → ε} (h : ∀ e, p (f e)) (x : Except ε' α) :
    Fails p (x.mapError f) := by
  cases x with
  | error e => exact error (h e)
  | ok a => exact ok a

theorem found {e : ε} (h : p e) (o : Option α) : Fails p (Checked.found o e) := by
  cases o with
  | none => exact error h
  | some a => exact ok a

end Fails

/-! ### Two computations -/

/-- Two computations get through with related results, or neither does. -/
inductive Both {ε ε' : Type*} {α β : Type*} (R : α → β → Prop) : Except ε α → Except ε' β → Prop
  | ok {a : α} {b : β} (h : R a b) : Both R (.ok a) (.ok b)
  | error (e : ε) (e' : ε') : Both R (.error e) (.error e')

namespace Both

variable {α' β' : Type u} {R : α → α' → Prop} {S : β → β' → Prop}

/-- A chain compares to itself. -/
theorem same (x : Except ε α) : Both (fun a b => a = b) x x := by
  cases x with
  | error e => exact .error e e
  | ok a => exact .ok rfl

/-- Chains compare where their parts do. -/
theorem bind {x : Except ε α} {y : Except ε' α'} {f : α → Except ε β} {g : α' → Except ε' β'}
    (h : Both R x y) (hnext : ∀ a b, R a b → Both S (f a) (g b)) : Both S (x >>= f) (y >>= g) := by
  cases h with
  | ok h => exact hnext _ _ h
  | error e e' => exact .error e e'

/-- What both computations do in the same way is done first. -/
theorem bind_same {x : Except ε α} {f : α → Except ε β} {g : α → Except ε β'}
    (hnext : ∀ a, Both S (f a) (g a)) : Both S (x >>= f) (x >>= g) :=
  (same x).bind fun a _ h => h ▸ hnext a

theorem mapError {ε₁ ε₂ : Type*} {x : Except ε α} {y : Except ε' α'} (h : Both R x y)
    (f : ε → ε₁) (g : ε' → ε₂) : Both R (x.mapError f) (y.mapError g) := by
  cases h with
  | ok h => exact .ok h
  | error e e' => exact .error (f e) (g e')

/-- Loops over related lists compare where their rounds do. -/
theorem mapM {γ γ' : Type*} {T : γ → γ' → Prop} {f : γ → Except ε α} {g : γ' → Except ε' α'}
    {l : List γ} {l' : List γ'} (h : List.Forall₂ T l l')
    (hnext : ∀ a b, T a b → Both R (f a) (g b)) : Both (List.Forall₂ R) (l.mapM f) (l'.mapM g) := by
  induction h with
  | nil => exact .ok .nil
  | cons hab _ ih =>
    rw [List.mapM_cons, List.mapM_cons]
    exact (hnext _ _ hab).bind fun _ _ hhead => ih.bind fun _ _ htail => .ok (.cons hhead htail)

end Both

end Checked
