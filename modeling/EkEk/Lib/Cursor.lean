import EkEk.Lib.Checked

/-!
# Reading an input that may still grow

A cursor is a position in a list of tokens, kept as the tokens that are left. A `Taker` takes tokens
off the front or finds that they are not there, and a `Reader` may also end early, with an outcome.

Three things are said of a reader. `Reads` gives the grammar of what it takes: it gets through exactly
when the input begins with a phrase of the grammar, and `Reads.unique` is that the phrase is then
determined. `Ends` gives the outcomes it may end with. `Grows` says what tokens that arrive later can
change: only whether the reader still waits for more.
-/

namespace Cursor

open Checked

variable {ι ε α β : Type}

/-- Takes tokens off the front, or finds that they are not there. -/
abbrev Taker (ι α : Type) := StateT (List ι) Option α

/-- Takes tokens off the front, or ends with an outcome. -/
abbrev Reader (ι ε α : Type) := StateT (List ι) (Except ε) α

/-- End with an outcome where the tokens are not there. -/
def orReturn (take : Taker ι α) (outcome : ε) : Reader ι ε α :=
  fun input => found (take input) outcome

/-- End with an outcome if a condition holds. -/
def returnIf (p : Prop) [Decidable p] (outcome : ε) : Reader ι ε Unit :=
  fun input => if p then .error outcome else .ok ((), input)

/-- A reader gets through where both its parts do, the second on what the first left. -/
theorem bind_apply_eq_ok {p : Reader ι ε α} {q : α → Reader ι ε β} {input rest : List ι} {y : β} :
    (p >>= q) input = .ok (y, rest) ↔
      ∃ x mid, p input = .ok (x, mid) ∧ q x mid = .ok (y, rest) := by
  show (p input >>= fun taken => q taken.1 taken.2) = _ ↔ _
  rw [bind_eq_ok]
  exact Prod.exists

/-- Behind a part that got through, a reader is the rest of it. -/
theorem bind_apply_of_ok {p : Reader ι ε α} {input mid : List ι} {x : α} (h : p input = .ok (x, mid))
    (q : α → Reader ι ε β) : (p >>= q) input = q x mid := by
  show (p input >>= fun taken => q taken.1 taken.2) = _
  rw [h]
  rfl

/-- A part that ends a reader ends it with its outcome. -/
theorem bind_apply_of_error {p : Reader ι ε α} {input : List ι} {outcome : ε}
    (h : p input = .error outcome) (q : α → Reader ι ε β) : (p >>= q) input = .error outcome := by
  show (p input >>= fun taken => q taken.1 taken.2) = _
  rw [h]
  rfl

/-- A taker takes where both its parts do. -/
theorem bind_apply_eq_some {p : Taker ι α} {q : α → Taker ι β} {input rest : List ι} {y : β} :
    (p >>= q) input = some (y, rest) ↔
      ∃ x mid, p input = some (x, mid) ∧ q x mid = some (y, rest) := by
  show (p input).bind (fun taken => q taken.1 taken.2) = _ ↔ _
  rw [Option.bind_eq_some_iff]
  exact Prod.exists

theorem orReturn_eq_ok {take : Taker ι α} {outcome : ε} {input rest : List ι} {x : α} :
    orReturn take outcome input = .ok (x, rest) ↔ take input = some (x, rest) :=
  found_eq_ok

/-- A reader goes on where the condition does not hold, and has taken nothing. -/
theorem returnIf_eq_ok {p : Prop} [Decidable p] {outcome : ε} {input rest : List ι} {u : Unit} :
    returnIf p outcome input = .ok (u, rest) ↔ ¬ p ∧ input = rest := by
  by_cases h : p <;> simp [returnIf, h]

/-! ## Grammars -/

/-- A reader gets through exactly when its input begins with a phrase. -/
def Reads (phrase : α → List ι → Prop) (p : Reader ι ε α) : Prop :=
  ∀ input x rest, p input = .ok (x, rest) ↔ ∃ taken, phrase x taken ∧ input = taken ++ rest

/-- What a reader takes is determined by its input. -/
theorem Reads.unique {phrase : α → List ι → Prop} {p : Reader ι ε α} (h : Reads phrase p)
    {x y : α} {first second : List ι} {rest rest' : List ι} (hfirst : phrase x first)
    (hsecond : phrase y second) (heq : first ++ rest = second ++ rest') :
    x = y ∧ first = second ∧ rest = rest' := by
  have hread := (h _ x rest).mpr ⟨first, hfirst, rfl⟩
  have hread' := (h _ y rest').mpr ⟨second, hsecond, heq⟩
  have hpair := Except.ok.inj (hread.symm.trans hread')
  obtain ⟨rfl, rfl⟩ := Prod.mk.inj hpair
  exact ⟨rfl, List.append_cancel_right heq, rfl⟩

/-! ## Early ends -/

/-- The outcomes a reader may end with. -/
def Ends (ending : ε → Prop) (p : Reader ι ε α) : Prop :=
  ∀ input outcome, p input = .error outcome → ending outcome

variable {ending : ε → Prop}

/-- A reader ends as its parts do. -/
theorem Ends.bind {p : Reader ι ε α} {q : α → Reader ι ε β} (hp : Ends ending p)
    (hq : ∀ x, Ends ending (q x)) : Ends ending (p >>= q) := by
  intro input outcome h
  change (p input >>= fun taken => q taken.1 taken.2) = _ at h
  cases hfirst : p input with
  | error e =>
    rw [hfirst] at h
    exact Except.error.inj h ▸ hp _ _ hfirst
  | ok taken =>
    rw [hfirst, ok_bind] at h
    exact hq taken.1 _ _ h

theorem Ends.pure (x : α) : Ends ending (Pure.pure x : Reader ι ε α) := by
  intro input outcome h
  nomatch h

theorem Ends.orReturn {outcome : ε} (h : ending outcome) (take : Taker ι α) :
    Ends ending (Cursor.orReturn take outcome) := by
  intro input e hended
  cases htaken : take input with
  | none =>
    rw [Cursor.orReturn, htaken] at hended
    exact Except.error.inj hended ▸ h
  | some taken =>
    rw [Cursor.orReturn, htaken] at hended
    nomatch hended

theorem Ends.returnIf {outcome : ε} (h : ending outcome) (p : Prop) [Decidable p] :
    Ends ending (Cursor.returnIf p outcome : Reader ι ε Unit) := by
  intro input e hended
  by_cases hp : p
  · rw [Cursor.returnIf, if_pos hp] at hended
    exact Except.error.inj hended ▸ h
  · rw [Cursor.returnIf, if_neg hp] at hended
    nomatch hended

/-! ## Later tokens -/

/-- Tokens that arrive later are left untouched by a reader that got through, and change no outcome
but that of waiting for more. -/
structure Grows (more : ε) (p : Reader ι ε α) : Prop where
  ok : ∀ {input later rest x}, p input = .ok (x, rest) → p (input ++ later) = .ok (x, rest ++ later)
  error : ∀ {input later outcome}, p input = .error outcome → outcome ≠ more →
    p (input ++ later) = .error outcome

variable {more : ε}

/-- A reader grows where its parts do. -/
theorem Grows.bind {p : Reader ι ε α} {q : α → Reader ι ε β} (hp : Grows more p)
    (hq : ∀ x, Grows more (q x)) : Grows more (p >>= q) := by
  constructor
  · intro input later rest y h
    obtain ⟨x, mid, hfirst, hsecond⟩ := bind_apply_eq_ok.mp h
    exact bind_apply_eq_ok.mpr ⟨x, mid ++ later, hp.ok hfirst, (hq x).ok hsecond⟩
  · intro input later outcome h hne
    change (p input >>= fun taken => q taken.1 taken.2) = _ at h
    show (p (input ++ later) >>= fun taken => q taken.1 taken.2) = _
    cases hfirst : p input with
    | error e =>
      rw [hfirst] at h
      obtain rfl : e = outcome := Except.error.inj h
      rw [hp.error hfirst hne]
      rfl
    | ok taken =>
      obtain ⟨x, mid⟩ := taken
      rw [hfirst, ok_bind] at h
      rw [hp.ok hfirst, ok_bind]
      exact (hq x).error h hne

theorem Grows.pure (x : α) : Grows more (Pure.pure x : Reader ι ε α) := by
  constructor
  · intro input later rest y h
    obtain ⟨rfl, rfl⟩ := Prod.mk.inj (Except.ok.inj h)
    rfl
  · intro input later outcome h
    nomatch h

theorem Grows.returnIf (p : Prop) [Decidable p] (outcome : ε) :
    Grows more (Cursor.returnIf p outcome : Reader ι ε Unit) := by
  constructor
  · intro input later rest u h
    obtain ⟨hp, rfl⟩ := returnIf_eq_ok.mp h
    exact returnIf_eq_ok.mpr ⟨hp, rfl⟩
  · intro input later e h _
    by_cases hp : p
    · rw [Cursor.returnIf, if_pos hp] at h ⊢
      exact h
    · rw [Cursor.returnIf, if_neg hp] at h
      nomatch h

/-- A reader that waits where the tokens are not there. -/
theorem Grows.orReturn {take : Taker ι α}
    (h : ∀ {input later rest x}, take input = some (x, rest) →
      take (input ++ later) = some (x, rest ++ later)) :
    Grows more (Cursor.orReturn take more) := by
  constructor
  · intro input later rest x htaken
    exact orReturn_eq_ok.mpr (h (orReturn_eq_ok.mp htaken))
  · intro input later outcome hended hne
    cases htaken : take input with
    | none =>
      rw [Cursor.orReturn, htaken] at hended
      exact absurd (Except.error.inj hended).symm hne
    | some taken =>
      rw [Cursor.orReturn, htaken] at hended
      nomatch hended

end Cursor
