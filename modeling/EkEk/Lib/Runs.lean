import Mathlib.Data.List.Forall2

/-!
# Runs of a deterministic machine

A machine is a step function `σ → ι → σ`, and a run is a list of inputs. `Along` says that a
condition holds at every step of a run, of the state the step starts in and the input it takes, and
`Along.inv` is the induction every invariant of a run goes through; `Along.rel` is the one for two
runs that are compared step by step. Where a step that misses the condition also breaks the property,
`along_iff` says that the runs that keep the property all along are exactly those that meet the
condition.
-/

namespace Runs

variable {σ ι : Type*} (step : σ → ι → σ)

/-- The state a run ends in. -/
def run (s : σ) (inputs : List ι) : σ := inputs.foldl step s

/-- A condition on the state before a step and on its input, at every step of a run. -/
def Along (cond : σ → ι → Prop) : σ → List ι → Prop
  | _, [] => True
  | s, input :: rest => cond s input ∧ Along cond (step s input) rest

@[simp] theorem run_nil (s : σ) : run step s [] = s := rfl

@[simp] theorem run_cons (s : σ) (input : ι) (rest : List ι) :
    run step s (input :: rest) = run step (step s input) rest := rfl

theorem run_append (s : σ) (first second : List ι) :
    run step s (first ++ second) = run step (run step s first) second :=
  List.foldl_append

variable {step}

/-- A condition holds along a run in two parts if it holds along each of them. -/
theorem along_append {cond : σ → ι → Prop} {s : σ} {first second : List ι} :
    Along step cond s (first ++ second) ↔
      Along step cond s first ∧ Along step cond (run step s first) second := by
  induction first generalizing s with
  | nil => exact (and_iff_right trivial).symm
  | cons input first ih => exact (and_congr_right fun _ => ih).trans and_assoc.symm

/-- What holds at the start and is kept by every step that meets the condition holds wherever a run
that meets it ends. -/
theorem Along.inv {cond : σ → ι → Prop} {Inv : σ → Prop}
    (hstep : ∀ s input, Inv s → cond s input → Inv (step s input)) {s : σ} {inputs : List ι}
    (hs : Inv s) (h : Along step cond s inputs) : Inv (run step s inputs) := by
  induction inputs generalizing s with
  | nil => exact hs
  | cons input rest ih => exact ih (hstep s input hs h.1) h.2

/-- What holds at the start and is kept by every step that meets the condition holds in every state of
a run that meets it. -/
theorem Along.inv_of_prefix {cond : σ → ι → Prop} {Inv : σ → Prop}
    (hstep : ∀ s input, Inv s → cond s input → Inv (step s input)) {s : σ} {inputs : List ι}
    (hs : Inv s) (h : Along step cond s inputs) : ∀ first, first <+: inputs → Inv (run step s first) := by
  induction inputs generalizing s with
  | nil =>
    intro first hfirst
    rw [List.prefix_nil.mp hfirst]
    exact hs
  | cons input rest ih =>
    intro first hfirst
    rcases List.prefix_cons_iff.mp hfirst with rfl | ⟨later, rfl, hlater⟩
    · exact hs
    · exact ih (hstep s input hs h.1) h.2 later hlater

/-- What every step keeps holds wherever a run ends. -/
theorem run_inv {Inv : σ → Prop} (hstep : ∀ s input, Inv s → Inv (step s input)) {s : σ}
    (hs : Inv s) (inputs : List ι) : Inv (run step s inputs) := by
  induction inputs generalizing s with
  | nil => exact hs
  | cons input rest ih => exact ih (hstep s input hs)

/-- A condition at every step of a run can be exchanged for one that follows from it, given an
invariant. -/
theorem Along.imp {cond cond' : σ → ι → Prop} {Inv : σ → Prop}
    (hstep : ∀ s input, Inv s → cond s input → Inv (step s input))
    (himp : ∀ s input, Inv s → cond s input → cond' s input) {s : σ} {inputs : List ι}
    (hs : Inv s) (h : Along step cond s inputs) : Along step cond' s inputs := by
  induction inputs generalizing s with
  | nil => trivial
  | cons input rest ih => exact ⟨himp s input hs h.1, ih (hstep s input hs h.1) h.2⟩

/-- A condition at every step can be joined by what is known of every input. -/
theorem Along.and_of_mem {cond : σ → ι → Prop} {p : ι → Prop} {s : σ} {inputs : List ι}
    (h : Along step cond s inputs) (hp : ∀ input ∈ inputs, p input) :
    Along step (fun s input => cond s input ∧ p input) s inputs := by
  induction inputs generalizing s with
  | nil => trivial
  | cons input rest ih =>
    exact ⟨⟨h.1, hp input List.mem_cons_self⟩,
      ih h.2 fun later hlater => hp later (List.mem_cons_of_mem input hlater)⟩

/-- Two conditions that an invariant makes the same hold along the same runs. -/
theorem along_congr {cond cond' : σ → ι → Prop} {Inv : σ → Prop}
    (hstep : ∀ s input, Inv s → Inv (step s input))
    (hiff : ∀ s input, Inv s → (cond s input ↔ cond' s input)) {s : σ} (hs : Inv s) (inputs : List ι) :
    Along step cond s inputs ↔ Along step cond' s inputs :=
  ⟨Along.imp (fun s input hs _ => hstep s input hs) (fun s input hs => (hiff s input hs).mp) hs,
    Along.imp (fun s input hs _ => hstep s input hs) (fun s input hs => (hiff s input hs).mpr) hs⟩

/-- Two runs whose inputs are related stay in related states, if every related step does that meets
the condition in the first run. -/
theorem Along.rel {cond : σ → ι → Prop} {R : σ → σ → Prop} {T : ι → ι → Prop}
    (hstep : ∀ s s' input input', R s s' → T input input' → cond s input →
      R (step s input) (step s' input'))
    {s s' : σ} {inputs inputs' : List ι} (hs : R s s') (hinputs : List.Forall₂ T inputs inputs')
    (h : Along step cond s inputs) : R (run step s inputs) (run step s' inputs') := by
  induction hinputs generalizing s s' with
  | nil => exact hs
  | cons hinput _ ih => exact ih (hstep _ _ _ _ hs hinput h.1) h.2

/-- Two machines that take the same inputs agree in every state exactly when the condition is met at
every step of the first, if the relation that carries the agreement is kept by the steps that meet the
condition and every other step breaks the agreement. -/
theorem agree_iff {τ : Type*} {step' : τ → ι → τ} {cond : σ → ι → Prop} {R P : σ → τ → Prop}
    (hrel : ∀ s t, R s t → P s t)
    (hstep : ∀ s t input, R s t → cond s input → R (step s input) (step' t input))
    (hbreak : ∀ s t input, R s t → ¬ cond s input → ¬ P (step s input) (step' t input)) {s : σ} {t : τ}
    (hs : R s t) (inputs : List ι) :
    (∀ first, first <+: inputs → P (run step s first) (run step' t first)) ↔
      Along step cond s inputs := by
  induction inputs generalizing s t with
  | nil =>
    refine iff_of_true ?_ trivial
    intro first hfirst
    rw [List.prefix_nil.mp hfirst]
    exact hrel s t hs
  | cons input rest ih =>
    constructor
    · intro hall
      have hmeets : cond s input := by
        by_contra hmisses
        exact hbreak s t input hs hmisses (hall [input] ⟨rest, rfl⟩)
      refine ⟨hmeets, (ih (hstep s t input hs hmeets)).mp fun first hfirst => ?_⟩
      exact hall (input :: first) (List.cons_prefix_cons.mpr ⟨rfl, hfirst⟩)
    · rintro ⟨hmeets, hrest⟩ first hfirst
      rcases List.prefix_cons_iff.mp hfirst with rfl | ⟨later, rfl, hlater⟩
      · exact hrel s t hs
      · exact (ih (hstep s t input hs hmeets)).mpr hrest later hlater

/-- A property holds in every state of a run exactly when the condition is met at every step, if
the invariant that carries the property is kept by the steps that meet the condition and every other
step breaks the property. -/
theorem along_iff {cond : σ → ι → Prop} {Inv P : σ → Prop} (hinv : ∀ s, Inv s → P s)
    (hstep : ∀ s input, Inv s → cond s input → Inv (step s input))
    (hbreak : ∀ s input, Inv s → ¬ cond s input → ¬ P (step s input)) {s : σ} (hs : Inv s)
    (inputs : List ι) :
    (∀ first, first <+: inputs → P (run step s first)) ↔ Along step cond s inputs :=
  -- the second machine is idle
  @agree_iff _ _ _ Unit (fun t _ => t) _ (fun s _ => Inv s) (fun s _ => P s) (fun s _ => hinv s)
    (fun s _ => hstep s) (fun s _ => hbreak s) s () hs inputs

end Runs
