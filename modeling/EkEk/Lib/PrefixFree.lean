import Mathlib.Data.List.Basic

/-!
# Codes that say where they end

A code is prefix free if what follows a word of it does not matter: whoever reads the word and goes on
knows which word it was and where it ended. A field of a fixed length is one (`of_length`), so is a field
that ends with something that it cannot contain (`terminated`), and one field after another is again
(`append`).
-/

variable {α β γ : Type*}

/-- What follows a word does not matter. -/
def PrefixFree (encode : α → List β) : Prop :=
  ∀ x y : α, ∀ rest rest' : List β, encode x ++ rest = encode y ++ rest' → x = y ∧ rest = rest'

namespace PrefixFree

variable {encode : α → List β} {encode' : γ → List β}

/-- Words of one length. -/
theorem of_length (hinjective : Function.Injective encode) {n : ℕ} (hlength : ∀ x, (encode x).length = n) :
    PrefixFree encode := by
  intro x y rest rest' h
  obtain ⟨hword, hrest⟩ := List.append_inj h ((hlength x).trans (hlength y).symm)
  exact ⟨hinjective hword, hrest⟩

/-- The first place of something is where two lists that go on differently from there part. -/
theorem eq_of_append_cons {x y rest rest' : List β} {stop : β} (hx : stop ∉ x) (hy : stop ∉ y)
    (h : x ++ stop :: rest = y ++ stop :: rest') : x = y ∧ rest = rest' := by
  induction x generalizing y with
  | nil =>
    cases y with
    | nil => exact ⟨rfl, (List.cons.inj h).2⟩
    | cons head y => exact absurd ((List.cons.inj h).1 ▸ List.mem_cons_self) hy
  | cons head x ih =>
    cases y with
    | nil => exact absurd ((List.cons.inj h).1 ▸ List.mem_cons_self) hx
    | cons head' y =>
      obtain ⟨rfl, htail⟩ := List.cons.inj h
      obtain ⟨rfl, hrest⟩ := ih (List.not_mem_of_not_mem_cons hx) (List.not_mem_of_not_mem_cons hy) htail
      exact ⟨rfl, hrest⟩

/-- Words that end with something that they do not contain. -/
theorem terminated (hinjective : Function.Injective encode) {stop : β} (hstop : ∀ x, stop ∉ encode x) :
    PrefixFree fun x => encode x ++ [stop] := by
  intro x y rest rest' h
  rw [List.append_assoc, List.append_assoc, List.singleton_append, List.singleton_append] at h
  obtain ⟨hword, hrest⟩ := eq_of_append_cons (hstop x) (hstop y) h
  exact ⟨hinjective hword, hrest⟩

/-- One word after another. -/
theorem append (h : PrefixFree encode) (h' : PrefixFree encode') :
    PrefixFree fun p : α × γ => encode p.1 ++ encode' p.2 := by
  rintro ⟨x, z⟩ ⟨y, w⟩ rest rest' heq
  rw [List.append_assoc, List.append_assoc] at heq
  obtain ⟨rfl, hlater⟩ := h x y _ _ heq
  obtain ⟨rfl, hrest⟩ := h' z w rest rest' hlater
  exact ⟨rfl, hrest⟩

/-- Words with something known before them. -/
theorem cons (h : PrefixFree encode) (front : List β) : PrefixFree fun x => front ++ encode x := by
  intro x y rest rest' heq
  rw [List.append_assoc, List.append_assoc] at heq
  exact h x y rest rest' (List.append_cancel_left heq)

/-- Words with something known behind them. -/
theorem concat (h : PrefixFree encode) (back : List β) : PrefixFree fun x => encode x ++ back := by
  intro x y rest rest' heq
  rw [List.append_assoc, List.append_assoc] at heq
  obtain ⟨rfl, hrest⟩ := h x y _ _ heq
  exact ⟨rfl, List.append_cancel_left hrest⟩

end PrefixFree
