/-
# Fallible computations

Inversion of sequences in `Except`: a sequence succeeds exactly when both of its parts do.
-/
import Mathlib.Logic.Basic

namespace Pickaxe.Lib

variable {ε α β : Type}

lemma Except.bind_eq_ok {x : Except ε α} {f : α → Except ε β} {b : β} :
    (x >>= f) = .ok b ↔ ∃ a, x = .ok a ∧ f a = .ok b := by
  cases x with
  | error e =>
    constructor
    · intro h
      cases h
    · rintro ⟨a, ha, -⟩
      cases ha
  | ok a =>
    constructor
    · intro h
      exact ⟨a, rfl, h⟩
    · rintro ⟨a', ha, h⟩
      cases ha
      exact h

lemma Except.exists_eq_ok {x : Except ε α} (h : x.toOption.isSome = true) : ∃ a, x = .ok a := by
  cases x with
  | error e => cases h
  | ok a => exact ⟨a, rfl⟩

instance Except.decidableExistsOk (x : Except ε α) (p : α → Prop) [DecidablePred p] :
    Decidable (∃ a, x = .ok a ∧ p a) :=
  match x with
  | .error _ => isFalse fun h => nomatch h
  | .ok a => decidable_of_iff (p a)
    ⟨fun h => ⟨a, rfl, h⟩, fun h => match h with | ⟨_, rfl, h⟩ => h⟩

instance Except.decidableExistsError (x : Except ε α) : Decidable (∃ e, x = .error e) :=
  match x with
  | .error e => isTrue ⟨e, rfl⟩
  | .ok _ => isFalse fun h => nomatch h

lemma Except.exists_of_any {x : Except ε α} {p : α → Bool} (h : x.toOption.any p = true) :
    ∃ a, x = .ok a ∧ p a = true := by
  cases x with
  | error e => cases h
  | ok a => exact ⟨a, rfl, h⟩

lemma Except.mapError_eq_ok {ε' : Type} {x : Except ε α} {f : ε → ε'} {a : α} :
    x.mapError f = .ok a ↔ x = .ok a := by
  cases x with
  | error e =>
    constructor
    · intro h
      cases h
    · intro h
      cases h
  | ok b =>
    constructor
    · intro h
      cases h
      rfl
    · intro h
      cases h
      rfl

lemma Except.map_eq_ok {x : Except ε α} {f : α → β} {b : β} :
    x.map f = .ok b ↔ ∃ a, x = .ok a ∧ f a = b := by
  cases x <;> simp [Except.map]

/-- Each result of a list that succeeds is one element's. -/
lemma Except.exists_of_mem_mapM {f : α → Except ε β} {l : List α} {results : List β} {b : β}
    (h : l.mapM f = .ok results) (hb : b ∈ results) : ∃ a ∈ l, f a = .ok b := by
  induction l generalizing results with
  | nil =>
    cases h
    cases hb
  | cons a l ih =>
    rw [List.mapM_cons] at h
    obtain ⟨first, hfirst, h⟩ := Except.bind_eq_ok.mp h
    obtain ⟨rest, hrest, h⟩ := Except.bind_eq_ok.mp h
    cases h
    obtain rfl | hb := List.mem_cons.mp hb
    · exact ⟨a, List.mem_cons_self, hfirst⟩
    · obtain ⟨a', ha', hf⟩ := ih hrest hb
      exact ⟨a', List.mem_cons_of_mem _ ha', hf⟩

/-- A check that fails under a condition, as a first step. -/
lemma Except.ite_error_eq_ok {c : Prop} [Decidable c] {e : ε} {x : Except ε α} {a : α} :
    (if c then .error e else x) = .ok a ↔ ¬ c ∧ x = .ok a := by
  split
  · rename_i hc
    constructor
    · intro h
      cases h
    · rintro ⟨h, -⟩
      exact absurd hc h
  · rename_i hc
    exact ⟨fun h => ⟨hc, h⟩, fun h => h.2⟩

/-- The same where the rest needs what the check found. -/
lemma Except.dite_error_eq_ok {c : Prop} [Decidable c] {e : ε} {x : ¬ c → Except ε α} {a : α} :
    (if h : c then .error e else x h) = .ok a ↔ ∃ h : ¬ c, x h = .ok a := by
  by_cases hc : c
  · rw [dif_pos hc]
    exact iff_of_false nofun (fun h => h.1 hc)
  · rw [dif_neg hc]
    exact ⟨fun h => ⟨hc, h⟩, fun h => h.2⟩

end Pickaxe.Lib
