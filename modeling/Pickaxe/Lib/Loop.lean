/-
# Loops

A loop is its pass, and the number of passes it may make.  A loop whose pass keeps an invariant and
makes a bound smaller ends, with any number of passes above the bound (`loop_spec`).  A loop that only
moves on until it finds something ends with the first it finds (`loop_search`).
-/
import Mathlib.Data.Nat.Init
import Mathlib.Order.Bounds.Basic
import Mathlib.Tactic.Basic

namespace Pickaxe.Lib

variable {σ α : Type}

/-- A loop of fewer than `fuel` passes: a pass gives the next state, or the result. -/
def loop (pass : σ → Option (σ ⊕ α)) : (fuel : ℕ) → σ → Option α
  | 0, _ => none
  | fuel + 1, s =>
    match pass s with
    | none => none
    | some (.inl s) => loop pass fuel s
    | some (.inr a) => some a

variable {pass : σ → Option (σ ⊕ α)} {inv : σ → Prop} {post : α → Prop} {bound : σ → ℕ}

/-- A pass goes on, under the invariant and below the bound, or ends the loop with its result. -/
def Passes (pass : σ → Option (σ ⊕ α)) (inv : σ → Prop) (bound : σ → ℕ) (post : α → Prop)
    (s : σ) : Prop :=
  (∃ s', pass s = some (.inl s') ∧ inv s' ∧ bound s' < bound s) ∨
    ∃ a, pass s = some (.inr a) ∧ post a

variable (inv bound) in
lemma loop_spec (hpass : ∀ s, inv s → Passes pass inv bound post s) {fuel : ℕ} {s : σ}
    (hinv : inv s) (hfuel : bound s < fuel) : ∃ a, loop pass fuel s = some a ∧ post a := by
  induction fuel generalizing s with
  | zero => exact absurd hfuel (Nat.not_lt_zero _)
  | succ fuel ih =>
    rcases hpass s hinv with ⟨s', hs', hinv', hlt⟩ | ⟨a, ha, hpost⟩
    · rw [loop, hs']
      exact ih hinv' (by omega)
    · rw [loop, ha]
      exact ⟨a, rfl, hpost⟩

/-! ## Single passes -/

lemma loop_next {s s' : σ} (h : pass s = some (.inl s')) (fuel : ℕ) :
    loop pass (fuel + 1) s = loop pass fuel s' := by
  rw [loop, h]

lemma loop_done {s : σ} {a : α} (h : pass s = some (.inr a)) (fuel : ℕ) :
    loop pass (fuel + 1) s = some a := by
  rw [loop, h]

/-- More passes than a loop needs. -/
lemma loop_mono {fuel fuel' : ℕ} {s : σ} {a : α} (h : loop pass fuel s = some a)
    (hle : fuel ≤ fuel') : loop pass fuel' s = some a := by
  induction fuel generalizing fuel' s with
  | zero => exact absurd h (by simp [loop])
  | succ fuel ih =>
    obtain ⟨fuel', rfl⟩ := Nat.exists_eq_add_of_le' (Nat.one_le_of_lt hle)
    rcases hs : pass s with _ | s' | b
    · rw [loop, hs] at h
      exact absurd h (by simp)
    · rw [loop_next hs] at h ⊢
      exact ih h (by omega)
    · rw [loop_done hs] at h ⊢
      exact h

/-! ## Searches -/

/-- The first of a row, when it is not the one at the start. -/
lemma isLeast_succ {p : ℕ → Prop} (h : ¬p 0) {i : ℕ} :
    IsLeast {i | p i} (i + 1) ↔ IsLeast {i | p (i + 1)} i := by
  constructor
  · rintro ⟨hi, hle⟩
    exact ⟨hi, fun j hj => Nat.le_of_succ_le_succ (hle (show p (j + 1) from hj))⟩
  · rintro ⟨hi, hle⟩
    refine ⟨hi, fun j hj => ?_⟩
    cases j with
    | zero => exact absurd hj h
    | succ j => exact Nat.succ_le_succ (hle hj)

/-- The first of a row is the one at the start, or the first of the rest. -/
lemma exists_isLeast_iff {p q : ℕ → Prop} :
    (∃ i, IsLeast {i | p i} i ∧ q i) ↔
      (p 0 ∧ q 0) ∨ ¬p 0 ∧ ∃ i, IsLeast {i | p (i + 1)} i ∧ q (i + 1) := by
  by_cases h : p 0
  · have hzero : IsLeast {i | p i} 0 := ⟨h, fun i _ => Nat.zero_le i⟩
    constructor
    · rintro ⟨i, hi, hq⟩
      obtain rfl := hi.unique hzero
      exact .inl ⟨h, hq⟩
    · rintro (⟨-, hq⟩ | ⟨hn, -⟩)
      · exact ⟨0, hzero, hq⟩
      · exact absurd h hn
  · constructor
    · rintro ⟨i, hi, hq⟩
      cases i with
      | zero => exact absurd hi.1 h
      | succ i => exact .inr ⟨h, i, (isLeast_succ h).mp hi, hq⟩
    · rintro (⟨hp, -⟩ | ⟨-, i, hi, hq⟩)
      · exact absurd hp h
      · exact ⟨i + 1, (isLeast_succ h).mpr hi, hq⟩

/-- A loop that moves on until it finds something. -/
lemma loop_search {found : σ → Prop} [DecidablePred found] {out : σ → α} {next : σ → σ} {fuel : ℕ}
    {s : σ} {a : α} :
    loop (fun s => if found s then some (.inr (out s)) else some (.inl (next s))) fuel s = some a ↔
      ∃ i, IsLeast {i | found (next^[i] s)} i ∧ i < fuel ∧ out (next^[i] s) = a := by
  induction fuel generalizing s with
  | zero => simp [loop]
  | succ fuel ih =>
    rw [exists_isLeast_iff, loop]
    by_cases hs : found s
    · rw [if_pos hs]
      simp [hs]
    · rw [if_neg hs]
      dsimp only
      rw [ih]
      simp [hs]

end Pickaxe.Lib
