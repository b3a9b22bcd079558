/-
# Loops over limbs

The loops of the engine go over eight limbs and carry a wide value from one to the next.  `limbs` is
such a loop; what one step adds, the loop sums (`returns_limbs`).
-/
import Pickaxe.Engine.Wide
import Mathlib.Tactic.LinearCombination

namespace Pickaxe.Engine

open Lib

section Code

variable {m : Type → Type} {W : Type} [Monad m]

/-- `limbs!`: a loop over `n` limbs from `i` on, each of which writes a word. -/
def limbs (body : ℕ → W → m (UInt32 × W)) : (n i : ℕ) → W → m (Words n × W)
  | 0, _, carry => return (.nil, carry)
  | n + 1, i, carry => do
    let (word, carry) ← body i carry
    let (words, carry) ← limbs body n (i + 1) carry
    return (word ::ᵥ words, carry)

end Code

/-- The sum of `n` values from `i` on, each with the weight of its limb. -/
def limbSum (f : ℕ → ℤ) : (n i : ℕ) → ℤ
  | 0, _ => 0
  | n + 1, i => f i + 2 ^ 32 * limbSum f n (i + 1)

section Sum

variable {f g : ℕ → ℤ} {n i : ℕ}

lemma limbSum_succ : limbSum f n (i + 1) = limbSum (fun j => f (j + 1)) n i := by
  induction n generalizing i with
  | zero => rfl
  | succ n ih => rw [limbSum, limbSum, ih]

lemma limbSum_add : limbSum (fun i => f i + g i) n i = limbSum f n i + limbSum g n i := by
  induction n generalizing i with
  | zero => rfl
  | succ n ih =>
    rw [limbSum, limbSum, limbSum, ih]
    ring

lemma limbSum_sub : limbSum (fun i => f i - g i) n i = limbSum f n i - limbSum g n i := by
  induction n generalizing i with
  | zero => rfl
  | succ n ih =>
    rw [limbSum, limbSum, limbSum, ih]
    ring

lemma limbSum_mul (c : ℤ) : limbSum (fun i => c * f i) n i = c * limbSum f n i := by
  induction n generalizing i with
  | zero => rw [limbSum, limbSum, mul_zero]
  | succ n ih =>
    rw [limbSum, limbSum, ih]
    ring

lemma limbSum_lt (hf : ∀ j, f j < 2 ^ 32) : limbSum f n i < 2 ^ (32 * n) := by
  induction n generalizing i with
  | zero => exact zero_lt_one
  | succ n ih =>
    have hrest := ih (i := i + 1)
    have hf := hf i
    rw [limbSum, Nat.mul_succ, Nat.add_comm (32 * n), pow_add]
    omega

/-- Words are the sum of their limbs. -/
lemma limbSum_word (a : Words n) : limbSum (fun i => ((Words.word a i).toNat : ℤ)) n 0 = Words.value a := by
  induction n with
  | zero => simp [limbSum]
  | succ n ih =>
    rw [limbSum, limbSum_succ, Words.value_eq_head_tail, Words.word_zero]
    simp only [Words.word_succ]
    rw [ih a.tail]
    push_cast
    ring

end Sum

section Spec

variable {m : Type → Type} {W : Type} [Monad m] [LawfulMonad m] {body : ℕ → W → m (UInt32 × W)}
  {f : ℕ → ℤ} {g : W → ℤ} {p : W → Prop}

/-- What one step adds to its carry, the loop sums. -/
lemma returns_limbs {n i : ℕ} {carry : W} (hok : p carry)
    (hbody : ∀ j carry, i ≤ j → j < i + n → p carry → Returns (body j carry) fun r =>
      (r.1.toNat : ℤ) + 2 ^ 32 * g r.2 = f j + g carry ∧ p r.2) :
    Returns (limbs body n i carry) fun r =>
      (Words.value r.1 : ℤ) + 2 ^ (32 * n) * g r.2 = limbSum f n i + g carry ∧ p r.2 := by
  induction n generalizing i carry with
  | zero =>
    refine returns_pure ⟨?_, hok⟩
    simp [limbSum]
  | succ n ih =>
    refine (hbody i carry (le_refl i) (by omega) hok).bind fun r hr => ?_
    obtain ⟨hword, hok'⟩ := hr
    refine (ih hok' fun j c hj hlt => hbody j c (by omega) (by omega)).bind fun s hs => ?_
    refine returns_pure ⟨?_, hs.2⟩
    rw [Words.value_cons, limbSum, Nat.mul_succ, Nat.add_comm, pow_add]
    push_cast
    linear_combination hword + 2 ^ 32 * hs.1

end Spec

end Pickaxe.Engine
