/-
# Checked machine arithmetic

Arithmetic on fixed-width integers that stops where a result does not fit its type.  A
computation is written with exact integers, each result passing through its width; where
every one of them fits, it computes what the exact one does.
-/
import Mathlib.Algebra.Order.Ring.Int

namespace Pickaxe.Lib.Checked

/-- Why checked arithmetic stops. -/
inductive Panic
  | overflow
  | divideByZero
deriving DecidableEq

/-- A result of unsigned arithmetic on `w` bits. -/
def unsigned (w n : ℕ) : Except Panic ℕ :=
  if n < 2 ^ w then .ok n else .error .overflow

/-- A difference of unsigned integers. -/
def unsignedSub (m n : ℕ) : Except Panic ℕ :=
  if n ≤ m then .ok (m - n) else .error .overflow

/-- The range of a signed integer of `w` bits. -/
def Fits (w : ℕ) (k : ℤ) : Prop := -2 ^ (w - 1) ≤ k ∧ k < 2 ^ (w - 1)

instance (w : ℕ) (k : ℤ) : Decidable (Fits w k) := inferInstanceAs (Decidable (_ ∧ _))

/-- A result of signed arithmetic on `w` bits. -/
def signed (w : ℕ) (k : ℤ) : Except Panic ℤ :=
  if Fits w k then .ok k else .error .overflow

/-- A signed quotient, truncated toward zero. -/
def signedDiv (w : ℕ) (a b : ℤ) : Except Panic ℤ :=
  if b = 0 then .error .divideByZero else signed w (a.tdiv b)

variable {α : Type} {w n : ℕ} {a b k : ℤ}

lemma unsigned_of_lt (h : n < 2 ^ w) : unsigned w n = .ok n :=
  if_pos h

lemma unsigned_bind {f : ℕ → Except Panic α} (h : n < 2 ^ w) : (unsigned w n >>= f) = f n := by
  rw [unsigned_of_lt h]
  rfl

lemma unsignedSub_bind {m : ℕ} {f : ℕ → Except Panic α} (h : n ≤ m) :
    (unsignedSub m n >>= f) = f (m - n) := by
  rw [unsignedSub, if_pos h]
  rfl

lemma signed_of_fits (h : Fits w k) : signed w k = .ok k :=
  if_pos h

lemma signed_bind {f : ℤ → Except Panic α} (h : Fits w k) : (signed w k >>= f) = f k := by
  rw [signed_of_fits h]
  rfl

lemma signed_bind_overflow {f : ℤ → Except Panic α} (h : ¬ Fits w k) :
    (signed w k >>= f) = .error .overflow := by
  rw [signed, if_neg h]
  rfl

/-- A positive divisor keeps a number in its type: the quotient is no larger than it. -/
lemma Fits.tdiv (h : Fits w a) (hb : 0 < b) : Fits w (a.tdiv b) := by
  have hpow : (0 : ℤ) < 2 ^ (w - 1) := Int.pow_pos (by decide)
  have hlo := h.1
  have hhi := h.2
  rcases Int.le_total 0 a with ha | ha
  · have hle : a.tdiv b ≤ a := Int.tdiv_le_self b ha
    have h0 : 0 ≤ a.tdiv b := Int.tdiv_nonneg ha hb.le
    constructor <;> omega
  · have hle : (-a).tdiv b ≤ -a := Int.tdiv_le_self b (by omega)
    have h0 : 0 ≤ (-a).tdiv b := Int.tdiv_nonneg (by omega) hb.le
    rw [Int.neg_tdiv] at hle h0
    constructor <;> omega

lemma signedDiv_bind {f : ℤ → Except Panic α} (hb : 0 < b) (h : Fits w a) :
    (signedDiv w a b >>= f) = f (a.tdiv b) := by
  rw [signedDiv, if_neg hb.ne']
  exact signed_bind (h.tdiv hb)

end Pickaxe.Lib.Checked
