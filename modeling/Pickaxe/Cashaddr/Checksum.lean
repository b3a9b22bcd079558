/-
# The checksum of an address

`cashaddr_polymod` is a shift register of 40 bits.  One changed value is always seen, and behind any
values there are exactly eight more for which the checksum is zero: the ones an encoder writes.
-/
import Pickaxe.Cashaddr
import Pickaxe.Lib.Digits
import Pickaxe.Lib.Register

namespace Pickaxe.Cashaddr

open Lib Digits

/-- What the five bits that leave the register bring back into it. -/
def feedback (c0 : ℕ) : ℕ :=
  generators.zipIdx.foldl (fun c g => if c0 / 2 ^ g.2 % 2 ≠ 0 then c ^^^ g.1 else c) 0

lemma feedback_lt : ∀ c0 < 32, feedback c0 < 2 ^ 40 := by decide

lemma feedback_xor : ∀ x < 32, ∀ y < 32, feedback (x ^^^ y) = feedback x ^^^ feedback y := by
  decide +kernel

/-- The low bits of what is brought back are those that left. -/
lemma feedback_mod : ∀ c0 < 32, feedback c0 % 2 ^ 5 = c0 := by decide

lemma div_lt {c : ℕ} (h : c < 2 ^ 40) : c / 2 ^ 35 < 32 := by omega

/-- The register of `cashaddr_polymod`. -/
def register : Register where
  bits := 40
  next c := c % 2 ^ 35 * 2 ^ 5 ^^^ feedback (c / 2 ^ 35)
  next_lt hc := Nat.xor_lt_two_pow (by omega) (feedback_lt _ (div_lt hc))
  next_xor {c d} hc hd := by
    have hshift : (c % 2 ^ 35 ^^^ d % 2 ^ 35) * 2 ^ 5 =
        c % 2 ^ 35 * 2 ^ 5 ^^^ d % 2 ^ 35 * 2 ^ 5 := by
      rw [← Nat.shiftLeft_eq, ← Nat.shiftLeft_eq, ← Nat.shiftLeft_eq, Nat.shiftLeft_xor_distrib]
    rw [Nat.xor_mod_two_pow, Nat.xor_div_two_pow, feedback_xor _ (div_lt hc) _ (div_lt hd), hshift]
    ac_rfl
  next_eq_zero {c} hc h := by
    have hlow := congrArg (· % 2 ^ 5) h
    simp only [Nat.xor_mod_two_pow, Nat.mul_mod_left, Nat.zero_xor, Nat.zero_mod,
      feedback_mod _ (div_lt hc)] at hlow
    have hfeedback : feedback 0 = 0 := rfl
    rw [hlow, hfeedback, Nat.xor_zero] at h
    omega

lemma foldl_xor {p : ℕ × ℕ → Prop} [DecidablePred p] (l : List (ℕ × ℕ)) (x : ℕ) :
    l.foldl (fun c g => if p g then c ^^^ g.1 else c) x =
      x ^^^ l.foldl (fun c g => if p g then c ^^^ g.1 else c) 0 := by
  induction l generalizing x with
  | nil => simp
  | cons g l ih =>
    rw [List.foldl_cons, List.foldl_cons, ih, ih (if p g then 0 ^^^ g.1 else 0)]
    split_ifs
    · rw [Nat.zero_xor, Nat.xor_assoc]
    · rw [Nat.zero_xor]

lemma polymod_eq (values : List ℕ) : polymod values = register.run 1 values ^^^ 1 := by
  have hstep : ∀ c v : ℕ, generators.zipIdx.foldl
      (fun s g => if c / 2 ^ 35 / 2 ^ g.2 % 2 ≠ 0 then s ^^^ g.1 else s)
      (c % 2 ^ 35 * 2 ^ 5 ^^^ v) = register.step c v := by
    intro c v
    rw [foldl_xor (p := fun g => c / 2 ^ 35 / 2 ^ g.2 % 2 ≠ 0)]
    show _ = (c % 2 ^ 35 * 2 ^ 5 ^^^ feedback (c / 2 ^ 35)) ^^^ v
    rw [feedback]
    ac_rfl
  rw [polymod, Register.run]
  simp only [hstep]

/-- Values of five bits. -/
def Fives (values : List ℕ) : Prop := ∀ v ∈ values, v < 32

lemma Fives.fits {values : List ℕ} (h : Fives values) : register.Fits values :=
  fun v hv => (h v hv).trans (by decide)

lemma Fives.append {l m : List ℕ} (hl : Fives l) (hm : Fives m) : Fives (l ++ m) := by
  intro v hv
  exact (List.mem_append.mp hv).elim (hl v) (hm v)

lemma polymod_eq_zero {values : List ℕ} : polymod values = 0 ↔ register.run 1 values = 1 := by
  rw [polymod_eq, Nat.xor_eq_zero_iff]

lemma shift_xor {a v : ℕ} (hv : v < 2 ^ 5) : a * 2 ^ 5 ^^^ v = a * 32 + v := by
  have hdiv : (a * 2 ^ 5 ^^^ v) / 2 ^ 5 = a := by
    rw [Nat.xor_div_two_pow, Nat.mul_div_cancel _ (by decide), Nat.div_eq_of_lt hv, Nat.xor_zero]
  have hmod : (a * 2 ^ 5 ^^^ v) % 2 ^ 5 = v := by
    rw [Nat.xor_mod_two_pow, Nat.mul_mod_left, Nat.mod_eq_of_lt hv, Nat.zero_xor]
  omega

/-- Up to eight values stand in an empty register as they are. -/
lemma run_zero {values : List ℕ} (h : Fives values) (hlen : values.length ≤ 8) :
    register.run 0 values = value 32 values := by
  induction values using List.reverseRecOn with
  | nil => rfl
  | append_singleton values v ih =>
    rw [List.length_append, List.length_singleton] at hlen
    have hvalues : Fives values := fun w hw => h w (List.mem_append_left _ hw)
    have hv : v < 2 ^ 5 := h v (by simp)
    have hlt : value 32 values < 2 ^ 35 :=
      (value_lt (by decide) hvalues).trans_le
        (Nat.pow_le_pow_right (by decide) (by omega : values.length ≤ 7))
    rw [Register.run_append, ih hvalues (by omega), value_concat]
    show (value 32 values % 2 ^ 35 * 2 ^ 5 ^^^ feedback (value 32 values / 2 ^ 35)) ^^^ v = _
    have hfeedback : feedback 0 = 0 := rfl
    rw [Nat.mod_eq_of_lt hlt, Nat.div_eq_of_lt hlt, hfeedback, Nat.xor_zero]
    exact shift_xor hv

/-- The eight values behind others for which the checksum is zero. -/
lemma polymod_append_eq_zero {values check : List ℕ} (hvalues : Fives values) (hcheck : Fives check)
    (hlen : check.length = 8) : polymod (values ++ check) = 0 ↔
      check = digits 32 8 (polymod (values ++ List.replicate 8 0)) := by
  have hone : 1 < 2 ^ register.bits := by decide
  have hstart := Register.run_lt hone hvalues.fits
  have hsum : polymod (values ++ check) =
      polymod (values ++ List.replicate 8 0) ^^^ value 32 check := by
    have hxor := Register.run_xor hstart (Nat.two_pow_pos _) hcheck.fits
    rw [Nat.xor_zero, hlen, run_zero hcheck hlen.le] at hxor
    rw [polymod_eq, polymod_eq, Register.run_append, Register.run_append, hxor]
    ac_rfl
  have hzeros : Fives (List.replicate 8 0) := fun v hv => by
    rw [List.eq_of_mem_replicate hv]
    decide
  have hlt : polymod (values ++ List.replicate 8 0) < 32 ^ 8 := by
    rw [polymod_eq]
    exact Nat.xor_lt_two_pow (n := 40)
      (Register.run_lt hone (hvalues.append hzeros).fits) hone
  have hdigits : value 32 (digits 32 8 (polymod (values ++ List.replicate 8 0))) =
      polymod (values ++ List.replicate 8 0) := by
    rw [value_digits, Nat.mod_eq_of_lt hlt]
  rw [hsum, Nat.xor_eq_zero_iff]
  constructor
  · intro h
    refine value_inj (by decide) hcheck (fun d => lt_of_mem_digits (by decide)) ?_ ?_
    · rw [hlen, length_digits]
    · rw [← h, hdigits]
  · rintro h
    rw [← hdigits, ← h]

/-- One changed value is seen. -/
lemma polymod_ne_zero_of_ne {l m : List ℕ} {v w : ℕ} (hl : Fives (l ++ v :: m)) (hw : w < 32)
    (hne : v ≠ w) (h : polymod (l ++ v :: m) = 0) : polymod (l ++ w :: m) ≠ 0 := by
  intro h'
  rw [polymod_eq_zero] at h h'
  have hfl : Fives l := fun x hx => hl x (List.mem_append_left _ hx)
  have hfm : Fives m := fun x hx => hl x (by simp [hx])
  have hv : v < 32 := hl v (by simp)
  exact Register.run_ne_of_ne (c := 1) (by decide) hfl.fits hfm.fits (hv.trans (by decide))
    (hw.trans (by decide)) hne (h.trans h'.symm)

/-- A value less is seen. -/
lemma polymod_ne_zero_of_append {l : List ℕ} {v : ℕ} (hv : v < 32) (h : polymod (l ++ [v]) = 0) :
    polymod l ≠ 0 := by
  intro hl
  rw [polymod_eq_zero] at h hl
  rw [Register.run_append, hl] at h
  revert h hv
  revert v
  decide

end Pickaxe.Cashaddr
