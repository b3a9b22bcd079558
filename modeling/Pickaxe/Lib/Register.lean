/-
# Shift registers

A checksum by a register of some bits: in each turn the register steps and a value is added without
carries.  Where the step is linear and loses nothing, states stay apart, so that one changed value
is always seen, and what a register ends with is the sum of what its start and the values leave.
-/
import Mathlib.Data.Nat.Bitwise

namespace Pickaxe.Lib

/-- A register whose step is linear and injective on its states. -/
structure Register where
  bits : ℕ
  next : ℕ → ℕ
  next_lt : ∀ {c}, c < 2 ^ bits → next c < 2 ^ bits
  next_xor : ∀ {c d}, c < 2 ^ bits → d < 2 ^ bits → next (c ^^^ d) = next c ^^^ next d
  next_eq_zero : ∀ {c}, c < 2 ^ bits → next c = 0 → c = 0

namespace Register

variable (r : Register)

/-- A turn. -/
def step (c v : ℕ) : ℕ := r.next c ^^^ v

/-- The turns of a list of values. -/
def run (c : ℕ) (values : List ℕ) : ℕ := values.foldl r.step c

/-- Values that fit into the register. -/
def Fits (values : List ℕ) : Prop := ∀ v ∈ values, v < 2 ^ r.bits

variable {r} {c d v w : ℕ} {values : List ℕ}

@[simp] lemma run_nil : r.run c [] = c := rfl

@[simp] lemma run_cons : r.run c (v :: values) = r.run (r.step c v) values := rfl

@[simp] lemma run_append {l m : List ℕ} : r.run c (l ++ m) = r.run (r.run c l) m :=
  List.foldl_append

lemma step_lt (hc : c < 2 ^ r.bits) (hv : v < 2 ^ r.bits) : r.step c v < 2 ^ r.bits :=
  Nat.xor_lt_two_pow (r.next_lt hc) hv

lemma run_lt (hc : c < 2 ^ r.bits) (h : r.Fits values) : r.run c values < 2 ^ r.bits := by
  induction values generalizing c with
  | nil => exact hc
  | cons v values ih =>
    exact ih (step_lt hc (h v List.mem_cons_self)) fun w hw => h w (List.mem_cons_of_mem v hw)

lemma step_injective (hc : c < 2 ^ r.bits) (hd : d < 2 ^ r.bits) (h : r.step c v = r.step d v) :
    c = d := by
  have hnext : r.next c = r.next d := Nat.xor_right_injective (by
    simpa only [step, Nat.xor_comm] using h)
  have hzero := r.next_eq_zero (Nat.xor_lt_two_pow hc hd)
    (by rw [r.next_xor hc hd, hnext, Nat.xor_self])
  exact Nat.xor_eq_zero_iff.mp hzero

/-- Two states stay apart. -/
lemma run_injective (hc : c < 2 ^ r.bits) (hd : d < 2 ^ r.bits) (h : r.Fits values)
    (heq : r.run c values = r.run d values) : c = d := by
  induction values generalizing c d with
  | nil => exact heq
  | cons v values ih =>
    have hv := h v List.mem_cons_self
    exact step_injective hc hd
      (ih (step_lt hc hv) (step_lt hd hv) (fun w hw => h w (List.mem_cons_of_mem v hw)) heq)

/-- One changed value changes the end. -/
lemma run_ne_of_ne {l m : List ℕ} (hc : c < 2 ^ r.bits) (hl : r.Fits l) (hm : r.Fits m)
    (hv : v < 2 ^ r.bits) (hw : w < 2 ^ r.bits) (hne : v ≠ w) :
    r.run c (l ++ v :: m) ≠ r.run c (l ++ w :: m) := by
  intro h
  rw [run_append, run_append, run_cons, run_cons] at h
  have hstart := run_lt hc hl
  have hsame := run_injective (step_lt hstart hv) (step_lt hstart hw) hm h
  exact hne (Nat.xor_right_injective hsame)

/-- What a run ends with is the sum of what the start leaves and of what the values leave. -/
lemma run_xor (hc : c < 2 ^ r.bits) (hd : d < 2 ^ r.bits) (h : r.Fits values) :
    r.run (c ^^^ d) values = r.run c (List.replicate values.length 0) ^^^ r.run d values := by
  induction values generalizing c d with
  | nil => rfl
  | cons v values ih =>
    have hv := h v List.mem_cons_self
    have hzero : r.step c 0 < 2 ^ r.bits := step_lt hc (Nat.two_pow_pos _)
    have hsplit : r.step (c ^^^ d) v = r.step c 0 ^^^ r.step d v := by
      rw [step, step, step, r.next_xor hc hd, Nat.xor_zero, Nat.xor_assoc]
    rw [List.length_cons, List.replicate_succ, run_cons, run_cons, run_cons, hsplit,
      ih hzero (step_lt hd hv) fun w hw => h w (List.mem_cons_of_mem v hw)]

end Register

end Pickaxe.Lib
