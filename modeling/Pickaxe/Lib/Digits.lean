/-
# Digits and their regrouping

The number that a list of digits stands for, the most significant digit first, and the change from
digits of `a` bits to digits of `b` bits through an accumulator: each digit is shifted into it, and
digits leave it while it holds enough bits.  `Regrouped` is what the accumulator keeps.
-/
import Mathlib.Data.List.Induction
import Mathlib.Data.Nat.Digits.Defs
import Mathlib.Tactic.Positivity
import Mathlib.Tactic.Ring

namespace Pickaxe.Lib.Digits

/-- The number that digits to a base stand for. -/
def value (b : ℕ) (digits : List ℕ) : ℕ := digits.foldl (fun v d => v * b + d) 0

/-- The last `k` digits of a number. -/
def digits (b : ℕ) : ℕ → ℕ → List ℕ
  | 0, _ => []
  | k + 1, n => digits b k (n / b) ++ [n % b]

variable {b : ℕ} {l m : List ℕ} {d n k : ℕ}

@[simp] lemma value_nil : value b [] = 0 := rfl

@[simp] lemma value_concat : value b (l ++ [d]) = value b l * b + d := by
  rw [value, List.foldl_concat, value]

@[simp] lemma length_digits : (digits b k n).length = k := by
  induction k generalizing n with
  | zero => rfl
  | succ k ih => rw [digits, List.length_append, ih, List.length_singleton]

lemma lt_of_mem_digits (hb : 0 < b) (h : d ∈ digits b k n) : d < b := by
  induction k generalizing n with
  | zero => cases h
  | succ k ih =>
    rcases List.mem_append.mp h with h | h
    · exact ih h
    · rw [List.mem_singleton.mp h]
      exact Nat.mod_lt _ hb

lemma value_digits : value b (digits b k n) = n % b ^ k := by
  induction k generalizing n with
  | zero => rw [pow_zero, Nat.mod_one, digits, value_nil]
  | succ k ih =>
    rw [digits, value_concat, ih, pow_succ', Nat.mod_mul, mul_comm, add_comm]

lemma value_eq_ofDigits (l : List ℕ) : value b l = Nat.ofDigits b l.reverse := by
  induction l using List.reverseRecOn with
  | nil => rfl
  | append_singleton l d ih =>
    rw [value_concat, ih, List.reverse_concat, Nat.ofDigits_cons, add_comm, mul_comm]

lemma value_lt (hb : 1 < b) (h : ∀ d ∈ l, d < b) : value b l < b ^ l.length := by
  rw [value_eq_ofDigits, ← List.length_reverse]
  exact Nat.ofDigits_lt_base_pow_length hb fun d hd => h d (List.mem_reverse.mp hd)

/-- Digits of one length are the same where their numbers are. -/
lemma value_inj (hb : 1 < b) (hl : ∀ d ∈ l, d < b) (hm : ∀ d ∈ m, d < b)
    (hlen : l.length = m.length) (h : value b l = value b m) : l = m := by
  rw [value_eq_ofDigits, value_eq_ofDigits] at h
  exact List.reverse_injective (Nat.ofDigits_inj_of_len_eq hb (by simpa using hlen)
    (fun d hd => hl d (List.mem_reverse.mp hd)) (fun d hd => hm d (List.mem_reverse.mp hd)) h)

/-! ## Regrouping -/

/-- Digits of `a` bits went into an accumulator and digits of `b` bits came out; the rest are its
last bits. -/
structure Regrouped (a b : ℕ) (ins outs : List ℕ) (acc bits : ℕ) : Prop where
  length : a * ins.length = b * outs.length + bits
  value : value (2 ^ a) ins = value (2 ^ b) outs * 2 ^ bits + acc % 2 ^ bits
  lt : ∀ d ∈ outs, d < 2 ^ b

namespace Regrouped

variable {a acc bits : ℕ} {ins outs outs' : List ℕ}

lemma nil (a b : ℕ) : Regrouped a b [] [] 0 0 := ⟨rfl, rfl, nofun⟩

/-- A digit is shifted in; the accumulator keeps the bits that matter. -/
lemma shift (h : Regrouped a b ins outs acc bits) (hd : d < 2 ^ a) (hk : bits + a ≤ k) :
    Regrouped a b (ins ++ [d]) outs ((acc * 2 ^ a + d) % 2 ^ k) (bits + a) where
  length := by
    rw [List.length_append, List.length_singleton, mul_add, h.length]
    omega
  value := by
    have hmod : (acc * 2 ^ a + d) % 2 ^ k % 2 ^ (bits + a) = acc % 2 ^ bits * 2 ^ a + d := by
      rw [Nat.mod_mod_of_dvd _ (Nat.pow_dvd_pow 2 hk), pow_add, mul_comm (2 ^ bits), Nat.mod_mul,
        Nat.mul_add_mod_of_lt hd, mul_comm acc, Nat.mul_add_div (by positivity),
        Nat.div_eq_of_lt hd, add_zero]
      ring
    rw [value_concat, h.value, hmod]
    ring
  lt := h.lt

/-- A digit leaves where there are enough bits. -/
lemma emit (h : Regrouped a b ins outs acc bits) (hb : b ≤ bits) :
    Regrouped a b ins (outs ++ [acc / 2 ^ (bits - b) % 2 ^ b]) acc (bits - b) where
  length := by
    rw [List.length_append, List.length_singleton, mul_add, h.length]
    omega
  value := by
    have hbits : 2 ^ bits = 2 ^ (bits - b) * 2 ^ b := by
      rw [← pow_add]
      congr 1
      omega
    rw [value_concat, h.value, hbits, Nat.mod_mul]
    ring
  lt d hd := by
    rcases List.mem_append.mp hd with hd | hd
    · exact h.lt d hd
    · rw [List.mem_singleton.mp hd]
      exact Nat.mod_lt _ (by positivity)

/-- The rest goes into one more digit, with zeros behind it. -/
lemma pad (h : Regrouped a b ins outs acc bits) (hb : bits < b) :
    b * (outs ++ [acc * 2 ^ (b - bits) % 2 ^ b]).length = a * ins.length + (b - bits) ∧
      Digits.value (2 ^ b) (outs ++ [acc * 2 ^ (b - bits) % 2 ^ b]) =
        Digits.value (2 ^ a) ins * 2 ^ (b - bits) := by
  have hpow : 2 ^ b = 2 ^ bits * 2 ^ (b - bits) := by
    rw [← pow_add]
    congr 1
    omega
  constructor
  · rw [List.length_append, List.length_singleton, mul_add, h.length]
    omega
  · rw [value_concat, h.value, hpow, Nat.mul_mod_mul_right]
    ring

/-- Where the rest is zero, both lists of digits stand for one number. -/
lemma value_of_rest (h : Regrouped a b ins outs acc bits) (hrest : acc % 2 ^ bits = 0) :
    Digits.value (2 ^ a) ins = Digits.value (2 ^ b) outs * 2 ^ bits := by
  rw [h.value, hrest, add_zero]

/-- Digits with zeros behind them are regrouped with the zeros as the rest. -/
lemma eq_of_value (h : Regrouped a b ins outs acc bits) {p : ℕ} (hp : p < b) (hbits : bits < b)
    (hlen : a * ins.length = b * outs'.length + p) (hlt : ∀ d ∈ outs', d < 2 ^ b)
    (hvalue : Digits.value (2 ^ a) ins = Digits.value (2 ^ b) outs' * 2 ^ p) :
    outs = outs' ∧ bits = p ∧ acc % 2 ^ bits = 0 := by
  have hlength := h.length
  rw [hlen] at hlength
  have hmod := congrArg (· % b) hlength
  simp only [Nat.mul_add_mod, Nat.mod_eq_of_lt hp, Nat.mod_eq_of_lt hbits] at hmod
  subst hmod
  have hsame : outs.length = outs'.length :=
    Nat.eq_of_mul_eq_mul_left (by omega) (Nat.add_right_cancel hlength).symm
  have heq := h.value
  rw [hvalue] at heq
  have hdiv := congrArg (· / 2 ^ p) heq
  have hrest := congrArg (· % 2 ^ p) heq
  have hpos : 0 < 2 ^ p := by positivity
  simp only [mul_comm _ (2 ^ p), Nat.mul_add_div hpos, Nat.mul_div_cancel_left _ hpos,
    Nat.div_eq_of_lt (Nat.mod_lt acc hpos), add_zero] at hdiv
  simp only [mul_comm _ (2 ^ p), Nat.mul_mod_right, Nat.mul_add_mod, Nat.mod_mod] at hrest
  have hbase : 1 < 2 ^ b := Nat.one_lt_two_pow (by omega)
  exact ⟨value_inj hbase h.lt hlt hsame hdiv.symm, rfl, hrest.symm⟩

end Regrouped

end Pickaxe.Lib.Digits
