/-
# The order of the generator

The order is prime, by certificates as for the modulus, and that many generators add up to infinity:
the kernel adds them, over numbers.  So a multiple of the generator is infinity only when the order
divides it.
-/
import Pickaxe.Engine.Point
import Pickaxe.Engine.Scalar
import Pickaxe.Lib.BigEndian
import Pickaxe.Lib.Sha256Eval
import Mathlib.GroupTheory.OrderOfElement

namespace Pickaxe.Engine

open Lib Point

/-! ## The order is prime -/

lemma order_first : Nat.Prime 107361793816595537 := by
  refine prime_of_factors 3 [2, 2, 2, 2, 16699, 85831, 4681609] ?_ (by norm_num)
    (by reduce_mod_char) ?_
  · simp only [List.mem_cons, List.not_mem_nil, or_false, forall_eq_or_imp, forall_eq]
    norm_num
  · simp only [List.mem_cons, List.not_mem_nil, or_false, forall_eq_or_imp, forall_eq]
    norm_num only
    reduce_mod_char
    decide +kernel

lemma order_second : Nat.Prime 174723607534414371449 := by
  refine prime_of_factors 3 [2, 2, 2, 17, 59, 4051, 120233, 44706919] ?_ (by norm_num)
    (by reduce_mod_char) ?_
  · simp only [List.mem_cons, List.not_mem_nil, or_false, forall_eq_or_imp, forall_eq]
    norm_num
  · simp only [List.mem_cons, List.not_mem_nil, or_false, forall_eq_or_imp, forall_eq]
    norm_num only
    reduce_mod_char
    decide +kernel

lemma order_third : Nat.Prime 297159362677 := by
  refine prime_of_large_dvd (q := 1627771) (r := 182556) 2 (by norm_num) (by norm_num)
    (by norm_num) (by norm_num) (by reduce_mod_char) ?_
  refine isUnit_iff_exists_inv.mpr ⟨44169280672, ?_⟩
  reduce_mod_char

lemma order_factor : Nat.Prime 545358713 := by
  refine prime_of_large_dvd (q := 28181) (r := 19352) 2 (by norm_num) (by norm_num) (by norm_num)
    (by norm_num) (by reduce_mod_char) ?_
  refine isUnit_iff_exists_inv.mpr ⟨160797069, ?_⟩
  reduce_mod_char

lemma order_fourth : Nat.Prime 29047611873442575647497758179 := by
  refine prime_of_factors 2 [2, 293, 305873, 545358713, 297159362677] ?_ (by norm_num)
    (by reduce_mod_char) ?_
  · simp only [List.mem_cons, List.not_mem_nil, or_false, forall_eq_or_imp, forall_eq]
    exact ⟨Nat.prime_two, by norm_num, by norm_num, order_factor, order_third⟩
  · simp only [List.mem_cons, List.not_mem_nil, or_false, forall_eq_or_imp, forall_eq]
    norm_num only
    reduce_mod_char
    decide +kernel

lemma order_fifth : Nat.Prime 341948486974166000522343609283189 := by
  refine prime_of_large_dvd (r := 11772) 2 (by norm_num) order_fourth (by norm_num) (by norm_num)
    (by reduce_mod_char) ?_
  refine isUnit_iff_exists_inv.mpr ⟨230912421032721991545077801069578, ?_⟩
  reduce_mod_char

lemma order_prime : order.Prime := by
  have horder : order =
      115792089237316195423570985008687907852837564279074904382605163141518161494337 := rfl
  rw [horder]
  refine prime_of_factors 7 [2, 2, 2, 2, 2, 2, 3, 149, 631, 107361793816595537,
    174723607534414371449, 341948486974166000522343609283189] ?_ (by norm_num)
    (by reduce_mod_char) ?_
  · simp only [List.mem_cons, List.not_mem_nil, or_false, forall_eq_or_imp, forall_eq]
    exact ⟨Nat.prime_two, Nat.prime_two, Nat.prime_two, Nat.prime_two, Nat.prime_two, Nat.prime_two,
      Nat.prime_three, by norm_num, by norm_num, order_first, order_second, order_fifth⟩
  · simp only [List.mem_cons, List.not_mem_nil, or_false, forall_eq_or_imp, forall_eq]
    norm_num only
    reduce_mod_char
    decide +kernel

/-! ## So many generators -/

namespace Ladder

open Sha256.Eval (force)

/-- Twice a triple, for the kernel: each coordinate is evaluated before it is used. -/
def double {α : Type} (next : ℕ → ℕ → ℕ → α) (x y z : ℕ) : α :=
  force (y * y % prime) fun yy =>
  force (4 * x * yy % prime) fun s =>
  force (3 * x * x % prime) fun m =>
  force ((m * m + 2 * (prime - s)) % prime) fun x' =>
  force ((m * (s + (prime - x')) + 8 * yy * (prime - yy)) % prime) fun y' =>
  force (2 * y * z % prime) fun z' => next x' y' z'

/-- The sum of a triple and an affine point, unless one is infinity or they are the same. -/
def add (u v : ℕ) (next : ℕ → ℕ → ℕ → Option ℕ) (x y z : ℕ) : Option ℕ :=
  force (z * z % prime) fun zz =>
  force ((u * zz + (prime - x)) % prime) fun h =>
  force ((v * zz * z + (prime - y)) % prime) fun r =>
  if z = 0 ∨ r = 0 then none else
  force (h * h % prime) fun hh =>
  force (x * hh % prime) fun w =>
  force ((r * r + hh * (prime - h) + 2 * (prime - w)) % prime) fun x' =>
  force ((r * (w + (prime - x')) + y * hh * (prime - h)) % prime) fun y' =>
  force (z * h % prime) fun z' => next x' y' z'

/-- The last coordinate of a multiple, by the bits that follow the first in its number. -/
def run (u v : ℕ) : List Bool → ℕ → ℕ → ℕ → Option ℕ
  | [], _, _, z => some z
  | false :: bits, x, y, z => double (run u v bits) x y z
  | true :: bits, x, y, z => double (add u v (run u v bits)) x y z

/-- Numbers stand for the coordinates of a triple. -/
structure Reads (x y z : ℕ) (j : Jacobian (ZMod prime)) : Prop where
  x_lt : x < prime
  y_lt : y < prime
  z_lt : z < prime
  x : (x : ZMod prime) = j.x
  y : (y : ZMod prime) = j.y
  z : (z : ZMod prime) = j.z

lemma mod_prime_lt (a : ℕ) : a % prime < prime := Nat.mod_lt _ prime_prime.pos

lemma cast_prime_sub {a : ℕ} (h : a < prime) : ((prime - a : ℕ) : ZMod prime) = -a := by
  rw [Nat.cast_sub h.le, ZMod.natCast_self, zero_sub]

variable {x y z u v : ℕ} {j : Jacobian (ZMod prime)}

lemma Reads.double {α : Type} (h : Reads x y z j) (next : ℕ → ℕ → ℕ → α) :
    ∃ x' y' z', double next x y z = next x' y' z' ∧ Reads x' y' z' j.doubled := by
  simp only [Ladder.double, Sha256.Eval.force_eq]
  refine ⟨_, _, _, rfl, mod_prime_lt _, mod_prime_lt _, mod_prime_lt _, ?_, ?_, ?_⟩
  all_goals
    simp only [Nat.cast_add, Nat.cast_mul, ZMod.natCast_mod, cast_prime_sub (mod_prime_lt _), h.x,
      h.y, h.z, Jacobian.doubled]
    push_cast
    ring

lemma Reads.add (h : Reads x y z j) (next : ℕ → ℕ → ℕ → Option ℕ) :
    add u v next x y z = none ∨ j.z ≠ 0 ∧ v * j.z ^ 3 - j.y ≠ 0 ∧
      ∃ x' y' z', add u v next x y z = next x' y' z' ∧ Reads x' y' z' (j.added u v) := by
  simp only [Ladder.add, Sha256.Eval.force_eq]
  by_cases hskip : z = 0 ∨ (v * (z * z % prime) * z + (prime - y)) % prime = 0
  · rw [if_pos hskip]
    exact .inl rfl
  rw [if_neg hskip]
  rw [not_or] at hskip
  refine .inr ⟨?_, ?_, _, _, _, rfl, mod_prime_lt _, mod_prime_lt _, mod_prime_lt _, ?_, ?_, ?_⟩
  · rw [← h.z, ne_eq, ZMod.natCast_eq_zero_iff]
    exact Nat.not_dvd_of_pos_of_lt (Nat.pos_of_ne_zero hskip.1) h.z_lt
  · intro hr
    refine hskip.2 (Nat.mod_eq_zero_of_dvd ((ZMod.natCast_eq_zero_iff _ _).mp ?_))
    rw [Nat.cast_add, Nat.cast_mul, Nat.cast_mul, ZMod.natCast_mod, Nat.cast_mul,
      cast_prime_sub h.y_lt, h.y, h.z, ← hr]
    ring
  all_goals
    simp only [Nat.cast_add, Nat.cast_mul, ZMod.natCast_mod, cast_prime_sub (mod_prime_lt _),
      cast_prime_sub h.x_lt, cast_prime_sub h.y_lt, h.x, h.y, h.z, Jacobian.added]
    push_cast
    ring

/-- A run that ends at infinity adds so many points up to it. -/
lemma run_eq_zero {b : curve.Point} {hns} (hb : b = .some u v hns) {bits : List Bool} {n : ℕ}
    (h : Reads x y z j) (hstands : j.Stands (n • b)) (hrun : run u v bits x y z = some 0) :
    bits.foldl (fun n bit => 2 * n + bit.toNat) n • b = 0 := by
  induction bits generalizing x y z j n with
  | nil =>
    rw [run, Option.some.injEq] at hrun
    refine (Jacobian.stands_of_z_eq_zero ?_).mp hstands
    rw [← h.z, hrun, Nat.cast_zero]
  | cons bit bits ih =>
    rw [List.foldl_cons]
    cases bit with
    | false =>
      rw [run] at hrun
      obtain ⟨x', y', z', hnext, h'⟩ := h.double (run u v bits)
      rw [hnext] at hrun
      have hstands' := hstands.doubled two_ne_zero_prime
      rw [← two_nsmul, smul_smul] at hstands'
      exact ih h' hstands' hrun
    | true =>
      rw [run] at hrun
      obtain ⟨x', y', z', hnext, h'⟩ := h.double (add u v (run u v bits))
      rw [hnext] at hrun
      rcases h'.add (run u v bits) with hnone | ⟨hz, hy, x'', y'', z'', hnext', h''⟩
      · rw [hnone] at hrun
        exact absurd hrun.symm (Option.some_ne_none 0)
      · rw [hnext'] at hrun
        have hstands' := (hstands.doubled two_ne_zero_prime).added two_ne_zero_prime hns hz hy
        rw [← hb, ← two_nsmul, smul_smul, ← succ_nsmul] at hstands'
        exact ih h'' hstands' hrun

end Ladder

lemma run_order : Ladder.run Point.generator.x.value Point.generator.y.value
    ((List.range 255).reverse.map order.testBit) Point.generator.x.value Point.generator.y.value 1 =
      some 0 := by
  decide +kernel

lemma order_nsmul : order • G = 0 := by
  have hbits : ((List.range 255).reverse.map order.testBit).foldl
      (fun n bit => 2 * n + bit.toNat) 1 = order := by decide +kernel
  rw [← hbits]
  refine Ladder.run_eq_zero rfl (j := ⟨generator.x.residue, generator.y.residue, 1⟩) ?_ ?_ run_order
  · exact ⟨generator_x, generator_y, prime_prime.one_lt, rfl, rfl, Nat.cast_one⟩
  · rw [one_nsmul]
    refine Jacobian.stands_some one_ne_zero _ ?_ ?_
    · rw [one_pow, mul_one]
      rfl
    · rw [one_pow, mul_one]
      rfl

lemma G_ne_zero : G ≠ 0 := WeierstrassCurve.Affine.Point.some_ne_zero _

lemma addOrderOf_G : addOrderOf G = order :=
  have := Fact.mk order_prime
  addOrderOf_eq_prime order_nsmul G_ne_zero

/-- A multiple of the generator is infinity only for multiples of the order. -/
lemma nsmul_G_eq_zero_iff {n : ℕ} : n • G = 0 ↔ order ∣ n := by
  rw [← addOrderOf_G, addOrderOf_dvd_iff_nsmul_eq_zero]

lemma nsmul_G_mod (n : ℕ) : (n % order) • G = n • G := by
  rw [← addOrderOf_G, mod_addOrderOf_nsmul]

/-- `generator_mul` and `affine`: no coordinates for the multiples of the order, and else those of the
multiple of the generator. -/
theorem generatorMul_affine (scalar : ByteVec 32) :
    ((generatorMul scalar).affine = none ↔ order ∣ fromBe scalar.bytes) ∧
      ∀ x y, (generatorMul scalar).affine = some (x, y) →
        Coordinates x y (fromBe scalar.bytes • G) := by
  rw [← nsmul_G_eq_zero_iff]
  rcases (represents_generatorMul scalar).affine with ⟨hnone, hzero⟩ | ⟨x, y, hsome, hxy⟩
  · rw [hnone]
    exact ⟨iff_of_true rfl hzero, fun x y h => absurd h.symm (Option.some_ne_none _)⟩
  · rw [hsome]
    refine ⟨iff_of_false (Option.some_ne_none _) hxy.ne_zero, fun x' y' h => ?_⟩
    rw [Option.some.injEq, Prod.mk.injEq] at h
    rw [← h.1, ← h.2]
    exact hxy

end Pickaxe.Engine
