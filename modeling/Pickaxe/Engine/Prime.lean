/-
# The field

The modulus is prime, by a chain of certificates, each for a prime factor of the next one's
predecessor.  Field elements stand for residues, and the operations on them for those of the field.
-/
import Pickaxe.Engine.Exact
import Pickaxe.Lib.Primality
import Mathlib.Tactic.ReduceModChar

namespace Pickaxe.Engine

open Lib

lemma prime_first : Nat.Prime 255515944373312847190720520512484175977 := by
  refine prime_of_factors 3 [2, 2, 2, 7, 7, 11, 1627, 2657, 4423, 41201, 96557, 7240687, 107590001]
    ?_ (by norm_num) (by reduce_mod_char) ?_
  · simp only [List.mem_cons, List.not_mem_nil, or_false, forall_eq_or_imp, forall_eq]
    norm_num
  · simp only [List.mem_cons, List.not_mem_nil, or_false, forall_eq_or_imp, forall_eq]
    norm_num only
    reduce_mod_char
    decide +kernel

lemma prime_second :
    Nat.Prime 205115282021455665897114700593932402728804164701536103180137503955397371 := by
  refine prime_of_large_dvd (r := 802749442992798076634733441528810) 2 (by norm_num) prime_first
    (by norm_num) (by norm_num) (by reduce_mod_char) ?_
  refine isUnit_iff_exists_inv.mpr
    ⟨81475874003799270243122483189086420723726815346591292526890606927317739, ?_⟩
  reduce_mod_char

lemma prime_prime : prime.Prime := by
  have hprime : prime = 115792089237316195423570985008687907853269984665640564039457584007908834671663 :=
    by norm_num [prime]
  rw [hprime]
  refine prime_of_large_dvd (r := 564522) 2 (by norm_num) prime_second
    (by norm_num) (by norm_num) (by reduce_mod_char) ?_
  refine isUnit_iff_exists_inv.mpr
    ⟨38738227534097492269493948901333532538630784921480042032654553727346127695815, ?_⟩
  reduce_mod_char

instance : Fact prime.Prime := ⟨prime_prime⟩

namespace Field

/-- The residue that a field element stands for. -/
def residue (self : Field) : ZMod prime := self.value

@[simp] lemma residue_ofNat (v : ℕ) : (ofNat v).residue = v := by
  rw [residue, value_ofNat, ZMod.natCast_mod]

lemma canonical_zero : zero.Canonical := by decide +kernel

lemma canonical_one : one.Canonical := by decide +kernel

lemma residue_zero : zero.residue = 0 := Nat.cast_zero

lemma residue_one : one.residue = 1 := by
  rw [residue, show one.value = 1 by decide +kernel, Nat.cast_one]

variable {a b : Field}

/-- Canonical field elements with the same residue are the same. -/
lemma eq_of_residue_eq (ha : a.Canonical) (hb : b.Canonical) (h : a.residue = b.residue) :
    a = b := by
  rw [residue, residue, ZMod.natCast_eq_natCast_iff] at h
  exact value_injective (h.eq_of_lt_of_lt ha hb)

lemma residue_eq_zero (ha : a.Canonical) : a.residue = 0 ↔ a = zero := by
  rw [← residue_zero]
  exact ⟨eq_of_residue_eq ha canonical_zero, congrArg residue⟩

@[simp] lemma residue_mulMod (a b : Field) : (a.mulMod b).residue = a.residue * b.residue := by
  rw [mulMod_eq, residue_ofNat, Nat.cast_mul, residue, residue]

@[simp] lemma residue_square (a : Field) : a.square.residue = a.residue * a.residue := by
  rw [square_eq, residue_ofNat, Nat.cast_mul, residue]

lemma canonical_mulMod (a b : Field) : (a.mulMod b).Canonical := by
  rw [mulMod_eq]
  exact canonical_ofNat _

lemma canonical_square (a : Field) : a.square.Canonical := by
  rw [square_eq]
  exact canonical_ofNat _

lemma canonical_addMod (ha : a.Canonical) (hb : b.Canonical) : (a.addMod b).Canonical := by
  rw [addMod_eq ha hb]
  exact canonical_ofNat _

lemma canonical_subMod (ha : a.Canonical) (hb : b.Canonical) : (a.subMod b).Canonical := by
  rw [subMod_eq ha hb]
  exact canonical_ofNat _

lemma residue_addMod (ha : a.Canonical) (hb : b.Canonical) :
    (a.addMod b).residue = a.residue + b.residue := by
  rw [addMod_eq ha hb, residue_ofNat, Nat.cast_add, residue, residue]

lemma residue_subMod (ha : a.Canonical) (hb : b.Canonical) :
    (a.subMod b).residue = a.residue - b.residue := by
  have hle : b.value ≤ prime := le_of_lt hb
  rw [subMod_eq ha hb, residue_ofNat, Nat.cast_add, Nat.cast_sub hle, ZMod.natCast_self, zero_sub,
    ← sub_eq_add_neg, residue, residue]

lemma residue_half (ha : a.Canonical) : 2 * a.half.residue = a.residue := by
  have h := congrArg (Nat.cast (R := ZMod prime)) (half_spec ha).2
  rw [ZMod.natCast_mod, Nat.cast_mul] at h
  exact h

lemma canonical_half (ha : a.Canonical) : a.half.Canonical := (half_spec ha).1

end Field

end Pickaxe.Engine
