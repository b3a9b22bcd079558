/-
# The device's target

What `settle` makes of the wanted target, the block's, the tokens' and the device's maximum, as
256-bit numbers.  The byte-wise product is the exact one, at most the easiest target
(`fromLe_times`); the rest are minima and maxima, and the order in which the source takes them
does not matter since the plain target is never above the maximum (`settle_spec`).
-/
import Mathlib.Tactic.LinearCombination
import Mathlib.Tactic.NormNum
import Pickaxe.Channel.Basic

namespace Pickaxe

open Lib

/-! ## The product -/

/-- One byte of `times`: its digit and its carry are the exact sum, and the next carry is again below
a byte. -/
lemma timesStep_spec (factor byte : UInt8) (out : Bytes) {carry : UInt16} (h : carry.toNat < 256) :
    ∃ (digit : UInt8) (next : UInt16), timesStep factor (out, carry) byte = (out ++ [digit], next) ∧
      next.toNat < 256 ∧
      digit.toNat + 256 * next.toNat = factor.toNat * byte.toNat + carry.toNat := by
  have hfactor := factor.toNat_lt
  have hbyte := byte.toNat_lt
  have hproduct : byte.toNat * factor.toNat ≤ 255 * 255 := Nat.mul_le_mul (by omega) (by omega)
  have hvalue : (byte.toUInt16 * factor.toUInt16 + carry).toNat =
      byte.toNat * factor.toNat + carry.toNat := by
    rw [UInt16.toNat_add, UInt16.toNat_mul, UInt8.toNat_toUInt16, UInt8.toNat_toUInt16]
    omega
  refine ⟨_, _, rfl, ?_, ?_⟩
  · rw [UInt16.toNat_shiftRight, hvalue, Nat.shiftRight_eq_div_pow]
    change (byte.toNat * factor.toNat + carry.toNat) / 256 < 256
    omega
  · rw [UInt16.toNat_toUInt8, UInt16.toNat_shiftRight, hvalue, Nat.shiftRight_eq_div_pow,
      mul_comm factor.toNat]
    change (byte.toNat * factor.toNat + carry.toNat) % 256 +
      256 * ((byte.toNat * factor.toNat + carry.toNat) / 256) = _
    exact Nat.mod_add_div _ _

/-- The product's bytes and the last carry. -/
lemma foldl_timesStep (factor : UInt8) (bytes out : Bytes) {carry : UInt16}
    (h : carry.toNat < 256) :
    ∃ (digits : Bytes) (last : UInt16),
      bytes.foldl (timesStep factor) (out, carry) = (out ++ digits, last) ∧
      digits.length = bytes.length ∧
      fromLe digits + 256 ^ bytes.length * last.toNat =
        factor.toNat * fromLe bytes + carry.toNat := by
  induction bytes generalizing out carry with
  | nil => exact ⟨[], carry, by simp, rfl, by simp⟩
  | cons byte bytes ih =>
    obtain ⟨digit, next, hstep, hnext, hsum⟩ := timesStep_spec factor byte out h
    obtain ⟨digits, last, hfold, hlength, hrest⟩ := ih (out ++ [digit]) hnext
    refine ⟨digit :: digits, last, ?_, by rw [List.length_cons, hlength, List.length_cons], ?_⟩
    · rw [List.foldl_cons, hstep, hfold, List.append_assoc]
      rfl
    · rw [fromLe_cons, fromLe_cons, List.length_cons, pow_succ]
      linear_combination hsum + 256 * hrest

/-- `times` is the product, at most the easiest target. -/
lemma fromLe_times (target : Hash) (factor : UInt8) :
    fromLe (times target factor).bytes = min (factor.toNat * fromLe target.bytes) (2 ^ 256 - 1) := by
  obtain ⟨digits, last, hfold, hlength, hsum⟩ :=
    foldl_timesStep factor target.bytes [] (show (0 : UInt16).toNat < 256 by decide)
  have hbytes : target.bytes.length = 32 := target.length_eq
  have hdigits := fromLe_lt digits
  rw [hlength, hbytes] at hdigits
  rw [hbytes, UInt16.toNat_zero, Nat.add_zero] at hsum
  have hpow : (256 : ℕ) ^ 32 = 2 ^ 256 := by norm_num
  rw [hpow] at hdigits hsum
  unfold times
  simp only [hfold, List.nil_append]
  split_ifs with hlast
  · rw [hlast, UInt16.toNat_zero, Nat.mul_zero, Nat.add_zero] at hsum
    change fromLe digits = _
    rw [← hsum]
    omega
  · have hpos : 1 ≤ last.toNat := by
      rw [Nat.one_le_iff_ne_zero]
      exact fun hzero => hlast (UInt16.toNat_inj.mp hzero)
    have hmul := Nat.mul_le_mul_left (2 ^ 256) hpos
    have hmax : fromLe (List.replicate 32 0xff) = 2 ^ 256 - 1 := by decide +kernel
    change fromLe (List.replicate 32 0xff) = _
    rw [hmax]
    omega

/-- `token_floor` is the easiest token target, but at most 15 times the plain one. -/
lemma fromLe_tokenFloor (vardiff easiest : Hash) :
    fromLe (tokenFloor vardiff easiest).bytes =
      min (fromLe easiest.bytes) (min (15 * fromLe vardiff.bytes) (2 ^ 256 - 1)) := by
  have hcap := fromLe_times vardiff tokenFloorCap
  have hfifteen : tokenFloorCap.toNat = 15 := rfl
  rw [hfifteen] at hcap
  unfold tokenFloor
  simp only [meetsTarget_iff, hcap]
  split_ifs with h
  · exact (min_eq_left h).symm
  · rw [hcap]
    exact (min_eq_right (not_le.mp h).le).symm

namespace Channel

variable (c : Channel) (block maximum : Hash)

lemma fromLe_plainTarget : fromLe (c.plainTarget block maximum).bytes =
    min (max (fromLe c.desired.bytes) (fromLe block.bytes)) (fromLe maximum.bytes) := by
  unfold plainTarget
  simp only [meetsTarget_iff]
  split_ifs <;> omega

lemma fromLe_flooredTarget {target maximum : Hash} (h : fromLe target.bytes ≤ fromLe maximum.bytes)
    (easiest : Hash) : fromLe (flooredTarget target maximum (some easiest)).bytes =
      min (fromLe maximum.bytes) (max (fromLe target.bytes)
        (min (fromLe easiest.bytes) (min (15 * fromLe target.bytes) (2 ^ 256 - 1)))) := by
  have hfloor := fromLe_tokenFloor target easiest
  unfold flooredTarget
  simp only [meetsTarget_iff]
  rw [← hfloor]
  split_ifs <;> omega

/-- The target a device mines at, in numbers: the wanted one or the block's, whichever is easier, and
with tokens their easiest up to fifteen times that, but never above the device's maximum.
Settling again changes nothing, and a hash that finds a block reaches the server. -/
theorem settle_spec (tokens : Option Hash) :
    let b := min (max (fromLe c.desired.bytes) (fromLe block.bytes)) (fromLe maximum.bytes)
    let settled := c.settle block tokens maximum
    fromLe settled.2.vardiffTarget.bytes = b ∧
      fromLe settled.2.target.bytes = (match tokens with
        | none => b
        | some easiest => min (fromLe maximum.bytes)
          (max b (min (fromLe easiest.bytes) (min (15 * b) (2 ^ 256 - 1))))) ∧
      (settled.1 = true ↔ settled.2.target ≠ c.target) ∧
      settled.2.settle block tokens maximum = (false, settled.2) ∧
      (fromLe block.bytes ≤ fromLe maximum.bytes → ∀ hash, meetsTarget hash block = true →
        meetsTarget hash settled.2.target = true) := by
  intro b settled
  have hb : fromLe settled.2.vardiffTarget.bytes = b := c.fromLe_plainTarget block maximum
  have htarget : fromLe settled.2.target.bytes = (match tokens with
      | none => b
      | some easiest => min (fromLe maximum.bytes)
        (max b (min (fromLe easiest.bytes) (min (15 * b) (2 ^ 256 - 1))))) := by
    cases tokens with
    | none => exact hb
    | some easiest =>
      rw [← hb]
      exact fromLe_flooredTarget (hb.trans_le (min_le_right _ _)) easiest
  refine ⟨hb, htarget, ?_, ?_, fun hle hash hmeets => ?_⟩
  · change (flooredTarget _ maximum tokens != c.target) = true ↔ _
    rw [bne_iff_ne]
    exact Iff.rfl
  · -- the plain target depends on the wanted one alone, which settling keeps
    change ((flooredTarget (c.plainTarget block maximum) maximum tokens !=
      flooredTarget (c.plainTarget block maximum) maximum tokens), settled.2) = _
    rw [bne_self_eq_false]
  · rw [meetsTarget_iff] at hmeets ⊢
    refine hmeets.trans ?_
    have hblock : fromLe block.bytes ≤ b := le_min (le_max_right _ _) hle
    rw [htarget]
    cases tokens with
    | none => exact hblock
    | some easiest => exact le_min hle (hblock.trans (le_max_left _ _))

end Channel

end Pickaxe
