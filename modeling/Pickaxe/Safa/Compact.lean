/-
# Compact codecs

The program reads compact targets in five places and writes them in three.  A compact value is
an exponent and a mantissa, and stands for `mantissa · 256 ^ (exponent - 3)`, rounded down
(`compactValue`).  Every reader reads that, as far as it accepts the value.

A writer gives the normal form: the mantissa of a target is not negative and loses no leading
byte.  A value that was read is written back as it was exactly when it is normal.
-/
import Pickaxe.Lib.Result
import Pickaxe.Lib.ScriptNum
import Pickaxe.Safa.Target

namespace Pickaxe

open Lib

/-! ## What a compact value stands for -/

/-- The high byte of a compact value. -/
def compactExponent (bits : UInt32) : ℕ := bits.toNat / 2 ^ 24

/-- Its other three bytes. -/
def compactMantissa (bits : UInt32) : ℕ := bits.toNat % 2 ^ 24

/-- The target a compact value stands for. -/
def compactValue (bits : UInt32) : ℕ := compactMantissa bits * 2 ^ (8 * compactExponent bits) / 2 ^ 24

section Value

variable {bits : UInt32}

lemma compactValue_of_le (h : compactExponent bits ≤ 3) :
    compactValue bits = compactMantissa bits / 2 ^ (8 * (3 - compactExponent bits)) := by
  have hpow : (2 : ℕ) ^ 24 = 2 ^ (8 * compactExponent bits) * 2 ^ (8 * (3 - compactExponent bits)) := by
    rw [← Nat.pow_add]
    congr 1
    omega
  rw [compactValue, hpow, Nat.mul_comm, Nat.mul_div_mul_left _ _ (Nat.two_pow_pos _)]

lemma compactValue_of_ge (h : 3 ≤ compactExponent bits) :
    compactValue bits = compactMantissa bits * 2 ^ (8 * (compactExponent bits - 3)) := by
  have hpow : 2 ^ (8 * compactExponent bits) = 2 ^ (8 * (compactExponent bits - 3)) * 2 ^ 24 := by
    rw [← Nat.pow_add]
    congr 1
    omega
  rw [compactValue, hpow, ← Nat.mul_assoc, Nat.mul_div_cancel _ (Nat.two_pow_pos _)]

/-- The two formulas of the readers. -/
lemma ite_compactValue {p : Prop} [Decidable p] (hle : p → compactExponent bits ≤ 3)
    (hge : ¬ p → 3 ≤ compactExponent bits) :
    (if p then compactMantissa bits / 2 ^ (8 * (3 - compactExponent bits))
      else compactMantissa bits * 2 ^ (8 * (compactExponent bits - 3))) = compactValue bits := by
  split_ifs with h
  · exact (compactValue_of_le (hle h)).symm
  · exact (compactValue_of_ge (hge h)).symm

end Value

/-! ## The readers -/

section Readers

variable {bits : UInt32}

/-- `compact_target` reads the value, which is not negative, not 0 and below `2 ^ 256`. -/
lemma compactTarget_eq_ok {target : Hash} (h : compactTarget bits = .ok target) :
    fromLe target.bytes = compactValue bits ∧ compactMantissa bits < 0x800000 ∧
      0 < compactValue bits ∧ compactValue bits < 2 ^ 256 := by
  obtain ⟨hchecks, h⟩ := Except.ite_error_eq_ok.mp h
  obtain ⟨hrange, h⟩ := Except.ite_error_eq_ok.mp h
  push Not at hchecks
  have hword : bits.toNat % 2 ^ 23 = compactMantissa bits := by
    have hsign := hchecks.2.1
    unfold compactMantissa
    omega
  have hexp : bits.toNat / 2 ^ 24 = compactExponent bits := rfl
  simp only [hword, hexp, ite_compactValue id fun h => (not_le.mp h).le] at hrange h
  cases h
  have hmantissa : compactMantissa bits < 0x800000 := by
    rw [← hword]
    omega
  push Not at hrange
  refine ⟨?_, hmantissa, Nat.pos_of_ne_zero hrange.2, hrange.1⟩
  have hpow : (256 : ℕ) ^ 32 = 2 ^ 256 := by norm_num
  exact fromLe_leBytes_of_lt (hpow ▸ hrange.1)

/-- `expand_compact` reads the value. -/
lemma expandCompact_eq_some {target : Hash} (h : expandCompact bits = some target) :
    fromLe target.bytes = compactValue bits ∧ compactMantissa bits < 0x800000 ∧
      3 ≤ compactExponent bits ∧ compactExponent bits ≤ 32 := by
  have hchecks : 3 ≤ bits.toNat / 2 ^ 24 ∧ bits.toNat / 2 ^ 24 ≤ 32 ∧ bits.toNat % 2 ^ 24 ≠ 0 ∧
      bits.toNat % 2 ^ 24 < 0x800000 := by
    by_contra hchecks
    rw [expandCompact, dif_neg hchecks] at h
    cases h
  rw [expandCompact, dif_pos hchecks] at h
  cases h
  obtain ⟨hlow, hhigh, -, hmantissa⟩ := hchecks
  refine ⟨?_, hmantissa, hlow, hhigh⟩
  have hpow : (256 : ℕ) ^ (bits.toNat / 2 ^ 24 - 3) = 2 ^ (8 * (compactExponent bits - 3)) := by
    rw [Nat.pow_mul]
    rfl
  have hthree : bits.toNat % 2 ^ 24 < 256 ^ 3 := hmantissa.trans (by norm_num)
  rw [compactValue_of_ge hlow, fromLe_append, fromLe_append, fromLe_replicate_zero,
    fromLe_replicate_zero, fromLe_leBytes_of_lt hthree, List.length_replicate, hpow, Nat.mul_zero,
    Nat.add_zero, Nat.zero_add, Nat.mul_comm]
  rfl

namespace Safa

/-- `expand_token_target` reads the value. -/
lemma expandTokenTarget_eq_some {target : ℕ} (h : expandTokenTarget bits = some target) :
    target = compactValue bits ∧ compactMantissa bits < 0x800000 ∧ 0 < compactMantissa bits ∧
      3 ≤ compactExponent bits ∧ compactExponent bits ≤ 32 := by
  unfold expandTokenTarget at h
  dsimp only at h
  split_ifs at h with hchecks
  push Not at hchecks
  obtain ⟨hlow, hhigh, hzero, hmantissa⟩ := hchecks
  cases h
  exact ⟨(compactValue_of_ge hlow).symm, hmantissa, Nat.pos_of_ne_zero hzero, hlow, hhigh⟩

/-- `decode_header_bits` reads the value. -/
lemma decodeHeaderBits_eq_some {target : ℕ} (h : decodeHeaderBits bits = some target) :
    target = compactValue bits := by
  have hmantissa : bits.toNat % 2 ^ 24 = compactMantissa bits := rfl
  have hexp : bits.toNat / 2 ^ 24 = compactExponent bits := rfl
  unfold decodeHeaderBits at h
  simp only [hmantissa, hexp,
    ite_compactValue (fun h : compactExponent bits < 3 => h.le) fun h => not_lt.mp h] at h
  split_ifs at h
  cases h
  rfl

/-- The byte order of a commitment's target slot. -/
inductive CompactOrder where
  /-- A three-byte little-endian mantissa, then the exponent, as a block header's nBits. -/
  | mantissaFirst
  | exponentFirst
deriving DecidableEq

/-- A mantissa and an exponent in a target slot. -/
def CompactOrder.slot (mantissa : ByteVec 3) (exponent : UInt8) : CompactOrder → ByteVec 4
  | .mantissaFirst => ⟨mantissa.bytes ++ [exponent], by simp⟩
  | .exponentFirst => ⟨exponent :: mantissa.bytes, by simp⟩

/-- `decode_compact`: the target a compact slot names. -/
def decodeCompact (bits : ByteVec 4) (order : CompactOrder) : Except String ℕ :=
  let (mantissa, exponent) := match order with
    | .mantissaFirst => (slice bits.bytes 0 3, bits.bytes.getD 3 0)
    | .exponentFirst => (slice bits.bytes 1 4, bits.bytes.getD 0 0)
  if mantissa.getD 2 0 &&& 0x80 ≠ 0 then .error "a negative SAFA target"
  else if ¬ (3 ≤ exponent ∧ exponent ≤ 32) then .error "a SAFA target exponent outside 3 to 32"
  else .ok (fromLe mantissa * 2 ^ (8 * (exponent.toNat - 3)))

/-- A compact value in a target slot. -/
def compactSlot (bits : UInt32) (order : CompactOrder) : ByteVec 4 :=
  order.slot ⟨leBytes 3 (compactMantissa bits), length_leBytes _ _⟩
    (UInt8.ofNat (compactExponent bits))

lemma slot_eq_compactSlot {order : CompactOrder} {mantissa : ByteVec 3} {exponent : UInt8}
    (hmantissa : mantissa.bytes = leBytes 3 (compactMantissa bits))
    (hexponent : exponent = UInt8.ofNat (compactExponent bits)) :
    order.slot mantissa exponent = compactSlot bits order := by
  rw [compactSlot, hexponent]
  congr 1
  exact ByteVec.ext hmantissa

lemma compactMantissa_lt (bits : UInt32) : compactMantissa bits < 256 ^ 3 := by
  have hpow : (256 : ℕ) ^ 3 = 2 ^ 24 := rfl
  rw [hpow]
  exact Nat.mod_lt _ (by decide)

lemma compactExponent_lt (bits : UInt32) : compactExponent bits < 256 := by
  have hlt := bits.toNat_lt
  unfold compactExponent
  omega

lemma toNat_compactExponent (bits : UInt32) :
    (UInt8.ofNat (compactExponent bits)).toNat = compactExponent bits :=
  UInt8.toNat_ofNat_of_lt' (compactExponent_lt bits)

/-- The exponent and the mantissa are the value. -/
lemma compact_fields (bits : UInt32) :
    bits.toNat = compactExponent bits * 2 ^ 24 + compactMantissa bits := by
  unfold compactExponent compactMantissa
  omega

/-- A slot shows its value. -/
lemma compactSlot_inj {a b : UInt32} {order : CompactOrder}
    (h : compactSlot a order = compactSlot b order) : a = b := by
  have hbytes := congrArg ByteVec.bytes h
  have hfields : leBytes 3 (compactMantissa a) = leBytes 3 (compactMantissa b) ∧
      UInt8.ofNat (compactExponent a) = UInt8.ofNat (compactExponent b) := by
    cases order with
    | mantissaFirst =>
      obtain ⟨hmantissa, hexponent⟩ := List.append_inj hbytes (by simp)
      exact ⟨hmantissa, (List.cons.inj hexponent).1⟩
    | exponentFirst => exact ⟨(List.cons.inj hbytes).2, (List.cons.inj hbytes).1⟩
  have hexponent := congrArg UInt8.toNat hfields.2
  rw [toNat_compactExponent, toNat_compactExponent] at hexponent
  have hmantissa := leBytes_inj (compactMantissa_lt a) (compactMantissa_lt b) hfields.1
  rw [← UInt32.toNat_inj, compact_fields a, compact_fields b, hexponent, hmantissa]

lemma sign_bit (b : UInt8) : b &&& 0x80 ≠ 0 ↔ 0x80 ≤ b.toNat := by
  have hall : ∀ n : Fin 256, UInt8.ofNat n.val &&& 0x80 ≠ 0 ↔ 0x80 ≤ n.val := by decide +kernel
  have hb := hall ⟨b.toNat, b.toNat_lt⟩
  rwa [UInt8.ofNat_toNat] at hb

/-- `decode_compact` reads the value, and a mantissa of 0 too. -/
lemma decodeCompact_slot (order : CompactOrder) {target : ℕ} :
    decodeCompact (compactSlot bits order) order = .ok target ↔
      compactMantissa bits < 0x800000 ∧ 3 ≤ compactExponent bits ∧ compactExponent bits ≤ 32 ∧
        target = compactValue bits := by
  have hmantissa := compactMantissa_lt bits
  have hparts : (match order with
      | .mantissaFirst => (slice (compactSlot bits order).bytes 0 3, (compactSlot bits order).bytes.getD 3 0)
      | .exponentFirst => (slice (compactSlot bits order).bytes 1 4, (compactSlot bits order).bytes.getD 0 0)) =
      (leBytes 3 (compactMantissa bits), UInt8.ofNat (compactExponent bits)) := by
    cases order <;> rfl
  have htop : ((leBytes 3 (compactMantissa bits)).getD 2 0).toNat = compactMantissa bits / 65536 := by
    change (UInt8.ofNat (compactMantissa bits / 256 / 256)).toNat = _
    rw [UInt8.toNat_ofNat_of_lt' (by change _ < 256; omega)]
    omega
  have hexponent : (3 ≤ UInt8.ofNat (compactExponent bits) ∧ UInt8.ofNat (compactExponent bits) ≤ 32) ↔
      3 ≤ compactExponent bits ∧ compactExponent bits ≤ 32 := by
    rw [UInt8.le_iff_toNat_le, UInt8.le_iff_toNat_le, toNat_compactExponent]
    exact Iff.rfl
  unfold decodeCompact
  rw [hparts]
  simp only [sign_bit, htop, hexponent, Except.ite_error_eq_ok, not_not, toNat_compactExponent,
    fromLe_leBytes_of_lt hmantissa, Except.ok.injEq]
  constructor
  · rintro ⟨hsign, ⟨hlow, hhigh⟩, rfl⟩
    exact ⟨by omega, hlow, hhigh, (compactValue_of_ge hlow).symm⟩
  · rintro ⟨hsign, hlow, hhigh, rfl⟩
    exact ⟨by omega, ⟨hlow, hhigh⟩, (compactValue_of_ge hlow).symm⟩

end Safa

end Readers

/-! ## The normal form -/

/-- A normal value: not negative, without a leading zero byte, and nothing below its last byte. -/
def CompactNormal (bits : UInt32) : Prop :=
  0x8000 ≤ compactMantissa bits ∧ compactMantissa bits < 0x800000 ∧
    compactMantissa bits * 2 ^ (8 * compactExponent bits) % 2 ^ 24 = 0

/-- The three leading bytes of a target of `width` bytes. -/
def leadingBytes (width target : ℕ) : ℕ := target * 2 ^ 24 / 2 ^ (8 * width)

lemma leadingBytes_of_le {width : ℕ} (h : width ≤ 3) (target : ℕ) :
    leadingBytes width target = target * 2 ^ (8 * (3 - width)) := by
  have hpow : (2 : ℕ) ^ 24 = 2 ^ (8 * (3 - width)) * 2 ^ (8 * width) := by
    rw [← Nat.pow_add]
    congr 1
    omega
  rw [leadingBytes, hpow, ← Nat.mul_assoc, Nat.mul_div_cancel _ (Nat.two_pow_pos _)]

lemma leadingBytes_of_ge {width : ℕ} (h : 3 ≤ width) (target : ℕ) :
    leadingBytes width target = target / 2 ^ (8 * (width - 3)) := by
  have hpow : 2 ^ (8 * width) = 2 ^ (8 * (width - 3)) * 2 ^ 24 := by
    rw [← Nat.pow_add]
    congr 1
    omega
  rw [leadingBytes, hpow, Nat.mul_div_mul_right _ _ (by decide)]

/-- Leading bytes below the sign bit are those of a width that has room for it. -/
lemma leadingBytes_lt_iff {width target : ℕ} (h : 1 ≤ width) :
    leadingBytes width target < 0x800000 ↔ target < 2 ^ (8 * width - 1) := by
  have hpow : (0x800000 : ℕ) * 2 ^ (8 * width) = 2 ^ (8 * width - 1) * 2 ^ 24 := by
    have hsign : (0x800000 : ℕ) = 2 ^ 23 := rfl
    rw [hsign, ← Nat.pow_add, ← Nat.pow_add]
    congr 1
    omega
  rw [leadingBytes, Nat.div_lt_iff_lt_mul (Nat.two_pow_pos _), hpow]
  exact Nat.mul_lt_mul_right (by decide)

section Width

variable {target : ℕ}

/-- The leading bytes of a target in its own width are a normal mantissa. -/
lemma leadingBytes_width (h : 0 < target) : 0x8000 ≤ leadingBytes (Script.width target) target ∧
    leadingBytes (Script.width target) target < 0x800000 := by
  have hpos := Script.width_pos h.ne'
  refine ⟨?_, (leadingBytes_lt_iff hpos).mpr (Script.lt_two_pow_width h.ne')⟩
  have hnot : ¬ Script.width target ≤ Script.width target - 1 := by omega
  rw [Script.width_le_iff, not_lt] at hnot
  rw [leadingBytes, Nat.le_div_iff_mul_le (Nat.two_pow_pos _)]
  have hsign : (0x8000 : ℕ) = 2 ^ 15 := rfl
  calc 0x8000 * 2 ^ (8 * Script.width target)
      = 2 ^ (8 * Script.width target + 15) := by rw [hsign, ← Nat.pow_add, Nat.add_comm]
    _ ≤ 2 ^ (8 * (Script.width target - 1) - 1) * 2 ^ 24 := by
      rw [← Nat.pow_add]
      exact Nat.pow_le_pow_right (by decide) (by omega)
    _ ≤ target * 2 ^ 24 := Nat.mul_le_mul_right _ hnot

/-- A target with such a mantissa in some width has that width. -/
lemma width_eq {width : ℕ} (hone : 1 ≤ width) (hlow : 0x8000 * 2 ^ (8 * width) ≤ target * 2 ^ 24)
    (hhigh : target < 2 ^ (8 * width - 1)) : Script.width target = width := by
  refine le_antisymm (Script.width_le_iff.mpr hhigh) ?_
  by_contra hlt
  have hle : Script.width target ≤ width - 1 := by omega
  rw [Script.width_le_iff] at hle
  have hpos : 0 < target := by
    by_contra hzero
    have hprod : 0 < 0x8000 * 2 ^ (8 * width) := Nat.mul_pos (by decide) (Nat.two_pow_pos _)
    rw [Nat.eq_zero_of_not_pos hzero, Nat.zero_mul] at hlow
    omega
  rcases Nat.eq_or_lt_of_le hone with heq | htwo
  · rw [← heq] at hle
    have hone' : (2 : ℕ) ^ (8 * (1 - 1) - 1) = 1 := rfl
    rw [hone'] at hle
    omega
  · have hpow : (0x8000 : ℕ) * 2 ^ (8 * width) = 2 ^ (8 * (width - 1) - 1) * 2 ^ 24 := by
      have hsign : (0x8000 : ℕ) = 2 ^ 15 := rfl
      rw [hsign, ← Nat.pow_add, ← Nat.pow_add]
      congr 1
      omega
    rw [hpow] at hlow
    exact absurd (Nat.le_of_mul_le_mul_right hlow (by decide)) (Nat.not_le.mpr hle)

/-- The digits of a target are its width in bits, less the sign bit's room. -/
lemma bitLen_width (h : 0 < target) : Asert.bitLen target / 8 + 1 = Script.width target := by
  rw [Asert.bitLen, Script.width, if_neg h.ne', if_neg h.ne']

/-- `compact` of a target: its width and its leading bytes. -/
lemma compact_eq (h : 0 < target) : Asert.compact target =
    UInt32.ofNat (leadingBytes (Script.width target) target + Script.width target * 2 ^ 24) := by
  have hwidth := bitLen_width h
  obtain ⟨hbits, -, hhigh⟩ := Safa.bitLen_spec h
  have hone : 1 ≤ (Asert.bitLen target + 7) / 8 := by omega
  have hword : (if (Asert.bitLen target + 7) / 8 ≤ 3 then
        target * 2 ^ (8 * (3 - (Asert.bitLen target + 7) / 8))
      else target / 2 ^ (8 * ((Asert.bitLen target + 7) / 8 - 3))) =
      leadingBytes ((Asert.bitLen target + 7) / 8) target := by
    split_ifs with hsize
    · exact (leadingBytes_of_le hsize target).symm
    · exact (leadingBytes_of_ge (not_le.mp hsize).le target).symm
  -- the digits fill their bytes, so the leading bytes are below 2 ^ 24
  have hlt : leadingBytes ((Asert.bitLen target + 7) / 8) target < 2 ^ 24 := by
    rw [leadingBytes, Nat.div_lt_iff_lt_mul (Nat.two_pow_pos _), Nat.mul_comm (2 ^ 24)]
    refine Nat.mul_lt_mul_of_pos_right (hhigh.trans_le ?_) (by decide)
    exact Nat.pow_le_pow_right (by decide) (by omega)
  have hsign := @leadingBytes_lt_iff _ target hone
  rw [← Script.width_le_iff] at hsign
  unfold Asert.compact
  dsimp only
  rw [hword]
  split_ifs with htop
  · -- the sign bit is in use: one byte more
    have hnot : ¬ Script.width target ≤ (Asert.bitLen target + 7) / 8 := by
      rw [← hsign]
      omega
    have hsucc : Script.width target = (Asert.bitLen target + 7) / 8 + 1 := by omega
    have hdiv : leadingBytes ((Asert.bitLen target + 7) / 8) target / 2 ^ 8 =
        leadingBytes ((Asert.bitLen target + 7) / 8 + 1) target := by
      rw [leadingBytes, Nat.div_div_eq_div_mul, ← Nat.pow_add]
      rfl
    rw [hdiv, hsucc]
  · have hle : Script.width target ≤ (Asert.bitLen target + 7) / 8 := by
      rw [← hsign]
      omega
    have hsame : Script.width target = (Asert.bitLen target + 7) / 8 := by omega
    rw [hsame]

lemma compact_exponent_mantissa (h : 0 < target) (hwidth : Script.width target < 256) :
    compactExponent (Asert.compact target) = Script.width target ∧
      compactMantissa (Asert.compact target) = leadingBytes (Script.width target) target := by
  obtain ⟨-, hlt⟩ := leadingBytes_width h
  have hnat : (Asert.compact target).toNat =
      leadingBytes (Script.width target) target + Script.width target * 2 ^ 24 := by
    rw [compact_eq h, UInt32.toNat_ofNat_of_lt' (by rw [UInt32.size]; omega)]
  constructor
  · rw [compactExponent, hnat]
    omega
  · rw [compactMantissa, hnat]
    omega

end Width

section Normal

variable {bits : UInt32}

/-- A normal value that stands for a target has its width and its leading bytes. -/
lemma CompactNormal.width (h : CompactNormal bits) :
    Script.width (compactValue bits) = compactExponent bits ∧
      leadingBytes (compactExponent bits) (compactValue bits) = compactMantissa bits := by
  obtain ⟨hlow, hhigh, hexact⟩ := h
  have hvalue : compactValue bits * 2 ^ 24 = compactMantissa bits * 2 ^ (8 * compactExponent bits) :=
    Nat.div_mul_cancel (Nat.dvd_of_mod_eq_zero hexact)
  have hmantissa : leadingBytes (compactExponent bits) (compactValue bits) = compactMantissa bits := by
    rw [leadingBytes, hvalue, Nat.mul_div_cancel _ (Nat.two_pow_pos _)]
  have hone : 1 ≤ compactExponent bits := by
    by_contra hzero
    have hexp : compactExponent bits = 0 := by omega
    rw [hexp, Nat.mul_zero, pow_zero, Nat.mul_one] at hvalue
    omega
  refine ⟨width_eq hone ?_ ((leadingBytes_lt_iff hone).mp (hmantissa.trans_lt hhigh)), hmantissa⟩
  rw [hvalue]
  exact Nat.mul_le_mul_right _ hlow

/-- `compact` writes a value back as it was exactly when it is normal. -/
lemma compact_compactValue (hpos : 0 < compactValue bits) (hmax : compactValue bits < 2 ^ 256) :
    Asert.compact (compactValue bits) = bits ↔ CompactNormal bits := by
  have hwidth : Script.width (compactValue bits) ≤ 33 := by
    refine Script.width_le_iff.mpr (hmax.trans_le ?_)
    gcongr
    · exact one_le_two
    · decide
  obtain ⟨hexponent, hmantissa⟩ := compact_exponent_mantissa hpos (by omega)
  constructor
  · intro h
    rw [h] at hexponent hmantissa
    obtain ⟨hlow, hhigh⟩ := leadingBytes_width hpos
    rw [← hmantissa] at hlow hhigh
    refine ⟨hlow, hhigh, ?_⟩
    -- below three bytes the leading bytes are the target with zeros behind it
    rcases Nat.le_total (compactExponent bits) 3 with hle | hge
    · have hpow : (2 : ℕ) ^ 24 = 2 ^ (8 * (3 - compactExponent bits)) * 2 ^ (8 * compactExponent bits) := by
        rw [← Nat.pow_add]
        congr 1
        omega
      rw [hmantissa, ← hexponent, leadingBytes_of_le hle, Nat.mul_assoc, ← hpow]
      exact Nat.mul_mod_left _ _
    · have hpow : 2 ^ (8 * compactExponent bits) = 2 ^ (8 * (compactExponent bits - 3)) * 2 ^ 24 := by
        rw [← Nat.pow_add]
        congr 1
        omega
      rw [hpow, ← Nat.mul_assoc]
      exact Nat.mul_mod_left _ _
  · intro h
    obtain ⟨hsame, hleading⟩ := h.width
    rw [hsame] at hexponent hmantissa
    rw [hleading] at hmantissa
    rw [← UInt32.toNat_inj, Safa.compact_fields, Safa.compact_fields bits, hexponent, hmantissa]

end Normal

/-! ## The writers -/

/-- `BigUint::to_bytes_le`: as few bytes as there are digits for, one for 0. -/
def toBytesLe (n : ℕ) : Bytes := if n = 0 then [0] else leBytes ((Asert.bitLen n + 7) / 8) n

lemma toBytesLe_spec {n : ℕ} (h : 0 < n) :
    ∃ init last, toBytesLe n = init ++ [last] ∧ last.toNat ≠ 0 ∧ fromLe (init ++ [last]) = n := by
  obtain ⟨hbits, hlow, hhigh⟩ := Safa.bitLen_spec h
  have hpow : ∀ k : ℕ, (256 : ℕ) ^ k = 2 ^ (8 * k) := fun k => (Nat.pow_mul 2 8 k).symm
  have hfrom : fromLe (toBytesLe n) = n := by
    rw [toBytesLe, if_neg h.ne']
    refine fromLe_leBytes_of_lt (hhigh.trans_le ?_)
    rw [hpow]
    exact Nat.pow_le_pow_right (by decide) (by omega)
  have hlength : (toBytesLe n).length = (Asert.bitLen n + 7) / 8 := by
    rw [toBytesLe, if_neg h.ne', length_leBytes]
  have hne : toBytesLe n ≠ [] := List.length_pos_iff.mp (by omega)
  refine ⟨(toBytesLe n).dropLast, (toBytesLe n).getLast hne,
    (List.dropLast_append_getLast hne).symm, fun hzero => ?_, ?_⟩
  · -- a leading zero byte would leave too few digits
    have hsplit := congrArg fromLe (List.dropLast_append_getLast hne)
    rw [fromLe_append, fromLe_cons, hzero, fromLe_nil, hfrom, Nat.mul_zero, Nat.add_zero] at hsplit
    have hlt := fromLe_lt (toBytesLe n).dropLast
    rw [hsplit, List.length_dropLast, hlength, hpow] at hlt
    have hle := Nat.pow_le_pow_right Nat.two_pos
      (show 8 * ((Asert.bitLen n + 7) / 8 - 1) ≤ Asert.bitLen n - 1 by omega)
    omega
  · rw [List.dropLast_append_getLast, hfrom]

namespace Safa

/-- A target's minimal script number, as `encode_compact` builds it. -/
def scriptNumber (target : ℕ) : Bytes :=
  let number := toBytesLe target
  if number.getLast?.any fun top => top &&& 0x80 ≠ 0 then number ++ [0] else number

/-- `encode_compact`: the three most significant bytes of a target's minimal script number, then
that number's length. -/
def encodeCompact (target : ℕ) (order : CompactOrder) : Except String (ByteVec 4) :=
  let number := scriptNumber target
  if number.length > 32 then .error "the next target would freeze the thread"
  else if h : number.length < 3 then .error "the next target is too small to encode"
  else .ok (order.slot ⟨number.drop (number.length - 3), by rw [List.length_drop]; omega⟩
    (UInt8.ofNat number.length))

lemma scriptNumber_eq {target : ℕ} (h : 0 < target) :
    scriptNumber target = leBytes (Script.width target) target := by
  obtain ⟨init, last, hbytes, hlast, hfrom⟩ := toBytesLe_spec h
  have hnum := Script.num_fromLe init hlast
  rw [hfrom] at hnum
  have hself : Script.num target = leBytes (Script.width target) target := by
    rw [Script.num, Script.signed, if_neg (by omega), Nat.add_zero, Int.natAbs_natCast]
  rw [← hself, hnum, scriptNumber, hbytes]
  simp only [List.getLast?_append, List.getLast?_singleton, Option.some_or, Option.any_some,
    decide_eq_true_eq, sign_bit]

lemma leBytes_drop (a b v : ℕ) : (leBytes (a + b) v).drop a = leBytes b (v / 256 ^ a) := by
  induction a generalizing v with
  | zero => rw [Nat.zero_add, List.drop_zero, pow_zero, Nat.div_one]
  | succ a ih =>
    rw [Nat.succ_add, leBytes, List.drop_succ_cons, ih, pow_succ', Nat.div_div_eq_div_mul]

/-- Three leading bytes of a target that has as many. -/
lemma drop_scriptNumber {target : ℕ} (h : 0 < target) (hwidth : 3 ≤ Script.width target) :
    (scriptNumber target).drop ((scriptNumber target).length - 3) =
      leBytes 3 (leadingBytes (Script.width target) target) := by
  have hsplit : Script.width target = Script.width target - 3 + 3 := by omega
  have hpow : (256 : ℕ) ^ (Script.width target - 3) = 2 ^ (8 * (Script.width target - 3)) :=
    (Nat.pow_mul 2 8 _).symm
  rw [scriptNumber_eq h, length_leBytes, leadingBytes_of_ge hwidth, ← hpow, ← leBytes_drop,
    ← hsplit]

/-- `encode_compact` writes what `compact` does, where the width is 3 to 32, and nothing else. -/
lemma encodeCompact_eq_ok {target : ℕ} {order : CompactOrder} {slot : ByteVec 4} :
    encodeCompact target order = .ok slot ↔ 0 < target ∧ 3 ≤ Script.width target ∧
      Script.width target ≤ 32 ∧ slot = compactSlot (Asert.compact target) order := by
  rcases Nat.eq_zero_or_pos target with rfl | hpos
  · constructor
    · intro h
      cases h
    · rintro ⟨h, -⟩
      exact absurd h (lt_irrefl 0)
  have hlength : (scriptNumber target).length = Script.width target := by
    rw [scriptNumber_eq hpos, length_leBytes]
  unfold encodeCompact
  dsimp only
  rw [Except.ite_error_eq_ok, not_lt]
  by_cases hsmall : (scriptNumber target).length < 3
  · rw [dif_pos hsmall]
    constructor
    · rintro ⟨-, h⟩
      cases h
    · rintro ⟨-, h, -⟩
      exact absurd (hlength ▸ hsmall) (not_lt.mpr h)
  · rw [dif_neg hsmall, Except.ok.injEq]
    have hthree : 3 ≤ Script.width target := hlength ▸ not_lt.mp hsmall
    have hslot : ∀ mantissa : ByteVec 3, mantissa.bytes =
        (scriptNumber target).drop ((scriptNumber target).length - 3) →
        Script.width target ≤ 32 →
        order.slot mantissa (UInt8.ofNat (scriptNumber target).length) =
          compactSlot (Asert.compact target) order := by
      intro mantissa hbytes hmax
      obtain ⟨hexponent, hmantissa⟩ := compact_exponent_mantissa hpos (hmax.trans_lt (by decide))
      refine slot_eq_compactSlot ?_ (by rw [hexponent, hlength])
      rw [hmantissa]
      exact hbytes.trans (drop_scriptNumber hpos hthree)
    constructor
    · rintro ⟨hmax, rfl⟩
      refine ⟨hpos, hthree, hlength ▸ hmax, ?_⟩
      refine hslot _ ?_ (hlength ▸ hmax)
      rfl
    · rintro ⟨-, -, hmax, rfl⟩
      refine ⟨hlength.trans_le hmax, ?_⟩
      refine hslot _ ?_ hmax
      rfl

/-- A value that `decode_compact` reads is written back as it was exactly when it has no leading zero
byte. -/
lemma encodeCompact_slot {bits : UInt32} {order : CompactOrder} {target : ℕ}
    (h : decodeCompact (compactSlot bits order) order = .ok target) :
    encodeCompact target order = .ok (compactSlot bits order) ↔ 0x8000 ≤ compactMantissa bits := by
  obtain ⟨hhigh, hlow, hmax, rfl⟩ := (decodeCompact_slot order).mp h
  have hexact : compactMantissa bits * 2 ^ (8 * compactExponent bits) % 2 ^ 24 = 0 := by
    have hpow : 2 ^ (8 * compactExponent bits) = 2 ^ (8 * (compactExponent bits - 3)) * 2 ^ 24 := by
      rw [← Nat.pow_add]
      congr 1
      omega
    rw [hpow, ← Nat.mul_assoc]
    exact Nat.mul_mod_left _ _
  have hlt : compactValue bits < 2 ^ 256 := by
    rw [compactValue_of_ge hlow]
    calc compactMantissa bits * 2 ^ (8 * (compactExponent bits - 3))
        ≤ compactMantissa bits * 2 ^ (8 * (32 - 3)) :=
          Nat.mul_le_mul_left _ (Nat.pow_le_pow_right Nat.two_pos (by omega))
      _ < 0x800000 * 2 ^ (8 * (32 - 3)) := Nat.mul_lt_mul_of_pos_right hhigh (Nat.two_pow_pos _)
      _ ≤ 2 ^ 256 := by norm_num
  rw [encodeCompact_eq_ok]
  constructor
  · rintro ⟨hpos, -, -, hslot⟩
    exact ((compact_compactValue hpos hlt).mp (compactSlot_inj hslot).symm).1
  · intro hnormal
    have hbits : CompactNormal bits := ⟨hnormal, hhigh, hexact⟩
    have hpos : 0 < compactValue bits := by
      rw [compactValue_of_ge hlow]
      exact Nat.mul_pos (by omega) (Nat.two_pow_pos _)
    obtain ⟨hwidth, -⟩ := hbits.width
    rw [hwidth, (compact_compactValue hpos hlt).mpr hbits]
    exact ⟨hpos, hlow, hmax, rfl⟩

/-- A target that was read keeps all its digits. -/
lemma roundDown_expand {bits : UInt32} {target : ℕ} (h : expandTokenTarget bits = some target) :
    roundDown target = target := by
  obtain ⟨rfl, hmantissa, hpos, hlow, -⟩ := expandTokenTarget_eq_some h
  have hsize : scriptSize (compactValue bits) ≤ compactExponent bits := by
    have hvalue := Nat.mul_pos hpos (Nat.two_pow_pos (8 * (compactExponent bits - 3)))
    rw [← compactValue_of_ge hlow] at hvalue
    have hwidth : Script.width (compactValue bits) ≤ compactExponent bits := by
      rw [Script.width_le_iff, compactValue_of_ge hlow]
      have hpow : 2 ^ (8 * compactExponent bits - 1) = 0x800000 * 2 ^ (8 * (compactExponent bits - 3)) := by
        have hsign : (0x800000 : ℕ) = 2 ^ 23 := rfl
        rw [hsign, ← Nat.pow_add]
        congr 1
        omega
      rw [hpow]
      exact Nat.mul_lt_mul_of_pos_right hmantissa (Nat.two_pow_pos _)
    have hbits := bitLen_width hvalue
    unfold scriptSize
    omega
  rw [roundDown, scriptMantissa]
  have hle : 8 * (scriptSize (compactValue bits) - 3) ≤ 8 * (compactExponent bits - 3) := by omega
  have hdvd := (Nat.pow_dvd_pow 2 hle).mul_left (compactMantissa bits)
  rw [← compactValue_of_ge hlow] at hdvd
  exact Nat.div_mul_cancel hdvd

/-- One number everywhere.  Whichever reader accepts a compact value reads what it stands for;
`compact` and `encode_compact` write a value back as it was exactly when it is normal; token bits
never name more than the target they were made of, and all of a target that was read. -/
theorem compact_codecs :
    (∀ bits, (∀ t, compactTarget bits = .ok t → fromLe t.bytes = compactValue bits) ∧
      (∀ t, expandCompact bits = some t → fromLe t.bytes = compactValue bits) ∧
      (∀ order t, decodeCompact (compactSlot bits order) order = .ok t → t = compactValue bits) ∧
      (∀ t, expandTokenTarget bits = some t → t = compactValue bits) ∧
      ∀ t, decodeHeaderBits bits = some t → t = compactValue bits) ∧
    (∀ bits t, compactTarget bits = .ok t →
      (Asert.compact (fromLe t.bytes) = bits ↔ CompactNormal bits)) ∧
    (∀ bits order t, decodeCompact (compactSlot bits order) order = .ok t →
      (encodeCompact t order = .ok (compactSlot bits order) ↔ 0x8000 ≤ compactMantissa bits)) ∧
    (∀ t bits, encodeTokenTarget t = some bits → ∃ u, expandTokenTarget bits = some u ∧ u ≤ t) ∧
    (∀ t, (encodeTokenTarget t).isSome ↔ 0 < t ∧ t ≤ maxTokenTarget) ∧
    ∀ bits t, expandTokenTarget bits = some t →
      ∃ c, encodeTokenTarget t = some c ∧ expandTokenTarget c = some t := by
  have hsome : ∀ t, (encodeTokenTarget t).isSome ↔ 0 < t ∧ t ≤ maxTokenTarget := by
    intro t
    constructor
    · intro h
      by_contra hrange
      rw [encodeTokenTarget, if_pos (by omega)] at h
      cases h
    · rintro ⟨hpos, hmax⟩
      obtain ⟨bits, hbits, -⟩ := encodeTokenTarget_encodes hpos hmax
      rw [hbits]
      rfl
  have hencodes : ∀ t bits, encodeTokenTarget t = some bits → Encodes bits t := by
    intro t bits h
    obtain ⟨hpos, hmax⟩ := (hsome t).mp (h ▸ rfl)
    obtain ⟨bits', hbits', hencodes⟩ := encodeTokenTarget_encodes hpos hmax
    rwa [Option.some.inj (h.symm.trans hbits')]
  refine ⟨fun bits => ⟨fun t h => (compactTarget_eq_ok h).1, fun t h => (expandCompact_eq_some h).1,
    fun order t h => ((decodeCompact_slot order).mp h).2.2.2,
    fun t h => (expandTokenTarget_eq_some h).1, fun t h => decodeHeaderBits_eq_some h⟩, ?_,
    fun bits order t h => encodeCompact_slot h, fun t bits h => ?_, hsome, fun bits t h => ?_⟩
  · intro bits t h
    obtain ⟨hvalue, -, hpos, hlt⟩ := compactTarget_eq_ok h
    rw [hvalue]
    exact compact_compactValue hpos hlt
  · exact ⟨_, (hencodes t bits h).expand.1, roundDown_le t⟩
  · obtain ⟨hpos, hmax⟩ := expandTokenTarget_le h
    obtain ⟨c, hc, hencodes⟩ := encodeTokenTarget_encodes hpos hmax
    refine ⟨c, hc, ?_⟩
    rw [hencodes.expand.1, roundDown_expand h]

/-- The hardest canonical token target is read as 1 by every reader, but it is not normal: `compact`
writes 1 otherwise, and `encode_compact` not at all. -/
theorem compact_not_kept :
    (expandTokenTarget 0x03000001 = some 1 ∧ expandCompact 0x03000001 = some (targetOfNat 1) ∧
      compactTarget 0x03000001 = .ok (targetOfNat 1) ∧ decodeHeaderBits 0x03000001 = some 1 ∧
      ∀ order, decodeCompact (compactSlot 0x03000001 order) order = .ok 1) ∧
    Asert.compact 1 = 0x01010000 ∧
    ∀ order, encodeCompact 1 order = .error "the next target is too small to encode" := by
  refine ⟨⟨by decide, by decide, by decide, by decide +kernel, ?_⟩, by decide +kernel, ?_⟩
  · intro order
    cases order <;> decide +kernel
  · intro order
    cases order <;> decide +kernel

end Safa

end Pickaxe
