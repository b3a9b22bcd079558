/-
# The two ASERT implementations

`asert::calculate` gives the bits a header must carry, in 64-bit arithmetic; the covenant's
band recomputes the target in 128-bit arithmetic, as its script does.  Here both are modelled
with the widths of their intermediate results.  Where `calculate`'s own range checks pass they
agree, except within one spacing of the lowest span, where `calculate` overflows: its check is
on the span, its arithmetic on the span less one spacing (`calculate_eq_asertTarget`).
Elsewhere its target is monotone and within its limits (`calculate_monotone`).
-/
import Pickaxe.Safa.Target
import Pickaxe.Lib.Checked
import Pickaxe.Lib.FixedExp
import Pickaxe.Lib.Result

namespace Pickaxe.Asert

open Lib Lib.Checked Lib.FixedExp

/-! ## With the widths of the source -/

/-- The factor of a 16-bit fraction, about `65536 * 2 ^ (fraction / 65536)`. -/
def factor (fraction : ℕ) : ℕ :=
  65536 + (195766423245049 * fraction + 971821376 * fraction * fraction +
    5127 * fraction * fraction * fraction + 2 ^ 47) / 2 ^ 48

/-- The factor, each step in `w` bits. -/
def checkedFactor (w fraction : ℕ) : Except Panic ℕ := do
  let linear ← unsigned w (195766423245049 * fraction)
  let square ← unsigned w (971821376 * fraction)
  let square ← unsigned w (square * fraction)
  let sum ← unsigned w (linear + square)
  let cube ← unsigned w (5127 * fraction)
  let cube ← unsigned w (cube * fraction)
  let cube ← unsigned w (cube * fraction)
  let sum ← unsigned w (sum + cube)
  let sum ← unsigned w (sum + 2 ^ 47)
  unsigned w (65536 + sum / 2 ^ 48)

/-- `time_diff.checked_sub(SPACING.checked_mul(height_diff)?)?`. -/
def checkedSpan (timeDiff heightDiff : ℤ) : Option ℤ := do
  let scheduled ← (signed 64 (spacing * heightDiff)).toOption
  (signed 64 (timeDiff - scheduled)).toOption

/-- `calculate` from its exponent on. -/
def checkedTarget (reference limit : ℕ) (exponent : ℤ) : Except Panic ℕ := do
  let shifts ← signed 64 (exponent / 65536 - 16)
  let factor ← checkedFactor 64 (exponent % 65536).toNat
  let product := reference * factor
  let next ←
    if shifts ≤ 0 then .ok (product / 2 ^ min shifts.natAbs 256)
    else do
      let bits ← unsigned 64 (bitLen product + shifts.natAbs)
      .ok (if bits > 256 then limit else product * 2 ^ shifts.natAbs)
  .ok (if next = 0 then 1 else min next limit)

/-- `calculate`, with its arithmetic in `i64` and `u64`. -/
def checkedCalculate (reference : ℕ) (timeDiff heightDiff : ℤ) (limit : ℕ) (halfLife : ℤ) :
    Except Panic (Option ℕ) :=
  if reference = 0 ∨ reference > limit ∨ halfLife ≤ 0 then .ok none
  else
    match checkedSpan timeDiff heightDiff with
    | none => .ok none
    | some span =>
      if span.natAbs ≥ 2 ^ 47 then .ok none
      else do
        let ahead ← signed 64 (span - spacing)
        let ahead ← signed 64 (ahead * 65536)
        let exponent ← signedDiv 64 ahead halfLife
        let target ← checkedTarget reference limit exponent
        .ok (some target)

/-- `next_bits`, with its arithmetic in `i64` and `u64`. -/
def checkedNextBits (anchor : Anchor) (parentHeight parentTime : UInt32) :
    Except Panic (Option UInt32) :=
  if parentHeight < anchor.height then .ok none
  else do
    let timeDiff ← signed 64 (parentTime.toNat - anchor.parentTime)
    match compactTarget anchor.bits with
    | .error _ => .ok none
    | .ok reference =>
      let target ← checkedCalculate (fromLe reference.bytes) timeDiff
        (parentHeight.toNat - anchor.height.toNat : ℕ) powLimit anchor.halfLife
      .ok (target.map compact)

/-- `asert_target`, with its arithmetic in `i128` and `u128`. -/
def checkedAsertTarget (reference : ℕ) (timeDiff heightDiff halfLife : ℤ) : Except Panic ℕ := do
  let scheduled ← signed 128 (600 * heightDiff)
  let span ← signed 128 (timeDiff - scheduled)
  let ahead ← signed 128 (span - 600)
  let ahead ← signed 128 (ahead * 65536)
  let exponent ← signedDiv 128 ahead halfLife
  let factor ← checkedFactor 128 (exponent % 65536).toNat
  let product := reference * factor
  let shift ← signed 128 (exponent / 65536 - 16)
  let next :=
    if shift ≤ 0 then product / 2 ^ min shift.natAbs 256 else product * 2 ^ min shift.natAbs 256
  .ok (if next = 0 then 1 else min next powLimit)

/-- The inputs that `calculate`'s range checks let through. -/
structure Admits (reference : ℕ) (timeDiff heightDiff : ℤ) (limit : ℕ) (halfLife : ℤ) : Prop where
  reference_pos : reference ≠ 0
  reference_le : reference ≤ limit
  halfLife_pos : 0 < halfLife
  scheduled_fits : Fits 64 (spacing * heightDiff)
  span_fits : Fits 64 (timeDiff - spacing * heightDiff)
  span_lt : (timeDiff - spacing * heightDiff).natAbs < 2 ^ 47

/-! ## Every intermediate result fits -/

/-- Up to the last fraction the sum stays below 2^64. -/
lemma checkedFactor_eq {w fraction : ℕ} (hw : 64 ≤ w) (h : fraction < 65536) :
    checkedFactor w fraction = .ok (factor fraction) := by
  have hpow : 2 ^ 64 ≤ 2 ^ w := Nat.pow_le_pow_right (by decide) hw
  have h1 : fraction ≤ 65535 := by omega
  have h2 : fraction * fraction ≤ 65535 * 65535 := Nat.mul_le_mul h1 h1
  have h3 : fraction * fraction * fraction ≤ 65535 * 65535 * 65535 := Nat.mul_le_mul h2 h1
  unfold checkedFactor
  rw [unsigned_bind, unsigned_bind, unsigned_bind, unsigned_bind, unsigned_bind, unsigned_bind,
    unsigned_bind, unsigned_bind, unsigned_bind, unsigned_of_lt]
  · rfl
  all_goals
    simp only [Nat.mul_assoc] at h3 ⊢
    omega

lemma fraction_lt (exponent : ℤ) : (exponent % 65536).toNat < 65536 := by
  have := Int.emod_nonneg exponent (by decide : (65536 : ℤ) ≠ 0)
  have := Int.emod_lt_of_pos exponent (by decide : (0 : ℤ) < 65536)
  omega

/-! ## What the exponent gives

Both implementations are one function of the exponent: the reference times the factor of its
fraction, shifted by its integer part, between 1 and the limit. -/

/-- The exponent of a span. -/
def exponent (timeDiff heightDiff halfLife : ℤ) : ℤ :=
  ((timeDiff - spacing * heightDiff - spacing) * 65536).tdiv halfLife

/-- The target of an exponent: `reference * 2 ^ (exponent / 65536)`, rounded down, between 1 and
the limit. -/
def targetOf (reference limit : ℕ) (e : ℤ) : ℕ :=
  max 1 (min ⌊reference * scaled factor 65536 e / 2 ^ 16⌋₊ limit)

variable {reference limit : ℕ} {timeDiff heightDiff halfLife : ℤ}

lemma factor_pos (fraction : ℕ) : 0 < factor fraction :=
  Nat.add_pos_left (by decide) _

lemma factor_le_succ (fraction : ℕ) : factor fraction ≤ factor (fraction + 1) := by
  unfold factor
  gcongr <;> exact Nat.le_succ fraction

lemma factor_mono : Monotone factor :=
  monotone_nat_of_le_succ factor_le_succ

/-- The factor is below 2, in 16-bit fixed point. -/
lemma factor_lt {fraction : ℕ} (h : fraction < 65536) : factor fraction < 2 ^ 17 :=
  (factor_mono (Nat.le_of_lt_succ h)).trans_lt (by decide)

/-- A positive target, clamped. -/
lemma clamp_eq {next : ℕ} (h : 1 ≤ limit) :
    (if next = 0 then 1 else min next limit) = max 1 (min next limit) := by
  split
  · omega
  · omega

/-- The reference times the factor stays below the cap of the right shift. -/
lemma product_lt (hlimit : limit < 2 ^ 239) (hle : reference ≤ limit) (e : ℤ) :
    reference * factor (e % 65536).toNat < 2 ^ 256 := by
  calc reference * factor (e % 65536).toNat < 2 ^ 239 * 2 ^ 17 :=
        Nat.mul_lt_mul'' (hle.trans_lt hlimit) (factor_lt (fraction_lt e))
    _ = 2 ^ 256 := by decide

/-- The product of the reference and the factor, shifted by the integer part. -/
lemma floor_eq_shift (hlimit : limit < 2 ^ 239) (hle : reference ≤ limit) (e : ℤ) :
    let product := reference * factor (e % 65536).toNat
    let shifts := e / 65536 - 16
    ⌊reference * scaled factor 65536 e / 2 ^ 16⌋₊ =
      if shifts ≤ 0 then product / 2 ^ min shifts.natAbs 256 else product * 2 ^ shifts.natAbs := by
  intro product shifts
  rw [← floor_mul_zpow (product_lt hlimit hle e)]
  congr 1
  have hsixteen : (2 : ℚ) ^ (16 : ℤ) = 2 ^ 16 := zpow_ofNat 2 16
  rw [scaled, zpow_sub₀ two_ne_zero, Nat.cast_mul, hsixteen]
  simp only [Nat.cast_ofNat]
  ring

/-- `calculate` stops a left shift that would pass 256 bits: it would pass the limit too. -/
lemma min_shift_limit (hlimit : limit < 2 ^ 239) {product : ℕ} (hpos : 0 < product) (k : ℕ) :
    min (if bitLen product + k > 256 then limit else product * 2 ^ k) limit =
      min (product * 2 ^ k) limit := by
  split
  · rename_i hbits
    have hlow := (Safa.bitLen_spec hpos).2.1
    have hlarge : limit ≤ product * 2 ^ k := by
      calc limit ≤ 2 ^ 256 := hlimit.le.trans (Nat.pow_le_pow_right (by decide) (by decide))
        _ ≤ 2 ^ (bitLen product - 1 + k) := Nat.pow_le_pow_right (by decide) (by omega)
        _ = 2 ^ (bitLen product - 1) * 2 ^ k := Nat.pow_add ..
        _ ≤ product * 2 ^ k := Nat.mul_le_mul_right _ hlow
    rw [min_self, min_eq_right hlarge]
  · rfl

/-- `asert_target` stops a left shift at 256 bits. -/
lemma min_shift_cap (hlimit : limit < 2 ^ 239) {product : ℕ} (hpos : 0 < product) (k : ℕ) :
    min (product * 2 ^ min k 256) limit = min (product * 2 ^ k) limit := by
  rcases le_total k 256 with hk | hk
  · rw [min_eq_left hk]
  · have hlarge : limit ≤ product * 2 ^ 256 :=
      (hlimit.le.trans (Nat.pow_le_pow_right (by decide) (by decide))).trans
        (Nat.le_mul_of_pos_left _ hpos)
    have hmore : product * 2 ^ 256 ≤ product * 2 ^ k :=
      Nat.mul_le_mul_left _ (Nat.pow_le_pow_right (by decide) hk)
    rw [min_eq_right hk, min_eq_right hlarge, min_eq_right (hlarge.trans hmore)]

/-- The target with its shift to the right stopped at 256 bits, and its shift to the left computed in
any way that is right below the limit. -/
lemma targetOf_eq (hlimit : limit < 2 ^ 239) (hpos : 0 < reference) (hle : reference ≤ limit) {e : ℤ}
    {left : ℕ} :
    let product := reference * factor (e % 65536).toNat
    let shifts := e / 65536 - 16
    min left limit = min (product * 2 ^ shifts.natAbs) limit →
      let next := if shifts ≤ 0 then product / 2 ^ min shifts.natAbs 256 else left
      (if next = 0 then 1 else min next limit) = targetOf reference limit e := by
  intro product shifts hleft next
  rw [clamp_eq (Nat.lt_of_lt_of_le hpos hle), targetOf, floor_eq_shift hlimit hle]
  congr 1
  by_cases hshifts : shifts ≤ 0
  · simp only [next, if_pos hshifts, product, shifts]
  · have hup : ¬ e / 65536 - 16 ≤ 0 := hshifts
    simp only [next, if_neg hshifts, if_neg hup]
    exact hleft

/-- The target as `calculate` shifts it. -/
lemma targetOf_eq_limit (hlimit : limit < 2 ^ 239) (hpos : 0 < reference) (hle : reference ≤ limit)
    (e : ℤ) :
    let product := reference * factor (e % 65536).toNat
    let shifts := e / 65536 - 16
    let next :=
      if shifts ≤ 0 then product / 2 ^ min shifts.natAbs 256
      else if bitLen product + shifts.natAbs > 256 then limit else product * 2 ^ shifts.natAbs
    (if next = 0 then 1 else min next limit) = targetOf reference limit e :=
  targetOf_eq hlimit hpos hle (min_shift_limit hlimit (Nat.mul_pos hpos (factor_pos _)) _)

/-- The target as `asert_target` shifts it. -/
lemma targetOf_eq_cap (hlimit : limit < 2 ^ 239) (hpos : 0 < reference) (hle : reference ≤ limit)
    (e : ℤ) :
    let product := reference * factor (e % 65536).toNat
    let shifts := e / 65536 - 16
    let next :=
      if shifts ≤ 0 then product / 2 ^ min shifts.natAbs 256
      else product * 2 ^ min shifts.natAbs 256
    (if next = 0 then 1 else min next limit) = targetOf reference limit e :=
  targetOf_eq hlimit hpos hle (min_shift_cap hlimit (Nat.mul_pos hpos (factor_pos _)) _)

lemma Admits.not_refused (h : Admits reference timeDiff heightDiff limit halfLife) :
    ¬ (reference = 0 ∨ reference > limit ∨ halfLife ≤ 0) := by
  have := h.reference_pos
  have := h.reference_le
  have := h.halfLife_pos
  omega

lemma calculate_eq_targetOf (hlimit : limit < 2 ^ 239)
    (h : Admits reference timeDiff heightDiff limit halfLife) :
    calculate reference timeDiff heightDiff limit halfLife =
      some (targetOf reference limit (exponent timeDiff heightDiff halfLife)) := by
  rw [calculate, if_neg h.not_refused, if_neg (not_le.mpr h.span_lt)]
  exact congrArg some (targetOf_eq_limit hlimit (Nat.pos_of_ne_zero h.reference_pos)
    h.reference_le (exponent timeDiff heightDiff halfLife))

lemma asertTarget_eq_targetOf (h : Admits reference timeDiff heightDiff powLimit halfLife) :
    Safa.asertTarget reference timeDiff heightDiff halfLife =
      targetOf reference powLimit (exponent timeDiff heightDiff halfLife) :=
  targetOf_eq_cap (by decide) (Nat.pos_of_ne_zero h.reference_pos) h.reference_le
    (exponent timeDiff heightDiff halfLife)

/-! ## The widths -/

/-- `checked_mul` and `checked_sub` let an admitted span through. -/
lemma Admits.checkedSpan_eq (h : Admits reference timeDiff heightDiff limit halfLife) :
    checkedSpan timeDiff heightDiff = some (timeDiff - spacing * heightDiff) := by
  simp only [checkedSpan, signed_of_fits h.scheduled_fits, signed_of_fits h.span_fits,
    Except.toOption, Option.bind_eq_bind, Option.bind_some]

lemma checkedSpan_eq_some {span : ℤ} (h : checkedSpan timeDiff heightDiff = some span) :
    Fits 64 (spacing * heightDiff) ∧ Fits 64 (timeDiff - spacing * heightDiff) ∧
      span = timeDiff - spacing * heightDiff := by
  by_cases hscheduled : Fits 64 (spacing * heightDiff)
  · by_cases hspan : Fits 64 (timeDiff - spacing * heightDiff)
    · simp [checkedSpan, signed_of_fits, hscheduled, hspan, Except.toOption] at h
      exact ⟨hscheduled, hspan, h.symm⟩
    · simp [checkedSpan, signed, hscheduled, hspan, Except.toOption] at h
  · simp [checkedSpan, signed, hscheduled, Except.toOption] at h

/-- What is not admitted is refused. -/
lemma checkedCalculate_refused (h : ¬ Admits reference timeDiff heightDiff limit halfLife) :
    checkedCalculate reference timeDiff heightDiff limit halfLife = .ok none := by
  rw [checkedCalculate]
  split
  · rfl
  · rename_i hrefused
    cases hspan : checkedSpan timeDiff heightDiff with
    | none => rfl
    | some span =>
      obtain ⟨hscheduled, hfits, rfl⟩ := checkedSpan_eq_some hspan
      refine if_pos (not_lt.mp fun hlt => h ⟨?_, ?_, ?_, hscheduled, hfits, hlt⟩) <;> omega

/-- The exponent's dividend fits 64 bits exactly where the span is at least a spacing above the
lowest: the check on the span allows for the multiplication, not for the subtraction. -/
lemma Admits.dividend_fits_iff (h : Admits reference timeDiff heightDiff limit halfLife) :
    Fits 64 ((timeDiff - spacing * heightDiff - spacing) * 65536) ↔
      -2 ^ 47 ≤ timeDiff - spacing * (heightDiff + 1) := by
  have hspan := h.span_lt
  simp only [Fits, spacing] at *
  omega

lemma Admits.ahead_fits (h : Admits reference timeDiff heightDiff limit halfLife) :
    Fits 64 (timeDiff - spacing * heightDiff - spacing) := by
  have hspan := h.span_lt
  simp only [Fits, spacing] at *
  omega

/-- 128 bits are wide enough for every admitted input. -/
lemma Admits.wide (h : Admits reference timeDiff heightDiff limit halfLife) :
    Fits 128 (600 * heightDiff) ∧ Fits 128 (timeDiff - 600 * heightDiff) ∧
      Fits 128 (timeDiff - 600 * heightDiff - 600) ∧
      Fits 128 ((timeDiff - 600 * heightDiff - 600) * 65536) := by
  have hscheduled := h.scheduled_fits
  have hspan := h.span_lt
  simp only [Fits, spacing] at *
  omega

/-- The integer part of an exponent of at least 64 bits fits its type. -/
lemma shifts_fits {w : ℕ} (hw : 64 ≤ w) {e : ℤ} (h : Fits w e) : Fits w (e / 65536 - 16) := by
  have hpow : (2 : ℤ) ^ 63 ≤ 2 ^ (w - 1) := pow_le_pow_right₀ (by decide) (by omega)
  have hlo := h.1
  have hhi := h.2
  constructor <;> omega

lemma bitLen_le {n k : ℕ} (h : n < 2 ^ k) : bitLen n ≤ k := by
  unfold bitLen
  split
  · exact Nat.zero_le k
  · rename_i hn
    exact (Nat.log2_lt hn).mpr h

lemma checkedTarget_eq (hlimit : limit < 2 ^ 239) (hpos : 0 < reference) (hle : reference ≤ limit)
    {e : ℤ} (h : Fits 64 e) :
    checkedTarget reference limit e = .ok (targetOf reference limit e) := by
  have htarget := targetOf_eq_limit hlimit hpos hle e
  rw [checkedTarget, signed_bind (shifts_fits le_rfl h), checkedFactor_eq le_rfl (fraction_lt e)]
  by_cases hshifts : e / 65536 - 16 ≤ 0
  · simp only [if_pos hshifts] at htarget
    rw [← htarget]
    change (if _ then _ else _) = _
    rw [if_pos hshifts]
    rfl
  · have hbits :
        bitLen (reference * factor (e % 65536).toNat) + (e / 65536 - 16).natAbs < 2 ^ 64 := by
      have hlen := bitLen_le (product_lt hlimit hle e)
      have hlo := h.1
      have hhi := h.2
      omega
    simp only [if_neg hshifts] at htarget
    rw [← htarget]
    change (if _ then _ else _) = _
    rw [if_neg hshifts, unsigned_bind hbits]
    rfl

/-- Where the dividend fits, `calculate` computes its target. -/
lemma checkedCalculate_eq (hlimit : limit < 2 ^ 239)
    (h : Admits reference timeDiff heightDiff limit halfLife)
    (hlow : -2 ^ 47 ≤ timeDiff - spacing * (heightDiff + 1)) :
    checkedCalculate reference timeDiff heightDiff limit halfLife =
      .ok (some (targetOf reference limit (exponent timeDiff heightDiff halfLife))) := by
  have hdividend := h.dividend_fits_iff.mpr hlow
  have htarget := checkedTarget_eq hlimit (Nat.pos_of_ne_zero h.reference_pos) h.reference_le
    (hdividend.tdiv h.halfLife_pos)
  rw [checkedCalculate, if_neg h.not_refused, h.checkedSpan_eq]
  dsimp only
  rw [if_neg (not_le.mpr h.span_lt), signed_bind h.ahead_fits, signed_bind hdividend,
    signedDiv_bind h.halfLife_pos hdividend, htarget]
  rfl

/-- Where it does not, `calculate` stops. -/
lemma checkedCalculate_overflow (h : Admits reference timeDiff heightDiff limit halfLife)
    (hlow : ¬ -2 ^ 47 ≤ timeDiff - spacing * (heightDiff + 1)) :
    checkedCalculate reference timeDiff heightDiff limit halfLife = .error .overflow := by
  have hdividend := mt h.dividend_fits_iff.mp hlow
  rw [checkedCalculate, if_neg h.not_refused, h.checkedSpan_eq]
  dsimp only
  rw [if_neg (not_le.mpr h.span_lt), signed_bind h.ahead_fits, signed_bind_overflow hdividend]

/-- The arithmetic of `calculate` gives the exact result wherever it does not stop. -/
theorem checkedCalculate_eq_calculate (hlimit : limit < 2 ^ 239)
    (h : Admits reference timeDiff heightDiff limit halfLife)
    (hlow : -2 ^ 47 ≤ timeDiff - spacing * (heightDiff + 1)) :
    checkedCalculate reference timeDiff heightDiff limit halfLife =
      .ok (calculate reference timeDiff heightDiff limit halfLife) := by
  rw [checkedCalculate_eq hlimit h hlow, calculate_eq_targetOf hlimit h]

/-- The arithmetic of `asert_target` gives the exact result on every admitted input. -/
theorem checkedAsertTarget_eq (h : Admits reference timeDiff heightDiff powLimit halfLife) :
    checkedAsertTarget reference timeDiff heightDiff halfLife =
      .ok (Safa.asertTarget reference timeDiff heightDiff halfLife) := by
  obtain ⟨hscheduled, hspan, hahead, hdividend⟩ := h.wide
  have hexponent := hdividend.tdiv h.halfLife_pos
  rw [checkedAsertTarget, signed_bind hscheduled, signed_bind hspan, signed_bind hahead,
    signed_bind hdividend, signedDiv_bind h.halfLife_pos hdividend,
    checkedFactor_eq (by decide) (fraction_lt _)]
  change (signed 128 _ >>= _) = _
  rw [signed_bind (shifts_fits (by decide) hexponent)]
  rfl

/-! ## Agreement -/

/-- The two implementations agree, and neither overflows, exactly where the span is at least one
spacing above the lowest one admitted. -/
theorem calculate_eq_asertTarget (h : Admits reference timeDiff heightDiff powLimit halfLife) :
    (∃ target,
        checkedCalculate reference timeDiff heightDiff powLimit halfLife = .ok (some target) ∧
        checkedAsertTarget reference timeDiff heightDiff halfLife = .ok target) ↔
      -2 ^ 47 ≤ timeDiff - spacing * (heightDiff + 1) := by
  constructor
  · rintro ⟨target, hcalculate, -⟩
    by_contra hlow
    rw [checkedCalculate_overflow h hlow] at hcalculate
    cases hcalculate
  · intro hlow
    refine ⟨_, checkedCalculate_eq (by decide) h hlow, ?_⟩
    rw [checkedAsertTarget_eq h, asertTarget_eq_targetOf h]

/-- On schedule at Chipnet's anchor. -/
theorem calculate_eq_asertTarget_sample :
    Admits (65535 * 2 ^ 208) 600 0 powLimit 3600 ∧
      ∃ target, checkedCalculate (65535 * 2 ^ 208) 600 0 powLimit 3600 = .ok (some target) ∧
        checkedAsertTarget (65535 * 2 ^ 208) 600 0 3600 = .ok target :=
  have h : Admits (65535 * 2 ^ 208) 600 0 powLimit 3600 :=
    ⟨by decide, by decide, by decide, by decide, by decide, by decide⟩
  ⟨h, (calculate_eq_asertTarget h).mpr (by decide)⟩

/-- At the lowest span `calculate` overflows where the covenant's target is 1. -/
theorem calculate_overflows :
    Admits (65535 * 2 ^ 208) (-(2 ^ 47 - 1)) 0 powLimit 1 ∧
      checkedCalculate (65535 * 2 ^ 208) (-(2 ^ 47 - 1)) 0 powLimit 1 = .error .overflow ∧
      checkedAsertTarget (65535 * 2 ^ 208) (-(2 ^ 47 - 1)) 0 1 = .ok 1 :=
  ⟨⟨by decide, by decide, by decide, by decide, by decide, by decide⟩, by decide +kernel,
    by decide +kernel⟩

/-! ## Monotonicity -/

lemma scaled_factor_mono : Monotone (scaled factor 65536) :=
  scaled_mono (by decide) (fun i _ => factor_le_succ i) (by decide +kernel)

/-- The target goes up with the exponent. -/
lemma targetOf_mono : Monotone (targetOf reference limit) := by
  intro e e' h
  have hscaled := scaled_factor_mono h
  unfold targetOf
  gcongr

/-- The exponent goes up with the time and down with the height. -/
lemma exponent_mono {timeDiff' heightDiff' : ℤ} (hhalf : 0 < halfLife)
    (htime : timeDiff ≤ timeDiff') (hheight : heightDiff' ≤ heightDiff) :
    exponent timeDiff heightDiff halfLife ≤ exponent timeDiff' heightDiff' halfLife := by
  refine Int.tdiv_le_tdiv hhalf ?_
  simp only [spacing]
  omega

lemma targetOf_bounds (hpos : 0 < limit) (e : ℤ) :
    1 ≤ targetOf reference limit e ∧ targetOf reference limit e ≤ limit :=
  ⟨le_max_left _ _, max_le hpos (min_le_right _ _)⟩

/-- On one admitted input before another, in time and above it in height, `calculate` gives
targets in order, between 1 and the limit, exactly where the first is not within one spacing of
the lowest span. -/
lemma calculate_mono_iff {timeDiff' heightDiff' : ℤ} (hlimit : limit < 2 ^ 239)
    (h : Admits reference timeDiff heightDiff limit halfLife)
    (h' : Admits reference timeDiff' heightDiff' limit halfLife) (htime : timeDiff ≤ timeDiff')
    (hheight : heightDiff' ≤ heightDiff) :
    (∃ target target', checkedCalculate reference timeDiff heightDiff limit halfLife =
          .ok (some target) ∧
        checkedCalculate reference timeDiff' heightDiff' limit halfLife = .ok (some target') ∧
        1 ≤ target ∧ target ≤ target' ∧ target' ≤ limit) ↔
      -2 ^ 47 ≤ timeDiff - spacing * (heightDiff + 1) := by
  constructor
  · rintro ⟨target, target', hcalculate, -⟩
    by_contra hlow
    rw [checkedCalculate_overflow h hlow] at hcalculate
    cases hcalculate
  · intro hlow
    have hlow' : -2 ^ 47 ≤ timeDiff' - spacing * (heightDiff' + 1) := by
      simp only [spacing] at *
      omega
    have hpos := (Nat.pos_of_ne_zero h.reference_pos).trans_le h.reference_le
    exact ⟨_, _, checkedCalculate_eq hlimit h hlow, checkedCalculate_eq hlimit h' hlow',
      (targetOf_bounds hpos _).1, targetOf_mono (exponent_mono h.halfLife_pos htime hheight),
      (targetOf_bounds hpos _).2⟩

/-! ## Chipnet -/

/-- Chipnet's reference target is that of its anchor's bits. -/
lemma chipnet_reference :
    ∃ reference, compactTarget chipnet.bits = .ok reference ∧
      fromLe reference.bytes = 65535 * 2 ^ 208 :=
  ⟨targetOfNat (65535 * 2 ^ 208), by decide +kernel, fromLe_leBytes_of_lt (by decide)⟩

/-- From a `u32` time and height the span is far from its bounds. -/
lemma chipnet_admits {parentHeight parentTime : UInt32} (h : chipnet.height ≤ parentHeight) :
    Fits 64 (parentTime.toNat - chipnet.parentTime) ∧
      Admits (65535 * 2 ^ 208) (parentTime.toNat - chipnet.parentTime)
        (parentHeight.toNat - chipnet.height.toNat : ℕ) powLimit chipnet.halfLife ∧
      -2 ^ 47 ≤ parentTime.toNat - chipnet.parentTime -
        spacing * ((parentHeight.toNat - chipnet.height.toNat : ℕ) + 1) := by
  have htime := parentTime.toNat_lt
  have hheight := parentHeight.toNat_lt
  have hle := UInt32.le_iff_toNat_le.mp h
  have hanchor : chipnet.height.toNat = 16844 := rfl
  have hparent : chipnet.parentTime = 1605451779 := rfl
  refine ⟨?_, ⟨by decide, by decide, by decide, ?_, ?_, ?_⟩, ?_⟩
  all_goals
    simp only [Fits, spacing, hanchor, hparent] at *
    omega

/-- `next_bits` with Chipnet's anchor gives bits, without overflow, from every height on. -/
lemma chipnet_nextBits {parentHeight : UInt32} (parentTime : UInt32)
    (h : chipnet.height ≤ parentHeight) :
    ∃ bits, checkedNextBits chipnet parentHeight parentTime = .ok (some bits) := by
  obtain ⟨reference, hreference, hvalue⟩ := chipnet_reference
  obtain ⟨hfits, hadmits, hlow⟩ := @chipnet_admits _ parentTime h
  rw [checkedNextBits, if_neg (UInt32.not_lt.mpr h), signed_bind hfits, hreference]
  dsimp only
  rw [hvalue, checkedCalculate_eq (by decide) hadmits hlow]
  exact ⟨_, rfl⟩

/-- ASERT is monotone in the time and the height and stays within its limits on the admitted
inputs not within one spacing of the lowest span, and total for Chipnet. -/
theorem calculate_monotone {timeDiff' heightDiff' : ℤ} (hlimit : limit < 2 ^ 239)
    (h : Admits reference timeDiff heightDiff limit halfLife)
    (h' : Admits reference timeDiff' heightDiff' limit halfLife) (htime : timeDiff ≤ timeDiff')
    (hheight : heightDiff' ≤ heightDiff) :
    ((∃ target target', checkedCalculate reference timeDiff heightDiff limit halfLife =
            .ok (some target) ∧
          checkedCalculate reference timeDiff' heightDiff' limit halfLife = .ok (some target') ∧
          1 ≤ target ∧ target ≤ target' ∧ target' ≤ limit) ↔
        -2 ^ 47 ≤ timeDiff - spacing * (heightDiff + 1)) ∧
      ∀ parentHeight parentTime : UInt32, chipnet.height ≤ parentHeight →
        ∃ bits, checkedNextBits chipnet parentHeight parentTime = .ok (some bits) :=
  ⟨calculate_mono_iff hlimit h h' htime hheight, fun _ parentTime => chipnet_nextBits parentTime⟩

/-- From one spacing behind schedule to two, and a block less. -/
theorem calculate_monotone_sample :
    ∃ target target', checkedCalculate 65535 600 1 powLimit 3600 = .ok (some target) ∧
      checkedCalculate 65535 1200 0 powLimit 3600 = .ok (some target') ∧
      1 ≤ target ∧ target ≤ target' ∧ target' ≤ powLimit :=
  (calculate_monotone (by decide) ⟨by decide, by decide, by decide, by decide, by decide, by decide⟩
    ⟨by decide, by decide, by decide, by decide, by decide, by decide⟩ (by decide)
    (by decide)).1.mpr (by decide)

/-- At the lowest span there is no target: `calculate` overflows, and so does `next_bits` with an
anchor that late. -/
theorem calculate_not_total :
    Admits 1 (-(2 ^ 47 - 1)) 0 powLimit 1 ∧
      (¬ ∃ target, checkedCalculate 1 (-(2 ^ 47 - 1)) 0 powLimit 1 = .ok (some target)) ∧
      checkedNextBits ⟨0, 0x01010000, 2 ^ 47 - 1, 1⟩ 0 0 = .error .overflow := by
  have hoverflow : checkedCalculate 1 (-(2 ^ 47 - 1)) 0 powLimit 1 = .error .overflow := by
    decide +kernel
  refine ⟨⟨by decide, by decide, by decide, by decide, by decide, by decide⟩, ?_, by decide +kernel⟩
  rintro ⟨target, htarget⟩
  rw [hoverflow] at htarget
  cases htarget

end Pickaxe.Asert
