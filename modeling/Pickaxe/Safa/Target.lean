/-
# The target of a thread over many claims

Every claim eases or tightens its thread's target and rounds it down to three significant
bytes.  The rounded target is never 0 and always canonical, so the next claim can read it: a
thread cannot freeze, whatever claims are made on it (`target_never_freezes`).
-/
import Pickaxe.Safa.Thread

namespace Pickaxe.Safa

open Lib

/-! ## Rounding -/

/-- The length of a target as a script number, at least 3. -/
def scriptSize (target : ℕ) : ℕ := max ((Asert.bitLen target + 1 + 7) / 8) 3

/-- The three significant bytes of a target. -/
def scriptMantissa (target : ℕ) : ℕ := target / 2 ^ (8 * (scriptSize target - 3))

/-- A target as its bits keep it. -/
def roundDown (target : ℕ) : ℕ := scriptMantissa target * 2 ^ (8 * (scriptSize target - 3))

lemma bitLen_spec {n : ℕ} (h : 0 < n) :
    0 < Asert.bitLen n ∧ 2 ^ (Asert.bitLen n - 1) ≤ n ∧ n < 2 ^ Asert.bitLen n := by
  rw [Asert.bitLen, if_neg (by omega)]
  exact ⟨by omega, Nat.log2_self_le (by omega), Nat.lt_log2_self⟩

lemma bitLen_mono {m n : ℕ} (h : m ≤ n) : Asert.bitLen m ≤ Asert.bitLen n := by
  by_cases hm : m = 0
  · rw [Asert.bitLen, if_pos hm]
    exact Nat.zero_le _
  · have hlow := (bitLen_spec (n := m) (by omega)).2.1
    have hhigh := (bitLen_spec (n := n) (by omega)).2.2
    have hlt := (Nat.pow_lt_pow_iff_right (by omega : 1 < 2)).mp ((hlow.trans h).trans_lt hhigh)
    omega

lemma scriptSize_mono {m n : ℕ} (h : m ≤ n) : scriptSize m ≤ scriptSize n := by
  have := bitLen_mono h
  unfold scriptSize
  omega

/-- A target is below the sign bit of its size. -/
lemma lt_scriptSize {target : ℕ} (h : 0 < target) : target < 2 ^ (8 * scriptSize target - 1) := by
  refine (bitLen_spec h).2.2.trans_le (Nat.pow_le_pow_right (by omega) ?_)
  unfold scriptSize
  omega

/-- A size above 3 is needed. -/
lemma scriptSize_le {target : ℕ} (h : 0 < target) (hsize : 3 < scriptSize target) :
    2 ^ (8 * scriptSize target - 9) ≤ target := by
  refine le_trans (Nat.pow_le_pow_right (by omega) ?_) (bitLen_spec h).2.1
  unfold scriptSize at *
  omega

lemma scriptMantissa_lt {target : ℕ} (h : 0 < target) : scriptMantissa target < 0x800000 := by
  have hlt := lt_scriptSize h
  have hsize : 3 ≤ scriptSize target := le_max_right _ _
  rw [scriptMantissa, Nat.div_lt_iff_lt_mul (by positivity)]
  have hpow : (0x800000 : ℕ) * 2 ^ (8 * (scriptSize target - 3)) =
      2 ^ (8 * scriptSize target - 1) := by
    rw [show (0x800000 : ℕ) = 2 ^ 23 by norm_num, ← Nat.pow_add]
    congr 1
    omega
  rwa [hpow]

/-- The rounded target has a leading byte or a second one. -/
lemma le_roundDown {target : ℕ} (h : 0 < target) (hsize : 3 < scriptSize target) :
    2 ^ (8 * scriptSize target - 9) ≤ roundDown target := by
  have hpow : 2 ^ (8 * scriptSize target - 9) = 2 ^ 15 * 2 ^ (8 * (scriptSize target - 3)) := by
    rw [← Nat.pow_add]
    congr 1
    omega
  have hle := scriptSize_le h hsize
  rw [hpow] at hle ⊢
  exact Nat.mul_le_mul_right _ ((Nat.le_div_iff_mul_le (by positivity)).mpr hle)

lemma scriptMantissa_pos {target : ℕ} (h : 0 < target) : 0 < scriptMantissa target := by
  rcases Nat.lt_or_ge 3 (scriptSize target) with hsize | hsize
  · have hle := (Nat.two_pow_pos _).trans_le (le_roundDown h hsize)
    exact Nat.pos_of_mul_pos_right hle
  · rw [scriptMantissa, show scriptSize target - 3 = 0 by omega]
    simpa using h

lemma roundDown_le (target : ℕ) : roundDown target ≤ target := Nat.div_mul_le_self _ _

/-- Rounding keeps the order. -/
lemma roundDown_mono {s t : ℕ} (hs : 0 < s) (h : s ≤ t) : roundDown s ≤ roundDown t := by
  rcases Nat.eq_or_lt_of_le (scriptSize_mono h) with hsize | hsize
  · rw [roundDown, roundDown, scriptMantissa, scriptMantissa, hsize]
    exact Nat.mul_le_mul_right _ (Nat.div_le_div_right h)
  · have hthree : 3 ≤ scriptSize s := le_max_right _ _
    calc roundDown s ≤ s := roundDown_le s
      _ ≤ 2 ^ (8 * scriptSize s - 1) := (lt_scriptSize hs).le
      _ ≤ 2 ^ (8 * scriptSize t - 9) := Nat.pow_le_pow_right (by omega) (by omega)
      _ ≤ roundDown t := le_roundDown (by omega) (by omega)

lemma scriptSize_le_max {target : ℕ} (h : target ≤ maxTokenTarget) : scriptSize target ≤ 32 := by
  have hmax : scriptSize maxTokenTarget = 32 := by decide +kernel
  exact hmax ▸ scriptSize_mono h

/-! ## Encoding -/

/-- Bits are a target's when they are its size and its mantissa, neither cut. -/
structure Encodes (bits : UInt32) (target : ℕ) : Prop where
  bits_eq : bits.toNat = scriptSize target * 2 ^ 24 + scriptMantissa target
  size : 3 ≤ scriptSize target ∧ scriptSize target ≤ 32
  mantissa : 0 < scriptMantissa target ∧ scriptMantissa target < 0x800000

/-- Every target from 1 to the easiest has its bits. -/
lemma encodeTokenTarget_encodes {target : ℕ} (hpos : 0 < target) (hmax : target ≤ maxTokenTarget) :
    ∃ bits, encodeTokenTarget target = some bits ∧ Encodes bits target := by
  have hsize := scriptSize_le_max hmax
  have hthree : 3 ≤ scriptSize target := le_max_right _ _
  have hmantissa := scriptMantissa_lt hpos
  refine ⟨UInt32.ofNat (scriptSize target) <<< 24 ||| UInt32.ofNat (scriptMantissa target), ?_, ?_,
    ⟨hthree, hsize⟩, scriptMantissa_pos hpos, hmantissa⟩
  · rw [encodeTokenTarget, if_neg (by omega)]
    exact if_neg (Nat.not_le.mpr (show scriptMantissa target < 2 ^ 32 by omega))
  · have hword : (UInt32.ofNat (scriptSize target) <<< 24).toNat = scriptSize target * 2 ^ 24 := by
      rw [UInt32.toNat_shiftLeft, UInt32.toNat_ofNat_of_lt' (by rw [UInt32.size]; omega),
        Nat.shiftLeft_eq, show (24 : UInt32).toNat % 32 = 24 from rfl]
      exact Nat.mod_eq_of_lt (by omega)
    rw [UInt32.toNat_or, hword, UInt32.toNat_ofNat_of_lt' (by rw [UInt32.size]; omega),
      Nat.mul_comm, Nat.two_pow_add_eq_or_of_lt (by omega)]

/-- Bits expand to their target, rounded down. -/
lemma Encodes.expand {bits : UInt32} {target : ℕ} (h : Encodes bits target) :
    expandTokenTarget bits = some (roundDown target) ∧ 0 < roundDown target := by
  have hlow := h.mantissa
  have hsize := h.size
  have hdiv : bits.toNat / 2 ^ 24 = scriptSize target := by
    rw [h.bits_eq]
    omega
  have hmod : bits.toNat % 2 ^ 24 = scriptMantissa target := by
    rw [h.bits_eq]
    omega
  refine ⟨?_, Nat.mul_pos hlow.1 (by positivity)⟩
  simp only [expandTokenTarget, hdiv, hmod]
  rw [if_neg (by omega)]
  rfl

/-- A larger target has larger bits. -/
lemma Encodes.mono {b c : UInt32} {s t : ℕ} (hb : Encodes b s) (hc : Encodes c t) (h : s ≤ t) :
    b ≤ c := by
  have hlow := hb.mantissa
  rw [UInt32.le_iff_toNat_le, hb.bits_eq, hc.bits_eq]
  rcases Nat.eq_or_lt_of_le (scriptSize_mono h) with hsize | hsize
  · have hmantissa : scriptMantissa s ≤ scriptMantissa t := by
      rw [scriptMantissa, scriptMantissa, hsize]
      exact Nat.div_le_div_right h
    omega
  · omega

/-! ## Claims -/

/-- The factor a claim multiplies its target by, in ten-thousandths. -/
def claimFactor (heightDelta threads : UInt32) : ℕ :=
  min heightDelta.toNat easeCap * 5000 / threads.toNat + 5000

/-- The eased target, from 1 to the easiest. -/
def easedTarget (target : ℕ) (heightDelta threads : UInt32) : ℕ :=
  min (max (target * claimFactor heightDelta threads / 10000) 1) maxTokenTarget

lemma claimTargetBits_eq {bits heightDelta threads : UInt32} {target : ℕ}
    (hthreads : threads ≠ 0) (hdelta : heightDelta ≠ 0) (h : expandTokenTarget bits = some target) :
    claimTargetBits bits heightDelta threads =
      encodeTokenTarget (easedTarget target heightDelta threads) := by
  rw [claimTargetBits, if_neg (by simp [hthreads, hdelta]), h]
  rfl

lemma easedTarget_bounds (target : ℕ) (heightDelta threads : UInt32) :
    0 < easedTarget target heightDelta threads ∧
      easedTarget target heightDelta threads ≤ maxTokenTarget := by
  have hmax : 0 < maxTokenTarget := by decide +kernel
  rw [easedTarget]
  omega

/-- More blocks never make a claim harder. -/
lemma easedTarget_mono (target : ℕ) {d e : UInt32} (threads : UInt32) (h : d ≤ e) :
    easedTarget target d threads ≤ easedTarget target e threads := by
  have hfactor : claimFactor d threads ≤ claimFactor e threads := by
    rw [UInt32.le_iff_toNat_le] at h
    exact Nat.add_le_add_right (Nat.div_le_div_right (Nat.mul_le_mul_right _ (by omega))) _
  have hmul : target * claimFactor d threads / 10000 ≤ target * claimFactor e threads / 10000 :=
    Nat.div_le_div_right (Nat.mul_le_mul_left _ hfactor)
  rw [easedTarget, easedTarget]
  omega

/-- `claim_target_bits`, claim after claim: the target bits after the claims' height deltas and
thread counts. -/
def claimRun (bits : UInt32) : List (UInt32 × UInt32) → Option UInt32
  | [] => some bits
  | (heightDelta, threads) :: claims => do
    claimRun (← claimTargetBits bits heightDelta threads) claims

/-- A claim that can be made: at least one block on, one to 63 threads. -/
def Claimable (claim : UInt32 × UInt32) : Prop := 1 ≤ claim.1 ∧ 1 ≤ claim.2 ∧ claim.2 ≤ 63

lemma Claimable.ne_zero {claim : UInt32 × UInt32} (h : Claimable claim) :
    claim.1 ≠ 0 ∧ claim.2 ≠ 0 := by
  obtain ⟨hdelta, hthreads, -⟩ := h
  rw [UInt32.le_iff_toNat_le] at hdelta hthreads
  refine ⟨?_, ?_⟩ <;> (intro heq; simp [heq] at hdelta hthreads)

/-- A canonical target. -/
def Canonical (bits : UInt32) : Prop := ∃ target, expandTokenTarget bits = some target ∧ 0 < target

/-- One claim on a canonical target encodes the eased target. -/
lemma claimTargetBits_encodes {bits : UInt32} (hbits : (expandTokenTarget bits).isSome)
    {claim : UInt32 × UInt32} (hclaim : Claimable claim) : ∃ target next,
      expandTokenTarget bits = some target ∧
      claimTargetBits bits claim.1 claim.2 = some next ∧
      Encodes next (easedTarget target claim.1 claim.2) := by
  obtain ⟨target, htarget⟩ := Option.isSome_iff_exists.mp hbits
  obtain ⟨hpos, hmax⟩ := easedTarget_bounds target claim.1 claim.2
  obtain ⟨next, hnext, hencodes⟩ := encodeTokenTarget_encodes hpos hmax
  refine ⟨target, next, htarget, ?_, hencodes⟩
  rw [claimTargetBits_eq hclaim.ne_zero.2 hclaim.ne_zero.1 htarget, hnext]

/-- A run of claims ends in a canonical target. -/
lemma claimRun_canonical {bits : UInt32} (hbits : Canonical bits)
    {claims : List (UInt32 × UInt32)} (hclaims : ∀ claim ∈ claims, Claimable claim) :
    ∃ last, claimRun bits claims = some last ∧ Canonical last := by
  induction claims generalizing bits with
  | nil => exact ⟨bits, rfl, hbits⟩
  | cons claim claims ih =>
    obtain ⟨target, htarget, -⟩ := hbits
    obtain ⟨_, next, -, hnext, hencodes⟩ := claimTargetBits_encodes
      (Option.isSome_iff_exists.mpr ⟨target, htarget⟩) (hclaims claim List.mem_cons_self)
    obtain ⟨last, hlast, hcanonical⟩ := ih ⟨_, hencodes.expand⟩
      fun c hc => hclaims c (List.mem_cons_of_mem _ hc)
    refine ⟨last, ?_, hcanonical⟩
    rw [claimRun, hnext]
    exact hlast

/-- A thread never freezes.  After any claims the target is canonical and above 0; the next
claim then succeeds, no number in it is cut, and more blocks give no smaller a target. -/
theorem target_never_freezes {bits : UInt32} (hbits : (expandTokenTarget bits).isSome)
    {claims : List (UInt32 × UInt32)} (hclaims : ∀ claim ∈ claims, Claimable claim) :
    ∃ last target, claimRun bits claims = some last ∧ expandTokenTarget last = some target ∧
      0 < target ∧
      -- no overflow
      (∀ d threads, Claimable (d, threads) → min d.toNat easeCap * 5000 < 2 ^ 64 ∧
        claimFactor d threads < 2 ^ 64 ∧ ∃ next, claimTargetBits last d threads = some next ∧
          Encodes next (easedTarget target d threads)) ∧
      -- monotone
      ∀ d e threads, Claimable (d, threads) → d ≤ e →
        ∃ b c s t, claimTargetBits last d threads = some b ∧ claimTargetBits last e threads = some c ∧
          b ≤ c ∧ expandTokenTarget b = some s ∧ expandTokenTarget c = some t ∧ s ≤ t := by
  have hcanonical : Canonical bits := by
    obtain ⟨target, htarget⟩ := Option.isSome_iff_exists.mp hbits
    exact ⟨target, htarget, (expandTokenTarget_le htarget).1⟩
  obtain ⟨last, hlast, target, htarget, hpos⟩ := claimRun_canonical hcanonical hclaims
  have hone : ∀ d threads, Claimable (d, threads) → ∃ next,
      claimTargetBits last d threads = some next ∧
        Encodes next (easedTarget target d threads) := by
    intro d threads hclaim
    obtain ⟨target', next, htarget', hnext, hencodes⟩ := claimTargetBits_encodes
      (Option.isSome_iff_exists.mpr ⟨target, htarget⟩) hclaim
    rw [htarget, Option.some.injEq] at htarget'
    subst htarget'
    exact ⟨next, hnext, hencodes⟩
  refine ⟨last, target, hlast, htarget, hpos, ?_, ?_⟩
  · intro d threads hclaim
    have hcap : min d.toNat easeCap ≤ 288 := min_le_right _ _
    have hdiv : min d.toNat easeCap * 5000 / threads.toNat ≤ min d.toNat easeCap * 5000 :=
      Nat.div_le_self _ _
    refine ⟨by omega, ?_, hone d threads hclaim⟩
    rw [claimFactor]
    omega
  · intro d e threads hclaim hle
    obtain ⟨b, hb, hencodes⟩ := hone d threads hclaim
    obtain ⟨c, hc, hencodes'⟩ := hone e threads ⟨UInt32.le_trans hclaim.1 hle, hclaim.2⟩
    have heased := easedTarget_mono target threads hle
    exact ⟨b, c, _, _, hb, hc, hencodes.mono hencodes' heased, hencodes.expand.1,
      hencodes'.expand.1, roundDown_mono (easedTarget_bounds _ _ _).1 heased⟩

/-- The hardest target, tightened once by a busy deployment and then left alone for a day. -/
theorem target_never_freezes_hardest :
    ∃ last target, claimRun 0x03000001 [(1, 63), (144, 63)] = some last ∧
      expandTokenTarget last = some target ∧ 0 < target := by
  have hbits : (expandTokenTarget 0x03000001).isSome := by decide
  have hclaims : ∀ claim ∈ [(1, 63), (144, 63)], Claimable claim := by simp [Claimable]
  obtain ⟨last, target, hlast, htarget, hpos, -⟩ := target_never_freezes hbits hclaims
  exact ⟨last, target, hlast, htarget, hpos⟩

end Pickaxe.Safa
