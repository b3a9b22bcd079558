/-
# The proof-of-work tests

A PHOTON claim's digest is compared with the target three times: on a GPU with bytes, on one
without, and by the host before it broadcasts; and a GPU drops most digests earlier, on one byte.
All of them decide the covenant's rule (`tests_agree`).
-/
import Pickaxe.Lib.Compare
import Pickaxe.Lib.ScriptNum
import Pickaxe.Engine.Compress
import Pickaxe.Photon.Baton

namespace Pickaxe.Engine.Meets

open Lib Lib.Compare Photon

/-! ## The covenant's rule -/

/-- The rule on numbers: the digest without its highest bit is below the target, and under the
positive rule the digest is a positive script number and the target is not zero. -/
def Accepts (rule : ProofRule) (digest target : Hash) : Prop :=
  fromLe digest.bytes % 2 ^ 255 < fromLe target.bytes ∧
    (rule = .positive → 0 < Script.value digest.bytes ∧ fromLe target.bytes ≠ 0)

/-- A byte by its index. -/
def at' (v : Hash) (i : ℕ) : UInt8 := v.bytes.getD i 0

/-! ## `gpu.rs` -/

/-- The loop of `meets`, on the bytes below `i`. -/
def meetsFrom (hash target : Hash) (strictPositive : Bool) : ℕ → Bool
  | 0 => false
  | i + 1 =>
    let byte := if i = 31 ∧ ¬ strictPositive then at' hash i &&& 0x7f else at' hash i
    if byte ≠ at' target i then
      decide (byte < at' target i) && (!strictPositive || hash.bytes.any (· ≠ 0))
    else meetsFrom hash target strictPositive i

/-- `meets`. -/
def meets (hash target : Hash) (strictPositive : Bool) : Bool :=
  if strictPositive ∧ at' hash 31 &&& 0x80 ≠ 0 then false
  else meetsFrom hash target strictPositive 32

/-! ## `window.rs` -/

/-- `byte`: of a big-endian packed byte string. -/
def byte (words : List UInt32) (offset : ℕ) : UInt32 :=
  (words.getD (offset / 4) 0 >>> UInt32.ofNat ((3 - offset % 4) * 8)) &&& 0xff

/-- `byte32`: of 32 bytes held as big-endian words. -/
def byte32 (words : Words 8) (offset : ℕ) : UInt32 :=
  (words.word (offset / 4) >>> UInt32.ofNat ((3 - offset % 4) * 8)) &&& 0xff

/-- The loop of `below_target`, on the bytes below `i`. -/
def belowTargetFrom (digest : Words 8) (template : List UInt32) (targetOffset : ℕ) : ℕ → Bool
  | 0 => false
  | i + 1 =>
    let value := if i = 31 then byte32 digest i &&& 0x7f else byte32 digest i
    let target := byte template (targetOffset + i)
    if value ≠ target then decide (value < target)
    else belowTargetFrom digest template targetOffset i

/-- `below_target`. -/
def belowTarget (digest : Words 8) (template : List UInt32) (targetOffset : ℕ) (positive : Bool) :
    Bool :=
  let d := digest.word
  if positive ∧ (d 7 &&& 0x80 ≠ 0 ∨
      d 0 ||| d 1 ||| d 2 ||| d 3 ||| d 4 ||| d 5 ||| d 6 ||| d 7 = 0) then false
  else belowTargetFrom digest template targetOffset 32

/-! ## `proof.rs` -/

/-- The loop of `meets_target_le`, on the bytes below `i`. -/
def meetsTargetLeFrom (digest target : Hash) : ℕ → Bool
  | 0 => false
  | i + 1 =>
    if at' digest i < at' target i then true
    else if at' digest i > at' target i then false
    else meetsTargetLeFrom digest target i

/-- `meets_target_le`. -/
def meetsTargetLe (digest target : Hash) : Bool :=
  let top := at' digest 31 &&& 0x7f
  if top ≠ at' target 31 then top < at' target 31 else meetsTargetLeFrom digest target 31

/-- `meets_target_le_for_rule`. -/
def meetsTargetLeForRule (digest target : Hash) (rule : ProofRule) : Bool :=
  if rule = .positive ∧ (at' digest 31 &&& 0x80 ≠ 0 ∨ digest.bytes.all (· = 0) ∨
      at' target 31 &&& 0x80 ≠ 0 ∨ target.bytes.all (· = 0)) then false
  else meetsTargetLe digest target

/-! ## The digest without its highest bit -/

/-- A byte of the digest as it is compared: the last one without its highest bit. -/
def compared (digest : Hash) (i : ℕ) : ℕ :=
  if i = 31 then (at' digest i).toNat % 128 else (at' digest i).toNat

variable {digest target : Hash} {rule : ProofRule}

lemma and_7f (x : UInt8) : (x &&& 0x7f).toNat = x.toNat % 128 := by
  rw [UInt8.toNat_and]
  exact Nat.and_two_pow_sub_one_eq_mod _ 7

lemma and_80 (x : UInt8) : x &&& 0x80 = 0 ↔ x.toNat < 128 := by
  have h : ∀ n : Fin 256, UInt8.ofNat n &&& 0x80 = 0 ↔ (UInt8.ofNat n).toNat < 128 := by
    decide +kernel
  have hx := h ⟨x.toNat, x.toNat_lt⟩
  rwa [UInt8.ofNat_toNat] at hx

lemma compared_lt (digest : Hash) (i : ℕ) : compared digest i < 256 := by
  have := (at' digest i).toNat_lt
  unfold compared
  split
  · omega
  · omega

lemma fromLe_eq_value (v : Hash) :
    fromLe v.bytes =
      digitsValue 256 (fun i => (at' v i).toNat) 31 + 256 ^ 31 * (at' v 31).toNat := by
  have h := fromLe_eq_digitsValue v.bytes
  rw [v.length_bytes] at h
  exact h

/-- Clearing the highest bit is a remainder. -/
lemma compared_value (digest : Hash) :
    digitsValue 256 (compared digest) 32 = fromLe digest.bytes % 2 ^ 255 := by
  have hlow : digitsValue 256 (compared digest) 31 =
      digitsValue 256 (fun i => (at' digest i).toNat) 31 :=
    digitsValue_congr fun i hi => if_neg (by omega)
  have hlt : digitsValue 256 (fun i => (at' digest i).toNat) 31 < 256 ^ 31 :=
    digitsValue_lt (by decide) fun i _ => (at' digest i).toNat_lt
  have hpow : (2 : ℕ) ^ 255 = 256 ^ 31 * 128 := by decide
  rw [digitsValue, hlow, compared, if_pos rfl, fromLe_eq_value, hpow, Nat.mod_mul,
    Nat.add_mul_mod_self_left, Nat.mod_eq_of_lt hlt, Nat.add_mul_div_left _ _ (by positivity),
    Nat.div_eq_of_lt hlt, Nat.zero_add]

/-- The comparison of the bytes is the comparison of the numbers. -/
lemma below_compared_iff :
    below (compared digest) (fun i => (at' target i).toNat) 32 = true ↔
      fromLe digest.bytes % 2 ^ 255 < fromLe target.bytes := by
  rw [below_iff (by decide) (fun i _ => compared_lt digest i) (fun i _ => (at' target i).toNat_lt),
    compared_value, fromLe_eq_value target]
  rfl

/-! ## The zero digest and the signs -/

lemma fromLe_eq_zero_iff {b : Bytes} : fromLe b = 0 ↔ ∀ x ∈ b, x = 0 := by
  induction b with
  | nil => simp [fromLe_nil]
  | cons x b ih =>
    rw [fromLe_cons, List.forall_mem_cons, ← ih, ← UInt8.toNat_inj]
    have h0 : (0 : UInt8).toNat = 0 := rfl
    omega

lemma all_zero_iff {b : Bytes} : b.all (· = 0) = true ↔ fromLe b = 0 := by
  rw [fromLe_eq_zero_iff, List.all_eq_true]
  simp

lemma any_ne_zero_iff {b : Bytes} : b.any (· ≠ 0) = true ↔ fromLe b ≠ 0 := by
  rw [Ne, fromLe_eq_zero_iff, List.any_eq_true]
  simp

/-- The sign bit of 32 bytes. -/
lemma sign_iff (v : Hash) : (at' v 31).toNat < 128 ↔ fromLe v.bytes < 2 ^ 255 := by
  have hlt : digitsValue 256 (fun i => (at' v i).toNat) 31 < 256 ^ 31 :=
    digitsValue_lt (by decide) fun i _ => (at' v i).toNat_lt
  have hpow : (2 : ℕ) ^ 255 = 256 ^ 31 * 128 := by decide
  rw [fromLe_eq_value, hpow]
  constructor
  · intro h
    have := Nat.mul_le_mul_left (256 ^ 31) (show (at' v 31).toNat + 1 ≤ 128 from h)
    rw [Nat.mul_add, Nat.mul_one] at this
    omega
  · intro h
    by_contra hge
    have := Nat.mul_le_mul_left (256 ^ 31) (not_lt.mp hge)
    omega

/-- A script number of 32 bytes is positive where its sign bit is clear and it is not zero. -/
lemma value_pos_iff (v : Hash) :
    0 < Script.value v.bytes ↔ fromLe v.bytes < 2 ^ 255 ∧ fromLe v.bytes ≠ 0 := by
  have hlen : 8 * v.bytes.length - 1 = 255 := by rw [v.length_bytes]
  have hne : v.bytes ≠ [] := List.ne_nil_of_length_pos (by rw [v.length_bytes]; decide)
  by_cases h : fromLe v.bytes < 2 ^ 255
  · rw [Script.value_eq_fromLe (by rwa [hlen])]
    omega
  · rw [Script.value, hlen, if_pos ⟨hne, not_lt.mp h⟩]
    omega

/-! ## Each test -/

/-- The host's loop. -/
lemma meetsTargetLeFrom_eq {n : ℕ} (h : n ≤ 31) :
    meetsTargetLeFrom digest target n =
      below (compared digest) (fun i => (at' target i).toNat) n := by
  induction n with
  | zero => rfl
  | succ n ih =>
    have hbyte : compared digest n = (at' digest n).toNat := if_neg (by omega)
    rw [meetsTargetLeFrom, below, ih (by omega), hbyte]
    simp only [UInt8.lt_iff_toNat_lt, gt_iff_lt]
    rcases lt_trichotomy (at' digest n).toNat (at' target n).toNat with hlt | heq | hgt
    · rw [if_pos hlt, if_pos hlt.ne, decide_eq_true hlt]
    · rw [if_neg heq.not_lt, if_neg heq.not_gt, if_neg (not_not.mpr heq)]
    · rw [if_neg hgt.not_gt, if_pos hgt, if_pos hgt.ne', decide_eq_false hgt.not_gt]

lemma meetsTargetLe_eq :
    meetsTargetLe digest target = below (compared digest) (fun i => (at' target i).toNat) 32 := by
  have htop : compared digest 31 = (at' digest 31 &&& 0x7f).toNat := by
    rw [and_7f]
    exact if_pos rfl
  rw [meetsTargetLe, below, meetsTargetLeFrom_eq le_rfl, htop]
  simp only [UInt8.lt_iff_toNat_lt, ne_eq, UInt8.toNat_inj]

/-- The host's test. -/
lemma meetsTargetLeForRule_iff (htarget : fromLe target.bytes < 2 ^ 255) :
    meetsTargetLeForRule digest target rule = true ↔ Accepts rule digest target := by
  have hclear : at' target 31 &&& 0x80 = 0 := (and_80 _).mpr ((sign_iff target).mpr htarget)
  have hsign : at' digest 31 &&& 0x80 = 0 ↔ fromLe digest.bytes < 2 ^ 255 :=
    (and_80 _).trans (sign_iff digest)
  rw [meetsTargetLeForRule, meetsTargetLe_eq, Accepts]
  cases rule with
  | absolute => simp [below_compared_iff]
  | positive =>
    simp only [hclear, ne_eq, not_true_eq_false, false_or, all_zero_iff, true_and, hsign,
      value_pos_iff, forall_const]
    split
    · rename_i h
      simp only [Bool.false_eq_true, false_iff, not_and]
      tauto
    · rename_i h
      rw [below_compared_iff]
      tauto

/-- The GPU's loop, on a digest whose sign bit the strict rule has found clear. -/
lemma meetsFrom_eq {strictPositive : Bool}
    (hsign : strictPositive → (at' digest 31).toNat < 128) (n : ℕ) :
    meetsFrom digest target strictPositive n =
      (below (compared digest) (fun i => (at' target i).toNat) n &&
        (!strictPositive || digest.bytes.any (· ≠ 0))) := by
  induction n with
  | zero => rfl
  | succ n ih =>
    have hbyte : (if n = 31 ∧ ¬ strictPositive then at' digest n &&& 0x7f else at' digest n).toNat =
        compared digest n := by
      unfold compared
      by_cases hn : n = 31
      · subst hn
        rw [if_pos rfl]
        cases strictPositive
        · rw [if_pos ⟨rfl, by decide⟩, and_7f]
        · rw [if_neg (by simp), Nat.mod_eq_of_lt (hsign rfl)]
      · rw [if_neg (fun h => hn h.1), if_neg hn]
    rw [meetsFrom, below, ih]
    simp only [ne_eq, ← UInt8.toNat_inj, UInt8.lt_iff_toNat_lt, hbyte]
    split
    · rfl
    · rfl

/-- The GPU's test. -/
lemma meets_iff :
    meets digest target (decide (rule = .positive)) = true ↔ Accepts rule digest target := by
  have hsign : at' digest 31 &&& 0x80 = 0 ↔ fromLe digest.bytes < 2 ^ 255 :=
    (and_80 _).trans (sign_iff digest)
  rw [meets, Accepts]
  cases rule with
  | absolute =>
    rw [if_neg (by simp), meetsFrom_eq (by simp)]
    simp [below_compared_iff]
  | positive =>
    by_cases hclear : at' digest 31 &&& 0x80 = 0
    · rw [if_neg (by simp [hclear]), meetsFrom_eq (fun _ => (and_80 _).mp hclear)]
      have hlt := hsign.mp hclear
      simp only [decide_true, Bool.not_true, Bool.false_or, Bool.and_eq_true, below_compared_iff,
        any_ne_zero_iff, value_pos_iff, forall_const]
      refine ⟨fun h => ⟨h.1, ⟨hlt, h.2⟩, by omega⟩, fun h => ⟨h.1, h.2.1.2⟩⟩
    · rw [if_pos (by simp [hclear])]
      simp only [Bool.false_eq_true, value_pos_iff, forall_const, false_iff]
      exact fun h => hclear (hsign.mpr h.2.1.1)

/-! ## The words of a digest -/

lemma toNat_and_ff (w : UInt32) : (w &&& 0xff).toNat = w.toNat % 256 := by
  rw [UInt32.toNat_and]
  exact Nat.and_two_pow_sub_one_eq_mod _ 8

lemma byte32_toNat (digest : Hash) {i : ℕ} (h : i < 32) :
    (byte32 (Sha256.beWords 8 digest.bytes) i).toNat = (at' digest i).toNat := by
  rw [byte32, toNat_and_ff, Sha256.beWords_shift _ h]
  rfl

/-- The portable loop, where the template has the target at its offset. -/
lemma belowTargetFrom_eq {template : List UInt32} {targetOffset : ℕ}
    (hpacked : ∀ i < 32, byte template (targetOffset + i) = (at' target i).toUInt32) {n : ℕ}
    (h : n ≤ 32) :
    belowTargetFrom (Sha256.beWords 8 digest.bytes) template targetOffset n =
      below (compared digest) (fun i => (at' target i).toNat) n := by
  induction n with
  | zero => rfl
  | succ n ih =>
    have hvalue : (if n = 31 then byte32 (Sha256.beWords 8 digest.bytes) n &&& 0x7f
        else byte32 (Sha256.beWords 8 digest.bytes) n).toNat = compared digest n := by
      have hbyte := byte32_toNat digest (show n < 32 from h)
      unfold compared
      split
      · rw [UInt32.toNat_and, hbyte]
        exact Nat.and_two_pow_sub_one_eq_mod _ 7
      · exact hbyte
    rw [belowTargetFrom, below, ih (by omega), hpacked n h]
    simp only [ne_eq, ← UInt32.toNat_inj, UInt32.lt_iff_toNat_lt, hvalue, UInt8.toNat_toUInt32]

lemma or_words_iff (w : Words 8) :
    w.word 0 ||| w.word 1 ||| w.word 2 ||| w.word 3 ||| w.word 4 ||| w.word 5 ||| w.word 6 |||
      w.word 7 = 0 ↔ ∀ i < 8, w.word i = 0 := by
  simp only [UInt32.or_eq_zero_iff]
  constructor
  · rintro ⟨⟨⟨⟨⟨⟨⟨h0, h1⟩, h2⟩, h3⟩, h4⟩, h5⟩, h6⟩, h7⟩ i hi
    interval_cases i <;> assumption
  · intro h
    exact ⟨⟨⟨⟨⟨⟨⟨h 0 (by decide), h 1 (by decide)⟩, h 2 (by decide)⟩, h 3 (by decide)⟩,
      h 4 (by decide)⟩, h 5 (by decide)⟩, h 6 (by decide)⟩, h 7 (by decide)⟩

/-- The words of a digest are all zero exactly where its bytes are. -/
lemma words_zero_iff (digest : Hash) :
    (∀ i < 8, (Sha256.beWords 8 digest.bytes).word i = 0) ↔ fromLe digest.bytes = 0 := by
  rw [fromLe_eq_zero_iff]
  constructor
  · intro h x hx
    obtain ⟨i, hi, rfl⟩ := List.mem_iff_getElem.mp hx
    have hi32 : i < 32 := by rwa [digest.length_bytes] at hi
    have hbyte := Sha256.beWords_shift (n := 8) digest.bytes (i := i) hi32
    rw [h (i / 4) (by omega), UInt32.zero_shiftRight, List.getD_eq_getElem _ _ hi] at hbyte
    exact UInt8.toNat_inj.mp hbyte.symm
  · intro h i hi
    have hzero (j : ℕ) : digest.bytes.getD j 0 = 0 := by
      rcases lt_or_ge j digest.bytes.length with hj | hj
      · rw [List.getD_eq_getElem _ _ hj]
        exact h _ (List.getElem_mem hj)
      · rw [List.getD_eq_default _ _ hj]
    rw [Sha256.beWords, Words.word_ofFn hi, hzero, hzero, hzero, hzero]
    rfl

/-- The sign bit of a digest is in the low byte of its last word. -/
lemma last_word_sign (digest : Hash) :
    (Sha256.beWords 8 digest.bytes).word 7 &&& 0x80 = 0 ↔ fromLe digest.bytes < 2 ^ 255 := by
  have hlow := byte32_toNat digest (i := 31) (by decide)
  rw [byte32, toNat_and_ff] at hlow
  change ((Sha256.beWords 8 digest.bytes).word 7 >>> 0).toNat % 256 = _ at hlow
  rw [UInt32.shiftRight_zero] at hlow
  have hle : (Sha256.beWords 8 digest.bytes |>.word 7).toNat &&& 128 ≤ 128 := Nat.and_le_right
  have hmod := Nat.and_mod_two_pow (a := (Sha256.beWords 8 digest.bytes |>.word 7).toNat)
    (b := 128) (n := 8)
  rw [← sign_iff, ← and_80, ← UInt32.toNat_inj, ← UInt8.toNat_inj, UInt32.toNat_and,
    UInt8.toNat_and, ← hlow]
  rw [Nat.mod_eq_of_lt (hle.trans_lt (by decide))] at hmod
  exact iff_of_eq (congrArg (· = 0) hmod)

/-- The portable test. -/
lemma belowTarget_iff {template : List UInt32} {targetOffset : ℕ}
    (hpacked : ∀ i < 32, byte template (targetOffset + i) = (at' target i).toUInt32) :
    belowTarget (Sha256.beWords 8 digest.bytes) template targetOffset (decide (rule = .positive)) =
      true ↔ Accepts rule digest target := by
  have hlast := last_word_sign digest
  have hzero := (or_words_iff _).trans (words_zero_iff digest)
  rw [belowTarget, Accepts, belowTargetFrom_eq hpacked le_rfl]
  cases rule with
  | absolute => simp [below_compared_iff]
  | positive =>
    simp only [hzero, hlast, decide_true, true_and, ne_eq, value_pos_iff, forall_const]
    split
    · rename_i h
      simp only [Bool.false_eq_true, false_iff]
      tauto
    · rename_i h
      rw [below_compared_iff]
      refine ⟨fun hlt => ⟨hlt, ?_, by omega⟩, fun h => h.1⟩
      tauto

/-! ## Agreement -/

/-- The filter of round 60, on the target's last byte, keeps every accepted digest. -/
lemma filter_keeps {firstHash : Words 8} (h : Accepts rule (Sha256.hashState firstHash) target) :
    Sha256.hashStateFilteredWithRule firstHash (at' target 31) (decide (rule = .positive)) =
      some (Sha256.hashState firstHash) := by
  rw [Sha256.hashStateFilteredWithRule_eq]
  refine if_pos ?_
  obtain ⟨hlt, hpositive⟩ := h
  rw [← compared_value, fromLe_eq_value target] at hlt
  have hcomparable : (Sha256.comparable (decide (rule = .positive))
      (at' (Sha256.hashState firstHash) 31)).toNat = compared (Sha256.hashState firstHash) 31 := by
    rw [compared, if_pos rfl]
    cases rule with
    | absolute => exact and_7f _
    | positive =>
      have hclear := (sign_iff _).mpr ((value_pos_iff _).mp (hpositive rfl).1).1
      exact (Nat.mod_eq_of_lt hclear).symm
  rw [UInt8.le_iff_toNat_le]
  change (Sha256.comparable _ (at' (Sha256.hashState firstHash) 31)).toNat ≤ _
  rw [hcomparable]
  by_contra hgt
  have hrev := @digitsValue_succ_lt 256 31 (fun i => (at' target i).toNat)
    (compared (Sha256.hashState firstHash)) (by decide) (fun i _ => (at' target i).toNat_lt)
    (not_le.mp hgt)
  exact absurd hlt hrev.not_gt

/-- On every digest and every target with its highest bit clear the three tests decide the
covenant's rule, and the filter never drops a digest that they accept. -/
theorem tests_agree (rule : ProofRule) (digest target : Hash)
    (htarget : fromLe target.bytes < 2 ^ 255) :
    (meets digest target (decide (rule = .positive)) = true ↔ Accepts rule digest target) ∧
      (∀ (template : List UInt32) (targetOffset : ℕ),
        (∀ i < 32, byte template (targetOffset + i) = (at' target i).toUInt32) →
          (belowTarget (Sha256.beWords 8 digest.bytes) template targetOffset
            (decide (rule = .positive)) = true ↔ Accepts rule digest target)) ∧
      (meetsTargetLeForRule digest target rule = true ↔ Accepts rule digest target) ∧
      ∀ firstHash : Words 8, Sha256.hashState firstHash = digest → Accepts rule digest target →
        Sha256.hashStateFilteredWithRule firstHash (at' target 31) (decide (rule = .positive)) =
          some digest := by
  refine ⟨meets_iff, fun _ _ => belowTarget_iff, meetsTargetLeForRule_iff htarget, ?_⟩
  rintro firstHash rfl h
  exact filter_keeps h

/-- The zero digest, below a target but not positive. -/
theorem tests_agree_sample :
    meetsTargetLeForRule ⟨List.replicate 32 0, rfl⟩ ⟨List.replicate 32 0x7f, rfl⟩ .positive = true ↔
      Accepts .positive ⟨List.replicate 32 0, rfl⟩ ⟨List.replicate 32 0x7f, rfl⟩ :=
  (tests_agree .positive ⟨List.replicate 32 0, rfl⟩ ⟨List.replicate 32 0x7f, rfl⟩
    (by decide)).2.2.1

end Pickaxe.Engine.Meets
