/-
# The wide intermediate

The limb arithmetic of the engine goes through values of 64 bits.  Native targets use `u64`, where a
sum or a product may be checked for overflow or wrap; shaders use two words.  `Wide` is what the
arithmetic asks of them, and `LawfulWide` what it may rely on: a sum or a product that fits is exact.
-/
import Pickaxe.Lib.Words

namespace Pickaxe.Engine

open Lib

/-- `wide.rs`: the values of 64 bits, and the operations on them that cannot overflow. -/
class Wide (W : Type) where
  zero : W
  extend : UInt32 → W
  low : W → UInt32
  high : W → W
  nonzero : W → Bool
  sign : W → W
  sub : W → W → W

/-- Sums and products of wide values, and sums of words, made in `m`, where they may fail. -/
class WideOps (m : Type → Type) (W : Type) where
  mul : UInt32 → UInt32 → m W
  scale : W → UInt32 → m W
  add : W → W → m W

/-- Sums of words. -/
class WordOps (m : Type → Type) where
  addWord : UInt32 → UInt32 → m UInt32

/-! ## Native targets -/

/-- A sum that must fit. -/
def checkedAdd (x y : UInt64) : Option UInt64 :=
  if x.toNat + y.toNat < 2 ^ 64 then some (x + y) else none

/-- A product that must fit. -/
def checkedMul (x y : UInt64) : Option UInt64 :=
  if x.toNat * y.toNat < 2 ^ 64 then some (x * y) else none

/-- A sum of words that must fit. -/
def checkedAddWord (x y : UInt32) : Option UInt32 :=
  if x.toNat + y.toNat < 2 ^ 32 then some (x + y) else none

instance : Wide UInt64 where
  zero := 0
  extend x := x.toUInt64
  low x := x.toUInt32
  high x := x >>> 32
  nonzero x := x != 0
  sign x := x >>> 63
  sub a b := a - b

/-- `u64` with overflow checks. -/
instance : WideOps Option UInt64 where
  mul a b := checkedMul a.toUInt64 b.toUInt64
  scale x k := checkedMul x k.toUInt64
  add := checkedAdd

/-- `u64` as it wraps without the checks. -/
instance : WideOps Id UInt64 where
  mul a b := a.toUInt64 * b.toUInt64
  scale x k := x * k.toUInt64
  add a b := a + b

instance : WordOps Option where
  addWord := checkedAddWord

instance : WordOps Id where
  addWord a b := a + b

/-! ## Shaders -/

/-- `portable::Wide`. -/
structure Portable where
  lo : UInt32
  hi : UInt32
deriving DecidableEq

namespace Portable

/-- `portable::mul`. -/
def mul (a b : UInt32) : Portable :=
  let a0 := a &&& 0xffff
  let a1 := a >>> 16
  let b0 := b &&& 0xffff
  let b1 := b >>> 16
  let low := a0 * b0
  let cross := a1 * b0
  let middle := a0 * b1 + (low >>> 16) + (cross &&& 0xffff)
  ⟨(middle <<< 16) ||| (low &&& 0xffff), a1 * b1 + (middle >>> 16) + (cross >>> 16)⟩

/-- `portable::scale`. -/
def scale (x : Portable) (k : UInt32) : Portable :=
  let product := mul x.lo k
  ⟨product.lo, product.hi + x.hi * k⟩

/-- `portable::sub`. -/
def sub (a b : Portable) : Portable :=
  ⟨a.lo - b.lo, a.hi - b.hi - if a.lo < b.lo then 1 else 0⟩

/-- `portable::Wide::add`. -/
def add (a b : Portable) : Portable :=
  let lo := a.lo + b.lo
  ⟨lo, a.hi + b.hi + if lo < a.lo then 1 else 0⟩

end Portable

instance : Wide Portable where
  zero := ⟨0, 0⟩
  extend x := ⟨x, 0⟩
  low x := x.lo
  high x := ⟨x.hi, 0⟩
  nonzero x := (x.lo ||| x.hi) != 0
  sign x := ⟨x.hi >>> 31, 0⟩
  sub := Portable.sub

instance : WideOps Id Portable where
  mul := Portable.mul
  scale := Portable.scale
  add := Portable.add

/-! ## What holds of all of them -/

/-- A computation returns a value with a property. -/
def Returns {m : Type → Type} [Monad m] {α : Type} (p : m α) (post : α → Prop) : Prop :=
  ∃ a, p = pure a ∧ post a

section Returns

variable {m : Type → Type} [Monad m] {α β : Type} {p : m α} {f : α → m β} {q : α → Prop}
  {post post' : α → Prop} {r : β → Prop}

lemma returns_of_eq {a : α} (hp : p = pure a) (h : post a) : Returns p post := ⟨a, hp, h⟩

lemma returns_pure {a : α} (h : post a) : Returns (pure a : m α) post := returns_of_eq rfl h

lemma Returns.bind [LawfulMonad m] (hp : Returns p q) (hf : ∀ a, q a → Returns (f a) r) :
    Returns (p >>= f) r := by
  obtain ⟨a, rfl, ha⟩ := hp
  rw [pure_bind]
  exact hf a ha

lemma Returns.mono (hp : Returns p post) (h : ∀ a, post a → post' a) : Returns p post' := by
  obtain ⟨a, ha, hpost⟩ := hp
  exact ⟨a, ha, h a hpost⟩

/-- A computation with only one possible value returns it. -/
lemma Returns.eq {a : α} (hp : Returns p (· = a)) : p = pure a := by
  obtain ⟨b, hb, rfl⟩ := hp
  exact hb

end Returns

/-- The operations on wide values, by their values. -/
class LawfulWide (W : Type) [Wide W] where
  val : W → ℕ
  val_lt : ∀ x, val x < 2 ^ 64
  val_zero : val Wide.zero = 0
  val_extend : ∀ x, val (Wide.extend x) = x.toNat
  toNat_low : ∀ x, (Wide.low x).toNat = val x % 2 ^ 32
  val_high : ∀ x, val (Wide.high x) = val x / 2 ^ 32
  nonzero_iff : ∀ x, Wide.nonzero x = true ↔ val x ≠ 0
  val_sign : ∀ x, val (Wide.sign x) = val x / 2 ^ 63
  val_sub : ∀ x y, val (Wide.sub x y) = (2 ^ 64 - val y + val x) % 2 ^ 64

open LawfulWide in
/-- A sum or a product that fits is exact. -/
class LawfulOps (m : Type → Type) (W : Type) [Monad m] [Wide W] [LawfulWide W] [WideOps m W]
    [WordOps m] : Prop where
  returns_mul : ∀ a b, Returns (WideOps.mul a b : m W) fun x => val x = a.toNat * b.toNat
  returns_scale : ∀ (x : W) k, val x * k.toNat < 2 ^ 64 →
    Returns (WideOps.scale x k : m W) fun y => val y = val x * k.toNat
  returns_add : ∀ x y : W, val x + val y < 2 ^ 64 →
    Returns (WideOps.add x y : m W) fun z => val z = val x + val y
  returns_addWord : ∀ x y : UInt32, x.toNat + y.toNat < 2 ^ 32 →
    Returns (WordOps.addWord x y : m UInt32) fun z => z.toNat = x.toNat + y.toNat

/-! ## The three kinds are lawful -/

instance : LawfulWide UInt64 where
  val := UInt64.toNat
  val_lt := UInt64.toNat_lt
  val_zero := rfl
  val_extend x := UInt32.toNat_toUInt64 x
  toNat_low x := UInt64.toNat_toUInt32 x
  val_high x := by
    rw [Wide.high, instWideUInt64]
    simp [Nat.shiftRight_eq_div_pow]
  nonzero_iff x := by
    rw [Wide.nonzero, instWideUInt64]
    simp [← UInt64.toNat_inj]
  val_sign x := by
    rw [Wide.sign, instWideUInt64]
    simp [Nat.shiftRight_eq_div_pow]
  val_sub x y := UInt64.toNat_sub x y

lemma returns_checkedAdd {x y : UInt64} (h : x.toNat + y.toNat < 2 ^ 64) :
    Returns (checkedAdd x y) fun z => z.toNat = x.toNat + y.toNat := by
  refine returns_of_eq (if_pos h) ?_
  rw [UInt64.toNat_add, Nat.mod_eq_of_lt h]

lemma returns_checkedMul {x y : UInt64} (h : x.toNat * y.toNat < 2 ^ 64) :
    Returns (checkedMul x y) fun z => z.toNat = x.toNat * y.toNat := by
  refine returns_of_eq (if_pos h) ?_
  rw [UInt64.toNat_mul, Nat.mod_eq_of_lt h]

lemma mul_toNat_lt (a b : UInt32) : a.toNat * b.toNat < 2 ^ 64 := by
  have h := Nat.mul_lt_mul'' a.toNat_lt b.toNat_lt
  rwa [← pow_add] at h

instance : LawfulOps Option UInt64 where
  returns_mul a b := by
    have h := returns_checkedMul (x := a.toUInt64) (y := b.toUInt64)
    rw [UInt32.toNat_toUInt64, UInt32.toNat_toUInt64] at h
    exact h (mul_toNat_lt a b)
  returns_scale x k h := by
    rw [← UInt32.toNat_toUInt64] at h ⊢
    exact returns_checkedMul h
  returns_add _ _ h := returns_checkedAdd h
  returns_addWord x y h := by
    refine returns_of_eq (if_pos h) ?_
    rw [UInt32.toNat_add, Nat.mod_eq_of_lt h]

lemma returns_addWord {x y : UInt32} (h : x.toNat + y.toNat < 2 ^ 32) :
    Returns (WordOps.addWord x y : Id UInt32) fun z => z.toNat = x.toNat + y.toNat := by
  refine returns_of_eq (a := x + y) rfl ?_
  rw [UInt32.toNat_add, Nat.mod_eq_of_lt h]

instance : LawfulOps Id UInt64 where
  returns_mul a b := by
    refine returns_of_eq (a := a.toUInt64 * b.toUInt64) rfl ?_
    change (a.toUInt64 * b.toUInt64).toNat = _
    rw [UInt64.toNat_mul, UInt32.toNat_toUInt64, UInt32.toNat_toUInt64,
      Nat.mod_eq_of_lt (mul_toNat_lt a b)]
  returns_scale x k h := by
    refine returns_of_eq (a := x * k.toUInt64) rfl ?_
    change (x * k.toUInt64).toNat = x.toNat * k.toNat
    change x.toNat * k.toNat < _ at h
    rw [UInt64.toNat_mul, UInt32.toNat_toUInt64, Nat.mod_eq_of_lt h]
  returns_add x y h := by
    refine returns_of_eq (a := x + y) rfl ?_
    change (x + y).toNat = x.toNat + y.toNat
    change x.toNat + y.toNat < _ at h
    rw [UInt64.toNat_add, Nat.mod_eq_of_lt h]
  returns_addWord _ _ h := returns_addWord h

namespace Portable

/-- The value of two words. -/
def toNat (x : Portable) : ℕ := x.lo.toNat + 2 ^ 32 * x.hi.toNat

lemma toNat_lt (x : Portable) : x.toNat < 2 ^ 64 := by
  have hlo := x.lo.toNat_lt
  have hhi := x.hi.toNat_lt
  rw [toNat]
  omega

lemma toNat_low_half (a : UInt32) : (a &&& 0xffff).toNat = a.toNat % 2 ^ 16 := by
  rw [UInt32.toNat_and]
  exact Nat.and_two_pow_sub_one_eq_mod _ 16

lemma toNat_high_half (a : UInt32) : (a >>> 16).toNat = a.toNat / 2 ^ 16 := by
  rw [UInt32.toNat_shiftRight]
  exact Nat.shiftRight_eq_div_pow _ 16

lemma toNat_halves (x y : UInt32) :
    ((x <<< 16) ||| (y &&& 0xffff)).toNat = x.toNat % 2 ^ 16 * 2 ^ 16 + y.toNat % 2 ^ 16 := by
  rw [UInt32.toNat_or, toNat_low_half, UInt32.toNat_shiftLeft]
  have hshift : x.toNat <<< ((16 : UInt32).toNat % 32) % 2 ^ 32 = 2 ^ 16 * (x.toNat % 2 ^ 16) := by
    rw [Nat.shiftLeft_eq]
    change x.toNat * 2 ^ 16 % 2 ^ 32 = _
    omega
  rw [hshift, ← Nat.two_pow_add_eq_or_of_lt (Nat.mod_lt _ (by norm_num)), mul_comm]

/-- The product by its halves: no sum of the partial products overflows a word. -/
lemma toNat_mul (a b : UInt32) : (mul a b).toNat = a.toNat * b.toNat := by
  obtain ⟨a0, ha0⟩ : ∃ x, x = a.toNat % 2 ^ 16 := ⟨_, rfl⟩
  obtain ⟨a1, ha1⟩ : ∃ x, x = a.toNat / 2 ^ 16 := ⟨_, rfl⟩
  obtain ⟨b0, hb0⟩ : ∃ x, x = b.toNat % 2 ^ 16 := ⟨_, rfl⟩
  obtain ⟨b1, hb1⟩ : ∃ x, x = b.toNat / 2 ^ 16 := ⟨_, rfl⟩
  have ha := a.toNat_lt
  have hb := b.toNat_lt
  have h00 : a0 * b0 ≤ 65535 * 65535 := Nat.mul_le_mul (by omega) (by omega)
  have h01 : a0 * b1 ≤ 65535 * 65535 := Nat.mul_le_mul (by omega) (by omega)
  have h10 : a1 * b0 ≤ 65535 * 65535 := Nat.mul_le_mul (by omega) (by omega)
  have h11 : a1 * b1 ≤ 65535 * 65535 := Nat.mul_le_mul (by omega) (by omega)
  have hlow : ((a &&& 0xffff) * (b &&& 0xffff)).toNat = a0 * b0 := by
    rw [UInt32.toNat_mul, toNat_low_half, toNat_low_half, ← ha0, ← hb0, Nat.mod_eq_of_lt (by omega)]
  have hcross : ((a >>> 16) * (b &&& 0xffff)).toNat = a1 * b0 := by
    rw [UInt32.toNat_mul, toNat_high_half, toNat_low_half, ← ha1, ← hb0,
      Nat.mod_eq_of_lt (by omega)]
  have hmiddle : ∀ low cross : UInt32, low.toNat = a0 * b0 → cross.toNat = a1 * b0 →
      ((a &&& (0xffff : UInt32)) * (b >>> (16 : UInt32)) + (low >>> (16 : UInt32)) +
        (cross &&& (0xffff : UInt32))).toNat = a0 * b1 + a0 * b0 / 2 ^ 16 + a1 * b0 % 2 ^ 16 := by
    intro low cross hlow hcross
    rw [UInt32.toNat_add, UInt32.toNat_add, UInt32.toNat_mul, toNat_low_half a, toNat_high_half b,
      toNat_high_half, toNat_low_half, hlow, hcross, ← ha0, ← hb1]
    omega
  rw [mul, toNat, toNat_halves, hmiddle _ _ hlow hcross, hlow, UInt32.toNat_add, UInt32.toNat_add,
    UInt32.toNat_mul, toNat_high_half a, toNat_high_half b, toNat_high_half, toNat_high_half,
    hmiddle _ _ hlow hcross, hcross, ← ha1, ← hb1]
  have hproduct : a.toNat * b.toNat =
      a0 * b0 + 2 ^ 16 * (a0 * b1) + 2 ^ 16 * (a1 * b0) + 2 ^ 32 * (a1 * b1) := by
    have hasplit : a.toNat = a0 + 2 ^ 16 * a1 := by omega
    have hbsplit : b.toNat = b0 + 2 ^ 16 * b1 := by omega
    rw [hasplit, hbsplit]
    ring
  rw [hproduct]
  omega

lemma toNat_scale {x : Portable} {k : UInt32} (h : x.toNat * k.toNat < 2 ^ 64) :
    (scale x k).toNat = x.toNat * k.toNat := by
  have hproduct := toNat_mul x.lo k
  have hlo := (mul x.lo k).lo.toNat_lt
  rw [toNat] at hproduct
  have hsplit : x.toNat * k.toNat = x.lo.toNat * k.toNat + 2 ^ 32 * (x.hi.toNat * k.toNat) := by
    rw [toNat]
    ring
  rw [hsplit] at h ⊢
  change (mul x.lo k).lo.toNat + 2 ^ 32 * ((mul x.lo k).hi + x.hi * k).toNat = _
  rw [UInt32.toNat_add, UInt32.toNat_mul]
  omega

lemma toNat_sub (x y : Portable) : (sub x y).toNat = (2 ^ 64 - y.toNat + x.toNat) % 2 ^ 64 := by
  have hxlo := x.lo.toNat_lt
  have hxhi := x.hi.toNat_lt
  have hylo := y.lo.toNat_lt
  have hyhi := y.hi.toNat_lt
  rw [sub, toNat, toNat, toNat, UInt32.toNat_sub, UInt32.toNat_sub, UInt32.toNat_sub]
  by_cases hborrow : x.lo < y.lo
  · rw [if_pos hborrow]
    rw [UInt32.lt_iff_toNat_lt] at hborrow
    change _ + 2 ^ 32 * ((2 ^ 32 - 1 + _) % 2 ^ 32) = _
    omega
  · rw [if_neg hborrow]
    rw [UInt32.lt_iff_toNat_lt] at hborrow
    change _ + 2 ^ 32 * ((2 ^ 32 - 0 + _) % 2 ^ 32) = _
    omega

lemma toNat_add {x y : Portable} (h : x.toNat + y.toNat < 2 ^ 64) :
    (add x y).toNat = x.toNat + y.toNat := by
  have hxlo := x.lo.toNat_lt
  have hylo := y.lo.toNat_lt
  rw [toNat, toNat] at h ⊢
  rw [add, toNat, UInt32.toNat_add, UInt32.toNat_add, UInt32.toNat_add]
  by_cases hcarry : x.lo + y.lo < x.lo
  · rw [if_pos hcarry]
    rw [UInt32.lt_iff_toNat_lt, UInt32.toNat_add] at hcarry
    change _ + 2 ^ 32 * ((_ + 1) % 2 ^ 32) = _
    omega
  · rw [if_neg hcarry]
    rw [UInt32.lt_iff_toNat_lt, UInt32.toNat_add] at hcarry
    change _ + 2 ^ 32 * ((_ + 0) % 2 ^ 32) = _
    omega

end Portable

instance : LawfulWide Portable where
  val := Portable.toNat
  val_lt := Portable.toNat_lt
  val_zero := rfl
  val_extend x := by
    change x.toNat + 2 ^ 32 * 0 = x.toNat
    omega
  toNat_low x := by
    have hlo := x.lo.toNat_lt
    rw [Portable.toNat]
    change x.lo.toNat = _
    omega
  val_high x := by
    have hlo := x.lo.toNat_lt
    rw [Portable.toNat, Portable.toNat]
    change x.hi.toNat + 2 ^ 32 * 0 = _
    omega
  nonzero_iff x := by
    change ((x.lo ||| x.hi) != 0) = true ↔ x.toNat ≠ 0
    rw [bne_iff_ne, ne_eq, ← UInt32.toNat_inj, UInt32.toNat_or, Portable.toNat]
    change ¬ (x.lo.toNat ||| x.hi.toNat = 0) ↔ _
    rw [Nat.or_eq_zero_iff]
    omega
  val_sign x := by
    have hlo := x.lo.toNat_lt
    change (x.hi >>> 31).toNat + 2 ^ 32 * 0 = x.toNat / 2 ^ 63
    rw [UInt32.toNat_shiftRight, Portable.toNat]
    change x.hi.toNat >>> 31 + 2 ^ 32 * 0 = _
    rw [Nat.shiftRight_eq_div_pow]
    omega
  val_sub := Portable.toNat_sub

instance : LawfulOps Id Portable where
  returns_mul a b := ⟨_, rfl, Portable.toNat_mul a b⟩
  returns_scale _ _ h := ⟨_, rfl, Portable.toNat_scale h⟩
  returns_add _ _ h := ⟨_, rfl, Portable.toNat_add h⟩
  returns_addWord _ _ h := returns_addWord h

end Pickaxe.Engine
