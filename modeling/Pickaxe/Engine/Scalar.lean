/-
# Scalar arithmetic

Scalars modulo the order of the curve, in eight limbs: sums, negation, and a product in Montgomery
form, whose loop keeps an accumulator below twice the order.
-/
import Pickaxe.Engine.Exact
import Mathlib.Data.Nat.ModEq

namespace Pickaxe.Engine

open Lib

/-- `scalar::N`. -/
def N : Words 8 :=
  ⟨[0xd0364141, 0xbfd25e8c, 0xaf48a03b, 0xbaaedce6, 0xfffffffe, 0xffffffff, 0xffffffff, 0xffffffff],
    rfl⟩

/-- The order of the curve. -/
def order : ℕ := 0xfffffffffffffffffffffffffffffffebaaedce6af48a03bbfd25e8cd0364141

/-- `sign::R2`. -/
def R2 : Words 8 :=
  ⟨[0x67d7d140, 0x896cf214, 0x0e7cf878, 0x741496c2, 0x5bcd07c6, 0xe697f5e4, 0x81c69bc5, 0x9d671cd5],
    rfl⟩

/-- `Scalar`. -/
structure Scalar where
  words : Words 8
deriving DecidableEq

/-- `sign::reversed`. -/
def reversed (v : Words 8) : Words 8 := ⟨v.toList.reverse, by simp⟩

/-! ## Code -/

section Code

variable (m : Type → Type) (W : Type) [Monad m] [Wide W] [WideOps m W] [WordOps m]

/-- Words with a product of each limb added, and the carry: the inner loops of
`montgomery_mul`. -/
def rowIn (a b : ℕ → UInt32) (t : Words 8) : m (Words 8 × W) :=
  limbs (fun j carry => do
    let product ← WideOps.mul (a j) (b j)
    let sum ← WideOps.add product (Wide.extend (t.word j))
    let value : W ← WideOps.add sum carry
    return (Wide.low value, Wide.high value)) 8 0 Wide.zero

/-- One round of `montgomery_mul` on `t[0..8]` and `t[8]`; `t[9]` lives in a round only. -/
def roundIn (a : Words 8) (t : Words 8 × UInt32) (b : UInt32) : m (Words 8 × UInt32) := do
  let (row, carry) ← rowIn m W a.word (fun _ => b) t.1
  let top : W ← WideOps.add (Wide.extend t.2) carry
  let t8 := Wide.low top
  let t9 := Wide.low (Wide.high top)
  let multiplier := row.word 0 * 0x5588b13f
  let (row, carry) ← rowIn m W (fun _ => multiplier) N.word row
  let top : W ← WideOps.add (Wide.extend t8) carry
  let t8 ← WordOps.addWord t9 (Wide.low (Wide.high top))
  -- the low word is zero, and the others move down
  return ((row.tail : Words 7) ++ (Wide.low top ::ᵥ .nil : Words 1), t8)

namespace Scalar

/-- `Scalar::add_mod`. -/
def addModIn (self other : Scalar) : m Scalar := do
  return ⟨← addBelowIn m W N self.words other.words⟩

/-- `Scalar::negate`. -/
def negateIn (self : Scalar) : m Scalar :=
  if self = ⟨Words.ofNat 8 0⟩ then return self
  else do
    let (words, _) ← subtractIn m W N self.words
    return ⟨words⟩

/-- `Scalar::montgomery_mul`. -/
def montgomeryMulIn (self rhs : Scalar) : m Scalar := do
  let (words, t8) ← rhs.words.toList.foldlM (roundIn m W self.words) (Words.ofNat 8 0, 0)
  let (reduced, borrow) ← subtractIn m W words N
  return ⟨if t8 ≠ 0 ∨ borrow = 0 then reduced else words⟩

/-- `sign::scalar_from_be_words`. -/
def fromBeWordsIn (v : Words 8) : m Scalar := do
  return ⟨← reducedBelowIn m W N (reversed v)⟩

end Scalar

end Code

/-! ## What it computes -/

section Spec

open LawfulWide

variable {m : Type → Type} {W : Type} [Monad m] [LawfulMonad m] [Wide W] [LawfulWide W]
  [WideOps m W] [WordOps m] [LawfulOps m W]

lemma value_N : Words.value N = order := by decide +kernel

/-- A row adds a multiple of words. -/
lemma returns_row {a b : ℕ → UInt32} {c : ℕ} {v : Words 8}
    (h : ∀ j, (a j).toNat * (b j).toNat = c * (v.word j).toNat) (t : Words 8) :
    Returns (rowIn m W a b t) fun r =>
      Words.value r.1 + 2 ^ 256 * val r.2 = c * Words.value v + Words.value t ∧
        val r.2 < 2 ^ 32 := by
  refine (returns_limbs (f := fun j => (c : ℤ) * (v.word j).toNat + (t.word j).toNat)
    (g := fun carry => (val carry : ℤ)) (p := fun carry => val carry < 2 ^ 32) ?_ ?_).mono
    fun r hr => ?_
  · rw [val_zero]
    norm_num
  · intro j carry _ _ hcarry
    have hproduct : (a j).toNat * (b j).toNat ≤ (2 ^ 32 - 1) * (2 ^ 32 - 1) :=
      Nat.mul_le_mul (Nat.le_pred_of_lt (a j).toNat_lt) (Nat.le_pred_of_lt (b j).toNat_lt)
    have ht := (t.word j).toNat_lt
    refine (LawfulOps.returns_mul _ _).bind fun x hx => ?_
    refine (LawfulOps.returns_add _ _ ?_).bind fun y hy => ?_
    · rw [val_extend]
      omega
    rw [val_extend] at hy
    refine (LawfulOps.returns_add _ _ ?_).bind fun z hz => returns_pure ⟨?_, ?_⟩
    · omega
    · have hj := h j
      zify at hj
      rw [toNat_low, val_high, ← hj]
      push_cast
      omega
    · rw [val_high]
      omega
  · rw [limbSum_add, limbSum_mul, limbSum_words, limbSum_words, val_zero] at hr
    exact ⟨by exact_mod_cast hr.1, hr.2⟩

/-- The value of an accumulator. -/
def accumulated (t : Words 8 × UInt32) : ℕ := Words.value t.1 + 2 ^ 256 * t.2.toNat

/-- The multiplier of a round makes the low word vanish. -/
lemma word_multiplier (row : Words 8) :
    ((row.word 0 * 0x5588b13f).toNat * order + Words.value row) % 2 ^ 32 = 0 := by
  have hrow : Words.value row % 2 ^ 32 = (row.word 0).toNat := by
    have hlt := (row.word 0).toNat_lt
    rw [value_eq_words]
    omega
  rw [Nat.add_mod, hrow, UInt32.toNat_mul]
  change ((row.word 0).toNat * 0x5588b13f % 2 ^ 32 * order % 2 ^ 32 + _) % 2 ^ 32 = 0
  rw [Nat.mod_mul_mod, mul_assoc, Nat.mod_add_mod]
  obtain ⟨k, hk⟩ : 2 ^ 32 ∣ 0x5588b13f * order + 1 := by decide +kernel
  have hfactor : (row.word 0).toNat * (0x5588b13f * order) + (row.word 0).toNat =
      2 ^ 32 * ((row.word 0).toNat * k) := by
    rw [← Nat.mul_succ, Nat.succ_eq_add_one, hk]
    ring
  rw [hfactor, Nat.mul_mod_right]

/-- A round divides by a word, exactly, and keeps the accumulator below twice the order. -/
lemma returns_round {a : Words 8} (ha : Words.value a < order) {t : Words 8 × UInt32}
    (ht : accumulated t < 2 * order) (b : UInt32) :
    Returns (roundIn m W a t b) fun r => accumulated r < 2 * order ∧
      ∃ q, 2 ^ 32 * accumulated r = accumulated t + Words.value a * b.toNat + q * order := by
  have hb := b.toNat_lt
  have hN : order < 2 ^ 256 := by norm_num [order]
  have haccumulated : Words.value t.1 + 2 ^ 256 * t.2.toNat < 2 * order := ht
  have hproduct : b.toNat * Words.value a ≤ (2 ^ 32 - 1) * order :=
    Nat.mul_le_mul (by omega) ha.le
  refine (returns_row (c := b.toNat) (fun j => mul_comm _ _) t.1).bind fun r hr => ?_
  obtain ⟨hrow, hcarry⟩ := hr
  have hrow_lt := Words.value_lt r.1
  refine (LawfulOps.returns_add _ _ ?_).bind fun top htop => ?_
  · rw [val_extend]
    have ht8 := t.2.toNat_lt
    omega
  rw [val_extend] at htop
  obtain ⟨multiplier, hmultiplier⟩ : ∃ x, x = r.1.word 0 * 0x5588b13f := ⟨_, rfl⟩
  have hvanish := word_multiplier r.1
  have hm := multiplier.toNat_lt
  dsimp only
  rw [← hmultiplier] at hvanish ⊢
  refine (returns_row (c := multiplier.toNat) (v := N) (fun _ => rfl) r.1).bind fun s hs => ?_
  obtain ⟨hreduced, hcarry'⟩ := hs
  rw [value_N] at hreduced
  have hs_lt := Words.value_lt s.1
  refine (LawfulOps.returns_add _ _ ?_).bind fun top' htop' => ?_
  · rw [val_extend, toNat_low]
    omega
  rw [val_extend, toNat_low] at htop'
  refine (LawfulOps.returns_addWord (W := W) _ _ ?_).bind fun t8 ht8 => returns_pure ?_
  · rw [toNat_low, toNat_low, val_high, val_high]
    omega
  rw [toNat_low, toNat_low, val_high, val_high] at ht8
  have hmultiple : multiplier.toNat * order ≤ (2 ^ 32 - 1) * order :=
    Nat.mul_le_mul (by omega) le_rfl
  have hhead := Words.value_eq_head_tail s.1
  have hhead_lt := s.1.head.toNat_lt
  have hzero : s.1.head.toNat = 0 := by omega
  have htotal : 2 ^ 32 * accumulated ((s.1.tail : Words 7) ++ (Wide.low top' ::ᵥ .nil : Words 1), t8) =
      accumulated t + Words.value a * b.toNat + multiplier.toNat * order := by
    rw [accumulated, accumulated, Words.value_append, Words.value_cons, Words.value_nil, toNat_low,
      mul_comm (Words.value a)]
    dsimp only
    omega
  refine ⟨?_, multiplier.toNat, htotal⟩
  rw [mul_comm (Words.value a)] at htotal
  omega

/-- The rounds of `montgomery_mul` over words of the second factor. -/
lemma returns_rounds {a : Words 8} (ha : Words.value a < order) {t : Words 8 × UInt32}
    (ht : accumulated t < 2 * order) (bs : List UInt32) :
    Returns (bs.foldlM (roundIn m W a) t) fun r => accumulated r < 2 * order ∧
      ∃ q, 2 ^ (32 * bs.length) * accumulated r =
        accumulated t + Words.value a * Words.listValue bs + q * order := by
  induction bs generalizing t with
  | nil => exact returns_pure ⟨ht, 0, by simp [Words.listValue]⟩
  | cons b bs ih =>
    rw [List.foldlM_cons]
    refine (returns_round ha ht b).bind fun r hr => ?_
    obtain ⟨hlt, q, hq⟩ := hr
    refine (ih hlt).mono fun s hs => ?_
    obtain ⟨hs_lt, q', hq'⟩ := hs
    refine ⟨hs_lt, q + 2 ^ 32 * q', ?_⟩
    rw [List.length_cons, Nat.mul_succ, pow_add, Words.listValue]
    linear_combination 2 ^ 32 * hq' + hq

namespace Scalar

/-- What the words of a scalar stand for. -/
def value (self : Scalar) : ℕ := self.words.value

/-- The scalar of a number. -/
def ofNat (v : ℕ) : Scalar := ⟨Words.ofNat 8 (v % order)⟩

/-- A scalar is canonical when its words are below the order. -/
def Canonical (self : Scalar) : Prop := self.value < order

instance (a : Scalar) : Decidable a.Canonical := inferInstanceAs (Decidable (_ < _))

lemma order_lt : order < 2 ^ 256 := by norm_num [order]

@[simp] lemma value_ofNat (v : ℕ) : (ofNat v).value = v % order := by
  rw [value, ofNat, Words.value_ofNat]
  exact Nat.mod_eq_of_lt ((Nat.mod_lt _ (by norm_num [order])).trans order_lt)

lemma canonical_ofNat (v : ℕ) : (ofNat v).Canonical := by
  rw [Canonical, value_ofNat]
  exact Nat.mod_lt _ (by norm_num [order])

lemma value_injective : Function.Injective value := by
  rintro ⟨a⟩ ⟨b⟩ h
  exact congrArg mk (Words.value_injective h)

lemma eq_ofNat {a : Scalar} {v : ℕ} (h : a.value = v % order) : a = ofNat v :=
  value_injective (h.trans (value_ofNat v).symm)

/-- Words below twice the order, less it unless they are below it. -/
lemma ofNat_of_lt {v : ℕ} (h : v < 2 * order) :
    (⟨Words.ofNat 8 (if order ≤ v then v - order else v)⟩ : Scalar) = ofNat v := by
  rw [ofNat]
  by_cases hle : order ≤ v
  · rw [if_pos hle, Nat.mod_eq_sub_mod hle, Nat.mod_eq_of_lt (by omega)]
  · rw [if_neg hle, Nat.mod_eq_of_lt (by omega)]

/-- `add_mod` is exact on canonical operands. -/
lemma returns_addMod {self other : Scalar} (hself : self.Canonical) (hother : other.Canonical) :
    Returns (addModIn m W self other) (· = ofNat (self.value + other.value)) := by
  refine (returns_addBelow N ?_ _ _).bind fun words hwords => returns_pure ?_
  · rw [value_N]
    norm_num [order]
  · rw [Canonical] at hself hother
    rw [hwords, value_N]
    exact ofNat_of_lt (v := self.value + other.value) (by omega)

/-- `negate` is exact on canonical operands. -/
lemma returns_negate {self : Scalar} (hself : self.Canonical) :
    Returns (negateIn m W self) (· = ofNat (order - self.value)) := by
  rw [negateIn]
  by_cases hzero : self = ⟨Words.ofNat 8 0⟩
  · rw [if_pos hzero]
    refine returns_pure (eq_ofNat ?_)
    rw [hzero]
    decide +kernel
  · rw [if_neg hzero]
    refine (returns_subtract N self.words).bind fun r hr => returns_pure (eq_ofNat ?_)
    obtain ⟨hvalue, hborrow⟩ := hr
    have hr_lt := Words.value_lt r.1
    have hpos : self.value ≠ 0 := by
      intro h
      exact hzero (value_injective (h.trans (by decide +kernel)))
    rw [Canonical] at hself
    rw [value_N] at hvalue
    change _ = (order : ℤ) - self.value + _ at hvalue
    rw [Nat.mod_eq_of_lt (by omega)]
    change Words.value r.1 = _
    omega

/-- `montgomery_mul` of canonical operands is canonical, and what times `2 ^ 256` is the product. -/
lemma returns_montgomeryMul {self : Scalar} (hself : self.Canonical) (rhs : Scalar) :
    Returns (montgomeryMulIn m W self rhs) fun r => r.Canonical ∧
      r.value * 2 ^ 256 ≡ self.value * rhs.value [MOD order] := by
  have hstart : accumulated (Words.ofNat 8 0, 0) < 2 * order := by decide +kernel
  refine (returns_rounds hself hstart rhs.words.toList).bind fun r hr => ?_
  obtain ⟨hlt, q, hq⟩ := hr
  have hr2 : r.2.toNat ≤ 1 := by
    rw [accumulated, order] at hlt
    omega
  have hselect : r.2 ≠ 0 ↔ r.2.toNat ≠ 0 := UInt32.toNat_inj.not.symm
  refine (returns_subtract r.1 N).bind fun s hs => returns_pure ?_
  have hresult : (⟨if r.2 ≠ 0 ∨ s.2 = 0 then s.1 else r.1⟩ : Scalar) = ofNat (accumulated r) := by
    rw [select_reduced (by rw [value_N]; norm_num [order]) (or_congr_left hselect) hr2 hs.2 rfl hs.1,
      value_N]
    exact ofNat_of_lt hlt
  rw [hresult, value_ofNat]
  refine ⟨canonical_ofNat _, ?_⟩
  have hvalue : accumulated (Words.ofNat 8 0, 0) = 0 := by decide +kernel
  have hrhs : Words.listValue rhs.words.toList = rhs.value := rfl
  rw [hvalue, List.Vector.toList_length, hrhs, Nat.zero_add, mul_comm] at hq
  have hmod := (Nat.mod_modEq (accumulated r) order).mul_right (2 ^ 256)
  refine hmod.trans ?_
  rw [hq]
  exact Nat.add_mul_mod_self_right _ _ _

/-- `scalar_from_be_words` reduces every value. -/
lemma returns_fromBeWords (v : Words 8) :
    Returns (fromBeWordsIn m W v) (· = ofNat (Words.value (reversed v))) := by
  refine (returns_reducedBelow N ?_ (reversed v)).bind fun words hwords =>
    returns_pure ?_
  · rw [value_N]
    norm_num [order]
  · rw [hwords, value_N]
    rfl

end Scalar

end Spec

/-! ## The arithmetic of native targets -/

namespace Scalar

/-- `Scalar::ZERO`. -/
def zero : Scalar := ⟨Words.ofNat 8 0⟩

/-- `Scalar::add_mod`. -/
def addMod (self other : Scalar) : Scalar := Id.run (addModIn Id UInt64 self other)

/-- `Scalar::negate`. -/
def negate (self : Scalar) : Scalar := Id.run (negateIn Id UInt64 self)

/-- `Scalar::montgomery_mul`. -/
def montgomeryMul (self rhs : Scalar) : Scalar := Id.run (montgomeryMulIn Id UInt64 self rhs)

/-- `sign::scalar_from_be_words`. -/
def fromBeWords (v : Words 8) : Scalar := Id.run (fromBeWordsIn Id UInt64 v)

variable {a b : Scalar}

lemma addMod_eq (ha : a.Canonical) (hb : b.Canonical) :
    a.addMod b = ofNat (a.value + b.value) :=
  (returns_addMod (m := Id) (W := UInt64) ha hb).eq

lemma negate_eq (ha : a.Canonical) : a.negate = ofNat (order - a.value) :=
  (returns_negate (m := Id) (W := UInt64) ha).eq

lemma fromBeWords_eq (v : Words 8) : fromBeWords v = ofNat (Words.value (reversed v)) :=
  (returns_fromBeWords (m := Id) (W := UInt64) v).eq

lemma montgomeryMul_spec (ha : a.Canonical) (b : Scalar) : (a.montgomeryMul b).Canonical ∧
    (a.montgomeryMul b).value * 2 ^ 256 ≡ a.value * b.value [MOD order] := by
  obtain ⟨r, hr, hspec⟩ := returns_montgomeryMul (m := Id) (W := UInt64) ha b
  rw [montgomeryMul, hr]
  exact hspec

lemma coprime_order : Nat.Coprime order (2 ^ 256) := by decide +kernel

/-- A scalar is what a product in Montgomery form says of it. -/
lemma eq_of_modEq {r s : Scalar} {v : ℕ} (hr : r.Canonical) (hs : s.Canonical)
    (hr_mod : r.value * 2 ^ 256 ≡ v [MOD order]) (hs_mod : s.value * 2 ^ 256 ≡ v [MOD order]) :
    r = s := by
  refine value_injective ?_
  have h := (hr_mod.trans hs_mod.symm).cancel_right_of_coprime coprime_order
  exact h.eq_of_lt_of_lt hr hs

lemma agree_montgomeryMul (ha : a.Canonical) (b : Scalar) :
    Agree (montgomeryMulIn Option UInt64 a b) (a.montgomeryMul b)
      (montgomeryMulIn Id Portable a b) := by
  obtain ⟨hcanonical, hmod⟩ := montgomeryMul_spec ha b
  refine agree_of_eq (v := a.montgomeryMul b) ?_ (returns_of_eq rfl rfl) ?_
  · exact (returns_montgomeryMul ha b).mono fun r hr => eq_of_modEq hr.1 hcanonical hr.2 hmod
  · exact (returns_montgomeryMul ha b).mono fun r hr => eq_of_modEq hr.1 hcanonical hr.2 hmod

/-- Two Montgomery products, the second by `R2`, multiply. -/
lemma montgomeryMul_R2 (ha : a.Canonical) (b : Scalar) :
    (a.montgomeryMul b).montgomeryMul ⟨R2⟩ = ofNat (a.value * b.value) := by
  obtain ⟨hcanonical, hmod⟩ := montgomeryMul_spec ha b
  obtain ⟨hcanonical', hmod'⟩ := montgomeryMul_spec hcanonical ⟨R2⟩
  have hR2 : (⟨R2⟩ : Scalar).value ≡ 2 ^ 256 * 2 ^ 256 [MOD order] := by decide +kernel
  refine eq_of_modEq hcanonical' (canonical_ofNat _) hmod' ?_
  calc
    (ofNat (a.value * b.value)).value * 2 ^ 256 ≡ a.value * b.value * 2 ^ 256 [MOD order] := by
      rw [value_ofNat]
      exact (Nat.mod_modEq _ _).mul_right _
    _ ≡ (a.montgomeryMul b).value * 2 ^ 256 * 2 ^ 256 [MOD order] := hmod.symm.mul_right _
    _ = (a.montgomeryMul b).value * (2 ^ 256 * 2 ^ 256) := mul_assoc _ _ _
    _ ≡ (a.montgomeryMul b).value * (⟨R2⟩ : Scalar).value [MOD order] := hR2.symm.mul_left _

/-- The scalar arithmetic is exact, without overflow. -/
theorem scalar_exact :
    (∀ a b : Scalar, a.Canonical → b.Canonical →
      (a.montgomeryMul b).Canonical ∧
      (a.montgomeryMul b).value * 2 ^ 256 ≡ a.value * b.value [MOD order] ∧
      a.addMod b = ofNat (a.value + b.value) ∧ a.negate = ofNat (order - a.value) ∧
      (a.montgomeryMul b).montgomeryMul ⟨R2⟩ = ofNat (a.value * b.value)) ∧
    (∀ v : Words 8, fromBeWords v = ofNat (Words.value (reversed v))) ∧
    (∀ a b : Scalar, a.Canonical → b.Canonical →
      Agree (montgomeryMulIn Option UInt64 a b) (a.montgomeryMul b)
        (montgomeryMulIn Id Portable a b) ∧
      Agree (addModIn Option UInt64 a b) (a.addMod b) (addModIn Id Portable a b) ∧
      Agree (negateIn Option UInt64 a) a.negate (negateIn Id Portable a)) ∧
    ∀ v : Words 8, Agree (fromBeWordsIn Option UInt64 v) (fromBeWords v)
      (fromBeWordsIn Id Portable v) := by
  refine ⟨fun a b ha hb => ⟨?_, ?_, addMod_eq ha hb, negate_eq ha, montgomeryMul_R2 ha b⟩,
    fromBeWords_eq, fun a b ha hb => ⟨agree_montgomeryMul ha b, ?_, ?_⟩, fun v => ?_⟩
  · exact (montgomeryMul_spec ha b).1
  · exact (montgomeryMul_spec ha b).2
  · exact agree_of_eq (returns_addMod ha hb) (returns_addMod ha hb) (returns_addMod ha hb)
  · exact agree_of_eq (returns_negate ha) (returns_negate ha) (returns_negate ha)
  · exact agree_of_eq (returns_fromBeWords v) (returns_fromBeWords v) (returns_fromBeWords v)

theorem scalar_exact_sample :
    ((ofNat 2).montgomeryMul (ofNat 3)).montgomeryMul ⟨R2⟩ = ofNat 6 := by
  have h := scalar_exact.1 (ofNat 2) (ofNat 3) (by decide +kernel) (by decide +kernel)
  exact h.2.2.2.2.trans (by decide +kernel)

end Scalar

end Pickaxe.Engine
