/-
# Field arithmetic

Field elements modulo `2 ^ 256 - 2 ^ 32 - 977`, in eight limbs.  Each operation is written once, over
the wide values of any target; `Field` without a suffix is the arithmetic of native targets.
-/
import Pickaxe.Engine.Limbs
import Mathlib.Tactic.Linarith

namespace Pickaxe.Engine

open Lib

/-- `field::P`. -/
def P : Words 8 :=
  ⟨[0xfffffc2f, 0xfffffffe, 0xffffffff, 0xffffffff, 0xffffffff, 0xffffffff, 0xffffffff, 0xffffffff],
    rfl⟩

/-- The modulus. -/
def prime : ℕ := 2 ^ 256 - 2 ^ 32 - 977

/-- `Field`. -/
structure Field where
  words : Words 8
deriving DecidableEq

/-! ## Code -/

section Code

variable (m : Type → Type) (W : Type) [Monad m] [Wide W] [WideOps m W]

/-- `field::subtract`: the difference, and the borrow. -/
def subtractIn (a b : Words 8) : m (Words 8 × UInt32) := do
  let (words, borrow) ← limbs (fun i borrow => do
    let subtrahend ← WideOps.add (Wide.extend (b.word i)) borrow
    let value : W := Wide.sub (Wide.extend (a.word i)) subtrahend
    return (Wide.low value, Wide.sign value)) 8 0 Wide.zero
  return (words, Wide.low borrow)

/-- The sum of eight limbs, and the carry: the loop of `add_mod`, `sub_mod` and `half`. -/
def addWordsIn (a b : Words 8) : m (Words 8 × W) :=
  limbs (fun i carry => do
    let sum ← WideOps.add (Wide.extend (a.word i)) (Wide.extend (b.word i))
    let carry : W ← WideOps.add carry sum
    return (Wide.low carry, Wide.high carry)) 8 0 Wide.zero

/-- Words less the modulus, unless they are below it. -/
def reducedBelowIn (modulus words : Words 8) : m (Words 8) := do
  let (reduced, borrow) ← subtractIn m W words modulus
  return if borrow = 0 then reduced else words

/-- The sum of words less the modulus, unless it is below it. -/
def addBelowIn (modulus a b : Words 8) : m (Words 8) := do
  let (words, carry) ← addWordsIn m W a b
  let (reduced, borrow) ← subtractIn m W words modulus
  return if Wide.nonzero carry ∨ borrow = 0 then reduced else words

namespace Field

/-- `Field::reduced`. -/
def reducedIn (words : Words 8) : m Field := do
  return ⟨← reducedBelowIn m W P words⟩

/-- `Field::add_mod`. -/
def addModIn (self other : Field) : m Field := do
  return ⟨← addBelowIn m W P self.words other.words⟩

/-- `Field::sub_mod`. -/
def subModIn (self other : Field) : m Field := do
  let (words, borrow) ← subtractIn m W self.words other.words
  let mask := 0 - borrow
  let (words, _) ← addWordsIn m W words (P.map (· &&& mask))
  return ⟨words⟩

/-- The words with a multiple of `2 ^ 32 + 977` added, and the carry: the block that `reduce_wide`
has twice. -/
def foldIn (words : Words 8) (top : W) : m (Words 8 × W) := do
  let scaled ← WideOps.scale top 977
  let carry : W ← WideOps.add (Wide.extend (words.word 0)) scaled
  let word0 := Wide.low carry
  let carry : W ← WideOps.add (Wide.high carry) (Wide.extend (words.word 1))
  let carry : W ← WideOps.add carry top
  let word1 := Wide.low carry
  let (rest, carry) ← limbs (fun i carry => do
    let carry : W ← WideOps.add carry (Wide.extend (words.word i))
    return (Wide.low carry, Wide.high carry)) 6 2 (Wide.high carry)
  return (word0 ::ᵥ word1 ::ᵥ rest, carry)

/-- `Field::reduce_wide`. -/
def reduceWideIn (t : Words 16) : m Field := do
  let product ← WideOps.mul (t.word 8) 977
  let carry : W ← WideOps.add (Wide.extend (t.word 0)) product
  let word0 := Wide.low carry
  let (rest, carry) ← limbs (fun i carry => do
    let product ← WideOps.mul (t.word (i + 8)) 977
    let sum ← WideOps.add (Wide.extend (t.word i)) product
    let sum ← WideOps.add sum (Wide.extend (t.word (i + 7)))
    let carry : W ← WideOps.add carry sum
    return (Wide.low carry, Wide.high carry)) 7 1 (Wide.high carry)
  let top ← WideOps.add carry (Wide.extend (t.word 15))
  let (words, overflow) ← foldIn m W (word0 ::ᵥ rest) top
  let (words, _) ← foldIn m W words overflow
  reducedIn m W words

/-- The products of a column, their low and high words summed apart. -/
def columnIn (a b : Words 8) (column : ℕ) : List ℕ → W → W → m (W × W)
  | [], low, high => return (low, high)
  | i :: is, low, high => do
    let product : W ← WideOps.mul (a.word i) (b.word (column - i))
    let low ← WideOps.add low (Wide.extend (Wide.low product))
    let high ← WideOps.add high (Wide.high product)
    columnIn a b column is low high

/-- The first factors of the columns of a product. -/
def mulColumns : ℕ → List ℕ
  | 0 => [0]
  | 1 => [0, 1]
  | 2 => [0, 1, 2]
  | 3 => [0, 1, 2, 3]
  | 4 => [0, 1, 2, 3, 4]
  | 5 => [0, 1, 2, 3, 4, 5]
  | 6 => [0, 1, 2, 3, 4, 5, 6]
  | 7 => [0, 1, 2, 3, 4, 5, 6, 7]
  | 8 => [1, 2, 3, 4, 5, 6, 7]
  | 9 => [2, 3, 4, 5, 6, 7]
  | 10 => [3, 4, 5, 6, 7]
  | 11 => [4, 5, 6, 7]
  | 12 => [5, 6, 7]
  | 13 => [6, 7]
  | 14 => [7]
  | _ => []

/-- `Field::mul_mod`. -/
def mulModIn (self other : Field) : m Field := do
  let (words, carry) ← limbs (fun column carry => do
    let (low, high) ← columnIn m W self.words other.words column (mulColumns column) carry Wide.zero
    let carry : W ← WideOps.add (Wide.high low) high
    return (Wide.low low, carry)) 15 0 Wide.zero
  reduceWideIn m W (words ++ (Wide.low carry ::ᵥ .nil : Words 1))

/-- The first factors of the products that a column of a square has twice. -/
def squareColumns : ℕ → List ℕ
  | 1 => [0]
  | 2 => [0]
  | 3 => [0, 1]
  | 4 => [0, 1]
  | 5 => [0, 1, 2]
  | 6 => [0, 1, 2]
  | 7 => [0, 1, 2, 3]
  | 8 => [1, 2, 3]
  | 9 => [2, 3, 4]
  | 10 => [3, 4]
  | 11 => [4, 5]
  | 12 => [5]
  | 13 => [6]
  | _ => []

/-- The product that an even column of a square has once. -/
def diagonalIn (a : Words 8) (column : ℕ) (low high : W) : m (W × W) :=
  if column % 2 = 0 then do
    let diagonal : W ← WideOps.mul (a.word (column / 2)) (a.word (column / 2))
    let low ← WideOps.add low (Wide.extend (Wide.low diagonal))
    let high ← WideOps.add high (Wide.high diagonal)
    return (low, high)
  else return (low, high)

/-- `Field::square`. -/
def squareIn (self : Field) : m Field := do
  let (words, carry) ← limbs (fun column carry => do
    let (low, high) ← columnIn m W self.words self.words column (squareColumns column)
      Wide.zero Wide.zero
    let low ← WideOps.scale low 2
    let high ← WideOps.scale high 2
    let (low, high) ← diagonalIn m W self.words column low high
    let low ← WideOps.add low carry
    let carry : W ← WideOps.add (Wide.high low) high
    return (Wide.low low, carry)) 15 0 Wide.zero
  reduceWideIn m W (words ++ (Wide.low carry ::ᵥ .nil : Words 1))

end Field

end Code

/-! ## What it computes -/

section Spec

open LawfulWide

variable {m : Type → Type} {W : Type} [Monad m] [LawfulMonad m] [Wide W] [LawfulWide W]
  [WideOps m W] [WordOps m] [LawfulOps m W]

/-- Words as the sum of eight limbs. -/
lemma limbSum_words (a : Words 8) :
    limbSum (fun i => ((a.word i).toNat : ℤ)) 8 0 = Words.value a := limbSum_word a

lemma returns_subtract (a b : Words 8) :
    Returns (subtractIn m W a b) fun r =>
      (Words.value r.1 : ℤ) = Words.value a - Words.value b + 2 ^ 256 * r.2.toNat ∧
        r.2.toNat ≤ 1 := by
  refine (returns_limbs (f := fun i => ((a.word i).toNat : ℤ) - (b.word i).toNat)
    (g := fun borrow => -(val borrow : ℤ)) (p := fun borrow => val borrow ≤ 1) ?_ ?_).bind
    fun r hr => ?_
  · rw [val_zero]
    exact zero_le_one
  · intro i borrow _ _ hborrow
    have ha := (a.word i).toNat_lt
    have hb := (b.word i).toNat_lt
    refine (LawfulOps.returns_add _ _ ?_).bind fun x hx => ?_
    · rw [val_extend]
      omega
    · rw [val_extend] at hx
      refine returns_pure ⟨?_, ?_⟩
      · rw [toNat_low, val_sign, val_sub, val_extend, hx]
        omega
      · rw [val_sign, val_sub, val_extend, hx]
        omega
  · obtain ⟨hvalue, hborrow⟩ := hr
    rw [limbSum_sub, limbSum_words, limbSum_words, val_zero] at hvalue
    have hlow : (Wide.low r.2).toNat = val r.2 := by
      rw [toNat_low, Nat.mod_eq_of_lt (by omega)]
    refine returns_pure ⟨?_, ?_⟩
    · rw [hlow]
      push_cast at hvalue
      linarith
    · rw [hlow]
      exact hborrow

lemma returns_addWords (a b : Words 8) :
    Returns (addWordsIn m W a b) fun r =>
      Words.value r.1 + 2 ^ 256 * val r.2 = Words.value a + Words.value b ∧ val r.2 ≤ 1 := by
  refine (returns_limbs (f := fun i => ((a.word i).toNat : ℤ) + (b.word i).toNat)
    (g := fun carry => (val carry : ℤ)) (p := fun carry => val carry ≤ 1) ?_ ?_).mono fun r hr => ?_
  · rw [val_zero]
    exact zero_le_one
  · intro i carry _ _ hcarry
    have ha := (a.word i).toNat_lt
    have hb := (b.word i).toNat_lt
    refine (LawfulOps.returns_add _ _ ?_).bind fun x hx => ?_
    · rw [val_extend, val_extend]
      omega
    · rw [val_extend, val_extend] at hx
      refine (LawfulOps.returns_add _ _ ?_).bind fun y hy => ?_
      · omega
      · refine returns_pure ⟨?_, ?_⟩
        · rw [toNat_low, val_high, hy, hx]
          omega
        · rw [val_high, hy, hx]
          omega
  · rw [limbSum_add, limbSum_words, limbSum_words, val_zero] at hr
    exact ⟨by exact_mod_cast hr.1, hr.2⟩

/-- One subtraction reduces words below twice the modulus. -/
lemma returns_reducedBelow (modulus : Words 8) (h : 2 ^ 256 ≤ 2 * Words.value modulus)
    (words : Words 8) :
    Returns (reducedBelowIn m W modulus words)
      (· = Words.ofNat 8 (Words.value words % Words.value modulus)) := by
  refine (returns_subtract words modulus).bind fun r hr => returns_pure (Words.eq_ofNat ?_)
  obtain ⟨hvalue, hborrow⟩ := hr
  have hwords := Words.value_lt words
  have hmodulus := Words.value_lt modulus
  have hr := Words.value_lt r.1
  have hzero : r.2 = 0 ↔ r.2.toNat = 0 := UInt32.toNat_inj.symm
  by_cases hreduce : r.2 = 0
  · rw [if_pos hreduce]
    rw [hzero] at hreduce
    have hmod : Words.value words % Words.value modulus =
        Words.value words - Words.value modulus := by
      rw [Nat.mod_eq_sub_mod (by omega), Nat.mod_eq_of_lt (by omega)]
    rw [hmod]
    omega
  · rw [if_neg hreduce]
    rw [hzero] at hreduce
    have hmod : Words.value words % Words.value modulus = Words.value words :=
      Nat.mod_eq_of_lt (by omega)
    rw [hmod]
    omega

/-- Words with a carry, less the modulus unless they are below it. -/
lemma select_reduced {modulus words reduced : Words 8} {carry v : ℕ} {borrow : UInt32} {p : Prop}
    [Decidable p] (h : 2 ^ 255 ≤ Words.value modulus) (hp : p ↔ carry ≠ 0 ∨ borrow = 0)
    (hcarry : carry ≤ 1) (hborrow : borrow.toNat ≤ 1)
    (hsum : Words.value words + 2 ^ 256 * carry = v)
    (hdiff : (Words.value reduced : ℤ) =
      Words.value words - Words.value modulus + 2 ^ 256 * borrow.toNat) :
    (if p then reduced else words) =
      Words.ofNat 8 (if Words.value modulus ≤ v then v - Words.value modulus else v) := by
  have hmodulus := Words.value_lt modulus
  have hwords := Words.value_lt words
  have hreduced := Words.value_lt reduced
  rw [← UInt32.toNat_inj] at hp
  change p ↔ carry ≠ 0 ∨ borrow.toNat = 0 at hp
  refine Words.eq_ofNat ?_
  by_cases hreduce : p
  · rw [if_pos hreduce]
    rw [hp] at hreduce
    rw [if_pos (by omega)]
    omega
  · rw [if_neg hreduce]
    rw [hp] at hreduce
    rw [if_neg (by omega)]
    omega

/-- The sum of words, less the modulus unless it is below it. -/
lemma returns_addBelow (modulus : Words 8) (h : 2 ^ 255 ≤ Words.value modulus) (a b : Words 8) :
    Returns (addBelowIn m W modulus a b) (· = Words.ofNat 8
      (if Words.value modulus ≤ Words.value a + Words.value b
        then Words.value a + Words.value b - Words.value modulus
        else Words.value a + Words.value b)) := by
  refine (returns_addWords a b).bind fun r hr => ?_
  refine (returns_subtract r.1 modulus).bind fun s hs => returns_pure ?_
  exact select_reduced h (or_congr_left (nonzero_iff r.2)) hr.2 hs.2 hr.1 hs.1

/-- The sum of words from `i` on and a carry. -/
lemma returns_carry {a : Words 8} {c : W} (hc : val c < 2 ^ 34) :
    Returns (limbs (fun i carry => do
      let carry : W ← WideOps.add carry (Wide.extend (a.word i))
      return (Wide.low carry, Wide.high carry)) 6 2 c : m (Words 6 × W)) fun r =>
        (Words.value r.1 : ℤ) + 2 ^ 192 * val r.2 =
          limbSum (fun i => ((a.word i).toNat : ℤ)) 6 2 + val c := by
  refine (returns_limbs (f := fun i => ((a.word i).toNat : ℤ)) (g := fun carry => (val carry : ℤ))
    (p := fun carry => val carry < 2 ^ 34) hc ?_).mono fun r hr => hr.1
  intro i carry _ _ hcarry
  have ha := (a.word i).toNat_lt
  refine (LawfulOps.returns_add _ _ ?_).bind fun x hx => returns_pure ⟨?_, ?_⟩
  · rw [val_extend]
    omega
  · rw [val_extend] at hx
    rw [toNat_low, val_high, hx]
    omega
  · rw [val_extend] at hx
    rw [val_high, hx]
    omega

namespace Field

/-- What the words of a field element stand for. -/
def value (self : Field) : ℕ := self.words.value

/-- The field element of a number. -/
def ofNat (v : ℕ) : Field := ⟨Words.ofNat 8 (v % prime)⟩

/-- A field element is canonical when its words are below the modulus. -/
def Canonical (self : Field) : Prop := self.value < prime

lemma cast_prime : (prime : ℤ) = 2 ^ 256 - 2 ^ 32 - 977 := by norm_num [prime]

lemma prime_lt : prime < 2 ^ 256 := by norm_num [prime]

lemma value_lt (self : Field) : self.value < 2 ^ 256 := Words.value_lt self.words

lemma value_P : Words.value P = prime := by decide +kernel

@[simp] lemma value_ofNat (v : ℕ) : (ofNat v).value = v % prime := by
  rw [value, ofNat, Words.value_ofNat]
  exact Nat.mod_eq_of_lt ((Nat.mod_lt _ (by norm_num [prime])).trans prime_lt)

lemma canonical_ofNat (v : ℕ) : (ofNat v).Canonical := by
  rw [Canonical, value_ofNat]
  exact Nat.mod_lt _ (by norm_num [prime])

lemma value_injective : Function.Injective value := by
  rintro ⟨a⟩ ⟨b⟩ h
  exact congrArg mk (Words.value_injective h)

lemma eq_ofNat {a : Field} {v : ℕ} (h : a.value = v % prime) : a = ofNat v :=
  value_injective (h.trans (value_ofNat v).symm)

/-- Words are reduced by one subtraction. -/
lemma returns_reduced (a : Words 8) :
    Returns (reducedIn m W a) (· = ofNat a.value) := by
  refine (returns_reducedBelow P ?_ a).bind fun words hwords => returns_pure ?_
  · rw [value_P]
    norm_num [prime]
  · rw [hwords, value_P]
    rfl

/-- A fold adds the multiple of `2 ^ 32 + 977`. -/
lemma returns_fold (a : Words 8) {top : W} (htop : val top < 2 ^ 33) :
    Returns (foldIn m W a top) fun r =>
      Words.value r.1 + 2 ^ 256 * val r.2 = Words.value a + (2 ^ 32 + 977) * val top := by
  have h0 := (a.word 0).toNat_lt
  have h1 := (a.word 1).toNat_lt
  have ha : (Words.value a : ℤ) = (a.word 0).toNat + 2 ^ 32 * ((a.word 1).toNat +
      2 ^ 32 * limbSum (fun i => ((a.word i).toNat : ℤ)) 6 2) := (limbSum_words a).symm
  refine (LawfulOps.returns_scale _ _ ?_).bind fun scaled hscaled => ?_
  · change val top * 977 < _
    omega
  change val scaled = val top * 977 at hscaled
  refine (LawfulOps.returns_add _ _ ?_).bind fun x hx => ?_
  · rw [val_extend]
    omega
  rw [val_extend] at hx
  refine (LawfulOps.returns_add _ _ ?_).bind fun y hy => ?_
  · rw [val_extend, val_high]
    omega
  rw [val_extend, val_high] at hy
  refine (LawfulOps.returns_add _ _ ?_).bind fun z hz => ?_
  · omega
  refine (returns_carry (a := a) (c := Wide.high z) ?_).bind fun r hr => returns_pure ?_
  · rw [val_high]
    omega
  · rw [val_high] at hr
    rw [Words.value_cons, Words.value_cons, toNat_low, toNat_low]
    have hrest : (Words.value r.1 : ℤ) = limbSum (fun i => ((a.word i).toNat : ℤ)) 6 2 +
        (val z / 2 ^ 32 : ℕ) - 2 ^ 192 * val r.2 := by linarith
    have hx' : (val x : ℤ) = val x % 2 ^ 32 + 2 ^ 32 * (val x / 2 ^ 32 : ℕ) := by omega
    have hz' : (val z : ℤ) = val z % 2 ^ 32 + 2 ^ 32 * (val z / 2 ^ 32 : ℕ) := by omega
    have htotal : (val z : ℤ) = (val x / 2 ^ 32 : ℕ) + (a.word 1).toNat + val top := by omega
    have hsum : (val x : ℤ) = (a.word 0).toNat + val top * 977 := by omega
    zify
    rw [hrest, ha]
    push_cast at hx' hz' htotal ⊢
    linear_combination -hx' - 2 ^ 32 * hz' + 2 ^ 32 * htotal + hsum

/-- The first pass of a reduction: the upper half times `2 ^ 32 + 977`, added to the lower half. -/
lemma returns_spread {t : Words 16} {c : W} (hc : val c < 2 ^ 33) :
    Returns (limbs (fun i carry => do
      let product ← WideOps.mul (t.word (i + 8)) 977
      let sum ← WideOps.add (Wide.extend (t.word i)) product
      let sum ← WideOps.add sum (Wide.extend (t.word (i + 7)))
      let carry : W ← WideOps.add carry sum
      return (Wide.low carry, Wide.high carry)) 7 1 c : m (Words 7 × W)) fun r =>
        (Words.value r.1 : ℤ) + 2 ^ 224 * val r.2 =
          limbSum (fun i => ((t.word i).toNat : ℤ) + 977 * (t.word (i + 8)).toNat +
            (t.word (i + 7)).toNat) 7 1 + val c ∧ val r.2 < 2 ^ 33 := by
  refine (returns_limbs (f := fun i => ((t.word i).toNat : ℤ) + 977 * (t.word (i + 8)).toNat +
    (t.word (i + 7)).toNat) (g := fun carry => (val carry : ℤ))
    (p := fun carry => val carry < 2 ^ 33) hc ?_)
  intro i carry _ _ hcarry
  have h0 := (t.word i).toNat_lt
  have h7 := (t.word (i + 7)).toNat_lt
  have h8 := (t.word (i + 8)).toNat_lt
  refine (LawfulOps.returns_mul _ _).bind fun product hproduct => ?_
  change val product = _ * 977 at hproduct
  refine (LawfulOps.returns_add _ _ ?_).bind fun x hx => ?_
  · rw [val_extend]
    omega
  rw [val_extend] at hx
  refine (LawfulOps.returns_add _ _ ?_).bind fun y hy => ?_
  · rw [val_extend]
    omega
  rw [val_extend] at hy
  refine (LawfulOps.returns_add _ _ ?_).bind fun z hz => returns_pure ⟨?_, ?_⟩
  · omega
  · rw [toNat_low, val_high]
    omega
  · rw [val_high]
    omega

/-- What the first pass of a reduction sums. -/
lemma spread_eq (t : ℕ → ℤ) :
    t 0 + t 8 * 977 + 2 ^ 32 * limbSum (fun i => t i + 977 * t (i + 8) + t (i + 7)) 7 1 +
        2 ^ 256 * t 15 =
      limbSum t 8 0 + (2 ^ 32 + 977) * limbSum (fun i => t (i + 8)) 8 0 := by
  simp only [limbSum]
  ring

lemma value_halves (t : Words 16) : (Words.value t : ℤ) =
    limbSum (fun i => ((t.word i).toNat : ℤ)) 8 0 +
      2 ^ 256 * limbSum (fun i => ((t.word (i + 8)).toNat : ℤ)) 8 0 := by
  rw [← limbSum_word t]
  simp only [limbSum]
  ring

lemma ofNat_congr {v w k : ℤ} {a b : ℕ} (ha : (a : ℤ) = v) (hb : (b : ℤ) = w)
    (h : w = v + prime * k) : ofNat a = ofNat b := by
  have hmod : (b : ℤ) % prime = a % prime := by rw [ha, hb, h, Int.add_mul_emod_self_left]
  rw [ofNat, ofNat]
  exact_mod_cast congrArg (fun v => (⟨Words.ofNat 8 v⟩ : Field)) (by exact_mod_cast hmod.symm)

/-- Sixteen words are reduced in two folds and a subtraction. -/
lemma returns_reduceWide (t : Words 16) :
    Returns (reduceWideIn m W t) (· = ofNat (Words.value t)) := by
  have h0 := (t.word 0).toNat_lt
  have h8 := (t.word 8).toNat_lt
  have h15 := (t.word 15).toNat_lt
  refine (LawfulOps.returns_mul _ _).bind fun product hproduct => ?_
  change val product = _ * 977 at hproduct
  refine (LawfulOps.returns_add _ _ ?_).bind fun x hx => ?_
  · rw [val_extend]
    omega
  rw [val_extend] at hx
  refine (returns_spread ?_).bind fun r hr => ?_
  · rw [val_high]
    omega
  obtain ⟨hr, hcarry⟩ := hr
  rw [val_high] at hr
  refine (LawfulOps.returns_add _ _ ?_).bind fun top htop => ?_
  · rw [val_extend]
    omega
  rw [val_extend] at htop
  -- the first pass keeps the value up to a multiple of the modulus
  have hspread := spread_eq fun i => ((t.word i).toNat : ℤ)
  have hlow := limbSum_lt (f := fun i => ((t.word i).toNat : ℤ)) (n := 8) (i := 0)
    fun i => by exact_mod_cast (t.word i).toNat_lt
  have hhigh := limbSum_lt (f := fun i => ((t.word (i + 8)).toNat : ℤ)) (n := 8) (i := 0)
    fun i => by exact_mod_cast (t.word (i + 8)).toNat_lt
  have ht := value_halves t
  obtain ⟨first, hfirst⟩ : ∃ a : Words 8, a = Wide.low x ::ᵥ r.1 := ⟨_, rfl⟩
  have hfirst_value : (Words.value first : ℤ) + 2 ^ 256 * val top =
      limbSum (fun i => ((t.word i).toNat : ℤ)) 8 0 +
        (2 ^ 32 + 977) * limbSum (fun i => ((t.word (i + 8)).toNat : ℤ)) 8 0 := by
    rw [← hspread, hfirst, Words.value_cons, toNat_low]
    have hsplit : (val x : ℤ) = val x % 2 ^ 32 + 2 ^ 32 * (val x / 2 ^ 32 : ℕ) := by omega
    zify at hx htop hproduct
    push_cast at hsplit hr ⊢
    linear_combination -hsplit + 2 ^ 32 * hr + 2 ^ 256 * htop + hx + hproduct
  rw [← hfirst]
  have hbound := Words.value_lt first
  have htop_le : val top ≤ 2 ^ 32 + 977 := by omega
  -- the first fold leaves a carry of at most one, the second none
  refine (returns_fold first ?_).bind fun b hb => ?_
  · omega
  have hsecond := Words.value_lt b.1
  have hoverflow : val b.2 ≤ 1 := by omega
  refine (returns_fold b.1 ?_).bind fun c hc => ?_
  · omega
  have hthird := Words.value_lt c.1
  have hdone : val c.2 = 0 := by omega
  refine (returns_reduced c.1).mono fun f hf => hf.trans ?_
  refine ofNat_congr rfl ht
    (k := val b.2 + val top + limbSum (fun i => ((t.word (i + 8)).toNat : ℤ)) 8 0) ?_
  rw [hdone] at hc
  zify at hb hc
  rw [cast_prime]
  linear_combination -hc - hb - hfirst_value

/-! ### Products -/

/-- The sum of the products of a column. -/
def columnSum (a b : Words 8) (column : ℕ) (l : List ℕ) : ℕ :=
  (l.map fun i => (a.word i).toNat * (b.word (column - i)).toNat).sum

/-- A column is summed exactly, each half by at most a word for each product. -/
lemma returns_column (a b : Words 8) (column : ℕ) {l : List ℕ} {low high : W}
    (hlow : val low + l.length * 2 ^ 32 < 2 ^ 64) (hhigh : val high + l.length * 2 ^ 32 < 2 ^ 64) :
    Returns (columnIn m W a b column l low high) fun r =>
      val r.1 + 2 ^ 32 * val r.2 = val low + 2 ^ 32 * val high + columnSum a b column l ∧
        val r.1 ≤ val low + l.length * 2 ^ 32 ∧ val r.2 ≤ val high + l.length * 2 ^ 32 := by
  induction l generalizing low high with
  | nil => exact returns_pure ⟨rfl, Nat.le_add_right _ _, Nat.le_add_right _ _⟩
  | cons i is ih =>
    rw [List.length_cons] at hlow hhigh ⊢
    refine (LawfulOps.returns_mul _ _).bind fun product hproduct => ?_
    have hlt := val_lt product
    refine (LawfulOps.returns_add _ _ ?_).bind fun x hx => ?_
    · rw [val_extend, toNat_low]
      omega
    rw [val_extend, toNat_low] at hx
    refine (LawfulOps.returns_add _ _ ?_).bind fun y hy => ?_
    · rw [val_high]
      omega
    rw [val_high] at hy
    refine (@ih x y ?_ ?_).mono fun r hr => ?_
    · omega
    · omega
    · obtain ⟨hsum, hr1, hr2⟩ := hr
      rw [columnSum, List.map_cons, List.sum_cons, ← columnSum]
      exact ⟨by omega, by omega, by omega⟩

/-- Fifteen columns and the last carry make sixteen words. -/
lemma returns_columns {body : ℕ → W → m (UInt32 × W)} {f : ℕ → ℤ} {total : ℕ} {c : W}
    (hc : val c = 0) (htotal : limbSum f 15 0 = total) (hlt : total < 2 ^ 256 * 2 ^ 256)
    (hbody : ∀ i carry, i < 15 → val carry < 2 ^ 37 → Returns (body i carry) fun r =>
      (r.1.toNat : ℤ) + 2 ^ 32 * val r.2 = f i + val carry ∧ val r.2 < 2 ^ 37) :
    Returns (do
      let (words, carry) ← limbs body 15 0 c
      reduceWideIn m W (words ++ (Wide.low carry ::ᵥ .nil : Words 1))) (· = ofNat total) := by
  refine (returns_limbs (g := fun carry => (val carry : ℤ)) (p := fun carry => val carry < 2 ^ 37)
    ?_ fun i carry _ hi => hbody i carry (by omega)).bind fun r hr => ?_
  · omega
  obtain ⟨hvalue, -⟩ := hr
  have hcarry : val r.2 < 2 ^ 32 := by omega
  have hwords : Words.value (r.1 ++ (Wide.low r.2 ::ᵥ .nil : Words 1)) = total := by
    rw [Words.value_append, Words.value_cons, Words.value_nil, toNat_low]
    omega
  rw [← hwords]
  exact returns_reduceWide _

lemma mul_value_lt (a b : Words 8) : Words.value a * Words.value b < 2 ^ 256 * 2 ^ 256 :=
  Nat.mul_lt_mul'' (Words.value_lt a) (Words.value_lt b)

/-- The columns of a product have all its partial products. -/
lemma limbSum_mulColumns (a b : Words 8) :
    limbSum (fun column => (columnSum a b column (mulColumns column) : ℤ)) 15 0 =
      (Words.value a * Words.value b : ℕ) := by
  push_cast
  rw [← limbSum_words a, ← limbSum_words b]
  simp only [limbSum, mulColumns, columnSum, List.map_cons, List.map_nil, List.sum_cons,
    List.sum_nil, Nat.reduceAdd, Nat.reduceSub]
  push_cast
  ring

lemma length_mulColumns (column : ℕ) : (mulColumns column).length ≤ 8 := by
  rw [mulColumns.eq_def]
  split <;> decide

/-- `mul_mod` is exact on all words. -/
lemma returns_mulMod (self other : Field) :
    Returns (mulModIn m W self other) (· = ofNat (self.value * other.value)) := by
  refine returns_columns val_zero (limbSum_mulColumns _ _) (mul_value_lt _ _)
    fun column carry _ hcarry => ?_
  have hlength := length_mulColumns column
  refine (returns_column _ _ _ ?_ ?_).bind fun r hr => ?_
  · omega
  · rw [val_zero]
    omega
  obtain ⟨hsum, hlow, hhigh⟩ := hr
  rw [val_zero] at hsum hhigh
  refine (LawfulOps.returns_add _ _ ?_).bind fun carry' hcarry' => returns_pure ⟨?_, ?_⟩
  · rw [val_high]
    omega
  · rw [val_high] at hcarry'
    rw [toNat_low]
    dsimp only
    omega
  · rw [val_high] at hcarry'
    dsimp only
    omega

/-- The product that an even column of a square has once. -/
def diagonal (a : Words 8) (column : ℕ) : ℕ :=
  if column % 2 = 0 then (a.word (column / 2)).toNat * (a.word (column / 2)).toNat else 0

/-- The columns of a square have all its partial products, each mixed one twice. -/
lemma limbSum_squareColumns (a : Words 8) :
    limbSum (fun column => (2 * columnSum a a column (squareColumns column) + diagonal a column : ℕ))
      15 0 = (Words.value a * Words.value a : ℕ) := by
  push_cast
  rw [← limbSum_words a]
  simp only [limbSum, squareColumns, columnSum, diagonal, List.map_cons, List.map_nil,
    List.sum_cons, List.sum_nil, Nat.reduceAdd, Nat.reduceSub, Nat.reduceMod, Nat.reduceDiv,
    reduceIte, Nat.one_ne_zero]
  push_cast
  ring

lemma length_squareColumns (column : ℕ) : (squareColumns column).length ≤ 8 := by
  rw [squareColumns.eq_def]
  split <;> decide

lemma returns_diagonal (a : Words 8) (column : ℕ) {low high : W} (hlow : val low < 2 ^ 40)
    (hhigh : val high < 2 ^ 40) :
    Returns (diagonalIn m W a column low high) fun r =>
      val r.1 + 2 ^ 32 * val r.2 = val low + 2 ^ 32 * val high + diagonal a column ∧
        val r.1 ≤ val low + 2 ^ 32 ∧ val r.2 ≤ val high + 2 ^ 32 := by
  rw [diagonalIn, diagonal]
  by_cases heven : column % 2 = 0
  · rw [if_pos heven, if_pos heven]
    refine (LawfulOps.returns_mul _ _).bind fun product hproduct => ?_
    have hlt := val_lt product
    refine (LawfulOps.returns_add _ _ ?_).bind fun x hx => ?_
    · rw [val_extend, toNat_low]
      omega
    rw [val_extend, toNat_low] at hx
    refine (LawfulOps.returns_add _ _ ?_).bind fun y hy => returns_pure ?_
    · rw [val_high]
      omega
    rw [val_high] at hy
    dsimp only
    omega
  · rw [if_neg heven, if_neg heven]
    exact returns_pure ⟨rfl, Nat.le_add_right _ _, Nat.le_add_right _ _⟩

/-- `square` is exact on all words. -/
lemma returns_square (self : Field) :
    Returns (squareIn m W self) (· = ofNat (self.value * self.value)) := by
  refine returns_columns val_zero (limbSum_squareColumns _) (mul_value_lt _ _)
    fun column carry _ hcarry => ?_
  have hlength := length_squareColumns column
  refine (returns_column _ _ _ ?_ ?_).bind fun r hr => ?_
  · rw [val_zero]
    omega
  · rw [val_zero]
    omega
  obtain ⟨hsum, hlow, hhigh⟩ := hr
  rw [val_zero] at hsum hlow hhigh
  refine (LawfulOps.returns_scale _ _ ?_).bind fun low hlow' => ?_
  · change _ * 2 < _
    omega
  refine (LawfulOps.returns_scale _ _ ?_).bind fun high hhigh' => ?_
  · change _ * 2 < _
    omega
  change val low = _ * 2 at hlow'
  change val high = _ * 2 at hhigh'
  refine (returns_diagonal _ _ ?_ ?_).bind fun s hs => ?_
  · omega
  · omega
  obtain ⟨hdiagonal, hslow, hshigh⟩ := hs
  refine (LawfulOps.returns_add _ _ ?_).bind fun total htotal => ?_
  · omega
  refine (LawfulOps.returns_add _ _ ?_).bind fun carry' hcarry' => returns_pure ⟨?_, ?_⟩
  · rw [val_high]
    omega
  · rw [val_high] at hcarry'
    rw [toNat_low]
    push_cast
    omega
  · rw [val_high] at hcarry'
    dsimp only
    omega

/-! ### Sums and differences -/

/-- `add_mod` on all words. -/
lemma returns_addMod (self other : Field) :
    Returns (addModIn m W self other) fun f => f.words = Words.ofNat 8
      (if prime ≤ self.value + other.value then self.value + other.value - prime
        else self.value + other.value) := by
  refine (returns_addBelow P ?_ _ _).bind fun words hwords => returns_pure ?_
  · rw [value_P]
    norm_num [prime]
  · rw [hwords, value_P]
    rfl

/-- The modulus under the mask of a borrow. -/
lemma value_mask {borrow : UInt32} (h : borrow.toNat ≤ 1) :
    Words.value (P.map (· &&& (0 - borrow))) = prime * borrow.toNat := by
  obtain hzero | hone : borrow.toNat = 0 ∨ borrow.toNat = 1 := by omega
  · rw [UInt32.toNat_inj.mp (hzero.trans UInt32.toNat_zero.symm)]
    decide +kernel
  · rw [UInt32.toNat_inj.mp (hone.trans UInt32.toNat_one.symm)]
    decide +kernel

/-- `sub_mod` on all words. -/
lemma returns_subMod (self other : Field) :
    Returns (subModIn m W self other) fun f => f.words = Words.ofNat 8
      (if self.value < other.value then self.value + (2 ^ 256 + prime) - other.value
        else self.value - other.value) := by
  refine (returns_subtract _ _).bind fun r hr => ?_
  obtain ⟨hdiff, hborrow⟩ := hr
  refine (returns_addWords r.1 _).bind fun s hs => returns_pure (Words.eq_ofNat ?_)
  obtain ⟨hsum, hcarry⟩ := hs
  have hwords := Words.value_lt r.1
  have hresult := Words.value_lt s.1
  have hself := value_lt self
  have hother := value_lt other
  rw [value_mask hborrow] at hsum
  change _ = (self.value : ℤ) - other.value + _ at hdiff
  rw [prime] at hsum ⊢
  by_cases hlt : self.value < other.value
  · have hone : r.2.toNat = 1 := by omega
    rw [if_pos hlt]
    rw [hone] at hdiff hsum
    dsimp only
    omega
  · have hzero : r.2.toNat = 0 := by omega
    rw [if_neg hlt]
    rw [hzero] at hdiff hsum
    dsimp only
    omega

end Field

end Spec

end Pickaxe.Engine
