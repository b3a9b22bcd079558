/-
# Field arithmetic is exact

Halving, which completes the field operations, and the field arithmetic of native targets, which is
exact: it computes what the numbers say, it never overflows, and shaders compute the same limbs.
-/
import Pickaxe.Engine.Field

namespace Pickaxe.Engine

open Lib

/-! ## Halving -/

/-- One word of `shift_right`. -/
def shiftWord (v next : UInt32) : UInt32 := (v >>> 1) ||| (next <<< 31)

/-- `sign::shift_right`. -/
def shiftRight (v : Words 8) (top : UInt32) : Words 8 :=
  ⟨[shiftWord (v.word 0) (v.word 1), shiftWord (v.word 1) (v.word 2),
    shiftWord (v.word 2) (v.word 3), shiftWord (v.word 3) (v.word 4),
    shiftWord (v.word 4) (v.word 5), shiftWord (v.word 5) (v.word 6),
    shiftWord (v.word 6) (v.word 7), shiftWord (v.word 7) top], rfl⟩

lemma toNat_shiftWord (v next : UInt32) :
    (shiftWord v next).toNat = v.toNat / 2 + 2 ^ 31 * (next.toNat % 2) := by
  have hv := v.toNat_lt
  have hlow : (v >>> 1).toNat = v.toNat / 2 := by
    rw [UInt32.toNat_shiftRight]
    exact Nat.shiftRight_eq_div_pow _ 1
  have hhigh : (next <<< 31).toNat = 2 ^ 31 * (next.toNat % 2) := by
    rw [UInt32.toNat_shiftLeft, Nat.shiftLeft_eq]
    change next.toNat * 2 ^ 31 % 2 ^ 32 = _
    omega
  rw [shiftWord, UInt32.toNat_or, hlow, hhigh, Nat.or_comm,
    ← Nat.two_pow_add_eq_or_of_lt (by omega), Nat.add_comm]

lemma value_eq_words (v : Words 8) : Words.value v = (v.word 0).toNat + 2 ^ 32 * (v.word 1).toNat +
    2 ^ 64 * (v.word 2).toNat + 2 ^ 96 * (v.word 3).toNat + 2 ^ 128 * (v.word 4).toNat +
    2 ^ 160 * (v.word 5).toNat + 2 ^ 192 * (v.word 6).toNat + 2 ^ 224 * (v.word 7).toNat := by
  have h := limbSum_words v
  simp only [limbSum] at h
  zify
  linarith

/-- A shift halves the value with the top bit before it. -/
lemma value_shiftRight (v : Words 8) {top : UInt32} (h : top.toNat ≤ 1) :
    Words.value (shiftRight v top) = (Words.value v + 2 ^ 256 * top.toNat) / 2 := by
  rw [value_eq_words v]
  change Words.listValue [_, _, _, _, _, _, _, _] = _
  simp only [Words.listValue, toNat_shiftWord]
  omega

section Code

variable (m : Type → Type) (W : Type) [Monad m] [Wide W] [WideOps m W]

/-- `sign::half`. -/
def Field.halfIn (value : Field) : m Field :=
  if value.words.word 0 &&& 1 = 0 then return ⟨shiftRight value.words 0⟩
  else do
    let (words, carry) ← addWordsIn m W value.words P
    return ⟨shiftRight words (Wide.low carry)⟩

end Code

section Spec

open LawfulWide

variable {m : Type → Type} {W : Type} [Monad m] [LawfulMonad m] [Wide W] [LawfulWide W]
  [WideOps m W] [WordOps m] [LawfulOps m W]

lemma word_and_one (v : Words 8) : v.word 0 &&& 1 = 0 ↔ Words.value v % 2 = 0 := by
  rw [← UInt32.toNat_inj, UInt32.toNat_and, value_eq_words]
  change (v.word 0).toNat &&& 1 = 0 ↔ _
  rw [Nat.and_one_is_mod]
  omega

/-- `half` on all words. -/
lemma Field.returns_half (self : Field) :
    Returns (halfIn m W self) fun f => f.words = Words.ofNat 8
      (if self.value % 2 = 0 then self.value / 2 else (self.value + prime) / 2) := by
  have hlt := self.value_lt
  rw [halfIn]
  by_cases heven : self.words.word 0 &&& 1 = 0
  · rw [if_pos heven]
    refine returns_pure (Words.eq_ofNat ?_)
    rw [word_and_one] at heven
    change self.value % 2 = 0 at heven
    rw [if_pos heven, value_shiftRight _ (by decide)]
    change (self.value + 2 ^ 256 * 0) / 2 = _
    omega
  · rw [if_neg heven]
    refine (returns_addWords self.words P).bind fun r hr => returns_pure (Words.eq_ofNat ?_)
    rw [word_and_one] at heven
    change ¬ self.value % 2 = 0 at heven
    obtain ⟨hsum, hcarry⟩ := hr
    have hlow : (Wide.low r.2).toNat = val r.2 := by
      rw [toNat_low, Nat.mod_eq_of_lt (by omega)]
    rw [if_neg heven]
    dsimp only
    rw [value_shiftRight _ (by omega), hlow, hsum, value_P]
    change (self.value + prime) / 2 = _
    rw [prime] at *
    omega

end Spec

/-! ## The arithmetic of native targets -/

/-- The three kinds give one result: the checked one does not overflow, and the shaders' has the same
limbs. -/
def Agree {α : Type} (checked : Option α) (native : α) (portable : Id α) : Prop :=
  checked = some native ∧ portable = pure native

lemma agree_of_eq {α : Type} {v : α} {checked : Option α} {native portable : Id α}
    (hchecked : Returns checked (· = v)) (hnative : Returns native (· = v))
    (hportable : Returns portable (· = v)) : Agree checked (Id.run native) portable := by
  obtain ⟨_, rfl, rfl⟩ := hchecked
  obtain ⟨_, rfl, rfl⟩ := hnative
  obtain ⟨_, rfl, rfl⟩ := hportable
  exact ⟨rfl, rfl⟩

namespace Field

/-- `Field::mul_mod`. -/
def mulMod (self other : Field) : Field := Id.run (mulModIn Id UInt64 self other)

/-- `Field::square`. -/
def square (self : Field) : Field := Id.run (squareIn Id UInt64 self)

/-- `Field::add_mod`. -/
def addMod (self other : Field) : Field := Id.run (addModIn Id UInt64 self other)

/-- `Field::sub_mod`. -/
def subMod (self other : Field) : Field := Id.run (subModIn Id UInt64 self other)

/-- `sign::half`. -/
def half (self : Field) : Field := Id.run (halfIn Id UInt64 self)

/-- `Field::ZERO`. -/
def zero : Field := ⟨Words.ofNat 8 0⟩

/-- `Field::ONE`. -/
def one : Field := ⟨Words.ofNat 8 1⟩

lemma agree_of_words {v : Words 8} {checked : Option Field} {native portable : Id Field}
    (hchecked : Returns checked (·.words = v)) (hnative : Returns native (·.words = v))
    (hportable : Returns portable (·.words = v)) : Agree checked (Id.run native) portable := by
  obtain ⟨⟨_⟩, rfl, rfl⟩ := hchecked
  obtain ⟨⟨_⟩, rfl, rfl⟩ := hnative
  obtain ⟨⟨_⟩, rfl, rfl⟩ := hportable
  exact ⟨rfl, rfl⟩

/-- In every kind each operation has the one result, on all words. -/
lemma agree (a b : Field) :
    Agree (mulModIn Option UInt64 a b) (a.mulMod b) (mulModIn Id Portable a b) ∧
      Agree (squareIn Option UInt64 a) a.square (squareIn Id Portable a) ∧
      Agree (addModIn Option UInt64 a b) (a.addMod b) (addModIn Id Portable a b) ∧
      Agree (subModIn Option UInt64 a b) (a.subMod b) (subModIn Id Portable a b) ∧
      Agree (halfIn Option UInt64 a) a.half (halfIn Id Portable a) := by
  refine ⟨?_, ?_, ?_, ?_, ?_⟩
  · exact agree_of_eq (returns_mulMod a b) (returns_mulMod a b) (returns_mulMod a b)
  · exact agree_of_eq (returns_square a) (returns_square a) (returns_square a)
  · exact agree_of_words (returns_addMod a b) (returns_addMod a b) (returns_addMod a b)
  · exact agree_of_words (returns_subMod a b) (returns_subMod a b) (returns_subMod a b)
  · exact agree_of_words (returns_half a) (returns_half a) (returns_half a)

variable {a b : Field}

lemma mulMod_eq (a b : Field) : a.mulMod b = ofNat (a.value * b.value) :=
  (returns_mulMod (m := Id) (W := UInt64) a b).eq

lemma square_eq (a : Field) : a.square = ofNat (a.value * a.value) :=
  (returns_square (m := Id) (W := UInt64) a).eq

/-- The value of a canonical result by its words. -/
lemma value_of_words {f : Field} {v : ℕ} (h : f.words = Words.ofNat 8 v) (hv : v < prime) :
    f.value = v := by
  rw [value, h, Words.value_ofNat]
  exact Nat.mod_eq_of_lt (hv.trans prime_lt)

lemma addMod_eq (ha : a.Canonical) (hb : b.Canonical) :
    a.addMod b = ofNat (a.value + b.value) := by
  obtain ⟨f, hf, hwords⟩ := returns_addMod (m := Id) (W := UInt64) a b
  rw [Canonical] at ha hb
  refine eq_ofNat ?_
  rw [addMod, hf, Id.run_pure]
  by_cases hle : prime ≤ a.value + b.value
  · rw [if_pos hle] at hwords
    rw [value_of_words hwords (by omega), Nat.mod_eq_sub_mod hle, Nat.mod_eq_of_lt (by omega)]
  · rw [if_neg hle] at hwords
    rw [value_of_words hwords (by omega), Nat.mod_eq_of_lt (by omega)]

lemma subMod_eq (ha : a.Canonical) (hb : b.Canonical) :
    a.subMod b = ofNat (a.value + (prime - b.value)) := by
  obtain ⟨f, hf, hwords⟩ := returns_subMod (m := Id) (W := UInt64) a b
  rw [Canonical] at ha hb
  refine eq_ofNat ?_
  rw [subMod, hf, Id.run_pure]
  by_cases hlt : a.value < b.value
  · have hsum : a.value + (2 ^ 256 + prime) - b.value = a.value + (prime - b.value) + 2 ^ 256 := by
      omega
    rw [if_pos hlt, hsum] at hwords
    rw [value, hwords, Words.value_ofNat, Nat.add_mod_right,
      Nat.mod_eq_of_lt ((by omega : _ < prime).trans prime_lt), Nat.mod_eq_of_lt (by omega)]
  · rw [if_neg hlt] at hwords
    rw [value_of_words hwords (by omega), Nat.mod_eq_sub_mod (by omega), Nat.mod_eq_of_lt (by omega)]
    omega

lemma half_spec (ha : a.Canonical) : a.half.Canonical ∧ 2 * a.half.value % prime = a.value := by
  obtain ⟨f, hf, hwords⟩ := returns_half (m := Id) (W := UInt64) a
  rw [Canonical] at ha ⊢
  rw [half, hf, Id.run_pure]
  have hodd : prime % 2 = 1 := by decide +kernel
  by_cases heven : a.value % 2 = 0
  · rw [if_pos heven] at hwords
    rw [value_of_words hwords (by omega)]
    refine ⟨by omega, ?_⟩
    rw [Nat.mul_div_cancel' (Nat.dvd_of_mod_eq_zero heven), Nat.mod_eq_of_lt ha]
  · rw [if_neg heven] at hwords
    rw [value_of_words hwords (by omega)]
    refine ⟨by omega, ?_⟩
    rw [Nat.mul_div_cancel' (Nat.dvd_of_mod_eq_zero (by omega)), Nat.add_mod_right,
      Nat.mod_eq_of_lt ha]

/-- The field arithmetic is exact: products and squares on all words, sums, differences and halves on
canonical ones, without overflow, and with the same limbs in shaders. -/
theorem field_exact :
    (∀ a b : Field, (a.mulMod b).value = a.value * b.value % prime ∧
      a.square.value = a.value * a.value % prime) ∧
    (∀ a b : Field, a.Canonical → b.Canonical →
      (a.addMod b).value = (a.value + b.value) % prime ∧
      (a.subMod b).Canonical ∧ ((a.subMod b).value + b.value) % prime = a.value ∧
      a.half.Canonical ∧ 2 * a.half.value % prime = a.value) ∧
    ∀ a b : Field, Agree (mulModIn Option UInt64 a b) (a.mulMod b) (mulModIn Id Portable a b) ∧
      Agree (squareIn Option UInt64 a) a.square (squareIn Id Portable a) ∧
      Agree (addModIn Option UInt64 a b) (a.addMod b) (addModIn Id Portable a b) ∧
      Agree (subModIn Option UInt64 a b) (a.subMod b) (subModIn Id Portable a b) ∧
      Agree (halfIn Option UInt64 a) a.half (halfIn Id Portable a) := by
  refine ⟨fun a b => ⟨?_, ?_⟩, fun a b ha hb => ⟨?_, ?_, ?_, half_spec ha⟩, agree⟩
  · rw [mulMod_eq, value_ofNat]
  · rw [square_eq, value_ofNat]
  · rw [addMod_eq ha hb, value_ofNat]
  · rw [subMod_eq ha hb]
    exact canonical_ofNat _
  · rw [Canonical] at ha hb
    rw [subMod_eq ha hb, value_ofNat, Nat.mod_add_mod, add_assoc, Nat.sub_add_cancel hb.le,
      Nat.add_mod_right, Nat.mod_eq_of_lt ha]

instance (a : Field) : Decidable a.Canonical := inferInstanceAs (Decidable (_ < _))

theorem field_exact_sample : (one.addMod one).value = 2 % prime ∧ 2 * one.half.value % prime = 1 := by
  have h := field_exact.2.1 one one (by decide +kernel) (by decide +kernel)
  have hone : one.value = 1 := by decide +kernel
  rw [hone] at h
  exact ⟨h.1, h.2.2.2.2⟩

end Field

end Pickaxe.Engine
