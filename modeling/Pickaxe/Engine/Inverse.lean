/-
# Inverses and squares

Each is computed in two ways: by a chain of products that raises to a fixed power, and by a loop of
halvings and subtractions, the binary Euclid for the inverse and its Jacobi symbol for squares.
-/
import Pickaxe.Engine.Prime
import Pickaxe.Lib.Loop
import Mathlib.NumberTheory.LegendreSymbol.JacobiSymbol

namespace Pickaxe.Engine

open Lib

/-! ## Chains -/

namespace Field

/-- `Field::square_n`. -/
def squareN (self : Field) (count : ℕ) : Field := square^[count] self

/-- `Field::chain223`. -/
def chain223 (self : Field) : Field × Field × Field :=
  let x2 := self.square.mulMod self
  let x3 := x2.square.mulMod self
  let x6 := (x3.squareN 3).mulMod x3
  let x9 := (x6.squareN 3).mulMod x3
  let x11 := (x9.squareN 2).mulMod x2
  let x22 := (x11.squareN 11).mulMod x11
  let x44 := (x22.squareN 22).mulMod x22
  let x88 := (x44.squareN 44).mulMod x44
  let x176 := (x88.squareN 88).mulMod x88
  let x220 := (x176.squareN 44).mulMod x44
  (x2, x22, (x220.squareN 3).mulMod x3)

/-- `Field::inverse`. -/
def inverse (self : Field) : Field :=
  let (x2, x22, x223) := self.chain223
  ((((((x223.squareN 23).mulMod x22).squareN 5).mulMod self).squareN 3).mulMod x2 |>.squareN 2).mulMod
    self

/-- `Field::is_square`. -/
def isSquare (self : Field) : Bool :=
  let (x2, x22, x223) := self.chain223
  ((((x223.squareN 23).mulMod x22).squareN 6).mulMod x2 |>.squareN 2).square = self

lemma squareN_one (a : Field) : a.squareN 1 = a.square := rfl

lemma residue_squareN (a : Field) (n : ℕ) : (a.squareN n).residue = a.residue ^ 2 ^ n := by
  induction n generalizing a with
  | zero => rw [pow_zero, pow_one]; rfl
  | succ n ih =>
    rw [squareN, Function.iterate_succ_apply, ← squareN, ih, residue_square, ← sq, ← pow_mul,
      ← pow_succ']

/-- A link of the chain: powers of all ones, one after the other. -/
lemma residue_link {x : ZMod prime} {a b : Field} {i j k : ℕ} (hk : i + j = k)
    (ha : a.residue = x ^ (2 ^ i - 1)) (hb : b.residue = x ^ (2 ^ j - 1)) :
    ((a.squareN j).mulMod b).residue = x ^ (2 ^ k - 1) := by
  subst hk
  have hi : 1 ≤ 2 ^ i := Nat.one_le_two_pow
  have hj : 1 ≤ 2 ^ j := Nat.one_le_two_pow
  have hexponent : (2 ^ i - 1) * 2 ^ j + (2 ^ j - 1) = 2 ^ (i + j) - 1 := by
    rw [Nat.sub_mul, one_mul, ← pow_add]
    have hle : 2 ^ j ≤ 2 ^ (i + j) := Nat.pow_le_pow_right (by decide) (Nat.le_add_left _ _)
    omega
  rw [residue_mulMod, residue_squareN, ha, hb, ← pow_mul, ← pow_add, hexponent]

lemma residue_chain223 (x : Field) :
    x.chain223.1.residue = x.residue ^ (2 ^ 2 - 1) ∧
      x.chain223.2.1.residue = x.residue ^ (2 ^ 22 - 1) ∧
      x.chain223.2.2.residue = x.residue ^ (2 ^ 223 - 1) := by
  have h1 : x.residue = x.residue ^ (2 ^ 1 - 1) := (pow_one _).symm
  have h2 := residue_link (k := 2) rfl h1 h1
  rw [squareN_one] at h2
  have h3 := residue_link (k := 3) rfl h2 h1
  rw [squareN_one] at h3
  have h6 := residue_link (k := 6) rfl h3 h3
  have h9 := residue_link (k := 9) rfl h6 h3
  have h11 := residue_link (k := 11) rfl h9 h2
  have h22 := residue_link (k := 22) rfl h11 h11
  have h44 := residue_link (k := 44) rfl h22 h22
  have h88 := residue_link (k := 88) rfl h44 h44
  have h176 := residue_link (k := 176) rfl h88 h88
  have h220 := residue_link (k := 220) rfl h176 h44
  exact ⟨h2, h22, residue_link (k := 223) rfl h220 h3⟩

lemma pow_append {x : ZMod prime} (a b c : ℕ) : (x ^ a) ^ b * x ^ c = x ^ (a * b + c) := by
  rw [← pow_mul, ← pow_add]

/-- `inverse` raises to the modulus less two. -/
lemma residue_inverse_eq_pow (x : Field) : x.inverse.residue = x.residue ^ (prime - 2) := by
  obtain ⟨h2, h22, h223⟩ := x.residue_chain223
  have hexponent : ((((2 ^ 223 - 1) * 2 ^ 23 + (2 ^ 22 - 1)) * 2 ^ 5 + 1) * 2 ^ 3 + (2 ^ 2 - 1)) *
      2 ^ 2 + 1 = prime - 2 := by decide +kernel
  rw [inverse, residue_mulMod, residue_squareN, residue_mulMod, residue_squareN, residue_mulMod,
    residue_squareN, residue_mulMod, residue_squareN, h2, h22, h223, pow_append, ← hexponent]
  generalize 2 ^ 223 - 1 = e
  ring

lemma canonical_inverse (x : Field) : x.inverse.Canonical := canonical_mulMod _ _

lemma residue_inverse (x : Field) : x.inverse.residue = x.residue⁻¹ := by
  rw [residue_inverse_eq_pow]
  by_cases hzero : x.residue = 0
  · rw [hzero, inv_zero, zero_pow (by norm_num [prime])]
  · refine eq_inv_of_mul_eq_one_left ?_
    rw [← pow_succ, show prime - 2 + 1 = prime - 1 by norm_num [prime],
      ZMod.pow_card_sub_one_eq_one hzero]

/-- `is_square` raises to half the modulus and one, rounded up. -/
lemma isSquare_iff {x : Field} (hx : x.Canonical) : x.isSquare = true ↔ IsSquare x.residue := by
  obtain ⟨h2, h22, h223⟩ := x.residue_chain223
  have hexponent : ((((2 ^ 223 - 1) * 2 ^ 23 + (2 ^ 22 - 1)) * 2 ^ 6 + (2 ^ 2 - 1)) * 2 ^ 2) * 2 =
      prime / 2 + 1 := by decide +kernel
  have hpow : ((((x.chain223.2.2.squareN 23).mulMod x.chain223.2.1).squareN 6).mulMod
      x.chain223.1 |>.squareN 2).square.residue = x.residue ^ (prime / 2) * x.residue := by
    rw [← pow_succ, residue_square, residue_squareN, residue_mulMod, residue_squareN,
      residue_mulMod, residue_squareN, h2, h22, h223, pow_append, pow_append, ← hexponent]
    generalize 2 ^ 223 - 1 = e
    ring
  have hdecide : x.isSquare = true ↔ x.residue ^ (prime / 2) * x.residue = x.residue := by
    rw [← hpow, isSquare, decide_eq_true_iff]
    exact ⟨congrArg residue, eq_of_residue_eq (canonical_square _) hx⟩
  rw [hdecide]
  by_cases hzero : x.residue = 0
  · rw [hzero, mul_zero]
    exact iff_of_true rfl (IsSquare.zero)
  · rw [ZMod.euler_criterion prime hzero, mul_eq_right₀ hzero]

end Field

/-! ## Loops -/

/-- `sign::is_zero`. -/
def isZero (v : Words 8) : Bool :=
  (v.word 0 ||| v.word 1 ||| v.word 2 ||| v.word 3 ||| v.word 4 ||| v.word 5 ||| v.word 6 |||
    v.word 7) = 0

/-- `sign::is_one`. -/
def isOne (v : Words 8) : Bool :=
  v.word 0 = 1 && (v.word 1 ||| v.word 2 ||| v.word 3 ||| v.word 4 ||| v.word 5 ||| v.word 6 |||
    v.word 7) = 0

/-- `field::subtract`. -/
def subtract (a b : Words 8) : Words 8 × UInt32 := Id.run (subtractIn Id UInt64 a b)

lemma or_eq_zero (a b : UInt32) : a ||| b = 0 ↔ a.toNat = 0 ∧ b.toNat = 0 := by
  rw [← UInt32.toNat_inj, UInt32.toNat_or]
  exact Nat.or_eq_zero_iff

lemma isZero_iff (v : Words 8) : isZero v = true ↔ Words.value v = 0 := by
  rw [isZero, decide_eq_true_iff, or_eq_zero, UInt32.toNat_or, UInt32.toNat_or, UInt32.toNat_or,
    UInt32.toNat_or, UInt32.toNat_or, UInt32.toNat_or, value_eq_words]
  simp only [Nat.or_eq_zero_iff]
  omega

lemma isOne_iff (v : Words 8) : isOne v = true ↔ Words.value v = 1 := by
  have h0 := (v.word 0).toNat_lt
  rw [isOne, Bool.and_eq_true, decide_eq_true_iff, decide_eq_true_iff, or_eq_zero, UInt32.toNat_or,
    UInt32.toNat_or, UInt32.toNat_or, UInt32.toNat_or, UInt32.toNat_or, value_eq_words,
    ← UInt32.toNat_inj]
  change _ = 1 ∧ _ ↔ _
  simp only [Nat.or_eq_zero_iff]
  omega

lemma subtract_spec (a b : Words 8) :
    (Words.value (subtract a b).1 : ℤ) =
      Words.value a - Words.value b + 2 ^ 256 * (subtract a b).2.toNat ∧
        (subtract a b).2.toNat ≤ 1 := by
  obtain ⟨r, hr, hspec⟩ := returns_subtract (m := Id) (W := UInt64) a b
  rw [subtract, hr]
  exact hspec

/-- There is no borrow exactly when the difference is one. -/
lemma borrow_eq_zero (a b : Words 8) :
    (subtract a b).2 = 0 ↔ Words.value b ≤ Words.value a := by
  obtain ⟨hvalue, hborrow⟩ := subtract_spec a b
  have ha := Words.value_lt a
  have hb := Words.value_lt b
  have hresult := Words.value_lt (subtract a b).1
  rw [← UInt32.toNat_inj]
  change _ = 0 ↔ _
  omega

lemma value_subtract {a b : Words 8} (h : Words.value b ≤ Words.value a) :
    Words.value (subtract a b).1 = Words.value a - Words.value b := by
  obtain ⟨hvalue, -⟩ := subtract_spec a b
  rw [(borrow_eq_zero a b).mpr h, UInt32.toNat_zero] at hvalue
  omega

lemma value_shiftRight_zero (v : Words 8) : Words.value (shiftRight v 0) = Words.value v / 2 :=
  value_shiftRight v (by decide)

/-! ### The inverse -/

/-- The state of `inverse_binary`. -/
structure Euclid where
  u : Words 8
  v : Words 8
  x1 : Field
  x2 : Field

/-- The inner loops of `inverse_binary`: halve an even value with its coefficient. -/
def halvings : ℕ → Words 8 × Field → Option (Words 8 × Field) :=
  loop fun s => some
    (if s.1.word 0 &&& 1 = 0 then .inl (shiftRight s.1 0, s.2.half) else .inr s)

/-- A pass of `inverse_binary`. -/
def euclidPass (fuel : ℕ) (s : Euclid) : Option (Euclid ⊕ Field) :=
  if isOne s.u then some (.inr s.x1)
  else if isOne s.v then some (.inr s.x2)
  else do
    let (u, x1) ← halvings fuel (s.u, s.x1)
    let (v, x2) ← halvings fuel (s.v, s.x2)
    if (subtract u v).2 = 0 then return .inl ⟨(subtract u v).1, v, x1.subMod x2, x2⟩
    else return .inl ⟨u, (subtract v u).1, x1, x2.subMod x1⟩

/-- `sign::inverse_binary`. -/
def inverseBinary (fuel : ℕ) (value : Field) : Option Field :=
  if isZero value.words then some .zero
  else loop (euclidPass fuel) fuel ⟨value.words, P, .one, .zero⟩

/-- A coefficient stands for a value: times the input it is that value. -/
def Stands (y : ZMod prime) (u : Words 8) (x : Field) : Prop :=
  0 < Words.value u ∧ x.Canonical ∧ y * x.residue = Words.value u

lemma two_ne_zero_residue : (2 : ZMod prime) ≠ 0 := by decide +kernel

lemma Stands.half {y : ZMod prime} {u : Words 8} {x : Field} (h : Stands y u x)
    (heven : Words.value u % 2 = 0) : Stands y (shiftRight u 0) x.half := by
  obtain ⟨hpos, hx, hres⟩ := h
  refine ⟨?_, Field.canonical_half hx, ?_⟩
  · rw [value_shiftRight_zero]
    omega
  · refine mul_left_cancel₀ two_ne_zero_residue ?_
    calc
      2 * (y * x.half.residue) = y * (2 * x.half.residue) := by ring
      _ = (Words.value u : ZMod prime) := by rw [Field.residue_half hx, hres]
      _ = ((2 * (Words.value u / 2) : ℕ) : ZMod prime) := by
        rw [Nat.mul_div_cancel' (Nat.dvd_of_mod_eq_zero heven)]
      _ = 2 * (Words.value (shiftRight u 0) : ZMod prime) := by
        rw [value_shiftRight_zero, Nat.cast_mul, Nat.cast_two]

lemma Stands.sub {y : ZMod prime} {u v : Words 8} {x1 x2 : Field} (hu : Stands y u x1)
    (hv : Stands y v x2) (hlt : Words.value v < Words.value u) :
    Stands y (subtract u v).1 (x1.subMod x2) := by
  obtain ⟨-, hx1, hres1⟩ := hu
  obtain ⟨-, hx2, hres2⟩ := hv
  refine ⟨?_, Field.canonical_subMod hx1 hx2, ?_⟩
  · rw [value_subtract hlt.le]
    omega
  · rw [Field.residue_subMod hx1 hx2, mul_sub, hres1, hres2, value_subtract hlt.le,
      Nat.cast_sub hlt.le]

/-- The inner loops take out all factors of two. -/
lemma halvings_spec {y : ZMod prime} {u : Words 8} {x : Field} {fuel : ℕ} (h : Stands y u x)
    (hfuel : Words.value u < fuel) : ∃ r, halvings fuel (u, x) = some r ∧ Stands y r.1 r.2 ∧
      Words.value r.1 % 2 = 1 ∧ ∃ k, Words.value u = 2 ^ k * Words.value r.1 := by
  refine loop_spec (fun s => Stands y s.1 s.2 ∧ ∃ k, Words.value u = 2 ^ k * Words.value s.1)
    (fun s => Words.value s.1) ?_ ⟨h, 0, by rw [pow_zero, one_mul]⟩ hfuel
  rintro s ⟨hs, k, hk⟩
  by_cases heven : s.1.word 0 &&& 1 = 0
  · left
    refine ⟨_, congrArg some (if_pos heven), ?_, ?_⟩
    · rw [word_and_one] at heven
      refine ⟨hs.half heven, k + 1, ?_⟩
      dsimp only
      rw [value_shiftRight_zero, hk, pow_succ, mul_assoc,
        Nat.mul_div_cancel' (Nat.dvd_of_mod_eq_zero heven)]
    · have hpos := hs.1
      dsimp only
      rw [value_shiftRight_zero]
      omega
  · right
    refine ⟨_, congrArg some (if_neg heven), hs, ?_, k, hk⟩
    rw [word_and_one] at heven
    omega

/-- The invariant of `inverse_binary`: both coefficients stand for their values, which are
coprime. -/
structure Euclid.Sound (y : ZMod prime) (s : Euclid) : Prop where
  left : Stands y s.u s.x1
  right : Stands y s.v s.x2
  coprime : (Words.value s.u).Coprime (Words.value s.v)

/-- A pass keeps the invariant and makes the values smaller, or ends with an inverse. -/
lemma Euclid.Sound.passes {y : ZMod prime} {fuel : ℕ} (hfuel : 2 ^ 257 ≤ fuel) {s : Euclid}
    (h : s.Sound y) :
    Passes (euclidPass fuel) (Euclid.Sound y) (fun s => Words.value s.u + Words.value s.v)
      (fun x => x.Canonical ∧ y * x.residue = 1) s := by
  obtain ⟨hleft, hright, hcoprime⟩ := h
  have hu_lt := Words.value_lt s.u
  have hv_lt := Words.value_lt s.v
  rw [Passes, euclidPass]
  by_cases hone : isOne s.u = true
  · right
    refine ⟨s.x1, if_pos hone, hleft.2.1, ?_⟩
    rw [hleft.2.2, (isOne_iff s.u).mp hone, Nat.cast_one]
  by_cases hone' : isOne s.v = true
  · right
    refine ⟨s.x2, (if_neg hone).trans (if_pos hone'), hright.2.1, ?_⟩
    rw [hright.2.2, (isOne_iff s.v).mp hone', Nat.cast_one]
  rw [if_neg hone, if_neg hone']
  rw [isOne_iff] at hone hone'
  have hu_fuel : Words.value s.u < fuel := by omega
  have hv_fuel : Words.value s.v < fuel := by omega
  obtain ⟨⟨u, x1⟩, hu, hleft', hu_odd, i, hi⟩ := halvings_spec hleft hu_fuel
  obtain ⟨⟨v, x2⟩, hv, hright', hv_odd, j, hj⟩ := halvings_spec hright hv_fuel
  dsimp only at hi hj hu_odd hv_odd
  have hcoprime' : (Words.value u).Coprime (Words.value v) := by
    refine (hcoprime.coprime_dvd_left ⟨2 ^ i, ?_⟩).coprime_dvd_right ⟨2 ^ j, ?_⟩
    · rw [hi, mul_comm]
    · rw [hj, mul_comm]
  have hu_le : Words.value u ≤ Words.value s.u := by
    rw [hi]
    exact Nat.le_mul_of_pos_left _ (Nat.two_pow_pos i)
  have hv_le : Words.value v ≤ Words.value s.v := by
    rw [hj]
    exact Nat.le_mul_of_pos_left _ (Nat.two_pow_pos j)
  -- equal odd parts are one, and then both values are even
  have hne : Words.value u ≠ Words.value v := by
    intro heq
    rw [heq, Nat.coprime_self] at hcoprime'
    rw [heq, hcoprime', mul_one] at hi
    rw [hcoprime', mul_one] at hj
    have hi_pos : i ≠ 0 := by
      rintro rfl
      exact hone hi
    have hj_pos : j ≠ 0 := by
      rintro rfl
      exact hone' hj
    rw [hi, hj] at hcoprime
    exact absurd hcoprime (Nat.not_coprime_of_dvd_of_dvd (by decide) (dvd_pow_self 2 hi_pos)
      (dvd_pow_self 2 hj_pos))
  left
  rw [hu, hv]
  by_cases hborrow : (subtract u v).2 = 0
  · have hle := (borrow_eq_zero u v).mp hborrow
    have hlt : Words.value v < Words.value u := by omega
    refine ⟨_, if_pos hborrow, ⟨hleft'.sub hright' hlt, hright', ?_⟩, ?_⟩
    · dsimp only
      rw [value_subtract hle]
      exact (Nat.coprime_sub_self_left hle).mpr hcoprime'
    · have hpos := hright'.1
      dsimp only at hpos ⊢
      rw [value_subtract hle]
      omega
  · have hlt : Words.value u < Words.value v := by
      rw [borrow_eq_zero] at hborrow
      omega
    refine ⟨_, if_neg hborrow, ⟨hleft', hright'.sub hleft' hlt, ?_⟩, ?_⟩
    · dsimp only
      rw [value_subtract hlt.le]
      exact (Nat.coprime_sub_self_right hlt.le).mpr hcoprime'
    · have hpos := hleft'.1
      dsimp only at hpos ⊢
      rw [value_subtract hlt.le]
      omega

/-- `inverse_binary` ends, with what `inverse` gives. -/
lemma inverseBinary_eq {x : Field} (hx : x.Canonical) {fuel : ℕ} (hfuel : 2 ^ 257 ≤ fuel) :
    inverseBinary fuel x = some x.inverse := by
  rw [inverseBinary]
  by_cases hzero : isZero x.words = true
  · rw [if_pos hzero]
    rw [isZero_iff] at hzero
    refine congrArg some (Field.eq_of_residue_eq Field.canonical_zero x.canonical_inverse ?_)
    have hres : x.residue = 0 := by
      rw [Field.residue, Field.value, hzero, Nat.cast_zero]
    rw [Field.residue_inverse, hres, inv_zero, Field.residue_zero]
  · rw [if_neg hzero]
    rw [isZero_iff] at hzero
    have hlt := Words.value_lt x.words
    have hP := Words.value_lt P
    have hsound : Euclid.Sound x.residue ⟨x.words, P, .one, .zero⟩ := by
      have hP_pos : 0 < Words.value P := by decide +kernel
      refine ⟨⟨Nat.pos_of_ne_zero hzero, Field.canonical_one, ?_⟩, ⟨hP_pos,
        Field.canonical_zero, ?_⟩, ?_⟩
      · rw [Field.residue_one, mul_one]
        rfl
      · rw [Field.residue_zero, mul_zero, Field.value_P, ZMod.natCast_self]
      · rw [Field.value_P]
        exact (Nat.coprime_of_lt_prime hzero hx prime_prime).symm
    have hbound : Words.value x.words + Words.value P < fuel := by omega
    obtain ⟨r, hr, hcanonical, hinverse⟩ :=
      loop_spec _ _ (fun s hs => hs.passes hfuel) hsound hbound
    rw [hr]
    refine congrArg some (Field.eq_of_residue_eq hcanonical x.canonical_inverse ?_)
    rw [Field.residue_inverse]
    exact eq_inv_of_mul_eq_one_right hinverse

/-! ### The Jacobi symbol -/

/-- The state of `is_square_binary`. -/
structure Jacobi where
  a : Words 8
  n : Words 8
  negative : Bool

/-- The inner loop of `is_square_binary`: halve an even value, with the sign of two. -/
def twos (n : Words 8) : ℕ → Words 8 × Bool → Option (Words 8 × Bool) :=
  loop fun s => some
    (if s.1.word 0 &&& 1 = 0 then
      .inl (shiftRight s.1 0, s.2 ^^ (n.word 0 &&& 7 = 3 || n.word 0 &&& 7 = 5))
    else .inr s)

/-- A pass of `is_square_binary`. -/
def jacobiPass (fuel : ℕ) (s : Jacobi) : Option (Jacobi ⊕ Bool) :=
  if isZero s.a then some (.inr (isOne s.n && !s.negative))
  else do
    let (a, negative) ← twos s.n fuel (s.a, s.negative)
    if (subtract a s.n).2 = 0 then return .inl ⟨(subtract a s.n).1, s.n, negative⟩
    else return .inl ⟨(subtract s.n a).1, a,
      negative ^^ (a.word 0 &&& 3 = 3 && s.n.word 0 &&& 3 = 3)⟩

/-- `sign::is_square_binary`. -/
def isSquareBinary (fuel : ℕ) (value : Field) : Option Bool :=
  loop (jacobiPass fuel) fuel ⟨value.words, P, false⟩

/-- A symbol under the sign that is kept. -/
def signed (negative : Bool) (j : ℤ) : ℤ := if negative then -j else j

/-- The symbol of two words. -/
def symbol (a n : Words 8) : ℤ := jacobiSym (Words.value a) (Words.value n)

lemma word_and_seven (v : Words 8) (r : UInt32) :
    v.word 0 &&& 7 = r ↔ Words.value v % 8 = r.toNat := by
  rw [← UInt32.toNat_inj, UInt32.toNat_and, value_eq_words]
  change (v.word 0).toNat &&& (2 ^ 3 - 1) = _ ↔ _
  rw [Nat.and_two_pow_sub_one_eq_mod]
  omega

lemma word_and_three (v : Words 8) (r : UInt32) :
    v.word 0 &&& 3 = r ↔ Words.value v % 4 = r.toNat := by
  rw [← UInt32.toNat_inj, UInt32.toNat_and, value_eq_words]
  change (v.word 0).toNat &&& (2 ^ 2 - 1) = _ ↔ _
  rw [Nat.and_two_pow_sub_one_eq_mod]
  omega

lemma signed_xor (p q : Bool) (j : ℤ) : signed (p ^^ q) j = signed p (signed q j) := by
  cases p <;> cases q <;> simp [signed]

lemma symbol_half {a n : Words 8} (ha : Words.value a % 2 = 0) (hn : Words.value n % 2 = 1) :
    symbol a n = signed (n.word 0 &&& 7 = 3 || n.word 0 &&& 7 = 5) (symbol (shiftRight a 0) n) := by
  have h := jacobiSym.even_odd (a := Words.value a) (by omega) hn
  rw [symbol, symbol, ← h, value_shiftRight_zero, signed]
  simp only [Bool.or_eq_true, decide_eq_true_eq, word_and_seven]
  norm_cast

lemma symbol_sub {a n : Words 8} (hle : Words.value n ≤ Words.value a) :
    symbol (subtract a n).1 n = symbol a n := by
  refine jacobiSym.mod_left' ?_
  rw [value_subtract hle, Nat.cast_sub hle]
  exact Int.sub_emod_right _ _

lemma symbol_swap {a n : Words 8} (ha : Words.value a % 2 = 1) (hn : Words.value n % 2 = 1)
    (hle : Words.value a ≤ Words.value n) :
    symbol a n = signed (a.word 0 &&& 3 = 3 && n.word 0 &&& 3 = 3)
      (symbol (subtract n a).1 a) := by
  rw [symbol_sub hle, symbol, ← jacobiSym.quadratic_reciprocity_if ha hn, signed]
  simp only [Bool.and_eq_true, decide_eq_true_eq, word_and_three]
  rfl

/-- The inner loop takes out all factors of two, and keeps the signed symbol. -/
lemma twos_spec {a n : Words 8} (negative : Bool) {fuel : ℕ} (ha : 0 < Words.value a)
    (hn : Words.value n % 2 = 1) (hfuel : Words.value a < fuel) :
    ∃ r, twos n fuel (a, negative) = some r ∧ Words.value r.1 % 2 = 1 ∧
      Words.value r.1 ≤ Words.value a ∧
      signed r.2 (symbol r.1 n) = signed negative (symbol a n) := by
  refine loop_spec (fun s => 0 < Words.value s.1 ∧ Words.value s.1 ≤ Words.value a ∧
    signed s.2 (symbol s.1 n) = signed negative (symbol a n))
    (fun s => Words.value s.1) ?_ ⟨ha, le_rfl, rfl⟩ hfuel
  rintro s ⟨hpos, hle, hsign⟩
  by_cases heven : s.1.word 0 &&& 1 = 0
  · left
    refine ⟨_, congrArg some (if_pos heven), ?_, ?_⟩
    · rw [word_and_one] at heven
      dsimp only
      rw [signed_xor, ← symbol_half heven hn, value_shiftRight_zero]
      exact ⟨by omega, by omega, hsign⟩
    · rw [word_and_one] at heven
      dsimp only
      rw [value_shiftRight_zero]
      omega
  · right
    refine ⟨_, congrArg some (if_neg heven), ?_, hle, hsign⟩
    rw [word_and_one] at heven
    omega

/-- The invariant of `is_square_binary`: an odd modulus, and the signed symbol. -/
structure Jacobi.Sound (j : ℤ) (s : Jacobi) : Prop where
  odd : Words.value s.n % 2 = 1
  sign : signed s.negative (symbol s.a s.n) = j

/-- A pass keeps the invariant and makes the values smaller, or ends with the symbol. -/
lemma Jacobi.Sound.passes {j : ℤ} {fuel : ℕ} (hfuel : 2 ^ 256 ≤ fuel) {s : Jacobi}
    (h : s.Sound j) :
    Passes (jacobiPass fuel) (Jacobi.Sound j) (fun s => Words.value s.a + Words.value s.n)
      (fun b => b = true ↔ j = 1) s := by
  obtain ⟨hodd, hsign⟩ := h
  have ha_lt := Words.value_lt s.a
  rw [Passes, jacobiPass]
  by_cases hzero : isZero s.a = true
  · right
    refine ⟨_, if_pos hzero, ?_⟩
    rw [isZero_iff] at hzero
    rw [← hsign, symbol, hzero, Bool.and_eq_true, isOne_iff]
    by_cases hone : Words.value s.n = 1
    · rw [hone, jacobiSym.one_right, signed]
      cases s.negative <;> simp
    · rw [Nat.cast_zero, jacobiSym.zero_left (by omega), signed]
      simp [hone]
  left
  rw [if_neg hzero]
  rw [isZero_iff] at hzero
  have ha_fuel : Words.value s.a < fuel := by omega
  obtain ⟨⟨a, negative⟩, ha, ha_odd, ha_le, hsign'⟩ := twos_spec s.negative
    (Nat.pos_of_ne_zero hzero) hodd ha_fuel
  rw [hsign] at hsign'
  dsimp only at ha_odd ha_le hsign'
  rw [ha]
  by_cases hborrow : (subtract a s.n).2 = 0
  · have hle := (borrow_eq_zero a s.n).mp hborrow
    refine ⟨_, if_pos hborrow, ⟨hodd, ?_⟩, ?_⟩
    · dsimp only
      rw [symbol_sub hle, hsign']
    · dsimp only
      rw [value_subtract hle]
      omega
  · have hle : Words.value a ≤ Words.value s.n := by
      rw [borrow_eq_zero] at hborrow
      omega
    refine ⟨_, if_neg hborrow, ⟨ha_odd, ?_⟩, ?_⟩
    · dsimp only
      rw [signed_xor, ← symbol_swap ha_odd hodd hle, hsign']
    · dsimp only
      rw [value_subtract hle]
      omega

/-- `is_square_binary` ends, with whether its argument is a square other than zero. -/
lemma isSquareBinary_eq (x : Field) {fuel : ℕ} (hfuel : 2 ^ 257 ≤ fuel) :
    ∃ b, isSquareBinary fuel x = some b ∧ (b = true ↔ x.residue ≠ 0 ∧ IsSquare x.residue) := by
  have hlt := Words.value_lt x.words
  have hP := Words.value_lt P
  have hsound : Jacobi.Sound (jacobiSym x.value prime) ⟨x.words, P, false⟩ := by
    refine ⟨by rw [Field.value_P]; decide +kernel, ?_⟩
    rw [signed, symbol, Field.value_P]
    rfl
  have hbound : Words.value x.words + Words.value P < fuel := by omega
  have hfuel' : 2 ^ 256 ≤ fuel := by omega
  obtain ⟨b, hb, hspec⟩ := loop_spec _ _ (fun s hs => hs.passes hfuel') hsound hbound
  refine ⟨b, hb, hspec.trans ?_⟩
  have hcast : ((x.value : ℤ) : ZMod prime) = x.residue := Int.cast_natCast _
  constructor
  · intro hone
    have hsquare := ZMod.isSquare_of_jacobiSym_eq_one hone
    rw [hcast] at hsquare
    refine ⟨?_, hsquare⟩
    intro hzero
    have hdvd : prime ∣ x.value := (ZMod.natCast_eq_zero_iff _ _).mp hzero
    have hsymbol : jacobiSym x.value prime = 0 := by
      refine jacobiSym.eq_zero_iff.mpr ⟨by norm_num [prime], ?_⟩
      rw [Int.gcd_natCast_natCast, Nat.gcd_eq_right hdvd]
      norm_num [prime]
    rw [hsymbol] at hone
    exact absurd hone (by decide)
  · rintro ⟨hne, hsquare⟩
    rcases jacobiSym.trichotomy x.value prime with hzero | hone | hneg
    · refine absurd ?_ hne
      have hgcd := (jacobiSym.eq_zero_iff.mp hzero).2
      rw [Int.gcd_natCast_natCast, Nat.gcd_comm] at hgcd
      have hdvd := (Nat.coprime_or_dvd_of_prime prime_prime x.value).resolve_left hgcd
      exact (ZMod.natCast_eq_zero_iff _ _).mpr hdvd
    · exact hone
    · refine absurd hsquare ?_
      rw [← hcast]
      exact ZMod.nonsquare_iff_jacobiSym_eq_neg_one.mp hneg

/-- The two inverses and the two tests for squares: all end, with the one inverse, and with whether a
value other than zero is a square. -/
theorem inverse_square_agree (x : Field) (hx : x.Canonical) :
    x.inverse.Canonical ∧ (x ≠ .zero → x.residue * x.inverse.residue = 1) ∧
      (x = .zero → x.inverse = .zero ∧ x.isSquare = true) ∧
      (x ≠ .zero → (x.isSquare = true ↔ IsSquare x.residue)) ∧
      ∃ least, ∀ fuel ≥ least, inverseBinary fuel x = some x.inverse ∧
        ∃ square, isSquareBinary fuel x = some square ∧
          (square = true ↔ x ≠ .zero ∧ IsSquare x.residue) := by
  refine ⟨x.canonical_inverse, fun hne => ?_, ?_, fun _ => Field.isSquare_iff hx, 2 ^ 257,
    fun fuel hfuel => ⟨inverseBinary_eq hx hfuel, ?_⟩⟩
  · rw [ne_eq, ← Field.residue_eq_zero hx] at hne
    rw [Field.residue_inverse, mul_inv_cancel₀ hne]
  · rintro rfl
    constructor
    · refine Field.eq_of_residue_eq (Field.canonical_inverse _) Field.canonical_zero ?_
      rw [Field.residue_inverse, Field.residue_zero, inv_zero]
    · rw [Field.isSquare_iff hx, Field.residue_zero]
      exact IsSquare.zero
  · rw [ne_eq, ← Field.residue_eq_zero hx]
    exact isSquareBinary_eq x hfuel

theorem inverse_square_agree_sample :
    ∃ least, ∀ fuel ≥ least, inverseBinary fuel (.ofNat 2) = some (Field.inverse (.ofNat 2)) := by
  obtain ⟨least, h⟩ := (inverse_square_agree (.ofNat 2) (Field.canonical_ofNat 2)).2.2.2.2
  exact ⟨least, fun fuel hfuel => (h fuel hfuel).1⟩

end Pickaxe.Engine
