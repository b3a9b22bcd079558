/-
# Points

The group of the curve in Jacobian coordinates, over the exact field arithmetic.  What `double`,
`add_affine`, `generator_mul` and `affine` compute is what the group of the curve says, on every
point, infinity and the exceptional pairs included.
-/
import Pickaxe.Engine.Inverse
import Pickaxe.Lib.Bytes
import Pickaxe.Lib.Jacobian
import Mathlib.Data.Nat.Bitwise

namespace Pickaxe.Engine

open Lib

/-- `Point`. -/
structure Point where
  x : Field
  y : Field
  z : Field
deriving DecidableEq

namespace Point

/-! ## Code -/

/-- `Point::INFINITY`. -/
def infinity : Point := ⟨.zero, .zero, .zero⟩

/-- `Point::GENERATOR`. -/
def generator : Point where
  x := ⟨⟨[0x16f81798, 0x59f2815b, 0x2dce28d9, 0x029bfcdb, 0xce870b07, 0x55a06295, 0xf9dcbbac,
    0x79be667e], rfl⟩⟩
  y := ⟨⟨[0xfb10d4b8, 0x9c47d08f, 0xa6855419, 0xfd17b448, 0x0e1108a8, 0x5da4fbfc, 0x26a3c465,
    0x483ada77], rfl⟩⟩
  z := .one

/-- `Point::double`. -/
def double (self : Point) : Point :=
  if self.z = .zero ∨ self.y = .zero then infinity
  else
    let yy := self.y.square
    let s := self.x.mulMod yy
    let s := s.addMod s
    let s := s.addMod s
    let xx := self.x.square
    let m := (xx.addMod xx).addMod xx
    let x := m.square.subMod (s.addMod s)
    let yyyy := yy.square
    let yyyy := yyyy.addMod yyyy
    let yyyy := yyyy.addMod yyyy
    let yyyy := yyyy.addMod yyyy
    let yz := self.y.mulMod self.z
    ⟨x, (m.mulMod (s.subMod x)).subMod yyyy, yz.addMod yz⟩

/-- `Point::add_affine`. -/
def addAffine (self : Point) (x y : Field) : Point :=
  if self.z = .zero then ⟨x, y, .one⟩
  else
    let zz := self.z.square
    let h := (x.mulMod zz).subMod self.x
    let r := (y.mulMod (zz.mulMod self.z)).subMod self.y
    if h = .zero then if r = .zero then self.double else infinity
    else
      let hh := h.square
      let hhh := hh.mulMod h
      let v := self.x.mulMod hh
      let x := (r.square.subMod hhh).subMod (v.addMod v)
      ⟨x, (r.mulMod (v.subMod x)).subMod (self.y.mulMod hhh), self.z.mulMod h⟩

/-- A bit of `generator_mul`: the body of its inner loop. -/
def generatorBit (byte : UInt8) (point : Point) (bit : ℕ) : Point :=
  let point := point.double
  if byte &&& (1 <<< UInt8.ofNat bit) ≠ 0 then point.addAffine generator.x generator.y else point

/-- `Point::generator_mul`. -/
def generatorMul (scalar : ByteVec 32) : Point :=
  scalar.bytes.foldl (fun point byte => (List.range 8).reverse.foldl (generatorBit byte) point)
    infinity

/-- `Point::affine`. -/
def affine (self : Point) : Option (Field × Field) :=
  if self.z = .zero then none
  else
    let inverse := self.z.inverse
    let squared := inverse.square
    some (self.x.mulMod squared, self.y.mulMod (squared.mulMod inverse))

end Point

/-! ## Residues -/

/-- A field element is canonical and stands for a residue. -/
structure Field.Denotes (a : Field) (r : ZMod prime) : Prop where
  canonical : a.Canonical
  residue_eq : a.residue = r

namespace Field.Denotes

variable {a b : Field} {r s : ZMod prime}

lemma zero : Field.zero.Denotes 0 := ⟨canonical_zero, residue_zero⟩

lemma one : Field.one.Denotes 1 := ⟨canonical_one, residue_one⟩

lemma mul (ha : a.Denotes r) (hb : b.Denotes s) : (a.mulMod b).Denotes (r * s) where
  canonical := canonical_mulMod a b
  residue_eq := by rw [residue_mulMod, ha.residue_eq, hb.residue_eq]

lemma square (ha : a.Denotes r) : a.square.Denotes (r * r) where
  canonical := canonical_square a
  residue_eq := by rw [residue_square, ha.residue_eq]

lemma add (ha : a.Denotes r) (hb : b.Denotes s) : (a.addMod b).Denotes (r + s) where
  canonical := canonical_addMod ha.canonical hb.canonical
  residue_eq := by rw [residue_addMod ha.canonical hb.canonical, ha.residue_eq, hb.residue_eq]

lemma sub (ha : a.Denotes r) (hb : b.Denotes s) : (a.subMod b).Denotes (r - s) where
  canonical := canonical_subMod ha.canonical hb.canonical
  residue_eq := by rw [residue_subMod ha.canonical hb.canonical, ha.residue_eq, hb.residue_eq]

lemma inverse (ha : a.Denotes r) : a.inverse.Denotes r⁻¹ where
  canonical := canonical_inverse a
  residue_eq := by rw [residue_inverse, ha.residue_eq]

lemma eq_zero_iff (ha : a.Denotes r) : a = .zero ↔ r = 0 := by
  rw [← residue_eq_zero ha.canonical, ha.residue_eq]

lemma congr (ha : a.Denotes r) (h : r = s) : a.Denotes s := h ▸ ha

end Field.Denotes

/-- The coordinates of a point stand for those of a triple. -/
structure Point.Denotes (p : Point) (j : Jacobian (ZMod prime)) : Prop where
  x : p.x.Denotes j.x
  y : p.y.Denotes j.y
  z : p.z.Denotes j.z

namespace Point.Denotes

variable {p : Point} {j : Jacobian (ZMod prime)} {x y : Field} {u v : ZMod prime}

lemma infinity : Point.infinity.Denotes .infinity := ⟨.zero, .zero, .zero⟩

lemma double (h : p.Denotes j) : p.double.Denotes j.double := by
  rw [Point.double, Jacobian.double]
  by_cases hzero : p.z = .zero ∨ p.y = .zero
  · rw [if_pos hzero, if_pos (hzero.imp h.z.eq_zero_iff.mp h.y.eq_zero_iff.mp)]
    exact infinity
  · rw [if_neg hzero, if_neg fun hres =>
      hzero (hres.imp h.z.eq_zero_iff.mpr h.y.eq_zero_iff.mpr)]
    have hyy := h.y.square
    have hs := h.x.mul hyy
    have hs := hs.add hs
    have hs := hs.add hs
    have hxx := h.x.square
    have hm := (hxx.add hxx).add hxx
    have hx := hm.square.sub (hs.add hs)
    have hyyyy := hyy.square
    have hyyyy := hyyyy.add hyyyy
    have hyyyy := hyyyy.add hyyyy
    have hyyyy := hyyyy.add hyyyy
    have hyz := h.y.mul h.z
    rw [Jacobian.doubled]
    refine ⟨hx.congr ?_, ((hm.mul (hs.sub hx)).sub hyyyy).congr ?_, (hyz.add hyz).congr ?_⟩
    all_goals ring

lemma addAffine (h : p.Denotes j) (hx : x.Denotes u) (hy : y.Denotes v) :
    (p.addAffine x y).Denotes (j.addAffine u v) := by
  rw [Point.addAffine, Jacobian.addAffine]
  by_cases hz : p.z = .zero
  · rw [if_pos hz, if_pos (h.z.eq_zero_iff.mp hz)]
    exact ⟨hx, hy, .one⟩
  rw [if_neg hz, if_neg (h.z.eq_zero_iff.not.mp hz)]
  have hzz := h.z.square
  have hh : ((x.mulMod p.z.square).subMod p.x).Denotes (u * j.z ^ 2 - j.x) :=
    ((hx.mul hzz).sub h.x).congr (by ring)
  have hr : ((y.mulMod (p.z.square.mulMod p.z)).subMod p.y).Denotes (v * j.z ^ 3 - j.y) :=
    ((hy.mul (hzz.mul h.z)).sub h.y).congr (by ring)
  by_cases hh0 : (x.mulMod p.z.square).subMod p.x = .zero
  · rw [if_pos hh0, if_pos (hh.eq_zero_iff.mp hh0)]
    by_cases hr0 : (y.mulMod (p.z.square.mulMod p.z)).subMod p.y = .zero
    · rw [if_pos hr0, if_pos (hr.eq_zero_iff.mp hr0)]
      exact h.double
    · rw [if_neg hr0, if_neg (hr.eq_zero_iff.not.mp hr0)]
      exact infinity
  · rw [if_neg hh0, if_neg (hh.eq_zero_iff.not.mp hh0)]
    have hhh := hh.square.mul hh
    have hv := h.x.mul hh.square
    have hx' := (hr.square.sub hhh).sub (hv.add hv)
    rw [Jacobian.added]
    refine ⟨hx'.congr ?_, ((hr.mul (hv.sub hx')).sub (h.y.mul hhh)).congr ?_, h.z.mul hh⟩
    all_goals ring

end Point.Denotes

/-! ## The curve -/

/-- The curve. -/
abbrev curve : WeierstrassCurve.Affine (ZMod prime) := shortCurve 7

/-- A point stands for a point of the curve. -/
def Point.Represents (p : Point) (g : curve.Point) : Prop := ∃ j, p.Denotes j ∧ j.Stands g

/-- Two field elements are the coordinates of a point of the curve. -/
structure Coordinates (x y : Field) (g : curve.Point) : Prop where
  canonical_x : x.Canonical
  canonical_y : y.Canonical
  eq : ∃ h, g = .some x.residue y.residue h

lemma two_ne_zero_prime : (2 : ZMod prime) ≠ 0 := by
  intro h
  have hdvd : prime ∣ 2 := (ZMod.natCast_eq_zero_iff 2 prime).mp (by exact_mod_cast h)
  exact absurd (Nat.le_of_dvd (by norm_num) hdvd) (by norm_num [prime])

namespace Point.Represents

variable {p : Point} {g g' : curve.Point} {x y : Field}

lemma infinity : Point.infinity.Represents 0 := ⟨_, .infinity, Jacobian.stands_infinity⟩

lemma double (h : p.Represents g) : p.double.Represents (g + g) := by
  obtain ⟨j, hj, hstands⟩ := h
  exact ⟨_, hj.double, hstands.double two_ne_zero_prime⟩

lemma addAffine (h : p.Represents g) (hxy : Coordinates x y g') :
    (p.addAffine x y).Represents (g + g') := by
  obtain ⟨j, hj, hstands⟩ := h
  obtain ⟨hx, hy, hns, rfl⟩ := hxy
  exact ⟨_, hj.addAffine ⟨hx, rfl⟩ ⟨hy, rfl⟩, hstands.addAffine two_ne_zero_prime hns⟩

end Point.Represents

/-! ## The generator -/

namespace Point

lemma generator_x : generator.x.Canonical := by decide +kernel

lemma generator_y : generator.y.Canonical := by decide +kernel

lemma generator_equation : curve.Equation generator.x.residue generator.y.residue := by
  have h : generator.y.value ^ 2 % prime = (generator.x.value ^ 3 + 7) % prime := by
    decide +kernel
  rw [shortCurve_equation_iff, Field.residue, Field.residue]
  exact_mod_cast (ZMod.natCast_eq_natCast_iff' _ _ prime).mpr h

lemma curve_discriminant : curve.Δ ≠ 0 := by
  have hΔ : curve.Δ = ((prime - 432 * 49 : ℕ) : ZMod prime) := by
    rw [Nat.cast_sub (by norm_num [prime]), ZMod.natCast_self]
    simp only [WeierstrassCurve.Δ, WeierstrassCurve.b₂, WeierstrassCurve.b₄, WeierstrassCurve.b₆,
      WeierstrassCurve.b₈, shortCurve_a₁, shortCurve_a₂, shortCurve_a₃, shortCurve_a₄,
      shortCurve_a₆]
    push_cast
    ring
  rw [hΔ, ne_eq, ZMod.natCast_eq_zero_iff]
  exact Nat.not_dvd_of_pos_of_lt (by norm_num [prime]) (by norm_num [prime])

end Point

/-- The generator. -/
def G : curve.Point :=
  .some Point.generator.x.residue Point.generator.y.residue
    ((WeierstrassCurve.Affine.equation_iff_nonsingular_of_Δ_ne_zero Point.curve_discriminant).mp
      Point.generator_equation)

namespace Point

lemma coordinates_generator : Coordinates generator.x generator.y G where
  canonical_x := generator_x
  canonical_y := generator_y
  eq := ⟨_, rfl⟩

/-- The coordinates of a multiple of the generator, as the ladder finds them. -/
lemma coordinates_of_ladder {x y : Field} {k : ℕ} (hk : k < 2 ^ 256) (hx : x.Canonical)
    (hy : y.Canonical) {p : Jacobian (ZMod prime)}
    (hp : Jacobian.ladder generator.x.residue generator.y.residue 256 k = p) (hz : p.z ≠ 0)
    (hpx : x.residue * p.z ^ 2 = p.x) (hpy : y.residue * p.z ^ 3 = p.y) :
    Coordinates x y (k • G) := by
  have hstands : p.Stands (k • G) := hp ▸ Jacobian.stands_ladder two_ne_zero_prime _ hk
  obtain ⟨hns, hg⟩ := hstands.eq_some hz
  have hquot : p.x / p.z ^ 2 = x.residue ∧ p.y / p.z ^ 3 = y.residue :=
    ⟨by rw [← hpx, mul_div_cancel_right₀ _ (pow_ne_zero 2 hz)],
      by rw [← hpy, mul_div_cancel_right₀ _ (pow_ne_zero 3 hz)]⟩
  refine ⟨hx, hy, by rw [← hquot.1, ← hquot.2]; exact hns, ?_⟩
  rw [hg]
  simp only [hquot.1, hquot.2]

/-- The bit that `generator_mul` tests, as a digit. -/
lemma bit_ne_zero_iff (byte : UInt8) {bit : ℕ} (h : bit < 8) :
    byte &&& (1 <<< UInt8.ofNat bit) ≠ 0 ↔ byte.toNat / 2 ^ bit % 2 = 1 := by
  have hmask : ((1 : UInt8) <<< UInt8.ofNat bit).toNat = 2 ^ bit := by
    interval_cases bit <;> rfl
  rw [ne_eq, ← UInt8.toNat_inj, UInt8.toNat_and, hmask, Nat.and_two_pow,
    Nat.testBit_eq_decide_div_mod_eq]
  by_cases hbit : byte.toNat / 2 ^ bit % 2 = 1
  · simp [hbit]
  · simp [hbit]

/-- A bit more: with the high bits of a value read, the next one is. -/
lemma Represents.generatorBit {p : Point} {byte : UInt8} {bit v : ℕ} (hbit : bit < 8)
    (h : p.Represents (((256 * v + byte.toNat) / 2 ^ (bit + 1)) • G)) :
    (generatorBit byte p bit).Represents (((256 * v + byte.toNat) / 2 ^ bit) • G) := by
  have hdigit : (256 * v + byte.toNat) / 2 ^ bit % 2 = byte.toNat / 2 ^ bit % 2 := by
    have hpow : 256 * v = 2 ^ bit * (2 * (2 ^ (7 - bit) * v)) := by
      rw [← mul_assoc, ← mul_assoc, ← pow_succ, ← pow_add, show bit + 1 + (7 - bit) = 8 by omega]
      norm_num
    rw [hpow, Nat.mul_add_div (by positivity), Nat.mul_add_mod]
  have hhalf : (256 * v + byte.toNat) / 2 ^ (bit + 1) = (256 * v + byte.toNat) / 2 ^ bit / 2 := by
    rw [pow_succ, Nat.div_div_eq_div_mul]
  rw [hhalf] at h
  generalize (256 * v + byte.toNat) / 2 ^ bit = w at hdigit h ⊢
  have hdouble := h.double
  rw [← add_nsmul] at hdouble
  rw [Point.generatorBit]
  by_cases hone : byte.toNat / 2 ^ bit % 2 = 1
  · rw [if_pos ((bit_ne_zero_iff byte hbit).mpr hone)]
    have hadd := hdouble.addAffine coordinates_generator
    rwa [← succ_nsmul, show w / 2 + w / 2 + 1 = w by omega] at hadd
  · rw [if_neg ((bit_ne_zero_iff byte hbit).not.mpr hone)]
    rwa [show w / 2 + w / 2 = w by omega] at hdouble

/-- The bits of a byte, the highest first. -/
lemma Represents.generatorByte {p : Point} {v : ℕ} (byte : UInt8) (h : p.Represents (v • G)) :
    ((List.range 8).reverse.foldl (Point.generatorBit byte) p).Represents
      ((256 * v + byte.toNat) • G) := by
  have hbits : ∀ n ≤ 8, ∀ p : Point, p.Represents (((256 * v + byte.toNat) / 2 ^ n) • G) →
      ((List.range n).reverse.foldl (Point.generatorBit byte) p).Represents
        ((256 * v + byte.toNat) • G) := by
    intro n
    induction n with
    | zero =>
      intro _ p hp
      simpa using hp
    | succ n ih =>
      intro hn p hp
      rw [List.range_succ, List.reverse_append, List.reverse_singleton, List.singleton_append,
        List.foldl_cons]
      exact ih (by omega) _ (hp.generatorBit (by omega))
  refine hbits 8 le_rfl p ?_
  have hbyte := byte.toNat_lt
  rwa [show (256 * v + byte.toNat) / 2 ^ 8 = v by omega]

/-- `generator_mul` multiplies the generator by a big-endian scalar. -/
theorem represents_generatorMul (scalar : ByteVec 32) :
    (generatorMul scalar).Represents (fromLe scalar.bytes.reverse • G) := by
  have hbytes : ∀ (b : Bytes) (p : Point) (v : ℕ), p.Represents (v • G) →
      (b.foldl (fun point byte => (List.range 8).reverse.foldl (Point.generatorBit byte) point)
        p).Represents ((fromLe b.reverse + 256 ^ b.length * v) • G) := by
    intro b
    induction b with
    | nil =>
      intro p v hp
      simpa using hp
    | cons byte b ih =>
      intro p v hp
      have h := ih _ _ (hp.generatorByte byte)
      rw [List.reverse_cons, fromLe_append, List.length_reverse, List.length_cons, List.foldl_cons]
      rw [fromLe_cons, fromLe_nil, pow_succ]
      convert h using 2
      ring
  have h := hbytes scalar.bytes .infinity 0 (by rw [zero_nsmul]; exact .infinity)
  rwa [mul_zero, add_zero] at h

/-- `affine` reads the coordinates of a point, and finds none at infinity. -/
lemma Represents.affine {p : Point} {g : curve.Point} (h : p.Represents g) :
    p.affine = none ∧ g = 0 ∨ ∃ x y, p.affine = some (x, y) ∧ Coordinates x y g := by
  obtain ⟨j, hj, hstands⟩ := h
  rw [Point.affine]
  by_cases hz : p.z = .zero
  · rw [if_pos hz]
    exact .inl ⟨rfl, hstands.eq_zero (hj.z.eq_zero_iff.mp hz)⟩
  · rw [if_neg hz]
    refine .inr ⟨_, _, rfl, ?_⟩
    obtain ⟨hns, rfl⟩ := hstands.eq_some (hj.z.eq_zero_iff.not.mp hz)
    have hx : (p.x.mulMod p.z.inverse.square).Denotes (j.x / j.z ^ 2) :=
      (hj.x.mul hj.z.inverse.square).congr (by rw [div_eq_mul_inv, ← inv_pow, sq])
    have hy : (p.y.mulMod (p.z.inverse.square.mulMod p.z.inverse)).Denotes (j.y / j.z ^ 3) := by
      refine (hj.y.mul (hj.z.inverse.square.mul hj.z.inverse)).congr ?_
      rw [div_eq_mul_inv, ← inv_pow, pow_succ, sq]
    refine ⟨hx.canonical, hy.canonical, ?_⟩
    rw [hx.residue_eq, hy.residue_eq]
    exact ⟨hns, rfl⟩

end Point

/-- Coordinates are those of one point only, and a point has one pair of them. -/
lemma Coordinates.unique {x y x' y' : Field} {g : curve.Point} (h : Coordinates x y g)
    (h' : Coordinates x' y' g) : x = x' ∧ y = y' := by
  obtain ⟨hx, hy, hns, rfl⟩ := h
  obtain ⟨hx', hy', hns', heq⟩ := h'
  rw [WeierstrassCurve.Affine.Point.some.injEq] at heq
  exact ⟨Field.eq_of_residue_eq hx hx' heq.1, Field.eq_of_residue_eq hy hy' heq.2⟩

lemma Coordinates.ne_zero {x y : Field} {g : curve.Point} (h : Coordinates x y g) : g ≠ 0 := by
  obtain ⟨-, -, hns, rfl⟩ := h
  exact WeierstrassCurve.Affine.Point.some_ne_zero hns

end Pickaxe.Engine
