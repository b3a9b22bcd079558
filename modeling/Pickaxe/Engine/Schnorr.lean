/-
# Signatures

The host's signatures of Bitcoin Cash: Schnorr signatures whose nonce is negated unless the nonce
point's `y` is a square.  What the host makes it also accepts, and what it accepts are the pairs
that satisfy the equation of the scheme.
-/
import Pickaxe.Engine.Nonce
import Pickaxe.Engine.Secp
import Pickaxe.Lib.Result

namespace Pickaxe.Engine

open Lib

/-! ## Code -/

namespace Crypto

/-- `BigUint::modpow`: square and multiply, from the highest bit. -/
def modpow (m b e : ℕ) : ℕ :=
  (Nat.digits 2 e).foldr (fun bit acc => acc * acc % m * b ^ bit % m) (1 % m)

/-- `y_is_quadratic_residue`. -/
def yIsQuadraticResidue (yBe : ByteVec 32) : Bool :=
  let y := fromBe yBe.bytes
  if y = 0 then true else modpow prime y ((prime - 1) >>> 1) = 1

/-- The bytes of a serialised point from `start` on that are a coordinate. -/
def coordinate (unc : ByteVec 65) (start : ℕ) (h : start + 32 ≤ 65) : ByteVec 32 :=
  ⟨slice unc.bytes start (start + 32), by
    rw [length_slice (by rw [ByteVec.length_bytes]; exact h), Nat.add_sub_cancel_left]⟩

/-- Two halves. -/
def joined (r s : ByteVec 32) : ByteVec 64 := ⟨r.bytes ++ s.bytes, by simp⟩

/-- The half of a signature from `start` on. -/
def half (sig64 : ByteVec 64) (start : ℕ) (h : start + 32 ≤ 64) : ByteVec 32 :=
  ⟨slice sig64.bytes start (start + 32), by
    rw [length_slice (by rw [ByteVec.length_bytes]; exact h), Nat.add_sub_cancel_left]⟩

/-- The challenge that both sides hash. -/
def challenge (rX : ByteVec 32) (pkBytes : ByteVec 33) (msg32 : ByteVec 32) : ByteVec 32 :=
  Lib.Sha256.digest (rX.bytes ++ pkBytes.bytes ++ msg32.bytes)

/-- `Scalar::from_be_bytes` of the `secp256k1` crate. -/
def scalarFromBeBytes (bytes : ByteVec 32) : Except String ℕ :=
  if fromBe bytes.bytes < order then .ok (fromBe bytes.bytes) else .error "bad e"

variable (lib : Secp)

/-- `bch_schnorr_sign_with_k`. -/
def bchSchnorrSignWithK (skBytes msg32 kBytes : ByteVec 32) : Except String (ByteVec 64) := do
  let sk ← lib.fromSecretBytes skBytes
  let pkBytes := lib.serialize (lib.fromSecretKey sk)
  let k ← lib.fromSecretBytes kBytes
  let rUnc := lib.serializeUncompressed (lib.fromSecretKey k)
  let rX := coordinate rUnc 1 (by decide)
  let rY := coordinate rUnc 33 (by decide)
  let kAdj := if yIsQuadraticResidue rY then k else lib.negate k
  let e ← scalarFromBeBytes (challenge rX pkBytes msg32)
  let ed ← lib.mulTweak sk e
  let sKey ← lib.addTweak kAdj (lib.scalar ed)
  .ok (joined rX (lib.toSecretBytes sKey))

/-- `bch_schnorr_sign`: none where the nonce is not found. -/
def bchSchnorrSign (fuel : ℕ) (skBytes msg32 : ByteVec 32) : Option (Except String (ByteVec 64)) :=
  (bchRfc6979Nonce fuel skBytes msg32).map (bchSchnorrSignWithK lib skBytes msg32)

/-- `bch_schnorr_sign_search_candidate`. -/
def bchSchnorrSignSearchCandidate (skBytes msg32 : ByteVec 32) (scalar : ℕ) :
    Except String (ByteVec 64) :=
  if ¬(1 ≤ scalar ∧ scalar ≤ 2 ^ 32) then
    .error "incremental search scalar is outside 1..=2^32"
  else
    bchSchnorrSignWithK lib skBytes msg32
      ⟨List.replicate 24 0 ++ Lib.Sha256.beBytes 8 scalar, by simp⟩

lemma low_le : 0 + 32 ≤ 64 := by decide

lemma high_le : 32 + 32 ≤ 64 := by decide

/-- `bch_schnorr_verify`. -/
def bchSchnorrVerify (pk33 : ByteVec 33) (msg32 : ByteVec 32) (sig64 : ByteVec 64) :
    Except String Bool := do
  let pk ← lib.fromSlice pk33
  let rX := half sig64 0 low_le
  let sBytes := half sig64 32 high_le
  let e ← scalarFromBeBytes (challenge rX pk33 msg32)
  let sKey ← lib.fromSecretBytes sBytes
  let eP ← lib.mulTweakPublic pk e
  let rPrime ← lib.combine (lib.fromSecretKey sKey) (lib.negatePublic eP)
  let rUnc := lib.serializeUncompressed rPrime
  if coordinate rUnc 1 (by decide) ≠ rX then .ok false
  else .ok (yIsQuadraticResidue (coordinate rUnc 33 (by decide)))

end Crypto

/-! ## Squares -/

lemma modpow_eq (m b e : ℕ) : Crypto.modpow m b e = b ^ e % m := by
  have h : ∀ l : List ℕ, l.foldr (fun bit acc => acc * acc % m * b ^ bit % m) (1 % m) =
      b ^ Nat.ofDigits 2 l % m := by
    intro l
    induction l with
    | nil => rfl
    | cons bit l ih =>
      rw [List.foldr_cons, ih, Nat.ofDigits_cons, pow_add, mul_comm (b ^ _ : ℕ), pow_mul', sq]
      simp [Nat.mul_mod]
  rw [Crypto.modpow, h, Nat.ofDigits_digits]

lemma half_prime : (prime - 1) >>> 1 = prime / 2 := by decide +kernel

/-- The host's test: zero counts as a square. -/
lemma yIsQuadraticResidue_iff {y : Field} (hy : y.Canonical) :
    Crypto.yIsQuadraticResidue y.toBeBytes = true ↔ IsSquare y.residue := by
  have hvalue : (y.residue = 0) ↔ y.value = 0 := by
    rw [Field.residue_eq_zero hy]
    constructor
    · rintro rfl
      rfl
    · exact fun h => Field.value_injective h
  rw [Crypto.yIsQuadraticResidue, Field.fromBe_toBeBytes]
  by_cases hzero : y.value = 0
  · rw [if_pos hzero, hvalue.mpr hzero]
    exact iff_of_true rfl IsSquare.zero
  · rw [if_neg hzero, decide_eq_true_iff, modpow_eq, half_prime,
      ZMod.euler_criterion prime (hvalue.not.mpr hzero), Field.residue]
    have hone : 1 % prime = 1 := Nat.mod_eq_of_lt prime_prime.one_lt
    conv_lhs => rw [← hone]
    rw [← Nat.cast_pow, ← Nat.cast_one (R := ZMod prime), ZMod.natCast_eq_natCast_iff']

/-- Of a residue and its opposite, one is a square. -/
lemma isSquare_neg {y : ZMod prime} (hy : y ≠ 0) (h : ¬IsSquare y) : IsSquare (-y) := by
  have hodd : Odd (prime / 2) := by decide +kernel
  rw [ZMod.euler_criterion prime hy] at h
  rw [ZMod.euler_criterion prime (neg_ne_zero.mpr hy), hodd.neg_pow,
    (ZMod.pow_div_two_eq_neg_one_or_one prime hy).resolve_left h, neg_neg]

/-! ## Points -/

/-- The opposite of a point. -/
lemma Coordinates.neg {x y : Field} {g : curve.Point} (h : Coordinates x y g) :
    Coordinates x (.ofNat (prime - y.value)) (-g) := by
  obtain ⟨hx, hy, hns, rfl⟩ := h
  have hy_le : y.value ≤ prime := Nat.le_of_lt hy
  have hneg : (Field.ofNat (prime - y.value)).residue = -y.residue := by
    rw [Field.residue_ofNat, Nat.cast_sub hy_le, ZMod.natCast_self, zero_sub, Field.residue]
  have hns' : curve.Nonsingular x.residue (-y.residue) := by
    rw [← shortCurve_negY x.residue y.residue]
    exact (WeierstrassCurve.Affine.nonsingular_neg _ _).mpr hns
  refine ⟨hx, Field.canonical_ofNat _, ?_⟩
  rw [hneg, WeierstrassCurve.Affine.Point.neg_some]
  refine ⟨hns', ?_⟩
  rw [WeierstrassCurve.Affine.Point.some.injEq]
  exact ⟨rfl, shortCurve_negY _ _⟩

/-- No multiple of the generator has order two. -/
lemma Coordinates.y_ne_zero {x y : Field} {k : ℕ} (h : Coordinates x y (k • G)) : y.residue ≠ 0 := by
  intro hzero
  have hne := h.ne_zero
  obtain ⟨-, -, hns, heq⟩ := h
  have hneg : -(k • G) = k • G := by
    rw [heq, WeierstrassCurve.Affine.Point.neg_some, WeierstrassCurve.Affine.Point.some.injEq,
      shortCurve_negY, hzero, neg_zero]
    exact ⟨rfl, rfl⟩
  have htwo : (k + k) • G = 0 := by
    rw [add_nsmul]
    nth_rewrite 1 [← hneg]
    exact neg_add_cancel _
  rw [nsmul_G_eq_zero_iff, ← two_mul, order_prime.dvd_mul] at htwo
  rw [ne_eq, nsmul_G_eq_zero_iff] at hne
  exact hne (htwo.resolve_left (Nat.not_dvd_of_pos_of_lt (by norm_num) (by norm_num [order])))

/-! ## The scheme -/

section Scheme

variable {P : curve.Point} {k d e s : ℕ} {r : ByteVec 32}

/-- The equation of a signature: `s G - e P` has the first coordinate `r`, and a square as the other. -/
def Verifies (P : curve.Point) (e s : ℕ) (r : ByteVec 32) : Prop :=
  ∃ x y, Coordinates x y (s • G - e • P) ∧ x.toBeBytes = r ∧ IsSquare y.residue

/-- The nonce that is added: the opposite one, unless the nonce point's `y` is a square. -/
def adjusted (k : ℕ) (square : Bool) : ℕ := if square then k else order - k

/-- What is signed with the adjusted nonce satisfies the equation. -/
lemma verifies_of_adjusted (hk : k < order) {x y : Field} (hxy : Coordinates x y (k • G)) (square : Bool)
    (hsquare : square = true ↔ IsSquare y.residue)
    (hs : s = (adjusted k square + e * d) % order) : Verifies (d • G) e s x.toBeBytes := by
  have hpoint : s • G - e • d • G = adjusted k square • G := by
    rw [hs, nsmul_G_mod, add_nsmul, mul_nsmul', add_sub_cancel_right]
  rw [Verifies, hpoint, adjusted]
  by_cases h : square = true
  · rw [if_pos h]
    exact ⟨x, y, hxy, rfl, hsquare.mp h⟩
  · have hneg : (order - k) • G = -(k • G) := by
      rw [eq_neg_iff_add_eq_zero, ← add_nsmul, Nat.sub_add_cancel hk.le, nsmul_G_eq_zero_iff]
    have hxy' := hxy.neg
    have hresidue : (Field.ofNat (prime - y.value)).residue = -y.residue := by
      rw [Field.residue_ofNat, Nat.cast_sub (Nat.le_of_lt hxy.canonical_y), ZMod.natCast_self,
        zero_sub, Field.residue]
    rw [if_neg h, hneg]
    refine ⟨x, _, hxy', rfl, ?_⟩
    rw [hresidue]
    exact isSquare_neg hxy.y_ne_zero (hsquare.not.mp h)

end Scheme

/-! ## The host -/

section Host

variable {lib : Secp} {pk33 : ByteVec 33} {skBytes msg32 kBytes : ByteVec 32} {sig64 : ByteVec 64}

lemma coordinate_uncompressed (hlib : lib.Lawful) (p : lib.PublicKey) :
    ∃ x y, Coordinates x y (lib.point p) ∧
      Crypto.coordinate (lib.serializeUncompressed p) 1 (by decide) = x.toBeBytes ∧
      Crypto.coordinate (lib.serializeUncompressed p) 33 (by decide) = y.toBeBytes := by
  obtain ⟨x, y, hxy, hx, hy⟩ := slice_uncompressed hlib p
  exact ⟨x, y, hxy, ByteVec.ext hx, ByteVec.ext hy⟩

lemma scalarFromBeBytes_eq_ok {bytes : ByteVec 32} {e : ℕ} :
    Crypto.scalarFromBeBytes bytes = .ok e ↔ fromBe bytes.bytes < order ∧ fromBe bytes.bytes = e := by
  rw [Crypto.scalarFromBeBytes]
  by_cases h : fromBe bytes.bytes < order
  · simp [h]
  · simp [h]

/-- What a signature that the host makes is. -/
lemma signWithK_eq_ok (hlib : lib.Lawful)
    (h : Crypto.bchSchnorrSignWithK lib skBytes msg32 kBytes = .ok sig64) :
    ∃ secret x y sBytes e, lib.fromSecretBytes skBytes = .ok secret ∧
      lib.scalar secret = fromBe skBytes.bytes ∧ fromBe kBytes.bytes < order ∧
      Coordinates x y (fromBe kBytes.bytes • G) ∧
      e = fromBe (Crypto.challenge x.toBeBytes (lib.serialize (lib.fromSecretKey secret)) msg32).bytes ∧
      0 < e ∧ e < order ∧ sig64 = Crypto.joined x.toBeBytes sBytes ∧
      fromBe sBytes.bytes = (adjusted (fromBe kBytes.bytes) (Crypto.yIsQuadraticResidue y.toBeBytes) +
        e * fromBe skBytes.bytes) % order ∧ 0 < fromBe sBytes.bytes := by
  rw [Crypto.bchSchnorrSignWithK] at h
  obtain ⟨secret, hsecret, h⟩ := Except.bind_eq_ok.mp h
  obtain ⟨k, hk, h⟩ := Except.bind_eq_ok.mp h
  obtain ⟨e, he, h⟩ := Except.bind_eq_ok.mp h
  obtain ⟨ed, hed, h⟩ := Except.bind_eq_ok.mp h
  obtain ⟨sKey, hsKey, h⟩ := Except.bind_eq_ok.mp h
  rw [Except.ok.injEq] at h
  obtain ⟨-, hscalar⟩ := (hlib.fromSecretBytes skBytes).of_ok hsecret
  obtain ⟨hk_bounds, hk_scalar⟩ := (hlib.fromSecretBytes kBytes).of_ok hk
  obtain ⟨x, y, hxy, hx, hy⟩ := coordinate_uncompressed hlib (lib.fromSecretKey k)
  rw [hlib.fromSecretKey, hk_scalar] at hxy
  rw [hx, scalarFromBeBytes_eq_ok] at he
  obtain ⟨he_lt, he_eq⟩ := he
  rw [he_eq] at he_lt
  obtain ⟨hed_ne, hed_scalar⟩ := (hlib.mulTweak secret e he_lt).of_ok hed
  obtain ⟨hs_ne, hs_scalar⟩ := (hlib.addTweak _ _ (hlib.scalar_lt ed)).of_ok hsKey
  rw [hx] at h
  refine ⟨secret, x, y, lib.toSecretBytes sKey, e, hsecret, hscalar, hk_bounds.2, hxy, he_eq.symm, ?_,
    he_lt, h.symm, ?_, ?_⟩
  · refine Nat.pos_of_ne_zero ?_
    rintro rfl
    exact hed_ne (by rw [Nat.mul_zero, Nat.zero_mod])
  · rw [hlib.toSecretBytes, hs_scalar, hed_scalar, hy, adjusted, Nat.add_mod_mod, mul_comm e, hscalar]
    split_ifs
    · rw [hk_scalar]
    · rw [hlib.negate, hk_scalar]
  · rw [hlib.toSecretBytes]
    exact hlib.scalar_pos sKey

/-- The host makes a signature where the challenge and the sum are not zero, and the challenge is
below the order. -/
lemma signWithK_of_coordinates (hlib : lib.Lawful) {secret : lib.SecretKey} {x y : Field}
    (hsecret : lib.fromSecretBytes skBytes = .ok secret)
    (hk : 0 < fromBe kBytes.bytes ∧ fromBe kBytes.bytes < order)
    (hxy : Coordinates x y (fromBe kBytes.bytes • G)) {e : ℕ}
    (he : fromBe (Crypto.challenge x.toBeBytes (lib.serialize (lib.fromSecretKey secret)) msg32).bytes =
      e) (he_pos : 0 < e) (he_lt : e < order)
    (hs : (adjusted (fromBe kBytes.bytes) (Crypto.yIsQuadraticResidue y.toBeBytes) +
      e * fromBe skBytes.bytes) % order ≠ 0) :
    ∃ sig64, Crypto.bchSchnorrSignWithK lib skBytes msg32 kBytes = .ok sig64 := by
  obtain ⟨hsk, hscalar⟩ := (hlib.fromSecretBytes skBytes).of_ok hsecret
  obtain ⟨k, hkey, hk_scalar⟩ := (hlib.fromSecretBytes kBytes).1 hk
  obtain ⟨x', y', hxy', hx, hy⟩ := coordinate_uncompressed hlib (lib.fromSecretKey k)
  rw [hlib.fromSecretKey, hk_scalar] at hxy'
  obtain ⟨rfl, rfl⟩ := hxy'.unique hxy
  have hed_ne : lib.scalar secret * e % order ≠ 0 := by
    rw [hscalar]
    intro hdvd
    rcases order_prime.dvd_mul.mp (Nat.dvd_of_mod_eq_zero hdvd) with h | h
    · exact Nat.not_dvd_of_pos_of_lt hsk.1 hsk.2 h
    · exact Nat.not_dvd_of_pos_of_lt he_pos he_lt h
  obtain ⟨ed, hed, hed_scalar⟩ := (hlib.mulTweak secret e he_lt).1 hed_ne
  have hsum : (lib.scalar (if Crypto.yIsQuadraticResidue y'.toBeBytes then k else lib.negate k) +
      lib.scalar ed) % order ≠ 0 := by
    have hadjusted : lib.scalar (if Crypto.yIsQuadraticResidue y'.toBeBytes then k else lib.negate k) =
        adjusted (fromBe kBytes.bytes) (Crypto.yIsQuadraticResidue y'.toBeBytes) := by
      rw [adjusted]
      split_ifs
      · exact hk_scalar
      · rw [hlib.negate, hk_scalar]
    rw [hadjusted, hed_scalar, hscalar, Nat.add_mod_mod, mul_comm _ e]
    exact hs
  obtain ⟨sKey, hsKey, -⟩ := (hlib.addTweak _ _ (hlib.scalar_lt ed)).1 hsum
  refine ⟨Crypto.joined x'.toBeBytes (lib.toSecretBytes sKey), Except.bind_eq_ok.mpr
    ⟨secret, hsecret, Except.bind_eq_ok.mpr ⟨k, hkey, ?_⟩⟩⟩
  refine Except.bind_eq_ok.mpr ⟨e, ?_, Except.bind_eq_ok.mpr ⟨ed, hed, ?_⟩⟩
  · rw [hx, scalarFromBeBytes_eq_ok, he]
    exact ⟨he_lt, rfl⟩
  rw [hx, hy]
  exact Except.bind_eq_ok.mpr ⟨sKey, hsKey, rfl⟩

/-- Keys of one serialised form are of one point. -/
lemma point_eq_of_serialize (hlib : lib.Lawful) {p q : lib.PublicKey}
    (h : lib.serialize p = lib.serialize q) : lib.point p = lib.point q := by
  obtain ⟨x, y, hxy, hp⟩ := hlib.serialize p
  obtain ⟨x', y', hxy', hq⟩ := hlib.serialize q
  rw [h, hq] at hp
  exact hxy.eq_of_compressed hxy' hp.symm

/-- What the host accepts. -/
lemma verify_eq_true_iff (hlib : lib.Lawful) :
    Crypto.bchSchnorrVerify lib pk33 msg32 sig64 = .ok true ↔
      ∃ p e s, lib.serialize p = pk33 ∧
        e = fromBe (Crypto.challenge (Crypto.half sig64 0 (by decide)) pk33 msg32).bytes ∧
        s = fromBe (Crypto.half sig64 32 (by decide)).bytes ∧ 0 < e ∧ e < order ∧ 0 < s ∧ s < order ∧
        Verifies (lib.point p) e s (Crypto.half sig64 0 (by decide)) := by
  rw [Crypto.bchSchnorrVerify]
  constructor
  · intro h
    obtain ⟨pk, hpk, h⟩ := Except.bind_eq_ok.mp h
    obtain ⟨e, he, h⟩ := Except.bind_eq_ok.mp h
    obtain ⟨sKey, hsKey, h⟩ := Except.bind_eq_ok.mp h
    obtain ⟨eP, heP, h⟩ := Except.bind_eq_ok.mp h
    obtain ⟨rPrime, hrPrime, h⟩ := Except.bind_eq_ok.mp h
    obtain ⟨-, hserialize⟩ := (hlib.fromSlice pk33).of_ok hpk
    obtain ⟨he_lt, he_eq⟩ := scalarFromBeBytes_eq_ok.mp he
    rw [he_eq] at he_lt
    obtain ⟨hs_bounds, hs_scalar⟩ := (hlib.fromSecretBytes _).of_ok hsKey
    obtain ⟨he_ne, heP_point⟩ := (hlib.mulTweakPublic pk e he_lt).of_ok heP
    obtain ⟨-, hpoint⟩ := (hlib.combine _ _).of_ok hrPrime
    obtain ⟨x, y, hxy, hx, hy⟩ := coordinate_uncompressed hlib rPrime
    rw [hpoint, hlib.fromSecretKey, hlib.negatePublic, hs_scalar, heP_point, ← sub_eq_add_neg] at hxy
    dsimp only at h
    rw [hx, hy] at h
    by_cases hr : x.toBeBytes ≠ Crypto.half sig64 0 (by decide)
    · rw [if_pos hr] at h
      cases h
    · rw [if_neg hr, Except.ok.injEq] at h
      exact ⟨pk, e, _, hserialize, he_eq.symm, rfl, Nat.pos_of_ne_zero he_ne, he_lt, hs_bounds.1,
        hs_bounds.2, x, y, hxy, not_not.mp hr, (yIsQuadraticResidue_iff hxy.canonical_y).mp h⟩
  · rintro ⟨p, e, s, hserialize, he, hs, he_pos, he_lt, hs_pos, hs_lt, x, y, hxy, hr, hsquare⟩
    rw [he] at he_pos he_lt hxy
    rw [hs] at hs_pos hs_lt hxy
    obtain ⟨pk, hpk, hserialize'⟩ := (hlib.fromSlice pk33).1 ⟨p, hserialize⟩
    obtain ⟨sKey, hsKey, hs_scalar⟩ := (hlib.fromSecretBytes _).1 ⟨hs_pos, hs_lt⟩
    obtain ⟨eP, heP, heP_point⟩ := (hlib.mulTweakPublic pk _ he_lt).1 he_pos.ne'
    have hsum : lib.point (lib.fromSecretKey sKey) + lib.point (lib.negatePublic eP) =
        fromBe (Crypto.half sig64 32 (by decide)).bytes • G -
          fromBe (Crypto.challenge (Crypto.half sig64 0 (by decide)) pk33 msg32).bytes • lib.point p := by
      rw [hlib.fromSecretKey, hlib.negatePublic, hs_scalar, heP_point, ← sub_eq_add_neg,
        point_eq_of_serialize hlib (hserialize'.trans hserialize.symm)]
    obtain ⟨rPrime, hrPrime, hpoint⟩ := (hlib.combine _ _).1 (hsum ▸ hxy.ne_zero)
    obtain ⟨x', y', hxy', hx, hy⟩ := coordinate_uncompressed hlib rPrime
    rw [hpoint, hsum] at hxy'
    obtain ⟨rfl, rfl⟩ := hxy'.unique hxy
    refine Except.bind_eq_ok.mpr ⟨pk, hpk, Except.bind_eq_ok.mpr
      ⟨_, scalarFromBeBytes_eq_ok.mpr ⟨he_lt, rfl⟩, Except.bind_eq_ok.mpr ⟨sKey, hsKey,
        Except.bind_eq_ok.mpr ⟨eP, heP, Except.bind_eq_ok.mpr ⟨rPrime, hrPrime, ?_⟩⟩⟩⟩⟩
    dsimp only
    rw [hx, hy, if_neg (not_not.mpr hr), (yIsQuadraticResidue_iff hxy.canonical_y).mpr hsquare]

lemma half_joined (r s : ByteVec 32) :
    Crypto.half (Crypto.joined r s) 0 (by decide) = r ∧
      Crypto.half (Crypto.joined r s) 32 (by decide) = s := by
  constructor
  · apply ByteVec.ext
    have h : slice ([] ++ r.bytes ++ s.bytes) 0 32 = r.bytes := slice_append rfl (by simp)
    exact h
  · apply ByteVec.ext
    have h : slice (r.bytes ++ s.bytes ++ []) 32 64 = s.bytes := slice_append (by simp) (by simp)
    rwa [List.append_nil] at h

/-- What the host signs it also accepts, with the key that it signed with. -/
lemma verify_of_signWithK (hlib : lib.Lawful)
    (h : Crypto.bchSchnorrSignWithK lib skBytes msg32 kBytes = .ok sig64) :
    ∃ secret, lib.fromSecretBytes skBytes = .ok secret ∧
      Crypto.bchSchnorrVerify lib (lib.serialize (lib.fromSecretKey secret)) msg32 sig64 = .ok true := by
  obtain ⟨secret, x, y, sBytes, e, hsecret, hscalar, hk, hxy, he, he_pos, he_lt, rfl, hs, hs_pos⟩ :=
    signWithK_eq_ok hlib h
  have hs_lt : fromBe sBytes.bytes < order := by
    rw [hs]
    exact Nat.mod_lt _ order_prime.pos
  have hverifies := verifies_of_adjusted hk hxy _ (yIsQuadraticResidue_iff hxy.canonical_y) hs
  obtain ⟨hr, hs_half⟩ := half_joined x.toBeBytes sBytes
  refine ⟨secret, hsecret, (verify_eq_true_iff hlib).mpr ⟨lib.fromSecretKey secret, e, _, rfl, ?_, rfl,
    he_pos, he_lt, ?_⟩⟩
  · rw [hr, he]
  · rw [hr, hs_half, hlib.fromSecretKey, hscalar]
    exact ⟨hs_pos, hs_lt, hverifies⟩

/-- What the host signs it also accepts; and what it accepts are the pairs that satisfy the equation,
with the challenge and the second half in their ranges. -/
theorem sign_verify (hlib : lib.Lawful) :
    (∀ skBytes msg32 kBytes sig64, Crypto.bchSchnorrSignWithK lib skBytes msg32 kBytes = .ok sig64 →
      ∃ secret, lib.fromSecretBytes skBytes = .ok secret ∧
        Crypto.bchSchnorrVerify lib (lib.serialize (lib.fromSecretKey secret)) msg32 sig64 = .ok true) ∧
    ∀ pk33 msg32 sig64, Crypto.bchSchnorrVerify lib pk33 msg32 sig64 = .ok true ↔
      ∃ p e s, lib.serialize p = pk33 ∧
        e = fromBe (Crypto.challenge (Crypto.half sig64 0 (by decide)) pk33 msg32).bytes ∧
        s = fromBe (Crypto.half sig64 32 (by decide)).bytes ∧ 0 < e ∧ e < order ∧ 0 < s ∧ s < order ∧
        Verifies (lib.point p) e s (Crypto.half sig64 0 (by decide)) :=
  ⟨fun _ _ _ _ h => verify_of_signWithK hlib h, fun _ _ _ => verify_eq_true_iff hlib⟩

end Host

/-- The key of the scalar one. -/
def generatorKey : ByteVec 33 := ⟨2 :: Point.generator.x.toBeBytes.bytes, by simp⟩

lemma serialize_one {lib : Secp} (hlib : lib.Lawful) {secret : lib.SecretKey}
    (hone : lib.scalar secret = 1) : lib.serialize (lib.fromSecretKey secret) = generatorKey := by
  obtain ⟨x, y, hxy, hbytes⟩ := hlib.serialize (lib.fromSecretKey secret)
  rw [hlib.fromSecretKey, hone, one_nsmul] at hxy
  obtain ⟨rfl, rfl⟩ := hxy.unique Point.coordinates_generator
  have hparity : UInt8.ofNat (2 + Point.generator.y.value % 2) = 2 := by decide +kernel
  rw [hparity] at hbytes
  exact ByteVec.ext hbytes

/-- A signature under the scalar one of a message of zeros. -/
theorem sign_verify_one :
    let one : ByteVec 32 := ⟨List.replicate 31 0 ++ [1], rfl⟩
    ∃ sig64, Crypto.bchSchnorrSignWithK Secp.standard one (.zero 32) one = .ok sig64 ∧
      Crypto.bchSchnorrVerify Secp.standard generatorKey (.zero 32) sig64 = .ok true := by
  intro one
  have hlib := Secp.standard_lawful
  have hvalue : fromBe one.bytes = 1 := by decide +kernel
  have hrange : 0 < fromBe one.bytes ∧ fromBe one.bytes < order := by decide +kernel
  obtain ⟨secret, hsecret, hscalar⟩ := (hlib.fromSecretBytes one).1 hrange
  have hkey := serialize_one hlib (hscalar.trans hvalue)
  have hxy : Coordinates Point.generator.x Point.generator.y (fromBe one.bytes • G) := by
    rw [hvalue, one_nsmul]
    exact Point.coordinates_generator
  have hchallenge : let e := fromBe (Crypto.challenge Point.generator.x.toBeBytes generatorKey
      (.zero 32)).bytes
      0 < e ∧ e < order ∧ (adjusted (fromBe one.bytes)
        (Crypto.yIsQuadraticResidue Point.generator.y.toBeBytes) + e * fromBe one.bytes) % order ≠ 0 := by
    decide +kernel
  obtain ⟨hpos, hlt, hsum⟩ := hchallenge
  obtain ⟨sig64, hsig⟩ := signWithK_of_coordinates hlib hsecret hrange hxy (by rw [hkey]) hpos hlt hsum
  obtain ⟨secret', hsecret', hverify⟩ := (sign_verify hlib).1 _ _ _ _ hsig
  rw [hsecret, Except.ok.injEq] at hsecret'
  subst hsecret'
  rw [hkey] at hverify
  exact ⟨sig64, hsig, hverify⟩

end Pickaxe.Engine
