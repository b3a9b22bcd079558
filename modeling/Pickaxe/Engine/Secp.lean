/-
# The curve library

What the repository uses of the `secp256k1` crate: keys, their sums and products, and their
serialised forms, with what its documentation says of each.  A key of the crate is never zero, and a
public key is never infinity: an operation that would give one fails.
-/
import Pickaxe.Engine.Encoding
import Pickaxe.Engine.Order

namespace Pickaxe.Engine

open Lib

/-- The `secp256k1` crate. -/
structure Secp where
  /-- `SecretKey`. -/
  SecretKey : Type
  /-- `PublicKey`. -/
  PublicKey : Type
  /-- `SecretKey::from_secret_bytes`. -/
  fromSecretBytes : ByteVec 32 → Except String SecretKey
  /-- `SecretKey::to_secret_bytes`. -/
  toSecretBytes : SecretKey → ByteVec 32
  /-- `SecretKey::negate`. -/
  negate : SecretKey → SecretKey
  /-- `SecretKey::mul_tweak`, by a scalar. -/
  mulTweak : SecretKey → ℕ → Except String SecretKey
  /-- `SecretKey::add_tweak`, by a scalar. -/
  addTweak : SecretKey → ℕ → Except String SecretKey
  /-- `PublicKey::from_secret_key`. -/
  fromSecretKey : SecretKey → PublicKey
  /-- `PublicKey::combine`. -/
  combine : PublicKey → PublicKey → Except String PublicKey
  /-- `PublicKey::negate`. -/
  negatePublic : PublicKey → PublicKey
  /-- `PublicKey::mul_tweak`, by a scalar. -/
  mulTweakPublic : PublicKey → ℕ → Except String PublicKey
  /-- `PublicKey::from_slice`, of a compressed key. -/
  fromSlice : ByteVec 33 → Except String PublicKey
  /-- `PublicKey::serialize`. -/
  serialize : PublicKey → ByteVec 33
  /-- `PublicKey::serialize_uncompressed`. -/
  serializeUncompressed : PublicKey → ByteVec 65
  /-- The number that a secret key is. -/
  scalar : SecretKey → ℕ
  /-- The point that a public key is. -/
  point : PublicKey → curve.Point

/-- What an operation that may fail gives: where a condition holds, something with a property. -/
def Gives {α : Type} (x : Except String α) (holds : Prop) (post : α → Prop) : Prop :=
  (holds → ∃ a, x = .ok a ∧ post a) ∧ (¬holds → ∃ e, x = .error e)

/-- What the crate documents. -/
structure Secp.Lawful (lib : Secp) : Prop where
  scalar_pos : ∀ k, 0 < lib.scalar k
  scalar_lt : ∀ k, lib.scalar k < order
  fromSecretBytes : ∀ b, Gives (lib.fromSecretBytes b) (0 < fromBe b.bytes ∧ fromBe b.bytes < order)
    fun k => lib.scalar k = fromBe b.bytes
  toSecretBytes : ∀ k, fromBe (lib.toSecretBytes k).bytes = lib.scalar k
  negate : ∀ k, lib.scalar (lib.negate k) = order - lib.scalar k
  mulTweak : ∀ k t, t < order → Gives (lib.mulTweak k t) (lib.scalar k * t % order ≠ 0)
    fun k' => lib.scalar k' = lib.scalar k * t % order
  addTweak : ∀ k t, t < order → Gives (lib.addTweak k t) ((lib.scalar k + t) % order ≠ 0)
    fun k' => lib.scalar k' = (lib.scalar k + t) % order
  point_ne_zero : ∀ p, lib.point p ≠ 0
  fromSecretKey : ∀ k, lib.point (lib.fromSecretKey k) = lib.scalar k • G
  combine : ∀ p q, Gives (lib.combine p q) (lib.point p + lib.point q ≠ 0)
    fun r => lib.point r = lib.point p + lib.point q
  negatePublic : ∀ p, lib.point (lib.negatePublic p) = -lib.point p
  mulTweakPublic : ∀ p t, t < order → Gives (lib.mulTweakPublic p t) (t ≠ 0)
    fun q => lib.point q = t • lib.point p
  fromSlice : ∀ b, Gives (lib.fromSlice b) (∃ p, lib.serialize p = b) fun p => lib.serialize p = b
  serialize : ∀ p, ∃ x y, Coordinates x y (lib.point p) ∧
    (lib.serialize p).bytes = UInt8.ofNat (2 + y.value % 2) :: x.toBeBytes.bytes
  serializeUncompressed : ∀ p, ∃ x y, Coordinates x y (lib.point p) ∧
    (lib.serializeUncompressed p).bytes = 4 :: x.toBeBytes.bytes ++ y.toBeBytes.bytes

lemma Gives.of_ok {α : Type} {x : Except String α} {holds : Prop} {post : α → Prop}
    (h : Gives x holds post) {a : α} (ha : x = .ok a) : holds ∧ post a := by
  have hholds : holds := by
    by_contra hn
    obtain ⟨e, he⟩ := h.2 hn
    rw [ha] at he
    cases he
  obtain ⟨a', ha', hpost⟩ := h.1 hholds
  rw [ha, Except.ok.injEq] at ha'
  exact ⟨hholds, ha' ▸ hpost⟩

/-! ## Keys as numbers and points -/

/-- The two coordinates of a serialised point. -/
lemma slice_uncompressed {lib : Secp} (hlib : lib.Lawful) (p : lib.PublicKey) :
    ∃ x y, Coordinates x y (lib.point p) ∧
      slice (lib.serializeUncompressed p).bytes 1 33 = x.toBeBytes.bytes ∧
      slice (lib.serializeUncompressed p).bytes 33 65 = y.toBeBytes.bytes := by
  obtain ⟨x, y, hxy, hbytes⟩ := hlib.serializeUncompressed p
  refine ⟨x, y, hxy, ?_, ?_⟩
  · rw [hbytes]
    exact slice_append (a := [4]) rfl (by simp)
  · have h : slice (4 :: x.toBeBytes.bytes ++ y.toBeBytes.bytes ++ []) 33 65 = y.toBeBytes.bytes :=
      slice_append (by simp) (by simp)
    rwa [List.append_nil, ← hbytes] at h

/-- Of a field element and its opposite, one is even. -/
lemma parity_of_neg {y y' : Field} (hy : y.Canonical) (hy' : y'.Canonical)
    (hneg : y'.residue = -y.residue) (hparity : y.value % 2 = y'.value % 2) : y = y' := by
  have hsum : prime ∣ y'.value + y.value := by
    rw [← ZMod.natCast_eq_zero_iff]
    push_cast
    exact eq_neg_iff_add_eq_zero.mp hneg
  have hy_lt : y.value < prime := hy
  have hy'_lt : y'.value < prime := hy'
  have hodd : prime % 2 = 1 := by norm_num [prime]
  obtain ⟨k, hk⟩ := hsum
  -- the sum is even and below twice the modulus, which is odd
  have hk_lt : k < 2 := by
    by_contra hge
    have := Nat.mul_le_mul_left prime (not_lt.mp hge)
    omega
  interval_cases k
  · exact Field.value_injective (by omega)
  · omega

/-- Compressed keys of one form are of one point. -/
lemma Coordinates.eq_of_compressed {x y x' y' : Field} {g g' : curve.Point} (h : Coordinates x y g)
    (h' : Coordinates x' y' g')
    (heq : UInt8.ofNat (2 + y.value % 2) :: x.toBeBytes.bytes =
      UInt8.ofNat (2 + y'.value % 2) :: x'.toBeBytes.bytes) : g = g' := by
  obtain ⟨hhead, hx⟩ := List.cons.inj heq
  have hparity : y.value % 2 = y'.value % 2 := by
    have h2 := congrArg UInt8.toNat hhead
    rw [UInt8.toNat_ofNat', UInt8.toNat_ofNat'] at h2
    omega
  obtain rfl := Field.toBeBytes_injective (ByteVec.ext hx)
  obtain ⟨hcx, hcy, ⟨hequation, -⟩, rfl⟩ := h
  obtain ⟨-, hcy', ⟨hequation', -⟩, rfl⟩ := h'
  rw [shortCurve_equation_iff] at hequation hequation'
  have hsq : y'.residue ^ 2 = y.residue ^ 2 := hequation'.trans hequation.symm
  have hy : y = y' := by
    rcases sq_eq_sq_iff_eq_or_eq_neg.mp hsq with hsame | hneg
    · exact Field.eq_of_residue_eq hcy hcy' hsame.symm
    · exact parity_of_neg hcy hcy' hneg hparity
  subst hy
  rfl

/-- The coordinates of a point, and zeros for infinity. -/
def coordinatesOf : curve.Point → Field × Field
  | 0 => (.zero, .zero)
  | .some x y _ => (.ofNat x.val, .ofNat y.val)

lemma coordinates_coordinatesOf {g : curve.Point} (h : g ≠ 0) :
    Coordinates (coordinatesOf g).1 (coordinatesOf g).2 g := by
  have hpos : NeZero prime := ⟨prime_prime.ne_zero⟩
  cases g with
  | zero => exact absurd rfl h
  | some x y hns =>
    refine ⟨Field.canonical_ofNat _, Field.canonical_ofNat _, ?_⟩
    rw [coordinatesOf, Field.residue_ofNat, Field.residue_ofNat, ZMod.natCast_zmod_val,
      ZMod.natCast_zmod_val]
    exact ⟨hns, rfl⟩

namespace Secp

/-- A secret key, by its number. -/
def secretOf (k : ℕ) : Except String {k : ℕ // 0 < k ∧ k < order} :=
  if h : 0 < k ∧ k < order then .ok ⟨k, h⟩ else .error "bad key"

lemma gives_secretOf (k : ℕ) : Gives (secretOf k) (0 < k ∧ k < order) fun k' => k'.1 = k := by
  rw [secretOf]
  constructor
  · intro h
    rw [dif_pos h]
    exact ⟨_, rfl, rfl⟩
  · intro h
    rw [dif_neg h]
    exact ⟨_, rfl⟩

/-- The compressed form of a point. -/
def compressed (g : curve.Point) : ByteVec 33 :=
  ⟨UInt8.ofNat (2 + (coordinatesOf g).2.value % 2) :: (coordinatesOf g).1.toBeBytes.bytes, by simp⟩

lemma neg_nsmul_G (k : ℕ) : -(k • G) = ((order - 1) * k) • G := by
  rw [neg_eq_iff_add_eq_zero, ← add_nsmul, nsmul_G_eq_zero_iff]
  refine ⟨k, ?_⟩
  have hpos := order_prime.pos
  calc
    k + (order - 1) * k = (order - 1 + 1) * k := by ring
    _ = order * k := by rw [Nat.sub_add_cancel hpos]

lemma nsmul_ne_zero_iff {t : ℕ} (ht : t < order) {g : curve.Point} (hg : g ≠ 0)
    (hmultiple : ∃ k : ℕ, g = k • G) : t • g ≠ 0 ↔ t ≠ 0 := by
  obtain ⟨k, rfl⟩ := hmultiple
  rw [ne_eq, nsmul_G_eq_zero_iff] at hg
  rw [← mul_nsmul', ne_eq, nsmul_G_eq_zero_iff, order_prime.dvd_mul, or_iff_left hg]
  constructor
  · rintro h rfl
    exact h (dvd_zero _)
  · exact fun hne => Nat.not_dvd_of_pos_of_lt (Nat.pos_of_ne_zero hne) ht

/-- The points of keys: the multiples of the generator other than infinity. -/
abbrev KeyPoint := {g : curve.Point // g ≠ 0 ∧ ∃ k : ℕ, g = k • G}

open Classical in
/-- A library of numbers and points. -/
noncomputable def standard : Secp where
  SecretKey := {k : ℕ // 0 < k ∧ k < order}
  PublicKey := KeyPoint
  fromSecretBytes b := secretOf (fromBe b.bytes)
  toSecretBytes k := ⟨Lib.Sha256.beBytes 32 k.1, Lib.Sha256.length_beBytes _ _⟩
  negate k := ⟨order - k.1, by omega⟩
  mulTweak k t := secretOf (k.1 * t % order)
  addTweak k t := secretOf ((k.1 + t) % order)
  fromSecretKey k := ⟨k.1 • G, fun h =>
    Nat.not_dvd_of_pos_of_lt k.2.1 k.2.2 (nsmul_G_eq_zero_iff.mp h), k.1, rfl⟩
  combine p q :=
    if h : p.1 + q.1 ≠ 0 then
      .ok ⟨p.1 + q.1, h, by
        obtain ⟨k, hk⟩ := p.2.2
        obtain ⟨l, hl⟩ := q.2.2
        exact ⟨k + l, by rw [hk, hl, add_nsmul]⟩⟩
    else .error "no point"
  negatePublic p := ⟨-p.1, neg_ne_zero.mpr p.2.1, by
    obtain ⟨k, hk⟩ := p.2.2
    exact ⟨(order - 1) * k, by rw [hk, neg_nsmul_G]⟩⟩
  mulTweakPublic p t :=
    if h : t • p.1 ≠ 0 then
      .ok ⟨t • p.1, h, by
        obtain ⟨k, hk⟩ := p.2.2
        exact ⟨t * k, by rw [hk, mul_nsmul']⟩⟩
    else .error "no point"
  fromSlice b := if h : ∃ p : KeyPoint, compressed p.1 = b then .ok h.choose else .error "bad key"
  serialize p := compressed p.1
  serializeUncompressed p := ⟨4 :: (coordinatesOf p.1).1.toBeBytes.bytes ++
    (coordinatesOf p.1).2.toBeBytes.bytes, by simp⟩
  scalar k := k.1
  point p := p.1

theorem standard_lawful : standard.Lawful where
  scalar_pos k := k.2.1
  scalar_lt k := k.2.2
  fromSecretBytes b := gives_secretOf _
  toSecretBytes k := fromBe_beBytes (k.2.2.trans Scalar.order_lt)
  negate _ := rfl
  mulTweak k t _ := by
    have h := gives_secretOf (k.1 * t % order)
    have hlt := Nat.mod_lt (k.1 * t) order_prime.pos
    exact ⟨fun hne => h.1 ⟨Nat.pos_of_ne_zero hne, hlt⟩, fun hz => h.2 fun hand => hz hand.1.ne'⟩
  addTweak k t _ := by
    have h := gives_secretOf ((k.1 + t) % order)
    have hlt := Nat.mod_lt (k.1 + t) order_prime.pos
    exact ⟨fun hne => h.1 ⟨Nat.pos_of_ne_zero hne, hlt⟩, fun hz => h.2 fun hand => hz hand.1.ne'⟩
  point_ne_zero p := p.2.1
  fromSecretKey _ := rfl
  combine p q := by
    constructor
    · intro h
      exact ⟨_, dif_pos h, rfl⟩
    · intro h
      exact ⟨_, dif_neg h⟩
  negatePublic _ := rfl
  mulTweakPublic p t ht := by
    rw [← nsmul_ne_zero_iff ht p.2.1 p.2.2]
    constructor
    · intro h
      exact ⟨_, dif_pos h, rfl⟩
    · intro h
      exact ⟨_, dif_neg h⟩
  fromSlice b := by
    constructor
    · intro h
      exact ⟨_, dif_pos h, h.choose_spec⟩
    · intro h
      exact ⟨_, dif_neg h⟩
  serialize p := ⟨_, _, coordinates_coordinatesOf p.2.1, rfl⟩
  serializeUncompressed p := ⟨_, _, coordinates_coordinatesOf p.2.1, rfl⟩

end Secp

end Pickaxe.Engine
