/-
# The draft covenant

A token's thread is an 80-byte commitment shaped like a block header, and a win is the next one.
`verify` is the covenant's check of a win: `verify_encode` says, field by field, which commitments
follow which.  The target of a thread that stays at its own age is written and read back as it is
(`decodeCompact_encodeCompact`), so one target serves a whole chain of wins.
-/
import Pickaxe.Safa.Compact

namespace Pickaxe.Safa

open Lib

/-- `MIN_TIME`: header times must be above this. -/
def minTime : UInt32 := 500000000

/-- `VersionRule`: which bits of the version slot a miner may roll. -/
inductive VersionRule where
  | fixed
  | bip320
deriving DecidableEq

/-- `VersionRule::mask`: the bits that may differ from the thread's. -/
def VersionRule.mask : VersionRule → UInt32
  | .fixed => 0
  | .bip320 => 0x1fffe000

/-- `Daa`: the difficulty adjustment by age.  The numbers stay far below `2 ^ 64`. -/
inductive Daa where
  | linear (mul div base scale : ℕ)
deriving DecidableEq

/-- `TimeRule`: whether a header's time must follow the thread's. -/
inductive TimeRule where
  | anyPast
  | monotonic
deriving DecidableEq

/-- `ProofRule`: how a claim's hash is compared with its target. -/
inductive ProofRule where
  /-- As a signed script number: every negative hash passes. -/
  | signed
  | positive
deriving DecidableEq

/-- `SafaParams`, as far as a win's check reads them. -/
structure SafaParams where
  version : VersionRule
  compact : CompactOrder
  daa : Daa
  maxAge : UInt16
  time : TimeRule
deriving DecidableEq

/-- `CANONICAL`. -/
def canonical : SafaParams :=
  { version := .fixed
    compact := .mantissaFirst
    daa := .linear 5000 71 5000 10000
    maxAge := 65534
    time := .anyPast }

/-- `Commitment`. -/
@[ext] structure Commitment where
  /-- The version slot. -/
  virtualSlot : UInt32
  /-- The hash of the thread's previous commitment. -/
  prev : Hash
  /-- The hash of the payout's locking bytecode. -/
  payout : Hash
  time : UInt32
  bits : ByteVec 4
  nonce : UInt32
deriving DecidableEq

namespace Commitment

/-- `Commitment::decode`. -/
def decode (bytes : Bytes) : Except String Commitment :=
  if h : bytes.length = 80 then
    let word := fun at' => u32OfLe (slice bytes at' (at' + 4))
    .ok
      { virtualSlot := word 0
        prev := ⟨slice bytes 4 36, length_slice (by omega)⟩
        payout := ⟨slice bytes 36 68, length_slice (by omega)⟩
        time := word 68
        bits := ⟨slice bytes 72 76, length_slice (by omega)⟩
        nonce := word 76 }
  else .error "a SAFA commitment is exactly 80 bytes"

/-- `Commitment::encode`. -/
def encode (c : Commitment) : ByteVec 80 :=
  ⟨u32Le c.virtualSlot ++ c.prev.bytes ++ c.payout.bytes ++ u32Le c.time ++ c.bits.bytes ++
    u32Le c.nonce, by simp⟩

/-- What stands in the bytes of a commitment. -/
lemma slice_encode (c : Commitment) :
    slice c.encode.bytes 0 4 = u32Le c.virtualSlot ∧ slice c.encode.bytes 4 36 = c.prev.bytes ∧
      slice c.encode.bytes 36 68 = c.payout.bytes ∧ slice c.encode.bytes 68 72 = u32Le c.time ∧
      slice c.encode.bytes 72 76 = c.bits.bytes ∧ slice c.encode.bytes 76 80 = u32Le c.nonce := by
  have hfield : ∀ (before field after : Bytes) {start stop : ℕ},
      c.encode.bytes = before ++ field ++ after → before.length = start →
      start + field.length = stop → slice c.encode.bytes start stop = field := by
    intro before field after start stop hsplit hbefore hfield
    rw [hsplit]
    exact slice_append hbefore hfield
  refine ⟨hfield [] _ (c.prev.bytes ++ c.payout.bytes ++ u32Le c.time ++ c.bits.bytes ++
      u32Le c.nonce) ?_ rfl (by simp),
    hfield (u32Le c.virtualSlot) _ (c.payout.bytes ++ u32Le c.time ++ c.bits.bytes ++
      u32Le c.nonce) ?_ (by simp) (by simp),
    hfield (u32Le c.virtualSlot ++ c.prev.bytes) _ (u32Le c.time ++ c.bits.bytes ++
      u32Le c.nonce) ?_ (by simp) (by simp),
    hfield (u32Le c.virtualSlot ++ c.prev.bytes ++ c.payout.bytes) _ (c.bits.bytes ++
      u32Le c.nonce) ?_ (by simp) (by simp),
    hfield (u32Le c.virtualSlot ++ c.prev.bytes ++ c.payout.bytes ++ u32Le c.time) _
      (u32Le c.nonce) ?_ (by simp) (by simp),
    hfield (u32Le c.virtualSlot ++ c.prev.bytes ++ c.payout.bytes ++ u32Le c.time ++ c.bits.bytes)
      _ [] ?_ (by simp) (by simp)⟩
  all_goals simp [encode]

/-- A commitment survives its encoding. -/
@[simp] lemma decode_encode (c : Commitment) : decode c.encode.bytes = .ok c := by
  obtain ⟨hslot, hprev, hpayout, htime, hbits, hnonce⟩ := c.slice_encode
  rw [decode, dif_pos c.encode.length_eq]
  simp [hslot, hprev, hpayout, htime, hbits, hnonce]

end Commitment

/-- `next_target`: the next target after `age` blocks, truncating at each step. -/
def nextTarget (previous : ℕ) (age : UInt16) : Daa → ℕ
  | .linear mul div base scale => previous * (age.toNat * mul / div + base) / scale

/-- `proof_passes`: whether a commitment's hash passes `target`. -/
def proofPasses (hash : Hash) (target : ℕ) (rule : ProofRule) : Bool :=
  match rule, (hash.bytes.getD 31 0 &&& 0x80 != 0 : Bool) with
  | .signed, true => true
  | .positive, true => false
  | _, _ => fromLe hash.bytes ≤ target

/-- A positive hash at or below the target passes, and no other. -/
lemma proofPasses_positive {hash : Hash} {target : ℕ} :
    proofPasses hash target .positive = true ↔
      hash.bytes.getD 31 0 &&& 0x80 = 0 ∧ fromLe hash.bytes ≤ target := by
  unfold proofPasses
  cases hsign : (hash.bytes.getD 31 0 &&& 0x80 != 0 : Bool) with
  | true => simp only [Bool.false_eq_true, false_iff, not_and, bne_iff_ne.mp hsign, false_implies]
  | false =>
    have hzero : hash.bytes.getD 31 0 &&& 0x80 = 0 := by simpa using hsign
    simp only [hzero, decide_eq_true_eq, true_and]

/-- `verify`: whether `win` is a valid next step from the thread's `current` commitment after `age`
blocks, paid to `payout`. -/
def SafaParams.verify [Hasher] (params : SafaParams) (current win : ByteVec 80) (age : UInt16)
    (payout : Bytes) : Except String Unit := do
  let thread ← Commitment.decode current.bytes
  let next ← Commitment.decode win.bytes
  if age > params.maxAge then .error "the age is past the covenant's limit"
  else do
    let previous ← decodeCompact thread.bits params.compact
    let target := nextTarget previous age params.daa
    let bits ← encodeCompact target params.compact
    if (next.virtualSlot ^^^ thread.virtualSlot) &&& ~~~params.version.mask ≠ 0 then
      .error "the version slot differs outside the token's rolling bits"
    else if next.prev ≠ doubleSha256 current.bytes then
      .error "the win does not follow the thread's commitment"
    else if next.payout ≠ doubleSha256 payout then .error "the win pays another script"
    else if next.time ≤ minTime then .error "the win's time is not above 500,000,000"
    else if params.time = .monotonic ∧ next.time ≤ thread.time then
      .error "the win's time is not after the thread's"
    else if next.bits ≠ bits then .error "the win's target is not the thread's next"
    else if ¬ proofPasses (doubleSha256 win.bytes) target .positive then
      .error "the win's hash is negative or above the target"
    else .ok ()

/-- The fields of a win that follows a thread. -/
structure Follows [Hasher] (params : SafaParams) (thread next : Commitment) (age : UInt16)
    (payout : Bytes) (target : ℕ) : Prop where
  age_le : age ≤ params.maxAge
  version : (next.virtualSlot ^^^ thread.virtualSlot) &&& ~~~params.version.mask = 0
  prev : next.prev = doubleSha256 thread.encode.bytes
  payout : next.payout = doubleSha256 payout
  time : minTime < next.time
  after : params.time = .monotonic → thread.time < next.time
  bits : encodeCompact target params.compact = .ok next.bits
  proof : proofPasses (doubleSha256 next.encode.bytes) target .positive = true

/-- The covenant takes the wins that follow the thread, and no others. -/
lemma verify_encode [Hasher] {params : SafaParams} {thread next : Commitment} {age : UInt16}
    {payout : Bytes} : params.verify thread.encode next.encode age payout = .ok () ↔
      ∃ previous, decodeCompact thread.bits params.compact = .ok previous ∧
        Follows params thread next age payout (nextTarget previous age params.daa) := by
  unfold SafaParams.verify
  simp only [Commitment.decode_encode, Except.bind_eq_ok, Except.ite_error_eq_ok,
    Except.ok.injEq, exists_eq_left', not_not, gt_iff_lt, not_and, UInt32.not_le, UInt16.not_lt]
  constructor
  · rintro ⟨hage, previous, hprevious, bits, hbits, hversion, hprev, hpayout, htime, hafter, rfl,
      hproof, -⟩
    exact ⟨previous, hprevious, hage, hversion, hprev, hpayout, htime, hafter, hbits, hproof⟩
  · rintro ⟨previous, hprevious, h⟩
    exact ⟨h.age_le, previous, hprevious, _, h.bits, h.version, h.prev, h.payout, h.time, h.after,
      rfl, h.proof, trivial⟩

/-! ## One target -/

/-- At age 71 a target stays its own. -/
lemma nextTarget_canonical (previous : ℕ) : nextTarget previous 71 canonical.daa = previous :=
  Nat.mul_div_cancel previous (by decide)

/-- What a slot names: a mantissa that is not negative, shifted by whole bytes. -/
lemma decodeCompact_eq_ok {slot : ByteVec 4} {order : CompactOrder} {target : ℕ}
    (h : decodeCompact slot order = .ok target) :
    ∃ mantissa exponent, mantissa < 0x800000 ∧ 3 ≤ exponent ∧ exponent ≤ 32 ∧
      target = mantissa * 2 ^ (8 * (exponent - 3)) := by
  have hread : ∀ (mantissa : Bytes) (exponent : UInt8), mantissa.length = 3 →
      mantissa.getD 2 0 &&& 0x80 = 0 → 3 ≤ exponent ∧ exponent ≤ 32 →
      fromLe mantissa < 0x800000 ∧ 3 ≤ exponent.toNat ∧ exponent.toNat ≤ 32 := by
    intro mantissa exponent hlength hsign hexponent
    obtain ⟨a, b, c, rfl⟩ := List.length_eq_three.mp hlength
    have hc : c.toNat < 0x80 := by
      by_contra hlarge
      exact (sign_bit c).mpr (not_lt.mp hlarge) hsign
    have ha := a.toNat_lt
    have hb := b.toNat_lt
    refine ⟨?_, UInt8.le_iff_toNat_le.mp hexponent.1, UInt8.le_iff_toNat_le.mp hexponent.2⟩
    simp only [fromLe_cons, fromLe_nil]
    omega
  have hlength := slot.length_eq
  cases order with
  | mantissaFirst =>
    obtain ⟨hsign, h⟩ := Except.ite_error_eq_ok.mp h
    obtain ⟨hexponent, h⟩ := Except.ite_error_eq_ok.mp h
    obtain ⟨hlt, hlow, hhigh⟩ :=
      hread _ _ (length_slice (by omega)) (not_not.mp hsign) (not_not.mp hexponent)
    exact ⟨_, _, hlt, hlow, hhigh, (Except.ok.inj h).symm⟩
  | exponentFirst =>
    obtain ⟨hsign, h⟩ := Except.ite_error_eq_ok.mp h
    obtain ⟨hexponent, h⟩ := Except.ite_error_eq_ok.mp h
    obtain ⟨hlt, hlow, hhigh⟩ :=
      hread _ _ (length_slice (by omega)) (not_not.mp hsign) (not_not.mp hexponent)
    exact ⟨_, _, hlt, hlow, hhigh, (Except.ok.inj h).symm⟩

/-- A target fits 255 bits. -/
lemma decodeCompact_lt {slot : ByteVec 4} {order : CompactOrder} {target : ℕ}
    (h : decodeCompact slot order = .ok target) : target < 256 ^ 32 := by
  obtain ⟨mantissa, exponent, hmantissa, -, hexponent, rfl⟩ := decodeCompact_eq_ok h
  have hshift : 2 ^ (8 * (exponent - 3)) ≤ 2 ^ 232 := Nat.pow_le_pow_right Nat.two_pos (by omega)
  calc mantissa * 2 ^ (8 * (exponent - 3)) < 0x800000 * 2 ^ 232 :=
        Nat.mul_lt_mul_of_lt_of_le hmantissa hshift (by positivity)
    _ ≤ 256 ^ 32 := by norm_num

/-- A target that was read and written is read again as it was. -/
lemma decodeCompact_encodeCompact {slot slot' : ByteVec 4} {order : CompactOrder} {target : ℕ}
    (hread : decodeCompact slot order = .ok target)
    (hwrite : encodeCompact target order = .ok slot') :
    decodeCompact slot' order = .ok target := by
  obtain ⟨mantissa, exponent, hmantissa, hlow, hhigh, rfl⟩ := decodeCompact_eq_ok hread
  obtain ⟨hpos, hthree, hmax, rfl⟩ := encodeCompact_eq_ok.mp hwrite
  obtain ⟨hexponent, hleading⟩ := compact_exponent_mantissa hpos (hmax.trans_lt (by decide))
  rw [decodeCompact_slot, hexponent, compactValue_of_ge (hthree.trans_eq hexponent.symm), hexponent,
    hleading]
  refine ⟨(leadingBytes_width hpos).2, hthree, hmax, ?_⟩
  -- the number is no longer than the slot it was read from, so no digit is lost
  have hwidth : Script.width (mantissa * 2 ^ (8 * (exponent - 3))) ≤ exponent := by
    rw [Script.width_le_iff]
    have hpow : 2 ^ (8 * exponent - 1) = 0x800000 * 2 ^ (8 * (exponent - 3)) := by
      have hsign : (0x800000 : ℕ) = 2 ^ 23 := rfl
      rw [hsign, ← Nat.pow_add]
      congr 1
      omega
    rw [hpow]
    exact Nat.mul_lt_mul_of_pos_right hmantissa (Nat.two_pow_pos _)
  rw [leadingBytes_of_ge hthree, Nat.div_mul_cancel]
  exact (Nat.pow_dvd_pow 2 (by omega)).mul_left mantissa

end Pickaxe.Safa
