/-
# Threads of the SAFA AuxPoW covenant

A thread's state is the 16-byte commitment of its vault's NFT: the thread, the coinbase height
of its last claim, the token's target and the last claim header's nBits.  A claim moves the
state on: its target follows from the blocks since the last claim, and its header must sit in
the band ASERT gives at its coinbase height, or after 4,032 blocks in a band around the last
header's.
-/
import Pickaxe.Lib.Reader
import Pickaxe.Merge.Commitment
import Pickaxe.Target

namespace Pickaxe.Safa

open Lib Merge

/-- `EASE_CAP`: the DAA eases the target by at most this many blocks per claim. -/
def easeCap : ℕ := 288

/-- `FALLBACK_DELTA`: blocks without a claim after which the fallback band applies. -/
def fallbackDelta : ℕ := 4032

/-! ## Targets -/

/-- `max_token_target`: the easiest canonical token target. -/
def maxTokenTarget : ℕ := 0x7fffff * 2 ^ 232

/-- `expand_token_target`: `3 <= exp <= 32` and `0 < mant < 0x800000`. -/
def expandTokenTarget (bits : UInt32) : Option ℕ :=
  let exponent := bits.toNat / 2 ^ 24
  let mantissa := bits.toNat % 2 ^ 24
  if exponent < 3 ∨ 32 < exponent ∨ mantissa = 0 ∨ mantissa ≥ 0x800000 then none
  else some (mantissa * 2 ^ (8 * (exponent - 3)))

/-- `encode_token_target`: canonical bits of a target, rounded down; the size is its length as
a script number, at least 3. -/
def encodeTokenTarget (target : ℕ) : Option UInt32 :=
  if target = 0 ∨ target > maxTokenTarget then none
  else
    let size := max ((Asert.bitLen target + 1 + 7) / 8) 3
    let mantissa := target / 2 ^ (8 * (size - 3))
    if mantissa ≥ 2 ^ 32 then none
    else some (UInt32.ofNat size <<< 24 ||| UInt32.ofNat mantissa)

/-- `claim_target_bits`: the state's target eased by the blocks since the last claim, clamped
to 1 and the easiest target.  They are also the next state's. -/
def claimTargetBits (stateBits heightDelta threads : UInt32) : Option UInt32 :=
  if threads = 0 ∨ heightDelta = 0 then none
  else do
    let factor := min heightDelta.toNat easeCap * 5000 / threads.toNat + 5000
    let target := (← expandTokenTarget stateBits) * factor / 10000
    encodeTokenTarget (min (max target 1) maxTokenTarget)

/-- `decode_header_bits`: a header's nBits as the covenant reads them; none for a negative, zero
or above-the-limit target. -/
def decodeHeaderBits (bits : UInt32) : Option ℕ :=
  let mantissa := bits.toNat % 2 ^ 24
  let size := bits.toNat / 2 ^ 24
  if mantissa ≥ 0x800000 ∨ size > 35 then none
  else
    let value := if size < 3 then mantissa / 2 ^ (8 * (3 - size)) else mantissa * 2 ^ (8 * (size - 3))
    if value ≠ 0 ∧ value ≤ Asert.powLimit then some value else none

/-! ## Bands -/

/-- `Band`: the covenant's ASERT parameters of a network. -/
structure Band where
  anchorHeight : ℕ
  anchorBits : UInt32
  anchorParentTime : ℤ
  halfLife : ℤ
  allowPowLimit : Bool
  hardDivisor : ℕ
  /-- The easy side, `computed × easy.1 / easy.2`. -/
  easy : ℕ × ℕ

/-- `band_of`. -/
def bandOf : MiningNetwork → Band
  | .mainnet => ⟨661647, 0x1804dafe, 1605447844, 172800, false, 2, (105, 100)⟩
  | .chipnet => ⟨16844, 0x1d00ffff, 1605451779, 3600, true, 8, (8, 1)⟩

/-- `POW_LIMIT_BITS`: the bits of the proof-of-work limit. -/
def powLimitBits : UInt32 := 0x1d00ffff

/-- `asert_target`: BCHN's `CalculateASERT` as the covenant computes it, clamped to 1 and the
limit; it has no bound on the time span. -/
def asertTarget (reference : ℕ) (timeDiff heightDiff halfLife : ℤ) : ℕ :=
  let span := timeDiff - 600 * heightDiff
  -- the division truncates toward zero, the shift floors
  let exponent := ((span - 600) * 65536).tdiv halfLife
  let shift := exponent / 65536 - 16
  let fraction := (exponent % 65536).toNat
  let factor := 65536 + (195766423245049 * fraction + 971821376 * fraction * fraction +
    5127 * fraction * fraction * fraction + 2 ^ 47) / 2 ^ 48
  let product := reference * factor
  let next :=
    if shift ≤ 0 then product / 2 ^ min shift.natAbs 256 else product * 2 ^ min shift.natAbs 256
  if next = 0 then 1 else min next Asert.powLimit

/-- `asert_band`: none where the covenant's script fails outright (invalid nBits, a height at
or below the anchor). -/
def asertBand (network : MiningNetwork) (bits time height : UInt32) : Option Bool := do
  let band := bandOf network
  let target ← decodeHeaderBits bits
  if band.allowPowLimit ∧ bits = powLimitBits then return true
  else if height.toNat < 1 + band.anchorHeight then none
  else
    let reference ← decodeHeaderBits band.anchorBits
    let computed := asertTarget reference (time.toNat - band.anchorParentTime)
      (height.toNat - 1 - band.anchorHeight : ℕ) band.halfLife
    return decide (computed / band.hardDivisor ≤ target ∧
      target * band.easy.2 ≤ computed * band.easy.1)

/-- `fallback_band`: none where either nBits is invalid. -/
def fallbackBand (bits refBits : UInt32) : Option Bool := do
  let reference ← decodeHeaderBits refBits
  let target ← decodeHeaderBits bits
  return decide (reference / 2 ^ 4 ≤ target ∧ target * 10 ≤ reference * 11)

/-! ## States -/

/-- `ThreadState`. -/
@[ext] structure ThreadState where
  thread : UInt32
  height : UInt32
  targetBits : UInt32
  refBits : UInt32
deriving DecidableEq

namespace ThreadState

/-- `ThreadState::parse`: the four words of a commitment. -/
def parse (commitment : ByteVec 16) : ThreadState :=
  let word := fun at' => u32OfLe (slice commitment.bytes at' (at' + 4))
  ⟨word 0, word 4, word 8, word 12⟩

/-- `ThreadState::encode`. -/
def encode (s : ThreadState) : ByteVec 16 :=
  ⟨u32Le s.thread ++ u32Le s.height ++ u32Le s.targetBits ++ u32Le s.refBits, by simp⟩

/-- A state survives its encoding. -/
@[simp] lemma parse_encode (s : ThreadState) : parse s.encode = s := by
  have h0 : slice s.encode.bytes 0 4 = u32Le s.thread := by
    have hsplit : s.encode.bytes = [] ++ u32Le s.thread ++
        (u32Le s.height ++ u32Le s.targetBits ++ u32Le s.refBits) := by simp [encode]
    rw [hsplit]
    exact slice_append rfl (by simp)
  have h4 : slice s.encode.bytes 4 8 = u32Le s.height := by
    have hsplit : s.encode.bytes = u32Le s.thread ++ u32Le s.height ++
        (u32Le s.targetBits ++ u32Le s.refBits) := by simp [encode]
    rw [hsplit]
    exact slice_append (by simp) (by simp)
  have h8 : slice s.encode.bytes 8 12 = u32Le s.targetBits :=
    slice_append (by simp) (by simp)
  have h12 : slice s.encode.bytes 12 16 = u32Le s.refBits := by
    have hsplit : s.encode.bytes = (u32Le s.thread ++ u32Le s.height ++ u32Le s.targetBits) ++
        u32Le s.refBits ++ [] := by simp [encode]
    rw [hsplit]
    exact slice_append (by simp) (by simp)
  simp [parse, h0, h4, h8, h12]

end ThreadState

/-- `header_bits`. -/
def headerBits (header : ByteVec 80) : UInt32 := u32OfLe (slice header.bytes 72 76)

/-- `bch_header`: whether a header at `height` passes the BCH-only checks. -/
def bchHeader (network : MiningNetwork) (header : ByteVec 80) (height : UInt32)
    (state : ThreadState) : Bool :=
  let bits := headerBits header
  match asertBand network bits (u32OfLe (slice header.bytes 68 72)) height with
  | some true => true
  | some false => decide (fallbackDelta ≤ height.toNat - state.height.toNat) &&
    fallbackBand bits state.refBits == some true
  | none => false

/-- `coinbase_height`: a minimal, positive push of 1 to 5 bytes at the start of a fixed-shape
head's script. -/
def coinbaseHeight (head : Bytes) : Option ℕ :=
  match checkHead head with
  | .error _ => none
  | .ok () => do
    let length ← head[41]?
    let push ← head[42]?
    if push.toNat < 1 ∨ 5 < push.toNat ∨ length.toNat < 1 + push.toNat then none
    else
      let bytes ← slice? head 43 (43 + push.toNat)
      let last := bytes.getD (push.toNat - 1) 0
      if last &&& 0x80 ≠ 0 ∨ (last = 0 ∧ (push = 1 ∨ bytes.getD (push.toNat - 2) 0 &&& 0x80 = 0)) then
        none
      else some (fromLe bytes)

/-! ## What a claim does to the target -/

lemma expandTokenTarget_le {bits : UInt32} {target : ℕ} (h : expandTokenTarget bits = some target) :
    0 < target ∧ target ≤ maxTokenTarget := by
  simp only [expandTokenTarget] at h
  split_ifs at h with hc
  push Not at hc
  obtain ⟨hlow, hhigh, hzero, hmantissa⟩ := hc
  cases h
  refine ⟨by positivity, ?_⟩
  calc bits.toNat % 2 ^ 24 * 2 ^ (8 * (bits.toNat / 2 ^ 24 - 3))
      ≤ 0x7fffff * 2 ^ (8 * (32 - 3)) := by
        gcongr
        · omega
        · omega
    _ = maxTokenTarget := by norm_num [maxTokenTarget]

end Pickaxe.Safa
