/-
# Compact targets

A target is a 256-bit number, written in 32 bits as an exponent and a mantissa.  A token's
compact target has a stricter form than a header's nBits.  The last part is BCH's
aserti3-2d difficulty, the bits a node requires of the next block.
-/
import Pickaxe.Basic
import Mathlib.Data.Int.Basic

namespace Pickaxe

open Lib

/-- `expand_compact`: a token's compact target, little-endian.  Stricter than a header's
nBits: `3 <= exp <= 32` and `0 < mant < 0x800000`. -/
def expandCompact (bits : UInt32) : Option Hash :=
  let exp := bits.toNat / 2 ^ 24
  let mant := bits.toNat % 2 ^ 24
  if h : 3 ≤ exp ∧ exp ≤ 32 ∧ mant ≠ 0 ∧ mant < 0x800000 then
    some ⟨List.replicate (exp - 3) 0 ++ leBytes 3 mant ++ List.replicate (32 - exp) 0, by
      simp only [List.length_append, List.length_replicate, length_leBytes]
      omega⟩
  else none

/-- The 32 little-endian bytes of a number. -/
def targetOfNat (n : ℕ) : Hash := ⟨leBytes 32 n, length_leBytes 32 n⟩

/-- `compact_target`: a header's nBits, with Bitcoin's sign, zero and overflow checks. -/
def compactTarget (bits : UInt32) : Except String Hash :=
  let size := bits.toNat / 2 ^ 24
  let word := bits.toNat % 2 ^ 23
  if word = 0 ∨ bits.toNat / 2 ^ 23 % 2 ≠ 0 ∨ size > 34 ∨ (word > 0xff ∧ size > 33) ∨
      (word > 0xffff ∧ size > 32) then .error "invalid compact target"
  else
    let value := if size ≤ 3 then word / 2 ^ (8 * (3 - size)) else word * 2 ^ (8 * (size - 3))
    if value ≥ 2 ^ 256 ∨ value = 0 then .error "invalid compact target"
    else .ok (targetOfNat value)

/-! ## ASERT -/

namespace Asert

/-- An ASERT anchor. -/
structure Anchor where
  height : UInt32
  bits : UInt32
  /-- The time of the anchor block's parent. -/
  parentTime : ℤ
  /-- Seconds behind schedule that double the target. -/
  halfLife : ℤ

/-- `CHIPNET`: Chipnet's anchor. -/
def chipnet : Anchor :=
  { height := 16844
    bits := 0x1d00ffff
    parentTime := 1605451779
    halfLife := 60 * 60 }

/-- The target spacing, 10 minutes. -/
def spacing : ℤ := 600

/-- `pow_limit`: the proof-of-work limit. -/
def powLimit : ℕ := 2 ^ 224 - 1

/-- `BigUint::bits`: the number of binary digits. -/
def bitLen (n : ℕ) : ℕ := if n = 0 then 0 else n.log2 + 1

/-- `calculate`: the next target in 16-bit fixed point, clamped to `limit` and to at
least 1. -/
def calculate (reference : ℕ) (timeDiff heightDiff : ℤ) (limit : ℕ) (halfLife : ℤ) : Option ℕ :=
  if reference = 0 ∨ reference > limit ∨ halfLife ≤ 0 then none
  else
    let span := timeDiff - spacing * heightDiff
    if span.natAbs ≥ 2 ^ 47 then none
    else
      let exponent := ((span - spacing) * 65536).tdiv halfLife
      let shifts := exponent / 65536 - 16
      let fraction := (exponent % 65536).toNat
      let factor := 65536 + (195766423245049 * fraction + 971821376 * fraction * fraction +
        5127 * fraction * fraction * fraction + 2 ^ 47) / 2 ^ 48
      let product := reference * factor
      let next :=
        if shifts ≤ 0 then product / 2 ^ min shifts.natAbs 256
        else if bitLen product + shifts.natAbs > 256 then limit
        else product * 2 ^ shifts.natAbs
      some (if next = 0 then 1 else min next limit)

/-- `compact`: the bits of a positive target. -/
def compact (target : ℕ) : UInt32 :=
  let size := (bitLen target + 7) / 8
  let word := if size ≤ 3 then target * 2 ^ (8 * (3 - size)) else target / 2 ^ (8 * (size - 3))
  if word / 2 ^ 23 % 2 ≠ 0 then UInt32.ofNat (word / 2 ^ 8 + (size + 1) * 2 ^ 24)
  else UInt32.ofNat (word + size * 2 ^ 24)

/-- `next_bits`: the bits ASERT gives the block after a parent at `parentHeight` and
`parentTime`. -/
def nextBits (anchor : Anchor) (parentHeight parentTime : UInt32) : Option UInt32 :=
  if parentHeight < anchor.height then none
  else
    match compactTarget anchor.bits with
    | .error _ => none
    | .ok reference =>
      (calculate (fromLe reference.bytes) (parentTime.toNat - anchor.parentTime)
        (parentHeight.toNat - anchor.height.toNat : ℕ) powLimit anchor.halfLife).map compact

-- the bits of Chipnet's block 300,000
example : nextBits chipnet 299999 1775336127 = some 0x1c2b1b94 := by decide +kernel

end Asert

end Pickaxe
