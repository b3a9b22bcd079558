/-
# The filter of a batch

The last stage hashes the transaction of each candidate with both of its signatures, and looks at the
nonce point only where one of them passes.  A candidate that passes with the signature that its point
asks for takes a slot from a shared counter and writes its record there.
-/
import Pickaxe.Engine.Batched
import Pickaxe.Engine.Finished
import Pickaxe.Lib.Slots

namespace Pickaxe.Engine

open Lib Sha256

/-! ## Code -/

namespace Gpu

/-- What the filter reads. -/
structure FilterInputs where
  template : Memory UInt8
  midstate : Memory UInt32
  signed : Signatures
  points : Memory UInt32
  base : UInt32
  target : Memory UInt8
  count : ℕ

variable (shift : ℕ) (incremental : Bool) (inputs : FilterInputs)

/-- The nonce of a candidate. -/
def FilterInputs.nonce (candidate : ℕ) : UInt32 := inputs.base + UInt32.ofNat candidate

/-- The hash of a candidate's transaction with one of its signatures; the first block is filled in with
the signature `s₀`. -/
def FilterInputs.hash (candidate : ℕ) (r s₀ s : ByteVec 32) : Hash :=
  let state := compress (inputs.midstate.read 0 8)
    (txBlock shift incremental 6 inputs.template r s₀ (inputs.nonce candidate))
  finishHash shift incremental state inputs.template r s (inputs.nonce candidate)

/-- `filter`, up to the counter: the record of a candidate that passes. -/
def filter (candidate : ℕ) : Option (UInt32 × Hash) :=
  if candidate ≥ inputs.count then none
  else
    let (r, plus, minus) := inputs.signed.parts candidate
    let strictPositive := decide (inputs.target 32 ≠ 0)
    let target : Hash := inputs.target.readBytes 0 32
    let hashPlus := inputs.hash shift incremental candidate r plus plus
    let hashMinus := inputs.hash shift incremental candidate r plus minus
    let passPlus := Meets.meets hashPlus target strictPositive
    let passMinus := Meets.meets hashMinus target strictPositive
    if passPlus = false ∧ passMinus = false then none
    else
      let point := pointAt inputs.points candidate
      if point.z = .zero then none
      else
        let square := (point.y.mulMod point.z).isSquare
        if (if square then passPlus else passMinus) = false then none
        else some (inputs.nonce candidate, if square then hashPlus else hashMinus)

/-- The records of the winners. -/
structure Winners where
  nonces : Memory UInt32
  hashes : Memory UInt8

/-- The two writes of a winner. -/
def Winners.put (slot : ℕ) (record : UInt32 × Hash) (winners : Winners) : Winners where
  nonces := winners.nonces.write slot [record.1]
  hashes := winners.hashes.write (slot * 32) record.2.bytes

/-- What the host reads of a slot. -/
def Winners.get (slot : ℕ) (winners : Winners) : UInt32 × Hash :=
  (winners.nonces slot, winners.hashes.readBytes (slot * 32) 32)

/-- A launch of the filter: every thread takes a slot if its candidate passes, and writes its record. -/
def filterLaunch (cap : ℕ) (steps : List (Slots.Step ℕ)) (winners : Winners) :
    Slots.State ℕ Winners :=
  steps.foldl (Slots.step (filter shift incremental inputs) Winners.put cap) (Slots.start winners)

end Gpu

/-! ## Records -/

lemma get_put_self (slot : ℕ) (record : UInt32 × Hash) (winners : Gpu.Winners) :
    Gpu.Winners.get slot (Gpu.Winners.put slot record winners) = record := by
  have hnonce := Memory.write_add winners.nonces slot [record.1] (i := 0) Nat.zero_lt_one
  rw [Nat.add_zero] at hnonce
  rw [Gpu.Winners.get, Gpu.Winners.put]
  dsimp only
  rw [hnonce, Memory.readBytes_write_self]
  rfl

lemma get_put_of_ne (slot slot' : ℕ) (record : UInt32 × Hash) (winners : Gpu.Winners)
    (h : slot ≠ slot') :
    Gpu.Winners.get slot (Gpu.Winners.put slot' record winners) = Gpu.Winners.get slot winners := by
  rw [Gpu.Winners.get, Gpu.Winners.get, Gpu.Winners.put]
  dsimp only
  rw [Memory.readBytes_write_of_disjoint _ (by rw [ByteVec.length_bytes]; omega)]
  rcases Nat.lt_or_gt_of_ne h with hlt | hgt
  · rw [Memory.write_of_lt _ _ hlt]
  · rw [Memory.write_of_le _ _ (by rw [List.length_singleton]; exact hgt)]

/-! ## A candidate -/

section Candidate

variable {shift : ℕ} {incremental : Bool} {inputs : Gpu.FilterInputs} {template : Bytes}

/-- The filter's inputs are those of a template. -/
structure HoldsTemplate (shift : ℕ) (inputs : Gpu.FilterInputs) (template : Bytes) : Prop where
  shift_le : shift ≤ 16
  length : template.length = 615 + shift
  holds : Memory.Holds inputs.template template
  midstate : inputs.midstate.read 0 8 = Gpu.transactionMidstate template

/-- The first block ends before the second half of a signature. -/
lemma txBlock_six (shift : ℕ) (incremental : Bool) (memory : Memory UInt8) (r s s' : ByteVec 32)
    (nonce : UInt32) :
    Gpu.txBlock shift incremental 6 memory r s nonce =
      Gpu.txBlock shift incremental 6 memory r s' nonce := by
  have hbyte (pos : ℕ) (hpos : pos < 448) : Gpu.txByte shift incremental memory r s nonce pos =
      Gpu.txByte shift incremental memory r s' nonce pos := by
    have hs : ¬(426 + shift + 32 ≤ pos ∧ pos < 426 + shift + 64) := by omega
    rw [Gpu.txByte, Gpu.txByte, if_neg hs, if_neg hs]
  refine Words.ext fun i hi => ?_
  rw [Gpu.txBlock, Gpu.txBlock, Words.word_ofFn hi, Words.word_ofFn hi, hbyte _ (by omega),
    hbyte _ (by omega), hbyte _ (by omega), hbyte _ (by omega)]

/-- A hash of the filter is the hash of the candidate's transaction. -/
lemma hash_eq (h : HoldsTemplate shift inputs template) (candidate : ℕ) (r s₀ s : ByteVec 32) :
    inputs.hash shift incremental candidate r s₀ s = Lib.Sha256.digest (Lib.Sha256.digest
      (candidateTx shift incremental template (inputs.nonce candidate) r s)).bytes := by
  have hfirst := txBlock_six shift incremental inputs.template r s₀ s (inputs.nonce candidate)
  have hhash := finishHash_eq incremental (inputs.nonce candidate) r s h.shift_le h.length h.holds
  rw [← h.midstate, ← hfirst] at hhash
  exact hhash

/-- The half that a candidate's point asks for. -/
def chosen (point : Point) (parts : ByteVec 32 × ByteVec 32 × ByteVec 32) : ByteVec 32 :=
  if (point.y.mulMod point.z).isSquare then parts.2.1 else parts.2.2

/-- A candidate passes with the signature that its point asks for, and with no other. -/
lemma filter_eq_some (incremental : Bool) (h : HoldsTemplate shift inputs template) {candidate : ℕ}
    (hcandidate : candidate < inputs.count) (hz : (pointAt inputs.points candidate).z ≠ .zero)
    {parts : ByteVec 32 × ByteVec 32 × ByteVec 32} (hparts : inputs.signed.parts candidate = parts)
    {digest : Hash} (hdigest : Lib.Sha256.digest (Lib.Sha256.digest (candidateTx shift incremental
      template (inputs.nonce candidate) parts.1 (chosen (pointAt inputs.points candidate) parts))).bytes =
        digest) :
    Gpu.filter shift incremental inputs candidate =
      if Meets.meets digest (inputs.target.readBytes 0 32) (decide (inputs.target 32 ≠ 0)) then
        some (inputs.nonce candidate, digest) else none := by
  obtain ⟨r, plus, minus⟩ := parts
  rw [Gpu.filter, if_neg (by omega), hparts]
  dsimp only
  rw [hash_eq h, hash_eq h]
  rw [chosen] at hdigest
  -- the test of the other signature only decides how soon the thread ends
  cases hsquare : ((pointAt inputs.points candidate).y.mulMod
    (pointAt inputs.points candidate).z).isSquare with
  | true =>
    rw [hsquare, if_pos rfl] at hdigest
    rw [hdigest]
    generalize Meets.meets digest (inputs.target.readBytes 0 32) (decide (inputs.target 32 ≠ 0)) = pass
    cases pass with
    | true => simp [hz]
    | false => simp
  | false =>
    rw [hsquare, if_neg Bool.false_ne_true] at hdigest
    rw [hdigest]
    generalize Meets.meets digest (inputs.target.readBytes 0 32) (decide (inputs.target 32 ≠ 0)) = pass
    cases pass with
    | true => simp [hz]
    | false => simp

end Candidate

end Pickaxe.Engine
