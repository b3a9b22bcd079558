/-
# Proofs of token wins

`AuxProof` is what a token win hands to the proof journal and a claim: the header, the aux
branch, the coinbase up to output 0 and after it, and the coinbase branch.  Output 0 and the
leaf are never carried.

A proof within its limits is written and read back (`toBytes_eq_ok`, `fromBytes_encode`):
the reader is followed field by field.  What is read is such a proof, and writing it gives the
bytes it was read from (`fromBytes_eq_ok`).
-/
import Pickaxe.Lib.Reader
import Pickaxe.Merge.Set

namespace Pickaxe.Merge

open Lib

/-- `proof::MAGIC`: "CTMP". -/
def proofMagic : Bytes := [0x43, 0x54, 0x4d, 0x50]

/-- `proof::VERSION`. -/
def proofVersion : UInt8 := 2

/-- The deepest coinbase branch in version 02: 2^25 transactions. -/
def maxCoinbaseBranch : ℕ := 25

/-- `u16::MAX`, the largest length of a coinbase part. -/
def maxPartLen : ℕ := 65535

/-- Why a proof is refused. -/
inductive ProofError where
  /-- The bytes are not a canonical v2 proof. -/
  | decode
  /-- The parts do not fit their length fields or limits. -/
  | shape
  /-- The aux tree is taller than the token allows. -/
  | height
  /-- The token's compact target is not a canonical one. -/
  | target
  /-- The coinbase does not start with the fixed-shape head. -/
  | coinbaseHead
  /-- The coinbase has no room for its locktime. -/
  | coinbaseTail
  /-- The coinbase does not reach the header's merkle root. -/
  | merkleRoot
  /-- The header's hash does not meet the token's target. -/
  | work
  /-- The job has no such entry, or the coinbase lacks its commitment. -/
  | notInJob
deriving DecidableEq

/-- `ProofError`'s `Display`. -/
def ProofError.display : ProofError → String
  | .decode => "not a canonical merge-mining proof"
  | .shape => "merge-mining proof parts exceed their limits"
  | .height => "merge-mining tree is taller than the token allows"
  | .target => "invalid token target"
  | .coinbaseHead => "merge-mining coinbase head is malformed"
  | .coinbaseTail => "merge-mining coinbase tail is too short"
  | .merkleRoot => "merge-mining coinbase does not reach the header"
  | .work => "header does not meet the token target"
  | .notInJob => "token win does not belong to this job"

/-- A proof of a token win. -/
@[ext] structure AuxProof where
  header : ByteVec 80
  height : UInt8
  salt : UInt32
  /-- The aux branch, leaf to root. -/
  auxBranch : List Hash
  /-- The coinbase up to output 0. -/
  cbHead : Bytes
  /-- Outputs 1.. and the locktime. -/
  cbTail : Bytes
  /-- The coinbase branch, the coinbase at index 0. -/
  cbBranch : List Hash
deriving DecidableEq

namespace AuxProof

/-- The rules every v2 proof keeps. -/
def Shape (p : AuxProof) : Prop :=
  p.height ≤ maxHeight ∧ p.auxBranch.length = p.height.toNat ∧
    p.cbBranch.length ≤ maxCoinbaseBranch ∧ p.cbHead.length ≤ maxPartLen ∧
    p.cbTail.length ≤ maxPartLen

instance (p : AuxProof) : Decidable p.Shape := inferInstanceAs (Decidable (_ ∧ _))

/-- `AuxProof::check_shape`. -/
def checkShape (p : AuxProof) : Except ProofError Unit :=
  if p.Shape then .ok () else .error .shape

lemma checkShape_eq_ok {p : AuxProof} : p.checkShape = .ok () ↔ p.Shape := by
  unfold checkShape
  split <;> simp_all

/-! ## The encoding -/

/-- A coinbase part after its length. -/
def partBytes (part : Bytes) : Bytes := u16Le (UInt16.ofNat part.length) ++ part

/-- A branch, hash after hash. -/
def branchBytes (branch : List Hash) : Bytes := branch.flatMap ByteVec.bytes

/-- The bytes of a proof. -/
def encode (p : AuxProof) : Bytes :=
  proofMagic ++ ([proofVersion] ++ (p.header.bytes ++ ([p.height] ++ (u32Le p.salt ++
    (branchBytes p.auxBranch ++ (partBytes p.cbHead ++ (partBytes p.cbTail ++
      ([UInt8.ofNat p.cbBranch.length] ++ branchBytes p.cbBranch))))))))

/-- `AuxProof::encoded_len`. -/
def encodedLen (p : AuxProof) : ℕ :=
  95 + 32 * p.auxBranch.length + p.cbHead.length + p.cbTail.length + 32 * p.cbBranch.length

lemma length_branchBytes (branch : List Hash) :
    (branchBytes branch).length = 32 * branch.length := by
  simp [branchBytes, List.length_flatMap, mul_comm]

lemma length_encode (p : AuxProof) : p.encode.length = p.encodedLen := by
  simp only [encode, encodedLen, partBytes, List.length_append, length_branchBytes, length_u16Le,
    length_u32Le, ByteVec.length_bytes, proofMagic, List.length_cons, List.length_nil]
  omega

/-- `AuxProof::to_bytes`. -/
def toBytes (p : AuxProof) : Except ProofError Bytes := do
  p.checkShape
  return p.encode

/-- A little-endian `u16` length and that many bytes. -/
def readPart : Reader ProofError Bytes := do
  let length ← Reader.array .decode 2
  Reader.take .decode (u16OfLe length.bytes).toNat

/-- `count` hashes. -/
def readHashes (count : ℕ) : Reader ProofError (List Hash) :=
  Reader.times (Reader.array .decode 32) count

/-- The reader of `AuxProof::from_bytes`, up to the end of the bytes. -/
def read : Reader ProofError AuxProof := do
  let magic ← Reader.take .decode 4
  Reader.guard (magic = proofMagic) .decode
  let version ← Reader.byte .decode
  Reader.guard (version = proofVersion) .decode
  let header ← Reader.array .decode 80
  let height ← Reader.byte .decode
  Reader.guard (height ≤ maxHeight) .decode
  let salt ← Reader.array .decode 4
  let auxBranch ← readHashes height.toNat
  let cbHead ← readPart
  let cbTail ← readPart
  let depth ← Reader.byte .decode
  Reader.guard (depth.toNat ≤ maxCoinbaseBranch) .decode
  let cbBranch ← readHashes depth.toNat
  return ⟨header, height, u32OfLe salt.bytes, auxBranch, cbHead, cbTail, cbBranch⟩

/-- `AuxProof::from_bytes`: exactly one canonical v2 proof. -/
def fromBytes (bytes : Bytes) : Except ProofError AuxProof := do
  let (proof, rest) ← read bytes
  if rest ≠ [] then .error .decode else .ok proof

lemma reads_readPart {part : Bytes} (h : part.length ≤ maxPartLen) :
    Reader.Reads readPart part (partBytes part) := by
  have hlen : (u16Le (UInt16.ofNat part.length)).length = 2 := length_u16Le _
  have hnat : (u16OfLe (u16Le (UInt16.ofNat part.length))).toNat = part.length := by
    rw [u16OfLe_u16Le, UInt16.toNat_ofNat_of_lt' (lt_of_le_of_lt h (by decide))]
  refine (Reader.reads_array (⟨_, hlen⟩ : ByteVec 2)).bind ?_
  exact Reader.reads_take hnat.symm

lemma reads_readHashes (branch : List Hash) :
    Reader.Reads (readHashes branch.length) branch (branchBytes branch) :=
  Reader.reads_times fun a _ => Reader.reads_array a

/-- The reader reads what a well-shaped proof is written as. -/
lemma reads_read {p : AuxProof} (h : p.Shape) : Reader.Reads read p p.encode := by
  obtain ⟨hheight, haux, hbranch, hhead, htail⟩ := h
  have hsalt : Reader.Reads (Reader.array ProofError.decode 4) ⟨u32Le p.salt, length_u32Le _⟩
      (u32Le p.salt) := Reader.reads_array (⟨u32Le p.salt, length_u32Le _⟩ : ByteVec 4)
  have hdepth : (UInt8.ofNat p.cbBranch.length).toNat = p.cbBranch.length :=
    UInt8.toNat_ofNat_of_lt' (lt_of_le_of_lt hbranch (by decide))
  have hhashes : Reader.Reads (readHashes p.height.toNat) p.auxBranch (branchBytes p.auxBranch) := by
    rw [← haux]
    exact reads_readHashes p.auxBranch
  -- field by field, the checks in between read nothing
  unfold read encode
  refine Reader.Reads.bind (Reader.reads_take rfl) ?_
  refine Reader.Reads.guard_bind rfl ?_
  refine Reader.Reads.bind (Reader.reads_byte proofVersion) ?_
  refine Reader.Reads.guard_bind rfl ?_
  refine Reader.Reads.bind (Reader.reads_array p.header) ?_
  refine Reader.Reads.bind (Reader.reads_byte p.height) ?_
  refine Reader.Reads.guard_bind hheight ?_
  refine Reader.Reads.bind hsalt ?_
  refine Reader.Reads.bind hhashes ?_
  refine Reader.Reads.bind (reads_readPart hhead) ?_
  refine Reader.Reads.bind (reads_readPart htail) ?_
  refine Reader.Reads.bind (Reader.reads_byte _) ?_
  refine Reader.Reads.guard_bind (by rwa [hdepth]) ?_
  rw [← List.append_nil (branchBytes p.cbBranch)]
  refine Reader.Reads.bind (a := p.cbBranch) ?_ ?_
  · rw [hdepth]
    exact reads_readHashes p.cbBranch
  · simp only [u32OfLe_u32Le]
    exact Reader.reads_pure p

/-- Every proof that can be written is read back. -/
lemma fromBytes_encode {p : AuxProof} (h : p.Shape) : fromBytes p.encode = .ok p := by
  rw [fromBytes, (reads_read h).run]
  rfl

lemma toBytes_eq_ok {p : AuxProof} (h : p.Shape) : p.toBytes = .ok p.encode := by
  rw [toBytes, checkShape_eq_ok.mpr h]
  rfl

/-! ### What is accepted -/

lemma readPart_eq_ok {s part rest : Bytes} (h : readPart s = .ok (part, rest)) :
    part.length ≤ maxPartLen ∧ s = partBytes part ++ rest := by
  obtain ⟨length, t, hlength, h⟩ := Reader.bind_eq_ok h
  obtain ⟨rfl, hpart⟩ := Reader.take_eq_ok h
  have hof : UInt16.ofNat part.length = u16OfLe length.bytes := by
    rw [hpart, UInt16.ofNat_toNat]
  have hlt := (u16OfLe length.bytes).toNat_lt
  refine ⟨by unfold maxPartLen; omega, ?_⟩
  rw [Reader.array_eq_ok hlength, partBytes, hof, u16Le_u16OfLe length.length_eq,
    List.append_assoc]

lemma readHashes_eq_ok {count : ℕ} {s rest : Bytes} {branch : List Hash}
    (h : readHashes count s = .ok (branch, rest)) :
    branch.length = count ∧ s = branchBytes branch ++ rest :=
  Reader.inverts_array.times h

/-- What the reader accepts is a proof within its limits, as it is written. -/
lemma read_eq_ok {s rest : Bytes} {p : AuxProof} (h : read s = .ok (p, rest)) :
    p.Shape ∧ s = p.encode ++ rest := by
  obtain ⟨magic, s1, hmagic, h⟩ := Reader.bind_eq_ok h
  obtain ⟨_, _, hguard, h⟩ := Reader.bind_eq_ok h
  obtain ⟨rfl, hs⟩ := Reader.guard_eq_ok hguard
  cases hs
  obtain ⟨version, s2, hversion, h⟩ := Reader.bind_eq_ok h
  obtain ⟨_, _, hguard, h⟩ := Reader.bind_eq_ok h
  obtain ⟨rfl, hs⟩ := Reader.guard_eq_ok hguard
  cases hs
  obtain ⟨header, s3, hheader, h⟩ := Reader.bind_eq_ok h
  obtain ⟨height, s4, hheight, h⟩ := Reader.bind_eq_ok h
  obtain ⟨_, _, hguard, h⟩ := Reader.bind_eq_ok h
  obtain ⟨hmax, hs⟩ := Reader.guard_eq_ok hguard
  cases hs
  obtain ⟨salt, s5, hsalt, h⟩ := Reader.bind_eq_ok h
  obtain ⟨auxBranch, s6, haux, h⟩ := Reader.bind_eq_ok h
  obtain ⟨cbHead, s7, hhead, h⟩ := Reader.bind_eq_ok h
  obtain ⟨cbTail, s8, htail, h⟩ := Reader.bind_eq_ok h
  obtain ⟨depth, s9, hdepth, h⟩ := Reader.bind_eq_ok h
  obtain ⟨_, _, hguard, h⟩ := Reader.bind_eq_ok h
  obtain ⟨hdeep, hs⟩ := Reader.guard_eq_ok hguard
  cases hs
  obtain ⟨cbBranch, s10, hbranch, h⟩ := Reader.bind_eq_ok h
  cases Reader.pure_eq_ok h
  obtain ⟨hlenAux, rfl⟩ := readHashes_eq_ok haux
  obtain ⟨hlenHead, rfl⟩ := readPart_eq_ok hhead
  obtain ⟨hlenTail, rfl⟩ := readPart_eq_ok htail
  obtain ⟨hlenBranch, rfl⟩ := readHashes_eq_ok hbranch
  refine ⟨⟨hmax, hlenAux, hlenBranch.trans_le hdeep, hlenHead, hlenTail⟩, ?_⟩
  -- every part stands where it was read
  rw [(Reader.take_eq_ok hmagic).1, Reader.byte_eq_ok hversion, Reader.array_eq_ok hheader,
    Reader.byte_eq_ok hheight, Reader.array_eq_ok hsalt, Reader.byte_eq_ok hdepth]
  have hdepth' : UInt8.ofNat cbBranch.length = depth := by
    rw [hlenBranch, UInt8.ofNat_toNat]
  simp only [encode, u32Le_u32OfLe salt.length_eq, hdepth', List.append_assoc, List.cons_append,
    List.nil_append]

/-- What is accepted is within its limits, and writing it gives the same bytes. -/
lemma fromBytes_eq_ok {bytes : Bytes} {p : AuxProof} (h : fromBytes bytes = .ok p) :
    p.Shape ∧ bytes = p.encode := by
  obtain ⟨⟨q, rest⟩, hread, h⟩ := Except.bind_eq_ok.mp h
  dsimp only at h
  split at h
  · cases h
  · rename_i hrest
    cases h
    obtain ⟨hshape, hbytes⟩ := read_eq_ok hread
    exact ⟨hshape, by rw [hbytes, not_not.mp hrest, List.append_nil]⟩

/-- Proofs and accepted byte strings stand for each other: a proof that passes its checks is read
back from its bytes, and what is read from bytes is written as those bytes. -/
theorem proof_codec :
    (∀ p : AuxProof, p.checkShape = .ok () → ∃ bytes, p.toBytes = .ok bytes ∧
      fromBytes bytes = .ok p) ∧
    ∀ (bytes : Bytes) (p : AuxProof), fromBytes bytes = .ok p → p.toBytes = .ok bytes := by
  refine ⟨fun p h => ?_, fun bytes p h => ?_⟩
  · have hshape := checkShape_eq_ok.mp h
    exact ⟨p.encode, toBytes_eq_ok hshape, fromBytes_encode hshape⟩
  · obtain ⟨hshape, rfl⟩ := fromBytes_eq_ok h
    exact toBytes_eq_ok hshape

theorem proof_codec_sample :
    let p : AuxProof := ⟨ByteVec.zero 80, 1, 7, [ByteVec.zero 32], [1, 2], [3], []⟩
    ∃ bytes, p.toBytes = .ok bytes ∧ fromBytes bytes = .ok p ∧ bytes.length = 95 + 32 + 2 + 1 := by
  intro p
  obtain ⟨bytes, hbytes, hp⟩ := proof_codec.1 p rfl
  refine ⟨bytes, hbytes, hp, ?_⟩
  cases hbytes
  rfl

/-! ## Assembling a proof -/

/-- `assemble`: the proof of entry `entry` of `job` from the share's coinbase, its merkle
branch at index 0 and its header. -/
def assemble (job : AuxJob) (entry : UInt16) (coinbase : Bytes) (branch : List Hash)
    (header : ByteVec 80) : Except ProofError AuxProof :=
  match job.entries[entry.toNat]? with
  | none => .error .notInJob
  | some item =>
    match coinbase[41]? with
    | none => .error .coinbaseHead
    | some length =>
      let head := 47 + length.toNat
      if slice? coinbase head (head + outputLen) ≠ some job.output.bytes then .error .notInJob
      else do
        let proof : AuxProof :=
          { header := header
            height := job.commitment.height
            salt := job.commitment.salt
            auxBranch := job.tree.branch item.slot
            cbHead := coinbase.take head
            cbTail := coinbase.drop (head + outputLen)
            cbBranch := branch }
        proof.checkShape
        return proof

end AuxProof

end Pickaxe.Merge
