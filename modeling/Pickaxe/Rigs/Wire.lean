/-
# Jobs and winners between a coordinator and its rigs

A rig gets its jobs as JSON, with large numbers as texts, and sends its winners back the same way.
What a job or a winner is written as is read back as it was; a winner stands on its own before it
is believed (`verifyRigWinner`).
-/
import Pickaxe.Lib.Json
import Pickaxe.Photon.Verified

namespace Pickaxe.Rigs

open Lib Photon Engine.Meets
open Electric (Schnorr)

/-! ## Jobs and winners -/

/-- `MiningJob`; its two large numbers are `u128`s. -/
structure MiningJob where
  network : MiningNetwork
  height : ℕ
  batonTxid : List Char
  batonVout : ℕ
  batonHeight : ℕ
  batonValueSats : ℕ
  relayFeeSatsPerKb : ℕ
  age : ℕ
  targetLeHex : List Char
  tokenAmount : ℕ
  rewardRaw : ℕ
  payoutAddress : List Char
  sourceIdentity : List Char
  generationId : ℕ
  tokenAmount_lt : tokenAmount < 2 ^ 128
  rewardRaw_lt : rewardRaw < 2 ^ 128
deriving DecidableEq

/-- `WireJob`. -/
structure WireJob where
  network : String
  height : ℕ
  batonTxid : List Char
  batonVout : ℕ
  batonHeight : ℕ
  batonValueSats : ℕ
  relayFeeSatsPerKb : ℕ
  age : ℕ
  targetLeHex : List Char
  tokenAmount : List Char
  rewardRaw : List Char
  payoutAddress : List Char
  sourceIdentity : List Char
  generationId : ℕ
  donation : Option ℕ
deriving DecidableEq

/-- `WireWinner`. -/
structure WireWinner where
  generationId : ℕ
  height : ℕ
  batonTxid : List Char
  batonVout : ℕ
  jobRewardRaw : List Char
  nonce : ℕ
  digest : List Char
  publicKey : List Char
  signature : List Char
  transaction : List Char
deriving DecidableEq

/-- `WireJob::from`. -/
def WireJob.ofJob (job : MiningJob) : WireJob where
  network := job.network.asStr
  height := job.height
  batonTxid := job.batonTxid
  batonVout := job.batonVout
  batonHeight := job.batonHeight
  batonValueSats := job.batonValueSats
  relayFeeSatsPerKb := job.relayFeeSatsPerKb
  age := job.age
  targetLeHex := job.targetLeHex
  tokenAmount := Nat.toDigits 10 job.tokenAmount
  rewardRaw := Nat.toDigits 10 job.rewardRaw
  payoutAddress := job.payoutAddress
  sourceIdentity := job.sourceIdentity
  generationId := job.generationId
  donation := none

/-- `parse::<u128>`, with what is said of a text that is no such number. -/
def parseAmount (fault : String) (text : List Char) : Except String { n : ℕ // n < 2 ^ 128 } :=
  match h : parseUnsigned (2 ^ 128) text with
  | none => .error fault
  | some n => .ok ⟨n, lt_of_parseUnsigned h⟩

/-- `MiningNetwork::parse`. -/
def networkOf (value : String) : Except String MiningNetwork :=
  let text := Text.toAsciiLower (Text.trim value.toList)
  if text = "mainnet".toList then .ok .mainnet
  else if text = "chipnet".toList then .ok .chipnet
  else .error "network must be mainnet or chipnet"

/-- `MiningJob::try_from`. -/
def WireJob.toJob (wire : WireJob) : Except String MiningJob := do
  let network ← networkOf wire.network
  let tokenAmount ← parseAmount "rig job has an invalid token amount" wire.tokenAmount
  let rewardRaw ← parseAmount "rig job has an invalid reward" wire.rewardRaw
  return {
    network := network
    height := wire.height
    batonTxid := wire.batonTxid
    batonVout := wire.batonVout
    batonHeight := wire.batonHeight
    batonValueSats := wire.batonValueSats
    relayFeeSatsPerKb := wire.relayFeeSatsPerKb
    age := wire.age
    targetLeHex := wire.targetLeHex
    tokenAmount := tokenAmount.1
    rewardRaw := rewardRaw.1
    payoutAddress := wire.payoutAddress
    sourceIdentity := wire.sourceIdentity
    generationId := wire.generationId
    tokenAmount_lt := tokenAmount.2
    rewardRaw_lt := rewardRaw.2 }

/-- `WireWinner::from`. -/
def WireWinner.ofWinner (winner : CompleteWinner) : WireWinner where
  generationId := winner.generationId
  height := winner.height
  batonTxid := winner.batonTxid
  batonVout := winner.batonVout
  jobRewardRaw := Nat.toDigits 10 winner.jobRewardRaw
  nonce := winner.nonce
  digest := Text.hexEncode winner.digest
  publicKey := Text.hexEncode winner.publicKey.bytes
  signature := Text.hexEncode winner.signature.bytes
  transaction := Text.hexEncode winner.transaction

/-- `fixed_hex`. -/
def fixedHex (n : ℕ) (text : List Char) (what : String) : Except String (ByteVec n) :=
  match (Text.hexDecode text).bind (ByteVec.ofBytes? n) with
  | none => .error s!"rig winner has an invalid {what}"
  | some bytes => .ok bytes

/-- `VerifiedWinner::try_from`. -/
def WireWinner.toWinner (wire : WireWinner) : Except String CompleteWinner := do
  let jobRewardRaw ← parseAmount "rig winner has an invalid reward" wire.jobRewardRaw
  let digest ← fixedHex 32 wire.digest "digest"
  let publicKey ← fixedHex 33 wire.publicKey "public key"
  let signature ← fixedHex 64 wire.signature "signature"
  match Text.hexDecode wire.transaction with
  | none => .error "rig winner has an invalid transaction"
  | some transaction => return {
      generationId := wire.generationId
      height := wire.height
      batonTxid := wire.batonTxid
      batonVout := wire.batonVout
      digest := digest.bytes
      transaction := transaction
      payout := none
      jobRewardRaw := jobRewardRaw.1
      nonce := wire.nonce
      publicKey := publicKey
      signature := signature }

/-! ### Reading back -/

lemma parseAmount_toDigits {fault : String} {n : ℕ} (h : n < 2 ^ 128) :
    parseAmount fault (Nat.toDigits 10 n) = .ok ⟨n, h⟩ := by
  have hparse := parseUnsigned_toDigits h
  rw [parseAmount]
  split
  · rename_i hnone
    cases hnone.symm.trans hparse
  · rename_i m hsome
    obtain rfl := Option.some.inj (hsome.symm.trans hparse)
    rfl

lemma networkOf_asStr (network : MiningNetwork) : networkOf network.asStr = .ok network := by
  cases network <;> decide +kernel

lemma fixedHex_hexEncode {n : ℕ} (bytes : ByteVec n) (what : String) :
    fixedHex n (Text.hexEncode bytes.bytes) what = .ok bytes := by
  rw [fixedHex, Text.hexDecode_hexEncode, Option.bind_some, ByteVec.ofBytes?_bytes]

/-- A job is read back as it was. -/
lemma toJob_ofJob (job : MiningJob) : (WireJob.ofJob job).toJob = .ok job :=
  Except.bind_eq_ok.mpr ⟨_, networkOf_asStr job.network, Except.bind_eq_ok.mpr
    ⟨_, parseAmount_toDigits job.tokenAmount_lt, Except.bind_eq_ok.mpr
      ⟨_, parseAmount_toDigits job.rewardRaw_lt, rfl⟩⟩⟩

/-- A winner is read back as it was, but for its payout. -/
lemma toWinner_ofWinner {winner : CompleteWinner} (hreward : winner.jobRewardRaw < 2 ^ 128)
    (hdigest : winner.digest.length = 32) :
    (WireWinner.ofWinner winner).toWinner = .ok { winner with payout := none } := by
  refine Except.bind_eq_ok.mpr ⟨_, parseAmount_toDigits hreward, Except.bind_eq_ok.mpr
    ⟨_, fixedHex_hexEncode ⟨winner.digest, hdigest⟩ _, Except.bind_eq_ok.mpr
      ⟨_, fixedHex_hexEncode winner.publicKey _, Except.bind_eq_ok.mpr
        ⟨_, fixedHex_hexEncode winner.signature _, ?_⟩⟩⟩⟩
  simp only [WireWinner.ofWinner, Text.hexDecode_hexEncode]
  rfl

lemma hexDecode_digest {wire : WireWinner} {winner : CompleteWinner}
    (h : wire.toWinner = .ok winner) : Text.hexDecode wire.digest = some winner.digest := by
  obtain ⟨_, -, h⟩ := Except.bind_eq_ok.mp h
  obtain ⟨digest, hdigest, h⟩ := Except.bind_eq_ok.mp h
  obtain ⟨_, -, h⟩ := Except.bind_eq_ok.mp h
  obtain ⟨_, -, h⟩ := Except.bind_eq_ok.mp h
  split at h
  · cases h
  · cases h
    rw [fixedHex] at hdigest
    split at hdigest
    · cases hdigest
    · rename_i hbytes
      cases hdigest
      obtain ⟨bytes, hdecode, hbytes⟩ := Option.bind_eq_some_iff.mp hbytes
      rw [hdecode, ByteVec.ofBytes?_eq_some.mp hbytes]

/-! ## Verification -/

/-- `Ripemd160::digest`. -/
class Ripemd where
  ripemd160 : Bytes → ByteVec 20

/-- `validate_job`. -/
def validateJob [Hasher] (job : MiningJob) : Except String Hash :=
  if job.generationId = 0 then .error "mining job generation_id must be nonzero"
  else do
    let _ ← PhotonLayout.forAgeWithDeployment job.age (deployment job.network)
    requireCovenantHashPreimage job.tokenAmount job.rewardRaw
    if Text.trim job.payoutAddress = [] then .error "mining payout address is required"
    else do
      let target ← parseHex32 job.targetLeHex
      if (deployment job.network).proofRule = .positive ∧
          (at' target 31 &&& 0x80 ≠ 0 ∨ target.bytes.all (· = 0)) then
        .error "PHOTON target must be a positive ScriptNum"
      else .ok target

/-- `p2pkh_locking_from_public_key`. -/
def p2pkhLockingFromPublicKey [Hasher] [Ripemd] (publicKey : ByteVec 33) : Bytes :=
  [0x76, 0xa9, 0x14] ++ (Ripemd.ripemd160 (sha256 publicKey.bytes).bytes).bytes ++ [0x88, 0xac]

/-- `verify_rig_winner`. -/
def verifyRigWinner [Hasher] [Schnorr] [Ripemd] (winner : CompleteWinner) (job : MiningJob) :
    Except String Unit :=
  if winner.generationId ≠ job.generationId ∨ winner.height ≠ job.height ∨
      winner.batonTxid ≠ job.batonTxid ∨ winner.batonVout ≠ job.batonVout ∨
      winner.jobRewardRaw ≠ job.rewardRaw then
    .error "rig winner answers another job"
  else do
    let target ← validateJob job
    let message ← photonMessageSha256 winner.nonce job.targetLeHex
    if Schnorr.verify winner.publicKey.bytes message.bytes winner.signature.bytes = false then
      .error "rig winner failed BCH Schnorr verification"
    else if (doubleSha256 winner.transaction).bytes ≠ winner.digest then
      .error "rig winner digest does not match its transaction"
    -- here the digest is the transaction's
    else if meetsTargetLeForRule (doubleSha256 winner.transaction) target
        (deployment job.network).proofRule = false then
      .error "rig winner does not meet the PHOTON target"
    else do
      let locking ← Cashaddr.toP2pkhLocking job.payoutAddress
      if locking = p2pkhLockingFromPublicKey winner.publicKey then
        .error "rig search identity must be separate from the payout"
      else .ok ()

section Verification

variable [Hasher] [Schnorr] [Ripemd] {winner : CompleteWinner} {job : MiningJob}

/-- A winner that is believed is read back as it was. -/
lemma toWinner_of_verified (h : verifyRigWinner winner job = .ok ()) :
    (WireWinner.ofWinner winner).toWinner = .ok { winner with payout := none } := by
  obtain ⟨hanswers, h⟩ := Except.ite_error_eq_ok.mp h
  obtain ⟨_, -, h⟩ := Except.bind_eq_ok.mp h
  obtain ⟨_, -, h⟩ := Except.bind_eq_ok.mp h
  obtain ⟨-, h⟩ := Except.ite_error_eq_ok.mp h
  obtain ⟨hdigest, -⟩ := Except.ite_error_eq_ok.mp h
  have hreward : winner.jobRewardRaw = job.rewardRaw := by
    by_contra hne
    exact hanswers (.inr (.inr (.inr (.inr hne))))
  refine toWinner_ofWinner (hreward.trans_lt job.rewardRaw_lt) ?_
  rw [← not_not.mp hdigest, ByteVec.length_bytes]

/-- The payout is not part of what is verified. -/
lemma verifyRigWinner_payout (payout : Option (List Char)) :
    verifyRigWinner { winner with payout := payout } job = verifyRigWinner winner job := rfl

end Verification

end Pickaxe.Rigs
