/-
# Winners and the claims they make

A winner is a key, a nonce and a signature that were found for a job.  Its claim is rebuilt from the
job before it is journaled, for each payout the policy allows: the signature is checked, the parent
is serialised for the deployment, and its digest has to meet the target.  What is journaled is
therefore a parent that was built, with a digest below a positive target (`exists_claim`).
-/
import Pickaxe.Cashaddr
import Pickaxe.Donation.Schedule
import Pickaxe.Electric.Claim
import Pickaxe.Engine.Meets
import Pickaxe.Photon.Layout
import Pickaxe.Photon.Submit

namespace Pickaxe.Photon

open Lib Engine.Meets
open Electric (Schnorr)

/-! ## `proof.rs` and `tx.rs` -/

/-- `parse_hex32`. -/
def parseHex32 (hex : List Char) : Except String Hash :=
  let h := Text.trim hex
  if h.length ≠ 64 ∨ h.all Text.isHexDigit = false then
    .error "target must be 64 hex chars (32 bytes)"
  else match (Text.hexDecode h).bind (ByteVec.ofBytes? 32) with
    | none => .error "invalid hex"
    | some bytes => .ok bytes

/-- `photon_message_sha256`. -/
def photonMessageSha256 [Hasher] (nonce : ℕ) (targetHex : List Char) : Except String Hash := do
  let target ← parseHex targetHex
  if target.length ≠ 32 then .error "PHOTON target must be 32 bytes"
  else .ok (sha256 (leBytes 4 nonce ++ target))

/-- `payout_value_sats`. -/
def payoutValueSats (tx : Bytes) : Except String ℕ := do
  let layout ← PhotonLayout.forTxLen tx.length
  let sats := amountAt tx (534 + layout.shift)
  if 1500 < tx.length then .error "PHOTON transaction exceeds its 1500-satoshi output budget"
  else if sats < 675 ∨ 1500 - tx.length < sats then
    .error s!"PHOTON payout BCH value {sats} is outside relay bounds"
  else if 2 ^ 16 ≤ sats then .error "PHOTON payout BCH value exceeds u16"
  else .ok sats

/-- `ReferenceJobContext`. -/
structure ReferenceJobContext where
  prevTxid : List Char
  prevVout : ℕ
  age : ℕ
  targetLeHex : List Char
  contractValueSats : ℕ
  relayFeeSatsPerKb : ℕ
  contractTokenAmount : ℕ
  rewardRaw : ℕ

/-- The parameters of the parent of a job, for what was found for it. -/
def ReferenceJobContext.params (job : ReferenceJobContext) (publicKeyHex signatureHex : List Char)
    (nonce : ℕ) (payout : Bytes) : TemplateParams where
  prevTxHashHex := job.prevTxid
  prevIndex := job.prevVout
  age := job.age
  publicKeyHex := publicKeyHex
  targetHex := job.targetLeHex
  signatureHex := signatureHex
  nonce := nonce
  contractValueSats := job.contractValueSats
  relayFeeSatsPerKb := job.relayFeeSatsPerKb
  contractTokenAmount := job.contractTokenAmount
  rewardAmount := job.rewardRaw
  payoutLocking := payout

/-- The deployment of a network, with its script hash. -/
def deployment : MiningNetwork → Deployment
  | .mainnet => .mainnet
  | .chipnet => .chipnet

lemma deployment_toPhotonDeployment (network : MiningNetwork) :
    (deployment network).toPhotonDeployment = photonDeployment network := by
  cases network <;> rfl

section Verified

variable [Hasher] [Schnorr]

/-- `apply_reference_signature_for_deployment`.  A key or a signature that cannot be read fails its
verification here. -/
def applyReferenceSignatureForDeployment (job : ReferenceJobContext)
    (minerPayout publicKeyHex : List Char) (nonce : ℕ) (signatureHex : List Char) (d : Deployment) :
    Except String Bytes := do
  let sig ← parseHex signatureHex
  if sig.length ≠ 64 then .error "signature must be 64 bytes"
  else do
    let publicKey ← parseHex publicKeyHex
    if publicKey.length ≠ 33 then .error "compressed public key must be 33 bytes"
    else do
      let message ← photonMessageSha256 nonce job.targetLeHex
      if Schnorr.verify publicKey message.bytes sig = false then
        .error "BCH Schnorr signature does not match nonce/target/public key"
      else do
        let payout ← Cashaddr.toP2pkhLocking minerPayout
        let tx ← buildPhotonTemplateBytesForDeployment
          (job.params publicKeyHex signatureHex nonce payout) d
        let target ← parseHex32 job.targetLeHex
        let digest := doubleSha256 tx
        if meetsTargetLeForRule digest target d.proofRule = false then
          .error s!"candidate HASH256 {String.ofList (Text.hexEncode digest.bytes)} does not meet PHOTON target {String.ofList job.targetLeHex}"
        else .ok tx

/-! ## `runtime.rs` -/

/-- `VerifiedWinner`, with what the rebuilding of its claim needs. -/
structure CompleteWinner extends VerifiedWinner where
  jobRewardRaw : ℕ
  nonce : ℕ
  publicKey : ByteVec 33
  signature : ByteVec 64
deriving DecidableEq

/-- The job a winner's claim is rebuilt for. -/
def LiveJob.context (live : LiveJob) (reward : ℕ) : ReferenceJobContext where
  prevTxid := live.batonTxid
  prevVout := live.batonVout
  age := live.age
  targetLeHex := live.targetLeHex
  contractValueSats := live.batonValueSats
  relayFeeSatsPerKb := live.relayFeeSatsPerKb
  contractTokenAmount := live.tokenAmount
  rewardRaw := reward

/-- `validate_verified_parent_to`. -/
def validateVerifiedParentTo (winner : CompleteWinner) (live : LiveJob) (payout : List Char)
    (d : Deployment) : Except String Unit :=
  if winner.jobRewardRaw ≠ live.rewardRaw then
    .error "verified winner belongs to a different PHOTON reward job"
  else do
    let actualReward ← t2ParentRewardAmount winner.transaction live.tokenAmount live.rewardRaw
    let payoutSats ← payoutValueSats winner.transaction
    if payoutSats ≠ tokenOutputSats then
      .error s!"verified PHOTON parent BCH value must remain 700 sats (got {payoutSats})"
    else do
      let rebuilt ← applyReferenceSignatureForDeployment (live.context actualReward) payout
        (Text.hexEncode winner.publicKey.bytes) winner.nonce (Text.hexEncode winner.signature.bytes) d
      if rebuilt ≠ winner.transaction then
        .error "verified PHOTON parent bytes do not match current live job"
      else if (doubleSha256 rebuilt).bytes ≠ winner.digest then
        .error "verified PHOTON parent digest does not match reconstructed bytes"
      else .ok ()

/-- `SettlementState`, as far as the preparation of a claim checks it. -/
structure SettlementState where
  generationId : ℕ
  batonTxid : List Char
  batonVout : ℕ

/-- `SettlementState::ensure_current`. -/
def SettlementState.ensureCurrent (settlement : SettlementState) (generationId : ℕ)
    (live : LiveJob) : Except String Unit :=
  if settlement.generationId ≠ generationId ∨ settlement.batonTxid ≠ live.batonTxid ∨
      settlement.batonVout ≠ live.batonVout then
    .error "settlement state is stale for the current PHOTON generation"
  else .ok ()

/-- `require_direct_reward_policy`. -/
def requireDirectRewardPolicy (scheme : Donation.Scheme) : Except String Unit := do
  scheme.validate
  if scheme.rewardShares ≠ (0, 0) then
    .error "this PHOTON deployment supports work fees only; a reward-split adapter is required"
  else .ok ()

/-- `Policy`: its scheme, and what `Policy::payouts` gives for the winner's miner. -/
structure Policy where
  scheme : Donation.Scheme
  payouts : Except String (Donation.PerRecipient (List Char))

/-- The recipient as a journal names it. -/
def Recipient.ofDonation : Donation.Recipient → Recipient
  | .miner => .miner
  | .project => .project
  | .collaborator => .collaborator

/-- Whether the loop of `prepare_submission_for_network` stops at a recipient: one that has no share
of the work is passed over. -/
def accepts (winner : CompleteWinner) (live : LiveJob) (scheme : Donation.Scheme)
    (payouts : Donation.PerRecipient (List Char)) (d : Deployment) (recipient : Donation.Recipient) :
    Bool :=
  (recipient == .miner || scheme.share.get recipient != 0) &&
    (validateVerifiedParentTo winner live (payouts.get recipient) d).toOption.isSome

/-- The checks of `prepare_submission_for_network` behind the first: to whom a winner pays, and how
much. -/
def authorizedReward (winner : CompleteWinner) (generationId : ℕ) (live : LiveJob)
    (settlement : SettlementState) (policy : Policy) (d : Deployment) :
    Except String (Recipient × ℕ) := do
  settlement.ensureCurrent generationId live
  requireDirectRewardPolicy policy.scheme
  let payouts ← policy.payouts
  match [Donation.Recipient.miner, .project, .collaborator].find?
      (accepts winner live policy.scheme payouts d) with
  | none => .error "verified winner does not match an authorized payout and current job"
  | some recipient => do
    let amount ← t2ParentRewardAmount winner.transaction live.tokenAmount live.rewardRaw
    let split ← policy.scheme.splitReward (BitVec.ofNat 128 amount) recipient
    if (split.get recipient).toNat ≠ amount then .error "direct reward cannot split outputs"
    else .ok (.ofDonation recipient, amount)

/-! ## What a journaled claim is -/

omit [Hasher] [Schnorr] in
lemma parseHex32_eq_ok {hex : List Char} {target : Hash} (h : parseHex32 hex = .ok target) :
    parseHex hex = .ok target.bytes := by
  rw [parseHex32, Except.ite_error_eq_ok] at h
  obtain ⟨-, h⟩ := h
  rw [parseHex_eq_ok]
  cases hbytes : Text.hexDecode (Text.trim hex) with
  | none =>
    rw [hbytes] at h
    cases h
  | some bytes =>
    rw [hbytes, Option.bind_some] at h
    cases hvec : ByteVec.ofBytes? 32 bytes with
    | none =>
      rw [hvec] at h
      cases h
    | some v =>
      rw [hvec] at h
      obtain rfl := Except.ok.inj h
      rw [ByteVec.ofBytes?_eq_some.mp hvec]

/-- What was seen to for a winner that is journaled. -/
structure Claim (winner : CompleteWinner) (live : LiveJob) (d : Deployment) where
  params : TemplateParams
  target : Hash
  built : buildPhotonTemplateBytesForDeployment params d = .ok winner.transaction
  target_eq : parseHex params.targetHex = .ok target.bytes
  meets : meetsTargetLeForRule (doubleSha256 winner.transaction) target d.proofRule = true
  value_eq : params.contractValueSats = live.batonValueSats
  remaining : 2 ^ 32 - 1 < params.contractTokenAmount - params.rewardAmount

lemma claim_of_validate {winner : CompleteWinner} {live : LiveJob} {payout : List Char}
    {d : Deployment} (h : validateVerifiedParentTo winner live payout d = .ok ()) :
    Nonempty (Claim winner live d) := by
  obtain ⟨-, h⟩ := Except.ite_error_eq_ok.mp h
  obtain ⟨reward, hreward, h⟩ := Except.bind_eq_ok.mp h
  obtain ⟨_, -, h⟩ := Except.bind_eq_ok.mp h
  obtain ⟨-, h⟩ := Except.ite_error_eq_ok.mp h
  obtain ⟨rebuilt, hrebuilt, h⟩ := Except.bind_eq_ok.mp h
  obtain ⟨hsame, -⟩ := Except.ite_error_eq_ok.mp h
  obtain rfl := not_not.mp hsame
  -- the steps of the reconstruction
  obtain ⟨_, -, h⟩ := Except.bind_eq_ok.mp hrebuilt
  obtain ⟨-, h⟩ := Except.ite_error_eq_ok.mp h
  obtain ⟨_, -, h⟩ := Except.bind_eq_ok.mp h
  obtain ⟨-, h⟩ := Except.ite_error_eq_ok.mp h
  obtain ⟨_, -, h⟩ := Except.bind_eq_ok.mp h
  obtain ⟨-, h⟩ := Except.ite_error_eq_ok.mp h
  obtain ⟨_, -, h⟩ := Except.bind_eq_ok.mp h
  obtain ⟨tx, htx, h⟩ := Except.bind_eq_ok.mp h
  obtain ⟨target, htarget, h⟩ := Except.bind_eq_ok.mp h
  obtain ⟨hmeets, h⟩ := Except.ite_error_eq_ok.mp h
  obtain rfl := Except.ok.inj h
  obtain ⟨_, _, -, -, -, -, -, hmoved⟩ := t2ParentRewardAmount_eq_ok.mp hreward
  obtain ⟨-, -, -, -, hremaining⟩ := t2RewardAmount_eq_ok.mp hmoved
  exact ⟨{
    params := _, target := target, built := htx, target_eq := parseHex32_eq_ok htarget
    meets := eq_true_of_ne_false hmeets, value_eq := rfl, remaining := hremaining }⟩

/-- A winner to whom a reward is authorized makes a claim. -/
lemma exists_claim {winner : CompleteWinner} {generationId : ℕ} {live : LiveJob}
    {settlement : SettlementState} {policy : Policy} {d : Deployment} {authorized : Recipient × ℕ}
    (h : authorizedReward winner generationId live settlement policy d = .ok authorized) :
    Nonempty (Claim winner live d) := by
  obtain ⟨_, -, h⟩ := Except.bind_eq_ok.mp h
  obtain ⟨_, -, h⟩ := Except.bind_eq_ok.mp h
  obtain ⟨payouts, -, h⟩ := Except.bind_eq_ok.mp h
  cases hfind : [Donation.Recipient.miner, .project, .collaborator].find?
      (accepts winner live policy.scheme payouts d) with
  | none =>
    rw [hfind] at h
    cases h
  | some recipient =>
    have haccepts := List.find?_some hfind
    rw [accepts, Bool.and_eq_true] at haccepts
    obtain ⟨⟨⟩, hvalid⟩ := Except.exists_eq_ok haccepts.2
    exact claim_of_validate hvalid

end Verified

/-! ## A sample -/

section Sample

/-- A public key, the generator of the curve. -/
def samplePublicKey : ByteVec 33 where
  bytes :=
    [0x02, 0x79, 0xbe, 0x66, 0x7e, 0xf9, 0xdc, 0xbb, 0xac, 0x55, 0xa0, 0x62, 0x95, 0xce, 0x87,
     0x0b, 0x07, 0x02, 0x9b, 0xfc, 0xdb, 0x2d, 0xce, 0x28, 0xd9, 0x59, 0xf2, 0x81, 0x5b, 0x16,
     0xf8, 0x17, 0x98]
  length_eq := rfl

/-- A signature of `sampleMessage` under `samplePublicKey`. -/
def sampleSignature : ByteVec 64 where
  bytes :=
    [0x69, 0xa8, 0x78, 0x2a, 0x03, 0x98, 0xae, 0xb3, 0x02, 0x88, 0xf8, 0xb7, 0x67, 0x23, 0xa6,
     0x05, 0x1d, 0x51, 0x7a, 0xb2, 0x53, 0x4f, 0xe9, 0xd3, 0xc8, 0xc7, 0x9f, 0xdf, 0x6b, 0x51,
     0x18, 0x46, 0x2d, 0x03, 0xe1, 0x9a, 0x7c, 0x1e, 0xd3, 0x72, 0x32, 0x44, 0x00, 0x61, 0x4b,
     0xcd, 0x8f, 0x08, 0x7b, 0x6b, 0xc3, 0x5a, 0xa6, 0x7d, 0x37, 0x31, 0xb3, 0xe6, 0x42, 0x1b,
     0x9a, 0x26, 0x1a, 0xa6]
  length_eq := rfl

/-- The message of the first nonce and `sampleTarget`. -/
def sampleMessage : Hash where
  bytes :=
    [0x91, 0x46, 0x8d, 0x78, 0x07, 0x5a, 0xfd, 0xbd, 0xc0, 0x05, 0xdd, 0x21, 0xa4, 0x99, 0xbd,
     0x5d, 0x92, 0xa2, 0xcc, 0x00, 0x90, 0x78, 0x47, 0xd9, 0x29, 0xb2, 0xee, 0x26, 0x71, 0x21,
     0xb3, 0x11]
  length_eq := rfl

/-- The greatest positive target. -/
def sampleTarget : Hash := ⟨List.replicate 31 0xff ++ [0x7f], rfl⟩

/-- Signatures, as far as the sample's. -/
@[reducible] def sampleSchnorr : Schnorr where
  Secret := Empty
  publicKey := nofun
  sign := nofun
  verify publicKey message sig :=
    publicKey == samplePublicKey.bytes && message == sampleMessage.bytes &&
      sig == sampleSignature.bytes

def sampleAddress : List Char := "bitcoincash:qqqqqqqqqqqqqqqqqqqqqqqqqqqqqqqqqqfnhks603".toList

/-- A job on the baton, one block after it was created. -/
def sampleJob : LiveJob where
  url := "sample"
  serverVersion := "1"
  height := 2
  tipHash := []
  batonTxid := List.replicate 64 'a'
  batonVout := 0
  batonHeight := 1
  batonValueSats := 10000
  relayFeeSatsPerKb := 1000
  commitmentHex := []
  tokenAmount := 420000 * (2 ^ 33 + 1)
  age := 1
  targetLeHex := Text.hexEncode sampleTarget.bytes
  rewardRaw := 2 ^ 33

/-- The parameters of the claim that is found for it. -/
def sampleClaim : TemplateParams :=
  (sampleJob.context (2 ^ 33)).params (Text.hexEncode samplePublicKey.bytes)
    (Text.hexEncode sampleSignature.bytes) 1
    ([0x76, 0xa9, 0x14] ++ List.replicate 20 0 ++ [0x88, 0xac])

def sampleWinnerOf [Hasher] (tx : Bytes) : CompleteWinner where
  generationId := 1
  height := 2
  batonTxid := sampleJob.batonTxid
  batonVout := 0
  digest := (doubleSha256 tx).bytes
  transaction := tx
  payout := none
  jobRewardRaw := 2 ^ 33
  nonce := 1
  publicKey := samplePublicKey
  signature := sampleSignature

def sampleNetwork : RuntimeConfig := ⟨.mainnet, none, [], .fulcrum⟩

/-- What is seen to when the claim is journaled. -/
def sampleChecks [Hasher] (tx : Bytes) : Bool :=
  decide (t2ParentRewardAmount tx sampleJob.tokenAmount sampleJob.rewardRaw = .ok (2 ^ 33)) &&
    decide (payoutValueSats tx = .ok tokenOutputSats) &&
    meetsTargetLeForRule (doubleSha256 tx) sampleTarget .positive &&
    (PendingSubmission.fromDirect (sampleWinnerOf tx).toVerifiedWinner sampleNetwork .miner
      (2 ^ 33)).toOption.isSome

lemma sampleMessage_eq :
    let _ : Hasher := Hasher.fips
    sha256 (leBytes 4 1 ++ sampleTarget.bytes) = sampleMessage := by
  rw [Hasher.fips_eq]
  decide +kernel

/-- The claim is rebuilt for the winner as it was built. -/
lemma sample_validated [Hasher] {tx : Bytes}
    (hbuilt : buildPhotonTemplateBytesForDeployment sampleClaim .mainnet = .ok tx)
    (hchecks : sampleChecks tx = true) (hmessage : sha256 (leBytes 4 1 ++ sampleTarget.bytes) =
      sampleMessage) :
    let _ : Schnorr := sampleSchnorr
    validateVerifiedParentTo (sampleWinnerOf tx) sampleJob sampleAddress .mainnet = .ok () := by
  intro _
  simp only [sampleChecks, Bool.and_eq_true, decide_eq_true_eq] at hchecks
  obtain ⟨⟨⟨hreward, hpaid⟩, hmeets⟩, -⟩ := hchecks
  have hread : ∀ bytes : Bytes, parseHex (Text.hexEncode bytes) = .ok bytes := fun bytes => by
    rw [parseHex_eq_ok, Text.trim_hexEncode, Text.hexDecode_hexEncode]
  have htarget : parseHex32 (Text.hexEncode sampleTarget.bytes) = .ok sampleTarget := by
    decide +kernel
  have hpays : Cashaddr.toP2pkhLocking sampleAddress =
      .ok ([0x76, 0xa9, 0x14] ++ List.replicate 20 0 ++ [0x88, 0xac]) := by
    decide +kernel
  have hverified : sampleSchnorr.verify samplePublicKey.bytes sampleMessage.bytes
      sampleSignature.bytes = true := by
    decide
  have happlied : applyReferenceSignatureForDeployment (sampleJob.context (2 ^ 33)) sampleAddress
      (Text.hexEncode samplePublicKey.bytes) 1 (Text.hexEncode sampleSignature.bytes) .mainnet =
      .ok tx := by
    refine Except.bind_eq_ok.mpr ⟨_, hread _, Except.ite_error_eq_ok.mpr ⟨by decide, ?_⟩⟩
    refine Except.bind_eq_ok.mpr ⟨_, hread _, Except.ite_error_eq_ok.mpr ⟨by decide, ?_⟩⟩
    refine Except.bind_eq_ok.mpr ⟨sampleMessage, ?_, Except.ite_error_eq_ok.mpr ⟨?_, ?_⟩⟩
    · refine Except.bind_eq_ok.mpr ⟨_, hread _, Except.ite_error_eq_ok.mpr ⟨by decide, ?_⟩⟩
      rw [hmessage]
    · rw [hverified]
      exact nofun
    refine Except.bind_eq_ok.mpr ⟨_, hpays, Except.bind_eq_ok.mpr ⟨tx, hbuilt, ?_⟩⟩
    refine Except.bind_eq_ok.mpr ⟨_, htarget, Except.ite_error_eq_ok.mpr ⟨?_, rfl⟩⟩
    exact fun hfalse => nomatch hmeets.symm.trans hfalse
  refine Except.ite_error_eq_ok.mpr ⟨fun h => h rfl, Except.bind_eq_ok.mpr ⟨_, hreward, ?_⟩⟩
  refine Except.bind_eq_ok.mpr ⟨_, hpaid, Except.ite_error_eq_ok.mpr ⟨fun h => h rfl, ?_⟩⟩
  refine Except.bind_eq_ok.mpr ⟨tx, happlied, Except.ite_error_eq_ok.mpr ⟨fun h => h rfl, ?_⟩⟩
  exact Except.ite_error_eq_ok.mpr ⟨fun h => h rfl, rfl⟩

/-- The sample's policy: the miner's turn of the work, and one address for all. -/
def samplePolicy : Policy := ⟨.work (200, 200), .ok ⟨sampleAddress, sampleAddress, sampleAddress⟩⟩

/-- The settlement of the sample's generation. -/
def sampleSettlement : SettlementState := ⟨1, sampleJob.batonTxid, 0⟩

/-- The reward of the sample's winner is authorized to the miner. -/
lemma sample_authorized [Hasher] {tx : Bytes}
    (hbuilt : buildPhotonTemplateBytesForDeployment sampleClaim .mainnet = .ok tx)
    (hchecks : sampleChecks tx = true) (hmessage : sha256 (leBytes 4 1 ++ sampleTarget.bytes) =
      sampleMessage) :
    let _ : Schnorr := sampleSchnorr
    authorizedReward (sampleWinnerOf tx) 1 sampleJob sampleSettlement samplePolicy
      (deployment .mainnet) = .ok (.miner, 2 ^ 33) := by
  intro _
  have hvalid := sample_validated hbuilt hchecks hmessage
  have haccepts : accepts (sampleWinnerOf tx) sampleJob (.work (200, 200))
      ⟨sampleAddress, sampleAddress, sampleAddress⟩ (deployment .mainnet) .miner = true :=
    Bool.and_eq_true_iff.mpr ⟨rfl, congrArg (fun x => x.toOption.isSome) hvalid⟩
  simp only [sampleChecks, Bool.and_eq_true, decide_eq_true_eq] at hchecks
  refine Except.bind_eq_ok.mpr ⟨(), rfl, Except.bind_eq_ok.mpr ⟨(), rfl, ?_⟩⟩
  refine Except.bind_eq_ok.mpr ⟨_, rfl, ?_⟩
  rw [samplePolicy, List.find?_cons_of_pos haccepts]
  refine Except.bind_eq_ok.mpr ⟨_, hchecks.1.1.1, Except.bind_eq_ok.mpr ⟨_, rfl, ?_⟩⟩
  exact Except.ite_error_eq_ok.mpr ⟨fun h => h rfl, rfl⟩

end Sample

end Pickaxe.Photon
