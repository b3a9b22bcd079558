/-
# The bytes of a claim

How the parent of a claim is serialised for a deployment, where its layout says the searched fields
are, and how a reward moves tokens back to the baton within them.
-/
import Pickaxe.Lib.Checked
import Pickaxe.Photon.Deployment

namespace Pickaxe.Photon

open Lib

/-! ## Layouts -/

/-- The bytes of a number, the least significant first; four rounds take a `u32`. -/
def numberBytes : ℕ → ℕ → Bytes
  | 0, _ => []
  | fuel + 1, v => if v = 0 then [] else UInt8.ofNat v :: numberBytes fuel (v / 256)

/-- `encode_positive_script_number_push`, for a `u32`. -/
def encodePositiveScriptNumberPush (age : ℕ) : Except String Bytes :=
  if age = 0 then .ok [0x00]
  else if age ≤ 16 then .ok [UInt8.ofNat (0x50 + age)]
  else
    let digits := numberBytes 4 age
    let bytes := if 0x80 ≤ (digits.getLastD 0).toNat then digits ++ [0] else digits
    if 75 < bytes.length then .error "Age script number unexpectedly large."
    else .ok (UInt8.ofNat bytes.length :: bytes)

/-- `PhotonLayout`. -/
structure PhotonLayout where
  shift : ℕ
deriving DecidableEq

namespace PhotonLayout

/-- `GPU_SHIFTS`. -/
def gpuShifts : List ℕ := [0, 1, 2, 3, 14, 15, 16]

/-- `MAX_AGE`. -/
def maxAge : ℕ := 65534

def txBytes (layout : PhotonLayout) : ℕ := 615 + layout.shift
def nonceOffset (layout : PhotonLayout) : ℕ := 390 + layout.shift
def targetOffset (layout : PhotonLayout) : ℕ := 394 + layout.shift
def signatureOffset (layout : PhotonLayout) : ℕ := 426 + layout.shift

/-- `PhotonLayout::for_age`. -/
def forAge (age : ℕ) : Except String PhotonLayout :=
  if maxAge < age then
    .error s!"baton age {age} is outside the PHOTON covenant bound (age < 65535)"
  else (encodePositiveScriptNumberPush age).map fun push => ⟨push.length - 1⟩

/-- What `for_age_with_deployment` finds beyond the deployment's checks. -/
def shifted (age ageShift : ℕ) (d : Deployment) : Except String PhotonLayout :=
  let redeemLen := (Text.trim d.redeemScriptHex.toList).length / 2
  let baseLen := (Text.trim Deployment.mainnetV0.redeemScriptHex.toList).length / 2
  if redeemLen < baseLen then
    .error "PHOTON deployment redeem script is shorter than CUDA's base layout"
  else
    let shift := ageShift + (redeemLen - baseLen)
    if gpuShifts.contains shift = false then
      .error s!"PHOTON deployment at baton age {age} needs GPU layout shift {shift}; kernels exist for shifts {gpuShifts}"
    else .ok ⟨shift⟩

/-- `PhotonLayout::for_age_with_deployment`. -/
def forAgeWithDeployment [Hasher] (age : ℕ) (d : Deployment) : Except String PhotonLayout := do
  let ageLayout ← forAge age
  d.verify
  shifted age ageLayout.shift d

/-- `PhotonLayout::for_tx_len`. -/
def forTxLen (len : ℕ) : Except String PhotonLayout :=
  if len < 615 ∨ gpuShifts.contains (len - 615) = false then
    .error s!"PHOTON mining transaction is {len} bytes; GPU layouts are {gpuShifts.map (615 + ·)}"
  else .ok ⟨len - 615⟩

end PhotonLayout

/-! ## The parent -/

/-- `compact_token_amount`. -/
def compactTokenAmount (amount : ℕ) : Except String Bytes :=
  if 2 ^ 64 ≤ amount then .error "token amount exceeds u64 compact encoding used by reference"
  else .ok (compactUint amount)

/-- `parse_hex`. -/
def parseHex (text : List Char) : Except String Bytes := decodeHex "" (Text.trim text)

/-- `TemplateParams`. -/
structure TemplateParams where
  prevTxHashHex : List Char
  prevIndex : ℕ
  age : ℕ
  publicKeyHex : List Char
  targetHex : List Char
  signatureHex : List Char
  nonce : ℕ
  contractValueSats : ℕ
  relayFeeSatsPerKb : ℕ
  contractTokenAmount : ℕ
  rewardAmount : ℕ
  payoutLocking : Bytes

/-- `MIN_RELAY_FEE_SATS_PER_KB`. -/
def minRelayFeeSatsPerKb : ℕ := 1000

/-- `required_relay_fee_sats`. -/
def requiredRelayFeeSats (serializedBytes relayFeeSatsPerKb : ℕ) : Except String ℕ :=
  if 2 ^ 64 ≤ serializedBytes * relayFeeSatsPerKb ∨
      2 ^ 64 ≤ serializedBytes * relayFeeSatsPerKb + 999 then .error "relay-fee calculation overflow"
  else .ok ((serializedBytes * relayFeeSatsPerKb + 999) / 1000)

/-- What a claim takes from the baton: the retired contract's whole allowance, or what the reward
output and the fee need. -/
def batonDecreaseSats (p : TemplateParams) (d : Deployment) (layout : PhotonLayout)
    (maxDecrease : ℕ) : Except String ℕ :=
  if d.redeemScriptHex = Deployment.mainnetV0.redeemScriptHex then .ok maxDecrease
  else do
    let fee ← requiredRelayFeeSats layout.txBytes (max p.relayFeeSatsPerKb minRelayFeeSatsPerKb)
    match checkedAdd tokenOutputSats fee with
    | none => .error "PHOTON parent fee overflow"
    | some decrease => .ok decrease

/-- The unlocking bytecode of the baton: a key, its age and the redeem script. -/
def inputScript (publicKey agePush redeemScript : Bytes) : Bytes :=
  [0x21] ++ publicKey ++ agePush ++ [0x4d, UInt8.ofNat redeemScript.length,
    UInt8.ofNat (redeemScript.length / 256)] ++ redeemScript

/-- The commitment of the next baton. -/
def commitmentOf (nonce : ℕ) (target signature : Bytes) : Bytes :=
  leBytes 4 nonce ++ target ++ signature

/-- The tokens and the locking bytecode of the next baton. -/
def batonOutput (category commitment amount covenantLock : Bytes) : Bytes :=
  [0xef] ++ category.reverse ++ [0x71] ++ compactUint commitment.length ++ commitment ++ amount ++
    covenantLock

/-- The tokens and the locking bytecode of the reward. -/
def rewardOutput (category amount payoutLocking : Bytes) : Bytes :=
  [0xef] ++ category.reverse ++ [0x10] ++ amount ++ payoutLocking

/-- A parent of its parts. -/
def serializeParent (prev : Bytes) (prevIndex age batonSats : ℕ) (script output0 output1 : Bytes) :
    Bytes :=
  leBytes 4 2 ++ [1] ++ prev ++ leBytes 4 prevIndex ++ compactUint script.length ++ script ++
    leBytes 4 age ++ [2] ++ leBytes 8 batonSats ++ compactUint output0.length ++ output0 ++
    leBytes 8 tokenOutputSats ++ compactUint output1.length ++ output1 ++ leBytes 4 0

/-- `build_photon_template_bytes_for_deployment` behind the decoding of its texts and the checks of
their lengths. -/
def buildParts [Hasher] (p : TemplateParams) (d : Deployment) (layout : PhotonLayout)
    (publicKey target signature redeemScript category covenantLock : Bytes) : Except String Bytes := do
  let agePush ← encodePositiveScriptNumberPush p.age
  if 2 ^ 16 ≤ redeemScript.length then .error "PHOTON redeem script exceeds PUSHDATA2 length"
  else if p.contractTokenAmount < p.rewardAmount then .error "reward exceeds contract token amount"
  else do
    let remaining ← compactTokenAmount (p.contractTokenAmount - p.rewardAmount)
    let reward ← compactTokenAmount p.rewardAmount
    let prevHash ← parseHex p.prevTxHashHex
    if prevHash.length ≠ 32 then .error "prev tx hash must be 32 bytes"
    else do
      let maxDecrease ← d.singleInputMaxBatonDecreaseSats
      let decrease ← batonDecreaseSats p d layout maxDecrease
      if maxDecrease < decrease then .error "PHOTON parent relay fee exceeds covenant spend budget"
      else if p.contractValueSats < decrease then
        .error "contract value too small for PHOTON parent covenant budget"
      else
        let tx := serializeParent prevHash.reverse p.prevIndex p.age (p.contractValueSats - decrease)
          (inputScript publicKey agePush redeemScript)
          (batonOutput category (commitmentOf p.nonce target signature) remaining covenantLock)
          (rewardOutput category reward p.payoutLocking)
        if tx.length ≠ layout.txBytes then
          .error s!"PHOTON deployment serialized {tx.length} bytes; expected {layout.txBytes} at age {p.age}"
        else .ok tx

/-- `build_photon_template_bytes_for_deployment`. -/
def buildPhotonTemplateBytesForDeployment [Hasher] (p : TemplateParams) (d : Deployment) :
    Except String Bytes := do
  d.verify
  let layout ← PhotonLayout.forAgeWithDeployment p.age d
  let publicKey ← parseHex p.publicKeyHex
  let target ← parseHex p.targetHex
  let signature ← parseHex p.signatureHex
  let redeemScript ← parseHex (Text.trim d.redeemScriptHex.toList)
  let category ← parseHex d.categoryHex.toList
  let covenantLock ← parseHex d.covenantLockHex.toList
  if publicKey.length ≠ 33 then .error "Compressed public key must be 33 bytes."
  else if target.length ≠ 32 then .error "PHOTON target must be 32 bytes."
  else if signature.length ≠ 64 then .error "PHOTON commitment signature must be 64 bytes."
  else if p.payoutLocking.length ≠ 25 then
    .error "Payout locking bytecode must be P2PKH (25 bytes)."
  else buildParts p d layout publicKey target signature redeemScript category covenantLock

/-! ## Rewards -/

/-- `require_covenant_hash_preimage`. -/
def requireCovenantHashPreimage (contractTokenAmount rewardAmount : ℕ) : Except String Unit :=
  if contractTokenAmount < rewardAmount then .error "reward exceeds contract token amount"
  else
    let remaining := contractTokenAmount - rewardAmount
    if rewardAmount ≤ 2 ^ 32 - 1 ∨ remaining ≤ 2 ^ 32 - 1 then
      .error s!"PHOTON reward {rewardAmount} or remaining amount {remaining} is at or below 2^32-1; the covenant then hashes a different serialization than the transaction"
    else .ok ()

/-- `t2_reward_amount`. -/
def t2RewardAmount (contractTokenAmount rewardAmount j : ℕ) : Except String ℕ :=
  if rewardAmount < j then .error "T2 adjustment exceeds the reward"
  else (requireCovenantHashPreimage contractTokenAmount (rewardAmount - j)).map fun _ =>
    rewardAmount - j

/-- The amount at a place of a parent. -/
def amountAt (parent : Bytes) (offset : ℕ) : ℕ := fromLe (slice parent offset (offset + 8))

/-- `t2_parent_reward_amount`. -/
def t2ParentRewardAmount (parent : Bytes) (contractTokenAmount baseReward : ℕ) : Except String ℕ := do
  let layout ← PhotonLayout.forTxLen parent.length
  let shift := layout.shift
  if parent.getD (490 + shift) 0 ≠ 0xff ∨ parent.getD (577 + shift) 0 ≠ 0xff then
    .error "T2 parent token amount markers are not 8-byte CompactSize"
  else
    let baton := amountAt parent (491 + shift)
    let reward := amountAt parent (578 + shift)
    if baton + reward ≠ contractTokenAmount then
      .error "T2 parent does not conserve the job token supply"
    else if baseReward < reward then .error "T2 parent reward exceeds the job reward"
    else if 2 ^ 16 ≤ baseReward - reward then .error "T2 parent reward adjustment exceeds 65535"
    else do
      let moved ← t2RewardAmount contractTokenAmount baseReward (baseReward - reward)
      if moved ≠ reward then .error "T2 parent reward adjustment is invalid" else .ok reward

end Pickaxe.Photon
