/-
# Claims on a vault

A claim spends a thread's vault alone: it returns the vault with the next state, less the
reward, the fee and 800 satoshis for each share output, and pays the shares after it.
`planClaim` checks every rule the covenant has and fixes what the claim must be.
-/
import Pickaxe.Lib.CompactSize
import Pickaxe.Merge.Split
import Pickaxe.Safa.Deployment

namespace Pickaxe.Safa

open Lib Merge

/-- `MUTABLE`: a mutable NFT's capability byte. -/
def mutableNft : UInt8 := 0x01

/-- `CLAIM_VERSION`. -/
def claimVersion : UInt32 := 2

/-- `CLAIM_SEQUENCE`: non-final, so the lock time applies. -/
def claimSequence : UInt32 := 0xfffffffe

/-- The covenant's tallest aux tree. -/
def maxAuxHeight : UInt8 := 16

/-! ## Vaults -/

/-- `Vault`: one thread's vault, as Fulcrum lists it. -/
structure Vault where
  outpoint : OutPoint
  value : UInt64
  tokens : UInt64
  commitment : ByteVec 16
  /-- Whether the output is in a block. -/
  confirmed : Bool
deriving DecidableEq

namespace Vault

/-- `Vault::state`. -/
def state (v : Vault) : ThreadState := ThreadState.parse v.commitment

/-- `Vault::thread`. -/
def thread (v : Vault) : UInt32 := v.state.thread

/-- `Vault::state_hash`: a leaf's `state_hash`. -/
def stateHash [Hasher] (v : Vault) : Hash := doubleSha256 v.commitment.bytes

/-- The vault's AMM under a deployment. -/
def amm (v : Vault) (d : Deployment) : Amm :=
  ⟨v.value.toNat, d.virtualSats.toNat, v.tokens.toNat⟩

/-- What a claim on the vault pays in all. -/
def reward (v : Vault) : ℕ := v.tokens.toNat / rewardDivisor

end Vault

/-! ## Outputs -/

/-- `token_prefix`: fungible tokens of `category`, and a mutable NFT with `commitment` when one
is given. -/
def tokenPrefix (category : Hash) (commitment : Option (ByteVec 16)) (amount : ℕ) : Bytes :=
  let amountFlag : UInt8 := if 0 < amount then 0x10 else 0
  let nft := match commitment with
    | some commitment => [0x40 ||| 0x20 ||| amountFlag ||| mutableNft] ++ (compactSize 16 ++
      commitment.bytes)
    | none => [amountFlag]
  [0xef] ++ (category.bytes ++ (nft ++ if 0 < amount then compactSize amount else []))

/-- `output`. -/
def output (value : ℕ) (bytecode : Bytes) : Bytes :=
  leBytes 8 value ++ (compactSize bytecode.length ++ bytecode)

/-- `vault_output`. -/
def vaultOutput [Hasher] (d : Deployment) (value tokens : ℕ) (state : ByteVec 16) : Bytes :=
  output value (tokenPrefix d.category (some state) tokens ++ d.lockingBytecode)

/-- `dust`: the dust threshold BCHN applies to an output of `size` bytes. -/
def dust (size : ℕ) : ℕ := 3 * (size + 148)

/-- `vault_floor`: the fewest satoshis a claim may leave the vault. -/
def vaultFloor (size : ℕ) : ℕ := max (dust size) outputSats

/-! ## Plans -/

/-- `ClaimTerms`: who a claim pays. -/
structure ClaimTerms where
  payout : Bytes
  split : Split
  donation : Option Bytes
  fee : Option Bytes

/-- `ClaimPlan`: everything one claim must be. -/
structure ClaimPlan where
  /-- The coinbase's BIP34 height. -/
  height : UInt32
  heightDelta : UInt32
  targetBits : UInt32
  leaf : Leaf
  reward : ℕ
  shares : Shares
  /-- The outputs after the vault: token amount and locking bytecode. -/
  outputs : List (ℕ × Bytes)
  nextState : ByteVec 16
  /-- `S = K + |proof|`; the vault pays `S` to `3S`. -/
  sizeBound : ℕ
  fee : ℕ
  /-- The vault's satoshis after the claim. -/
  vaultValue : ℕ
  locktime : UInt32

/-- A script of the claim's terms that is there has 1 to 35 bytes. -/
def checkScript (script : Option Bytes) (what : String) : Except String Unit :=
  match script with
  | none => .ok ()
  | some script =>
    if script = [] ∨ script.length > maxPayoutScript then
      .error ("the claim's " ++ what ++ " script must be 1 to 35 bytes")
    else .ok ()

variable [Hasher]

/-- The script a slot of the split pays, which must be at hand. -/
def slotScript (slot : Slot) (script : Option Bytes) (what : String) :
    Except String (Option Bytes) :=
  if slot.isEmpty then .ok none
  else match script with
    | none => .error ("the claim has no " ++ what ++ " script matching its split")
    | some script =>
      if doubleSha256 script = slot.scriptHash then .ok (some script)
      else .error ("the claim has no " ++ what ++ " script matching its split")

omit [Hasher] in
/-- The outputs after the vault: every share above 0, which needs a script. -/
def shareOutputs : List (ℕ × Option Bytes) → Option (List (ℕ × Bytes))
  | [] => some []
  | (amount, script) :: rest =>
    if amount = 0 then shareOutputs rest
    else do
      let script ← script
      let rest ← shareOutputs rest
      return (amount, script) :: rest

omit [Hasher] in
/-- A height the covenant reads in a coinbase, below the lock times that are times. -/
def planHeight (head : Bytes) : Except String UInt32 :=
  match coinbaseHeight head with
  | none => .error "the proof's coinbase has no BIP34 height the covenant reads"
  | some height =>
    if height < locktimeThreshold then .ok (UInt32.ofNat height)
    else .error "the proof's coinbase height is in the lock-time domain"

/-- The leaf a claim on `vault` binds. -/
def claimLeaf (d : Deployment) (vault : Vault) (payoutHash : Hash) (targetBits : UInt32)
    (split : Split) : Leaf :=
  ⟨d.category, d.lockHash, vault.stateHash, payoutHash, targetBits, split.ext⟩

/-- The state a claim at `height` leaves behind. -/
def nextState (vault : Vault) (height targetBits : UInt32) (header : ByteVec 80) : ThreadState :=
  ⟨vault.state.thread, height, targetBits, headerBits header⟩

/-- The rest of `plan_claim`, once its height and its target are found. -/
def planRest (d : Deployment) (vault : Vault) (proof : Bytes) (parsed : AuxProof)
    (terms : ClaimTerms) (donation fee : Option Bytes) (feeRate : ℕ) (locktime : Option UInt32)
    (height targetBits : UInt32) : Except String ClaimPlan := do
  let leaf := claimLeaf d vault (doubleSha256 terms.payout) targetBits terms.split
  (verifyLeaf parsed leaf maxAuxHeight).mapError ProofError.display
  if bchHeader d.network parsed.header height vault.state = false then
    .error "the header's nBits are outside the ASERT band (and the fallback band)"
  else if vault.reward = 0 then .error "the vault has too few tokens for a reward"
  else
    let shares := terms.split.claimShares vault.reward (vault.amm d)
    match shareOutputs [(shares.miner, some terms.payout), (shares.donation, donation),
        (shares.fee, fee)] with
    | none => .error "a share has no script to pay"
    | some outputs =>
      let next := (nextState vault height targetBits parsed.header).encode
      let sizeBound := d.feeK + proof.length
      let cost := feeRate * sizeBound + outputSats * outputs.length
      if vault.value.toNat < cost then .error "the vault cannot pay the claim's fee and outputs"
      else
        let vaultValue := vault.value.toNat - cost
        if vaultValue < vaultFloor
            (vaultOutput d vaultValue (vault.tokens.toNat - vault.reward) next).length then
          .error "the vault would keep fewer than 800 satoshis, or dust"
        else
          let lock := locktime.getD height
          if lock < height ∨ lock.toNat ≥ locktimeThreshold then
            .error "the claim's lock time must be a height at or above the coinbase height"
          else .ok ⟨height, height - vault.state.height, targetBits, leaf, vault.reward, shares,
            outputs, next, sizeBound, feeRate * sizeBound, vaultValue, lock⟩

/-- `plan_claim`: the claim of `proof` against `vault`. -/
def planClaim (d : Deployment) (vault : Vault) (proof : Bytes) (terms : ClaimTerms) (feeRate : ℕ)
    (locktime : Option UInt32) : Except String ClaimPlan :=
  if feeRate < 1 ∨ maxFeeRate < feeRate then
    .error "the claim's fee rate must be 1, 2 or 3 satoshis per byte"
  else do
    checkScript (some terms.payout) "payout"
    checkScript terms.donation "donation"
    checkScript terms.fee "fee"
    let donation ← slotScript terms.split.donation terms.donation "donation"
    let fee ← slotScript terms.split.fee terms.fee "fee"
    let parsed ← (AuxProof.fromBytes proof).mapError ProofError.display
    let height ← planHeight parsed.cbHead
    if vault.state.height ≥ height then
      .error "the coinbase is not newer than the thread's state"
    else match claimTargetBits vault.state.targetBits (height - vault.state.height) d.threads with
      | none => .error "the thread's target bits are not canonical"
      | some targetBits =>
        planRest d vault proof parsed terms donation fee feeRate locktime height targetBits

end Pickaxe.Safa
