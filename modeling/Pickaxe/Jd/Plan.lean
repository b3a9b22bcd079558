/-
# Job Declaration plans

What a Job Declaration client's local server needs of its pool: the outputs its coinbases
pay, the extranonce they nest in the pool channel's, and P2Pool's prepared coinbases.
-/
import Pickaxe.Basic

namespace Pickaxe.Jd

open Lib

/-- `COMPACT_DEVICE_EXTRANONCE`: a device's bytes in the compact layout. -/
def compactDeviceExtranonce : ℕ := 4

/-- `channel::DEVICE_EXTRANONCE_SIZE`: a device's bytes otherwise. -/
def deviceExtranonceSize : ℕ := 8

/-- The pool's rates and which outputs they go to. -/
structure PoolRates where
  donationBps : UInt16
  feeBps : UInt16
  donationOutput : Option UInt8
  feeOutput : Option UInt8
deriving DecidableEq

/-- What a pool's payout rule owes each recipient. -/
structure PayoutRule where
  miner : Bytes
  donation : Option (Bytes × UInt16)
  fee : Option (Bytes × UInt16)
deriving DecidableEq

/-- `PayoutRule::minimums`: the donation and the fee of a reward. -/
def PayoutRule.minimums (rule : PayoutRule) (value : ℕ) : ℕ × ℕ :=
  let share := fun (amount : ℕ) (bps : UInt16) => amount * bps.toNat / 10000
  let donation := (rule.donation.map fun d => share value d.2).getD 0
  let fee := (rule.fee.map fun f => share (value - donation) f.2).getD 0
  (donation, fee)

/-- A P2Pool session's settings. -/
structure P2poolPlan where
  api : String
  payout : String
  shareOwner : String
deriving DecidableEq

/-- A Job Declaration plan. -/
structure JdPlan where
  serial : UInt64
  /-- The pool channel's own extranonce prefix. -/
  upstreamPrefix : Bytes
  pad : Bytes
  /-- Two bytes each for the job id and the lane instead of four. -/
  compact : Bool
  /-- The scripts of the pool's outputs, the miner's first. -/
  scripts : List Bytes
  rates : PoolRates
  poolTarget : Hash
  p2pool : Option P2poolPlan
  fullTemplate : Bool
deriving DecidableEq

namespace JdPlan

/-- `JdPlan::outputs`: the pool's outputs for a reward. -/
def outputs (plan : JdPlan) (value : ℕ) : List (ℕ × Bytes) :=
  let script := fun (index : Option UInt8) => index.bind fun index => plan.scripts[index.toNat]?
  let rule : PayoutRule :=
    { miner := plan.scripts.headD []
      donation := (script plan.rates.donationOutput).map fun s => (s, plan.rates.donationBps)
      fee := (script plan.rates.feeOutput).map fun s => (s, plan.rates.feeBps) }
  let (donation, fee) := rule.minimums value
  let add := fun (amounts : List ℕ) (index : Option UInt8) (amount : ℕ) =>
    match index with
    | none => amounts
    | some index => amounts.modify index.toNat (· + amount)
  let amounts := add (List.replicate plan.scripts.length 0) plan.rates.donationOutput donation
  let amounts := add amounts plan.rates.feeOutput fee
  let amounts := amounts.modify 0 (· + (value - donation - fee))
  amounts.zip plan.scripts

/-- `JdPlan::token_payout`. -/
def tokenPayout (plan : JdPlan) : Option Bytes := plan.scripts.head?

/-- `JdPlan::layout`: how many bytes the job id, the lane and the device take. -/
def layout (plan : JdPlan) : ℕ × ℕ × ℕ :=
  if plan.compact then (2, 2, compactDeviceExtranonce) else (4, 4, deviceExtranonceSize)

/-- `JdPlan::rollable`: the bytes the client rolls inside the pool channel's extranonce. -/
def rollable (plan : JdPlan) : ℕ :=
  let (id, lane, device) := plan.layout
  id + plan.pad.length + lane + device

/-- `JdPlan::is_valid`. -/
def isValid (plan : JdPlan) : Bool :=
  let within := fun (index : Option UInt8) =>
    match index with
    | none => true
    | some index => index.toNat < plan.scripts.length && 0 < index.toNat
  if plan.p2pool.isSome then
    plan.upstreamPrefix.length + plan.rollable == 12 && !plan.scripts.isEmpty
  else !plan.scripts.isEmpty && within plan.rates.donationOutput && within plan.rates.feeOutput &&
    plan.rates.donationBps.toNat ≤ 10000 && plan.rates.feeBps.toNat ≤ 10000

end JdPlan

/-! ## Coinbases cut around their extranonce -/

/-- A coinbase around its extranonce, as `CoinbaseShape::parse` accepts it: the bytes before
the extranonce end with the head of its script, the bytes after it start with the
sequence. -/
structure CoinbaseShape where
  txVersion : UInt32
  /-- The script's bytes before the extranonce. -/
  head : Bytes
  scriptLen : ℕ
  sequence : UInt32
  outputs : List (ℕ × Bytes)
  /-- The outputs as declared, with their count. -/
  outputsBytes : Bytes
  locktime : UInt32
  pre : Bytes
  suffix : Bytes
  /-- The first 41 bytes and the script's length stand before the head. -/
  length_pre : pre.length = 42 + head.length
  drop_pre : pre.drop 42 = head
  scriptLen_pre : pre[41]? = some (UInt8.ofNat scriptLen)
  scriptLen_le : scriptLen ≤ 100
  /-- There is an extranonce. -/
  head_lt : head.length < scriptLen
  /-- A coinbase is longer than a node of the merkle tree. -/
  long : 65 ≤ pre.length + (scriptLen - head.length) + suffix.length
deriving DecidableEq

namespace CoinbaseShape

/-- `CoinbaseShape::extranonce_len`. -/
def extranonceLen (shape : CoinbaseShape) : ℕ := shape.scriptLen - shape.head.length

/-- `CoinbaseShape::coinbase`: the coinbase around an extranonce of the right length. -/
def coinbase (shape : CoinbaseShape) (extranonce : Bytes) : Option Bytes :=
  if extranonce.length ≠ shape.extranonceLen then none
  else some (shape.pre ++ extranonce ++ shape.suffix)

end CoinbaseShape

/-- A coinbase P2Pool prepared, with the token it belongs to. -/
structure Prepared where
  token : Bytes
  coinbase : CoinbaseShape
deriving DecidableEq

end Pickaxe.Jd
