/-
# Custom jobs

What a Job Declaration client's SetCustomMiningJob carries, and what the pool checks of it:
a Coinbase-only job's outputs against its token's payout rule, a Full-Template job against
the declaration the pool has checked before.
-/
import Pickaxe.Merge.Commitment
import Pickaxe.Template

namespace Pickaxe.Jd

open Lib Merge

/-- `JD_ROLLABLE`: the rollable bytes a work-selection channel gets. -/
def jdRollable : ℕ := 16

/-- `CUSTOM_JOB_BIT`: custom job ids carry this bit. -/
def customJobBit : UInt32 := 0x80000000

/-- `codec::MAX_MONEY`. -/
def maxMoney : ℕ := 21000000 * 100000000

/-! ## Outputs -/

/-- `codec::compact_size`: a minimally encoded count. -/
def readCompactSize (e : String) : Reader String ℕ := do
  let first ← Reader.byte e
  let width := if first < 0xfd then 0 else if first = 0xfd then 2 else if first = 0xfe then 4 else 8
  if width = 0 then return first.toNat
  else do
    let bytes ← Reader.take e width
    let value := fromLe bytes
    Reader.guard (if width = 2 then 0xfd ≤ value else if width = 4 then 0xffff < value
      else 0xffffffff < value) e
    return value

/-- One output of `parse_outputs`. -/
def readOutput : Reader String (ℕ × Bytes) := do
  let value ← Reader.take "truncated output value" 8
  Reader.guard (fromLe value ≤ maxMoney) "output value exceeds the money supply"
  let length ← readCompactSize "malformed script length"
  Reader.guard (length ≤ 10000) "output script too long"
  let script ← Reader.take "truncated output script" length
  return (fromLe value, script)

/-- `parse_outputs`: a count and that many outputs, nothing else. -/
def parseOutputs (bytes : Bytes) : Except String (List (ℕ × Bytes)) :=
  Prod.fst <$> (do
    let count ← readCompactSize "malformed output count"
    Reader.guard (count ≤ bytes.length / 9) "output count exceeds the outputs' bytes"
    let outputs ← Reader.times readOutput count
    Reader.eof "bytes after the outputs"
    return outputs : Reader String (List (ℕ × Bytes))) bytes

/-- The first bytes of a merge-mining commitment's script. -/
def commitmentHead : Bytes := [0x6a, 0x2a] ++ commitmentMagic

/-- `check_commitments`: at most one commitment, as output 0, worth 0 and exact; no
token-prefixed output; fewer than 253 outputs with a commitment. -/
def checkCommitments (outputs : List (ℕ × Bytes)) : Bool :=
  (outputs.zipIdx.all fun p =>
    p.1.2.head? != some 0xef &&
      (!commitmentHead.isPrefixOf p.1.2 ||
        (p.2 == 0 && p.1.1 == 0 && (AuxCommitment.parseScript p.1.2).isSome))) &&
    (!(outputs.any fun o => commitmentHead.isPrefixOf o.2) || decide (outputs.length < 0xfd))

/-- `check_no_root`: output 0 is the empty commitment or none. -/
def checkNoRoot (outputs : List (ℕ × Bytes)) : Bool :=
  match outputs.head?.bind fun o => AuxCommitment.parseScript o.2 with
  | none => true
  | some commitment => commitment.isEmpty

namespace PayoutRule

/-- What the outputs pay to a script. -/
def paid (outputs : List (ℕ × Bytes)) (script : Bytes) : ℕ :=
  ((outputs.filter fun o => o.2 = script).map Prod.fst).sum

/-- What the rule owes of a coinbase worth `value`: the donation, the fee, and the miner
something when anything is left. -/
def owed (rule : PayoutRule) (value : ℕ) : List (ℕ × Bytes) :=
  let minimums := rule.minimums value
  (rule.donation.map fun d => (minimums.1, d.1)).toList ++
    (rule.fee.map fun f => (minimums.2, f.1)).toList ++
    if value - minimums.1 - minimums.2 > 0 then [(1, rule.miner)] else []

/-- `PayoutRule::check`: the coinbase's value when its outputs meet the rule.  Amounts are
summed per script. -/
def check (rule : PayoutRule) (outputs : List (ℕ × Bytes)) : Option ℕ :=
  let value := (outputs.map Prod.fst).sum
  let owed := rule.owed value
  if checkCommitments outputs ∧ value ≤ maxMoney ∧ ∀ o ∈ owed, paid owed o.2 ≤ paid outputs o.2 then
    some value
  else none

end PayoutRule

/-! ## Requests -/

/-- A SetCustomMiningJob. -/
structure SetCustomMiningJob where
  channelId : UInt32
  requestId : UInt32
  token : Bytes
  version : UInt32
  prevHash : Hash
  minNtime : UInt32
  nbits : UInt32
  coinbaseTxVersion : UInt32
  coinbasePrefix : Bytes
  coinbaseTxInputNSequence : UInt32
  coinbaseTxOutputs : Bytes
  coinbaseTxLocktime : UInt32
  merklePath : List Hash
deriving DecidableEq

/-- Whether `PxToken::decode` reads a declared job's token. -/
def declaredToken (token : Bytes) : Bool :=
  token.length == 26 && token.take 2 == [0x50, 0x58] && token.getD 2 0 == 1 &&
    token.getD 9 0 &&& ~~~3 == 0 && token.getD 9 0 &&& 1 != 0

/-- A declaration the pool checked. -/
structure DeclaredJob where
  shape : CoinbaseShape
  template : BchTemplate
deriving DecidableEq

/-- What a custom job's token sets. -/
inductive Custom where
  /-- A Coinbase-only job, whose coinbase must meet this rule. -/
  | coinbaseOnly (rule : PayoutRule)
  /-- A Full-Template job, which must match this declaration. -/
  | declared (job : DeclaredJob)
deriving DecidableEq

namespace SetCustomMiningJob

/-- The client's coinbase around an extranonce of `extranonce` bytes. -/
def parts (request : SetCustomMiningJob) (extranonce : ℕ) : CoinbaseParts :=
  { pre := u32Le request.coinbaseTxVersion ++ [1] ++ List.replicate 32 0 ++ List.replicate 4 0xff ++
      [UInt8.ofNat (request.coinbasePrefix.length + extranonce)] ++ request.coinbasePrefix
    suffix := u32Le request.coinbaseTxInputNSequence ++ request.coinbaseTxOutputs ++
      u32Le request.coinbaseTxLocktime
    merklePath := request.merklePath }

/-- The checks of a Coinbase-only custom job on the pool's template `context`, in the order of
their error codes, up to the token. -/
def checkContent (request : SetCustomMiningJob) (context : BchTemplate) (extranonce : ℕ)
    (now : UInt32) : Except String Unit :=
  if request.prevHash ≠ context.previousHash then .error "stale-chain-tip"
  else if request.nbits ≠ context.bits then .error "invalid-nbits"
  else if (request.version ^^^ context.version) &&& ~~~versionRollingMask ≠ 0 then
    .error "invalid-version"
  else if request.minNtime < context.minTime ∨
      request.minNtime.toNat > min (now.toNat + 600) (2 ^ 32 - 1) then .error "invalid-min-ntime"
  else if context.wrongBits request.minNtime then .error "invalid-nbits"
  else if ¬ (heightScript context.height).isPrefixOf request.coinbasePrefix ∨
      request.coinbasePrefix.length + extranonce > 100 then .error "invalid-coinbase-prefix"
  else if request.coinbaseTxVersion ≠ 1 ∧ request.coinbaseTxVersion ≠ 2 then
    .error "invalid-coinbase-tx-version"
  else if (request.parts extranonce).pre.length + extranonce +
      (request.parts extranonce).suffix.length < 65 then .error "invalid-coinbase-tx"
  else .ok ()

/-- The checks of its outputs, once the token is redeemed. -/
def checkOutputs (request : SetCustomMiningJob) (rule : PayoutRule) : Except String Unit :=
  match parseOutputs request.coinbaseTxOutputs with
  | .error _ => .error "invalid-coinbase-tx-outputs"
  | .ok outputs =>
    if rule.check outputs = none ∨ checkNoRoot outputs = false then
      .error "invalid-coinbase-tx-outputs"
    else .ok ()

/-- The checks of a declared custom job against its declaration; `extranonce` is the
channel's whole length. -/
def checkDeclared (request : SetCustomMiningJob) (context : BchTemplate) (job : DeclaredJob)
    (extranonce : ℕ) (now : UInt32) : Except String Unit :=
  let template := job.template
  let shape := job.shape
  if request.prevHash ≠ template.previousHash ∨ template.previousHash ≠ context.previousHash then
    .error "stale-chain-tip"
  else if request.nbits ≠ template.bits then .error "invalid-nbits"
  else if (request.version ^^^ template.version) &&& ~~~versionRollingMask ≠ 0 then
    .error "invalid-version"
  else if request.minNtime < context.minTime ∨
      request.minNtime.toNat > min (now.toNat + 600) (2 ^ 32 - 1) then .error "invalid-min-ntime"
  else if template.wrongBits request.minNtime then .error "invalid-nbits"
  else if request.coinbaseTxVersion ≠ shape.txVersion then .error "invalid-coinbase-tx-version"
  else if request.coinbasePrefix ≠ shape.head then .error "invalid-coinbase-prefix"
  else if request.coinbaseTxInputNSequence ≠ shape.sequence then
    .error "invalid-coinbase-tx-input-n-sequence"
  else if request.coinbaseTxOutputs ≠ shape.outputsBytes then .error "invalid-coinbase-tx-outputs"
  else if request.coinbaseTxLocktime ≠ shape.locktime then .error "invalid-coinbase-tx-locktime"
  else if request.merklePath ≠ template.merklePath then .error "invalid-merkle-path"
  else if shape.extranonceLen ≠ extranonce then .error "invalid-coinbase-tx"
  else .ok ()

end SetCustomMiningJob

end Pickaxe.Jd
