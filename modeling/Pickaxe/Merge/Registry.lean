/-
# The token registry

A merge-mined token's registry row and the checks it passes before the token is mined.
-/
import Pickaxe.Lib.Text
import Pickaxe.Merge.Tree

namespace Pickaxe.Merge

open Lib

/-- At most this many tokens in one token set. -/
def maxTokens : ℕ := maxLeaves

/-- A token covenant's deployment: the redeem script, its P2SH32 lock and the lock's script
hash, in hexadecimal. -/
structure CovenantDeployment where
  redeemScriptHex : String
  covenantLockHex : String
  scriptHashHex : String
deriving DecidableEq

/-- `CovenantDeployment::verify`: the three must agree. -/
def CovenantDeployment.verify [Hasher] (d : CovenantDeployment) : Except String Unit := do
  let redeem ← match Text.hexDecode (Text.trim d.redeemScriptHex.toList) with
    | none => .error "invalid token covenant redeem script"
    | some redeem => .ok redeem
  let lock ← match Text.hexDecode d.covenantLockHex.toList with
    | none => .error "invalid token covenant lock"
    | some lock => .ok lock
  if lock.length ≠ 35 ∨ lock.getD 0 0 ≠ 0xaa ∨ lock.getD 1 0 ≠ 0x20 ∨ lock.getD 34 0 ≠ 0x87 then
    .error "token covenant lock is not P2SH32"
  else if slice lock 2 34 ≠ (doubleSha256 redeem).bytes then
    .error "token covenant redeem script does not match its lock"
  else if Text.hexEncode (sha256 lock).bytes.reverse ≠ d.scriptHashHex.toList then
    .error "token covenant Fulcrum script hash does not match its lock"
  else .ok ()

/-- A merge-mined token's registry row. -/
structure MergeToken where
  name : String
  network : MiningNetwork
  /-- The token category, in internal byte order. -/
  category : Hash
  /-- The covenant, once one is deployed. -/
  deployment : Option CovenantDeployment
  /-- The covenant's largest aux tree height (at most 16). -/
  maxAuxHeight : UInt8
  /-- Which token stays when the tree cannot hold them all: higher stays. -/
  priority : UInt8
  /-- Whether the covenant verifies the per-win split. -/
  split : Bool
deriving DecidableEq

/-- `MergeToken::verify`: refuses a row that could not be mined or claimed as written. -/
def MergeToken.verify [Hasher] (t : MergeToken) : Except String Unit :=
  if (Text.trim t.name.toList).isEmpty ∨ t.name.toList.any Text.isControl then
    .error "a merge-mined token needs a printable name"
  else if t.category = ByteVec.zero 32 then .error s!"{t.name} has no token category"
  else if t.maxAuxHeight > maxHeight then .error s!"{t.name} allows a taller aux tree than 16"
  else match t.deployment with
    | none => .ok ()
    | some deployment =>
      match deployment.verify with
      | .error error => .error s!"{t.name}: {error}"
      | .ok () => .ok ()

/-- `TEST_CATEGORY`: SHA-256 of "pickaxe merge-mining test token v1". -/
def testCategory : Hash :=
  ⟨[0xfe, 0xab, 0x4b, 0xcd, 0x32, 0x4f, 0x72, 0x20, 0x33, 0xf5, 0xa1, 0xd6, 0x74, 0x32, 0xf4, 0x5c,
    0xae, 0xba, 0x0e, 0x50, 0x5b, 0x5c, 0xca, 0xaf, 0x66, 0x55, 0x55, 0x76, 0x94, 0x25, 0xad, 0x93],
    rfl⟩

/-- `TEST_TOKEN`: a Chipnet-only token with no covenant. -/
def testToken : MergeToken :=
  { name := "Pickaxe test token"
    network := .chipnet
    category := testCategory
    deployment := none
    maxAuxHeight := maxHeight
    priority := 0
    split := true }

/-- `tokens`: the registered tokens of a network; none is registered yet. -/
def tokens : MiningNetwork → List MergeToken
  | .mainnet => []
  | .chipnet => []

/-- `known`: the token a pool knows by its category, a registered one or on Chipnet the test
token. -/
def known (network : MiningNetwork) (category : Hash) : Option MergeToken :=
  ((tokens network).find? fun token => token.category = category).or
    (if network = testToken.network ∧ testToken.category = category then some testToken else none)

end Pickaxe.Merge
