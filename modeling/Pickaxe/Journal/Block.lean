/-
# Blocks in the journal

A solved block is checked before it is saved and again whenever a journal is opened: it
decodes, its merkle root and its proof of work are right, and a block of this server pays
exactly what its policy gives to the scripts it names.

The Bitcoin library's decoder and its two checks are parameters: nothing is assumed of them
here.
-/
import Pickaxe.Payout
import Pickaxe.Template

namespace Pickaxe.Journal

open Lib Merge

/-! ## What the Bitcoin library reads -/

/-- A transaction's input. -/
structure TxIn where
  previousHash : Hash
  previousIndex : UInt32
  script : Bytes
  sequence : UInt32
  witness : List Bytes
deriving DecidableEq

/-- A transaction. -/
structure Transaction where
  version : UInt32
  input : List TxIn
  output : List (ℕ × Bytes)
  lockTime : UInt32
deriving DecidableEq

/-- `Transaction::is_coinbase`: one input, with the null prevout. -/
def Transaction.isCoinbase (tx : Transaction) : Bool :=
  match tx.input with
  | [input] => input.previousHash == ByteVec.zero 32 && input.previousIndex == 0xffffffff
  | _ => false

/-- A block. -/
structure Block where
  header : ByteVec 80
  txdata : List Transaction
deriving DecidableEq

/-- What the program calls of the Bitcoin library. -/
class Bitcoin where
  /-- `consensus::deserialize` of a block. -/
  deserialize : Bytes → Option Block
  /-- `consensus::deserialize` of a transaction. -/
  deserializeTransaction : Bytes → Option Transaction
  /-- `Block::check_merkle_root`. -/
  checkMerkleRoot : Block → Bool
  /-- `Header::validate_pow` against the header's own target. -/
  validatePow : ByteVec 80 → Bool

variable [Hasher]

/-- `Block::block_hash` as it is displayed. -/
def Block.hash (block : Block) : List Char :=
  Text.hexEncode (doubleSha256 block.header.bytes).bytes.reverse

/-! ## Checking a block -/

/-- `MAX_PENDING`. -/
def maxPending : ℕ := 64

/-- `MAX_BLOCK_BYTES`. -/
def maxBlockBytes : ℕ := 64 * 1024 * 1024

/-- `MAX_FILE_BYTES`. -/
def maxFileBytes : ℕ := maxBlockBytes * 2 + 1024 * 1024

/-- `MAX_RECEIPTS`. -/
def maxReceipts : ℕ := 1024

/-- A block of this server pays these scripts, split by this policy; blocks written before
there were donations have none. -/
structure Expected where
  scripts : List Bytes
  payout : Option BchPayout

/-- The outputs of a coinbase worth `total`. -/
def Expected.outputs (expected : Expected) (total : ℕ) : List (ℕ × Bytes) :=
  match expected.payout with
  | some policy => Payout.outputs total expected.scripts policy
  | none => [(total, expected.scripts.headD [])]

/-- The outputs after a zero-value commitment, if there is one. -/
def payments (outputs : List (ℕ × Bytes)) : List (ℕ × Bytes) :=
  match outputs with
  | [] => []
  | first :: rest =>
    if first.1 = 0 ∧ (AuxCommitment.parseScript first.2).isSome then rest else outputs

/-- The checks of a coinbase's outputs. -/
def checkPayments (outputs : List (ℕ × Bytes)) (expected : Expected) : Except String Unit :=
  let total := (outputs.map Prod.fst).sum
  if total > 21000000 * 100000000 then .error "invalid journal coinbase value"
  else if payments outputs ≠ expected.outputs total then
    .error "journal block payout or transaction encoding does not match"
  else .ok ()

variable [Bitcoin]

/-- `validate_block`: the block's hash after its checks.  A relayed block's coinbase is the
client's. -/
def validateBlock (bytes : Bytes) (expected : Option Expected) : Except String (List Char) :=
  if bytes.length > maxBlockBytes then .error "block exceeds journal storage budget"
  else match Bitcoin.deserialize bytes with
    | none => .error "invalid journal block serialization"
    | some block =>
      if ¬ Bitcoin.checkMerkleRoot block ∨ ¬ Bitcoin.validatePow block.header then
        .error "journal block fails merkle root or proof of work"
      else match block.txdata with
        | [] => .error "journal block has no coinbase"
        | coinbase :: _ =>
          if (block.txdata.any fun tx => tx.input.any fun input => !input.witness.isEmpty) ∨
              ¬ coinbase.isCoinbase then
            .error "journal block payout or transaction encoding does not match"
          else match expected with
            | none => .ok block.hash
            | some expected => do
              checkPayments coinbase.output expected
              .ok block.hash

omit [Bitcoin] in
lemma length_hash (block : Block) : block.hash.length = 64 := by
  simp [Block.hash]

/-- An accepted block's hash is 64 lower-case digits. -/
lemma validateBlock_hash {bytes : Bytes} {expected : Option Expected} {hash : List Char}
    (h : validateBlock bytes expected = .ok hash) : ∃ block : Block, hash = block.hash := by
  unfold validateBlock at h
  obtain ⟨-, h⟩ := Except.ite_error_eq_ok.mp h
  split at h
  · cases h
  rename_i block hblock
  obtain ⟨-, h⟩ := Except.ite_error_eq_ok.mp h
  split at h
  · cases h
  obtain ⟨-, h⟩ := Except.ite_error_eq_ok.mp h
  cases expected with
  | none =>
    cases h
    exact ⟨block, rfl⟩
  | some expected =>
    obtain ⟨-, -, h⟩ := Except.bind_eq_ok.mp h
    cases h
    exact ⟨block, rfl⟩

/-! ## The blocks of one binding -/

/-- A saved block: its hash and its bytes in hexadecimal, and what it pays. -/
structure PendingBlock where
  hash : List Char
  block : List Char
  payout : Option BchPayout
  miner : Option (List Char)
  operator : Option (List Char)
deriving DecidableEq

/-- What a journal's blocks are checked against. -/
inductive JournalBinding where
  /-- This server's own blocks. -/
  | payout (payout : List Char) (scripts : List Bytes)
  /-- Blocks relayed for a Template Distribution client. -/
  | relay
  /-- A Job Declaration client's blocks. -/
  | declared
deriving DecidableEq

omit [Hasher] [Bitcoin] in
/-- `block_scripts`: the configured payout and the donation, or in a public pool the block's
own miner, plus any fee address. -/
def blockScripts (network : MiningNetwork) (configured : List Bytes) (miner operator :
    Option (List Char)) : Except String (List Bytes) :=
  match miner, operator with
  | none, none => .ok configured
  | some miner, operator => Payout.scripts network miner operator
  | none, some operator => do
    let scripts ← Payout.scripts network operator none
    .ok (configured ++ scripts.take 1)

/-- The hash of a saved block's bytes after their checks. -/
def pendingHash (network : MiningNetwork) (binding : JournalBinding) (pending : PendingBlock)
    (bytes : Bytes) : Except String (List Char) :=
  match binding with
  | .payout _ scripts => do
    let scripts ← blockScripts network scripts pending.miner pending.operator
    validateBlock bytes (some ⟨scripts, pending.payout⟩)
  | .relay | .declared =>
    if pending.payout.isSome ∨ pending.miner.isSome ∨ pending.operator.isSome then
      .error "invalid relayed journal block"
    else validateBlock bytes none

/-- The checks of one saved block when a journal is opened. -/
def checkPending (network : MiningNetwork) (binding : JournalBinding) (pending : PendingBlock) :
    Except String Unit :=
  match Text.hexDecode pending.block with
  | none => .error "invalid journal block encoding"
  | some bytes => do
    let hash ← pendingHash network binding pending bytes
    if hash ≠ pending.hash then .error "invalid or duplicate journal block" else .ok ()

lemma checkPending_eq_ok {network : MiningNetwork} {binding : JournalBinding}
    {pending : PendingBlock} : checkPending network binding pending = .ok () ↔
      ∃ bytes, Text.hexDecode pending.block = some bytes ∧
        pendingHash network binding pending bytes = .ok pending.hash := by
  unfold checkPending
  cases Text.hexDecode pending.block with
  | none => simp
  | some bytes =>
    simp only [Except.bind_eq_ok, Except.ite_error_eq_ok, Option.some.injEq, exists_eq_left']
    constructor
    · rintro ⟨hash, hhash, heq, -⟩
      rw [← not_not.mp heq]
      exact hhash
    · intro hhash
      exact ⟨_, hhash, by simp, trivial⟩

lemma validateBlock_of_pendingHash {network : MiningNetwork} {binding : JournalBinding}
    {pending : PendingBlock} {bytes : Bytes} {hash : List Char}
    (h : pendingHash network binding pending bytes = .ok hash) :
    ∃ expected, validateBlock bytes expected = .ok hash := by
  cases binding with
  | payout payout scripts =>
    obtain ⟨scripts', -, hhash⟩ := Except.bind_eq_ok.mp h
    exact ⟨_, hhash⟩
  | relay => exact ⟨none, (Except.ite_error_eq_ok.mp h).2⟩
  | declared => exact ⟨none, (Except.ite_error_eq_ok.mp h).2⟩

end Pickaxe.Journal
