/-
# Hashes, targets and networks

What every part of the miner shares: 32-byte hashes, SHA-256 as a parameter of the
development, the comparison of a header hash with a target, and the two networks.
-/
import Pickaxe.Lib.Bytes
import Pickaxe.Lib.Sha256Eval

namespace Pickaxe

open Lib

/-- A 32-byte hash. -/
abbrev Hash := ByteVec 32

instance : Inhabited Hash := ⟨ByteVec.zero 32⟩

/-- The largest hash. -/
lemma length_full : (List.replicate 32 (0xff : UInt8)).length = 32 := rfl

/-- The hash whose hexadecimal digits are those of a number. -/
def Hash.ofHex (n : ℕ) : Hash := ⟨Sha256.beBytes 32 n, by simp [Sha256.beBytes]⟩

/-- The SHA-256 the program calls.  Nothing is assumed of it. -/
class Hasher where
  /-- SHA-256 of a byte string. -/
  sha256 : Bytes → Hash

export Hasher (sha256)

/-- SHA-256 itself. -/
abbrev Hasher.fips : Hasher := ⟨Sha256.digest⟩

/-- SHA-256 as concrete runs evaluate it. -/
lemma Hasher.fips_eq : Hasher.fips = ⟨Sha256.Eval.digest⟩ :=
  congrArg Hasher.mk Sha256.Eval.digest_eq

/-- `double_sha256`: SHA-256 of the SHA-256. -/
def doubleSha256 [Hasher] (bytes : Bytes) : Hash := sha256 (sha256 bytes).bytes

/-! ## The merkle root of a block -/

/-- The 64 bytes of a node of a block's transaction tree. -/
def pairInput (left right : Hash) : Bytes := left.bytes ++ right.bytes

/-- A node of a block's transaction tree. -/
def pairHash [Hasher] (left right : Hash) : Hash := doubleSha256 (pairInput left right)

/-- `template::fold`: from the coinbase's hash up its branch at index 0 to the merkle
root. -/
def foldPath [Hasher] (leaf : Hash) (path : List Hash) : Hash := path.foldl pairHash leaf

lemma length_pairInput (left right : Hash) : (pairInput left right).length = 64 := by
  simp [pairInput]

lemma pairInput_inj {a b c d : Hash} (h : pairInput a b = pairInput c d) : a = c ∧ b = d := by
  obtain ⟨hleft, hright⟩ := ByteVec.append_inj h
  exact ⟨hleft, ByteVec.ext hright⟩

/-! ## Targets -/

/-- `meets_target`: `hash <= target`, both read as little-endian numbers from the last
byte on. -/
def meetsTarget (hash target : Hash) : Bool := (revCmp hash.bytes target.bytes).isLE

/-- `meets_target` compares the numbers the two arrays denote. -/
lemma meetsTarget_iff (hash target : Hash) :
    meetsTarget hash target = true ↔ fromLe hash.bytes ≤ fromLe target.bytes := by
  have hlen : hash.bytes.length = target.bytes.length := by simp
  rw [meetsTarget, revCmp_eq_compare hlen, Nat.isLE_compare]

/-- `easier`: whether target `a` is the larger number. -/
def easier (a b : Hash) : Bool := (revCmp a.bytes b.bytes).isGT

lemma easier_iff (a b : Hash) : easier a b = true ↔ fromLe b.bytes < fromLe a.bytes := by
  have hlen : a.bytes.length = b.bytes.length := by simp
  rw [easier, revCmp_eq_compare hlen, Ordering.isGT_iff_eq_gt, Nat.compare_eq_gt]

/-! ## Networks -/

/-- The networks the program mines on. -/
inductive MiningNetwork where
  | mainnet
  | chipnet
deriving DecidableEq

/-- `MiningNetwork::as_str`. -/
def MiningNetwork.asStr : MiningNetwork → String
  | .mainnet => "mainnet"
  | .chipnet => "chipnet"

/-- A transaction output. -/
structure OutPoint where
  txid : Hash
  vout : UInt32
deriving DecidableEq

end Pickaxe
