/-
# Declared coinbases and jobs

A Full-Template declaration carries its coinbase split around the extranonce.  The pool parses the
two parts, leaves out the BIP141 bytes some clients add, and keeps the job it has checked: the
coinbase's shape with a template of the declared transactions, which builds whole blocks.

A refusal is its error code here; its details are a text for people.
-/
import Pickaxe.Jd.Custom
import Pickaxe.Journal.Library

namespace Pickaxe

open Lib Journal

namespace Jd

/-! ## The coinbase's shape -/

/-- `strip_bip141`: the prefix and suffix without a segwit marker, flag and witness of one item. -/
def stripBip141 (pre suffix : Bytes) : Except String (Bytes × Bytes) :=
  if slice? pre 4 6 ≠ some [0, 1] then .ok (pre, suffix)
  else
    let start := suffix.length - 38
    if suffix.length < 38 ∨ start < 4 ∨ slice suffix start (start + 2) ≠ [1, 32] then
      .error "invalid-coinbase-tx"
    else .ok (pre.take 4 ++ pre.drop 6, suffix.take start ++ suffix.drop (start + 34))

namespace CoinbaseShape

/-- The end of `CoinbaseShape::parse`, on a prefix and suffix without BIP141 bytes. -/
def parseStripped (txVersion : UInt32) (pre suffix : Bytes) : Except String CoinbaseShape :=
  if txVersion ≠ 1 ∧ txVersion ≠ 2 then .error "invalid-coinbase-tx"
  else if pre[4]? ≠ some 1 ∨ slice? pre 5 37 ≠ some (List.replicate 32 0) ∨
      slice? pre 37 41 ≠ some (List.replicate 4 0xff) then .error "invalid-coinbase-tx-input"
  else if hpre : pre.length < 42 then .error "invalid-coinbase-tx"
  else
    let scriptLen := (pre.getD 41 0).toNat
    let head := pre.drop 42
    if hscript : scriptLen > 100 then .error "invalid-coinbase-tx"
    else if hhead : ¬ (head.length < scriptLen ∧ scriptLen - head.length ≤ 32) then
      .error "invalid-coinbase-tx"
    else if suffix.length < 8 then .error "invalid-coinbase-tx"
    else
      let outputsBytes := slice suffix 4 (suffix.length - 4)
      (parseOutputs outputsBytes).mapError (fun _ => "invalid-coinbase-tx") >>= fun outputs =>
      if hlong : pre.length + (scriptLen - head.length) + suffix.length < 65 then
        .error "invalid-coinbase-tx"
      else .ok
        { txVersion, head, scriptLen, outputs, outputsBytes, pre, suffix
          sequence := u32OfLe (suffix.take 4)
          locktime := u32OfLe (suffix.drop (suffix.length - 4))
          length_pre := by
            rw [show head.length = pre.length - 42 from List.length_drop]
            omega
          drop_pre := rfl
          scriptLen_pre := by
            have hlt : 41 < pre.length := by omega
            rw [show scriptLen = pre[41].toNat by simp [scriptLen, hlt], UInt8.ofNat_toNat,
              List.getElem?_eq_getElem hlt]
          scriptLen_le := Nat.not_lt.mp hscript
          head_lt := (not_not.mp hhead).1
          long := Nat.not_lt.mp hlong }

/-- `CoinbaseShape::parse`. -/
def parse (pre suffix : Bytes) : Except String CoinbaseShape :=
  if pre.length < 4 then .error "invalid-coinbase-tx"
  else do
    let parts ← stripBip141 pre suffix
    parseStripped (u32OfLe (pre.take 4)) parts.1 parts.2

/-- What a parsed shape says of its coinbases, whose script and outputs it names. -/
structure Parsed (shape : CoinbaseShape) : Prop where
  /-- The script of a coinbase starts with the head. -/
  script : ∀ extranonce bytes, shape.coinbase extranonce = some bytes →
    slice bytes 42 (42 + shape.scriptLen) = shape.head ++ extranonce
  /-- Its outputs stand between the sequence and the locktime. -/
  outputs : ∀ extranonce bytes, shape.coinbase extranonce = some bytes →
    parseOutputs (slice bytes (42 + shape.scriptLen + 4) (bytes.length - 4)) = .ok shape.outputs

/-- A coinbase has one for every extranonce of its length. -/
lemma coinbase_eq_some {shape : CoinbaseShape} {extranonce bytes : Bytes} :
    shape.coinbase extranonce = some bytes ↔
      extranonce.length = shape.extranonceLen ∧ bytes = shape.pre ++ extranonce ++ shape.suffix := by
  unfold coinbase
  split_ifs with h
  · simp [h]
  · simp [not_not.mp h, eq_comm]

lemma parseStripped_ok {txVersion : UInt32} {pre suffix : Bytes} {shape : CoinbaseShape}
    (h : parseStripped txVersion pre suffix = .ok shape) :
    shape.suffix = suffix ∧ 8 ≤ suffix.length ∧
      parseOutputs (slice suffix 4 (suffix.length - 4)) = .ok shape.outputs := by
  obtain ⟨-, h⟩ := Except.ite_error_eq_ok.mp h
  obtain ⟨-, h⟩ := Except.ite_error_eq_ok.mp h
  obtain ⟨hpre, h⟩ := Except.dite_error_eq_ok.mp h
  obtain ⟨hscript, h⟩ := Except.dite_error_eq_ok.mp h
  obtain ⟨hhead, h⟩ := Except.dite_error_eq_ok.mp h
  obtain ⟨hsuffix, h⟩ := Except.ite_error_eq_ok.mp h
  obtain ⟨outputs, houtputs, h⟩ := Except.bind_eq_ok.mp h
  obtain ⟨hlong, h⟩ := Except.dite_error_eq_ok.mp h
  cases h
  exact ⟨rfl, Nat.not_lt.mp hsuffix, Except.mapError_eq_ok.mp houtputs⟩

lemma parse_parsed {pre suffix : Bytes} {shape : CoinbaseShape}
    (h : parse pre suffix = .ok shape) : shape.Parsed := by
  obtain ⟨-, h⟩ := Except.ite_error_eq_ok.mp h
  obtain ⟨parts, -, h⟩ := Except.bind_eq_ok.mp h
  obtain ⟨hsuffix, hlong, houtputs⟩ := parseStripped_ok h
  have hpre := shape.length_pre
  have hlt := shape.head_lt
  rw [← hsuffix] at hlong houtputs
  constructor
  · intro extranonce bytes hbytes
    obtain ⟨hlength, rfl⟩ := coinbase_eq_some.mp hbytes
    rw [extranonceLen] at hlength
    have hsplit : shape.pre ++ extranonce ++ shape.suffix =
        shape.pre.take 42 ++ (shape.head ++ extranonce) ++ shape.suffix := by
      rw [← List.append_assoc, ← shape.drop_pre, List.take_append_drop]
    rw [hsplit]
    exact slice_append (by simp; omega) (by simp; omega)
  · intro extranonce bytes hbytes
    obtain ⟨hlength, rfl⟩ := coinbase_eq_some.mp hbytes
    rw [extranonceLen] at hlength
    rw [← houtputs]
    congr 1
    have hdrop : (shape.pre ++ extranonce ++ shape.suffix).drop (42 + shape.scriptLen + 4) =
        shape.suffix.drop 4 := by
      rw [← List.drop_drop]
      congr 1
      exact List.drop_left' (by simp; omega)
    rw [slice, slice, hdrop]
    congr 1
    simp
    omega

end CoinbaseShape

/-! ## Transaction order -/

/-- `ctor_ordered`: the ids strictly ascend, read from their last byte. -/
def ctorOrdered : List Hash → Bool
  | a :: b :: rest => revCmp a.bytes b.bytes == .lt && ctorOrdered (b :: rest)
  | _ => true

/-- Ids in canonical order. -/
def Before (a b : Hash) : Prop := fromLe a.bytes < fromLe b.bytes

lemma ctorOrdered_iff {ids : List Hash} : ctorOrdered ids = true ↔ ids.Pairwise Before := by
  have htrans : IsTrans Hash Before := ⟨fun _ _ _ => Nat.lt_trans⟩
  have hchain : ctorOrdered ids = true ↔ ids.IsChain Before := by
    induction ids with
    | nil => simp [ctorOrdered]
    | cons a ids ih =>
      cases ids with
      | nil => simp [ctorOrdered]
      | cons b rest =>
        rw [ctorOrdered, Bool.and_eq_true, ih, List.isChain_cons_cons, beq_iff_eq,
          revCmp_eq_compare (by simp), Nat.compare_eq_lt]
        rfl
  rw [hchain]
  exact List.isChain_iff_pairwise

end Jd

/-! ## Declared jobs -/

/-- `BchTemplate::declared`: the pool's template with the client's version and transactions. -/
def BchTemplate.declared [Hasher] (context : BchTemplate) (version : UInt32) (transactions : List Bytes)
    (txids : List Hash) : BchTemplate :=
  { previousHash := context.previousHash
    version := version
    bits := context.bits
    target := context.target
    minTime := context.minTime
    currentTime := context.currentTime
    height := context.height
    sizeLimit := context.sizeLimit
    coinbaseValue := context.coinbaseValue
    parentTime := context.parentTime
    coinbaseFlags := []
    transactions := transactions
    merklePath := coinbasePath txids
    tokens := none
    origin := .declared
    jd := none
    p2pool := none
    declarationId := none
    work := .block
    minTime_le := context.minTime_le
    token_plain := coinbasePath_plain txids
    p2pool_head := BchTemplate.no_p2pool_head context
    tokens_fit := BchTemplate.no_tokens_fit }

namespace Jd

/-- A PushSolution's fields. -/
structure Solution where
  /-- The whole extranonce. -/
  extranonce : Bytes
  prevHash : Hash
  nonce : UInt32
  ntime : UInt32
  nbits : UInt32
  version : UInt32

namespace DeclaredJob

variable [Hasher]

/-- `DeclaredJob::coinbase`. -/
def coinbase (job : DeclaredJob) (extranonce : Bytes) : Option Coinbase :=
  (job.shape.coinbase extranonce).map fun bytes =>
    ⟨bytes, foldPath (doubleSha256 bytes) job.template.merklePath⟩

/-- `DeclaredJob::fits`. -/
def fits (job : DeclaredJob) : Bool :=
  job.shape.pre.length + job.shape.extranonceLen + job.shape.suffix.length ≤
    job.template.coinbaseBudget

/-- `DeclaredJob::candidate`: the block the pool's node validates. -/
def candidate (job : DeclaredJob) : Except String Bytes :=
  match job.coinbase (List.replicate job.shape.extranonceLen 0) with
  | none => .error "invalid-coinbase-tx"
  | some coinbase =>
    match job.template.header coinbase job.template.version job.template.currentTime 0 with
    | .error _ => .error "invalid-job"
    | .ok header => (job.template.block coinbase header).mapError fun _ => "invalid-job"

/-- `DeclaredJob::solved`: the block a solution names, when it is one of this job's, and its hash. -/
def solved (job : DeclaredJob) (solution : Solution) : Option (Hash × Bytes) :=
  if solution.prevHash ≠ job.template.previousHash ∨ solution.nbits ≠ job.template.bits ∨
      job.template.wrongBits solution.ntime = true then none
  else do
    let coinbase ← job.coinbase solution.extranonce
    let header ← (job.template.header coinbase solution.version solution.ntime
      solution.nonce).toOption
    let hash := doubleSha256 header.bytes
    if ¬ meetsTarget hash job.template.target then none
    else do
      let block ← (job.template.block coinbase header).toOption
      return (hash, block)

end DeclaredJob

end Jd

end Pickaxe
