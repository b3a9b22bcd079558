/-
# The Bitcoin library

What the program relies on the library for (`Lawful`), which templates it is used on
(`Full`), and a library for transactions without witnesses that has these properties.
-/
import Pickaxe.Jd.Token
import Pickaxe.Journal.Block

namespace Pickaxe

open Lib Merge

namespace Journal

section Library

variable [Hasher]

/-- `coinbase_path`: the coinbase's merkle branch over the block's other transactions. -/
def coinbasePath (txids : List Hash) : List Hash :=
  Merkle.evenedPath pairHash (ByteVec.zero 32 :: txids)

/-- A block's template is no token's. -/
lemma coinbasePath_plain (txids : List Hash) : ∀ job : TokenJob, Work.block = .token job →
    coinbasePath txids = [] ∧ (none : Option Prepared) = none := by
  intro job h
  cases h

/-- `merkle_root`: level by level, the last digest of an odd level once more. -/
def merkleRoot (hashes : List Hash) : Hash := Merkle.evenedRoot pairHash hashes

/-- Folding a coinbase's hash over the path gives the root of its block, whatever the zero digest that
stood in for it. -/
theorem foldPath_coinbasePath (coinbase : Hash) (txids : List Hash) :
    foldPath coinbase (coinbasePath txids) = merkleRoot (coinbase :: txids) := by
  rw [merkleRoot, foldPath, coinbasePath]
  exact Merkle.foldl_evenedPath pairHash (ByteVec.zero 32) coinbase txids

/-- Three transactions: the third stands twice below the root. -/
example (a b c : Hash) :
    merkleRoot [a, b, c] = pairHash (pairHash a b) (pairHash c c) := by
  simp [merkleRoot, Merkle.evenedRoot, Merkle.evened, Merkle.pairs]

/-- A transaction without witnesses. -/
def Transaction.Plain (tx : Transaction) : Prop := ∀ input ∈ tx.input, input.witness = []

variable [Bitcoin]

/-- `checked_transaction`: a template transaction's hash. -/
def checkedTransaction (bytes : Bytes) : Except String Hash :=
  match Bitcoin.deserializeTransaction bytes with
  | none => .error "malformed template transaction"
  | some tx =>
    if tx.isCoinbase ∨ tx.input.isEmpty ∨ (tx.input.any fun input => !input.witness.isEmpty) ∨
        bytes[4]? = some 0 then
      .error "template contains coinbase, empty inputs or witness encoding"
    else .ok (doubleSha256 bytes)

/-- The coinbase transaction with this script and these outputs. -/
def coinbaseTransaction (script : Bytes) (outputs : List (ℕ × Bytes)) : Transaction :=
  { version := 2
    input := [⟨ByteVec.zero 32, 0xffffffff, script, 0xffffffff, []⟩]
    output := outputs
    lockTime := 0 }

/-- What the program relies on the Bitcoin library for. -/
structure Lawful : Prop where
  /-- A block is its header, a count and that many transactions. -/
  deserialize : ∀ (header : ByteVec 80) (raw : List Bytes) (txdata : List Transaction),
    List.Forall₂ (fun bytes tx => Bitcoin.deserializeTransaction bytes = some tx) raw txdata →
    raw.length < 2 ^ 32 →
    Bitcoin.deserialize (header.bytes ++ compactSize raw.length ++ raw.flatten) =
      some ⟨header, txdata⟩
  /-- A coinbase's serialization, with few enough outputs and short scripts. -/
  deserializeTransaction : ∀ (script : Bytes) (outputs : List (ℕ × Bytes)),
    script.length ≤ 100 → outputs.length < 253 →
    (∀ o ∈ outputs, o.1 ≤ 21000000 * 100000000 ∧ o.2.length < 253) →
    Bitcoin.deserializeTransaction (BchTemplate.beforeScript script.length ++ script ++
      BchTemplate.afterScript outputs none) = some (coinbaseTransaction script outputs)
  /-- The merkle root is over the transactions' bytes, when none has a witness. -/
  checkMerkleRoot : ∀ (header : ByteVec 80) (raw : List Bytes) (txdata : List Transaction),
    List.Forall₂ (fun bytes tx => Bitcoin.deserializeTransaction bytes = some tx) raw txdata →
    raw ≠ [] → (∀ tx ∈ txdata, tx.Plain) →
    slice header.bytes 36 68 = (Merkle.evenedRoot pairHash (raw.map doubleSha256)).bytes →
    Bitcoin.checkMerkleRoot ⟨header, txdata⟩ = true
  /-- A header's target is that of its bits. -/
  validatePow : ∀ (header : ByteVec 80) (bits : UInt32) (target : Hash),
    slice header.bytes 72 76 = u32Le bits → compactTarget bits = .ok target →
    meetsTarget (doubleSha256 header.bytes) target = true → Bitcoin.validatePow header = true

/-- A template as its source checked it: the transactions are full and plain, the branch is
theirs, the target is that of the bits. -/
structure Full (t : BchTemplate) : Prop where
  transactions : ∀ bytes ∈ t.transactions, checkedTransaction bytes = .ok (doubleSha256 bytes)
  merklePath : t.merklePath = coinbasePath (t.transactions.map doubleSha256)
  target : compactTarget t.bits = .ok t.target
  value : t.coinbaseValue ≤ 21000000 * 100000000
  count : t.transactions.length + 1 < 2 ^ 32
  own : t.isHeaderOnly = false
  block : t.isBlock = true

end Library

/-! ## A library for plain transactions -/

/-- A transaction's input without its witness. -/
def TxIn.bytes (input : TxIn) : Bytes :=
  input.previousHash.bytes ++ (u32Le input.previousIndex ++
    (compactSize input.script.length ++ (input.script ++ u32Le input.sequence)))

/-- A transaction without witnesses. -/
def Transaction.bytes (tx : Transaction) : Bytes :=
  u32Le tx.version ++ (compactSize tx.input.length ++ (tx.input.flatMap TxIn.bytes ++
    (compactSize tx.output.length ++ (tx.output.flatMap Jd.outputBytes ++ u32Le tx.lockTime))))

/-- What `plainLibrary` reads: no witnesses, amounts that exist, lengths that fit. -/
def Transaction.isPlain (tx : Transaction) : Bool :=
  (tx.input.all fun i => i.witness.isEmpty && decide (i.script.length < 2 ^ 32)) &&
    decide (tx.input.length < 2 ^ 32) && decide (tx.output.length < 2 ^ 32) &&
    tx.output.all fun o => decide (o.1 ≤ Jd.maxMoney) && decide (o.2.length ≤ 10000)

/-- The next four bytes as a number. -/
def readU32 : Reader String UInt32 := u32OfLe <$> Reader.take "truncated" 4

/-- One input. -/
def readInput : Reader String TxIn := do
  let previousHash ← Reader.array "truncated" 32
  let previousIndex ← readU32
  let length ← Jd.readCompactSize "truncated"
  let script ← Reader.take "truncated" length
  let sequence ← readU32
  return ⟨previousHash, previousIndex, script, sequence, []⟩

/-- One transaction. -/
def readTransaction : Reader String Transaction := do
  let version ← readU32
  let inputs ← Jd.readCompactSize "truncated"
  let input ← Reader.times readInput inputs
  let outputs ← Jd.readCompactSize "truncated"
  let output ← Reader.times Jd.readOutput outputs
  let lockTime ← readU32
  return ⟨version, input, output, lockTime⟩

/-- A block: its header, a count and that many transactions. -/
def readBlock : Reader String Block := do
  let header ← Reader.array "truncated" 80
  let count ← Jd.readCompactSize "truncated"
  let txdata ← Reader.times readTransaction count
  Reader.eof "trailing"
  return ⟨header, txdata⟩

/-- The transaction these bytes are, if it is a plain one. -/
def plainTransaction (bytes : Bytes) : Option Transaction :=
  match readTransaction bytes with
  | .ok (tx, []) => if tx.isPlain ∧ tx.bytes = bytes then some tx else none
  | _ => none

lemma reads_u32 (v : UInt32) : Reader.Reads readU32 v (u32Le v) := by
  have h := (Reader.reads_take (e := "truncated") (length_u32Le v)).map (g := u32OfLe)
  rwa [u32OfLe_u32Le] at h

lemma reads_input {input : TxIn} (hwitness : input.witness = [])
    (hlength : input.script.length < 2 ^ 32) : Reader.Reads readInput input input.bytes := by
  unfold readInput TxIn.bytes
  refine (Reader.reads_array _).bind ((reads_u32 _).bind ?_)
  refine (Jd.reads_compactSize _ (by omega)).bind ((Reader.reads_take rfl).bind ?_)
  have h := (reads_u32 input.sequence).bind (f := fun s => (pure ⟨input.previousHash,
    input.previousIndex, input.script, s, []⟩ : Reader String TxIn)) (Reader.reads_pure _)
  have hplain : ⟨input.previousHash, input.previousIndex, input.script, input.sequence, []⟩ =
      input := by rw [← hwitness]
  rwa [List.append_nil, hplain] at h

lemma reads_transaction {tx : Transaction} (h : tx.isPlain = true) :
    Reader.Reads readTransaction tx tx.bytes := by
  simp only [Transaction.isPlain, Bool.and_eq_true, List.all_eq_true, decide_eq_true_eq,
    List.isEmpty_iff] at h
  obtain ⟨⟨⟨hinput, hinputs⟩, houtputs⟩, houtput⟩ := h
  unfold readTransaction Transaction.bytes
  refine (reads_u32 _).bind ((Jd.reads_compactSize _ (by omega)).bind ?_)
  refine (Reader.reads_times fun i hi => reads_input (hinput i hi).1 (hinput i hi).2).bind ?_
  refine (Jd.reads_compactSize _ (by omega)).bind ?_
  refine (Jd.reads_outputs fun o ho => houtput o ho).bind ?_
  have h := (reads_u32 tx.lockTime).bind (f := fun t => (pure ⟨tx.version, tx.input, tx.output, t⟩ :
    Reader String Transaction)) (Reader.reads_pure _)
  rwa [List.append_nil] at h

/-- Exactly the plain transactions' own bytes are read. -/
lemma plainTransaction_eq_some {bytes : Bytes} {tx : Transaction} :
    plainTransaction bytes = some tx ↔ tx.isPlain = true ∧ tx.bytes = bytes := by
  constructor
  · intro h
    unfold plainTransaction at h
    split at h
    · split_ifs at h with hplain
      cases h
      exact hplain
    · cases h
  · rintro ⟨hplain, rfl⟩
    rw [plainTransaction, (reads_transaction hplain).run]
    simp [hplain]

/-- The library as far as plain transactions go. -/
abbrev plainLibrary [Hasher] : Bitcoin where
  deserialize bytes := (readBlock bytes).toOption.map Prod.fst
  deserializeTransaction := plainTransaction
  checkMerkleRoot block := slice block.header.bytes 36 68 ==
    (Merkle.evenedRoot pairHash (block.txdata.map fun tx => doubleSha256 tx.bytes)).bytes
  validatePow header :=
    match compactTarget (u32OfLe (slice header.bytes 72 76)) with
    | .ok target => meetsTarget (doubleSha256 header.bytes) target
    | .error _ => false

/-- The bytes of transactions that are read are their own. -/
lemma eq_map_bytes {raw : List Bytes} {txdata : List Transaction}
    (h : List.Forall₂ (fun bytes tx => plainTransaction bytes = some tx) raw txdata) :
    raw = txdata.map Transaction.bytes ∧ ∀ tx ∈ txdata, tx.isPlain = true := by
  induction h with
  | nil => exact ⟨rfl, by simp⟩
  | cons htx _ ih =>
    obtain ⟨hplain, rfl⟩ := plainTransaction_eq_some.mp htx
    exact ⟨by rw [ih.1, List.map_cons], by simpa using ⟨hplain, ih.2⟩⟩

lemma bytes_coinbaseTransaction (script : Bytes) (outputs : List (ℕ × Bytes)) :
    (coinbaseTransaction script outputs).bytes = BchTemplate.beforeScript script.length ++ script ++
      BchTemplate.afterScript outputs none := by
  have houtput : BchTemplate.outputBytes = Jd.outputBytes := by
    funext o
    simp [BchTemplate.outputBytes, Jd.outputBytes]
  have hone : compactSize 1 = [1] := by decide
  have hindex : u32Le 0xffffffff = List.replicate 4 0xff := by decide
  have hversion : u32Le 2 = leBytes 4 2 := rfl
  have htime : u32Le 0 = leBytes 4 0 := rfl
  simp [coinbaseTransaction, Transaction.bytes, TxIn.bytes, BchTemplate.beforeScript,
    BchTemplate.afterScript, BchTemplate.outputCount, houtput, hone, hindex, hversion, htime,
    ByteVec.zero]

/-- This library has the properties the program relies on. -/
lemma lawful_plainLibrary [Hasher] : @Lawful _ plainLibrary :=
  let _ : Bitcoin := plainLibrary
  { deserialize header raw txdata hread hcount := by
      obtain ⟨rfl, hplain⟩ := eq_map_bytes hread
      have htxdata := Reader.reads_times fun tx htx => reads_transaction (hplain tx htx)
      have hblock : readBlock (header.bytes ++ (compactSize txdata.length ++
          txdata.flatMap Transaction.bytes)) = .ok (⟨header, txdata⟩, []) := by
        rw [readBlock, (Reader.reads_array header).bind_apply,
          (Jd.reads_compactSize _ (by rw [List.length_map] at hcount; omega)).bind_apply]
        have h := htxdata.bind_apply (f := fun txdata => do
          Reader.eof "trailing"
          return (⟨header, txdata⟩ : Block)) []
        rw [List.append_nil] at h
        exact h
      show (readBlock _).toOption.map Prod.fst = _
      rw [List.length_map, List.append_assoc, ← List.flatMap_def, hblock]
      rfl
    deserializeTransaction script outputs hscript hlength houtputs := by
      refine plainTransaction_eq_some.mpr ⟨?_, bytes_coinbaseTransaction script outputs⟩
      simp only [Transaction.isPlain, coinbaseTransaction, Bool.and_eq_true, List.all_eq_true,
        decide_eq_true_eq]
      refine ⟨⟨⟨?_, by simp⟩, decide_eq_true (show outputs.length < 2 ^ 32 by omega)⟩, fun o ho => ?_⟩
      · simp
        omega
      · have := houtputs o ho
        exact ⟨this.1, by omega⟩
    checkMerkleRoot header raw txdata hread _ _ hroot := by
      obtain ⟨rfl, -⟩ := eq_map_bytes hread
      rw [List.map_map] at hroot
      exact beq_iff_eq.mpr hroot
    validatePow header bits target hbits htarget hmeets := by
      show (match compactTarget (u32OfLe (slice header.bytes 72 76)) with
        | .ok target => meetsTarget (doubleSha256 header.bytes) target
        | .error _ => false) = true
      rw [hbits, u32OfLe_u32Le, htarget]
      exact hmeets }

end Journal

end Pickaxe
