/-
# Transactions with tokens

How a transaction is written in bytes, and how the network reads it.  An output's tokens stand
before its locking bytecode, behind the byte `ef`: the category, a byte that says what follows, the
commitment and the amount.  An amount of zero is not written, and a commitment is not empty; an
output whose tokens are written in another way makes its transaction invalid.

The last part is what a signature covers, and when an input of a transaction is unlocked.
-/
import Pickaxe.Lib.CompactSize
import Pickaxe.Lib.ScriptCode

namespace Pickaxe.Lib.Script

/-- The outpoint an input spends (a transaction id in wire order and an output's index), with the
input's unlocking bytecode and sequence number. -/
structure RawIn where
  txid : ByteVec 32
  vout : ℕ
  unlocking : Bytes
  sequence : ℕ
deriving DecidableEq

/-- A transaction. -/
structure Tx where
  version : ℕ
  inputs : List RawIn
  outputs : List TxOut
  locktime : ℕ
deriving DecidableEq

/-! ## Writing -/

/-- The bytes of an outpoint. -/
def RawIn.outpoint (i : RawIn) : Bytes := i.txid.bytes ++ leBytes 4 i.vout

/-- The bytes of an input. -/
def RawIn.encode (i : RawIn) : Bytes :=
  i.outpoint ++ compactSize i.unlocking.length ++ i.unlocking ++ leBytes 4 i.sequence

/-- The byte that says what a token's bytes hold. -/
def Token.bitfield (t : Token) : UInt8 :=
  (match t.nft with
    | none => 0
    | some (capability, commitment) => 0x20 + capability + if commitment = [] then 0 else 0x40) +
    if t.amount = 0 then 0 else 0x10

/-- The bytes of tokens. -/
def Token.encode (t : Token) : Bytes :=
  0xef :: (t.category.bytes ++ t.bitfield :: ((match t.nft with
    | none => []
    | some (_, commitment) =>
      if commitment = [] then [] else compactSize commitment.length ++ commitment) ++
    if t.amount = 0 then [] else compactSize t.amount))

/-- The tokens and the locking bytecode. -/
def TxOut.content (o : TxOut) : Bytes := (o.token.map Token.encode).getD [] ++ o.bytecode

/-- The bytes of an output. -/
def TxOut.encode (o : TxOut) : Bytes :=
  leBytes 8 o.value ++ compactSize o.content.length ++ o.content

/-- The bytes of a transaction. -/
def Tx.encode (tx : Tx) : Bytes :=
  leBytes 4 tx.version ++ compactSize tx.inputs.length ++ tx.inputs.flatMap RawIn.encode ++
    compactSize tx.outputs.length ++ tx.outputs.flatMap TxOut.encode ++ leBytes 4 tx.locktime

/-! ## Reading -/

open Reader

/-- A count. -/
def readCompact : Reader Unit ℕ := compact () ()

/-- A number of a fixed width. -/
def readLe (n : ℕ) : Reader Unit ℕ := fromLe <$> take () n

/-- An input. -/
def readIn : Reader Unit RawIn := do
  let txid ← array () 32
  let vout ← readLe 4
  let length ← readCompact
  let unlocking ← take () length
  let sequence ← readLe 4
  return ⟨txid, vout, unlocking, sequence⟩

/-- A commitment behind its length. -/
def readCommitment : Reader Unit Bytes := do
  let length ← readCompact
  guard (0 < length ∧ length ≤ 40) ()
  take () length

/-- An amount. -/
def readAmount : Reader Unit ℕ := do
  let amount ← readCompact
  guard (0 < amount ∧ amount < 2 ^ 63) ()
  return amount

/-- A part that may be missing. -/
def readIf {α : Type} (present : Bool) (p : Reader Unit α) (a : α) : Reader Unit α :=
  if present then p else pure a

/-- What follows the byte that says what follows. -/
def readParts (category : ByteVec 32) (capability : ℕ) (hasNft hasCommitment hasAmount : Bool) :
    Reader Unit Token := do
  guard ((hasNft ∨ hasAmount) ∧ capability ≤ 2 ∧ (hasNft ∨ capability = 0 ∧ ¬ hasCommitment)) ()
  let commitment ← readIf hasCommitment readCommitment []
  let amount ← readIf hasAmount readAmount 0
  return ⟨category, if hasNft then some (UInt8.ofNat capability, commitment) else none, amount⟩

/-- The tokens behind the byte `ef`. -/
def readToken : Reader Unit Token := do
  let category ← array () 32
  let bits ← byte ()
  guard (bits.toNat < 0x80) ()
  readParts category (bits.toNat % 16) (decide (bits.toNat / 0x20 % 2 = 1))
    (decide (bits.toNat / 0x40 % 2 = 1)) (decide (bits.toNat / 0x10 % 2 = 1))

/-- The tokens and the locking bytecode of an output. -/
def parseContent (value : ℕ) (content : Bytes) : Except Unit TxOut :=
  match content with
  | 0xef :: rest => (readToken rest).map fun p => ⟨value, p.2, some p.1⟩
  | _ => .ok ⟨value, content, none⟩

/-- An output. -/
def readOut : Reader Unit TxOut := do
  let value ← readLe 8
  let length ← readCompact
  let content ← take () length
  match parseContent value content with
  | .ok o => return o
  | .error e => fail e

/-- A transaction. -/
def readTx : Reader Unit Tx := do
  let version ← readLe 4
  let inputs ← readCompact
  let inputs ← times readIn inputs
  let outputs ← readCompact
  let outputs ← times readOut outputs
  let locktime ← readLe 4
  return ⟨version, inputs, outputs, locktime⟩

/-- The transaction some bytes are. -/
def Tx.decode (raw : Bytes) : Except Unit Tx := do
  let (tx, rest) ← readTx raw
  if rest = [] then .ok tx else .error ()

/-! ## Round trip -/

/-- Tokens that can be written. -/
structure Token.Valid (t : Token) : Prop where
  some_token : t.nft.isSome ∨ t.amount ≠ 0
  amount_lt : t.amount < 2 ^ 63
  nft : ∀ p ∈ t.nft, p.1.toNat ≤ 2 ∧ p.2.length ≤ 40

/-- Outputs that can be written. -/
structure TxOut.Valid (o : TxOut) : Prop where
  value_lt : o.value < 2 ^ 64
  content_lt : o.content.length < 2 ^ 64
  token : ∀ t ∈ o.token, t.Valid
  /-- A bytecode without tokens does not look like tokens. -/
  plain : o.token = none → o.bytecode.head? ≠ some 0xef

/-- Inputs that can be written. -/
structure RawIn.Valid (i : RawIn) : Prop where
  vout_lt : i.vout < 2 ^ 32
  unlocking_lt : i.unlocking.length < 2 ^ 64
  sequence_lt : i.sequence < 2 ^ 32

/-- Transactions that can be written. -/
structure Tx.Valid (tx : Tx) : Prop where
  version_lt : tx.version < 2 ^ 32
  locktime_lt : tx.locktime < 2 ^ 32
  inputs_lt : tx.inputs.length < 2 ^ 64
  outputs_lt : tx.outputs.length < 2 ^ 64
  inputs : ∀ i ∈ tx.inputs, i.Valid
  outputs : ∀ o ∈ tx.outputs, o.Valid

/-- Tokens take few bytes. -/
lemma Token.Valid.length_encode {t : Token} (h : t.Valid) : t.encode.length ≤ 92 := by
  obtain ⟨category, nft, amount⟩ := t
  have hamount := length_compactSize_le amount
  have hzero : (if amount = 0 then [] else compactSize amount).length ≤ 9 := by
    split_ifs
    · exact Nat.zero_le _
    · exact hamount
  cases nft with
  | none =>
    simp only [Token.encode, List.length_cons, List.length_append, ByteVec.length_eq, List.length_nil]
    omega
  | some nft =>
    have hcommitment : nft.2.length ≤ 40 := (h.nft nft rfl).2
    have hlength := length_compactSize_le nft.2.length
    have hnil : (if nft.2 = [] then [] else compactSize nft.2.length ++ nft.2).length ≤ 49 := by
      split_ifs
      · exact Nat.zero_le _
      · rw [List.length_append]
        omega
    simp only [Token.encode, List.length_cons, List.length_append, ByteVec.length_eq]
    omega

lemma reads_le {n v : ℕ} (h : v < 256 ^ n) : Reads (readLe n) v (leBytes n v) := by
  have hread := (reads_take (e := ()) (length_leBytes n v)).map (g := fromLe)
  rwa [fromLe_leBytes_of_lt h] at hread

lemma reads_in {i : RawIn} (h : i.Valid) : Reads readIn i i.encode := by
  rw [RawIn.encode, RawIn.outpoint]
  simp only [List.append_assoc]
  refine (reads_array i.txid).bind ?_
  refine (reads_le (h.vout_lt.trans_eq (by norm_num))).bind ?_
  refine (reads_compact () () h.unlocking_lt).bind ?_
  refine (reads_take rfl).bind ?_
  rw [← List.append_nil (leBytes 4 i.sequence)]
  exact (reads_le (h.sequence_lt.trans_eq (by norm_num))).bind (reads_pure i)

lemma reads_commitment {c : Bytes} (hne : c ≠ []) (hle : c.length ≤ 40) :
    Reads readCommitment c (compactSize c.length ++ c) := by
  refine (reads_compact () () (by omega)).bind ?_
  exact Reads.guard_bind ⟨List.length_pos_iff.mpr hne, hle⟩ (reads_take rfl)

lemma reads_amount {n : ℕ} (hne : n ≠ 0) (hlt : n < 2 ^ 63) :
    Reads readAmount n (compactSize n) := by
  rw [← List.append_nil (compactSize n)]
  refine (reads_compact () () (by omega)).bind ?_
  exact Reads.guard_bind ⟨Nat.pos_of_ne_zero hne, hlt⟩ (reads_pure n)

/-- The parts of the byte that says what follows. -/
lemma bitfield_toNat {t : Token} (h : t.Valid) :
    t.bitfield.toNat = (match t.nft with
      | none => 0
      | some (capability, commitment) =>
        0x20 + capability.toNat + if commitment = [] then 0 else 0x40) +
      if t.amount = 0 then 0 else 0x10 := by
  obtain ⟨category, _ | ⟨capability, commitment⟩, amount⟩ := t
  · unfold Token.bitfield
    dsimp only
    split_ifs <;> rfl
  · have hcap := (h.nft _ rfl).1
    unfold Token.bitfield
    dsimp only at hcap ⊢
    split_ifs <;> simp [UInt8.toNat_add] <;> omega

lemma reads_parts {category : ByteVec 32} {capability amount : ℕ} {commitment : Bytes}
    {hasNft hasCommitment hasAmount : Bool} {v w : Bytes}
    (hguard : (hasNft ∨ hasAmount) ∧ capability ≤ 2 ∧ (hasNft ∨ capability = 0 ∧ ¬ hasCommitment))
    (hcommitment : Reads (readIf hasCommitment readCommitment []) commitment v)
    (hamount : Reads (readIf hasAmount readAmount 0) amount w) :
    Reads (readParts category capability hasNft hasCommitment hasAmount)
      ⟨category, if hasNft then some (UInt8.ofNat capability, commitment) else none, amount⟩
      (v ++ w) := by
  refine Reads.guard_bind hguard (hcommitment.bind ?_)
  rw [← List.append_nil w]
  exact hamount.bind (reads_pure _)

/-- Tokens behind their first byte are read back. -/
lemma reads_token {t : Token} (h : t.Valid) : ∃ w, t.encode = 0xef :: w ∧ Reads readToken t w := by
  refine ⟨_, rfl, ?_⟩
  have hbits := bitfield_toNat h
  refine (reads_array t.category).bind ?_
  show Reads _ t ([t.bitfield] ++ _)
  refine (reads_byte t.bitfield).bind ?_
  -- the amount is written where it is not zero
  have hamount : Reads (readIf (decide (t.amount ≠ 0)) readAmount 0) t.amount
      (if t.amount = 0 then [] else compactSize t.amount) := by
    by_cases hzero : t.amount = 0
    · rw [readIf, if_neg (by simp [hzero]), if_pos hzero, hzero]
      exact reads_pure 0
    · rw [readIf, if_pos (by simp [hzero]), if_neg hzero]
      exact reads_amount hzero h.amount_lt
  obtain ⟨category, _ | ⟨capability, commitment⟩, amount⟩ := t
  · have hne : amount ≠ 0 := by simpa using h.some_token
    dsimp only at hbits hamount ⊢
    rw [if_neg hne] at hbits
    refine Reads.guard_bind (by omega) ?_
    rw [hbits]
    rw [decide_eq_true hne] at hamount
    exact reads_parts (by decide) (reads_pure []) hamount
  · obtain ⟨hcap, hlength⟩ := h.nft _ rfl
    dsimp only at hbits hamount hcap hlength ⊢
    have hcommitment : Reads (readIf (decide (commitment ≠ [])) readCommitment []) commitment
        (if commitment = [] then [] else compactSize commitment.length ++ commitment) := by
      by_cases hnil : commitment = []
      · rw [readIf, if_neg (by simp [hnil]), if_pos hnil, hnil]
        exact reads_pure []
      · rw [readIf, if_pos (by simp [hnil]), if_neg hnil]
        exact reads_commitment hnil hlength
    have hlt : (Token.bitfield ⟨category, some (capability, commitment), amount⟩).toNat < 0x80 := by
      split_ifs at hbits <;> omega
    have hcapability : (Token.bitfield ⟨category, some (capability, commitment), amount⟩).toNat % 16 =
        capability.toNat := by
      split_ifs at hbits <;> omega
    have hnft : decide ((Token.bitfield ⟨category, some (capability, commitment), amount⟩).toNat /
        0x20 % 2 = 1) = true := by
      rw [decide_eq_true_eq]
      split_ifs at hbits <;> omega
    have hhas : decide ((Token.bitfield ⟨category, some (capability, commitment), amount⟩).toNat /
        0x40 % 2 = 1) = decide (commitment ≠ []) := by
      rw [decide_eq_decide]
      by_cases hnil : commitment = []
      · rw [if_pos hnil] at hbits
        exact iff_of_false (by split_ifs at hbits <;> omega) (fun h => h hnil)
      · rw [if_neg hnil] at hbits
        exact iff_of_true (by split_ifs at hbits <;> omega) hnil
    have hhasAmount : decide ((Token.bitfield ⟨category, some (capability, commitment), amount⟩).toNat /
        0x10 % 2 = 1) = decide (amount ≠ 0) := by
      rw [decide_eq_decide]
      split_ifs at hbits <;> omega
    refine Reads.guard_bind hlt ?_
    rw [hcapability, hnft, hhas, hhasAmount]
    have hparts : Reads (readParts category capability.toNat true _ _) _ _ :=
      reads_parts ⟨.inl rfl, hcap, .inl rfl⟩ hcommitment hamount
    rwa [UInt8.ofNat_toNat] at hparts

lemma reads_out {o : TxOut} (h : o.Valid) : Reads readOut o o.encode := by
  rw [TxOut.encode, List.append_assoc]
  refine (reads_le (h.value_lt.trans_eq (by norm_num))).bind ?_
  refine (reads_compact () () h.content_lt).bind ?_
  have hparse : parseContent o.value o.content = .ok o := by
    obtain ⟨value, bytecode, _ | token⟩ := o
    · have hplain := h.plain rfl
      unfold parseContent
      split
      · rename_i rest hcontent
        have hcontent : bytecode = 0xef :: rest := hcontent
        rw [hcontent] at hplain
        exact absurd rfl hplain
      · rfl
    · obtain ⟨w, hw, hreads⟩ := reads_token (h.token token rfl)
      show parseContent value (token.encode ++ bytecode) = _
      rw [hw, List.cons_append]
      show (readToken (w ++ bytecode)).map _ = _
      rw [hreads bytecode]
      rfl
  have hrest : Reads (match parseContent o.value o.content with
      | .ok o => pure o
      | .error e => fail e) o [] := by
    rw [hparse]
    exact reads_pure o
  have hread := (reads_take (e := ()) (w := o.content) rfl).bind
    (f := fun content => match parseContent o.value content with
      | .ok o => pure o
      | .error e => fail e) hrest
  rwa [List.append_nil] at hread

lemma reads_tx {tx : Tx} (h : tx.Valid) : Reads readTx tx tx.encode := by
  rw [Tx.encode]
  simp only [List.append_assoc]
  refine (reads_le (h.version_lt.trans_eq (by norm_num))).bind ?_
  refine (reads_compact () () h.inputs_lt).bind ?_
  refine (reads_times fun i hi => reads_in (h.inputs i hi)).bind ?_
  refine (reads_compact () () h.outputs_lt).bind ?_
  refine (reads_times fun o ho => reads_out (h.outputs o ho)).bind ?_
  rw [← List.append_nil (leBytes 4 tx.locktime)]
  exact (reads_le (h.locktime_lt.trans_eq (by norm_num))).bind (reads_pure tx)

/-- A transaction that can be written is read back. -/
lemma decode_encode {tx : Tx} (h : tx.Valid) : Tx.decode tx.encode = .ok tx := by
  rw [Tx.decode, (reads_tx h).run]
  rfl

/-! ## What is refused -/

/-- An amount of zero is not written. -/
lemma refuses_amount : Refuses readAmount (compactSize 0) := by
  rw [← List.append_nil (compactSize 0)]
  refine (reads_compact () () (by decide)).bind_refuses ?_
  exact (refuses_guard (by decide)).bind

lemma refuses_out {value : ℕ} {content : Bytes} {e : Unit} (hvalue : value < 2 ^ 64)
    (hlength : content.length < 2 ^ 64) (h : parseContent value content = .error e) :
    Refuses readOut (leBytes 8 value ++ compactSize content.length ++ content) := by
  rw [List.append_assoc]
  refine (reads_le (hvalue.trans_eq (by norm_num))).bind_refuses ?_
  refine (reads_compact () () hlength).bind_refuses ?_
  rw [← List.append_nil content]
  refine (reads_take (by rw [List.append_nil])).bind_refuses ?_
  intro rest
  simp only [h]
  exact ⟨e, rfl⟩

/-- A transaction with an output that is refused. -/
lemma decode_refuses {version count : ℕ} {inputs : List RawIn} {w : Bytes}
    (hversion : version < 2 ^ 32) (hlength : inputs.length < 2 ^ 64) (hcount : count < 2 ^ 64)
    (hinputs : ∀ i ∈ inputs, i.Valid) (h : Refuses (times readOut count) w) (tx : Tx) :
    Tx.decode (leBytes 4 version ++ (compactSize inputs.length ++ (inputs.flatMap RawIn.encode ++
      (compactSize count ++ w)))) ≠ .ok tx := by
  have hrefuses : Refuses readTx (leBytes 4 version ++ (compactSize inputs.length ++
      (inputs.flatMap RawIn.encode ++ (compactSize count ++ w)))) := by
    refine (reads_le (hversion.trans_eq (by norm_num))).bind_refuses ?_
    refine (reads_compact () () hlength).bind_refuses ?_
    refine (reads_times fun i hi => reads_in (hinputs i hi)).bind_refuses ?_
    refine (reads_compact () () hcount).bind_refuses ?_
    exact h.bind
  obtain ⟨e, he⟩ := hrefuses []
  rw [List.append_nil] at he
  intro hdecode
  rw [Tx.decode, he] at hdecode
  cases hdecode

/-! ## Signatures and unlocking -/

/-- The functions outside scripts a script uses. -/
structure Crypto where
  hash256 : Bytes → Bytes
  /-- Whether a signature of a message by a key is valid. -/
  verify : Bytes → Bytes → Bytes → Bool
  /-- The check of signatures that cover something else. -/
  other : Bytes → Bytes → Bool

variable (crypto : Crypto)

/-- What a signature of all inputs and outputs (`SIGHASH_ALL | FORKID`) covers: the input, the output
it spends and the script that runs, next to hashes over the whole transaction. -/
def Tx.signed (tx : Tx) (input : RawIn) (spent : TxOut) (code : Bytes) : Bytes :=
  leBytes 4 tx.version ++ crypto.hash256 (tx.inputs.flatMap RawIn.outpoint) ++
    crypto.hash256 (tx.inputs.flatMap fun i => leBytes 4 i.sequence) ++ input.outpoint ++
    (spent.token.map Token.encode).getD [] ++ compactSize code.length ++ code ++
    leBytes 8 spent.value ++ leBytes 4 input.sequence ++
    crypto.hash256 (tx.outputs.flatMap TxOut.encode) ++ leBytes 4 tx.locktime ++ leBytes 4 0x41

/-- A transaction seen from an input, whose script is `code`. -/
def Tx.spend (tx : Tx) (spent : List TxOut) (index : ℕ) (input : RawIn) (out : TxOut) (code : Bytes) :
    Spend where
  inputs := List.zipWith (fun o i => ⟨o, i.sequence⟩) spent tx.inputs
  outputs := tx.outputs
  locktime := tx.locktime
  index := index
  hash256 := crypto.hash256
  checkSig sig key :=
    if sig.length = 65 ∧ sig.getLast? = some 0x41 then
      crypto.verify key (crypto.hash256 (tx.signed crypto input out code)) (sig.take 64)
    else crypto.other sig key

/-- A signature with the hash type of all inputs and outputs is checked against what it covers. -/
lemma checkSig_spend {crypto : Crypto} {tx : Tx} {spent : List TxOut} {index : ℕ} {input : RawIn}
    {out : TxOut} {code key : Bytes} (sig : ByteVec 64) :
    (tx.spend crypto spent index input out code).checkSig (sig.bytes ++ [0x41]) key =
      crypto.verify key (crypto.hash256 (tx.signed crypto input out code)) sig.bytes := by
  have hlast : (sig.bytes ++ [0x41]).length = 65 ∧ (sig.bytes ++ [0x41]).getLast? = some 0x41 := by
    simp
  have htake : (sig.bytes ++ [0x41]).take 64 = sig.bytes := List.take_left' sig.length_eq
  show (if _ then _ else _) = _
  rw [if_pos hlast, htake]

/-- The data of a push. -/
def Instr.data? : Instr → Option Bytes
  | .op (.push d) => some d
  | _ => none

/-- The stack a script of pushes leaves. -/
def pushed (unlocking : Bytes) : Option (List Bytes) := do
  let code ← parse unlocking
  let data ← code.mapM Instr.data?
  return data.reverse

lemma mapM_data? (data : List Bytes) :
    (data.map fun d => Instr.op (.push d)).mapM Instr.data? = some data := by
  induction data with
  | nil => rfl
  | cons d data ih =>
    rw [List.map_cons, List.mapM_cons, ih]
    rfl

lemma pushed_of_parses {bytes : Bytes} {data : List Bytes}
    (h : Parses bytes (data.map fun d => .op (.push d))) : pushed bytes = some data.reverse := by
  rw [pushed, h.parse, Option.bind_eq_bind, Option.bind_some, mapM_data?]
  rfl

/-- The lock of a script's hash. -/
def scriptLock (redeem : Bytes) : Bytes := [0xaa, 0x20] ++ crypto.hash256 redeem ++ [0x87]

/-- An input that spends a script's hash is unlocked: its last push is the script, which accepts the
stack of the others. -/
def Tx.Unlocks (tx : Tx) (spent : List TxOut) (index : ℕ) : Prop :=
  ∃ input out redeem stack code, tx.inputs[index]? = some input ∧ spent[index]? = some out ∧
    pushed input.unlocking = some (redeem :: stack) ∧ out.bytecode = scriptLock crypto redeem ∧
    parse redeem = some code ∧ Accepts (tx.spend crypto spent index input out redeem) code ⟨stack, []⟩

variable {crypto}

/-- An input with a known lock is unlocked by the script it pushes. -/
lemma unlocks_iff {tx : Tx} {spent : List TxOut} {index : ℕ} {input : RawIn} {out : TxOut}
    {redeem : Bytes} {stack : List Bytes} (hinput : tx.inputs[index]? = some input)
    (hout : spent[index]? = some out) (hpushed : pushed input.unlocking = some (redeem :: stack))
    (hlock : out.bytecode = scriptLock crypto redeem) :
    tx.Unlocks crypto spent index ↔ ∃ code, parse redeem = some code ∧
      Accepts (tx.spend crypto spent index input out redeem) code ⟨stack, []⟩ := by
  constructor
  · rintro ⟨input', out', redeem', stack', code, hinput', hout', hpushed', -, hparse, haccepts⟩
    cases hinput.symm.trans hinput'
    cases hout.symm.trans hout'
    cases hpushed.symm.trans hpushed'
    exact ⟨code, hparse, haccepts⟩
  · rintro ⟨code, hparse, haccepts⟩
    exact ⟨input, out, redeem, stack, code, hinput, hout, hpushed, hlock, hparse, haccepts⟩

end Pickaxe.Lib.Script
