/-
# The claim check before broadcast

A claim's bytes, read back the way the covenant reads them through introspection, against
every rule it enforces.  `checkClaim_eq_ok` says what is accepted: `Spends` what the bytes are,
`Passes` what holds of the parts.
-/
import Pickaxe.Lib.Result
import Pickaxe.Safa.Claim

namespace Pickaxe.Safa

open Lib Merge

/-! ## Reading a transaction -/

/-- An output as introspection shows it. -/
structure TxOutput where
  value : ℕ
  locking : Bytes
  category : Option Hash
  /-- The NFT's capability and commitment, if it carries one. -/
  nft : Option (UInt8 × Bytes)
  amount : ℕ
deriving DecidableEq

/-- A transaction's input: what it spends, its unlocking bytecode and its sequence. -/
structure TxInput where
  outpoint : OutPoint
  unlocking : Bytes
  sequence : UInt32
deriving DecidableEq

/-- A transaction. -/
structure Tx where
  inputs : List TxInput
  outputs : List TxOutput
  locktime : UInt32

/-- `Reader::u32`. -/
def readU32 : Reader String UInt32 := u32OfLe <$> Reader.take truncated 4

/-- `Reader::u64`. -/
def readU64 : Reader String ℕ := fromLe <$> Reader.take truncated 8

/-- `Reader::compact`: a minimally encoded compact size. -/
def readCompact : Reader String ℕ :=
  Reader.compact truncated "the claim transaction has a non-minimal compact size"

/-- A token prefix that is none. -/
def badPrefix : String := "the claim has a malformed token prefix"

/-- The commitment of a token prefix, if its bitfield announces one. -/
def readCommitment (hasCommitment : Bool) : Reader String Bytes :=
  if hasCommitment then do
    let length ← readCompact
    Reader.guard (length ≠ 0) badPrefix
    Reader.take truncated length
  else pure []

/-- The amount of a token prefix, if its bitfield announces one. -/
def readAmount (hasAmount : Bool) : Reader String ℕ :=
  if hasAmount then do
    let amount ← readCompact
    Reader.guard (amount ≠ 0 ∧ amount < 2 ^ 63) badPrefix
    return amount
  else pure 0

/-- A token prefix after its first byte. -/
def readToken : Reader String (Hash × Option (UInt8 × Bytes) × ℕ) := do
  let category ← Reader.array truncated 32
  let bitfield ← Reader.byte truncated
  let capability := bitfield &&& 0x0f
  let hasCommitment := bitfield &&& 0x40 != 0
  let hasNft := bitfield &&& 0x20 != 0
  let hasAmount := bitfield &&& 0x10 != 0
  Reader.guard (¬ (bitfield &&& 0x80 ≠ 0 ∨ capability > 2 ∨ (hasCommitment ∧ ¬ hasNft) ∨
    (¬ hasNft ∧ capability ≠ 0) ∨ (¬ hasNft ∧ ¬ hasAmount))) badPrefix
  let commitment ← readCommitment hasCommitment
  let amount ← readAmount hasAmount
  return (category, if hasNft then some (capability, commitment) else none, amount)

/-- `parse_output`. -/
def parseOutput (value : ℕ) (bytecode : Bytes) : Except String TxOutput :=
  if bytecode.head? ≠ some 0xef then .ok ⟨value, bytecode, none, none, 0⟩
  else match readToken bytecode.tail with
    | .error e => .error e
    | .ok ((category, nft, amount), locking) => .ok ⟨value, locking, some category, nft, amount⟩

/-- One input. -/
def readInput : Reader String TxInput := do
  let txid ← Reader.array truncated 32
  let vout ← readU32
  let length ← readCompact
  let unlocking ← Reader.take truncated length
  let sequence ← readU32
  return ⟨⟨txid, vout⟩, unlocking, sequence⟩

/-- One output. -/
def readTxOutput : Reader String TxOutput := do
  let value ← readU64
  let length ← readCompact
  let bytecode ← Reader.take truncated length
  match parseOutput value bytecode with
  | .error e => Reader.fail e
  | .ok output => return output

/-- The reader of `parse_tx`, up to the end of the bytes. -/
def readTx : Reader String Tx := do
  let _ ← readU32
  let inputCount ← readCompact
  let inputs ← Reader.times readInput inputCount
  let outputCount ← readCompact
  let outputs ← Reader.times readTxOutput outputCount
  let locktime ← readU32
  return ⟨inputs, outputs, locktime⟩

/-- `parse_tx`. -/
def parseTx (raw : Bytes) : Except String Tx :=
  Prod.fst <$> (do
    let tx ← readTx
    Reader.eof "the claim transaction has trailing bytes"
    return tx : Reader String Tx) raw

/-! ## The check -/

/-- The covenant's refusal. -/
def refuse {α : Type} (why : String) : Except String α :=
  .error ("the covenant would refuse this claim: " ++ why)

/-- What a share output shows the covenant. -/
def TxOutput.view [Hasher] (o : TxOutput) : TokenOutput :=
  { sats := o.value
    scriptHash := doubleSha256 o.locking
    category := o.category.getD (ByteVec.zero 32)
    nft := o.nft.map Prod.fst
    amount := o.amount }

/-- A coinbase height the covenant reads. -/
def checkHeight (head : Bytes) : Except String UInt32 :=
  match coinbaseHeight head with
  | none => refuse "no BIP34 height it reads"
  | some height =>
    if height < locktimeThreshold then .ok (UInt32.ofNat height)
    else refuse "no BIP34 height it reads"

/-- The split an unlocking bytecode pushes. -/
def checkSplit (preimage : Bytes) : Except String Split :=
  if preimage = [] then .ok Split.none
  else match Split.parse preimage with
    | .error e => refuse e.display
    | .ok split => .ok split

/-- What the covenant reads of a claim's bytes. -/
structure ClaimParts where
  /-- The transaction's size. -/
  size : ℕ
  sequence : UInt32
  locktime : UInt32
  /-- The pushes before the redeem script. -/
  preimage : Bytes
  payoutHash : Hash
  proof : Bytes
  vaultOut : TxOutput
  shareOuts : List TxOutput

variable [Hasher]

/-- The shares, the fee and what a node needs to relay a claim. -/
def checkPaid (d : Deployment) (vault : Vault) (c : ClaimParts) (split : Split)
    (next : ThreadState) : Except String Unit :=
  if vault.reward = 0 ∨ c.vaultOut.amount ≠ vault.tokens.toNat - vault.reward then
    refuse "the vault does not keep its tokens less the reward"
  else
    let expected := expectedOutputs split c.payoutHash
      (split.claimShares vault.reward (vault.amm d))
    match checkClaimOutputs expected (c.shareOuts.map TxOutput.view) d.category with
    | .error e => refuse e.display
    | .ok () =>
      if c.shareOuts.any fun o => decide (o.locking.length > maxPayoutScript) then
        refuse "a share output's script is longer than 35 bytes"
      else
        let sizeBound := d.feeK + c.proof.length
        let paid := outputSats * expected.length
        if vault.value.toNat < c.vaultOut.value + paid ∨
            vault.value.toNat - (c.vaultOut.value + paid) < sizeBound ∨
            maxFeeRate * sizeBound < vault.value.toNat - (c.vaultOut.value + paid) then
          refuse "the vault's fee is outside S to 3S"
        else if c.size > sizeBound then .error "the claim is larger than its size bound"
        else if c.vaultOut.value <
            vaultFloor (vaultOutput d c.vaultOut.value c.vaultOut.amount next.encode).length then
          refuse "the vault keeps fewer than 800 satoshis, or dust"
        else .ok ()

/-- The proof, the header and the next state of a claim, once its target is found. -/
def checkProven (d : Deployment) (vault : Vault) (c : ClaimParts) (parsed : AuxProof)
    (height targetBits : UInt32) (next : Bytes) : Except String Unit := do
  let split ← checkSplit c.preimage
  match verifyLeaf parsed (claimLeaf d vault c.payoutHash targetBits split) maxAuxHeight with
  | .error e => refuse e.display
  | .ok () =>
    if bchHeader d.network parsed.header height vault.state = false then
      refuse "the header's nBits are outside the ASERT and fallback bands"
    else if next ≠ (nextState vault height targetBits parsed.header).encode.bytes then
      refuse "output 0 does not carry the next state"
    else checkPaid d vault c split (nextState vault height targetBits parsed.header)

/-- `check_claim`, of the parts of a claim that spends the vault. -/
def checkParts (d : Deployment) (vault : Vault) (c : ClaimParts) : Except String Unit :=
  if c.vaultOut.locking ≠ d.lockingBytecode ∨ c.vaultOut.category ≠ some d.category ∨
      c.vaultOut.nft.map Prod.fst ≠ some mutableNft then
    refuse "output 0 is not the vault"
  else
    let next := (c.vaultOut.nft.map Prod.snd).getD []
    if next = vault.commitment.bytes then refuse "an unchanged state is a trade, not a claim"
    else do
      let parsed ← (AuxProof.fromBytes c.proof).mapError ProofError.display
      let height ← checkHeight parsed.cbHead
      if c.sequence = 0xffffffff ∨ c.locktime < height ∨ c.locktime.toNat ≥ locktimeThreshold then
        refuse "its lock time does not reach the coinbase height (CLTV)"
      else if vault.state.height ≥ height then
        refuse "the coinbase is not newer than the thread's state"
      else match claimTargetBits vault.state.targetBits (height - vault.state.height) d.threads with
        | none => refuse "the state's target is not canonical"
        | some targetBits => checkProven d vault c parsed height targetBits next

/-- `check_claim`: a claim's bytes against the covenant's rules for `vault`. -/
def checkClaim (d : Deployment) (vault : Vault) (raw : Bytes) : Except String Unit := do
  let tx ← parseTx raw
  match tx.inputs with
  | [input] =>
    if input.outpoint ≠ vault.outpoint then refuse "it does not spend the vault"
    else if input.unlocking.length > maxUnlockingBytes then
      refuse "its unlocking bytecode exceeds 10,000 bytes"
    else do
      let pushes ← parsePushes input.unlocking
      match pushes with
      | [preimage, payoutHash, proof, redeem] =>
        if redeem ≠ d.redeemScript then refuse "it unlocks another covenant"
        else match ByteVec.ofBytes? 32 payoutHash with
          | none => refuse "the payout hash is not 32 bytes"
          | some payoutHash => match tx.outputs with
            | [] => refuse "it has no outputs"
            | vaultOut :: shareOuts =>
              checkParts d vault ⟨raw.length, input.sequence, tx.locktime, preimage, payoutHash,
                proof, vaultOut, shareOuts⟩
      | _ => refuse "its unlocking bytecode is not split, payout hash, proof and redeem script"
  | _ => refuse "a claim spends the vault alone"

/-! ## What is accepted -/

/-- What the bytes of an accepted claim are: a transaction that spends the vault alone and
unlocks it with four pushes, whose parts are `c`. -/
structure Spends (d : Deployment) (vault : Vault) (raw : Bytes) (c : ClaimParts) : Prop where
  size : c.size = raw.length
  tx : ∃ unlocking, parseTx raw = .ok ⟨[⟨vault.outpoint, unlocking, c.sequence⟩],
      c.vaultOut :: c.shareOuts, c.locktime⟩ ∧ unlocking.length ≤ maxUnlockingBytes ∧
    parsePushes unlocking = .ok [c.preimage, c.payoutHash.bytes, c.proof, d.redeemScript]

/-- What holds of the parts of an accepted claim. -/
structure Passes (d : Deployment) (vault : Vault) (c : ClaimParts) (parsed : AuxProof)
    (height targetBits : UInt32) (split : Split) : Prop where
  locking : c.vaultOut.locking = d.lockingBytecode
  category : c.vaultOut.category = some d.category
  nft : c.vaultOut.nft =
    some (mutableNft, (nextState vault height targetBits parsed.header).encode.bytes)
  changed : (nextState vault height targetBits parsed.header).encode ≠ vault.commitment
  proof : AuxProof.fromBytes c.proof = .ok parsed
  coinbase : coinbaseHeight parsed.cbHead = some height.toNat ∧ height.toNat < locktimeThreshold
  lock : c.sequence ≠ 0xffffffff ∧ height ≤ c.locktime ∧ c.locktime.toNat < locktimeThreshold
  newer : vault.state.height < height
  target : claimTargetBits vault.state.targetBits (height - vault.state.height) d.threads =
    some targetBits
  preimage : checkSplit c.preimage = .ok split
  leaf : Accepts parsed (claimLeaf d vault c.payoutHash targetBits split) maxAuxHeight
  header : bchHeader d.network parsed.header height vault.state = true
  reward : vault.reward ≠ 0
  kept : c.vaultOut.amount = vault.tokens.toNat - vault.reward
  shares : c.shareOuts.map TxOutput.view =
    (expectedOutputs split c.payoutHash (split.claimShares vault.reward (vault.amm d))).map
      fun o => ⟨splitOutputSats, o.scriptHash, d.category, none, o.amount⟩
  scripts : ∀ o ∈ c.shareOuts, o.locking.length ≤ maxPayoutScript
  /-- The vault pays from `S` to `3S`. -/
  fee : ∃ fee, vault.value.toNat = c.vaultOut.value + outputSats * c.shareOuts.length + fee ∧
    d.feeK + c.proof.length ≤ fee ∧ fee ≤ maxFeeRate * (d.feeK + c.proof.length)
  size : c.size ≤ d.feeK + c.proof.length
  floor : vaultFloor (vaultOutput d c.vaultOut.value c.vaultOut.amount
    (nextState vault height targetBits parsed.header).encode).length ≤ c.vaultOut.value

omit [Hasher] in
@[simp] lemma refuse_ne_ok {α : Type} {why : String} {a : α} : refuse why ≠ .ok a := by
  simp [refuse]

omit [Hasher] in
lemma ite_refuse_eq_ok {p : Prop} [Decidable p] {why : String} {α : Type} {x : Except String α}
    {a : α} : (if p then refuse why else x) = .ok a ↔ ¬ p ∧ x = .ok a :=
  Except.ite_error_eq_ok

omit [Hasher] in
lemma checkHeight_eq_ok {head : Bytes} {height : UInt32} : checkHeight head = .ok height ↔
    coinbaseHeight head = some height.toNat ∧ height.toNat < locktimeThreshold := by
  unfold checkHeight
  cases hheight : coinbaseHeight head with
  | none => simp
  | some n =>
    by_cases hn : n < locktimeThreshold
    · have hword : (UInt32.ofNat n).toNat = n := UInt32.toNat_ofNat_of_lt' (by
        unfold locktimeThreshold at hn
        rw [UInt32.size]
        omega)
      simp only [hn, if_true, Except.ok.injEq, Option.some.injEq]
      constructor
      · rintro rfl
        exact ⟨hword.symm, by rwa [hword]⟩
      · rintro ⟨rfl, -⟩
        exact UInt32.ofNat_toNat
    · simp only [hn, if_false, refuse_ne_ok, Option.some.injEq, false_iff]
      rintro ⟨rfl, hlt⟩
      exact hn hlt

omit [Hasher] in
/-- The outputs a claim expects, as the covenant sees them. -/
lemma checkClaimOutputs_eq_ok_iff {split : Split} {payoutHash : Hash} {shares : Shares}
    {outputs : List TokenOutput} {category : Hash} :
    checkClaimOutputs (expectedOutputs split payoutHash shares) outputs category = .ok () ↔
      outputs = (expectedOutputs split payoutHash shares).map
        fun o => ⟨splitOutputSats, o.scriptHash, category, none, o.amount⟩ := by
  refine ⟨checkClaimOutputs_eq_ok, ?_⟩
  rintro rfl
  have hpos : ∀ o ∈ expectedOutputs split payoutHash shares, 0 < o.amount := by
    intro o ho
    simpa using List.of_mem_filter ho
  generalize expectedOutputs split payoutHash shares = expected at *
  have hall : (expected.zip (expected.map fun o : ExpectedOutput =>
      (⟨splitOutputSats, o.scriptHash, category, none, o.amount⟩ : TokenOutput))).all
      (fun p => fits category p.1 p.2) = true := by
    induction expected with
    | nil => rfl
    | cons o expected ih =>
      have hamount := hpos o (by simp)
      rw [List.map_cons, List.zip_cons_cons, List.all_cons, ih fun o ho => hpos o (by simp [ho])]
      simp [fits]
      omega
  rw [checkClaimOutputs, if_neg (by simp), if_pos hall]

lemma checkPaid_eq_ok {d : Deployment} {vault : Vault} {c : ClaimParts} {split : Split}
    {next : ThreadState} : checkPaid d vault c split next = .ok () ↔
      vault.reward ≠ 0 ∧ c.vaultOut.amount = vault.tokens.toNat - vault.reward ∧
      (c.shareOuts.map TxOutput.view =
        (expectedOutputs split c.payoutHash (split.claimShares vault.reward (vault.amm d))).map
          fun o => ⟨splitOutputSats, o.scriptHash, d.category, none, o.amount⟩) ∧
      (∀ o ∈ c.shareOuts, o.locking.length ≤ maxPayoutScript) ∧
      (∃ fee, vault.value.toNat = c.vaultOut.value + outputSats * c.shareOuts.length + fee ∧
        d.feeK + c.proof.length ≤ fee ∧ fee ≤ maxFeeRate * (d.feeK + c.proof.length)) ∧
      c.size ≤ d.feeK + c.proof.length ∧
      vaultFloor (vaultOutput d c.vaultOut.value c.vaultOut.amount next.encode).length ≤
        c.vaultOut.value := by
  unfold checkPaid
  rw [ite_refuse_eq_ok, not_or, not_not, and_assoc]
  refine and_congr_right fun _ => and_congr_right fun _ => ?_
  simp only
  rw [← checkClaimOutputs_eq_ok_iff]
  cases hshares : checkClaimOutputs (expectedOutputs split c.payoutHash
      (split.claimShares vault.reward (vault.amm d))) (c.shareOuts.map TxOutput.view) d.category with
  | error e => simp
  | ok u =>
    have hlength : c.shareOuts.length =
        (expectedOutputs split c.payoutHash (split.claimShares vault.reward (vault.amm d))).length := by
      have := congrArg List.length (checkClaimOutputs_eq_ok hshares)
      simpa using this
    simp only [true_and]
    rw [ite_refuse_eq_ok, ite_refuse_eq_ok, Except.ite_error_eq_ok, ite_refuse_eq_ok, ← hlength]
    refine and_congr ?_ (and_congr ?_ (and_congr Nat.not_lt (by simp)))
    · simp
    · generalize outputSats * c.shareOuts.length = paid
      generalize d.feeK + c.proof.length = bound
      push Not
      constructor
      · rintro ⟨h1, h2, h3⟩
        exact ⟨vault.value.toNat - (c.vaultOut.value + paid), by omega, by omega, by omega⟩
      · rintro ⟨fee, h1, h2, h3⟩
        exact ⟨by omega, by omega, by omega⟩

lemma checkProven_eq_ok {d : Deployment} {vault : Vault} {c : ClaimParts} {parsed : AuxProof}
    {height targetBits : UInt32} {next : Bytes} :
    checkProven d vault c parsed height targetBits next = .ok () ↔
      ∃ split, checkSplit c.preimage = .ok split ∧
        Accepts parsed (claimLeaf d vault c.payoutHash targetBits split) maxAuxHeight ∧
        bchHeader d.network parsed.header height vault.state = true ∧
        next = (nextState vault height targetBits parsed.header).encode.bytes ∧
        checkPaid d vault c split (nextState vault height targetBits parsed.header) = .ok () := by
  unfold checkProven
  rw [Except.bind_eq_ok]
  refine exists_congr fun split => and_congr_right fun _ => ?_
  rw [← verifyLeaf_eq_ok]
  cases verifyLeaf parsed (claimLeaf d vault c.payoutHash targetBits split) maxAuxHeight with
  | error e => simp
  | ok u =>
    simp only [true_and]
    rw [ite_refuse_eq_ok, ite_refuse_eq_ok, Bool.not_eq_false, not_not]

lemma checkParts_eq_ok {d : Deployment} {vault : Vault} {c : ClaimParts} :
    checkParts d vault c = .ok () ↔
      ∃ parsed height targetBits split, Passes d vault c parsed height targetBits split := by
  unfold checkParts
  rw [ite_refuse_eq_ok]
  simp only
  rw [ite_refuse_eq_ok, Except.bind_eq_ok]
  constructor
  · rintro ⟨hvault, hchanged, parsed, hparsed, h⟩
    obtain ⟨height, hheight, h⟩ := Except.bind_eq_ok.mp h
    obtain ⟨hlock, h⟩ := ite_refuse_eq_ok.mp h
    obtain ⟨hnewer, h⟩ := ite_refuse_eq_ok.mp h
    split at h
    · cases h
    rename_i targetBits htarget
    obtain ⟨split, hsplit, hleaf, hheader, hnext, hpaid⟩ := checkProven_eq_ok.mp h
    obtain ⟨hreward, hkept, hshares, hscripts, hfee, hsize, hfloor⟩ := checkPaid_eq_ok.mp hpaid
    push Not at hvault hlock
    -- the token output is the mutable one with the next state
    have hnft : c.vaultOut.nft =
        some (mutableNft, (nextState vault height targetBits parsed.header).encode.bytes) := by
      cases hn : c.vaultOut.nft with
      | none =>
        rw [hn] at hvault
        simp at hvault
      | some nft =>
        rw [hn] at hvault hnext
        obtain ⟨capability, commitment⟩ := nft
        have hcapability : capability = mutableNft := by simpa using hvault.2.2
        have hcommitment : commitment =
            (nextState vault height targetBits parsed.header).encode.bytes := hnext
        rw [hcapability, hcommitment]
    refine ⟨parsed, height, targetBits, split, hvault.1, hvault.2.1, hnft, ?_,
      Except.mapError_eq_ok.mp hparsed, checkHeight_eq_ok.mp hheight, ⟨hlock.1, ?_, hlock.2.2⟩, ?_,
      htarget, hsplit, hleaf, hheader, hreward, hkept, hshares, hscripts, hfee, hsize, hfloor⟩
    · rintro heq
      exact hchanged (by rw [hnext, heq])
    · exact by simpa only [UInt32.not_lt] using hlock.2.1
    · exact UInt32.not_le.mp hnewer
  · rintro ⟨parsed, height, targetBits, split, h⟩
    have hnext : (c.vaultOut.nft.map Prod.snd).getD [] =
        (nextState vault height targetBits parsed.header).encode.bytes := by
      rw [h.nft]
      rfl
    refine ⟨?_, ?_, parsed, Except.mapError_eq_ok.mpr h.proof, ?_⟩
    · rw [h.nft]
      simp [h.locking, h.category]
    · rw [hnext]
      exact fun heq => h.changed (ByteVec.ext heq)
    · refine Except.bind_eq_ok.mpr ⟨height, checkHeight_eq_ok.mpr h.coinbase, ?_⟩
      refine ite_refuse_eq_ok.mpr ⟨?_, ite_refuse_eq_ok.mpr ⟨UInt32.not_le.mpr h.newer, ?_⟩⟩
      · rintro (hseq | hlt | hge)
        · exact h.lock.1 hseq
        · exact UInt32.not_lt.mpr h.lock.2.1 hlt
        · exact absurd h.lock.2.2 (Nat.not_lt.mpr hge)
      · rw [h.target]
        exact checkProven_eq_ok.mpr ⟨split, h.preimage, h.leaf, h.header, hnext,
          checkPaid_eq_ok.mpr ⟨h.reward, h.kept, h.shares, h.scripts, h.fee, h.size, h.floor⟩⟩

/-- Exactly these bytes are accepted. -/
lemma checkClaim_eq_ok {d : Deployment} {vault : Vault} {raw : Bytes} :
    checkClaim d vault raw = .ok () ↔ ∃ c parsed height targetBits split,
      Spends d vault raw c ∧ Passes d vault c parsed height targetBits split := by
  unfold checkClaim
  rw [Except.bind_eq_ok]
  constructor
  · rintro ⟨⟨inputs, outputs, locktime⟩, htx, h⟩
    simp only at h
    split at h
    swap
    · cases h
    rename_i input
    obtain ⟨outpoint, unlocking, sequence⟩ := input
    obtain ⟨houtpoint, h⟩ := ite_refuse_eq_ok.mp h
    obtain ⟨hlength, h⟩ := ite_refuse_eq_ok.mp h
    obtain ⟨pushes, hpushes, h⟩ := Except.bind_eq_ok.mp h
    split at h
    swap
    · cases h
    rename_i preimage payoutHash proof redeem
    obtain ⟨hredeem, h⟩ := ite_refuse_eq_ok.mp h
    split at h
    · cases h
    rename_i hash hhash
    split at h
    · cases h
    rename_i vaultOut shareOuts
    obtain ⟨parsed, height, targetBits, split, hpasses⟩ := checkParts_eq_ok.mp h
    refine ⟨_, parsed, height, targetBits, split, ⟨rfl, unlocking, ?_, Nat.not_lt.mp hlength, ?_⟩,
      hpasses⟩
    · have hspends : outpoint = vault.outpoint := not_not.mp houtpoint
      rw [htx, hspends]
    · rw [hpushes, ByteVec.ofBytes?_eq_some.mp hhash, not_not.mp hredeem]
  · rintro ⟨c, parsed, height, targetBits, split, ⟨hsize, unlocking, htx, hlength, hpushes⟩, hpasses⟩
    refine ⟨_, htx, ?_⟩
    simp only
    rw [if_neg (by simp), if_neg (by omega), hpushes]
    show (if _ then _ else _) = _
    rw [if_neg (by simp), ByteVec.ofBytes?_bytes]
    simp only [← hsize]
    exact checkParts_eq_ok.mpr ⟨parsed, height, targetBits, split, hpasses⟩

/-! ## Safety -/

/-- What an accepted claim does: `tx` is the transaction, `vaultOut` the vault it returns, `next`
its next state, `proof` what it pushes. -/
structure Safe (d : Deployment) (vault : Vault) (raw : Bytes) (tx : Tx) (vaultOut : TxOutput)
    (next : ThreadState) (proof : Bytes) : Prop where
  parsed : parseTx raw = .ok tx
  /-- It spends the vault alone, and returns it first. -/
  input : tx.inputs.map TxInput.outpoint = [vault.outpoint]
  output : tx.outputs.head? = some vaultOut ∧ vaultOut.locking = d.lockingBytecode ∧
    vaultOut.nft = some (mutableNft, next.encode.bytes)
  /-- The vault's tokens are conserved. -/
  tokens : (∀ o ∈ tx.outputs, o.category = some d.category) ∧
    vault.tokens.toNat = (tx.outputs.map TxOutput.amount).sum
  /-- Every recipient of the split it unlocks with is paid the share the split rule gives it,
  and nobody else. -/
  shares : ∃ unlocking preimage split payoutHash parsed,
    tx.inputs.map TxInput.unlocking = [unlocking] ∧
    parsePushes unlocking = .ok [preimage, payoutHash.bytes, proof, d.redeemScript] ∧
    checkSplit preimage = .ok split ∧ AuxProof.fromBytes proof = .ok parsed ∧
    Accepts parsed (claimLeaf d vault payoutHash next.targetBits split) maxAuxHeight ∧
    (tx.outputs.tail.map fun o => (doubleSha256 o.locking, o.amount)) =
      (expectedOutputs split payoutHash (split.claimShares vault.reward (vault.amm d))).map
        fun e => (e.scriptHash, e.amount)
  /-- The thread stays, its height moves forward to the claimed one. -/
  thread : next.thread = vault.state.thread
  height : vault.state.height < next.height ∧ ∃ parsed, AuxProof.fromBytes proof = .ok parsed ∧
    coinbaseHeight parsed.cbHead = some next.height.toNat
  target : claimTargetBits vault.state.targetBits (next.height - vault.state.height) d.threads =
    some next.targetBits
  /-- The vault keeps 800 satoshis and is not dust. -/
  floor : 800 ≤ vaultOut.value ∧
    dust (vaultOutput d vaultOut.value vaultOut.amount next.encode).length ≤ vaultOut.value
  /-- What the outputs leave of the vault's satoshis is from `S` to `3S`, where `S` is the size
  bound, and the transaction is no larger than that. -/
  fee : ∃ fee, vault.value.toNat = (tx.outputs.map TxOutput.value).sum + fee ∧
    d.feeK + proof.length ≤ fee ∧ fee ≤ 3 * (d.feeK + proof.length) ∧
    raw.length ≤ d.feeK + proof.length

/-- Share outputs as they are expected carry the vault's category and nothing else. -/
lemma Passes.share {d : Deployment} {vault : Vault} {c : ClaimParts} {parsed : AuxProof}
    {height targetBits : UInt32} {split : Split} (h : Passes d vault c parsed height targetBits split)
    {o : TxOutput} (ho : o ∈ c.shareOuts) : o.category = some d.category ∧ o.value = 800 := by
  have hmem := List.mem_map_of_mem (f := TxOutput.view) ho
  rw [h.shares] at hmem
  obtain ⟨e, -, heq⟩ := List.mem_map.mp hmem
  have hcategory : o.category.getD (ByteVec.zero 32) = d.category :=
    (congrArg TokenOutput.category heq).symm
  refine ⟨?_, (congrArg TokenOutput.sats heq).symm⟩
  cases hc : o.category with
  | none =>
    rw [hc] at hcategory
    exact absurd hcategory.symm d.category_ne
  | some category =>
    rw [hc] at hcategory
    exact congrArg some hcategory

/-- Whatever `check_claim` accepts is safe to broadcast. -/
theorem checkClaim_safe {d : Deployment} {vault : Vault} {raw : Bytes}
    (h : checkClaim d vault raw = .ok ()) :
    ∃ tx vaultOut next proof, Safe d vault raw tx vaultOut next proof := by
  obtain ⟨c, parsed, height, targetBits, split, hspends, hpasses⟩ := checkClaim_eq_ok.mp h
  obtain ⟨unlocking, htx, -, hpushes⟩ := hspends.tx
  have hview : ∀ f : TokenOutput → ℕ, (c.shareOuts.map fun o => f o.view) =
      (expectedOutputs split c.payoutHash (split.claimShares vault.reward (vault.amm d))).map
        fun e => f ⟨splitOutputSats, e.scriptHash, d.category, none, e.amount⟩ := by
    intro f
    have := congrArg (List.map f) hpasses.shares
    simpa [Function.comp_def] using this
  refine ⟨_, c.vaultOut, nextState vault height targetBits parsed.header, c.proof, htx, rfl,
    ⟨rfl, hpasses.locking, hpasses.nft⟩, ⟨?_, ?_⟩, ⟨unlocking, c.preimage, split,
    c.payoutHash, parsed, rfl, hpushes, hpasses.preimage, hpasses.proof, hpasses.leaf, ?_⟩, rfl, ⟨hpasses.newer, parsed, hpasses.proof, hpasses.coinbase.1⟩,
    hpasses.target, ⟨?_, ?_⟩, ?_⟩
  · intro o ho
    rcases List.mem_cons.mp ho with rfl | ho
    · exact hpasses.category
    · exact (hpasses.share ho).1
  · -- the shares make up the reward
    have hsum : (c.shareOuts.map TxOutput.amount).sum = vault.reward := by
      have hamounts := hview TokenOutput.amount
      have hexpected := expectedOutputs_sum split c.payoutHash
        (split.claimShares vault.reward (vault.amm d))
      rw [split.claimShares_sum] at hexpected
      rw [← hexpected]
      exact congrArg List.sum hamounts
    have hle : vault.reward ≤ vault.tokens.toNat := Nat.div_le_self _ _
    have hkept := hpasses.kept
    simp only [List.map_cons, List.sum_cons, hsum]
    omega
  · have := congrArg (List.map fun t : TokenOutput => (t.scriptHash, t.amount)) hpasses.shares
    simpa [Function.comp_def, TxOutput.view] using this
  · exact (le_max_right _ _).trans hpasses.floor
  · exact (le_max_left _ _).trans hpasses.floor
  · obtain ⟨fee, hvalue, hlow, hhigh⟩ := hpasses.fee
    have hsats : (c.shareOuts.map TxOutput.value).sum = outputSats * c.shareOuts.length := by
      have hall : c.shareOuts.map TxOutput.value = List.replicate c.shareOuts.length 800 := by
        rw [List.eq_replicate_iff]
        refine ⟨by simp, fun v hv => ?_⟩
        obtain ⟨o, ho, rfl⟩ := List.mem_map.mp hv
        exact (hpasses.share ho).2
      rw [hall, List.sum_replicate_nat, Nat.mul_comm]
      rfl
    refine ⟨fee, ?_, hlow, hhigh, ?_⟩
    · simp only [List.map_cons, List.sum_cons, hsats]
      exact hvalue
    · rw [← hspends.size]
      exact hpasses.size

end Pickaxe.Safa
