/-
# Building a claim

The builder plans a claim, writes its bytes and has them checked by `checkClaim`, which reads
them from scratch.  `Planned.checkClaim` is what makes the two agree: whatever was planned,
the bytes are within the planned size, read back as planned and pass.
-/
import Pickaxe.Safa.Check

namespace Pickaxe.Safa

open Lib Merge

variable [Hasher]

/-- `Claim`: a claim transaction, ready to broadcast. -/
structure Claim where
  raw : Bytes
  /-- Display order. -/
  txid : List Char
  plan : ClaimPlan

omit [Hasher] in
/-- The split preimage a claim pushes: nothing without a split. -/
def splitPush (split : Split) : Bytes := if split.isNone then [] else split.preimage

/-- The unlocking bytecode: split preimage, payout hash, proof and redeem script. -/
def unlockingBytes (d : Deployment) (proof : Bytes) (terms : ClaimTerms) (plan : ClaimPlan) : Bytes :=
  push (splitPush terms.split) ++ (push plan.leaf.payoutHash.bytes ++ (push proof ++
    push d.redeemScript))

/-- One share output. -/
def shareOutput (d : Deployment) (o : ℕ × Bytes) : Bytes :=
  output outputSats (tokenPrefix d.category none o.1 ++ o.2)

/-- The bytes of a claim. -/
def claimBytes (d : Deployment) (vault : Vault) (unlocking : Bytes) (plan : ClaimPlan) : Bytes :=
  u32Le claimVersion ++ ([1] ++ (vault.outpoint.txid.bytes ++ (u32Le vault.outpoint.vout ++
    (compactSize unlocking.length ++ (unlocking ++ (u32Le claimSequence ++
      (compactSize (1 + plan.outputs.length) ++
        (vaultOutput d plan.vaultValue (vault.tokens.toNat - plan.reward) plan.nextState ++
          (plan.outputs.flatMap (shareOutput d) ++ u32Le plan.locktime)))))))))

/-- `build_claim`: builds the claim of `proof` against `vault`, then checks its bytes. -/
def buildClaim (d : Deployment) (vault : Vault) (proof : Bytes) (terms : ClaimTerms) (feeRate : ℕ)
    (locktime : Option UInt32) : Except String Claim := do
  let plan ← planClaim d vault proof terms feeRate locktime
  let unlocking := unlockingBytes d proof terms plan
  if unlocking.length > maxUnlockingBytes then
    .error "the claim exceeds the 10,000-byte unlocking limit"
  else
    let raw := claimBytes d vault unlocking plan
    if raw.length > plan.sizeBound then .error "the claim is larger than its size bound"
    else do
      checkClaim d vault raw
      .ok ⟨raw, Text.hexEncode (doubleSha256 raw).bytes.reverse, plan⟩

/-! ## What is planned -/

/-- What `plan_claim` found out when it returns `plan`. -/
structure Planned (d : Deployment) (vault : Vault) (proof : Bytes) (terms : ClaimTerms)
    (feeRate : ℕ) (parsed : AuxProof) (plan : ClaimPlan) : Prop where
  rate : 1 ≤ feeRate ∧ feeRate ≤ maxFeeRate
  parses : AuxProof.fromBytes proof = .ok parsed
  coinbase : coinbaseHeight parsed.cbHead = some plan.height.toNat ∧
    plan.height.toNat < locktimeThreshold
  newer : vault.state.height < plan.height
  target : claimTargetBits vault.state.targetBits (plan.height - vault.state.height) d.threads =
    some plan.targetBits
  leaf : plan.leaf = claimLeaf d vault (doubleSha256 terms.payout) plan.targetBits terms.split
  accepts : Accepts parsed plan.leaf maxAuxHeight
  header : bchHeader d.network parsed.header plan.height vault.state = true
  reward : plan.reward = vault.reward ∧ vault.reward ≠ 0
  /-- Every share has its output, to the script its slot names. -/
  outputs : (plan.outputs.map fun o => (doubleSha256 o.2, o.1)) =
    (expectedOutputs terms.split (doubleSha256 terms.payout)
      (terms.split.claimShares vault.reward (vault.amm d))).map fun e => (e.scriptHash, e.amount)
  scripts : ∀ o ∈ plan.outputs, o.2.length ≤ maxPayoutScript
  next : plan.nextState = (nextState vault plan.height plan.targetBits parsed.header).encode
  bound : plan.sizeBound = d.feeK + proof.length
  value : vault.value.toNat = plan.vaultValue + outputSats * plan.outputs.length +
    feeRate * plan.sizeBound
  floor : vaultFloor (vaultOutput d plan.vaultValue (vault.tokens.toNat - vault.reward)
    plan.nextState).length ≤ plan.vaultValue
  lock : plan.height ≤ plan.locktime ∧ plan.locktime.toNat < locktimeThreshold

omit [Hasher] in
lemma checkScript_eq_ok {script : Option Bytes} {what : String} (h : checkScript script what = .ok ()) :
    ∀ s ∈ script, s.length ≤ maxPayoutScript := by
  rintro s rfl
  obtain ⟨hlength, -⟩ := Except.ite_error_eq_ok.mp h
  push Not at hlength
  exact hlength.2

lemma slotScript_eq_ok {slot : Slot} {script found : Option Bytes} {what : String}
    (h : slotScript slot script what = .ok found) :
    ∀ s ∈ found, s ∈ script ∧ doubleSha256 s = slot.scriptHash := by
  unfold slotScript at h
  split_ifs at h
  · cases h
    simp
  · split at h
    · cases h
    · split_ifs at h with hhash
      cases h
      rintro s hs
      cases hs
      exact ⟨rfl, hhash⟩

/-- The outputs of the shares are those above 0, with the scripts of their slots. -/
lemma shareOutputs_spec {shares : List (ℕ × Option Bytes)} {expected : List ExpectedOutput}
    (hmatch : List.Forall₂ (fun p e => p.1 = e.amount ∧ ∀ s ∈ p.2, doubleSha256 s = e.scriptHash)
      shares expected) {outputs : List (ℕ × Bytes)} (h : shareOutputs shares = some outputs) :
    (outputs.map fun o => (doubleSha256 o.2, o.1)) =
      (expected.filter fun e => 0 < e.amount).map fun e => (e.scriptHash, e.amount) := by
  induction hmatch generalizing outputs with
  | nil =>
    cases h
    rfl
  | @cons p e shares expected hpe _ ih =>
    obtain ⟨amount, script⟩ := p
    obtain ⟨rfl, hscript⟩ := hpe
    rw [shareOutputs] at h
    split_ifs at h with hzero
    · rw [List.filter_cons_of_neg (by simp [hzero])]
      exact ih h
    · obtain ⟨s, hs, h⟩ := Option.bind_eq_some_iff.mp h
      obtain ⟨rest, hrest, h⟩ := Option.bind_eq_some_iff.mp h
      cases h
      rw [List.filter_cons_of_pos (by simp; omega), List.map_cons, List.map_cons, ih hrest,
        hscript s hs]

omit [Hasher] in
lemma mem_shareOutputs {shares : List (ℕ × Option Bytes)} {outputs : List (ℕ × Bytes)}
    (h : shareOutputs shares = some outputs) {o : ℕ × Bytes} (ho : o ∈ outputs) :
    ∃ p ∈ shares, o.2 ∈ p.2 := by
  induction shares generalizing outputs with
  | nil =>
    cases h
    cases ho
  | cons p shares ih =>
    obtain ⟨amount, script⟩ := p
    rw [shareOutputs] at h
    split_ifs at h
    · obtain ⟨q, hq, hmem⟩ := ih h ho
      exact ⟨q, List.mem_cons_of_mem _ hq, hmem⟩
    · obtain ⟨s, hs, h⟩ := Option.bind_eq_some_iff.mp h
      obtain ⟨rest, hrest, h⟩ := Option.bind_eq_some_iff.mp h
      cases h
      rcases List.mem_cons.mp ho with rfl | ho
      · exact ⟨_, List.mem_cons_self, hs⟩
      · obtain ⟨q, hq, hmem⟩ := ih hrest ho
        exact ⟨q, List.mem_cons_of_mem _ hq, hmem⟩

omit [Hasher] in
lemma planHeight_eq_ok {head : Bytes} {height : UInt32} (h : planHeight head = .ok height) :
    coinbaseHeight head = some height.toNat ∧ height.toNat < locktimeThreshold := by
  rw [← checkHeight_eq_ok]
  unfold planHeight at h
  unfold checkHeight
  cases hheight : coinbaseHeight head with
  | none =>
    rw [hheight] at h
    cases h
  | some n =>
    rw [hheight] at h
    simp only at h ⊢
    split_ifs at h ⊢ with hlt
    exact h

lemma planClaim_eq_ok {d : Deployment} {vault : Vault} {proof : Bytes} {terms : ClaimTerms}
    {feeRate : ℕ} {locktime : Option UInt32} {plan : ClaimPlan}
    (h : planClaim d vault proof terms feeRate locktime = .ok plan) :
    ∃ parsed, Planned d vault proof terms feeRate parsed plan := by
  obtain ⟨hrate, h⟩ := Except.ite_error_eq_ok.mp h
  obtain ⟨_, hpayout, h⟩ := Except.bind_eq_ok.mp h
  obtain ⟨_, hdonationScript, h⟩ := Except.bind_eq_ok.mp h
  obtain ⟨_, hfeeScript, h⟩ := Except.bind_eq_ok.mp h
  obtain ⟨donation, hdonation, h⟩ := Except.bind_eq_ok.mp h
  obtain ⟨fee, hfee, h⟩ := Except.bind_eq_ok.mp h
  obtain ⟨parsed, hparsed, h⟩ := Except.bind_eq_ok.mp h
  obtain ⟨height, hheight, h⟩ := Except.bind_eq_ok.mp h
  obtain ⟨hnewer, h⟩ := Except.ite_error_eq_ok.mp h
  split at h
  · cases h
  rename_i targetBits htarget
  unfold planRest at h
  obtain ⟨_, hleaf, h⟩ := Except.bind_eq_ok.mp h
  obtain ⟨hheader, h⟩ := Except.ite_error_eq_ok.mp h
  obtain ⟨hreward, h⟩ := Except.ite_error_eq_ok.mp h
  simp only at h
  split at h
  · cases h
  rename_i outputs houtputs
  obtain ⟨hcost, h⟩ := Except.ite_error_eq_ok.mp h
  obtain ⟨hfloor, h⟩ := Except.ite_error_eq_ok.mp h
  obtain ⟨hlock, h⟩ := Except.ite_error_eq_ok.mp h
  cases h
  push Not at hrate hlock hcost hfloor
  have hdonation := slotScript_eq_ok hdonation
  have hfee := slotScript_eq_ok hfee
  refine ⟨parsed, ⟨by omega, by omega⟩, Except.mapError_eq_ok.mp hparsed, planHeight_eq_ok hheight,
    UInt32.not_le.mp hnewer, htarget, rfl,
    verifyLeaf_eq_ok.mp (Except.mapError_eq_ok.mp hleaf), ?_, ⟨rfl, hreward⟩, ?_, ?_, rfl, rfl, ?_,
    hfloor, by simpa only [UInt32.not_lt] using hlock.1, hlock.2⟩
  · simpa using hheader
  · refine shareOutputs_spec ?_ houtputs
    refine .cons ⟨rfl, ?_⟩ (.cons ⟨rfl, fun s hs => (hdonation s hs).2⟩
      (.cons ⟨rfl, fun s hs => (hfee s hs).2⟩ .nil))
    rintro s hs
    cases hs
    rfl
  · intro o ho
    obtain ⟨p, hp, hmem⟩ := mem_shareOutputs houtputs ho
    simp only [List.mem_cons, List.not_mem_nil, or_false] at hp
    rcases hp with rfl | rfl | rfl
    · exact checkScript_eq_ok hpayout _ hmem
    · exact checkScript_eq_ok hdonationScript _ (hdonation _ hmem).1
    · exact checkScript_eq_ok hfeeScript _ (hfee _ hmem).1
  · simp only
    omega

/-! ## Reading it back -/

section Reading

omit [Hasher]

lemma reads_readU32 (v : UInt32) : Reader.Reads readU32 v (u32Le v) := by
  have h := (Reader.reads_take (e := truncated) (length_u32Le v)).map (g := u32OfLe)
  rwa [u32OfLe_u32Le] at h

lemma reads_readU64 {n : ℕ} (hn : n < 2 ^ 64) : Reader.Reads readU64 n (leBytes 8 n) := by
  have h := (Reader.reads_take (e := truncated) (length_leBytes 8 n)).map (g := fromLe)
  rwa [fromLe_leBytes_of_lt (by omega)] at h

lemma reads_readCompact {n : ℕ} (hn : n < 2 ^ 64) : Reader.Reads readCompact n (compactSize n) :=
  Reader.reads_compact _ _ hn

lemma reads_readAmount {amount : ℕ} (hpos : 0 < amount) (hlt : amount < 2 ^ 63) :
    Reader.Reads (readAmount true) amount (compactSize amount) := by
  rw [readAmount, if_pos rfl, ← List.append_nil (compactSize amount)]
  refine (reads_readCompact (by omega)).bind ?_
  exact Reader.Reads.guard_bind ⟨by omega, hlt⟩ (Reader.reads_pure amount)

lemma reads_readCommitment (state : ByteVec 16) :
    Reader.Reads (readCommitment true) state.bytes (compactSize 16 ++ state.bytes) := by
  rw [readCommitment, if_pos rfl]
  refine (reads_readCompact (by decide)).bind ?_
  exact Reader.Reads.guard_bind (by decide) (Reader.reads_take state.length_eq)

/-- The NFT an output carries. -/
def nftOf (commitment : Option (ByteVec 16)) : Option (UInt8 × Bytes) :=
  commitment.map fun state => (mutableNft, state.bytes)

lemma reads_readToken (category : Hash) (commitment : Option (ByteVec 16)) {amount : ℕ}
    (hpos : 0 < amount) (hlt : amount < 2 ^ 63) :
    Reader.Reads readToken (category, nftOf commitment, amount)
      (tokenPrefix category commitment amount).tail := by
  have hend : ∀ nft, Reader.Reads (do
      let amount ← readAmount true
      return (category, nft, amount) : Reader String (Hash × Option (UInt8 × Bytes) × ℕ))
      (category, nft, amount) (compactSize amount) := by
    intro nft
    have h := (reads_readAmount hpos hlt).bind (f := fun a =>
      (pure (category, nft, a) : Reader String (Hash × Option (UInt8 × Bytes) × ℕ)))
      (Reader.reads_pure _)
    rwa [List.append_nil] at h
  show Reader.Reads readToken _ (category.bytes ++ (_ ++ _))
  rw [readToken]
  refine (Reader.reads_array category).bind ?_
  cases commitment with
  | none =>
    simp only [hpos, if_true]
    refine (Reader.reads_byte 0x10).bind ?_
    refine Reader.Reads.guard_bind (by decide) ?_
    exact (Reader.reads_pure []).bind (hend none)
  | some state =>
    simp only [hpos, if_true]
    rw [List.append_assoc]
    refine (Reader.reads_byte _).bind ?_
    refine Reader.Reads.guard_bind (by decide) ?_
    exact (reads_readCommitment state).bind (hend (some (mutableNft, state.bytes)))

lemma parseOutput_tokenPrefix (value : ℕ) (category : Hash) (commitment : Option (ByteVec 16))
    {amount : ℕ} (hpos : 0 < amount) (hlt : amount < 2 ^ 63) (locking : Bytes) :
    parseOutput value (tokenPrefix category commitment amount ++ locking) =
      .ok ⟨value, locking, some category, nftOf commitment, amount⟩ := by
  have hread := reads_readToken category commitment hpos hlt locking
  have htail : (tokenPrefix category commitment amount ++ locking).tail =
      (tokenPrefix category commitment amount).tail ++ locking := rfl
  have hhead : (tokenPrefix category commitment amount ++ locking).head? = some 0xef := rfl
  rw [parseOutput, if_neg (not_not.mpr hhead), htail, hread]

lemma reads_readTxOutput {value : ℕ} (hvalue : value < 2 ^ 64) {bytecode : Bytes}
    (hlength : bytecode.length < 2 ^ 64) {o : TxOutput} (h : parseOutput value bytecode = .ok o) :
    Reader.Reads readTxOutput o (output value bytecode) := by
  rw [readTxOutput, output]
  refine (reads_readU64 hvalue).bind ?_
  refine (reads_readCompact hlength).bind ?_
  nth_rewrite 2 [← List.append_nil bytecode]
  refine (Reader.reads_take rfl).bind ?_
  rw [h]
  exact Reader.reads_pure o

lemma length_tokenPrefix_le (category : Hash) (commitment : Option (ByteVec 16)) (amount : ℕ) :
    (tokenPrefix category commitment amount).length ≤ 34 + (if commitment.isSome then 17 else 0) + 9 := by
  have hsize := length_compactSize_le amount
  have hstate : (compactSize 16).length = 1 := rfl
  unfold tokenPrefix
  cases commitment <;> by_cases hpos : 0 < amount <;> simp [hpos, hstate] <;> omega

lemma length_output {value : ℕ} {bytecode : Bytes} (h : bytecode.length < 253) :
    (output value bytecode).length = 9 + bytecode.length := by
  rw [output, compactSize_of_lt h]
  simp
  omega

end Reading

lemma length_vaultOutput (d : Deployment) (value tokens : ℕ) (state : ByteVec 16) :
    (vaultOutput d value tokens state).length ≤ 104 := by
  have hpre := length_tokenPrefix_le d.category (some state) tokens
  have hlocking := d.length_lockingBytecode
  simp only [Option.isSome_some, if_true] at hpre
  rw [vaultOutput, length_output (by rw [List.length_append]; omega), List.length_append]
  omega

/-- The vault as a claim returns it. -/
def vaultTxOutput (d : Deployment) (vault : Vault) (plan : ClaimPlan) : TxOutput :=
  ⟨plan.vaultValue, d.lockingBytecode, some d.category, nftOf (some plan.nextState),
    vault.tokens.toNat - plan.reward⟩

omit [Hasher] in
/-- A share output. -/
def shareTxOutput (d : Deployment) (o : ℕ × Bytes) : TxOutput :=
  ⟨outputSats, o.2, some d.category, none, o.1⟩

section Planned

variable {d : Deployment} {vault : Vault} {proof : Bytes} {terms : ClaimTerms} {feeRate : ℕ}
  {parsed : AuxProof} {plan : ClaimPlan}

lemma Planned.reward_le (h : Planned d vault proof terms feeRate parsed plan) :
    0 < vault.tokens.toNat - plan.reward := by
  have hpos := h.reward.2
  rw [h.reward.1]
  unfold Vault.reward rewardDivisor at *
  omega

/-- The amounts of the shares are above 0 and at most the reward. -/
lemma Planned.amount (h : Planned d vault proof terms feeRate parsed plan) {o : ℕ × Bytes}
    (ho : o ∈ plan.outputs) : 0 < o.1 ∧ o.1 ≤ vault.reward := by
  have hmem := List.mem_map_of_mem (f := fun o : ℕ × Bytes => (doubleSha256 o.2, o.1)) ho
  rw [h.outputs] at hmem
  obtain ⟨e, he, heq⟩ := List.mem_map.mp hmem
  have hamount : e.amount = o.1 := congrArg Prod.snd heq
  have hpos : 0 < e.amount := by simpa using List.of_mem_filter he
  have hsum := terms.split.claimShares_sum vault.reward (vault.amm d)
  have hle : e.amount ≤ vault.reward := by
    have := List.mem_of_mem_filter he
    simp only [List.mem_cons, List.not_mem_nil, or_false] at this
    rcases this with rfl | rfl | rfl <;> (simp only; omega)
  exact ⟨by omega, by omega⟩

lemma Planned.outputs_length (h : Planned d vault proof terms feeRate parsed plan) :
    plan.outputs.length ≤ 3 := by
  have hlength := congrArg List.length h.outputs
  rw [List.length_map, List.length_map] at hlength
  rw [hlength]
  exact List.length_filter_le _ _

lemma Planned.length_shareOutput (h : Planned d vault proof terms feeRate parsed plan)
    {o : ℕ × Bytes} (ho : o ∈ plan.outputs) : (shareOutput d o).length ≤ 87 := by
  have hpre := length_tokenPrefix_le d.category none o.1
  have hscript := h.scripts o ho
  unfold maxPayoutScript at hscript
  simp only [Option.isSome_none, Bool.false_eq_true, if_false] at hpre
  rw [shareOutput, length_output (by rw [List.length_append]; omega), List.length_append]
  omega

/-- A claim as its bytes are read. -/
def claimTx (d : Deployment) (vault : Vault) (unlocking : Bytes) (plan : ClaimPlan) : Tx :=
  ⟨[⟨vault.outpoint, unlocking, claimSequence⟩],
    vaultTxOutput d vault plan :: plan.outputs.map (shareTxOutput d), plan.locktime⟩

/-- The bytes read back as planned, as long as the amount the vault keeps can be read. -/
lemma Planned.reads_readTx (h : Planned d vault proof terms feeRate parsed plan)
    (hamount : vault.tokens.toNat - plan.reward < 2 ^ 63) {unlocking : Bytes}
    (hunlocking : unlocking.length ≤ maxUnlockingBytes) :
    Reader.Reads readTx (claimTx d vault unlocking plan) (claimBytes d vault unlocking plan) := by
  have hkept := h.reward_le
  have hvalue := vault.value.toNat_lt
  have hle := h.value
  have hlocking := d.length_lockingBytecode
  unfold maxUnlockingBytes at hunlocking
  -- the input
  have hinput : Reader.Reads (Reader.times readInput 1) [⟨vault.outpoint, unlocking, claimSequence⟩]
      [vault.outpoint.txid.bytes ++ (u32Le vault.outpoint.vout ++ (compactSize unlocking.length ++
        (unlocking ++ u32Le claimSequence)))].flatten := by
    refine Reader.reads_times_of_forall₂ (.cons ?_ .nil)
    rw [readInput]
    refine (Reader.reads_array _).bind ((reads_readU32 _).bind ?_)
    refine (reads_readCompact (by omega)).bind ((Reader.reads_take rfl).bind ?_)
    have hend := (reads_readU32 claimSequence).bind (f := fun s => (pure ⟨⟨vault.outpoint.txid,
      vault.outpoint.vout⟩, unlocking, s⟩ : Reader String TxInput)) (Reader.reads_pure _)
    rwa [List.append_nil] at hend
  -- the outputs
  have hvault : Reader.Reads readTxOutput (vaultTxOutput d vault plan)
      (vaultOutput d plan.vaultValue (vault.tokens.toNat - plan.reward) plan.nextState) := by
    have hpre := length_tokenPrefix_le d.category (some plan.nextState)
      (vault.tokens.toNat - plan.reward)
    simp only [Option.isSome_some, if_true] at hpre
    exact reads_readTxOutput (by omega) (by rw [List.length_append]; omega)
      (parseOutput_tokenPrefix _ _ _ hkept hamount _)
  have hshares : List.Forall₂ (Reader.Reads readTxOutput) (plan.outputs.map (shareTxOutput d))
      (plan.outputs.map (shareOutput d)) := by
    rw [List.forall₂_map_left_iff, List.forall₂_map_right_iff, List.forall₂_same]
    intro o ho
    obtain ⟨hpos, hamount⟩ := h.amount ho
    have hreward : vault.reward < 2 ^ 63 := by
      have := vault.tokens.toNat_lt
      unfold Vault.reward rewardDivisor
      omega
    have hscript := h.scripts o ho
    have hpre := length_tokenPrefix_le d.category none o.1
    unfold maxPayoutScript at hscript
    simp only [Option.isSome_none, Bool.false_eq_true, if_false] at hpre
    exact reads_readTxOutput (by decide) (by rw [List.length_append]; omega)
      (parseOutput_tokenPrefix _ _ none hpos (by omega) _)
  have houtputs := Reader.reads_times_of_forall₂ (List.Forall₂.cons hvault hshares)
  rw [List.length_cons, List.length_map, List.flatten_cons, Nat.add_comm, ← List.flatMap_def]
    at houtputs
  have hcount := h.outputs_length
  have hbytes : claimBytes d vault unlocking plan = u32Le claimVersion ++ (compactSize 1 ++
      ([vault.outpoint.txid.bytes ++ (u32Le vault.outpoint.vout ++ (compactSize unlocking.length ++
        (unlocking ++ u32Le claimSequence)))].flatten ++ (compactSize (1 + plan.outputs.length) ++
        ((vaultOutput d plan.vaultValue (vault.tokens.toNat - plan.reward) plan.nextState ++
          plan.outputs.flatMap (shareOutput d)) ++ u32Le plan.locktime)))) := by
    have hone : compactSize 1 = [1] := rfl
    simp [claimBytes, hone]
  rw [hbytes, readTx, claimTx]
  refine (reads_readU32 _).bind ((reads_readCompact (by decide)).bind ?_)
  refine hinput.bind ((reads_readCompact (by omega)).bind (houtputs.bind ?_))
  have hend := (reads_readU32 plan.locktime).bind (f := fun t => (pure ⟨[⟨vault.outpoint,
    unlocking, claimSequence⟩], vaultTxOutput d vault plan :: plan.outputs.map (shareTxOutput d),
    t⟩ : Reader String Tx)) (Reader.reads_pure _)
  rwa [List.append_nil] at hend

lemma Planned.parseTx (h : Planned d vault proof terms feeRate parsed plan)
    (hamount : vault.tokens.toNat - plan.reward < 2 ^ 63) {unlocking : Bytes}
    (hunlocking : unlocking.length ≤ maxUnlockingBytes) :
    Safa.parseTx (claimBytes d vault unlocking plan) = .ok (claimTx d vault unlocking plan) := by
  rw [Safa.parseTx, (h.reads_readTx hamount hunlocking).bind_eof]
  rfl

omit [Hasher] in
lemma length_flatMap_le {α : Type*} {f : α → Bytes} {n : ℕ} {as : List α}
    (h : ∀ a ∈ as, (f a).length ≤ n) : (as.flatMap f).length ≤ n * as.length := by
  induction as with
  | nil => exact Nat.zero_le _
  | cons a as ih =>
    have hhead := h a List.mem_cons_self
    have htail := ih fun b hb => h b (List.mem_cons_of_mem _ hb)
    rw [List.flatMap_cons, List.length_append, List.length_cons, Nat.mul_succ]
    omega

omit [Hasher] in
lemma length_splitPush (split : Split) : (splitPush split).length ≤ 69 := by
  unfold splitPush
  split_ifs
  · simp
  · rw [split.length_preimage]

/-- The planned size is an upper bound on the real one. -/
lemma Planned.length_claimBytes (h : Planned d vault proof terms feeRate parsed plan)
    (hunlocking : (unlockingBytes d proof terms plan).length ≤ maxUnlockingBytes) :
    (claimBytes d vault (unlockingBytes d proof terms plan) plan).length ≤ plan.sizeBound := by
  have hvault := length_vaultOutput d plan.vaultValue (vault.tokens.toNat - plan.reward)
    plan.nextState
  have hcount := h.outputs_length
  have hshares : (plan.outputs.flatMap (shareOutput d)).length ≤ 87 * plan.outputs.length := by
    refine length_flatMap_le fun o ho => ?_
    exact h.length_shareOutput ho
  unfold maxUnlockingBytes at hunlocking
  have hsize : (compactSize (unlockingBytes d proof terms plan).length).length ≤ 3 := by
    unfold compactSize
    split_ifs <;> first | omega | simp
  have hone : (compactSize (1 + plan.outputs.length)).length = 1 := by
    rw [compactSize_of_lt (by omega)]
    rfl
  have hlength : (unlockingBytes d proof terms plan).length =
      (push (splitPush terms.split)).length + ((push plan.leaf.payoutHash.bytes).length +
        ((push proof).length + (push d.redeemScript).length)) := by
    simp [unlockingBytes]
  have hsplit := (length_push_le (splitPush terms.split)).2
  have hsplitLength := length_splitPush terms.split
  have hpayout := (length_push_le plan.leaf.payoutHash.bytes).2
  have hproof := (length_push_le proof).2
  have hproofLength := length_le_push proof
  have hredeem := (length_push_le d.redeemScript).2
  have hsmall : ∀ n ≤ 75, pushPrefixLen n = 1 := fun n hn => if_pos hn
  have hmedium : pushPrefixLen proof.length ≤ 3 := by
    unfold pushPrefixLen
    split_ifs <;> omega
  rw [hsmall _ (by omega)] at hsplit
  rw [plan.leaf.payoutHash.length_eq, hsmall 32 (by omega)] at hpayout
  rw [h.bound, Deployment.feeK, claimFixedBytes]
  simp only [claimBytes, List.length_append, length_u32Le, List.length_singleton,
    ByteVec.length_bytes, hone]
  omega

omit [Hasher] in
lemma checkSplit_splitPush (split : Split) : checkSplit (splitPush split) = .ok split := by
  unfold splitPush
  by_cases hnone : split.isNone = true
  · rw [if_pos hnone, checkSplit, if_pos rfl, Split.eq_none_of_isNone hnone]
  · have hne : split.preimage ≠ [] := by
      intro hnil
      have := split.length_preimage
      rw [hnil] at this
      simp at this
    rw [if_neg hnone, checkSplit, if_neg hne, Split.parse_preimage (by simpa using hnone)]

omit [Hasher] in
/-- The four pushes of an unlocking bytecode that is not too long. -/
lemma parsePushes_unlockingBytes
    (hunlocking : (unlockingBytes d proof terms plan).length ≤ maxUnlockingBytes) :
    parsePushes (unlockingBytes d proof terms plan) =
      .ok [splitPush terms.split, plan.leaf.payoutHash.bytes, proof, d.redeemScript] := by
  have hpushes : unlockingBytes d proof terms plan =
      [splitPush terms.split, plan.leaf.payoutHash.bytes, proof, d.redeemScript].flatMap push := by
    simp [unlockingBytes]
  have hproofLength : proof.length ≤ 65535 := by
    have := length_le_push proof
    have hlength : (push proof).length ≤ (unlockingBytes d proof terms plan).length := by
      simp [unlockingBytes]
      omega
    unfold maxUnlockingBytes at hunlocking
    omega
  have hredeem := d.redeem_length
  have hsplit := length_splitPush terms.split
  unfold maxUnlockingBytes at hredeem
  rw [hpushes]
  refine parsePushes_push fun data hdata => ?_
  simp only [List.mem_cons, List.not_mem_nil, or_false] at hdata
  rcases hdata with rfl | rfl | rfl | rfl
  · omega
  · simp
  · exact hproofLength
  · omega

/-- What was planned passes the check. -/
lemma Planned.checkClaim (h : Planned d vault proof terms feeRate parsed plan)
    (htokens : vault.tokens.toNat < 2 ^ 63)
    (hunlocking : (unlockingBytes d proof terms plan).length ≤ maxUnlockingBytes) :
    Safa.checkClaim d vault (claimBytes d vault (unlockingBytes d proof terms plan) plan) =
      .ok () := by
  have hpayout : plan.leaf.payoutHash = doubleSha256 terms.payout := by rw [h.leaf]; rfl
  refine checkClaim_eq_ok.mpr ⟨⟨_, claimSequence, plan.locktime, splitPush terms.split,
    plan.leaf.payoutHash, proof, vaultTxOutput d vault plan, plan.outputs.map (shareTxOutput d)⟩,
    parsed, plan.height, plan.targetBits, terms.split, ⟨rfl, _, h.parseTx (by omega) hunlocking,
    hunlocking, ?_⟩, ?_⟩
  · exact parsePushes_unlockingBytes hunlocking
  · refine ⟨rfl, rfl, ?_, ?_, h.parses, h.coinbase,
      ⟨show claimSequence ≠ 0xffffffff by decide, h.lock⟩, h.newer, h.target,
      checkSplit_splitPush _, ?_, h.header, h.reward.2, ?_, ?_, ?_, ?_, ?_, ?_⟩
    · show nftOf (some plan.nextState) = _
      rw [h.next]
      rfl
    · -- the height moved
      intro heq
      have hheight : vault.state.height = plan.height := by
        rw [Vault.state, ← heq, ThreadState.parse_encode]
        rfl
      have hnewer := h.newer
      rw [hheight] at hnewer
      exact absurd hnewer (UInt32.lt_irrefl _)
    · show Accepts parsed (claimLeaf d vault plan.leaf.payoutHash _ _) _
      rw [hpayout, ← h.leaf]
      exact h.accepts
    · show vault.tokens.toNat - plan.reward = _
      rw [h.reward.1]
    · have hview := congrArg (List.map fun p : Hash × ℕ =>
        (⟨splitOutputSats, p.1, d.category, none, p.2⟩ : TokenOutput)) h.outputs
      rw [List.map_map, List.map_map] at hview
      rw [List.map_map, hpayout]
      exact hview
    · intro o ho
      obtain ⟨p, hp, rfl⟩ := List.mem_map.mp ho
      exact h.scripts p hp
    · refine ⟨feeRate * plan.sizeBound, ?_, ?_, ?_⟩
      · rw [List.length_map]
        exact h.value
      · rw [h.bound]
        exact Nat.le_mul_of_pos_left _ h.rate.1
      · rw [h.bound]
        exact Nat.mul_le_mul_right _ h.rate.2
    · rw [← h.bound]
      exact h.length_claimBytes hunlocking
    · have hfloor := h.floor
      rw [← h.reward.1, h.next] at hfloor
      exact hfloor

end Planned

/-- The builder returns nothing the check did not accept. -/
lemma checkClaim_of_buildClaim {d : Deployment} {vault : Vault} {proof : Bytes}
    {terms : ClaimTerms} {feeRate : ℕ} {locktime : Option UInt32} {claim : Claim}
    (h : buildClaim d vault proof terms feeRate locktime = .ok claim) :
    checkClaim d vault claim.raw = .ok () := by
  obtain ⟨plan, -, h⟩ := Except.bind_eq_ok.mp h
  obtain ⟨-, h⟩ := Except.ite_error_eq_ok.mp h
  obtain ⟨-, h⟩ := Except.ite_error_eq_ok.mp h
  obtain ⟨_, hcheck, h⟩ := Except.bind_eq_ok.mp h
  cases h
  exact hcheck

/-- The builder meets the check: once a claim is planned, the only failure left is an unlocking
bytecode of more than 10,000 bytes, and otherwise the bytes built are within the planned size and
pass `check_claim`. -/
theorem buildClaim_of_planClaim {d : Deployment} {vault : Vault}
    (htokens : vault.tokens.toNat ≤ 2 ^ 63 - 1) {proof : Bytes} {terms : ClaimTerms} {feeRate : ℕ}
    {locktime : Option UInt32} {plan : ClaimPlan}
    (hplan : planClaim d vault proof terms feeRate locktime = .ok plan) :
    (maxUnlockingBytes < (unlockingBytes d proof terms plan).length ∧
      buildClaim d vault proof terms feeRate locktime =
        .error "the claim exceeds the 10,000-byte unlocking limit") ∨
    ∃ claim, buildClaim d vault proof terms feeRate locktime = .ok claim ∧ claim.plan = plan ∧
      claim.raw.length ≤ plan.sizeBound ∧ checkClaim d vault claim.raw = .ok () := by
  obtain ⟨parsed, h⟩ := planClaim_eq_ok hplan
  rw [buildClaim, hplan]
  by_cases hunlocking : maxUnlockingBytes < (unlockingBytes d proof terms plan).length
  · exact .inl ⟨hunlocking, if_pos hunlocking⟩
  · right
    rw [Nat.not_lt] at hunlocking
    have hsize := h.length_claimBytes hunlocking
    have hcheck := h.checkClaim (by omega) hunlocking
    set raw := claimBytes d vault (unlockingBytes d proof terms plan) plan with hraw
    refine ⟨⟨raw, Text.hexEncode (doubleSha256 raw).bytes.reverse, plan⟩, ?_, rfl, hsize, hcheck⟩
    simp only [bind, Except.bind]
    rw [if_neg (Nat.not_lt.mpr hunlocking), ← hraw, if_neg (Nat.not_lt.mpr hsize), hcheck]

/-! ### A claim with SHA-256 -/

section Sample

omit [Hasher]

/-- The redeem script of a deployment file: what it must carry, and nothing else. -/
def sampleRedeem : Bytes :=
  numberPush 595 ++ numberPush 100000 ++ numberPush rewardDivisor ++ [0x05] ++ proofMagic ++
    [proofVersion]

/-- A file with one thread. -/
def sampleFile : DeploymentFile :=
  { version := some (.number 1)
    network := some (.string "chipnet".toList)
    name := none
    category := some (.string (Text.hexEncode (List.replicate 32 7)))
    threads := some (.number 1)
    virtualSats := some (.string "100000".toList)
    redeemScript := some (.string (Text.hexEncode sampleRedeem))
    feeK := some (.number 595)
    redeemScriptBytes := none
    lockingBytecode := none
    lockHash := none }

/-- Its deployment. -/
def sampleDeployment : Deployment :=
  ⟨"tSAFA".toList, .chipnet, ⟨List.replicate 32 7, length_sevens⟩, 1, 100000, sampleRedeem, by decide,
    by decide⟩

/-- A vault last claimed at height 5. -/
def sampleVault : Vault :=
  ⟨⟨⟨List.replicate 32 9, rfl⟩, 0⟩, 10000000000, 420000000,
    ThreadState.encode ⟨0, 5, 0x207fffff, powLimitBits⟩, true⟩

/-- A tenth of every win goes to the script `52`. -/
def sampleTerms : ClaimTerms :=
  ⟨[0x51], ⟨⟨1000, Hash.ofHex 0xa99843c5b0e2290f3bac80d8845f718095c6af84092f449ccf10769647095bca,
    by decide, by decide⟩, Slot.empty⟩, some [0x52], none⟩

/-- A proof at height 17, over one more transaction. -/
def sampleClaimProof : AuxProof :=
  { header := ⟨List.replicate 36 0 ++
      (Hash.ofHex 0xcba1351e3305ae7b88844b22766e2d6f23d62c580b24d07ab63479ebcd674981).bytes ++
      [0, 0, 0, 0, 0xff, 0xff, 0, 0x1d, 1, 0, 0, 0], by simp⟩
    height := 0
    salt := 0
    auxBranch := []
    cbHead := List.replicate 4 0 ++ nullInput ++ [2, 1, 17, 0, 0, 0, 0, 1]
    cbTail := [0, 0, 0, 0]
    cbBranch := [ByteVec.zero 32] }

/-- The claim at three satoshis a byte, its size and the satoshis of its outputs. -/
lemma sample_built : ∃ claim tx,
    @buildClaim Hasher.fips sampleDeployment sampleVault sampleClaimProof.encode sampleTerms 3 none =
      .ok claim ∧
    parseTx claim.raw = .ok tx ∧ claim.raw.length = 548 ∧
    (tx.outputs.map TxOutput.value).sum = 9999997675 := by
  have hbuilt : (@buildClaim Hasher.fips sampleDeployment sampleVault sampleClaimProof.encode
      sampleTerms 3 none).toOption.map (fun claim => (claim.raw.length, (parseTx claim.raw).toOption.map
        fun tx => (tx.outputs.map TxOutput.value).sum)) = some (548, some 9999997675) := by
    rw [Hasher.fips_eq]
    decide +kernel
  generalize @buildClaim Hasher.fips sampleDeployment sampleVault sampleClaimProof.encode
    sampleTerms 3 none = built at hbuilt ⊢
  cases built with
  | error e => cases hbuilt
  | ok claim =>
    obtain ⟨hlength, hvalue⟩ := Prod.ext_iff.mp (Option.some.inj hbuilt)
    simp only at hlength hvalue
    cases htx : parseTx claim.raw with
    | error e =>
      rw [htx] at hvalue
      cases hvalue
    | ok tx =>
      rw [htx] at hvalue
      exact ⟨claim, tx, rfl, htx, hlength, Option.some.inj hvalue⟩

lemma sample_planned :
    let _ : Hasher := Hasher.fips
    (planClaim sampleDeployment sampleVault sampleClaimProof.encode sampleTerms 3
      none).toOption.isSome = true := by
  rw [Hasher.fips_eq]
  decide +kernel

theorem buildClaim_of_planClaim_sample :
    let _ : Hasher := Hasher.fips
    Deployment.fromJson sampleFile = .ok sampleDeployment ∧
    ∃ plan, planClaim sampleDeployment sampleVault sampleClaimProof.encode sampleTerms 3 none =
        .ok plan ∧
      ((maxUnlockingBytes <
          (unlockingBytes sampleDeployment sampleClaimProof.encode sampleTerms plan).length ∧
        buildClaim sampleDeployment sampleVault sampleClaimProof.encode sampleTerms 3 none =
          .error "the claim exceeds the 10,000-byte unlocking limit") ∨
      ∃ claim, buildClaim sampleDeployment sampleVault sampleClaimProof.encode sampleTerms 3 none =
          .ok claim ∧ claim.plan = plan ∧ claim.raw.length ≤ plan.sizeBound ∧
        checkClaim sampleDeployment sampleVault claim.raw = .ok ()) := by
  intro _
  refine ⟨by decide +kernel, ?_⟩
  have hplan : (planClaim sampleDeployment sampleVault sampleClaimProof.encode sampleTerms 3
      none).toOption.isSome = true := sample_planned
  cases h : planClaim sampleDeployment sampleVault sampleClaimProof.encode sampleTerms 3 none with
  | error e =>
    rw [h] at hplan
    cases hplan
  | ok plan => exact ⟨plan, rfl, buildClaim_of_planClaim (by decide) h⟩

/-- The claim built is safe to broadcast. -/
theorem checkClaim_safe_sample :
    let _ : Hasher := Hasher.fips
    ∃ claim, buildClaim sampleDeployment sampleVault sampleClaimProof.encode sampleTerms 3 none =
        .ok claim ∧
      ∃ tx vaultOut next proof,
        Safe sampleDeployment sampleVault claim.raw tx vaultOut next proof := by
  intro _
  obtain ⟨claim, tx, hbuilt, -⟩ := sample_built
  exact ⟨claim, hbuilt, checkClaim_safe (checkClaim_of_buildClaim hbuilt)⟩

/-- The fee is not bounded by the transaction's own size: this claim has 548 bytes and pays 2,325
satoshis, three times the bound of 775 that its proof and its redeem script give. -/
theorem fee_above_three_sizes :
    let _ : Hasher := Hasher.fips
    ∃ claim tx, buildClaim sampleDeployment sampleVault sampleClaimProof.encode sampleTerms 3 none =
        .ok claim ∧
      checkClaim sampleDeployment sampleVault claim.raw = .ok () ∧ parseTx claim.raw = .ok tx ∧
      claim.raw.length = 548 ∧
      sampleVault.value.toNat = (tx.outputs.map TxOutput.value).sum + 2325 ∧
      3 * claim.raw.length < 2325 := by
  intro _
  obtain ⟨claim, tx, hbuilt, htx, hlength, hsum⟩ := sample_built
  refine ⟨claim, tx, hbuilt, checkClaim_of_buildClaim hbuilt, htx, hlength, ?_, by omega⟩
  rw [hsum]
  rfl

end Sample

end Pickaxe.Safa
