/-
# What the claim reader recovers

The reader of a claim's bytes inverts the builder.  For scripts this is an equivalence
(`parsePushes_eq_ok`): what is read is written by `push`, and whatever `push` writes is read as
long as its length fits in two bytes.  For transactions it is about whatever `buildClaim` returns.
-/
import Pickaxe.Safa.Build

namespace Pickaxe.Safa

open Lib Merge

/-! ## Pushes -/

lemma exact_readPush : Reader.Exact readPush := by
  unfold readPush
  refine Reader.exact_byte.bind fun opcode => ?_
  split_ifs
  · exact Reader.exact_take
  · exact Reader.exact_byte.bind fun _ => Reader.exact_take
  · exact Reader.exact_take.bind fun _ => Reader.exact_take
  · exact Reader.exact_pure _
  · exact Reader.exact_pure _
  · intro s data rest h
    cases h

/-- The longest item has a length of two bytes. -/
lemma length_of_readPush {s rest data : Bytes} (h : readPush s = .ok (data, rest)) :
    data.length ≤ 65535 := by
  unfold readPush at h
  obtain ⟨opcode, s', -, h⟩ := Reader.bind_eq_ok h
  split_ifs at h with hdirect
  · obtain ⟨-, hlength⟩ := Reader.take_eq_ok h
    simp only [UInt8.le_iff_toNat_le, UInt8.reduceToNat] at hdirect
    omega
  · obtain ⟨length, s'', -, h⟩ := Reader.bind_eq_ok h
    obtain ⟨-, hlength⟩ := Reader.take_eq_ok h
    have := length.toNat_lt
    omega
  · obtain ⟨length, s'', hread, h⟩ := Reader.bind_eq_ok h
    obtain ⟨-, hwidth⟩ := Reader.take_eq_ok hread
    obtain ⟨-, hlength⟩ := Reader.take_eq_ok h
    have hlt := fromLe_lt length
    rw [hwidth] at hlt
    omega
  · cases h
    simp
  · cases h
    simp
  · cases h

/-- One induction on the turns: each turn takes off one push as `push` writes it. -/
lemma pushesFrom_eq_ok {turns : ℕ} {script : Bytes} {pushes : List Bytes}
    (h : pushesFrom turns script = .ok pushes) :
    script = pushes.flatMap push ∧ ∀ data ∈ pushes, data.length ≤ 65535 := by
  induction turns generalizing script pushes with
  | zero =>
    cases script with
    | nil =>
      cases h
      exact ⟨rfl, by simp⟩
    | cons b script => cases h
  | succ turns ih =>
    cases script with
    | nil =>
      cases h
      exact ⟨rfl, by simp⟩
    | cons b script =>
      rw [pushesFrom] at h
      swap
      · intro hnil
        cases hnil
      obtain ⟨⟨data, after⟩, hread, h⟩ := Except.bind_eq_ok.mp h
      obtain ⟨hminimal, h⟩ := Except.ite_error_eq_ok.mp h
      obtain ⟨rest, hrest, h⟩ := Except.bind_eq_ok.mp h
      cases h
      obtain ⟨rfl, hlengths⟩ := ih hrest
      obtain ⟨w, hw, -⟩ := exact_readPush _ _ _ hread
      have hpush : push data = w := by
        rw [not_not.mp hminimal, hw, List.length_append, Nat.add_sub_cancel, List.take_left]
      refine ⟨by rw [hw, List.flatMap_cons, hpush], fun d hd => ?_⟩
      rcases List.mem_cons.mp hd with rfl | hd
      · exact length_of_readPush hread
      · exact hlengths d hd

/-- The scripts that are read, and what is read off them. -/
lemma parsePushes_eq_ok {script : Bytes} {pushes : List Bytes} :
    parsePushes script = .ok pushes ↔
      script = pushes.flatMap push ∧ ∀ data ∈ pushes, data.length ≤ 65535 := by
  constructor
  · exact pushesFrom_eq_ok
  · rintro ⟨rfl, h⟩
    exact parsePushes_push h

/-- A push that needs a length of four bytes has no reader. -/
lemma parsePushes_of_long {data : Bytes} (h : 65535 < data.length) :
    parsePushes (push data) = .error "the claim's unlocking bytecode is not push-only" := by
  have hsmall : smallPush data = none := by
    match data, h with
    | _ :: _ :: _, _ => rfl
  have hopcode : push data = 0x4e :: (leBytes 4 data.length ++ data) := by
    rw [push, hsmall]
    simp only
    rw [pushOpcode, if_neg (by omega), if_neg (by omega), if_neg (by omega)]
    rfl
  rw [hopcode]
  rfl

/-! ## Transactions -/

lemma amount_of_readAmount {hasAmount : Bool} {s rest : Bytes} {amount : ℕ}
    (h : readAmount hasAmount s = .ok (amount, rest)) : amount < 2 ^ 63 := by
  unfold readAmount at h
  split_ifs at h
  · obtain ⟨n, s', -, h⟩ := Reader.bind_eq_ok h
    obtain ⟨u, s'', hguard, h⟩ := Reader.bind_eq_ok h
    obtain ⟨hn, -⟩ := Reader.guard_eq_ok hguard
    cases Reader.pure_eq_ok h
    exact hn.2
  · cases Reader.pure_eq_ok h
    decide

lemma amount_of_parseOutput {value : ℕ} {bytecode : Bytes} {o : TxOutput}
    (h : parseOutput value bytecode = .ok o) : o.amount < 2 ^ 63 := by
  unfold parseOutput at h
  split_ifs at h
  · cases h
    exact Nat.two_pow_pos 63
  · split at h
    · cases h
    · rename_i category nft amount locking hread
      cases h
      unfold readToken at hread
      obtain ⟨_, s1, -, hread⟩ := Reader.bind_eq_ok hread
      obtain ⟨_, s2, -, hread⟩ := Reader.bind_eq_ok hread
      obtain ⟨_, s3, -, hread⟩ := Reader.bind_eq_ok hread
      obtain ⟨_, s4, -, hread⟩ := Reader.bind_eq_ok hread
      obtain ⟨n, s5, hamount, hread⟩ := Reader.bind_eq_ok hread
      cases Reader.pure_eq_ok hread
      exact amount_of_readAmount hamount

/-- No transaction that is read has an amount of 2^63 or more. -/
lemma amount_of_parseTx {raw : Bytes} {tx : Tx} (h : parseTx raw = .ok tx) :
    ∀ o ∈ tx.outputs, o.amount < 2 ^ 63 := by
  obtain ⟨⟨tx', rest⟩, hread, heq⟩ := Except.map_eq_ok.mp h
  cases heq
  have hread := Reader.bind_eof_eq_ok hread
  unfold readTx at hread
  obtain ⟨_, s1, -, hread⟩ := Reader.bind_eq_ok hread
  obtain ⟨_, s2, -, hread⟩ := Reader.bind_eq_ok hread
  obtain ⟨inputs, s3, -, hread⟩ := Reader.bind_eq_ok hread
  obtain ⟨_, s4, -, hread⟩ := Reader.bind_eq_ok hread
  obtain ⟨outputs, s5, houtputs, hread⟩ := Reader.bind_eq_ok hread
  obtain ⟨locktime, s6, -, hread⟩ := Reader.bind_eq_ok hread
  have htx := Reader.pure_eq_ok hread
  intro o ho
  have hmem : o ∈ outputs := by
    rw [(Prod.ext_iff.mp htx).1] at ho
    exact ho
  obtain ⟨t, rest, hout⟩ := Reader.times_eq_ok houtputs o hmem
  unfold readTxOutput at hout
  obtain ⟨value, t1, -, hout⟩ := Reader.bind_eq_ok hout
  obtain ⟨_, t2, -, hout⟩ := Reader.bind_eq_ok hout
  obtain ⟨bytecode, t3, -, hout⟩ := Reader.bind_eq_ok hout
  cases hparse : parseOutput value bytecode with
  | error e =>
    rw [hparse] at hout
    cases hout
  | ok output =>
    rw [hparse] at hout
    cases Reader.pure_eq_ok hout
    exact amount_of_parseOutput hparse

/-- The version is passed over. -/
lemma parseTx_version (v w : UInt32) (bytes : Bytes) :
    parseTx (u32Le v ++ bytes) = parseTx (u32Le w ++ bytes) := by
  have hread : readTx (u32Le v ++ bytes) = readTx (u32Le w ++ bytes) := by
    rw [readTx, (reads_readU32 v).bind_apply, (reads_readU32 w).bind_apply]
  show Prod.fst <$> (readTx _ >>= _) = Prod.fst <$> (readTx _ >>= _)
  rw [hread]

/-- Bytes after a transaction that is read are refused. -/
lemma parseTx_append {raw extra : Bytes} {tx : Tx} (h : Reader.Reads readTx tx raw)
    (hextra : extra ≠ []) :
    parseTx (raw ++ extra) = .error "the claim transaction has trailing bytes" := by
  have heof : Reader.eof "the claim transaction has trailing bytes" extra =
      .error "the claim transaction has trailing bytes" := by
    rw [Reader.eof, if_neg (by simpa using hextra)]
  rw [parseTx, h.bind_apply]
  show Prod.fst <$> (Reader.eof _ extra >>= _) = _
  rw [heof]
  rfl

variable [Hasher]

/-- What the reader makes of a claim the builder returned. -/
structure ReadsBack (d : Deployment) (vault : Vault) (proof : Bytes) (terms : ClaimTerms)
    (claim : Claim) : Prop where
  /-- The version is written, and passed over when the claim is read. -/
  version : claim.raw.take 4 = u32Le claimVersion
  transaction : parseTx claim.raw =
    .ok (claimTx d vault (unlockingBytes d proof terms claim.plan) claim.plan)
  pushes : parsePushes (unlockingBytes d proof terms claim.plan) =
    .ok [splitPush terms.split, claim.plan.leaf.payoutHash.bytes, proof, d.redeemScript]
  trailing : ∀ extra ≠ [], parseTx (claim.raw ++ extra) =
    .error "the claim transaction has trailing bytes"

/-- The builder's check has read the claim, so what the vault keeps is an amount that is read. -/
lemma ReadsBack.of_buildClaim {d : Deployment} {vault : Vault} {proof : Bytes} {terms : ClaimTerms}
    {feeRate : ℕ} {locktime : Option UInt32} {claim : Claim}
    (h : buildClaim d vault proof terms feeRate locktime = .ok claim) :
    ReadsBack d vault proof terms claim := by
  have hcheck := checkClaim_of_buildClaim h
  obtain ⟨plan, hplan, h⟩ := Except.bind_eq_ok.mp h
  obtain ⟨hunlocking, h⟩ := Except.ite_error_eq_ok.mp h
  obtain ⟨-, h⟩ := Except.ite_error_eq_ok.mp h
  obtain ⟨_, -, h⟩ := Except.bind_eq_ok.mp h
  cases h
  rw [Nat.not_lt] at hunlocking
  obtain ⟨parsed, hplanned⟩ := planClaim_eq_ok hplan
  have hamount : vault.tokens.toNat - plan.reward < 2 ^ 63 := by
    obtain ⟨c, _, _, _, _, hspends, hpasses⟩ := checkClaim_eq_ok.mp hcheck
    obtain ⟨unlocking, htx, -⟩ := hspends.tx
    rw [hplanned.reward.1, ← hpasses.kept]
    exact amount_of_parseTx htx c.vaultOut List.mem_cons_self
  exact ⟨rfl, hplanned.parseTx hamount hunlocking, parsePushes_unlockingBytes hunlocking,
    fun extra hextra => parseTx_append (hplanned.reads_readTx hamount hunlocking) hextra⟩

/-- The reader of claims inverts their builder: a script is read exactly if `push` wrote it item
by item and no item is longer than 65,535 bytes, and a claim is read back as it was built. -/
theorem readsBack_of_buildClaim :
    (∀ script pushes, parsePushes script = .ok pushes ↔
      script = pushes.flatMap push ∧ ∀ data ∈ pushes, data.length ≤ 65535) ∧
    ∀ d vault proof terms feeRate locktime claim,
      buildClaim d vault proof terms feeRate locktime = .ok claim →
        ReadsBack d vault proof terms claim :=
  ⟨fun _ _ => parsePushes_eq_ok, fun _ _ _ _ _ _ _ => .of_buildClaim⟩

omit [Hasher] in
/-- A script of two pushes, one byte and none, and a claim. -/
theorem readsBack_of_buildClaim_sample :
    let _ : Hasher := Hasher.fips
    parsePushes [0x4f, 0x00] = .ok [[0x81], []] ∧
    ∃ claim, buildClaim sampleDeployment sampleVault sampleClaimProof.encode sampleTerms 3 none =
        .ok claim ∧
      ReadsBack sampleDeployment sampleVault sampleClaimProof.encode sampleTerms claim := by
  intro _
  obtain ⟨claim, tx, hbuilt, -⟩ := sample_built
  refine ⟨(readsBack_of_buildClaim.1 _ _).mpr ⟨rfl, by simp⟩, claim, hbuilt, ?_⟩
  exact readsBack_of_buildClaim.2 _ _ _ _ _ _ _ hbuilt

omit [Hasher] in
/-- What the builder writes is not all read: `push` writes an item of 65,536 bytes and no script
with it is read, and a claim with another version is read as the same transaction. -/
theorem pushes_and_version_unread :
    let _ : Hasher := Hasher.fips
    (∃ data : Bytes, data.length = 65536 ∧
      parsePushes (push data) = .error "the claim's unlocking bytecode is not push-only") ∧
    ∃ claim, buildClaim sampleDeployment sampleVault sampleClaimProof.encode sampleTerms 3 none =
        .ok claim ∧
      u32Le 1 ++ claim.raw.drop 4 ≠ claim.raw ∧
      parseTx (u32Le 1 ++ claim.raw.drop 4) = parseTx claim.raw := by
  intro _
  refine ⟨⟨List.replicate 65536 0, List.length_replicate, ?_⟩, ?_⟩
  · exact parsePushes_of_long (by rw [List.length_replicate]; decide)
  · obtain ⟨claim, tx, hbuilt, -⟩ := sample_built
    have hversion : u32Le claimVersion ++ claim.raw.drop 4 = claim.raw := by
      rw [← (ReadsBack.of_buildClaim hbuilt).version, List.take_append_drop]
    refine ⟨claim, hbuilt, ?_, ?_⟩
    · intro heq
      rw [← hversion, List.drop_left' (length_u32Le _), List.append_left_inj] at heq
      exact absurd heq (by decide)
    · nth_rewrite 2 [← hversion]
      exact parseTx_version _ _ _

end Pickaxe.Safa
