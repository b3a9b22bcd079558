/-
# The covenants accept what is built

A built transaction is read back as the network reads it, and both covenants run on it.  The pot
accepts every claim and every refund.  The baton's covenant accepts a claim under conditions that
the builder does not check: tokens are left for the baton, the baton holds at least 1000 satoshis,
and the claim's locktime and its count fit four bytes with a sign.
-/
import Pickaxe.Electric.Claim

namespace Pickaxe.Electric

open Lib Script

/-! ## What a build consists of -/

section Parts

lemma pushData_le {data bytes : Bytes} (h : pushData data = .ok bytes) :
    bytes.length ≤ 65538 := by
  unfold pushData at h
  split_ifs at h <;> cases h <;> simp <;> omega

lemma pushBytes_le (data : Bytes) : (pushBytes data).length ≤ 65538 := by
  have hpush : ((pushData data).toOption.getD []).length ≤ 65538 := by
    cases h : pushData data with
    | error e => exact Nat.zero_le _
    | ok bytes => exact pushData_le h
  unfold pushBytes
  split
  · decide
  · split_ifs
    · exact Nat.succ_le_succ (Nat.zero_le _)
    · decide
    · exact hpush
  · exact hpush

lemma isSmall_of_length {data : Bytes} (h : 2 ≤ data.length) : isSmall data = false := by
  match data, h with
  | _ :: _ :: _, _ => rfl

lemma two_le_redeemScript (d : Deployment) : 2 ≤ d.redeemScript.length := by
  have hbody : 2 ≤ ((Text.hexDecode Deployment.powMineStatefulV1BodyHex.toList).getD []).length := by
    unfold Deployment.powMineStatefulV1BodyHex
    iterate 6 rewrite [String.toList_append]
    repeat rewrite [String.toList_ofList]
    decide +kernel
  unfold Deployment.redeemScript
  cases d.contract
  simp only [List.length_append]
  omega

lemma two_le_potRedeem {lock refund : Bytes} {min : UInt8} {r : Recipients} {o : PotOptions} :
    2 ≤ (potRedeem lock min r refund o).length := by
  simp [potRedeem]

/-- A signature has 65 bytes with its hash type. -/
def IsSignature (signature : Option Bytes) : Prop := ∀ s ∈ signature, s.length = 65

/-- What a pot's unlocking bytecode pushes. -/
lemma pushed_unlock {signature : Option Bytes} {redeem bytes : Bytes} (hredeem : 2 ≤ redeem.length)
    (hsignature : IsSignature signature) (h : unlock signature redeem = .ok bytes) :
    pushed bytes = some (redeem :: signature.toList) ∧ bytes.length < 2 ^ 64 := by
  obtain ⟨first, hfirst, h⟩ := Except.bind_eq_ok.mp h
  obtain ⟨second, hsecond, h⟩ := Except.bind_eq_ok.mp h
  cases h
  have hparses := parses_pushData (isSmall_of_length hredeem) hsecond
  have hlength := pushData_le hsecond
  cases signature with
  | none =>
    cases hfirst
    exact ⟨pushed_of_parses (show Parses _ ([redeem].map _) from hparses), by simp; omega⟩
  | some s =>
    have hs := hsignature s rfl
    have hfirst : pushData s = .ok first := hfirst
    have hpush := (parses_pushData (isSmall_of_length (by omega)) hfirst).append hparses
    have hle := pushData_le hfirst
    exact ⟨pushed_of_parses (show Parses _ ([s, redeem].map _) from hpush), by simp; omega⟩

/-- What the baton's unlocking bytecode pushes. -/
lemma pushed_batonUnlock {d : Deployment} {win : Win} {unlocking : Bytes}
    (h : batonUnlock d win = .ok unlocking) :
    pushed unlocking = some [d.redeemScript, win.pkh.bytes, u64Le win.nonce] ∧
      unlocking.length < 2 ^ 64 := by
  obtain ⟨redeem, hredeem, h⟩ := Except.bind_eq_ok.mp h
  cases h
  have hnonce : Parses (pushBytes (u64Le win.nonce)) [.op (.push (u64Le win.nonce))] :=
    parses_pushBytes (by simp)
  have hpkh : Parses (pushBytes win.pkh.bytes) [.op (.push win.pkh.bytes)] :=
    parses_pushBytes (by simp)
  have hscript := parses_pushData (isSmall_of_length (two_le_redeemScript d)) hredeem
  have hle := pushData_le hredeem
  have hfirst := pushBytes_le (u64Le win.nonce)
  have hsecond := pushBytes_le win.pkh.bytes
  have hparses : Parses _ ([u64Le win.nonce, win.pkh.bytes, d.redeemScript].map
      fun b => .op (.push b)) := (hnonce.append hpkh).append hscript
  refine ⟨pushed_of_parses hparses, ?_⟩
  simp only [List.length_append]
  omega

end Parts

section Claims

variable [Hasher] [Schnorr] {d : Deployment} {pot : Pot} {baton : Baton} {coin : Coin} {win : Win}
  {locktime : UInt32} {rate : UInt64} {secret : Option Schnorr.Secret} {built : Built}

/-- What a claim was built from. -/
structure ClaimParts (d : Deployment) (pot : Pot) (baton : Baton) (coin : Coin) (win : Win)
    (locktime : UInt32) (rate : UInt64) (secret : Option Schnorr.Secret) (built : Built) where
  next : State
  batonId : Hash
  coinId : Hash
  unlocking : Bytes
  potUnlock : Bytes
  signature : Option Bytes
  change : ℕ
  key_eq : pot.options.authorizedClaims = true → secret.map Schnorr.publicKey = pot.options.key
  reward_le : d.reward.toNat ≤ baton.tokenAmount.toNat
  next_eq : baton.state.next locktime d = .ok next
  baton_eq : parseTxidDisplay baton.txid = .ok batonId
  coin_eq : parseTxidDisplay coin.txid = .ok coinId
  unlocking_eq : batonUnlock d win = .ok unlocking
  signature_eq : claimSignature d pot baton coin win locktime next change secret = .ok signature
  pot_eq : unlock signature pot.redeem = .ok potUnlock
  raw_eq : built.raw = leBytes 4 2 ++ compactSize 2 ++
    (rawIn batonId baton.vout unlocking claimSequence).encode ++
    (rawIn coinId coin.vout potUnlock claimSequence).encode ++ compactSize 3 ++
    claimOutputs d pot baton win next change ++ u32Le locktime
  fee_eq : built.fee = relayFee built.raw.length rate
  fee_le : built.fee ≤ potMaxFeeSats
  change_ge : potMinChangeSats ≤ change
  value_eq : coin.value.toNat = tokenOutputSats + built.fee + change

/-- A signature is there exactly where the pot asks for one. -/
lemma claimSignature_ok {next : State} {change : ℕ} {signature : Option Bytes}
    (h : claimSignature d pot baton coin win locktime next change secret = .ok signature) :
    if pot.options.authorizedClaims then ∃ key covered sig, secret = some key ∧
        claimPreimage d pot baton coin win locktime next change = .ok covered ∧
        Schnorr.sign key (doubleSha256 covered) = .ok sig ∧ signature = some (sig.bytes ++ [0x41])
      else signature = none := by
  unfold claimSignature at h
  split_ifs at h ⊢ with hauthorized
  · cases secret with
    | none => cases h
    | some key =>
      obtain ⟨covered, hcovered, h⟩ := Except.bind_eq_ok.mp h
      obtain ⟨bytes, hbytes, h⟩ := Except.bind_eq_ok.mp h
      obtain ⟨sig, hsig, hbytes⟩ := Except.bind_eq_ok.mp hbytes
      cases hbytes
      cases h
      exact ⟨key, covered, sig, rfl, hcovered, hsig, rfl⟩
  · cases h
    rfl

omit [Schnorr] in
/-- The length of a claim does not depend on its change, nor on the signature of its pot. -/
lemma length_assembleClaim {next : State} {unlocking raw raw' : Bytes} {change change' : ℕ}
    {signature signature' : Option Bytes}
    (hlength : signature.map List.length = signature'.map List.length)
    (h : assembleClaim d pot baton coin win locktime next unlocking change signature = .ok raw)
    (h' : assembleClaim d pot baton coin win locktime next unlocking change' signature' = .ok raw') :
    raw.length = raw'.length := by
  obtain ⟨batonId, coinId, potUnlock, -, -, hunlock, rfl⟩ := assembleClaim_ok h
  obtain ⟨batonId', coinId', potUnlock', -, -, hunlock', rfl⟩ := assembleClaim_ok h'
  have hpot := length_unlock hlength hunlock hunlock'
  simp only [List.length_append, encode_rawIn, List.length_reverse, ByteVec.length_eq, length_u32Le,
    hpot, claimOutputs, output, length_leBytes]

/-- Every claim that is built has its parts. -/
lemma claim_parts (h : buildAuthorizedClaim d pot baton coin win locktime rate secret = .ok built) :
    Nonempty (ClaimParts d pot baton coin win locktime rate secret built) := by
  obtain ⟨hkey, h⟩ := Except.ite_error_eq_ok.mp h
  obtain ⟨hreward, h⟩ := Except.ite_error_eq_ok.mp h
  obtain ⟨next, hnext, h⟩ := Except.bind_eq_ok.mp h
  obtain ⟨unlocking, hunlocking, h⟩ := Except.bind_eq_ok.mp h
  obtain ⟨sized, hsized, h⟩ := Except.bind_eq_ok.mp h
  obtain ⟨hfee, h⟩ := Except.ite_error_eq_ok.mp h
  obtain ⟨hcovers, h⟩ := Except.ite_error_eq_ok.mp h
  obtain ⟨signature, hsignature, h⟩ := Except.bind_eq_ok.mp h
  obtain ⟨raw, hraw, h⟩ := Except.bind_eq_ok.mp h
  cases h
  obtain ⟨batonId, coinId, potUnlock, hbaton, hcoin, hpot, hbytes⟩ := assembleClaim_ok hraw
  -- the placeholder has the length of the signature
  have hlength : sized.length = raw.length := by
    refine length_assembleClaim ?_ hsized hraw
    have hsigned := claimSignature_ok hsignature
    split_ifs at hsigned ⊢ with hauthorized
    · obtain ⟨key, covered, sig, -, -, -, rfl⟩ := hsigned
      simp
    · rw [hsigned]
  rw [hlength] at hfee hcovers
  exact ⟨{
    next, batonId, coinId, unlocking, potUnlock, signature
    change := _
    key_eq := fun hauthorized => by
      by_contra hne
      exact hkey ⟨hauthorized, fun h => hne h.2⟩
    reward_le := Nat.not_lt.mp hreward
    next_eq := hnext
    baton_eq := hbaton
    coin_eq := hcoin
    unlocking_eq := hunlocking
    signature_eq := hsignature
    pot_eq := hpot
    raw_eq := hbytes
    fee_eq := by rw [hlength]
    fee_le := by rw [hlength]; exact Nat.not_lt.mp hfee
    change_ge := by rw [hlength]; omega
    value_eq := by dsimp only; rw [hlength]; omega }⟩

/-! ## Claims -/

/-- The functions scripts run with on the network. -/
def network (other : Bytes → Bytes → Bool) : Crypto :=
  ⟨fun b => (doubleSha256 b).bytes, Schnorr.verify, other⟩

/-- The outputs a claim spends. -/
def claimSpent (d : Deployment) (pot : Pot) (baton : Baton) (coin : Coin) : List TxOut :=
  [⟨baton.value.toNat, d.lockingBytecode,
      some ⟨d.categoryLe, some (1, baton.state.encode), baton.tokenAmount.toNat⟩⟩,
    ⟨coin.value.toNat, pot.lockingBytecode, none⟩]

/-- The amount of a category's tokens in some outputs. -/
def amountOf (category : ByteVec 32) (outs : List TxOut) : ℕ :=
  (((outs.filterMap TxOut.token).filter (·.category = category)).map Token.amount).sum

/-- The capabilities of a category's NFTs in some outputs. -/
def nftsOf (category : ByteVec 32) (outs : List TxOut) : List UInt8 :=
  (((outs.filterMap TxOut.token).filter (·.category = category)).filterMap Token.nft).map Prod.fst

/-- What a built transaction has to be: a transaction of the network that both covenants accept, with
the tokens, the satoshis, the fee and the signature the claim is about. -/
structure ClaimSound (d : Deployment) (pot : Pot) (baton : Baton) (coin : Coin) (rate : UInt64)
    (secret : Option Schnorr.Secret) (other : Bytes → Bytes → Bool) (built : Built) (tx : Tx) :
    Prop where
  decode_eq : Tx.decode built.raw = .ok tx
  baton_unlocks : tx.Unlocks (network other) (claimSpent d pot baton coin) 0
  pot_unlocks : tx.Unlocks (network other) (claimSpent d pot baton coin) 1
  tokens_eq : ∀ category, amountOf category (claimSpent d pot baton coin) =
    amountOf category tx.outputs
  nfts_eq : ∀ category, nftsOf category (claimSpent d pot baton coin) = nftsOf category tx.outputs
  sats_eq : ((claimSpent d pot baton coin).map TxOut.value).sum =
    (tx.outputs.map TxOut.value).sum + built.fee
  fee_eq : built.fee = relayFee built.raw.length rate
  fee_le : built.fee ≤ 3000
  change_ge : ∃ out, tx.outputs[2]? = some out ∧ out.bytecode = pot.lockingBytecode ∧ 1000 ≤ out.value
  signed : pot.options.authorizedClaims = true → ∃ key sig input out, secret = some key ∧
    tx.inputs[1]? = some input ∧ (claimSpent d pot baton coin)[1]? = some out ∧
    pushed input.unlocking = some [pot.redeem, sig.bytes ++ [0x41]] ∧
    Schnorr.sign key (doubleSha256 (tx.signed (network other) input out pot.redeem)) = .ok sig

namespace ClaimParts

variable (parts : ClaimParts d pot baton coin win locktime rate secret built)

/-- The transaction a claim is. -/
def tx : Tx :=
  claimTx d pot baton coin win locktime parts.next parts.batonId parts.coinId parts.unlocking
    parts.potUnlock parts.change

lemma isSignature : IsSignature parts.signature := by
  intro s hs
  have hsigned := claimSignature_ok parts.signature_eq
  split_ifs at hsigned
  · obtain ⟨key, covered, sig, -, -, -, hsome⟩ := hsigned
    rw [hsome] at hs
    cases hs
    simp
  · rw [hsigned] at hs
    cases hs

lemma valid_inputs (hredeem : 2 ≤ pot.redeem.length) : ∀ i ∈ parts.tx.inputs, i.Valid := by
  have hbaton := (pushed_batonUnlock parts.unlocking_eq).2
  have hpot := (pushed_unlock hredeem parts.isSignature parts.pot_eq).2
  have hinput : ∀ {id : Hash} {vout : UInt32} {unlocking : Bytes}, unlocking.length < 2 ^ 64 →
      (rawIn id vout unlocking claimSequence).Valid := by
    intro id vout unlocking hlength
    exact ⟨vout.toNat_lt, hlength, claimSequence.toNat_lt⟩
  intro i hi
  rcases List.mem_cons.mp hi with rfl | hi
  · exact hinput hbaton
  · rw [List.mem_singleton.mp hi]
    exact hinput hpot

lemma change_lt : parts.change < 2 ^ 64 := by
  have hvalue := parts.value_eq
  have hlt := coin.value.toNat_lt
  omega

omit [Hasher] [Schnorr] in
lemma valid_rewardOut (hreward : 0 < d.reward.toNat) (hlt : d.reward.toNat < 2 ^ 63) :
    TxOut.Valid ⟨tokenOutputSats, p2pkh win.pkh, some ⟨d.categoryLe, none, d.reward.toNat⟩⟩ := by
  have htoken : Token.Valid ⟨d.categoryLe, none, d.reward.toNat⟩ :=
    ⟨.inr hreward.ne', hlt, nofun⟩
  have hvalue : tokenOutputSats < 2 ^ 64 := by decide
  refine ⟨hvalue, ?_, by rintro t ⟨⟩; exact htoken, nofun⟩
  have hlength := htoken.length_encode
  simp [TxOut.content, p2pkh]
  omega

omit [Schnorr] in
lemma valid_batonOut {next : State} (hamount : baton.tokenAmount.toNat < 2 ^ 63) :
    TxOut.Valid ⟨baton.value.toNat, d.lockingBytecode, some ⟨d.categoryLe, some (1, next.encode),
      baton.tokenAmount.toNat - d.reward.toNat⟩⟩ := by
  have htoken : Token.Valid ⟨d.categoryLe, some (1, next.encode),
      baton.tokenAmount.toNat - d.reward.toNat⟩ := by
    refine ⟨.inl rfl, by dsimp only; omega, ?_⟩
    rintro p ⟨⟩
    exact ⟨Nat.le_succ 1, by simp [length_encode]⟩
  refine ⟨baton.value.toNat_lt, ?_, by rintro t ⟨⟩; exact htoken, nofun⟩
  have hlength := htoken.length_encode
  have hlock : d.lockingBytecode.length = 35 := length_lockingBytecode
  simp [TxOut.content, hlock]
  omega

omit [Schnorr] in
lemma valid_potOut {change : ℕ} (hchange : change < 2 ^ 64) :
    TxOut.Valid ⟨change, pot.lockingBytecode, none⟩ := by
  refine ⟨hchange, ?_, nofun, fun _ => ?_⟩
  · simp [TxOut.content, Pot.lockingBytecode, p2sh32]
  · simp [Pot.lockingBytecode, p2sh32]

lemma valid_tx (hredeem : 2 ≤ pot.redeem.length) (hreward : 0 < d.reward.toNat)
    (hamount : baton.tokenAmount.toNat < 2 ^ 63) : parts.tx.Valid := by
  have hversion : (2 : ℕ) < 2 ^ 32 := by norm_num
  have hins : (2 : ℕ) < 2 ^ 64 := by norm_num
  have houts : (3 : ℕ) < 2 ^ 64 := by norm_num
  refine ⟨hversion, locktime.toNat_lt, hins, houts, parts.valid_inputs hredeem, ?_⟩
  intro o ho
  have ho : o ∈ claimOuts d pot baton win parts.next parts.change := ho
  simp only [claimOuts, List.mem_cons, List.not_mem_nil, or_false] at ho
  rcases ho with rfl | rfl | rfl
  · exact valid_rewardOut hreward (parts.reward_le.trans_lt hamount)
  · exact valid_batonOut hamount
  · exact valid_potOut parts.change_lt

/-- With tokens left for the baton, a claim is read as its transaction. -/
lemma decode_raw (hredeem : 2 ≤ pot.redeem.length) (hreward : 0 < d.reward.toNat)
    (hamount : baton.tokenAmount.toNat < 2 ^ 63)
    (hleft : d.reward.toNat < baton.tokenAmount.toNat) : Tx.decode built.raw = .ok parts.tx := by
  rw [parts.raw_eq, ← encode_claimTx hreward hleft]
  exact decode_encode (parts.valid_tx hredeem hreward hamount)

omit [Hasher] [Schnorr] in
/-- The baton's tokens are refused if none are left: an amount of zero is written. -/
lemma parseContent_batonToken {next : State} {value : ℕ} {lock : Bytes}
    (hnone : baton.tokenAmount.toNat = d.reward.toNat) :
    ∃ e, parseContent value (batonToken d baton next ++ lock) = .error e := by
  have hrefuses : Reader.Refuses readToken (d.categoryLe.bytes ++ ([0x71] ++ (compactSize 16 ++
      next.encode ++ compactSize 0))) := by
    refine (Reader.reads_array d.categoryLe).bind_refuses ?_
    refine (Reader.reads_byte 0x71).bind_refuses ?_
    rw [← List.nil_append (compactSize 16 ++ _ ++ _)]
    refine (Reader.reads_guard (by decide)).bind_refuses ?_
    rw [← List.nil_append (compactSize 16 ++ _ ++ _)]
    refine (Reader.reads_guard (by decide)).bind_refuses ?_
    have hcommitment : Reader.Reads readCommitment next.encode
        (compactSize next.encode.length ++ next.encode) :=
      reads_commitment (by simp [State.encode]) (by simp [length_encode])
    rw [length_encode] at hcommitment
    exact hcommitment.bind_refuses refuses_amount.bind
  obtain ⟨e, he⟩ := hrefuses lock
  refine ⟨e, ?_⟩
  have hbytes : batonToken d baton next ++ lock = 0xef :: (d.categoryLe.bytes ++ ([0x71] ++
      (compactSize 16 ++ next.encode ++ compactSize 0)) ++ lock) := by
    rw [batonToken, hnone, Nat.sub_self]
    simp
  rw [hbytes]
  show (readToken _).map _ = _
  rw [he]
  rfl

include parts in
/-- Without tokens left for the baton, a claim is not a transaction. -/
lemma decode_raw_ne (hredeem : 2 ≤ pot.redeem.length) (hreward : 0 < d.reward.toNat)
    (hamount : baton.tokenAmount.toNat < 2 ^ 63)
    (hnone : baton.tokenAmount.toNat = d.reward.toNat) (tx : Tx) :
    Tx.decode built.raw ≠ .ok tx := by
  obtain ⟨e, he⟩ : ∃ e, parseContent baton.value.toNat (batonToken d baton parts.next ++
      d.lockingBytecode) = .error e := parseContent_batonToken hnone
  have hfirst : Reader.Reads readOut ⟨_, p2pkh win.pkh, _⟩ _ :=
    reads_out (valid_rewardOut hreward (parts.reward_le.trans_lt hamount))
  rw [encode_out, Option.map_some, Option.getD_some, encode_rewardToken hreward] at hfirst
  have hsecond : Reader.Refuses readOut
      (output baton.value.toNat (batonToken d baton parts.next) d.lockingBytecode) := by
    have hlength : (batonToken d baton parts.next ++ d.lockingBytecode).length < 2 ^ 64 := by
      have hsize := length_compactSize_le (baton.tokenAmount.toNat - d.reward.toNat)
      have hlock : d.lockingBytecode.length = 35 := length_lockingBytecode
      have hcount := length_compactSize_le 16
      simp [batonToken, hlock, length_encode]
      omega
    have hrefuses := refuses_out baton.value.toNat_lt hlength he
    rw [output, ← List.length_append, List.append_assoc]
    exact hrefuses
  have houtputs : Reader.Refuses (Reader.times readOut 3)
      (claimOutputs d pot baton win parts.next parts.change ++ u32Le locktime) := by
    rw [claimOutputs, List.append_assoc, List.append_assoc]
    refine hfirst.bind_refuses (Reader.Refuses.bind ?_)
    exact (hsecond.append).bind
  rw [parts.raw_eq]
  have hversion : (2 : ℕ) < 2 ^ 32 := by norm_num
  have hins : parts.tx.inputs.length < 2 ^ 64 := show 2 < 2 ^ 64 by norm_num
  have houts : (3 : ℕ) < 2 ^ 64 := by norm_num
  have hdecode := decode_refuses hversion hins houts (parts.valid_inputs hredeem) houtputs tx
  simpa [List.append_assoc, ClaimParts.tx, claimTx] using hdecode

/-! The baton -/

/-- The covenant accepts the claim where the baton, the count and the locktime fit. -/
lemma baton_unlocks_iff {other : Bytes → Bytes → Bool} (hd : d.Valid)
    (hmax : baton.state.difficulty.toNat ≤ d.maxDifficulty.toNat)
    (hheight : baton.state.lastHeight.toNat < 2 ^ 31)
    (hmeets : meets (doubleSha256 (preimage baton.state.lastHeight win.pkh (u64Le win.nonce)))
      baton.state.difficulty = true)
    (hamount : baton.tokenAmount.toNat < 2 ^ 63) :
    parts.tx.Unlocks (network other) (claimSpent d pot baton coin) 0 ↔
      1000 ≤ baton.value.toNat ∧ baton.state.mineCount.toNat + 1 < 2 ^ 31 ∧
        locktime.toNat < 2 ^ 31 := by
  have hreward := parts.reward_le
  have hsmall : baton.state.difficulty.toNat < 128 := by
    have := hd.max_le
    omega
  have hlocktime : baton.state.lastHeight.toNat ≤ locktime.toNat :=
    UInt32.le_iff_toNat_le.mp (next_cases parts.next_eq).2.1
  have hzero : baton.state.difficulty.toNat ≤ 32 ∧
      (doubleSha256 (preimage baton.state.lastHeight win.pkh (u64Le win.nonce))).bytes.take
        baton.state.difficulty.toNat = List.replicate baton.state.difficulty.toNat 0 := by
    rw [meets, Bool.and_eq_true, decide_eq_true_eq, List.all_eq_true] at hmeets
    rw [ByteVec.length_eq] at hmeets
    refine ⟨hmeets.1, List.eq_replicate_iff.mpr ⟨?_, fun b hb => eq_of_beq (hmeets.2 b hb)⟩⟩
    rw [List.length_take, ByteVec.length_eq, Nat.min_eq_left hmeets.1]
  rw [unlocks_iff rfl rfl (pushed_batonUnlock parts.unlocking_eq).1 rfl,
    parse_redeemScript (hreward.trans_lt hamount)]
  simp only [Option.some.injEq, exists_eq_left']
  rw [accepts_contract rfl rfl hsmall hheight rfl]
  constructor
  · rintro ⟨-, -, -, ⟨-, -, -, hvalue⟩, -, hstate⟩
    have hfits := (next_state_iff hd hmax parts.next_eq).mp hstate
    exact ⟨hvalue, hfits.2, hfits.1⟩
  · rintro ⟨hvalue, hcount, hfits⟩
    have hstate := (next_state_iff hd hmax parts.next_eq).mpr ⟨hfits, hcount⟩
    have hsequence : claimSequence.toNat ≠ 0xffffffff := by decide
    refine ⟨⟨rfl, hsequence, rfl⟩, ⟨?_, hzero.2, hlocktime⟩, ⟨rfl, ?_, rfl, rfl⟩,
      ⟨rfl, rfl, ?_, hvalue⟩, rfl, hstate⟩
    · exact hzero.1.trans_eq (ByteVec.length_eq _).symm
    · simp [TxOut.tokenCategory]
    · show ((baton.tokenAmount.toNat - d.reward.toNat : ℕ) : ℤ) = (baton.tokenAmount.toNat : ℤ) - _
      omega

/-! The pot -/

/-- What the signature of a claim covers is what the network checks it against. -/
lemma claimPreimage_eq {other : Bytes → Bytes → Bool} {covered : Bytes} (hreward : 0 < d.reward.toNat)
    (hleft : d.reward.toNat < baton.tokenAmount.toNat)
    (h : claimPreimage d pot baton coin win locktime parts.next parts.change = .ok covered) :
    covered = parts.tx.signed (network other)
      (rawIn parts.coinId coin.vout parts.potUnlock claimSequence)
      ⟨coin.value.toNat, pot.lockingBytecode, none⟩ pot.redeem := by
  obtain ⟨batonOutpoint, hbaton, h⟩ := Except.bind_eq_ok.mp h
  obtain ⟨potOutpoint, hpot, h⟩ := Except.bind_eq_ok.mp h
  cases h
  rw [outpoint_ok parts.baton_eq hbaton, outpoint_ok parts.coin_eq hpot, Tx.signed, tx, claimTx,
    encode_claimOuts hreward hleft]
  simp [network, RawIn.outpoint, rawIn, wireId, u32Le, u64Le, List.append_assoc]

/-- The pot's script accepts the claim. -/
lemma pot_unlocks {r : Recipients} {o : PotOptions} {tip : UInt32} {other : Bytes → Bytes → Bool}
    (parts : ClaimParts d (Pot.make d r o) baton coin win locktime rate secret built)
    (hsign : ∀ key message sig, Schnorr.sign key message = .ok sig →
      Schnorr.verify (Schnorr.publicKey key).bytes message.bytes sig.bytes = true)
    (hd : d.Valid) (hr : r.IsP2pkh) (hpays : p2pkh win.pkh ∈ r.locks)
    (hheight : baton.state.lastHeight.toNat < 2 ^ 31)
    (hlocktime : (Pot.make d r o).claimLocktime baton.state tip d = some locktime)
    (hleft : d.reward.toNat < baton.tokenAmount.toNat) :
    parts.tx.Unlocks (network other) (claimSpent d (Pot.make d r o) baton coin) 1 := by
  rw [unlocks_iff rfl rfl (pushed_unlock two_le_potRedeem parts.isSignature parts.pot_eq).1 rfl]
  refine (redeems_iff hd hr rfl rfl).mpr (.inl ?_)
  have hfee := parts.fee_le
  have hvalue := parts.value_eq
  refine ⟨rfl, ?_, _, _, _, _, _, rfl, rfl, rfl, hpays, rfl, rfl, rfl, ?_, fun hrestricted => ?_⟩
  · have hsigned := claimSignature_ok parts.signature_eq
    have hkey := parts.key_eq
    change (if o.authorizedClaims then _ else _) at hsigned
    change o.authorizedClaims = true → _ = o.key at hkey
    cases hauthorized : o.authorizedClaims with
    | false =>
      rw [hauthorized, if_neg (by decide)] at hsigned
      rw [hsigned]
      rfl
    | true =>
      rw [hauthorized, if_pos rfl] at hsigned
      obtain ⟨key, covered, sig, rfl, hcovered, hsig, hsome⟩ := hsigned
      have hbytes : o.keyBytes = (Schnorr.publicKey key).bytes := by
        rw [PotOptions.keyBytes, ← hkey hauthorized]
        rfl
      rw [hsome, hbytes]
      refine ⟨sig.bytes ++ [0x41], rfl, (checkSig_spend sig).trans ?_⟩
      have hverify := hsign key _ sig hsig
      rw [parts.claimPreimage_eq hd.reward_pos hleft hcovered] at hverify
      exact hverify
  · show coin.value.toNat ≤ parts.change + 4000
    have hcap : built.fee ≤ 3000 := hfee
    have hsats : coin.value.toNat = 1000 + built.fee + parts.change := hvalue
    omega
  · show Passes d.minDifficulty baton.state.encode locktime.toNat
    rw [passes_encode hheight]
    rw [Pot.claimLocktime] at hlocktime
    change (if o.authorizedClaims then _ else _) = _ at hlocktime
    rw [hrestricted, if_neg (by decide)] at hlocktime
    unfold claimLocktime at hlocktime
    split_ifs at hlocktime with hpasses
    cases hlocktime
    rcases hpasses with hmoves | ⟨-, hmin⟩
    · exact .inl (UInt32.lt_iff_toNat_lt.mp hmoves)
    · exact .inr hmin

/-- A claim both covenants accept is what the network needs. -/
lemma sound {r : Recipients} {o : PotOptions} {tip : UInt32} {other : Bytes → Bytes → Bool}
    (parts : ClaimParts d (Pot.make d r o) baton coin win locktime rate secret built)
    (hsign : ∀ key message sig, Schnorr.sign key message = .ok sig →
      Schnorr.verify (Schnorr.publicKey key).bytes message.bytes sig.bytes = true)
    (hd : d.Valid) (hr : r.IsP2pkh) (hpays : p2pkh win.pkh ∈ r.locks)
    (hheight : baton.state.lastHeight.toNat < 2 ^ 31)
    (hlocktime : (Pot.make d r o).claimLocktime baton.state tip d = some locktime)
    (hamount : baton.tokenAmount.toNat < 2 ^ 63)
    (hleft : d.reward.toNat < baton.tokenAmount.toNat)
    (hbaton : parts.tx.Unlocks (network other) (claimSpent d (Pot.make d r o) baton coin) 0) :
    ClaimSound d (Pot.make d r o) baton coin rate secret other built parts.tx where
  decode_eq := parts.decode_raw two_le_potRedeem hd.reward_pos hamount hleft
  baton_unlocks := hbaton
  pot_unlocks := parts.pot_unlocks hsign hd hr hpays hheight hlocktime hleft
  tokens_eq category := by
    have hsplit : d.reward.toNat + (baton.tokenAmount.toNat - d.reward.toNat) =
        baton.tokenAmount.toNat := by omega
    by_cases hcategory : d.categoryLe = category <;>
      simp [amountOf, claimSpent, tx, claimTx, claimOuts, hcategory, hsplit]
  nfts_eq category := by
    by_cases hcategory : d.categoryLe = category <;>
      simp [nftsOf, claimSpent, tx, claimTx, claimOuts, hcategory]
  sats_eq := by
    have hvalue := parts.value_eq
    simp only [claimSpent, tx, claimTx, claimOuts, List.map_cons, List.map_nil, List.sum_cons,
      List.sum_nil]
    omega
  fee_eq := parts.fee_eq
  fee_le := parts.fee_le
  change_ge := ⟨_, rfl, rfl, parts.change_ge⟩
  signed hauthorized := by
    have hsigned := claimSignature_ok parts.signature_eq
    rw [if_pos hauthorized] at hsigned
    obtain ⟨key, covered, sig, hsecret, hcovered, hsig, hsome⟩ := hsigned
    have hpushed := (pushed_unlock two_le_potRedeem parts.isSignature parts.pot_eq).1
    rw [hsome] at hpushed
    refine ⟨key, sig, _, _, hsecret, rfl, rfl, hpushed, ?_⟩
    rw [parts.claimPreimage_eq hd.reward_pos hleft hcovered] at hsig
    exact hsig

end ClaimParts

end Claims

/-! ## Refunds -/

section Refunds

variable [Hasher] [Schnorr] {pot : Pot} {coin : Coin} {refundLock : Bytes} {rate : UInt64}
  {secret : Option Schnorr.Secret} {built : Built}

/-- The output a refund spends. -/
def refundSpent (pot : Pot) (coin : Coin) : TxOut := ⟨coin.value.toNat, pot.lockingBytecode, none⟩

/-- What a built refund has to be. -/
structure RefundSound (pot : Pot) (coin : Coin) (refundLock : Bytes) (rate : UInt64)
    (secret : Option Schnorr.Secret) (other : Bytes → Bytes → Bool) (built : Built) (tx : Tx) :
    Prop where
  decode_eq : Tx.decode built.raw = .ok tx
  unlocks : tx.Unlocks (network other) [refundSpent pot coin] 0
  pays : ∃ value, tx.outputs = [⟨value, refundLock, none⟩] ∧ coin.value.toNat = value + built.fee
  fee_eq : built.fee = relayFee built.raw.length rate
  fee_le : built.fee ≤ 3000
  signed : ∀ key ∈ pot.options.key, ∃ secretKey sig input, secret = some secretKey ∧
    Schnorr.publicKey secretKey = key ∧ tx.inputs = [input] ∧
    pushed input.unlocking = some [pot.redeem, sig.bytes ++ [0x41]] ∧
    Schnorr.sign secretKey (doubleSha256
      (tx.signed (network other) input (refundSpent pot coin) pot.redeem)) = .ok sig

/-- A refund as the network reads it. -/
def refundTx (coin : Coin) (refundLock : Bytes) (coinId : Hash) (unlocking : Bytes) (value : ℕ) : Tx :=
  ⟨2, [rawIn coinId coin.vout unlocking 0xffffffff], [⟨value, refundLock, none⟩], 0⟩

omit [Hasher] [Schnorr] in
/-- A refund's bytes are the transaction's. -/
lemma assembleRefund_ok {value : ℕ} {signature : Option Bytes} {raw : Bytes}
    (h : assembleRefund pot coin refundLock value signature = .ok raw) :
    ∃ (coinId : Hash) (unlocking : Bytes), parseTxidDisplay coin.txid = .ok coinId ∧
      unlock signature pot.redeem = .ok unlocking ∧
      raw = (refundTx coin refundLock coinId unlocking value).encode := by
  obtain ⟨unlocking, hunlock, h⟩ := Except.bind_eq_ok.mp h
  obtain ⟨first, hfirst, h⟩ := Except.bind_eq_ok.mp h
  obtain ⟨coinId, hcoin, rfl⟩ := input_ok hfirst
  cases h
  refine ⟨coinId, unlocking, hcoin, hunlock, ?_⟩
  rw [Tx.encode, refundTx]
  simp only [List.flatMap_cons, List.flatMap_nil, List.append_nil, encode_out, Option.map_none,
    Option.getD_none, encode_rawIn, List.length_cons, List.length_nil]

omit [Hasher] [Schnorr] in
lemma length_assembleRefund {value value' : ℕ} {signature signature' : Option Bytes}
    {raw raw' : Bytes} (hlength : signature.map List.length = signature'.map List.length)
    (h : assembleRefund pot coin refundLock value signature = .ok raw)
    (h' : assembleRefund pot coin refundLock value' signature' = .ok raw') :
    raw.length = raw'.length := by
  obtain ⟨coinId, unlocking, -, hunlock, rfl⟩ := assembleRefund_ok h
  obtain ⟨coinId', unlocking', -, hunlock', rfl⟩ := assembleRefund_ok h'
  have hpot := length_unlock hlength hunlock hunlock'
  simp [Tx.encode, refundTx, encode_rawIn, encode_out, output, hpot]

/-- A signature is there exactly where a key was given. -/
lemma refundSignature_ok {value : ℕ} {signature : Option Bytes}
    (h : refundSignature pot coin refundLock value secret = .ok signature) :
    match secret with
    | none => signature = none
    | some key => ∃ covered sig, refundPreimage pot coin refundLock value = .ok covered ∧
        Schnorr.sign key (doubleSha256 covered) = .ok sig ∧ signature = some (sig.bytes ++ [0x41]) := by
  cases secret with
  | none =>
    cases h
    rfl
  | some key =>
    obtain ⟨covered, hcovered, h⟩ := Except.bind_eq_ok.mp h
    obtain ⟨bytes, hbytes, h⟩ := Except.bind_eq_ok.mp h
    obtain ⟨sig, hsig, hbytes⟩ := Except.bind_eq_ok.mp hbytes
    cases hbytes
    cases h
    exact ⟨covered, sig, hcovered, hsig, rfl⟩

lemma refundPreimage_eq {other : Bytes → Bytes → Bool} {value : ℕ} {coinId : Hash}
    {covered unlocking : Bytes} (hcoin : parseTxidDisplay coin.txid = .ok coinId)
    (h : refundPreimage pot coin refundLock value = .ok covered) :
    covered = (refundTx coin refundLock coinId unlocking value).signed (network other)
      (rawIn coinId coin.vout unlocking 0xffffffff) (refundSpent pot coin) pot.redeem := by
  obtain ⟨potOutpoint, hpot, h⟩ := Except.bind_eq_ok.mp h
  cases h
  rw [outpoint_ok hcoin hpot, Tx.signed, refundTx]
  simp [network, RawIn.outpoint, rawIn, wireId, u32Le, u64Le, List.append_assoc, encode_out,
    refundSpent]

/-- What a refund was built from. -/
structure RefundParts (pot : Pot) (coin : Coin) (refundLock : Bytes) (rate : UInt64)
    (secret : Option Schnorr.Secret) (built : Built) where
  coinId : Hash
  unlocking : Bytes
  signature : Option Bytes
  value : ℕ
  key_eq : secret.map Schnorr.publicKey = pot.options.key
  coin_eq : parseTxidDisplay coin.txid = .ok coinId
  signature_eq : refundSignature pot coin refundLock value secret = .ok signature
  unlocking_eq : unlock signature pot.redeem = .ok unlocking
  raw_eq : built.raw = (refundTx coin refundLock coinId unlocking value).encode
  fee_eq : built.fee = relayFee built.raw.length rate
  fee_le : built.fee ≤ potMaxFeeSats
  value_eq : coin.value.toNat = value + built.fee

/-- Every refund that is built has its parts. -/
lemma refund_parts (h : buildRefund pot coin refundLock rate secret = .ok built) :
    Nonempty (RefundParts pot coin refundLock rate secret built) := by
  obtain ⟨hkey, h⟩ := Except.ite_error_eq_ok.mp h
  obtain ⟨sized, hsized, h⟩ := Except.bind_eq_ok.mp h
  obtain ⟨hfee, h⟩ := Except.ite_error_eq_ok.mp h
  obtain ⟨hcovers, h⟩ := Except.ite_error_eq_ok.mp h
  obtain ⟨signature, hsignature, h⟩ := Except.bind_eq_ok.mp h
  obtain ⟨raw, hraw, h⟩ := Except.bind_eq_ok.mp h
  cases h
  obtain ⟨coinId, unlocking, hcoin, hunlock, hbytes⟩ := assembleRefund_ok hraw
  -- the placeholder has the length of the signature
  have hlength : sized.length = raw.length := by
    refine length_assembleRefund ?_ hsized hraw
    have hsigned := refundSignature_ok hsignature
    cases secret with
    | none =>
      have hnone : signature = none := hsigned
      rw [hnone]
      rfl
    | some key =>
      obtain ⟨covered, sig, -, -, rfl⟩ := hsigned
      simp
  exact ⟨{
    coinId, unlocking, signature
    value := _
    key_eq := not_not.mp hkey
    coin_eq := hcoin
    signature_eq := hsignature
    unlocking_eq := hunlock
    raw_eq := hbytes
    fee_eq := by rw [hlength]
    fee_le := Nat.not_lt.mp hfee
    value_eq := by dsimp only; omega }⟩

/-- Every refund that is built is one the pot accepts. -/
lemma refund_sound {d : Deployment} {r : Recipients} {o : PotOptions} {other : Bytes → Bytes → Bool}
    (hsign : ∀ key message sig, Schnorr.sign key message = .ok sig →
      Schnorr.verify (Schnorr.publicKey key).bytes message.bytes sig.bytes = true)
    (hd : d.Valid) (hr : r.IsP2pkh) (hlock : o.ownerDestination = false → refundLock = r.miner)
    (hplain : refundLock.head? ≠ some 0xef) (hlength : refundLock.length < 2 ^ 64)
    (h : buildRefund (Pot.make d r o) coin refundLock rate secret = .ok built) :
    ∃ tx, RefundSound (Pot.make d r o) coin refundLock rate secret other built tx := by
  obtain ⟨parts⟩ := refund_parts h
  have hkey : secret.map Schnorr.publicKey = o.key := parts.key_eq
  have hsigned := refundSignature_ok parts.signature_eq
  have hsignature : IsSignature parts.signature := by
    intro s hs
    cases secret with
    | none =>
      have hnone : parts.signature = none := hsigned
      rw [hnone] at hs
      cases hs
    | some key =>
      obtain ⟨covered, sig, -, -, hsome⟩ := hsigned
      rw [hsome] at hs
      cases hs
      simp
  obtain ⟨hpushed, hshort⟩ := pushed_unlock two_le_potRedeem hsignature parts.unlocking_eq
  have hvalue := parts.value_eq
  have hfee := parts.fee_le
  have hcoin := coin.value.toNat_lt
  -- the transaction is one that is read back
  have hvalid : (refundTx coin refundLock parts.coinId parts.unlocking parts.value).Valid := by
    have hversion : (2 : ℕ) < 2 ^ 32 := by norm_num
    have hone : (1 : ℕ) < 2 ^ 64 := by norm_num
    have hsequence : (0xffffffff : UInt32).toNat < 2 ^ 32 := UInt32.toNat_lt _
    refine ⟨hversion, Nat.two_pow_pos 32, hone, hone, ?_, ?_⟩
    · intro i hi
      rw [List.mem_singleton.mp hi]
      exact ⟨coin.vout.toNat_lt, hshort, hsequence⟩
    · intro out hout
      rw [List.mem_singleton.mp hout]
      exact ⟨by dsimp only; omega, hlength, nofun, fun _ => hplain⟩
  refine ⟨refundTx coin refundLock parts.coinId parts.unlocking parts.value, {
    decode_eq := by rw [parts.raw_eq]; exact decode_encode hvalid
    unlocks := ?_
    pays := ⟨_, rfl, hvalue⟩
    fee_eq := parts.fee_eq
    fee_le := hfee
    signed := ?_ }⟩
  · rw [unlocks_iff rfl rfl hpushed rfl]
    -- the branch of the pot for its owner
    refine (redeems_iff hd hr rfl rfl).mpr (.inr ⟨rfl, ?_, _, _, rfl, rfl, rfl, ?_, hlock⟩)
    · cases secret with
      | none =>
        have hnone : parts.signature = none := hsigned
        rw [← hkey, hnone]
        rfl
      | some key =>
        obtain ⟨covered, sig, hcovered, hsig, hsome⟩ := hsigned
        have hbytes : o.keyBytes = (Schnorr.publicKey key).bytes := by
          rw [PotOptions.keyBytes, ← hkey]
          rfl
        rw [← hkey, hsome, hbytes]
        refine ⟨sig.bytes ++ [0x41], rfl, (checkSig_spend sig).trans ?_⟩
        have hverify := hsign key _ sig hsig
        rw [refundPreimage_eq parts.coin_eq hcovered] at hverify
        exact hverify
    · show coin.value.toNat ≤ parts.value + 3000
      have hcap : built.fee ≤ 3000 := hfee
      omega
  · intro key hmem
    have hmem : o.key = some key := hmem
    rw [← hkey, Option.map_eq_some_iff] at hmem
    obtain ⟨secretKey, rfl, hpublic⟩ := hmem
    obtain ⟨covered, sig, hcovered, hsig, hsome⟩ := hsigned
    rw [hsome] at hpushed
    refine ⟨secretKey, sig, _, rfl, hpublic, rfl, hpushed, ?_⟩
    rw [refundPreimage_eq parts.coin_eq hcovered] at hsig
    exact hsig

end Refunds

/-! ## All that is built -/

/-- The states that claims lead to from a first state, at heights below `2 ^ 31`. -/
inductive Reachable (d : Deployment) : State → Prop
  | genesis (height : UInt32) (h : height.toNat < 2 ^ 31) : Reachable d (genesis d height)
  | next {s next : State} {locktime : UInt32} (hs : Reachable d s) (h : locktime.toNat < 2 ^ 31)
      (hnext : s.next locktime d = .ok next) : Reachable d next

/-- The difficulty stays between the least and the most. -/
lemma Reachable.bounds {d : Deployment} (hd : d.Valid) {s : State} (h : Reachable d s) :
    s.difficulty.toNat ≤ d.maxDifficulty.toNat ∧ s.lastHeight.toNat < 2 ^ 31 := by
  induction h with
  | genesis height h => exact ⟨hd.min_le, h⟩
  | next hs h hnext ih =>
    obtain ⟨hheight, -, hcases⟩ := next_cases hnext
    refine ⟨?_, by rw [hheight]; exact h⟩
    rcases hcases with ⟨-, hmin⟩ | ⟨-, hraised⟩
    · rw [hmin]
      exact hd.min_le
    · rw [hraised]
      exact Nat.min_le_right _ _

/-- A claim that is built is one both covenants accept exactly when tokens are left for the baton, the
baton holds 1000 satoshis, and the count and the locktime fit four bytes with a sign.  A refund that
is built is always one the pot accepts. -/
theorem built_accepted_iff [Hasher] [Schnorr]
    (hsign : ∀ key message sig, Schnorr.sign key message = .ok sig →
      Schnorr.verify (Schnorr.publicKey key).bytes message.bytes sig.bytes = true)
    (other : Bytes → Bytes → Bool) {network : MiningNetwork} {category : Option (List Char)}
    {reward : Option UInt64} {minDifficulty maxDifficulty : Option UInt8} {d : Deployment}
    (hselect : Deployment.select network category reward minDifficulty maxDifficulty = .ok d)
    {r : Recipients} (hr : r.IsP2pkh) (o : PotOptions) :
    (∀ (baton : Baton) (coin : Coin) (win : Win) (tip locktime : UInt32) (rate : UInt64)
        (secret : Option Schnorr.Secret) (built : Built), Reachable d baton.state →
      baton.tokenAmount.toNat ≤ 2 ^ 63 - 1 → p2pkh win.pkh ∈ r.locks →
      meets (doubleSha256 (preimage baton.state.lastHeight win.pkh (u64Le win.nonce)))
        baton.state.difficulty = true →
      (Pot.make d r o).claimLocktime baton.state tip d = some locktime →
      buildAuthorizedClaim d (Pot.make d r o) baton coin win locktime rate secret = .ok built →
      ((∃ tx, ClaimSound d (Pot.make d r o) baton coin rate secret other built tx) ↔
        d.reward.toNat < baton.tokenAmount.toNat ∧ 1000 ≤ baton.value.toNat ∧
          baton.state.mineCount.toNat + 1 < 2 ^ 31 ∧ locktime.toNat < 2 ^ 31)) ∧
    ∀ (coin : Coin) (refundLock : Bytes) (rate : UInt64) (secret : Option Schnorr.Secret)
        (built : Built), (o.ownerDestination = false → refundLock = r.miner) →
      refundLock.head? ≠ some 0xef → refundLock.length < 2 ^ 64 →
      buildRefund (Pot.make d r o) coin refundLock rate secret = .ok built →
      ∃ tx, RefundSound (Pot.make d r o) coin refundLock rate secret other built tx := by
  have hd := Deployment.valid_of_select hselect
  refine ⟨?_, fun coin refundLock rate secret built => refund_sound hsign hd hr⟩
  intro baton coin win tip locktime rate secret built hreach hamount hpays hmeets hlocktime hbuilt
  obtain ⟨hmax, hheight⟩ := hreach.bounds hd
  obtain ⟨parts⟩ := claim_parts hbuilt
  have hamount : baton.tokenAmount.toNat < 2 ^ 63 := by omega
  constructor
  · rintro ⟨tx, hsound⟩
    have hleft : d.reward.toNat < baton.tokenAmount.toNat := by
      refine lt_of_le_of_ne parts.reward_le fun hnone => ?_
      exact parts.decode_raw_ne two_le_potRedeem hd.reward_pos hamount hnone.symm tx hsound.decode_eq
    -- the transaction is the one that was built
    have hdecode := parts.decode_raw two_le_potRedeem hd.reward_pos hamount hleft
    cases hdecode.symm.trans hsound.decode_eq
    exact ⟨hleft, (parts.baton_unlocks_iff hd hmax hheight hmeets hamount).mp hsound.baton_unlocks⟩
  · rintro ⟨hleft, hfits⟩
    have hbaton : parts.tx.Unlocks (Electric.network other) _ 0 :=
      (parts.baton_unlocks_iff hd hmax hheight hmeets hamount).mpr hfits
    exact ⟨parts.tx, parts.sound hsign hd hr hpays hheight hlocktime hamount hleft hbaton⟩

/-- A deployment with small difficulties. -/
def sampleDeployment : Deployment :=
  ⟨.chipnet, .powMineStatefulV1, ByteVec.zero 32, mainnetReward, 1, 2⟩

/-- A transaction id. -/
def sampleTxid : List Char := List.replicate 64 '0'

/-- A baton in its first state, with some tokens. -/
def sampleBatonOf (amount : UInt64) : Baton :=
  ⟨sampleTxid, 0, 1000, amount, genesis sampleDeployment 100⟩

/-- A coin that covers a claim. -/
def sampleCoin : Coin := ⟨sampleTxid, 1, 9000⟩

/-- A proof for the first state. -/
def sampleWin : Win := ⟨ByteVec.zero 20, 414⟩

/-- A pot without a key. -/
def keylessPot [Hasher] : Pot :=
  Pot.make sampleDeployment sampleRecipients ⟨none, false, false, nofun⟩

/-- Signatures that repeat the message; a pot without a key asks for none. -/
@[reducible] def sampleSchnorr : Schnorr where
  Secret := Unit
  publicKey _ := ByteVec.zero 33
  sign _ message := .ok ⟨message.bytes ++ message.bytes, by simp⟩
  verify _ message sig := decide (sig = message ++ message)

lemma sample_select : Deployment.select .chipnet (some sampleTxid) none (some 1) (some 2) =
    .ok sampleDeployment := by
  decide +kernel

lemma sample_meets :
    let _ : Hasher := Hasher.fips
    meets (doubleSha256 (preimage (sampleBatonOf 0).state.lastHeight sampleWin.pkh
      (u64Le sampleWin.nonce))) (sampleBatonOf 0).state.difficulty = true := by
  rw [Hasher.fips_eq]
  decide +kernel

lemma sample_built {amount : UInt64} (h : amount = mainnetReward ∨ amount = 2 * mainnetReward) :
    let _ : Hasher := Hasher.fips
    let _ : Schnorr := sampleSchnorr
    ∃ built, buildAuthorizedClaim sampleDeployment keylessPot (sampleBatonOf amount) sampleCoin
      sampleWin 101 1000 none = .ok built := by
  rw [Hasher.fips_eq]
  intro _ _
  have hok : ([mainnetReward, 2 * mainnetReward].all fun amount =>
      (buildAuthorizedClaim sampleDeployment keylessPot (sampleBatonOf amount) sampleCoin
        sampleWin 101 1000 none).toOption.isSome) = true := by
    decide +kernel
  obtain ⟨built, h⟩ := Option.isSome_iff_exists.mp
    (List.all_eq_true.mp hok amount (by simpa using h))
  refine ⟨built, ?_⟩
  cases hb : buildAuthorizedClaim sampleDeployment keylessPot (sampleBatonOf amount) sampleCoin
      sampleWin 101 1000 none with
  | error e => rw [hb] at h; cases h
  | ok b => rw [hb] at h; cases h; rfl

/-- A claim that leaves the baton as many tokens as it pays. -/
theorem built_accepted_sample :
    let _ : Hasher := Hasher.fips
    let _ : Schnorr := sampleSchnorr
    ∃ built tx, ClaimSound sampleDeployment keylessPot (sampleBatonOf (2 * mainnetReward)) sampleCoin
      1000 none (fun _ _ => false) built tx := by
  intro _ _
  have hsign : ∀ (key : Schnorr.Secret) (message : Hash) (sig : ByteVec 64),
      Schnorr.sign key message = .ok sig →
      Schnorr.verify (Schnorr.publicKey key).bytes message.bytes sig.bytes = true := by
    rintro key message sig ⟨⟩
    exact decide_eq_true rfl
  obtain ⟨built, hbuilt⟩ := sample_built (.inr rfl)
  have hiff := (built_accepted_iff hsign (fun _ _ => false) sample_select
    (by decide : sampleRecipients.IsP2pkh) ⟨none, false, false, nofun⟩).1
    (sampleBatonOf (2 * mainnetReward)) sampleCoin sampleWin 101 101 1000 none built
    (.genesis 100 (by decide)) (by decide) (by simp [Recipients.locks, sampleRecipients, sampleWin])
    sample_meets (by decide) hbuilt
  exact ⟨built, hiff.mpr (by decide)⟩

/-- A claim of the baton's last tokens is built, and is not a transaction. -/
theorem last_reward_unaccepted :
    let _ : Hasher := Hasher.fips
    let _ : Schnorr := sampleSchnorr
    let baton := sampleBatonOf mainnetReward
    ∃ built, Deployment.select .chipnet (some sampleTxid) none (some 1) (some 2) =
        .ok sampleDeployment ∧
      Reachable sampleDeployment baton.state ∧ baton.tokenAmount.toNat ≤ 2 ^ 63 - 1 ∧
      p2pkh sampleWin.pkh ∈ sampleRecipients.locks ∧
      meets (doubleSha256 (preimage baton.state.lastHeight sampleWin.pkh (u64Le sampleWin.nonce)))
        baton.state.difficulty = true ∧
      keylessPot.claimLocktime baton.state 101 sampleDeployment = some 101 ∧
      buildAuthorizedClaim sampleDeployment keylessPot baton sampleCoin sampleWin 101 1000 none =
        .ok built ∧
      ¬ ∃ tx, ClaimSound sampleDeployment keylessPot baton sampleCoin 1000 none (fun _ _ => false)
        built tx := by
  intro _ _ baton
  obtain ⟨built, hbuilt⟩ := sample_built (.inl rfl)
  obtain ⟨parts⟩ := claim_parts hbuilt
  refine ⟨built, sample_select, .genesis 100 (by decide), by decide,
    by simp [Recipients.locks, sampleRecipients, sampleWin], sample_meets, by decide, hbuilt, ?_⟩
  rintro ⟨tx, hsound⟩
  exact parts.decode_raw_ne two_le_potRedeem (by decide) (by decide) rfl tx hsound.decode_eq

end Pickaxe.Electric
