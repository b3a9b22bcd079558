/-
# Building claims and refunds

A claim spends the baton and a pot coin, and pays the reward, the baton with its next state, and the
pot's change.  A refund returns one pot coin.  Both are built as bytes, at the relay fee of their
exact length: the length is taken with a signature of zeros in place.
-/
import Pickaxe.Electric.Contract
import Pickaxe.Lib.Result
import Pickaxe.Lib.Transaction

namespace Pickaxe.Electric

open Lib Script

/-- The secret keys of `secp256k1` and BCH Schnorr signatures.  Nothing is assumed of them here. -/
class Schnorr where
  Secret : Type
  /-- `PublicKey::from_secret_key`, serialised. -/
  publicKey : Secret → ByteVec 33
  /-- `bch_schnorr_sign`. -/
  sign : Secret → Hash → Except String (ByteVec 64)
  /-- `bch_schnorr_verify`. -/
  verify : Bytes → Bytes → Bytes → Bool

/-- `CLAIM_SEQUENCE`: not final, for the contract's locktime guard. -/
def claimSequence : UInt32 := 0xfffffffe

/-- `Win`, without the recipient it was found for. -/
structure Win where
  pkh : ByteVec 20
  nonce : UInt64

/-- `Baton`: an unspent baton. -/
structure Baton where
  txid : List Char
  vout : UInt32
  value : UInt64
  tokenAmount : UInt64
  state : State

/-- `Coin`: an unspent pot output. -/
structure Coin where
  txid : List Char
  vout : UInt32
  value : UInt64

/-- `Built`: a transaction ready to broadcast. -/
structure Built where
  raw : Bytes
  txid : List Char
  fee : ℕ

/-- `relay_fee`: for `size` bytes, rounded up. -/
def relayFee (size : ℕ) (satsPerKb : UInt64) : ℕ :=
  let product := min (size * max satsPerKb.toNat 1000) (2 ^ 64 - 1)
  (product + 999) / 1000

/-- `input`. -/
def input (txid : List Char) (vout : UInt32) (unlocking : Bytes) (sequence : UInt32) :
    Except String Bytes := do
  let out ← parseTxidDisplay txid
  return out.bytes.reverse ++ u32Le vout ++ compactSize unlocking.length ++ unlocking ++
    u32Le sequence

/-- `output`. -/
def output (value : ℕ) (token locking : Bytes) : Bytes :=
  leBytes 8 value ++ compactSize (token.length + locking.length) ++ token ++ locking

/-- `transaction_id`. -/
def transactionId [Hasher] (raw : Bytes) : List Char :=
  Text.hexEncode (doubleSha256 raw).bytes.reverse

/-- The push of a signature, if there is one. -/
def pushSignature : Option Bytes → Except String Bytes
  | some signature => pushData signature
  | none => .ok []

/-- The push of a signature, if there is one, and of a redeem script. -/
def unlock (signature : Option Bytes) (redeem : Bytes) : Except String Bytes := do
  let first ← pushSignature signature
  let second ← pushData redeem
  return first ++ second

section Claim

variable [Hasher] (d : Deployment) (pot : Pot) (baton : Baton) (coin : Coin) (win : Win)
  (locktime : UInt32)

/-- The tokens of the reward output. -/
def rewardToken : Bytes :=
  0xef :: d.categoryLe.bytes ++ [0x10] ++ compactSize d.reward.toNat

/-- The tokens of the baton's output. -/
def batonToken (next : State) : Bytes :=
  0xef :: d.categoryLe.bytes ++ [0x71] ++ compactSize 16 ++ next.encode ++
    compactSize (baton.tokenAmount.toNat - d.reward.toNat)

/-- The outputs of a claim. -/
def claimOutputs (next : State) (change : ℕ) : Bytes :=
  output tokenOutputSats (rewardToken d) (p2pkh win.pkh) ++
    output baton.value.toNat (batonToken d baton next) d.lockingBytecode ++
    output change [] pot.lockingBytecode

/-- A claim with some change and signature. -/
def assembleClaim (next : State) (batonUnlock : Bytes) (change : ℕ) (signature : Option Bytes) :
    Except String Bytes := do
  let potUnlock ← unlock signature pot.redeem
  let first ← input baton.txid baton.vout batonUnlock claimSequence
  let second ← input coin.txid coin.vout potUnlock claimSequence
  return leBytes 4 2 ++ compactSize 2 ++ first ++ second ++ compactSize 3 ++
    claimOutputs d pot baton win next change ++ u32Le locktime

/-- The bytes of an outpoint. -/
def outpoint (txid : List Char) (vout : UInt32) : Except String Bytes := do
  let out ← parseTxidDisplay txid
  return out.bytes.reverse ++ u32Le vout

/-- What the signature of a claim covers. -/
def claimPreimage (next : State) (change : ℕ) : Except String Bytes := do
  let batonOutpoint ← outpoint baton.txid baton.vout
  let potOutpoint ← outpoint coin.txid coin.vout
  return leBytes 4 2 ++ (doubleSha256 (batonOutpoint ++ potOutpoint)).bytes ++
    (doubleSha256 (u32Le claimSequence ++ u32Le claimSequence)).bytes ++ potOutpoint ++
    compactSize pot.redeem.length ++ pot.redeem ++ u64Le coin.value ++ u32Le claimSequence ++
    (doubleSha256 (claimOutputs d pot baton win next change)).bytes ++ u32Le locktime ++
    leBytes 4 0x41

variable [Schnorr]

/-- A signature of some bytes with its hash type. -/
def signBytes (secret : Schnorr.Secret) (bytes : Bytes) : Except String Bytes := do
  let signature ← Schnorr.sign secret (doubleSha256 bytes)
  return signature.bytes ++ [0x41]

/-- The signature of a claim, where the pot asks for one. -/
def claimSignature (next : State) (change : ℕ) (secret : Option Schnorr.Secret) :
    Except String (Option Bytes) :=
  if pot.options.authorizedClaims then match secret with
    | none => .error "validated claim key"
    | some secret => do
      let covered ← claimPreimage d pot baton coin win locktime next change
      let signature ← signBytes secret covered
      return some signature
  else .ok none

/-- What unlocks the baton: the nonce, the recipient and the redeem script. -/
def batonUnlock : Except String Bytes := do
  let redeem ← pushData d.redeemScript
  return pushBytes (u64Le win.nonce) ++ pushBytes win.pkh.bytes ++ redeem

/-- `build_authorized_claim`. -/
def buildAuthorizedClaim (rate : UInt64) (secret : Option Schnorr.Secret) : Except String Built :=
  if pot.options.authorizedClaims = true ∧
      ¬ (secret.isSome ∧ secret.map Schnorr.publicKey = pot.options.key) then
    .error "the pot claim key is missing or does not match"
  else if baton.tokenAmount.toNat < d.reward.toNat then
    .error "the ELECTRIC baton holds less than one reward"
  else do
    let next ← baton.state.next locktime d
    let unlocking ← batonUnlock d win
    let placeholder := if pot.options.authorizedClaims then some (List.replicate 65 0) else none
    let sized ← assembleClaim d pot baton coin win locktime next unlocking 0 placeholder
    let fee := relayFee sized.length rate
    if potMaxFeeSats < fee then
      .error ("the relay fee (" ++ toString fee ++ " sats) is above what the pot pays (" ++
        toString potMaxFeeSats ++ ")")
    else if coin.value.toNat < tokenOutputSats + fee + potMinChangeSats then
      .error "the pot cannot cover this claim; send it more BCH"
    else do
      let change := coin.value.toNat - (tokenOutputSats + fee)
      let signature ← claimSignature d pot baton coin win locktime next change secret
      let raw ← assembleClaim d pot baton coin win locktime next unlocking change signature
      return ⟨raw, transactionId raw, fee⟩

end Claim

section Refund

variable [Hasher] (pot : Pot) (coin : Coin) (refundLock : Bytes)

omit [Hasher] in
/-- A refund with some value and signature. -/
def assembleRefund (value : ℕ) (signature : Option Bytes) : Except String Bytes := do
  let unlocking ← unlock signature pot.redeem
  let first ← input coin.txid coin.vout unlocking 0xffffffff
  return leBytes 4 2 ++ compactSize 1 ++ first ++ compactSize 1 ++ output value [] refundLock ++
    leBytes 4 0

/-- What the signature of a refund covers. -/
def refundPreimage (value : ℕ) : Except String Bytes := do
  let potOutpoint ← outpoint coin.txid coin.vout
  return leBytes 4 2 ++ (doubleSha256 potOutpoint).bytes ++
    (doubleSha256 (u32Le 0xffffffff)).bytes ++ potOutpoint ++ compactSize pot.redeem.length ++
    pot.redeem ++ u64Le coin.value ++ u32Le 0xffffffff ++
    (doubleSha256 (output value [] refundLock)).bytes ++ leBytes 4 0 ++ leBytes 4 0x41

variable [Schnorr]

/-- The signature of a refund, if a key was given. -/
def refundSignature (value : ℕ) (secret : Option Schnorr.Secret) : Except String (Option Bytes) :=
  match secret with
  | none => .ok none
  | some secret => do
    let covered ← refundPreimage pot coin refundLock value
    let signature ← signBytes secret covered
    return some signature

/-- `build_refund`. -/
def buildRefund (rate : UInt64) (secret : Option Schnorr.Secret) : Except String Built :=
  if secret.map Schnorr.publicKey ≠ pot.options.key then
    .error "the pot recovery key is missing or does not match"
  else do
    let placeholder := secret.map fun _ => List.replicate 65 (0 : UInt8)
    let sized ← assembleRefund pot coin refundLock 0 placeholder
    let fee := relayFee sized.length rate
    if potMaxFeeSats < fee then .error "the relay fee is above the pot refund cap"
    else if coin.value.toNat < fee + 546 then .error "this pot coin is too small to refund"
    else do
      let value := coin.value.toNat - fee
      let signature ← refundSignature pot coin refundLock value secret
      let raw ← assembleRefund pot coin refundLock value signature
      return ⟨raw, transactionId raw, fee⟩

end Refund

/-! ## Taking a built transaction apart -/

section Inversion

/-- The length of a push depends on the length of its data only. -/
lemma length_pushData {data data' bytes bytes' : Bytes} (hlength : data.length = data'.length)
    (h : pushData data = .ok bytes) (h' : pushData data' = .ok bytes') :
    bytes.length = bytes'.length := by
  unfold pushData at h h'
  rw [hlength] at h
  split_ifs at h h' <;> cases h <;> cases h' <;> simp [hlength]

lemma length_unlock {signature signature' : Option Bytes} {redeem bytes bytes' : Bytes}
    (hlength : signature.map List.length = signature'.map List.length)
    (h : unlock signature redeem = .ok bytes) (h' : unlock signature' redeem = .ok bytes') :
    bytes.length = bytes'.length := by
  obtain ⟨first, hfirst, h⟩ := Except.bind_eq_ok.mp h
  obtain ⟨second, hsecond, h⟩ := Except.bind_eq_ok.mp h
  obtain ⟨first', hfirst', h'⟩ := Except.bind_eq_ok.mp h'
  obtain ⟨second', hsecond', h'⟩ := Except.bind_eq_ok.mp h'
  cases h
  cases h'
  cases hsecond.symm.trans hsecond'
  rw [List.length_append, List.length_append, Nat.add_right_cancel_iff]
  match signature, signature', hlength, hfirst, hfirst' with
  | none, none, _, hfirst, hfirst' =>
    cases hfirst
    cases hfirst'
    rfl
  | some s, some s', hlength, hfirst, hfirst' =>
    exact length_pushData (Option.some.inj hlength) hfirst hfirst'

lemma input_ok {txid : List Char} {vout : UInt32} {unlocking bytes : Bytes} {sequence : UInt32}
    (h : input txid vout unlocking sequence = .ok bytes) :
    ∃ id : Hash, parseTxidDisplay txid = .ok id ∧ bytes = id.bytes.reverse ++ u32Le vout ++
      compactSize unlocking.length ++ unlocking ++ u32Le sequence := by
  obtain ⟨id, hid, h⟩ := Except.bind_eq_ok.mp h
  cases h
  exact ⟨id, hid, rfl⟩

/-- The id of a transaction as its inputs write it. -/
def wireId (id : Hash) : Hash := ⟨id.bytes.reverse, by simp⟩

/-- An input as the network reads it. -/
def rawIn (id : Hash) (vout : UInt32) (unlocking : Bytes) (sequence : UInt32) : RawIn :=
  ⟨wireId id, vout.toNat, unlocking, sequence.toNat⟩

lemma encode_rawIn (id : Hash) (vout : UInt32) (unlocking : Bytes) (sequence : UInt32) :
    (rawIn id vout unlocking sequence).encode = id.bytes.reverse ++ u32Le vout ++
      compactSize unlocking.length ++ unlocking ++ u32Le sequence := rfl

end Inversion

/-! ## Claims -/

section Claims

variable [Hasher] {d : Deployment} {pot : Pot} {baton : Baton} {coin : Coin} {win : Win}
  {locktime : UInt32} {next : State} {unlocking raw : Bytes} {signature : Option Bytes} {change : ℕ}

omit [Hasher] in
lemma outpoint_ok {txid : List Char} {vout : UInt32} {id : Hash} {bytes : Bytes}
    (hid : parseTxidDisplay txid = .ok id) (h : outpoint txid vout = .ok bytes) :
    bytes = id.bytes.reverse ++ u32Le vout := by
  rw [outpoint, hid] at h
  cases h
  rfl

/-- The outputs of a claim as the network reads them. -/
def claimOuts (d : Deployment) (pot : Pot) (baton : Baton) (win : Win) (next : State) (change : ℕ) :
    List TxOut :=
  [⟨tokenOutputSats, p2pkh win.pkh, some ⟨d.categoryLe, none, d.reward.toNat⟩⟩,
    ⟨baton.value.toNat, d.lockingBytecode, some ⟨d.categoryLe, some (1, next.encode),
      baton.tokenAmount.toNat - d.reward.toNat⟩⟩,
    ⟨change, pot.lockingBytecode, none⟩]

/-- A claim as the network reads it. -/
def claimTx (d : Deployment) (pot : Pot) (baton : Baton) (coin : Coin) (win : Win)
    (locktime : UInt32) (next : State) (batonId coinId : Hash) (unlocking potUnlock : Bytes)
    (change : ℕ) : Tx :=
  ⟨2, [rawIn batonId baton.vout unlocking claimSequence,
      rawIn coinId coin.vout potUnlock claimSequence],
    claimOuts d pot baton win next change, locktime.toNat⟩

/-- The bytes of a claim, before they are a transaction. -/
lemma assembleClaim_ok
    (h : assembleClaim d pot baton coin win locktime next unlocking change signature = .ok raw) :
    ∃ (batonId coinId : Hash) (potUnlock : Bytes), parseTxidDisplay baton.txid = .ok batonId ∧
      parseTxidDisplay coin.txid = .ok coinId ∧ unlock signature pot.redeem = .ok potUnlock ∧
      raw = leBytes 4 2 ++ compactSize 2 ++
        (rawIn batonId baton.vout unlocking claimSequence).encode ++
        (rawIn coinId coin.vout potUnlock claimSequence).encode ++ compactSize 3 ++
        claimOutputs d pot baton win next change ++ u32Le locktime := by
  obtain ⟨potUnlock, hunlock, h⟩ := Except.bind_eq_ok.mp h
  obtain ⟨first, hfirst, h⟩ := Except.bind_eq_ok.mp h
  obtain ⟨second, hsecond, h⟩ := Except.bind_eq_ok.mp h
  obtain ⟨batonId, hbaton, rfl⟩ := input_ok hfirst
  obtain ⟨coinId, hcoin, rfl⟩ := input_ok hsecond
  cases h
  exact ⟨batonId, coinId, potUnlock, hbaton, hcoin, hunlock, rfl⟩

omit [Hasher] in
lemma encode_out (value : ℕ) (bytecode : Bytes) (token : Option Token) :
    (⟨value, bytecode, token⟩ : TxOut).encode =
      output value ((token.map Token.encode).getD []) bytecode := by
  simp [TxOut.encode, TxOut.content, output]

omit [Hasher] in
lemma encode_rewardToken (h : 0 < d.reward.toNat) :
    Token.encode ⟨d.categoryLe, none, d.reward.toNat⟩ = rewardToken d := by
  have hne : d.reward.toNat ≠ 0 := by omega
  simp [Token.encode, Token.bitfield, rewardToken, hne]

omit [Hasher] in
lemma encode_batonToken (h : d.reward.toNat < baton.tokenAmount.toNat) :
    Token.encode ⟨d.categoryLe, some (1, next.encode),
      baton.tokenAmount.toNat - d.reward.toNat⟩ = batonToken d baton next := by
  have hne : baton.tokenAmount.toNat - d.reward.toNat ≠ 0 := by omega
  have hencode : next.encode ≠ [] := by simp [State.encode]
  simp only [Token.encode, Token.bitfield, batonToken, if_neg hne, if_neg hencode, length_encode]
  simp

/-- With tokens left for the baton, the outputs are written as the network reads them. -/
lemma encode_claimOuts (hreward : 0 < d.reward.toNat)
    (hleft : d.reward.toNat < baton.tokenAmount.toNat) :
    (claimOuts d pot baton win next change).flatMap TxOut.encode =
      claimOutputs d pot baton win next change := by
  simp only [claimOuts, List.flatMap_cons, List.flatMap_nil, encode_out, Option.map_some,
    Option.map_none, Option.getD_some, Option.getD_none, encode_rewardToken hreward,
    encode_batonToken hleft, claimOutputs, List.append_nil, List.append_assoc]

/-- A claim's bytes are the transaction's. -/
lemma encode_claimTx {batonId coinId : Hash} {potUnlock : Bytes} (hreward : 0 < d.reward.toNat)
    (hleft : d.reward.toNat < baton.tokenAmount.toNat) :
    (claimTx d pot baton coin win locktime next batonId coinId unlocking potUnlock change).encode =
      leBytes 4 2 ++ compactSize 2 ++ (rawIn batonId baton.vout unlocking claimSequence).encode ++
        (rawIn coinId coin.vout potUnlock claimSequence).encode ++ compactSize 3 ++
        claimOutputs d pot baton win next change ++ u32Le locktime := by
  rw [Tx.encode, claimTx, encode_claimOuts hreward hleft]
  simp only [List.flatMap_cons, List.flatMap_nil, List.append_nil, List.append_assoc]
  rfl

end Claims

end Pickaxe.Electric
