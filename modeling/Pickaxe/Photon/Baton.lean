/-
# The PHOTON baton

PHOTON is a token whose supply sits on one output, the baton.  A claim spends the baton: its first
output is the next baton, its second pays the reward.  This file has the two deployments, the
reading of a claim's bytes as the program does it, and the mining state that a baton's fields
determine.
-/
import Pickaxe.Basic
import Pickaxe.Lib.CompactSize
import Pickaxe.Lib.Text

namespace Pickaxe.Photon

open Lib

/-! ## Deployments -/

/-- How a covenant compares the claim's hash with its target. -/
inductive ProofRule where
  | absolute
  | positive
deriving DecidableEq

/-- `PhotonDeployment`. -/
structure PhotonDeployment where
  categoryHex : String
  covenantLockHex : String
  redeemScriptHex : String
  proofRule : ProofRule

/-- The 273 bytes of the `lock` script of the v3.2 template. -/
def photonV32RedeemHex : String :=
  "c2529dc0cdc0c788c0d1c0ce88c351a063c0ccc0c602401f93a269c0d2c0cf88c0d3c0d09d6776b2757603ffff009f69" ++
  "c4529dc0ccc0c602dc0594a269c0d3c0d0c0d003a068069694a269c0d2827701649dc0d201247f78547f777853795679" ++
  "bb7681c0cf547f7701207f75816e5779028f009395029000969d51d3827754a06301ff51d358807e776701fe51d35480" ++
  "7e7768c25480c37e00c87e00c954807e01fd7e00ca8277527f757e00ca7e00cb54807ec47e00cc58807e02b3ef7e00d1" ++
  "01207f757e01717e01647e00d27e01ff7e00d358807e00cd7e51cc58807e012251cd82779352798277937e01ef7e51d1" ++
  "7e607e787e51cd7e0054807e76aa01207f75817600a0697777789f696d6d6d6851"

/-- The lock of the v3.2 redeem script. -/
def covenantLockingBytecodeHex : String :=
  "aa200ab476a6dab00ba11118a11c078f871c5060a66e18140368425202772d0e80c287"

/-- `MAINNET_PHOTON`. -/
def PhotonDeployment.mainnet : PhotonDeployment where
  categoryHex := "53bd86e3f123918d2d7040449f88f7ed1bbddc309b66f2ac67cd429278f5ea58"
  covenantLockHex := covenantLockingBytecodeHex
  redeemScriptHex := photonV32RedeemHex
  proofRule := .positive

/-- `CHIPNET_PHOTON`. -/
def PhotonDeployment.chipnet : PhotonDeployment where
  categoryHex := "a852635be88f7291bc42e427b8107546f943e73636945a2f6cc9532af71896c0"
  covenantLockHex := covenantLockingBytecodeHex
  redeemScriptHex := photonV32RedeemHex
  proofRule := .positive

/-- `photon_deployment`. -/
def photonDeployment : MiningNetwork → PhotonDeployment
  | .mainnet => .mainnet
  | .chipnet => .chipnet

/-! ## Transactions as the program reads them -/

/-- Whether a text has the form of a transaction's id. -/
def IsTxid (txid : List Char) : Prop := txid.length = 64 ∧ txid.all Text.isHexDigit = true

instance (txid : List Char) : Decidable (IsTxid txid) := inferInstanceAs (Decidable (_ ∧ _))

/-- `transaction_id`: the id under which a serialised transaction is displayed. -/
def transactionId [Hasher] (raw : Bytes) : List Char :=
  Text.hexEncode (doubleSha256 raw).bytes.reverse

/-- A count at a cursor, of any of the four widths, and the cursor behind it. -/
def readCount (noMarker noValue : String) (bytes : Bytes) (cursor : ℕ) : Except String (ℕ × ℕ) :=
  match bytes[cursor]? with
  | none => .error noMarker
  | some first =>
    let count := if first = 0xfd then 2 else if first = 0xfe then 4 else if first = 0xff then 8 else 0
    if count = 0 then .ok (first.toNat, cursor + 1)
    else match slice? bytes (cursor + 1) (cursor + 1 + count) with
      | none => .error noValue
      | some value => .ok (fromLe value, cursor + 1 + count)

/-- A count behind its marker is read at its place. -/
lemma readCount_marked {noMarker noValue : String} {a r : Bytes} {first : UInt8} {n width : ℕ}
    (hfirst : (if first = 0xfd then 2 else if first = 0xfe then 4 else if first = 0xff then 8
      else 0) = width) (hwidth : width ≠ 0) (hn : n < 256 ^ width) :
    readCount noMarker noValue (a ++ first :: leBytes width n ++ r) a.length =
      .ok (n, a.length + (first :: leBytes width n).length) := by
  have hget : (a ++ first :: leBytes width n ++ r)[a.length]? = some first := by simp
  have hslice : slice? (a ++ first :: leBytes width n ++ r) (a.length + 1) (a.length + 1 + width) =
      some (leBytes width n) := by
    have h : slice? (a ++ [first] ++ leBytes width n ++ r) (a.length + 1) (a.length + 1 + width) =
        some (leBytes width n) := slice?_append (by simp) (by simp)
    simpa using h
  rw [readCount, hget]
  simp only [hfirst, if_neg hwidth, hslice, fromLe_leBytes_of_lt hn, List.length_cons,
    length_leBytes]
  congr 2
  omega

/-- A count is read where it is written. -/
lemma readCount_compactSize {noMarker noValue : String} {a r : Bytes} {n : ℕ} (hn : n < 2 ^ 64) :
    readCount noMarker noValue (a ++ compactSize n ++ r) a.length =
      .ok (n, a.length + (compactSize n).length) := by
  rw [compactSize]
  split_ifs with h1 h2 h3
  · have hbyte : (UInt8.ofNat n).toNat = n := UInt8.toNat_ofNat_of_lt' (by
      rw [UInt8.size]
      omega)
    have hne : ∀ marker : UInt8, 253 ≤ marker.toNat → UInt8.ofNat n ≠ marker := by
      rintro marker hmarker rfl
      omega
    have hget : (a ++ [UInt8.ofNat n] ++ r)[a.length]? = some (UInt8.ofNat n) := by simp
    rw [readCount, hget]
    simp only [if_neg (hne 0xfd (by decide)), if_neg (hne 0xfe (by decide)),
      if_neg (hne 0xff (by decide)), if_true, hbyte, List.length_singleton]
  · exact readCount_marked (by decide) (by decide) (by omega)
  · exact readCount_marked (by decide) (by decide) (by omega)
  · exact readCount_marked (by decide) (by decide) (by omega)

/-- `read_compact_size`. -/
def readCompactSize (bytes : Bytes) (offset : ℕ) : Except String (ℕ × ℕ) :=
  readCount "transaction ended before CompactSize"
    (match bytes[offset]? with
    | some 0xfd => "transaction ended inside CompactSize u16"
    | some 0xfe => "transaction ended inside CompactSize u32"
    | _ => "transaction ended inside CompactSize u64") bytes offset

lemma readCompactSize_compactSize {a r : Bytes} {n : ℕ} (hn : n < 2 ^ 64) :
    readCompactSize (a ++ compactSize n ++ r) a.length = .ok (n, a.length + (compactSize n).length) :=
  readCount_compactSize hn

/-- `first_input_outpoint`: the id and index of the output a transaction's first input spends. -/
def firstInputOutpoint (rawTxHex : List Char) : Except String (List Char × ℕ) :=
  match Text.hexDecode (Text.trim rawTxHex) with
  | none =>
    .error s!"decode PHOTON lineage transaction: {Text.hexFault (Text.trim rawTxHex)}"
  | some raw =>
    if raw.length < 5 then .error "PHOTON lineage transaction is too short"
    else do
      let (inputCount, offset) ← readCompactSize raw 4
      if inputCount = 0 then .error "PHOTON lineage transaction has no inputs"
      else match slice? raw offset (offset + 32), slice? raw (offset + 32) (offset + 36) with
        | none, _ => .error "PHOTON lineage transaction is truncated before input 0 txid"
        | some _, none => .error "PHOTON lineage transaction is truncated before input 0 vout"
        | some prevHash, some prevVout => .ok (Text.hexEncode prevHash.reverse, fromLe prevVout)

/-! ## The outputs of a claim -/

/-- `checked_add` of cursors. -/
def checkedAdd (a b : ℕ) : Option ℕ := if a + b < 2 ^ 64 then some (a + b) else none

/-- `compact_uint`. -/
abbrev compactUint (value : ℕ) : Bytes := compactSize value

/-- `read_compact_uint`. -/
def readCompactUint (bytes : Bytes) (cursor : ℕ) : Except String (ℕ × ℕ) :=
  readCount "truncated CompactSize prefix" "truncated CompactSize value" bytes cursor

/-- `read_canonical_compact_uint`. -/
def readCanonicalCompactUint (bytes : Bytes) (start : ℕ) : Except String (ℕ × ℕ) := do
  let (value, cursor) ← readCompactUint bytes start
  if slice? bytes start cursor ≠ some (compactUint value) then
    .error "non-canonical CompactSize encoding in PHOTON baton"
  else .ok (value, cursor)

/-- `ParsedOutput`. -/
structure ParsedOutput where
  valueSats : ℕ
  tokenAndLockingBytecode : Bytes
deriving DecidableEq

/-- An output of a claim at a cursor. -/
def parseOutput (raw : Bytes) (cursor : ℕ) : Except String (ParsedOutput × ℕ) :=
  match checkedAdd cursor 8 with
  | none => .error "parent output value cursor overflow"
  | some valueEnd => match slice? raw cursor valueEnd with
    | none => .error "winning PHOTON parent output value is truncated"
    | some value => do
      let (bytecodeLen, cursor) ← readCompactUint raw valueEnd
      match checkedAdd cursor bytecodeLen with
      | none => .error "parent output bytecode cursor overflow"
      | some bytecodeEnd => match slice? raw cursor bytecodeEnd with
        | none => .error "winning PHOTON parent output bytecode is truncated"
        | some bytecode => .ok (⟨fromLe value, bytecode⟩, bytecodeEnd)

/-- `parse_parent_outputs`: the baton and the reward of a claim. -/
def parseParentOutputs (raw : Bytes) : Except String (ParsedOutput × ParsedOutput) :=
  if raw.length < 10 then .error "winning PHOTON parent transaction is truncated"
  else do
    let (inputCount, cursor) ← readCompactUint raw 4
    if inputCount ≠ 1 then
      .error s!"winning PHOTON parent must have exactly one covenant input (got {inputCount})"
    else if raw.length < cursor + 36 then
      .error "winning PHOTON parent input outpoint is truncated"
    else do
      let (scriptLen, cursor) ← readCompactUint raw (cursor + 36)
      match (checkedAdd cursor scriptLen).bind (checkedAdd · 4) with
      | none => .error "parent input cursor overflow"
      | some cursor =>
        if raw.length < cursor then .error "winning PHOTON parent input is truncated"
        else do
          let (outputCount, cursor) ← readCompactUint raw cursor
          if outputCount ≠ 2 then
            .error s!"winning PHOTON parent must have exactly two outputs (got {outputCount})"
          else do
            let (baton, cursor) ← parseOutput raw cursor
            let (reward, cursor) ← parseOutput raw cursor
            if checkedAdd cursor 4 ≠ some raw.length then
              .error "winning PHOTON parent has trailing or truncated bytes"
            else .ok (baton, reward)

/-- `validate_deployment_baton_token`: that an output's bytecode is a baton of the deployment. -/
def validateDeploymentBatonToken (deployment : PhotonDeployment) (bytecode : Bytes) :
    Except String Unit :=
  match Text.hexDecode deployment.categoryHex.toList, Text.hexDecode deployment.covenantLockHex.toList with
  | some category, some covenantLock =>
    if bytecode.head? ≠ some 0xef ∨ slice? bytecode 1 33 ≠ some category.reverse then
      .error "parent baton has the wrong PHOTON token category"
    else if bytecode[33]? ≠ some 0x71 then
      .error "parent baton is not a mutable PHOTON NFT with amount"
    else do
      let (commitmentLen, cursor) ← readCanonicalCompactUint bytecode 34
      if commitmentLen < 36 then .error "parent baton commitment is too short"
      else match checkedAdd cursor commitmentLen with
        | none => .error "PHOTON baton commitment cursor overflow"
        | some cursor =>
          if bytecode.length < cursor then .error "parent baton commitment is truncated"
          else do
            let (_, cursor) ← readCanonicalCompactUint bytecode cursor
            if bytecode.drop cursor ≠ covenantLock then
              .error "parent baton does not end in the selected PHOTON covenant"
            else .ok ()
  | _, _ => .error "invalid PHOTON deployment"

/-- `deployment_token_prefix`: the token part of a reward output. -/
def deploymentTokenPrefix (deployment : PhotonDeployment) (amount : ℕ) : Except String Bytes :=
  match Text.hexDecode deployment.categoryHex.toList with
  | none => .error "invalid PHOTON category"
  | some category =>
    if category.length ≠ 32 then .error "PHOTON category must be 32 bytes"
    else if 2 ^ 64 ≤ amount then .error "token amount exceeds u64"
    else .ok (0xef :: category.reverse ++ 0x10 :: compactUint amount)

/-- `TOKEN_OUTPUT_SATS`. -/
def tokenOutputSats : ℕ := 700

/-- `validate_direct_reward_record`: that a claim's outputs are what its journal entry says. -/
def validateDirectRewardRecord (raw : Bytes) (deployment : PhotonDeployment)
    (batonValue rewardAmount : ℕ) : Except String Unit := do
  let (baton, reward) ← parseParentOutputs raw
  validateDeploymentBatonToken deployment baton.tokenAndLockingBytecode
  let tokenPart ← deploymentTokenPrefix deployment rewardAmount
  if reward.tokenAndLockingBytecode.take tokenPart.length ≠ tokenPart then
    .error "direct reward journal token amount or category disagrees with transaction"
  else
    let locking := reward.tokenAndLockingBytecode.drop tokenPart.length
    if baton.valueSats ≠ batonValue ∨ reward.valueSats ≠ tokenOutputSats ∨ locking.length ≠ 25 ∨
        locking.take 3 ≠ [0x76, 0xa9, 0x14] ∨ locking.drop 23 ≠ [0x88, 0xac] then
      .error "direct reward journal value or payout shape disagrees with transaction"
    else .ok ()

/-- `SuccessorBaton`. -/
structure SuccessorBaton where
  valueSats : ℕ
  commitmentHex : List Char
  tokenAmount : ℕ
deriving DecidableEq

/-- `successor_baton`: the baton a claim leaves. -/
def successorBaton (raw : Bytes) (deployment : PhotonDeployment) : Except String SuccessorBaton := do
  let (baton, _) ← parseParentOutputs raw
  let bytes := baton.tokenAndLockingBytecode
  validateDeploymentBatonToken deployment bytes
  let (commitmentLen, cursor) ← readCanonicalCompactUint bytes 34
  match checkedAdd cursor commitmentLen with
  | none => .error "PHOTON baton commitment cursor overflow"
  | some commitmentEnd => match slice? bytes cursor commitmentEnd with
    | none => .error "parent baton commitment is truncated"
    | some commitment => do
      let (tokenAmount, _) ← readCanonicalCompactUint bytes commitmentEnd
      return ⟨baton.valueSats, Text.hexEncode commitment, tokenAmount⟩

/-! ## The mining state of a baton -/

/-- `PhotonDerivedState`. -/
structure PhotonDerivedState where
  age : ℕ
  targetLeHex : List Char
  rewardRaw : ℕ
deriving DecidableEq

/-- `biguint_to_le_hex32`. -/
def biguintToLeHex32 (value : ℕ) : Except String (List Char) :=
  if 256 ^ 32 ≤ value then .error "Target does not fit in 256 bits."
  else .ok (Text.hexEncode (leBytes 32 value))

/-- `derive_photon_state`: the age, target and reward of a baton. -/
def derivePhotonState (commitmentHex : List Char) (tokenAmount height batonHeight : ℕ) :
    Except String PhotonDerivedState :=
  if commitmentHex.length < 72 ∨ commitmentHex.length % 2 ≠ 0 then
    .error "Live PHOTON baton commitment is missing or too short."
  else if commitmentHex.all Text.isHexDigit = false then
    .error "Live PHOTON baton commitment is not hexadecimal."
  else
    let age := if batonHeight = 0 then 0 else height - batonHeight
    match Text.hexDecode ((commitmentHex.drop 8).take 64) with
    | none => .error "Invalid little-endian hex."
    | some bytes => do
      let targetLeHex ← biguintToLeHex32 (fromLe bytes * (age + 143) / 144)
      if tokenAmount / 420000 = 0 then .error "reward_raw underflow"
      else .ok ⟨age, targetLeHex, tokenAmount / 420000 - 1⟩

/-- `LiveJob`: the baton a source reports and the work on it. -/
structure LiveJob where
  url : String
  serverVersion : String
  height : ℕ
  tipHash : List Char
  batonTxid : List Char
  batonVout : ℕ
  batonHeight : ℕ
  batonValueSats : ℕ
  relayFeeSatsPerKb : ℕ
  commitmentHex : List Char
  tokenAmount : ℕ
  age : ℕ
  targetLeHex : List Char
  rewardRaw : ℕ
deriving DecidableEq

end Pickaxe.Photon
