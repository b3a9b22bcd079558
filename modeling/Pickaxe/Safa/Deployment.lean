/-
# Deployments of the SAFA AuxPoW covenant

One deployment is a redeem script with its category, its number of threads and its AMM's
virtual reserve, read from a file.  The P2SH32 lock and the fee constant `K` follow from the
redeem script.

Pushes of a script are written minimally, and read back only when they are (`parsePushes`).
-/
import Pickaxe.Lib.Text
import Pickaxe.Merge.Verify
import Pickaxe.Safa.Thread

namespace Pickaxe.Safa

open Lib Merge

/-! ## Pushes -/

/-- `push_prefix_len`: the length of a data push's opcode and length bytes. -/
def pushPrefixLen (length : ℕ) : ℕ :=
  if length ≤ 75 then 1 else if length ≤ 255 then 2 else if length ≤ 65535 then 3 else 5

/-- The opcode and the length bytes of a data push. -/
def pushOpcode (length : ℕ) : Bytes :=
  if length ≤ 75 then [UInt8.ofNat length]
  else if length ≤ 255 then [0x4c, UInt8.ofNat length]
  else if length ≤ 65535 then 0x4d :: leBytes 2 length
  else 0x4e :: leBytes 4 length

/-- The small numbers with an opcode of their own. -/
def smallPush : Bytes → Option UInt8
  | [value] =>
    if 1 ≤ value ∧ value ≤ 16 then some (0x50 + value) else if value = 0x81 then some 0x4f else none
  | _ => none

/-- `push`: a minimal data push. -/
def push (data : Bytes) : Bytes :=
  match smallPush data with
  | some opcode => [opcode]
  | none => pushOpcode data.length ++ data

/-- `number_push`: a minimal push of a non-negative script number. -/
def numberPush (value : ℕ) : Bytes :=
  if value = 0 then [0x00]
  else if value ≤ 16 then [0x50 + UInt8.ofNat value]
  else
    let bytes := ((leBytes 8 value).reverse.dropWhile (· = 0)).reverse
    push (if bytes.getLast?.getD 0 &&& 0x80 ≠ 0 then bytes ++ [0] else bytes)

/-- The text of a transaction that ends too early. -/
def truncated : String := "the claim transaction is truncated"

/-- One push of a push-only script: its data. -/
def readPush : Reader String Bytes := do
  let opcode ← Reader.byte truncated
  if opcode ≤ 0x4b then Reader.take truncated opcode.toNat
  else if opcode = 0x4c then do
    let length ← Reader.byte truncated
    Reader.take truncated length.toNat
  else if opcode = 0x4d then do
    let length ← Reader.take truncated 2
    Reader.take truncated (fromLe length)
  else if opcode = 0x4f then return [0x81]
  else if 0x51 ≤ opcode ∧ opcode ≤ 0x60 then return [opcode - 0x50]
  else Reader.fail "the claim's unlocking bytecode is not push-only"

/-- The pushes of what is left of a script.  Every push takes a byte, so as many turns as there
are bytes are enough. -/
def pushesFrom : ℕ → Bytes → Except String (List Bytes)
  | _, [] => .ok []
  | 0, _ => .error truncated
  | turns + 1, rest => do
    let (data, after) ← readPush rest
    if push data ≠ rest.take (rest.length - after.length) then
      .error "the claim's unlocking bytecode has a non-minimal push"
    else do
      let pushes ← pushesFrom turns after
      .ok (data :: pushes)

/-- `parse_pushes`: the pushes of a push-only, minimally encoded script. -/
def parsePushes (script : Bytes) : Except String (List Bytes) := pushesFrom script.length script

lemma length_pushOpcode (length : ℕ) : (pushOpcode length).length = pushPrefixLen length := by
  unfold pushOpcode pushPrefixLen
  split_ifs <;> simp

/-- A push takes at most its data and its prefix. -/
lemma length_push_le (data : Bytes) :
    1 ≤ (push data).length ∧ (push data).length ≤ pushPrefixLen data.length + data.length := by
  have hpre : 1 ≤ pushPrefixLen data.length := by
    unfold pushPrefixLen
    split_ifs <;> omega
  unfold push
  cases smallPush data with
  | some opcode =>
    rw [List.length_singleton]
    omega
  | none =>
    rw [List.length_append, length_pushOpcode]
    omega

/-- A push is no shorter than its data. -/
lemma length_le_push (data : Bytes) : data.length ≤ (push data).length := by
  unfold push
  cases hsmall : smallPush data with
  | some opcode =>
    match data, hsmall with
    | [value], _ => exact le_rfl
    | [], h => cases h
    | _ :: _ :: _, h => cases h
  | none =>
    rw [List.length_append]
    omega

lemma smallPush_eq_some {data : Bytes} {opcode : UInt8} (h : smallPush data = some opcode) :
    (opcode = 0x4f ∧ data = [0x81]) ∨
      (0x51 ≤ opcode ∧ opcode ≤ 0x60 ∧ data = [opcode - 0x50]) := by
  match data, h with
  | [value], h =>
    rw [smallPush] at h
    split_ifs at h with hsmall hminus
    · cases h
      simp only [UInt8.le_iff_toNat_le, UInt8.reduceToNat] at hsmall
      have hcode : (0x50 + value).toNat = 0x50 + value.toNat := by
        simp only [UInt8.toNat_add, UInt8.reduceToNat]
        omega
      have hvalue : 0x50 + value - 0x50 = value := by
        simp only [← UInt8.toNat_inj, UInt8.toNat_sub, hcode, UInt8.reduceToNat]
        omega
      right
      simp only [UInt8.le_iff_toNat_le, hcode, hvalue, UInt8.reduceToNat, and_true]
      omega
    · cases h
      exact .inl ⟨rfl, by rw [hminus]⟩
  | [], h => cases h
  | _ :: _ :: _, h => cases h

/-- A push of at most 65,535 bytes is read back. -/
lemma reads_push {data : Bytes} (h : data.length ≤ 65535) : Reader.Reads readPush data (push data) := by
  unfold push
  cases hsmall : smallPush data with
  | some opcode =>
    show Reader.Reads readPush data [opcode]
    rw [readPush, ← List.append_nil [opcode]]
    refine (Reader.reads_byte opcode).bind ?_
    rcases smallPush_eq_some hsmall with ⟨rfl, rfl⟩ | ⟨hlow, hhigh, rfl⟩
    · exact Reader.reads_pure _
    · have h1 : ¬ opcode ≤ 0x4b := by
        rw [UInt8.le_iff_toNat_le] at *
        exact fun hle => absurd (hlow.trans hle) (by decide)
      have h2 : opcode ≠ 0x4c ∧ opcode ≠ 0x4d ∧ opcode ≠ 0x4f := by
        refine ⟨?_, ?_, ?_⟩ <;> (rintro rfl; exact absurd hlow (by decide))
      simp only [h1, h2, if_false, hlow, hhigh, and_self, if_true]
      exact Reader.reads_pure _
  | none =>
    simp only
    unfold pushOpcode
    rw [if_pos h]
    split_ifs with h75 h255
    · have hbyte : (UInt8.ofNat data.length).toNat = data.length :=
        UInt8.toNat_ofNat_of_lt' (by rw [UInt8.size]; omega)
      have hle : UInt8.ofNat data.length ≤ 0x4b := by
        rw [UInt8.le_iff_toNat_le, hbyte]
        exact h75
      refine (Reader.reads_byte _).bind ?_
      simp only [hle, if_true, hbyte]
      exact Reader.reads_take rfl
    · have hbyte : (UInt8.ofNat data.length).toNat = data.length :=
        UInt8.toNat_ofNat_of_lt' (by rw [UInt8.size]; omega)
      refine (Reader.reads_byte 0x4c).bind ((Reader.reads_byte (UInt8.ofNat data.length)).bind ?_)
      rw [hbyte]
      exact Reader.reads_take rfl
    · have hlength : fromLe (leBytes 2 data.length) = data.length :=
        fromLe_leBytes_of_lt (by omega)
      refine (Reader.reads_byte 0x4d).bind ((Reader.reads_take (length_leBytes 2 _)).bind ?_)
      rw [hlength]
      exact Reader.reads_take rfl

/-- Pushes one after the other are read back. -/
lemma parsePushes_push {pushes : List Bytes} (h : ∀ data ∈ pushes, data.length ≤ 65535) :
    parsePushes (pushes.flatMap push) = .ok pushes := by
  -- any number of turns that is not too small will do
  have hturns : ∀ turns, (pushes.flatMap push).length ≤ turns →
      pushesFrom turns (pushes.flatMap push) = .ok pushes := by
    induction pushes with
    | nil =>
      intro turns _
      cases turns <;> rfl
    | cons data pushes ih =>
      intro turns hle
      have hpos := (length_push_le data).1
      rw [List.flatMap_cons, List.length_append] at hle
      obtain ⟨turns, rfl⟩ := Nat.exists_eq_succ_of_ne_zero (n := turns) (by omega)
      have hne : push data ++ pushes.flatMap push ≠ [] := by
        intro hnil
        rw [(List.append_eq_nil_iff.mp hnil).1] at hpos
        simp at hpos
      have hread := reads_push (h data (by simp)) (pushes.flatMap push)
      obtain ⟨x, rest, hx⟩ := List.exists_cons_of_ne_nil hne
      rw [List.flatMap_cons, hx, pushesFrom, ← hx, hread]
      · have htake : (push data ++ pushes.flatMap push).take ((push data ++
            pushes.flatMap push).length - (pushes.flatMap push).length) = push data := by
          rw [List.length_append, Nat.add_sub_cancel, List.take_left]
        simp only [bind, Except.bind, htake, ne_eq, not_true_eq_false, if_false]
        rw [ih (fun d hd => h d (by simp [hd])) turns (by omega)]
      · intro hnil
        cases hnil
  exact hturns _ le_rfl

/-! ## Deployments -/

/-- `REWARD_DIVISOR`: a claim pays this part of the vault's tokens. -/
def rewardDivisor : ℕ := 420000

/-- `OUTPUT_SATS`: satoshis on every claim output after the vault. -/
def outputSats : ℕ := splitOutputSats

/-- `CLAIM_FIXED_BYTES`: a claim's bytes besides the proof and the redeem script, at their
largest. -/
def claimFixedBytes : ℕ := 4 + 1 + 36 + 3 + 4 + 1 + 104 + 3 * 87 + 4 + 70 + 33 + 3 + 53

/-- `MAX_UNLOCKING_BYTES`. -/
def maxUnlockingBytes : ℕ := 10000

/-- `LOCKTIME_THRESHOLD`: lock times at or above this are times, not heights. -/
def locktimeThreshold : ℕ := 500000000

/-- `MAX_PAYOUT_SCRIPT`. -/
def maxPayoutScript : ℕ := 35

/-- `MAX_FEE_RATE`. -/
def maxFeeRate : ℕ := 3

/-- A covenant deployment.  Its lock and its fee constant are those of the redeem script. -/
structure Deployment where
  name : List Char
  network : MiningNetwork
  /-- The token category, in internal byte order. -/
  category : Hash
  threads : UInt32
  /-- The AMM's virtual satoshis. -/
  virtualSats : UInt64
  redeemScript : Bytes
  /-- A category is a transaction's id. -/
  category_ne : category ≠ ByteVec.zero 32
  redeem_length : redeemScript.length < maxUnlockingBytes
deriving DecidableEq

namespace Deployment

/-- `fee_k`: the claim's size bound is `K` and the proof's length. -/
def feeK (d : Deployment) : ℕ :=
  claimFixedBytes + pushPrefixLen d.redeemScript.length + d.redeemScript.length

variable [Hasher]

/-- `locking_bytecode`: `OP_HASH256 <HASH256(redeem)> OP_EQUAL`. -/
def lockingBytecode (d : Deployment) : Bytes :=
  [0xaa, 0x20] ++ (doubleSha256 d.redeemScript).bytes ++ [0x87]

/-- `lock_hash`. -/
def lockHash (d : Deployment) : Hash := doubleSha256 d.lockingBytecode

@[simp] lemma length_lockingBytecode (d : Deployment) : d.lockingBytecode.length = 35 := by
  simp [lockingBytecode]

end Deployment

/-! ### The file -/

/-- A JSON value, as far as the file's members go. -/
inductive Json where
  | number (n : UInt64)
  | string (text : List Char)
  | other
deriving DecidableEq

/-- The members of the file's object that are read. -/
structure DeploymentFile where
  version : Option Json
  network : Option Json
  name : Option Json
  category : Option Json
  threads : Option Json
  virtualSats : Option Json
  redeemScript : Option Json
  feeK : Option Json
  redeemScriptBytes : Option Json
  lockingBytecode : Option Json
  lockHash : Option Json

namespace Json

/-- `Value::as_u64`. -/
def asU64 : Json → Option UInt64
  | number n => some n
  | _ => none

/-- `Value::as_str`. -/
def asStr : Json → Option (List Char)
  | string text => some text
  | _ => none

end Json

namespace Deployment

/-- `parse::<u64>` of a text of digits. -/
def parseDigits (text : List Char) : Option UInt64 :=
  if text = [] ∨ ¬ (text.all fun c => '0' ≤ c && c ≤ '9') then none
  else
    let n := text.foldl (fun n c => 10 * n + (c.toNat - 48)) 0
    if n < 2 ^ 64 then some (UInt64.ofNat n) else none

/-- The name the file gives, if it is one. -/
def readName : Option Json → Except String (List Char)
  | none => .ok "tSAFA".toList
  | some (.string name) =>
    if Text.trim name ≠ [] ∧ (name.map Char.utf8Size).sum ≤ 32 ∧ ¬ name.any Text.isControl then
      .ok name
    else .error "the SAFA deployment's name must be 1 to 32 printable characters"
  | some _ => .error "the SAFA deployment's name must be 1 to 32 printable characters"

/-- The category, in internal byte order, from its display order. -/
def readCategory (value : Option Json) : Except String { hash : Hash // hash ≠ ByteVec.zero 32 } :=
  let found := do
    let bytes ← Text.hexDecode (Text.trim (← (← value).asStr))
    ByteVec.ofBytes? 32 bytes.reverse
  match found with
  | none => .error "the SAFA deployment's category must be its 64-digit txid"
  | some hash =>
    if h : hash = ByteVec.zero 32 then
      .error "the SAFA deployment's category must be its 64-digit txid"
    else .ok ⟨hash, h⟩

/-- The virtual reserve. -/
def readVirtualSats (value : Option Json) : Except String UInt64 :=
  let found : Option UInt64 := match value with
    | some (.number n) => some n
    | some (.string text) => parseDigits text
    | _ => none
  match found.filter fun sats => sats.toNat ≤ 2 ^ 62 with
  | some sats => .ok sats
  | none => .error "the SAFA deployment's virtual_sats must be a whole number from 0 to 2^62"

/-- An optional member that must agree with what the redeem script gives. -/
def agrees (field : String) (value : Option Json) (check : Json → Bool) : Except String Unit :=
  match value with
  | none => .ok ()
  | some json =>
    if check json then .ok ()
    else .error ("the SAFA deployment's " ++ field ++ " does not match its redeem script")

/-- Whether a redeem script carries some bytes. -/
def carries (script needle : Bytes) : Bool :=
  (List.range (script.length + 1 - needle.length)).any fun i =>
    slice script i (i + needle.length) == needle

/-- What the covenant must push, and its name. -/
def checkCarries (script needle : Bytes) (what : String) : Except String Unit :=
  if carries script needle then .ok ()
  else .error ("the SAFA deployment's redeem script does not carry " ++ what ++
    "; is it this deployment's covenant?")

variable [Hasher]

/-- `Deployment::from_json`, of a file that is one JSON object. -/
def fromJson (file : DeploymentFile) : Except String Deployment :=
  if file.version.bind Json.asU64 ≠ some 1 then
    .error "a SAFA deployment file needs \"version\": 1"
  else if file.network.bind Json.asStr = some "mainnet".toList then
    .error "tSAFA is mined on Chipnet only; no SAFA token is mined on mainnet"
  else if file.network.bind Json.asStr ≠ some "chipnet".toList then
    .error "the SAFA deployment's network must be \"chipnet\""
  else do
    let name ← readName file.name
    let category ← readCategory file.category
    match (file.threads.bind Json.asU64).filter fun n => 1 ≤ n.toNat ∧ n.toNat ≤ 63 with
    | none => .error "the SAFA deployment's threads must be from 1 to 63"
    | some threads =>
      let virtualSats ← readVirtualSats file.virtualSats
      match (file.redeemScript.bind Json.asStr).bind fun text => Text.hexDecode (Text.trim text) with
      | none => .error "the SAFA deployment's redeem_script must be the covenant's hex bytes"
      | some redeemScript =>
        if hlength : redeemScript ≠ [] ∧ redeemScript.length < maxUnlockingBytes then do
          let deployment : Deployment := ⟨name, .chipnet, category.1, UInt32.ofNat threads.toNat,
            virtualSats, redeemScript, category.2, hlength.2⟩
          agrees "fee_k" file.feeK fun v => v.asU64.map UInt64.toNat == some deployment.feeK
          agrees "redeem_script_bytes" file.redeemScriptBytes fun v =>
            v.asU64.map UInt64.toNat == some redeemScript.length
          agrees "locking_bytecode" file.lockingBytecode fun v =>
            v.asStr.map (List.map Char.toLower) ==
              some (Text.hexEncode deployment.lockingBytecode)
          agrees "lock_hash" file.lockHash fun v =>
            v.asStr.map (List.map Char.toLower) == some (Text.hexEncode deployment.lockHash.bytes)
          checkCarries redeemScript (numberPush deployment.feeK) "its fee constant K"
          checkCarries redeemScript (numberPush virtualSats.toNat) "the virtual reserve"
          checkCarries redeemScript (numberPush rewardDivisor) "the reward divisor"
          checkCarries redeemScript ([0x05] ++ proofMagic ++ [proofVersion]) "the AuxProof v2 magic"
          .ok deployment
        else .error "the SAFA deployment's redeem_script must be the covenant's hex bytes"

end Deployment

end Pickaxe.Safa
