/-
# A covenant's deployment

What a deployment of the PHOTON contract has to agree on before anything is built for it, and the
rules on the baton's value that are read out of its redeem script.
-/
import Pickaxe.Lib.Result
import Pickaxe.Photon.Baton

namespace Pickaxe.Photon

open Lib

/-- A `PhotonDeployment` with the script hash, which only `verify` reads. -/
structure Deployment extends PhotonDeployment where
  scriptHashHex : String

/-- The script hash of the v3.2 lock. -/
def expectedScriptHashHex : String :=
  "0cea1bfb91d50a9a3fb88bdf4f9d466c15738d7feba0873a5e85313d42035261"

/-- `MAINNET_PHOTON`. -/
def Deployment.mainnet : Deployment := ⟨.mainnet, expectedScriptHashHex⟩

/-- `CHIPNET_PHOTON`. -/
def Deployment.chipnet : Deployment := ⟨.chipnet, expectedScriptHashHex⟩

/-- The 259 bytes of the retired v0 redeem script. -/
def photonV0RedeemHex : String :=
  "c2529dc0cdc0c788c0d1c0ce88c351a063c0cc02401f93c0c6a269c0d2c0cf88c0d3c0d09d6776b2757603ffff009f69" ++
  "c4529dc0ccc0c602dc0594a269c0d3c0d0c0d003a068069694a269c0d2827701649dc0d201247f78547f777853795679" ++
  "bb7681c0cf547f7701207f7581906e5779028f009395029000969d51d3827754a06301ff51d358807e776701fe51d354" ++
  "807e7768c25480c37e00c87e00c954807e01fd7e00ca8277527f757e00ca7e00cb54807ec47e00cc58807e02b3ef7e00" ++
  "d101207f757e01717e01647e00d27e01ff7e00d358807e00cd7e51cc58807e0244ef7e51d17e607e787e51cd7e005480" ++
  "7e76aa01207f7581907777789f696d6d6d6851"

/-- `MAINNET_V0_PHOTON`. -/
def Deployment.mainnetV0 : Deployment where
  categoryHex := "29972959d6f0dc766cdcb81bfaf8171c5605a64dd0a81fa46080f84ac87c9bef"
  covenantLockHex := "aa209a2c0f31147dda170e59aaa7982e4fe3fc25928bf09f15fe1e797a2ccb05c6e087"
  redeemScriptHex := photonV0RedeemHex
  proofRule := .absolute
  scriptHashHex := "720bad85599cd504b114c65caedb76098cab45df5553be1c7cf260c4c2954031"

/-- `hex::decode`, with what is said of a text that does not decode. -/
def decodeHex (fault : String) (text : List Char) : Except String Bytes :=
  match Text.hexDecode text with
  | none => .error (fault ++ Text.hexFault text)
  | some bytes => .ok bytes

lemma decodeHex_eq_ok {fault : String} {text : List Char} {bytes : Bytes} :
    decodeHex fault text = .ok bytes ↔ Text.hexDecode text = some bytes := by
  rw [decodeHex]
  cases Text.hexDecode text with
  | none => exact iff_of_false nofun nofun
  | some b => rw [Except.ok.injEq, Option.some.injEq]

/-- What is left of `PhotonDeployment::verify` once the texts are decoded. -/
def Deployment.verifyBytes [Hasher] (d : Deployment) (redeem lock category : Bytes) :
    Except String Unit :=
  if category.length ≠ 32 ∨ lock.length ≠ 35 ∨ lock.getD 0 0 ≠ 0xaa ∨ lock.getD 1 0 ≠ 0x20 ∨
      lock.getD 34 0 ≠ 0x87 then
    .error "PHOTON deployment has invalid category or P2SH32 lock"
  else if slice lock 2 34 ≠ (doubleSha256 redeem).bytes then
    .error "PHOTON deployment redeem script does not match its lock"
  else if Text.hexEncode (sha256 lock).bytes.reverse ≠ d.scriptHashHex.toList then
    .error "PHOTON deployment Fulcrum script hash does not match its lock"
  else .ok ()

/-- `PhotonDeployment::verify`. -/
def Deployment.verify [Hasher] (d : Deployment) : Except String Unit := do
  let redeem ← decodeHex "invalid PHOTON redeem script: " (Text.trim d.redeemScriptHex.toList)
  let lock ← decodeHex "invalid PHOTON covenant: " d.covenantLockHex.toList
  let category ← decodeHex "invalid PHOTON category: " d.categoryHex.toList
  d.verifyBytes redeem lock category

/-! ## Rules on the baton's value -/

/-- `decode_positive_script_number`. -/
def decodePositiveScriptNumber (bytes : Bytes) : Except String ℕ :=
  if bytes = [] then .ok 0
  else if 8 < bytes.length then .error "PHOTON covenant value rule exceeds u64 ScriptNum range"
  else if 0x80 ≤ (bytes.getLastD 0).toNat then
    .error "PHOTON covenant value rule must be non-negative"
  else if bytes = [0] ∨ (1 < bytes.length ∧ bytes.getLastD 0 = 0 ∧
      (bytes.getD (bytes.length - 2) 0).toNat < 0x80) then
    .error "PHOTON covenant value rule uses a non-minimal ScriptNum"
  else .ok (fromLe bytes)

/-- The bytes of a rule at a place of a script, if it stands there. -/
def ruleAt (redeemScript before after : Bytes) (start : ℕ) : Option Bytes :=
  if slice? redeemScript start (start + before.length) ≠ some before then none
  else match redeemScript[start + before.length]? with
    | none => none
    | some pushLen =>
      if pushLen.toNat = 0 ∨ 8 < pushLen.toNat then none
      else
        let dataStart := start + before.length + 1
        let dataEnd := dataStart + pushLen.toNat
        if slice? redeemScript dataEnd (dataEnd + after.length) ≠ some after then none
        else slice? redeemScript dataStart dataEnd

/-- A turn of the loop in `extract_baton_decrease_rule`. -/
def ruleStep (redeemScript before after : Bytes) (label : String) (found : Option ℕ) (start : ℕ) :
    Except String (Option ℕ) :=
  match ruleAt redeemScript before after start with
  | none => .ok found
  | some data => do
    let value ← decodePositiveScriptNumber data
    if found.isSome then
      .error s!"PHOTON redeem script contains multiple {label} value rules"
    else .ok (some value)

/-- `extract_baton_decrease_rule`. -/
def extractBatonDecreaseRule (redeemScript before after : Bytes) (label : String) :
    Except String ℕ := do
  let found ← (List.range redeemScript.length).foldlM (ruleStep redeemScript before after label) none
  match found with
  | none => .error s!"PHOTON redeem script {label} value rule was not found"
  | some value => .ok value

/-- `single_input_max_baton_decrease_sats`. -/
def Deployment.singleInputMaxBatonDecreaseSats [Hasher] (d : Deployment) : Except String ℕ := do
  d.verify
  let redeem ← decodeHex "" (Text.trim d.redeemScriptHex.toList)
  extractBatonDecreaseRule redeem [0xc0, 0xcc, 0xc0, 0xc6] [0x94, 0xa2, 0x69] "single-input"

/-- What a deployment that verifies decodes to. -/
lemma Deployment.verify_eq_ok [Hasher] {d : Deployment} : d.verify = .ok () ↔
    ∃ redeem lock category, Text.hexDecode (Text.trim d.redeemScriptHex.toList) = some redeem ∧
      Text.hexDecode d.covenantLockHex.toList = some lock ∧
      Text.hexDecode d.categoryHex.toList = some category ∧
      d.verifyBytes redeem lock category = .ok () := by
  simp only [Deployment.verify, Except.bind_eq_ok, decodeHex_eq_ok]
  constructor
  · rintro ⟨redeem, hredeem, lock, hlock, category, hcategory, h⟩
    exact ⟨redeem, lock, category, hredeem, hlock, hcategory, h⟩
  · rintro ⟨redeem, lock, category, hredeem, hlock, hcategory, h⟩
    exact ⟨redeem, hredeem, lock, hlock, category, hcategory, h⟩

lemma Deployment.lengths [Hasher] {d : Deployment} {redeem lock category : Bytes}
    (h : d.verifyBytes redeem lock category = .ok ()) : category.length = 32 ∧ lock.length = 35 := by
  obtain ⟨hshape, -⟩ := Except.ite_error_eq_ok.mp h
  simp only [ne_eq, not_or, not_not] at hshape
  exact ⟨hshape.1, hshape.2.1⟩

end Pickaxe.Photon
