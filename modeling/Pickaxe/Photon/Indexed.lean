/-
# The job an indexer reports

Once a claim is sent, the miner goes on with the job on the baton it leaves, before any server lists
that baton.  The early job reads the signed parent; the job that comes later reads the listing of a
server.  Both are the same work, so nothing found in between is lost (`successor_is_indexed`).
-/
import Pickaxe.Lib.Json
import Pickaxe.Photon.Claims
import Pickaxe.Photon.Verified

namespace Pickaxe.Photon

open Lib Engine.Meets
open Electric (Schnorr)

/-! ## `live_job.rs` -/

/-- `fulcrum_header_hash`. -/
def fulcrumHeaderHash [Hasher] (header : Json) : Except String (List Char) :=
  match (header.get? "hex").bind Json.asStr with
  | none => .error "Fulcrum header response omitted hex"
  | some headerHex => match Text.hexDecode headerHex with
    | none => .error s!"invalid Fulcrum header hex: {Text.hexFault headerHex}"
    | some headerBytes =>
      if headerBytes.length ≠ 80 then
        .error s!"Fulcrum header must be exactly 80 bytes; got {headerBytes.length}"
      else .ok (Text.hexEncode (doubleSha256 headerBytes).bytes.reverse)

/-- The text at a path, empty where there is none. -/
def textAt (utxo : Json) (path : List String) : List Char :=
  ((utxo.pointer? path).bind Json.asStr).getD []

/-- Whether an unspent output is a baton of the deployment. -/
def isBaton (d : PhotonDeployment) (utxo : Json) : Bool :=
  Text.toAsciiLower (textAt utxo ["token_data", "category"]) == d.categoryHex.toList &&
    textAt utxo ["token_data", "nft", "capability"] == "mutable".toList

/-- The check of a listed commitment under the positive rule. -/
def checkPreviousTarget (d : PhotonDeployment) (commitmentHex : List Char) : Except String Unit :=
  if d.proofRule = .positive ∧ 72 ≤ commitmentHex.length then
    match Text.hexDecode ((commitmentHex.drop 8).take 64) with
    | none => .error s!"invalid PHOTON target: {Text.hexFault ((commitmentHex.drop 8).take 64)}"
    | some target =>
      if target.all (· = 0) ∨ target.getD 31 0 &&& 0x80 ≠ 0 then
        .error "PHOTON target must be a positive ScriptNum"
      else .ok ()
  else .ok ()

/-- The amount a listing gives, nothing where it gives none. -/
def listedAmount (baton : Json) : Except String ℕ :=
  let text := ((baton.pointer? ["token_data", "amount"]).bind Json.asStr).getD ['0']
  match parseUnsigned (2 ^ 128) text with
  | none => .error s!"bad token amount: {String.ofList text}"
  | some amount => .ok amount

/-- The part of `live_job_from_fulcrum_values_for_deployment` on the one baton that is listed. -/
def liveJobOfBaton (url serverVersion : String) (height : ℕ) (tipHash : List Char) (baton : Json)
    (d : PhotonDeployment) : Except String LiveJob :=
  match (baton.get? "tx_hash").bind Json.asStr, (baton.get? "tx_pos").bind Json.asU32 with
  | none, _ => .error "baton missing tx_hash"
  | some _, none => .error "baton missing tx_pos"
  | some txHash, some batonVout => do
    let batonHeight := ((baton.get? "height").bind Json.asU32).getD 0
    let commitmentHex := Text.toAsciiLower (textAt baton ["token_data", "nft", "commitment"])
    checkPreviousTarget d commitmentHex
    let tokenAmount ← listedAmount baton
    let derived ← derivePhotonState commitmentHex tokenAmount height batonHeight
    return {
      url := url
      serverVersion := serverVersion
      height := height
      tipHash := tipHash
      batonTxid := Text.toAsciiLower txHash
      batonVout := batonVout
      batonHeight := batonHeight
      batonValueSats := ((baton.get? "value").bind Json.asU64).getD 0
      relayFeeSatsPerKb := 1000
      commitmentHex := commitmentHex
      tokenAmount := tokenAmount
      age := derived.age
      targetLeHex := derived.targetLeHex
      rewardRaw := derived.rewardRaw }

/-- `live_job_from_fulcrum_values_for_deployment`. -/
def liveJobFromFulcrumValuesForDeployment [Hasher] (url serverVersion : String)
    (header unspent : Json) (d : PhotonDeployment) : Except String LiveJob :=
  match (header.get? "height").bind Json.asU32 with
  | none => .error "Invalid live BCH header response"
  | some height => do
    let tipHash ← fulcrumHeaderHash header
    match unspent.asArray with
    | none => .error "Invalid live PHOTON UTXO response"
    | some listed => match listed.filter (isBaton d) with
      | [baton] => liveJobOfBaton url serverVersion height tipHash baton d
      | batons => .error s!"Expected exactly one live PHOTON baton; found {batons.length}"

/-- `live_job_changed`. -/
def liveJobChanged (current next : LiveJob) : Bool :=
  current.batonTxid != next.batonTxid || current.batonVout != next.batonVout ||
    current.batonValueSats != next.batonValueSats || current.age != next.age ||
    current.commitmentHex != next.commitmentHex || current.targetLeHex != next.targetLeHex ||
    current.tokenAmount != next.tokenAmount || current.rewardRaw != next.rewardRaw ||
    current.relayFeeSatsPerKb != next.relayFeeSatsPerKb

/-! ## Listings -/

/-- An entry of a listing that is the first output of a transaction no block has: its id, value,
commitment and amount are the transaction's. -/
structure Reports (d : PhotonDeployment) (raw : Bytes) (txid : List Char) (utxo : Json) : Prop where
  txHash : ∃ text, (utxo.get? "tx_hash").bind Json.asStr = some text ∧
    Text.eqIgnoreCase text txid = true
  txPos : (utxo.get? "tx_pos").bind Json.asU64 = some 0
  height : ∀ n, (utxo.get? "height").bind Json.asU64 = some n → n = 0
  output : ∃ baton reward category commitment amount covenantLock,
    parseParentOutputs raw = .ok (baton, reward) ∧
    Text.hexDecode d.categoryHex.toList = some category ∧
    baton.tokenAndLockingBytecode =
      batonOutput category commitment (compactUint amount) covenantLock ∧
    commitment.length < 2 ^ 64 ∧ amount < 2 ^ 64 ∧
    (utxo.get? "value").bind Json.asU64 = some baton.valueSats ∧
    Text.eqIgnoreCase (textAt utxo ["token_data", "nft", "commitment"])
      (Text.hexEncode commitment) = true ∧
    (utxo.pointer? ["token_data", "amount"]).bind Json.asStr = some (Nat.toDigits 10 amount)

/-- A listing whose only baton is the first output of a transaction that no block has. -/
def ListsOnly (d : PhotonDeployment) (raw : Bytes) (txid : List Char) (unspent : Json) : Prop :=
  ∃ listed baton, unspent.asArray = some listed ∧ listed.filter (isBaton d) = [baton] ∧
    Reports d raw txid baton

/-- Two jobs on one baton that are the same work. -/
structure SameWork (job job' : LiveJob) : Prop where
  batonTxid : job.batonTxid = job'.batonTxid
  batonVout : job.batonVout = job'.batonVout
  batonValueSats : job.batonValueSats = job'.batonValueSats
  commitmentHex : job.commitmentHex = job'.commitmentHex
  tokenAmount : job.tokenAmount = job'.tokenAmount
  age : job.age = job'.age
  targetLeHex : job.targetLeHex = job'.targetLeHex
  rewardRaw : job.rewardRaw = job'.rewardRaw

lemma SameWork.unchanged {job job' : LiveJob} (h : SameWork job job') :
    liveJobChanged { job with relayFeeSatsPerKb := job'.relayFeeSatsPerKb } job' = false := by
  simp [liveJobChanged, h.batonTxid, h.batonVout, h.batonValueSats, h.commitmentHex, h.tokenAmount,
    h.age, h.targetLeHex, h.rewardRaw]

/-! ## Reading a baton's output one way -/

lemma compactSize_append_inj {n n' : ℕ} {r r' : Bytes} (hn : n < 2 ^ 64) (hn' : n' < 2 ^ 64)
    (h : compactSize n ++ r = compactSize n' ++ r') : n = n' ∧ r = r' := by
  have hread : readCompactUint (compactSize n ++ r) 0 = _ := readCompactUint_compactSize (a := []) hn
  have hread' : readCompactUint (compactSize n' ++ r') 0 = _ :=
    readCompactUint_compactSize (a := []) hn'
  rw [h, hread'] at hread
  obtain ⟨rfl, -⟩ := Prod.ext_iff.mp (Except.ok.inj hread)
  exact ⟨rfl, List.append_cancel_left h⟩

lemma batonOutput_inj {category commitment commitment' covenantLock covenantLock' : Bytes}
    {amount amount' : ℕ} (hlen : commitment.length < 2 ^ 64) (hlen' : commitment'.length < 2 ^ 64)
    (hamount : amount < 2 ^ 64) (hamount' : amount' < 2 ^ 64)
    (h : batonOutput category commitment (compactUint amount) covenantLock =
      batonOutput category commitment' (compactUint amount') covenantLock') :
    commitment = commitment' ∧ amount = amount' := by
  simp only [batonOutput, List.append_assoc] at h
  have hbody := List.append_cancel_left (List.append_cancel_left (List.append_cancel_left h))
  obtain ⟨hcount, hrest⟩ := compactSize_append_inj hlen hlen' hbody
  obtain ⟨hcommitment, htail⟩ := List.append_inj hrest hcount
  exact ⟨hcommitment, (compactSize_append_inj hamount hamount' htail).1⟩

/-! ## The state of an unconfirmed baton -/

/-- The target that a written commitment holds. -/
lemma targetHex_of_commitment {a target r : Bytes} (ha : a.length = 4) (htarget : target.length = 32) :
    ((Text.hexEncode (a ++ target ++ r)).drop 8).take 64 = Text.hexEncode target := by
  rw [List.append_assoc, Text.hexEncode_append, List.drop_left' (by rw [Text.length_hexEncode, ha]),
    Text.hexEncode_append, List.take_left' (by rw [Text.length_hexEncode, htarget])]

/-- What is derived for an unconfirmed baton, at any height. -/
lemma exists_derived {a target r : Bytes} (ha : a.length = 4) (htarget : target.length = 32)
    {amount : ℕ} (hamount : 2 ^ 32 - 1 < amount) :
    ∃ derived, ∀ height,
      derivePhotonState (Text.hexEncode (a ++ target ++ r)) amount height 0 = .ok derived := by
  have hlong : ¬((Text.hexEncode (a ++ target ++ r)).length < 72 ∨
      (Text.hexEncode (a ++ target ++ r)).length % 2 ≠ 0) := by
    rw [Text.length_hexEncode, List.length_append, List.length_append, ha, htarget]
    omega
  have hreward : ¬amount / 420000 = 0 := by omega
  have hfits : fromLe target * (0 + 143) / 144 < 256 ^ 32 := by
    have hlt := fromLe_lt target
    rw [htarget] at hlt
    omega
  refine ⟨⟨0, Text.hexEncode (leBytes 32 (fromLe target * (0 + 143) / 144)),
    amount / 420000 - 1⟩, fun height => ?_⟩
  refine Except.ite_error_eq_ok.mpr ⟨hlong, Except.ite_error_eq_ok.mpr ⟨?_, ?_⟩⟩
  · rw [Text.all_isHexDigit_hexEncode]
    exact nofun
  · simp only [if_pos, targetHex_of_commitment ha htarget, Text.hexDecode_hexEncode]
    refine Except.bind_eq_ok.mpr ⟨_, Except.ite_error_eq_ok.mpr ⟨not_le.mpr hfits, rfl⟩, ?_⟩
    exact Except.ite_error_eq_ok.mpr ⟨hreward, rfl⟩

/-- A target that a claim's digest met is positive where the rule asks for it. -/
lemma checkPreviousTarget_of_meets {d : PhotonDeployment} {a r : Bytes} {digest target : Hash}
    (ha : a.length = 4) (h : meetsTargetLeForRule digest target d.proofRule = true) :
    checkPreviousTarget d (Text.hexEncode (a ++ target.bytes ++ r)) = .ok () := by
  rw [checkPreviousTarget, targetHex_of_commitment ha target.length_bytes]
  split_ifs with hpositive
  · simp only [Text.hexDecode_hexEncode]
    refine Except.ite_error_eq_ok.mpr ⟨?_, rfl⟩
    intro hzero
    have hbad : d.proofRule = .positive ∧ (at' digest 31 &&& 0x80 ≠ 0 ∨
        digest.bytes.all (· = 0) = true ∨ at' target 31 &&& 0x80 ≠ 0 ∨
        target.bytes.all (· = 0) = true) := by
      rcases hzero with hall | hbit
      · exact ⟨hpositive.1, .inr (.inr (.inr hall))⟩
      · exact ⟨hpositive.1, .inr (.inr (.inl hbit))⟩
    rw [meetsTargetLeForRule, if_pos hbad] at h
    cases h
  · rfl

/-! ## The early job -/

section Early

variable [Hasher]

/-- What a direct claim's journal entry holds of its winner. -/
lemma PendingSubmission.fromDirect_eq_ok {winner : VerifiedWinner} {cfg : RuntimeConfig}
    {recipient : Recipient} {amount : ℕ} {pending : PendingSubmission} {baton : SuccessorBaton}
    (h : PendingSubmission.fromDirect winner cfg recipient amount = .ok pending)
    (hbaton : successorBaton winner.transaction (photonDeployment cfg.network) = .ok baton) :
    pending.isDirect = true ∧ pending.parentHex = Text.hexEncode winner.transaction ∧
      pending.resultingBatonVout = 0 ∧ pending.resultingBatonValueSats = baton.valueSats := by
  obtain ⟨baton', hbaton', h⟩ := Except.bind_eq_ok.mp h
  obtain rfl := Except.ok.inj (hbaton'.symm.trans hbaton)
  obtain ⟨_, -, h⟩ := Except.bind_eq_ok.mp h
  obtain rfl := Except.ok.inj h
  refine ⟨?_, rfl, rfl, rfl⟩
  cases cfg.network <;> cases recipient <;>
    simp [isDirect, isDirectNetwork, isDirectMode, MiningNetwork.asStr, Recipient.mode]

/-- What is read of the baton a claim leaves. -/
lemma Claim.exists_successor {winner : CompleteWinner} {live : LiveJob} {network : MiningNetwork}
    (c : Claim winner live (deployment network)) (hvalue : live.batonValueSats < 2 ^ 64) :
    ∃ (a r category covenantLock : Bytes) (value amount : ℕ) (reward : ParsedOutput),
      a.length = 4 ∧ r.length = 64 ∧ value < 2 ^ 64 ∧ 2 ^ 32 - 1 < amount ∧ amount < 2 ^ 64 ∧
      Text.hexDecode (photonDeployment network).categoryHex.toList = some category ∧
      parseParentOutputs winner.transaction = .ok (⟨value, batonOutput category
        (a ++ c.target.bytes ++ r) (compactUint amount) covenantLock⟩, reward) ∧
      successorBaton winner.transaction (photonDeployment network) =
        .ok ⟨value, Text.hexEncode (a ++ c.target.bytes ++ r), amount⟩ := by
  obtain ⟨b⟩ := exists_built c.built
  have htarget : b.target = c.target.bytes := Except.ok.inj (b.target_eq.symm.trans c.target_eq)
  have hcommitment : b.commitment = leBytes 4 c.params.nonce ++ c.target.bytes ++ b.signature := by
    rw [Built.commitment, commitmentOf, htarget]
  have hparams : c.params.contractValueSats < 2 ^ 64 := c.value_eq.trans_lt hvalue
  have hparse := b.parseParentOutputs_eq hparams
  have hbaton := b.successorBaton_eq hparams
  have hcategory := b.category_eq
  rw [hcommitment] at hparse hbaton
  rw [deployment_toPhotonDeployment] at hbaton hcategory
  exact ⟨_, _, _, _, _, _, _, length_leBytes _ _, b.length_signature,
    (Nat.sub_le _ _).trans_lt hparams, c.remaining, b.remaining_lt, hcategory, hparse, hbaton⟩

/-- What a job says of its baton and of the work on it. -/
structure On (job : LiveJob) (txid : List Char) (value : ℕ) (commitment : Bytes) (amount : ℕ)
    (derived : PhotonDerivedState) : Prop where
  batonTxid : job.batonTxid = Text.toAsciiLower txid
  batonVout : job.batonVout = 0
  batonValueSats : job.batonValueSats = value
  commitmentHex : job.commitmentHex = Text.hexEncode commitment
  tokenAmount : job.tokenAmount = amount
  age : job.age = derived.age
  targetLeHex : job.targetLeHex = derived.targetLeHex
  rewardRaw : job.rewardRaw = derived.rewardRaw

omit [Hasher] in
lemma On.sameWork {job job' : LiveJob} {txid : List Char} {value amount : ℕ} {commitment : Bytes}
    {derived : PhotonDerivedState} (h : On job txid value commitment amount derived)
    (h' : On job' txid value commitment amount derived) : SameWork job job' where
  batonTxid := h.batonTxid.trans h'.batonTxid.symm
  batonVout := h.batonVout.trans h'.batonVout.symm
  batonValueSats := h.batonValueSats.trans h'.batonValueSats.symm
  commitmentHex := h.commitmentHex.trans h'.commitmentHex.symm
  tokenAmount := h.tokenAmount.trans h'.tokenAmount.symm
  age := h.age.trans h'.age.symm
  targetLeHex := h.targetLeHex.trans h'.targetLeHex.symm
  rewardRaw := h.rewardRaw.trans h'.rewardRaw.symm

omit [Hasher] in
/-- The job on a baton that is listed as what it is. -/
lemma liveJobOfBaton_of_reports {d : PhotonDeployment} {raw category commitment covenantLock : Bytes}
    {txid : List Char} {utxo : Json} {value amount : ℕ} {reward : ParsedOutput}
    {derived : PhotonDerivedState} (hreports : Reports d raw txid utxo)
    (hparse : parseParentOutputs raw = .ok
      (⟨value, batonOutput category commitment (compactUint amount) covenantLock⟩, reward))
    (hcategory : Text.hexDecode d.categoryHex.toList = some category)
    (hlen : commitment.length < 2 ^ 64) (hamount : amount < 2 ^ 64)
    (hcheck : checkPreviousTarget d (Text.hexEncode commitment) = .ok ())
    (hderived : ∀ height, derivePhotonState (Text.hexEncode commitment) amount height 0 = .ok derived)
    (url serverVersion : String) (height : ℕ) (tipHash : List Char) :
    ∃ job, liveJobOfBaton url serverVersion height tipHash utxo d = .ok job ∧
      On job txid value commitment amount derived := by
  obtain ⟨text, htext, htxid⟩ := hreports.txHash
  obtain ⟨baton, second, category', commitment', amount', lock', hparse', hcategory', hbytes, hlen',
    hamount', hvalue, hhex, hdigits⟩ := hreports.output
  obtain ⟨rfl, -⟩ := Prod.ext_iff.mp (Except.ok.inj (hparse.symm.trans hparse'))
  obtain rfl := Option.some.inj (hcategory.symm.trans hcategory')
  obtain ⟨rfl, rfl⟩ := batonOutput_inj hlen hlen' hamount hamount' hbytes
  have hvout : (utxo.get? "tx_pos").bind Json.asU32 = some 0 := by
    obtain ⟨position, hposition, hzero⟩ := Option.bind_eq_some_iff.mp hreports.txPos
    rw [hposition, Option.bind_some, Json.asU32, hzero]
    rfl
  have hheight : ((utxo.get? "height").bind Json.asU32).getD 0 = 0 := by
    cases hentry : utxo.get? "height" with
    | none => rfl
    | some entry =>
      have hzero := hreports.height
      rw [hentry, Option.bind_some] at hzero
      rw [Option.bind_some, Json.asU32]
      cases hnumber : entry.asU64 with
      | none => rfl
      | some n =>
        rw [hzero n hnumber]
        rfl
  have hcommitment : Text.toAsciiLower (textAt utxo ["token_data", "nft", "commitment"]) =
      Text.hexEncode commitment := by
    rw [Text.eqIgnoreCase_iff.mp hhex, Text.toAsciiLower_hexEncode]
  have hlisted : listedAmount utxo = .ok amount := by
    rw [listedAmount, hdigits, Option.getD_some, parseUnsigned_toDigits (hamount.trans (by norm_num))]
  rw [liveJobOfBaton, htext, hvout]
  dsimp only
  rw [hcommitment, hheight]
  refine ⟨_, Except.bind_eq_ok.mpr ⟨_, hcheck, Except.bind_eq_ok.mpr ⟨_, hlisted,
    Except.bind_eq_ok.mpr ⟨_, hderived height, rfl⟩⟩⟩, ?_⟩
  exact ⟨Text.eqIgnoreCase_iff.mp htxid, rfl, by rw [hvalue]; rfl, rfl, rfl, rfl, rfl, rfl⟩

variable [Schnorr] [Records]

/-- The job after a direct claim is the one that a server reports as soon as it lists the baton the
claim leaves. -/
theorem successor_is_indexed {σ : Type} {answers : σ → (q : Op) → Answer q → σ → Prop} {s s' : σ}
    {winner : CompleteWinner} {cfg : RuntimeConfig} {generationId : ℕ} {live : LiveJob}
    {settlement : SettlementState} {policy : Policy} {journal : String}
    {pending : PendingSubmission} (hvalue : live.batonValueSats < 2 ^ 64)
    (hjournaled : Program.Runs answers (prepareSubmissionForNetwork winner.toVerifiedWinner cfg
      generationId live (authorizedReward winner generationId live settlement policy
        (deployment cfg.network)) journal) s (some (.ok pending)) s') (chain : LiveJob) :
    ∃ early, successorLiveJob pending chain cfg = .ok early ∧
      ∀ url serverVersion header unspent height tipHash,
        (header.get? "height").bind Json.asU32 = some height →
        fulcrumHeaderHash header = .ok tipHash →
        ListsOnly (photonDeployment cfg.network) winner.transaction pending.parentTxid unspent →
        ∃ indexed, liveJobFromFulcrumValuesForDeployment url serverVersion header unspent
            (photonDeployment cfg.network) = .ok indexed ∧ SameWork early indexed ∧
          liveJobChanged { early with relayFeeSatsPerKb := indexed.relayFeeSatsPerKb } indexed =
            false := by
  -- the claim that was journaled
  rw [prepareSubmissionForNetwork] at hjournaled
  split at hjournaled
  · cases hjournaled
  obtain ⟨authorized, s₁, hauthorized, hjournaled⟩ := hjournaled.of_bind
  obtain ⟨hauthorized, -⟩ := hauthorized.of_lift
  obtain ⟨made, s₂, hmade, hjournaled⟩ := hjournaled.of_bind
  obtain ⟨hmade, -⟩ := hmade.of_lift
  obtain ⟨_, s₃, -, hreturned⟩ := hjournaled.of_bind
  obtain rfl : made = pending := by
    cases hreturned
    rfl
  obtain ⟨c⟩ := exists_claim hauthorized
  obtain ⟨a, r, category, covenantLock, value, amount, reward, ha, hr, -, hlarge, hamount,
    hcategory, hparse, hbaton⟩ := c.exists_successor hvalue
  obtain ⟨hdirect, hhex, hvout, hsats⟩ := PendingSubmission.fromDirect_eq_ok hmade hbaton
  obtain ⟨derived, hderived⟩ := exists_derived (r := r) ha c.target.length_bytes hlarge
  have hshort : (a ++ c.target.bytes ++ r).length < 2 ^ 64 := by
    rw [List.length_append, List.length_append, ha, hr, c.target.length_bytes]
    omega
  have hearly : ∃ early, successorLiveJob made chain cfg = .ok early ∧
      On early made.parentTxid value (a ++ c.target.bytes ++ r) amount derived := by
    rw [successorLiveJob, hdirect, hhex, Text.hexDecode_hexEncode]
    refine ⟨_, Except.bind_eq_ok.mpr ⟨_, hbaton, Except.ite_error_eq_ok.mpr ⟨not_not.mpr hsats.symm,
      Except.bind_eq_ok.mpr ⟨_, hderived chain.height, rfl⟩⟩⟩, ?_⟩
    exact ⟨rfl, hvout, rfl, rfl, rfl, rfl, rfl, rfl⟩
  obtain ⟨early, hearly, hon⟩ := hearly
  refine ⟨early, hearly, ?_⟩
  -- the same baton in a listing
  intro url serverVersion header unspent height tipHash hheight htip hlists
  obtain ⟨listed, baton, hlisted, honly, hreports⟩ := hlists
  have hmeets := c.meets
  have hrule : (deployment cfg.network).proofRule = (photonDeployment cfg.network).proofRule :=
    congrArg PhotonDeployment.proofRule (deployment_toPhotonDeployment cfg.network)
  rw [hrule] at hmeets
  obtain ⟨indexed, hindexed, hon'⟩ := liveJobOfBaton_of_reports hreports hparse hcategory hshort
    hamount (checkPreviousTarget_of_meets ha hmeets) hderived url serverVersion height tipHash
  refine ⟨indexed, ?_, hon.sameWork hon', (hon.sameWork hon').unchanged⟩
  rw [liveJobFromFulcrumValuesForDeployment, hheight]
  refine Except.bind_eq_ok.mpr ⟨_, htip, ?_⟩
  rw [hlisted]
  dsimp only
  rw [honly]
  exact hindexed

end Early

/-! ### A sample -/

section Sample

/-- An entry that lists a baton. -/
def listedBaton (d : PhotonDeployment) (txid : List Char) (value : ℕ) (commitment : Bytes)
    (amount : ℕ) : Json :=
  .object [("tx_hash", .string txid), ("tx_pos", .unsigned 0), ("height", .unsigned 0),
    ("value", .unsigned (UInt64.ofNat value)), ("token_data", .object [
      ("category", .string d.categoryHex.toList), ("amount", .string (Nat.toDigits 10 amount)),
      ("nft", .object [("capability", .string "mutable".toList),
        ("commitment", .string (Text.hexEncode commitment))])])]

/-- The claim's baton is listed alone in a listing of nothing else. -/
lemma listsOnly_listedBaton {d : PhotonDeployment} {raw category commitment covenantLock : Bytes}
    {txid : List Char} {value amount : ℕ} {reward : ParsedOutput}
    (hlower : Text.toAsciiLower d.categoryHex.toList = d.categoryHex.toList)
    (hparse : parseParentOutputs raw = .ok
      (⟨value, batonOutput category commitment (compactUint amount) covenantLock⟩, reward))
    (hcategory : Text.hexDecode d.categoryHex.toList = some category) (hvalue : value < 2 ^ 64)
    (hlen : commitment.length < 2 ^ 64) (hamount : amount < 2 ^ 64) :
    ListsOnly d raw txid (.array [listedBaton d txid value commitment amount]) := by
  refine ⟨_, listedBaton d txid value commitment amount, rfl, ?_,
    ⟨⟨txid, rfl, Text.eqIgnoreCase_refl _⟩, rfl, ?_, ?_⟩⟩
  · have hbaton : isBaton d (listedBaton d txid value commitment amount) = true := by
      rw [isBaton, Bool.and_eq_true, beq_iff_eq, beq_iff_eq]
      exact ⟨hlower, rfl⟩
    rw [List.filter_cons_of_pos hbaton, List.filter_nil]
  · intro n hn
    exact (Option.some.inj hn).symm
  · refine ⟨_, _, category, commitment, amount, covenantLock, hparse, hcategory, rfl, hlen, hamount,
      ?_, Text.eqIgnoreCase_refl _, rfl⟩
    show some (UInt64.ofNat value).toNat = some value
    rw [UInt64.toNat_ofNat_of_lt' hvalue]

/-- A header of nothing but zeros. -/
def sampleHeader : Json :=
  .object [("height", .unsigned 3), ("hex", .string (Text.hexEncode (List.replicate 80 0)))]

theorem successor_is_indexed_sample :
    let _ : Hasher := Hasher.fips
    let _ : Schnorr := sampleSchnorr
    let _ : Records := sampleRecords
    ∃ pending early unspent indexed, successorLiveJob pending sampleJob sampleNetwork = .ok early ∧
      liveJobFromFulcrumValuesForDeployment "sample" "1" sampleHeader unspent .mainnet = .ok indexed ∧
      SameWork early indexed := by
  intro hasher schnorr records
  obtain ⟨tx, pending, _, _, _, hauthorized, -, hrun, -⟩ := exists_sampleCalls
  obtain ⟨early, hearly, hindexed⟩ := successor_is_indexed (by decide) hrun sampleJob
  -- the baton of the claim, listed
  obtain ⟨c⟩ := exists_claim hauthorized
  obtain ⟨a, r, category, covenantLock, value, amount, reward, ha, hr, hvalue, -, hamount, hcategory,
    hparse, -⟩ := c.exists_successor (by decide)
  have hlower : Text.toAsciiLower (photonDeployment .mainnet).categoryHex.toList =
      (photonDeployment .mainnet).categoryHex.toList := by
    decide +kernel
  have hshort : (a ++ c.target.bytes ++ r).length < 2 ^ 64 := by
    rw [List.length_append, List.length_append, ha, hr, c.target.length_bytes]
    omega
  have htip : fulcrumHeaderHash sampleHeader =
      .ok (Text.hexEncode (doubleSha256 (List.replicate 80 0)).bytes.reverse) := by
    have hhex : (sampleHeader.get? "hex").bind Json.asStr =
        some (Text.hexEncode (List.replicate 80 0)) := rfl
    rw [fulcrumHeaderHash, hhex]
    dsimp only
    rw [Text.hexDecode_hexEncode]
    exact Except.ite_error_eq_ok.mpr ⟨fun h => h List.length_replicate, rfl⟩
  obtain ⟨indexed, hindexed, hsame, -⟩ := hindexed "sample" "1" sampleHeader _ 3 _ rfl htip
    (listsOnly_listedBaton hlower hparse hcategory hvalue hshort hamount)
  exact ⟨pending, early, _, indexed, hearly, hindexed, hsame⟩

end Sample

end Pickaxe.Photon
