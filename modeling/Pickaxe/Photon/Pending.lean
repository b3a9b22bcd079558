/-
# Claims in the journal

A claim that is about to be sent is written down first.  `PendingSubmission` is what the journal
holds, with the check every use of it makes; `ResolvedSubmission` is the record left behind when
the claim's outcome is known.
-/
import Pickaxe.Photon.Baton
import Pickaxe.Lib.Result

namespace Pickaxe.Photon

open Lib

/-- `PendingSubmission`. -/
structure PendingSubmission where
  version : ℕ
  network : Option String
  mode : Option String
  fundingOutpoint : Option String
  generationId : ℕ
  expectedHeight : ℕ
  expectedBatonTxid : List Char
  expectedBatonVout : ℕ
  parentTxid : List Char
  parentHex : List Char
  settlementTxid : List Char
  settlementHex : List Char
  resultingBatonTxid : List Char
  resultingBatonVout : ℕ
  resultingBatonValueSats : ℕ
  minerTokenAmount : ℕ
  donationTokenAmount : ℕ
deriving DecidableEq

/-- `ResolvedSubmission`. -/
structure ResolvedSubmission where
  version : ℕ
  journalVersion : ℕ
  network : Option String
  mode : Option String
  fundingOutpoint : Option String
  generationId : ℕ
  expectedHeight : ℕ
  expectedBatonTxid : List Char
  expectedBatonVout : ℕ
  parentTxid : List Char
  settlementTxid : List Char
  parentAttempted : Bool
  parentAccepted : Bool
  observedHeight : ℕ
  observedBatonTxid : List Char
  observedBatonVout : ℕ
  reason : String
deriving DecidableEq

/-- `DIRECT_SUBMISSION_JOURNAL_VERSION`. -/
def directSubmissionJournalVersion : ℕ := 5

/-- `DIRECT_SUBMISSION_RESOLUTION_VERSION`. -/
def directSubmissionResolutionVersion : ℕ := 3

/-- `SUBMISSION_JOURNAL_VERSION`. -/
def submissionJournalVersion : ℕ := 3

/-- `RETIRED_CHIPNET_JOURNAL_VERSION`. -/
def retiredChipnetJournalVersion : ℕ := 4

/-- `SUBMISSION_RESOLUTION_VERSION`. -/
def submissionResolutionVersion : ℕ := 1

/-- `DONATION_BPS`. -/
def donationBps : ℕ := 200

/-- The networks a direct claim may name. -/
def isDirectNetwork (network : Option String) : Bool :=
  network == some "mainnet" || network == some "chipnet"

/-- The modes of a direct claim. -/
def isDirectMode (mode : Option String) : Bool :=
  mode == some "direct_miner" || mode == some "direct_project" || mode == some "direct_collaborator"

/-- `MiningNetwork::parse`. -/
def parseNetwork (text : String) : Except String MiningNetwork :=
  if text = "mainnet" then .ok .mainnet
  else if text = "chipnet" then .ok .chipnet
  else .error "network must be mainnet or chipnet"

namespace PendingSubmission

/-- `is_direct`. -/
def isDirect (pending : PendingSubmission) : Bool :=
  pending.version == directSubmissionJournalVersion && isDirectNetwork pending.network &&
    isDirectMode pending.mode

/-- `require_network`. -/
def requireNetwork (pending : PendingSubmission) (network : MiningNetwork) : Except String Unit :=
  if pending.isDirect = true ∧ pending.network = some network.asStr then .ok ()
  else if network = .mainnet ∧ pending.version = submissionJournalVersion then .ok ()
  else .error "pending PHOTON submission network or mode does not match mining network"

/-- The part of `validate` about the journal's version: a direct claim is its own settlement, and
a legacy one names no network. -/
def checkVersion (pending : PendingSubmission) : Except String Unit :=
  if pending.version = directSubmissionJournalVersion then
    if pending.isDirect = false ∨ pending.fundingOutpoint ≠ none ∨
        pending.resultingBatonTxid ≠ pending.parentTxid ∨
        pending.settlementTxid ≠ pending.parentTxid ∨ pending.settlementHex ≠ pending.parentHex ∨
        (pending.mode = some "direct_miner" ∧ pending.donationTokenAmount ≠ 0) ∨
        (pending.mode ≠ some "direct_miner" ∧ pending.minerTokenAmount ≠ 0) then
      .error "invalid direct-reward journal"
    else .ok ()
  else if pending.network ≠ none ∨ pending.mode ≠ none ∨ pending.fundingOutpoint ≠ none then
    .error "legacy mainnet journal cannot select chipnet funding"
  else .ok ()

/-- `checked_add` of token amounts, and the 98/2 split of a legacy claim. -/
def checkSplit (pending : PendingSubmission) : Except String ℕ :=
  let rewardAmount := pending.minerTokenAmount + pending.donationTokenAmount
  if 2 ^ 128 ≤ rewardAmount then .error "pending submission reward token amount overflow"
  else
    let expectedDonation := min (rewardAmount * donationBps) (2 ^ 128 - 1) / 10000
    if pending.isDirect = false ∧ (pending.donationTokenAmount ≠ expectedDonation ∨
        pending.minerTokenAmount ≠ rewardAmount - expectedDonation) then
      .error "pending submission does not encode the exact 98/2 reward split"
    else .ok rewardAmount

/-- The part of `validate` about one of the two journaled transactions: its bytes have its id. -/
def checkBytes [Hasher] (label : String) (expected rawHex : List Char) : Except String Bytes :=
  if ¬ IsTxid expected then .error s!"pending submission has invalid {label} txid"
  else match Text.hexDecode rawHex with
    | none => .error s!"pending submission {label} hex: {Text.hexFault rawHex}"
    | some raw =>
      if raw = [] then .error s!"pending submission {label} transaction is empty"
      else if Text.eqIgnoreCase (transactionId raw) expected = false then
        .error s!"pending submission {label} txid does not match journaled bytes"
      else .ok raw

/-- The part of `validate` about a direct claim's transaction: it pays what the journal says and
spends the baton the journal names. -/
def checkDirect (pending : PendingSubmission) (parent : Bytes) (rewardAmount : ℕ) :
    Except String Unit := do
  let network ← parseNetwork (pending.network.getD "")
  validateDirectRewardRecord parent (photonDeployment network) pending.resultingBatonValueSats
    rewardAmount
  let (txid, vout) ← firstInputOutpoint pending.parentHex
  if Text.eqIgnoreCase txid pending.expectedBatonTxid = false ∨ vout ≠ pending.expectedBatonVout then
    .error "direct reward journal spends a different baton"
  else .ok ()

/-- `PendingSubmission::validate`. -/
def validate [Hasher] (pending : PendingSubmission) : Except String Unit :=
  if pending.version = retiredChipnetJournalVersion then
    .error "this pending claim comes from the retired Chipnet batch-payout preview; it can only hold Chipnet test rewards, so delete pending-reward-chipnet.json and its markers to continue"
  else if pending.version ≠ submissionJournalVersion ∧
      pending.version ≠ directSubmissionJournalVersion then
    .error s!"unsupported pending-submission journal version {pending.version}"
  else if ¬ IsTxid pending.expectedBatonTxid then
    .error "pending submission has invalid PHOTON baton txid"
  else if pending.generationId = 0 then .error "pending submission has invalid generation id"
  else if pending.resultingBatonVout ≠ 0 then
    .error "pending submission resulting PHOTON baton must be output 0"
  else if pending.version = submissionJournalVersion ∧
      pending.resultingBatonTxid ≠ pending.settlementTxid then
    .error "pending submission resulting baton txid must equal settlement txid"
  else do
    pending.checkVersion
    let rewardAmount ← pending.checkSplit
    let parent ← checkBytes "parent" pending.parentTxid pending.parentHex
    let _ ← checkBytes "settlement" pending.settlementTxid pending.settlementHex
    if pending.isDirect then pending.checkDirect parent rewardAmount else .ok ()

/-- `expected_baton_is_current`: the live baton is the one the claim spends. -/
def expectedBatonIsCurrent (pending : PendingSubmission) (live : LiveJob) : Bool :=
  Text.eqIgnoreCase pending.expectedBatonTxid live.batonTxid &&
    pending.expectedBatonVout == live.batonVout

/-- The live baton is the first output of the claim's parent. -/
def parentBatonIsLive (pending : PendingSubmission) (live : LiveJob) : Bool :=
  Text.eqIgnoreCase live.batonTxid pending.parentTxid && live.batonVout == 0

/-- `live_baton_precedes_settlement`. -/
def liveBatonPrecedesSettlement (pending : PendingSubmission) (live : LiveJob) : Bool :=
  pending.expectedBatonIsCurrent live || pending.parentBatonIsLive live

/-- `resulting_baton_is_authoritative`: the live baton is the one the claim leaves. -/
def resultingBatonIsAuthoritative (pending : PendingSubmission) (fresh : LiveJob) : Bool :=
  Text.eqIgnoreCase fresh.batonTxid pending.resultingBatonTxid &&
    fresh.batonVout == pending.resultingBatonVout

/-- The fields that the record of a claim takes from its journal. -/
def resolved (pending : PendingSubmission) (fresh : LiveJob) (parentAttempted parentAccepted : Bool)
    (reason : String) : ResolvedSubmission where
  version := if pending.isDirect then directSubmissionResolutionVersion
    else submissionResolutionVersion
  journalVersion := pending.version
  network := pending.network
  mode := pending.mode
  fundingOutpoint := pending.fundingOutpoint
  generationId := pending.generationId
  expectedHeight := pending.expectedHeight
  expectedBatonTxid := pending.expectedBatonTxid
  expectedBatonVout := pending.expectedBatonVout
  parentTxid := pending.parentTxid
  settlementTxid := pending.settlementTxid
  parentAttempted := parentAttempted
  parentAccepted := parentAccepted
  observedHeight := fresh.height
  observedBatonTxid := fresh.batonTxid
  observedBatonVout := fresh.batonVout
  reason := reason

end PendingSubmission

/-! ## Records -/

/-- `ResolvedSubmission::validate`. -/
def ResolvedSubmission.validate (resolved : ResolvedSubmission) : Except String Unit :=
  if resolved.version ≠ submissionResolutionVersion ∧
      resolved.version ≠ directSubmissionResolutionVersion then
    .error s!"unsupported resolved-submission version {resolved.version}"
  else if resolved.journalVersion ≠ submissionJournalVersion ∧
      resolved.journalVersion ≠ directSubmissionJournalVersion then
    .error s!"resolved submission references unsupported journal version {resolved.journalVersion}"
  else if (resolved.journalVersion = directSubmissionJournalVersion ∧
        (resolved.version ≠ directSubmissionResolutionVersion ∨
          isDirectNetwork resolved.network = false ∨ isDirectMode resolved.mode = false ∨
          resolved.fundingOutpoint ≠ none ∨ resolved.parentTxid ≠ resolved.settlementTxid)) ∨
      (resolved.journalVersion = submissionJournalVersion ∧
        (resolved.version ≠ submissionResolutionVersion ∨ resolved.network ≠ none ∨
          resolved.mode ≠ none ∨ resolved.fundingOutpoint ≠ none)) then
    .error "resolved submission network, mode, or version mismatch"
  else if ¬ IsTxid resolved.expectedBatonTxid then
    .error "resolved submission has invalid expected baton txid"
  else if ¬ IsTxid resolved.parentTxid then .error "resolved submission has invalid parent txid"
  else if ¬ IsTxid resolved.settlementTxid then
    .error "resolved submission has invalid settlement txid"
  else if ¬ IsTxid resolved.observedBatonTxid then
    .error "resolved submission has invalid observed baton txid"
  else if resolved.reason = "stale-unbroadcast" then
    if resolved.parentAccepted then
      .error "resolved stale submission cannot have an accepted parent"
    else .ok ()
  else if resolved.reason = "conflicted" then
    if resolved.journalVersion ≠ directSubmissionJournalVersion ∨
        resolved.parentAttempted = false then
      .error "only an attempted direct claim can resolve as conflicted"
    else .ok ()
  else if resolved.reason = "confirmed" then
    if resolved.parentAttempted = false ∨ resolved.parentAccepted = false then
      .error "confirmed submission must record an attempted and accepted parent"
    else .ok ()
  else .error "resolved submission has an unsupported resolution reason"

/-- The decision part of `ResolvedSubmission::from_stale`, with the two markers read. -/
def staleRecord (pending : PendingSubmission) (fresh : LiveJob)
    (parentAttempted parentAccepted : Bool) : Except String ResolvedSubmission :=
  let conflicted := pending.isDirect && parentAttempted
  if parentAccepted = true ∧ conflicted = false then
    .error "refusing to resolve a PHOTON winner as stale after parent acceptance"
  else if parentAttempted = true ∧ conflicted = false then
    .error "refusing to resolve a PHOTON winner as stale after a parent broadcast attempt; the durable journal must be retained until the parent outcome is proven"
  else if pending.parentBatonIsLive fresh then
    .error "refusing to resolve a PHOTON winner as stale while its parent baton is live"
  else if pending.expectedBatonIsCurrent fresh then
    .error "refusing to resolve a PHOTON winner as stale while its expected baton is live"
  else .ok (pending.resolved fresh parentAttempted parentAccepted
    (if conflicted then "conflicted" else "stale-unbroadcast"))

/-- `ResolvedSubmission::from_confirmed`. -/
def ResolvedSubmission.fromConfirmed [Hasher] (pending : PendingSubmission) (fresh : LiveJob) :
    Except String ResolvedSubmission := do
  pending.validate
  return pending.resolved fresh true true "confirmed"

end Pickaxe.Photon
