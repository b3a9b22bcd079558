/-
# Sending a claim

The journaled parent of a claim is sent to a server until its outcome is known.  A direct claim is
one transaction; a legacy one has a settlement that follows its parent.  The functions follow
`attempt_pending_submission` and what it calls, the checks before the journal is written, and the
recovery at the start.
-/
import Pickaxe.Photon.Disk

namespace Pickaxe.Photon

open Lib

/-- `RuntimeConfig`, as far as a claim needs it. -/
structure RuntimeConfig where
  network : MiningNetwork
  nodeUrl : Option String
  nodeEndpoints : List String
  source : JobSource

/-! ## Recent spends -/

/-- `UNINDEXED_SPEND_GRACE`, in nanoseconds. -/
def unindexedSpendGrace : ℕ := 30 * 10 ^ 9

/-- `UNINDEXED_SPEND_CAP`. -/
def unindexedSpendCap : ℕ := 64

/-- A baton that a claim of this miner spends, and when it was noted. -/
structure Spend where
  txid : List Char
  vout : ℕ
  noted : ℕ
deriving DecidableEq

/-- `UnindexedSpends`. -/
structure UnindexedSpends where
  spent : List Spend
deriving DecidableEq

namespace UnindexedSpends

/-- `UnindexedSpends::record`. -/
def record (u : UnindexedSpends) (txid : List Char) (vout now : ℕ) : UnindexedSpends :=
  let spent := if u.spent.length = unindexedSpendCap then u.spent.drop 1 else u.spent
  ⟨spent ++ [⟨Text.toAsciiLower txid, vout, now⟩]⟩

/-- `UnindexedSpends::indexer_lags`. -/
def indexerLags (u : UnindexedSpends) (job : LiveJob) (now : ℕ) : Bool :=
  u.spent.any fun spend =>
    Text.eqIgnoreCase spend.txid job.batonTxid && spend.vout == job.batonVout &&
      decide (now - spend.noted < unindexedSpendGrace)

/-- `UnindexedSpends::clear`. -/
def clear (_ : UnindexedSpends) : UnindexedSpends := ⟨[]⟩

end UnindexedSpends

/-- `ClaimContext`. -/
structure ClaimContext where
  unindexed : UnindexedSpends
  live : LiveJob
  relay : Bool

/-! ## Servers -/

/-- Whether a text has a phrase in it. -/
def contains (text phrase : List Char) : Bool := text.tails.any phrase.isPrefixOf

/-- `broadcast_reports_known`. -/
def broadcastReportsKnown (error : String) : Bool :=
  let lower := Text.toAsciiLower error.toList
  ["txn-already-known", "txn-already-in-mempool", "already in block chain",
    "already in the block chain"].any fun known => contains lower known.toList

/-- What an answer about a transaction says of whether the server has it. -/
def knownAnswer : Except String RpcValue → Except String Bool
  | .ok .null => .ok false
  | .ok _ => .ok true
  | .error error =>
    let lower := Text.toAsciiLower error.toList
    if contains lower "no such".toList || contains lower "not found".toList then .ok false
    else .error error

/-- `transaction_known`. -/
def transactionKnown (txid : List Char) : Task Bool :=
  if ¬ IsTxid txid then .error "transaction id must be exactly 64 hexadecimal characters"
  else do
    let answer : Except String RpcValue ← .query (Op.getTransaction txid)
    Program.lift (knownAnswer answer)

/-- `fetch_live_job`. -/
def fetchLiveJob : Task LiveJob := do
  let job : Except String LiveJob ← .query Op.fetchLiveJob
  Program.lift job

/-- The checks before a server is given a transaction; what is sent has no space around it. -/
def checkRawHex (rawTxHex : List Char) : Except String (List Char) :=
  let hex := Text.trim rawTxHex
  if hex = [] ∨ hex.length % 2 ≠ 0 then .error "raw tx hex empty or odd length"
  else if hex.all Text.isHexDigit = false then .error "raw tx must be hex"
  else .ok hex

/-- `broadcast_raw`, by the session or by a node. -/
def broadcastRaw (via : JobSource) (rawTxHex : List Char) : Task (List Char) := do
  let hex ← Program.lift (checkRawHex rawTxHex)
  let answer : Except String (List Char) ← .query (Op.broadcast via hex)
  Program.lift answer

/-- A broadcast, and a second way where the first fails. -/
def broadcastOr (first second : JobSource) (firstFailed secondFailed : String) (rawTxHex : List Char) :
    Task (List Char) := do
  let answer ← (broadcastRaw first rawTxHex).attempt
  match answer with
  | .ok txid => .ok txid
  | .error firstError => do
    let answer ← (broadcastRaw second rawTxHex).attempt
    match answer with
    | .ok txid => .ok txid
    | .error secondError =>
      .error s!"{firstFailed}: {firstError}; {secondFailed}: {secondError}"

/-- `broadcast_pending_transaction`, with `broadcast_with_preference`. -/
def broadcastPendingTransaction (cfg : RuntimeConfig) (rawTxHex : List Char) : Task (List Char) :=
  match cfg.source, cfg.nodeEndpoints with
  | .node, _ :: _ =>
    broadcastOr .node .fulcrum "native-node broadcast failed" "Fulcrum fallback failed" rawTxHex
  | .fulcrum, _ :: _ =>
    broadcastOr .fulcrum .node "Fulcrum broadcast failed" "native-node fallback failed" rawTxHex
  | _, [] => broadcastRaw .fulcrum rawTxHex

/-- `ensure_broadcast_txid`. -/
def ensureBroadcastTxid (label : String) (expected returned : List Char) : Except String Unit :=
  if Text.eqIgnoreCase returned expected then .ok ()
  else .error s!"{label} broadcast returned unexpected txid {String.ofList returned}; expected {String.ofList expected}"

/-- `validate_node_mempool_acceptance`. -/
def validateNodeMempoolAcceptance (label : String) (expectedTxid : List Char) (endpoint : String)
    (acceptance : MempoolAcceptance) : Except String Unit :=
  if Text.eqIgnoreCase acceptance.txid expectedTxid = false then
    .error s!"{label} mempool preflight via {endpoint} returned unexpected txid {String.ofList acceptance.txid}; expected {String.ofList expectedTxid}"
  else if acceptance.allowed then .ok ()
  else
    let reason := acceptance.rejectReason.getD "node did not provide a rejection reason"
    let details := (acceptance.rejectDetails.map fun value => s!" ({value})").getD ""
    .error s!"{label} rejected by native-node mempool preflight via {endpoint}: {reason}{details}"

/-- `preflight_pending_transaction`. -/
def preflightPendingTransaction (cfg : RuntimeConfig) (label : String)
    (expectedTxid rawTxHex : List Char) : Task Unit :=
  if cfg.nodeUrl = none ∨ cfg.nodeEndpoints = [] then .ok ()
  else do
    let hex ← Program.lift (checkRawHex rawTxHex)
    let answer : Except String (String × MempoolAcceptance) ← .query (Op.testMempoolAccept hex)
    let (endpoint, acceptance) ← Program.lift answer
    Program.lift (validateNodeMempoolAcceptance label expectedTxid endpoint acceptance)

/-! ## Lineage -/

/-- `BATON_LINEAGE_MAX_STEPS`. -/
def batonLineageMaxSteps : ℕ := 256

/-- The bytes of a transaction on a baton's lineage. -/
def fetchRaw (txid : List Char) : Task (List Char) := do
  let answer : Except String RpcValue ← .query (Op.getTransaction txid)
  match answer with
  | .ok (.string raw) => .ok raw
  | .ok .null => .error "Fulcrum returned non-hex transaction data while proving PHOTON baton lineage: null"
  | .ok (.other value) =>
    .error s!"Fulcrum returned non-hex transaction data while proving PHOTON baton lineage: {value}"
  | .error error => .error error

section Submission

variable [Hasher]

/-- What one transaction of a lineage says: the output its first input spends, once its bytes are
known to have the id asked for. -/
def lineageStep (cursor raw : List Char) : Except String (List Char × ℕ) :=
  match Text.hexDecode (Text.trim raw) with
  | none => .error s!"decode PHOTON lineage transaction: {Text.hexFault (Text.trim raw)}"
  | some bytes =>
    if Text.eqIgnoreCase (transactionId bytes) cursor = false then
      .error s!"PHOTON baton lineage transaction bytes do not match requested txid {String.ofList cursor}"
    else firstInputOutpoint raw

/-- The loop of `prove_baton_descends_from`, for a number of steps. -/
def walkLineage (ancestorTxid : List Char) (ancestorVout : ℕ) (boundaries : List (List Char))
    (exceeded : List Char → String) : ℕ → List Char → Task Bool
  | 0, cursor => .error (exceeded cursor)
  | steps + 1, cursor => do
    let raw ← fetchRaw cursor
    let (previousTxid, previousVout) ← Program.lift (lineageStep cursor raw)
    if previousVout ≠ 0 then .ok false
    else if Text.eqIgnoreCase previousTxid ancestorTxid then .ok (previousVout == ancestorVout)
    else if boundaries.any (Text.eqIgnoreCase previousTxid) then .ok false
    else if Text.eqIgnoreCase previousTxid cursor then
      .error "PHOTON baton lineage contains a transaction cycle"
    else walkLineage ancestorTxid ancestorVout boundaries exceeded steps previousTxid

/-- `prove_baton_descends_from`. -/
def proveBatonDescendsFrom (currentTxid : List Char) (currentVout : ℕ) (ancestorTxid : List Char)
    (ancestorVout : ℕ) (boundaries : List (List Char)) : Task Bool :=
  if currentVout ≠ 0 ∨ ancestorVout ≠ 0 then .ok false
  else if Text.eqIgnoreCase currentTxid ancestorTxid then .ok true
  else
    walkLineage ancestorTxid ancestorVout boundaries
      (fun cursor => s!"PHOTON baton lineage exceeded the bounded {batonLineageMaxSteps}-transaction recovery window: live_baton={String.ofList currentTxid}:{currentVout} expected_ancestor={String.ofList ancestorTxid}:{ancestorVout} last_cursor={String.ofList cursor}:0")
      batonLineageMaxSteps currentTxid

/-- `resulting_baton_is_authoritative_or_descendant`. -/
def resultingBatonIsAuthoritativeOrDescendant (pending : PendingSubmission) (fresh : LiveJob) :
    Task Bool :=
  if pending.resultingBatonIsAuthoritative fresh then .ok true
  else
    proveBatonDescendsFrom fresh.batonTxid fresh.batonVout pending.resultingBatonTxid
      pending.resultingBatonVout [pending.parentTxid, pending.expectedBatonTxid]

/-! ## Attempts -/

/-- `SubmissionAttempt`. -/
inductive SubmissionAttempt where
  | complete (fresh : LiveJob)
  | staleUnbroadcast (fresh : LiveJob)
  | awaitingBaton (message : String)

/-- `SubmissionDecision`. -/
inductive SubmissionDecision where
  | broadcastSettlement
  | broadcastParentThenSettlement
  | awaitParentResolution
  | staleUnbroadcast
deriving DecidableEq

/-- `submission_decision`. -/
def submissionDecision (parentKnown parentAttempted liveMatchesExpected : Bool) :
    SubmissionDecision :=
  if parentKnown then .broadcastSettlement
  else if liveMatchesExpected then .broadcastParentThenSettlement
  else if parentAttempted then .awaitParentResolution
  else .staleUnbroadcast

/-- `successor_live_job`: the job on the baton a direct claim leaves. -/
def successorLiveJob (pending : PendingSubmission) (chain : LiveJob) (cfg : RuntimeConfig) :
    Except String LiveJob :=
  if pending.isDirect = false then
    .error "only direct PHOTON rewards can mine their successor baton early"
  else match Text.hexDecode pending.parentHex with
    | none => .error s!"pending submission parent hex: {Text.hexFault pending.parentHex}"
    | some raw => do
      let baton ← successorBaton raw (photonDeployment cfg.network)
      if baton.valueSats ≠ pending.resultingBatonValueSats then
        .error "successor baton value disagrees with the journaled winner"
      else do
        let derived ← derivePhotonState baton.commitmentHex baton.tokenAmount chain.height 0
        return {
          url := chain.url
          serverVersion := chain.serverVersion
          height := chain.height
          tipHash := chain.tipHash
          batonTxid := Text.toAsciiLower pending.parentTxid
          batonVout := pending.resultingBatonVout
          batonHeight := 0
          batonValueSats := baton.valueSats
          relayFeeSatsPerKb := chain.relayFeeSatsPerKb
          commitmentHex := baton.commitmentHex
          tokenAmount := baton.tokenAmount
          age := derived.age
          targetLeHex := derived.targetLeHex
          rewardRaw := derived.rewardRaw }

/-- `resolve_post_broadcast_baton`. -/
def resolvePostBroadcastBaton (pending : PendingSubmission) (fresh : LiveJob)
    (waitingMessage unprovenMessage : String) : Task SubmissionAttempt :=
  if pending.resultingBatonIsAuthoritative fresh then .ok (.complete fresh)
  else if pending.liveBatonPrecedesSettlement fresh then .ok (.awaitingBaton waitingMessage)
  else do
    let proven ← resultingBatonIsAuthoritativeOrDescendant pending fresh
    if proven then .ok (.complete fresh) else .error unprovenMessage

/-- `broadcast_settlement`. -/
def broadcastSettlement (cfg : RuntimeConfig) (pending : PendingSubmission) :
    Task SubmissionAttempt := do
  preflightPendingTransaction cfg "PHOTON settlement" pending.settlementTxid pending.settlementHex
  let returned ← broadcastPendingTransaction cfg pending.settlementHex
  Program.lift (ensureBroadcastTxid "PHOTON settlement" pending.settlementTxid returned)
  let fresh ← fetchLiveJob
  resolvePostBroadcastBaton pending fresh
    "settlement broadcast is known; waiting for the live PHOTON baton to advance past this winner"
    "settlement broadcast is known but the resulting PHOTON baton is neither authoritative nor a proven ancestor of the live baton"

/-- The parent is given to a server, once the node has no objection and the attempt is noted. -/
def preflightAndMark (cfg : RuntimeConfig) (pending : PendingSubmission) (journal : String) :
    Task Unit := do
  preflightPendingTransaction cfg "PHOTON parent" pending.parentTxid pending.parentHex
  pending.markParentAttempted journal

/-- The parent is broadcast; its acceptance is noted. -/
def broadcastParent (cfg : RuntimeConfig) (pending : PendingSubmission) (journal : String) :
    Task Unit := do
  let returned ← broadcastPendingTransaction cfg pending.parentHex
  Program.lift (ensureBroadcastTxid "PHOTON parent" pending.parentTxid returned)
  pending.markParentAccepted journal

/-- What a first broadcast in `attempt_parent_only_submission` comes to. -/
inductive FirstBroadcast where
  | accepted
  | refused (error : String)

/-- The first broadcast of a claim, before its state is looked up. -/
def broadcastFirst (cfg : RuntimeConfig) (pending : PendingSubmission) (journal : String)
    (context : ClaimContext) : Task FirstBroadcast := do
  preflightAndMark cfg pending journal
  if context.relay then .query (Op.relay pending.parentHex) else .ok ()
  let answer ← (broadcastPendingTransaction cfg pending.parentHex).attempt
  match answer with
  | .ok returned => do
    Program.lift (ensureBroadcastTxid "PHOTON parent" pending.parentTxid returned)
    return .accepted
  | .error error => if broadcastReportsKnown error then .ok .accepted else .ok (.refused error)

/-- `indexer_lags` of a claim's context, if there is one. -/
def claimLags (claim : Option ClaimContext) (fresh : LiveJob) : Task Bool :=
  match claim with
  | none => .ok false
  | some context => do
    let now : ℕ ← .query Op.now
    return context.unindexed.indexerLags fresh now

/-- The rest of `attempt_parent_only_submission`, after a first broadcast that was refused with
`broadcastError` or not made. -/
def checkParentOnly (cfg : RuntimeConfig) (pending : PendingSubmission) (journal : String)
    (claim : Option ClaimContext) (broadcastError : Option String) : Task SubmissionAttempt := do
  let parentKnown ← transactionKnown pending.parentTxid
  let fresh ← fetchLiveJob
  let indexerLags ← claimLags claim fresh
  if parentKnown || pending.resultingBatonIsAuthoritative fresh then do
    pending.markParentAccepted journal
    if pending.expectedBatonIsCurrent fresh || indexerLags then
      if claim.isSome then do
        let successor ← Program.lift (successorLiveJob pending fresh cfg)
        return .complete successor
      else .ok (.awaitingBaton "PHOTON parent is known; waiting for authoritative baton advance")
    else do
      let proven ← resultingBatonIsAuthoritativeOrDescendant pending fresh
      if proven then .ok (.complete fresh)
      else .error "PHOTON parent is known but live baton is not proven descendant"
  else do
    let parentAttempted ← pending.parentAttempted journal
    if parentAttempted then
      if pending.isDirect && !pending.expectedBatonIsCurrent fresh && !indexerLags then
        .ok (.staleUnbroadcast fresh)
      else .error (match broadcastError with
        | some error => s!"PHOTON parent broadcast was not accepted: {error}"
        | none => "PHOTON parent broadcast was attempted; awaiting authoritative acceptance")
    else if !pending.expectedBatonIsCurrent fresh && !indexerLags then .ok (.staleUnbroadcast fresh)
    else do
      preflightAndMark cfg pending journal
      broadcastParent cfg pending journal
      if claim.isSome then do
        let successor ← Program.lift (successorLiveJob pending fresh cfg)
        return .complete successor
      else do
        let next ← fetchLiveJob
        resolvePostBroadcastBaton pending next
          "PHOTON parent was accepted; waiting for authoritative baton advance"
          "PHOTON parent was accepted but live baton is not proven descendant"

/-- `attempt_parent_only_submission`. -/
def attemptParentOnlySubmission (cfg : RuntimeConfig) (pending : PendingSubmission)
    (journal : String) (claim : Option ClaimContext) : Task SubmissionAttempt :=
  if pending.isDirect = false then .error "parent-only submission requires a direct-reward journal"
  else match claim with
    | none => checkParentOnly cfg pending journal none none
    | some context => do
      let parentAttempted ← pending.parentAttempted journal
      if parentAttempted then checkParentOnly cfg pending journal (some context) none
      else do
        let first ← broadcastFirst cfg pending journal context
        match first with
        | .accepted => do
          pending.markParentAccepted journal
          let successor ← Program.lift (successorLiveJob pending context.live cfg)
          return .complete successor
        | .refused error => checkParentOnly cfg pending journal (some context) (some error)

/-- The legacy half of `attempt_pending_submission`, once neither the settlement nor the parent is
known to the server and the parent's acceptance is not noted. -/
def attemptLegacyParent (cfg : RuntimeConfig) (pending : PendingSubmission) (journal : String) :
    Task SubmissionAttempt := do
  let parentAttempted ← pending.parentAttempted journal
  let fresh ← fetchLiveJob
  if pending.parentBatonIsLive fresh then do
    pending.markParentAccepted journal
    broadcastSettlement cfg pending
  else match submissionDecision false parentAttempted (pending.expectedBatonIsCurrent fresh) with
    | .staleUnbroadcast => .ok (.staleUnbroadcast fresh)
    | .broadcastParentThenSettlement => do
      if parentAttempted then .ok () else preflightAndMark cfg pending journal
      broadcastParent cfg pending journal
      broadcastSettlement cfg pending
    -- a known parent never comes here
    | .awaitParentResolution | .broadcastSettlement =>
      .error "PHOTON parent broadcast was previously attempted but its acceptance is not yet proven; retaining the durable pending submission for retry"

/-- The legacy half of `attempt_pending_submission`. -/
def attemptLegacySubmission (cfg : RuntimeConfig) (pending : PendingSubmission) (journal : String) :
    Task SubmissionAttempt := do
  let settlementKnown ← transactionKnown pending.settlementTxid
  if settlementKnown then do
    let fresh ← fetchLiveJob
    if pending.liveBatonPrecedesSettlement fresh then
      .ok (.awaitingBaton "settlement transaction is known; waiting for the live PHOTON baton to advance past this winner")
    else do
      let proven ← resultingBatonIsAuthoritativeOrDescendant pending fresh
      if proven then .ok (.complete fresh)
      else .error "settlement transaction is known but the journaled resulting PHOTON baton is neither authoritative nor a proven ancestor of the live baton"
  else do
    let accepted ← pending.parentAccepted journal
    if accepted then broadcastSettlement cfg pending
    else do
      let parentKnown ← transactionKnown pending.parentTxid
      if parentKnown then do
        pending.markParentAccepted journal
        broadcastSettlement cfg pending
      else attemptLegacyParent cfg pending journal

/-- `attempt_pending_submission`. -/
def attemptPendingSubmission (cfg : RuntimeConfig) (pending : PendingSubmission) (journal : String)
    (claim : Option ClaimContext) : Task SubmissionAttempt := do
  Program.lift pending.validate
  Program.lift (pending.requireNetwork cfg.network)
  if pending.isDirect then attemptParentOnlySubmission cfg pending journal claim
  else attemptLegacySubmission cfg pending journal

variable [Records]

/-- The outcome of an attempt, acted upon: whether the claim is resolved. -/
def settleAttempt (pending : PendingSubmission) (journal : String) : SubmissionAttempt → Task Bool
  | .complete fresh => do
    resolveConfirmedSubmission pending fresh journal
    return true
  | .staleUnbroadcast fresh => do
    resolveStaleSubmission pending fresh journal
    return true
  | .awaitingBaton _ => .ok false

/-- The loop of `resolve_pending_before_search`, for a number of rounds; whether it ended within
them. -/
def resolveRounds (cfg : RuntimeConfig) (journal : String) (pending : PendingSubmission) :
    ℕ → Task Bool
  | 0 => .ok false
  | rounds + 1 => do
    let attempt ← attemptPendingSubmission cfg pending journal none
    let resolved ← settleAttempt pending journal attempt
    if resolved then .ok true else resolveRounds cfg journal pending rounds

/-- `resolve_pending_before_search`, for a number of rounds; whether the search may begin. -/
def resolvePendingBeforeSearch (cfg : RuntimeConfig) (journal : String) (rounds : ℕ) : Task Bool := do
  let loaded ← PendingSubmission.load journal
  match loaded with
  | none => .ok true
  | some pending => do
    Program.lift (pending.requireNetwork cfg.network)
    resolveRounds cfg journal pending rounds

/-! ## A new claim -/

/-- `Recipient`. -/
inductive Recipient where
  | miner
  | project
  | collaborator
deriving DecidableEq

/-- The mode a direct journal names. -/
def Recipient.mode : Recipient → String
  | .miner => "direct_miner"
  | .project => "direct_project"
  | .collaborator => "direct_collaborator"

/-- `VerifiedWinner`, as far as the journal needs it. -/
structure VerifiedWinner where
  generationId : ℕ
  height : ℕ
  batonTxid : List Char
  batonVout : ℕ
  digest : Bytes
  transaction : Bytes
  payout : Option (List Char)
deriving DecidableEq

/-- `PendingSubmission::from_direct`, for a reward of `amount`. -/
def PendingSubmission.fromDirect (winner : VerifiedWinner) (cfg : RuntimeConfig)
    (recipient : Recipient) (amount : ℕ) : Except String PendingSubmission := do
  let baton ← successorBaton winner.transaction (photonDeployment cfg.network)
  let parentTxid := transactionId winner.transaction
  let parentHex := Text.hexEncode winner.transaction
  let pending : PendingSubmission := {
    version := directSubmissionJournalVersion
    network := some cfg.network.asStr
    mode := some recipient.mode
    fundingOutpoint := none
    generationId := winner.generationId
    expectedHeight := winner.height
    expectedBatonTxid := winner.batonTxid
    expectedBatonVout := winner.batonVout
    parentTxid := parentTxid
    parentHex := parentHex
    settlementTxid := parentTxid
    settlementHex := parentHex
    resultingBatonTxid := parentTxid
    resultingBatonVout := 0
    resultingBatonValueSats := baton.valueSats
    minerTokenAmount := if recipient = .miner then amount else 0
    donationTokenAmount := if recipient = .miner then 0 else amount }
  pending.validate
  return pending

/-- `winner_matches_live`. -/
def winnerMatchesLive (winner : VerifiedWinner) (generationId : ℕ) (live : LiveJob) : Bool :=
  winner.generationId == generationId && winner.batonTxid == live.batonTxid &&
    winner.batonVout == live.batonVout

/-- `prepare_submission_for_network`.  `authorized` is what the payout policy and the
reconstruction of the winner say of it: to whom it pays, and how much. -/
def prepareSubmissionForNetwork (winner : VerifiedWinner) (cfg : RuntimeConfig) (generationId : ℕ)
    (live : LiveJob) (authorized : Except String (Recipient × ℕ)) (journal : String) :
    Task PendingSubmission :=
  if winnerMatchesLive winner generationId live = false then
    .error "verified winner is stale before direct reward preparation"
  else do
    let (recipient, amount) ← Program.lift authorized
    let pending ← Program.lift (PendingSubmission.fromDirect winner cfg recipient amount)
    pending.persistNew journal
    return pending

end Submission

end Pickaxe.Photon
