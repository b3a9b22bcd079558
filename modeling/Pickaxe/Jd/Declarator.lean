/-
# The pool side of Job Declaration

A Full-Template client declares a job by its coinbase and its transactions' ids.  The pool looks
the transactions up in its own templates and in what clients provided before, asks for the missing
ones round by round, and keeps the job once it holds them all and its node has no objection.

The sessions share the token book and the cache of provided transactions.  What holds of a kept
job is carried through the rounds by an invariant on the declarations that wait, and through the
cache by an invariant on what stands in it.
-/
import Pickaxe.Jd.Book
import Pickaxe.Jd.Declared
import Pickaxe.Jd.Leaves
import Mathlib.Data.List.Infix

namespace Pickaxe

open Lib Journal

/-- `BchTemplate::transaction`: the transaction with an id, from the index of a pool's own template,
whose ids are the hashes of its transactions. -/
def BchTemplate.transaction [Hasher] (t : BchTemplate) (txid : Hash) : Option Bytes :=
  t.transactions.reverse.find? fun tx => doubleSha256 tx = txid

namespace Jd

/-! ## Provided transactions -/

/-- `PROVIDED_BYTES`. -/
def providedBytes : ℕ := 128 * 1024 * 1024

/-- `ProvidedTxs`: the transactions clients provided, newest kept. -/
structure ProvidedTxs where
  byId : List (Hash × Bytes)
  order : List Hash
  bytes : ℕ

namespace ProvidedTxs

/-- A pool starts without any. -/
def empty : ProvidedTxs := ⟨[], [], 0⟩

/-- `ProvidedTxs::get`. -/
def get (p : ProvidedTxs) (txid : Hash) : Option Bytes := p.byId.lookup txid

/-- The loop of `ProvidedTxs::insert`: the oldest go while the cache is too large. -/
def evict : List Hash → List (Hash × Bytes) → ℕ → ProvidedTxs
  | [], byId, bytes => ⟨byId, [], bytes⟩
  | oldest :: order, byId, bytes =>
    if bytes ≤ providedBytes then ⟨byId, oldest :: order, bytes⟩
    else match byId.lookup oldest with
      | none => evict order byId bytes
      | some tx => evict order (byId.filter fun e => e.1 != oldest) (bytes - tx.length)

/-- `ProvidedTxs::insert`. -/
def insert (p : ProvidedTxs) (txid : Hash) (tx : Bytes) : ProvidedTxs :=
  if (p.get txid).isSome then p
  else evict (p.order ++ [txid]) ((txid, tx) :: p.byId) (p.bytes + tx.length)

end ProvidedTxs

/-! ## Messages -/

/-- DeclareMiningJob. -/
structure DeclareMiningJob where
  requestId : UInt32
  miningJobToken : Bytes
  version : UInt32
  coinbaseTxPrefix : Bytes
  coinbaseTxSuffix : Bytes
  wtxidList : List Bytes
  excessData : Bytes

/-- ProvideMissingTransactions.Success. -/
structure ProvideMissingTransactionsSuccess where
  requestId : UInt32
  transactionList : List Bytes

/-- A client's message. -/
inductive Message where
  | setup (jobDeclaration : Bool) (minVersion maxVersion : UInt16) (flags : UInt32)
  | allocate (requestId : UInt32) (userIdentifier : List Char)
  | declare (request : DeclareMiningJob)
  | provide (reply : ProvideMissingTransactionsSuccess)
  | push (solution : Solution)

/-- The pool's message. -/
inductive Frame where
  | setupError (flags : UInt32) (code : String)
  | setupSuccess
  | allocated (requestId : UInt32) (token outputs : Bytes)
  | provideMissing (requestId : UInt32) (positions : List UInt16)
  | declareError (requestId : UInt32) (code : String)
  | declareSuccess (requestId : UInt32) (token : Bytes)

/-- `Pushed`: a block a solution named. -/
structure Pushed where
  parent : Hash
  hash : Hash
  height : UInt32
  block : Bytes

/-- `JdResponses`, without the dashboard's counters. -/
structure JdResponses where
  frames : List Frame
  notBefore : Option ℕ
  close : Bool
  blocks : List Pushed

/-- The answer of some frames and nothing else. -/
def JdResponses.of (frames : List Frame) : JdResponses := ⟨frames, none, false, []⟩

/-! ## The pool's node -/

/-- `Verdict`: why the pool's node did not pass a declared block. -/
inductive Verdict where
  | invalid (reason : String)
  | unavailable

/-- `node_refusal`: a refusal that only means another tip is stale. -/
def nodeRefusal (reason : String) : String :=
  let races := ["does not build on chain tip", "unknown parent", "bad-cb-height",
    "prev-blk-not-found", "inconclusive-not-best-prevblk", "time-too-old", "time-too-new"]
  if races.any fun race => decide (race.toList <:+: reason.toList) then "stale-chain-tip"
  else "invalid-job"

/-- What the pool meets while it answers: a free slot for a check, the node's verdict on a block,
and a random secret. -/
structure Node where
  slot : Bool
  verdict : Bytes → Except Verdict Unit
  secret : ByteVec 8

/-! ## Sessions -/

/-- `AcceptJd`. -/
inductive AcceptJd where
  | coinbaseOnly | fullTemplate | both

/-- `AcceptJd::allows`. -/
def AcceptJd.allows : AcceptJd → Bool → Bool
  | .coinbaseOnly, full => !full
  | .fullTemplate, full => full
  | .both, _ => true

/-- `Declarator`: what the sessions share. -/
structure Declarator where
  accept : AcceptJd
  network : MiningNetwork
  pool : PublicPool
  donation : BchDonation
  book : TokenBook DeclaredJob
  provided : ProvidedTxs
  /-- Whether the pool has a node check. -/
  validator : Bool
  nextOwner : UInt64

/-- `Context`: the pool's template now, and the latest few. -/
structure Context where
  current : Option BchTemplate
  recent : List BchTemplate

/-- `Pending`: a declaration that waits for its missing transactions. -/
structure Pending where
  started : ℕ
  rounds : ℕ
  payout : List Char
  rates : PoolRates
  version : UInt32
  shape : CoinbaseShape
  context : BchTemplate
  txids : List Hash
  found : List (Option Bytes)
  /-- The positions asked for in the latest round. -/
  asked : List UInt16
  provided : Bool

/-- `DeclaratorSession`: one client's session. -/
structure DeclaratorSession where
  owner : UInt64
  setUp : Bool
  fullTemplate : Bool
  allocations : List ℕ
  declarations : List ℕ
  pending : OrdMap UInt32 Pending
  /-- The latest declared jobs, newest last. -/
  declared : List DeclaredJob
  /-- The parent the node last checked a declaration on, and when. -/
  checked : Option (Hash × ℕ)

/-- A second, in nanoseconds. -/
def second : ℕ := 10 ^ 9

/-- `MISSING_PER_ROUND`. -/
def missingPerRound : ℕ := 2048

/-- `MAX_MISSING_ROUNDS`. -/
def maxMissingRounds : ℕ := 16

/-- `MAX_DECLARED_TXS`. -/
def maxDeclaredTxs : ℕ := 65535

/-- `DECLARED_KEPT`. -/
def declaredKept : ℕ := 8

namespace Pending

/-- The first positions without a transaction. -/
def missing (p : Pending) : List UInt16 :=
  ((p.found.zipIdx.filter fun e => e.1.isNone).map fun e => UInt16.ofNat e.2).take missingPerRound

variable [Hasher]

/-- The job of a declaration. -/
def job (p : Pending) : DeclaredJob :=
  ⟨p.shape, p.context.declared p.version (p.found.filterMap id) p.txids⟩

/-- The checks of `declare` on the coinbase's height. -/
def checkHeight (current : BchTemplate) (shape : CoinbaseShape) : Except String Unit :=
  if (heightScript current.height).isPrefixOf shape.head then .ok ()
  else if (heightScript (UInt32.ofNat (current.height.toNat - 1))).isPrefixOf shape.head ∨
      (heightScript (current.height + 1)).isPrefixOf shape.head then .error "stale-chain-tip"
  else .error "invalid-coinbase-tx"

/-- The checks of `declare` on the coinbase's outputs and the leaves behind them. -/
def checkPayout (network : MiningNetwork) (pool : PublicPool) (payout : List Char)
    (rates : PoolRates) (outputs : List (ℕ × Bytes)) (excess : Bytes) : Except String Unit := do
  let rule ← (PayoutRule.fromRates network payout pool rates).mapError
    fun _ => "invalid-mining-job-token"
  if rule.check outputs = none then .error "invalid-coinbase-tx"
  else (PayoutRule.checkLeaves network rule outputs excess).mapError fun _ => "invalid-coinbase-tx"

/-- The checks of `declare` on the transactions' ids. -/
def checkTxids (request : DeclareMiningJob) : Except String (List Hash) :=
  if maxDeclaredTxs < request.wtxidList.length then .error "invalid-job"
  else match request.wtxidList.mapM (ByteVec.ofBytes? 32) with
    | none => .error "invalid-job"
    | some txids => if ctorOrdered txids then .ok txids else .error "invalid-job"

/-- A declared transaction in the pool's templates, else among the provided ones. -/
def lookUp (templates : List BchTemplate) (provided : ProvidedTxs) (txid : Hash) : Option Bytes :=
  (templates.findSome? fun t => t.transaction txid).or (provided.get txid)

/-- `declare`, from the token to the first look at the transactions. -/
def ofRequest (declarator : Declarator) (request : DeclareMiningJob) (context : Context)
    (payout : List Char) (rates : PoolRates) (now : ℕ) : Except String Pending :=
  match context.current with
  | none => .error "stale-chain-tip"
  | some current => do
    let shape ← CoinbaseShape.parse request.coinbaseTxPrefix request.coinbaseTxSuffix
    checkHeight current shape
    checkPayout declarator.network declarator.pool payout rates shape.outputs request.excessData
    let txids ← checkTxids request
    let found := txids.map (lookUp (current :: context.recent) declarator.provided)
    if (request.version ^^^ current.version) &&& ~~~versionRollingMask ≠ 0 then .error "invalid-job"
    else .ok ⟨now, 0, payout, rates, request.version, shape, current, txids, found, [], false⟩

end Pending

namespace DeclaratorSession

variable [Hasher] [Bitcoin]

/-- `DeclaratorSession::new`. -/
def new (owner : UInt64) : DeclaratorSession :=
  ⟨owner, false, false, [], [], OrdMap.empty, [], none⟩

/-- The check of `finish`: by the node where one is due, else of the size alone. -/
def validate (session : DeclaratorSession) (declarator : Declarator) (pending : Pending) (now : ℕ)
    (node : Node) : Except String (Option (Hash × ℕ)) :=
  let parent := pending.context.previousHash
  let due := pending.provided || match session.checked with
    | none => true
    | some (checked, at_) => checked != parent || decide (60 * second ≤ now - at_)
  if declarator.validator = true ∧ due = true then do
    let candidate ← pending.job.candidate
    if node.slot = false then .error "internal-error"
    else match node.verdict candidate with
      | .ok () => .ok (some (parent, now))
      | .error (.invalid reason) => .error (nodeRefusal reason)
      | .error .unavailable => .error "internal-error"
  else if pending.job.fits = false then .error "invalid-job"
  else .ok session.checked

/-- `finish`: the job is checked and kept. -/
def finish (session : DeclaratorSession) (declarator : Declarator) (id : UInt32) (pending : Pending)
    (now : ℕ) (node : Node) : DeclaratorSession × Declarator × Except String (List Frame) :=
  match session.validate declarator pending now node with
  | .error code => (session, declarator, .error code)
  | .ok checked =>
    match declarator.book.declared session.owner pending.payout pending.rates pending.job node.secret
        now with
    | (book, .error _) =>
      ({ session with checked }, { declarator with book }, .error "internal-error")
    | (book, .ok token) =>
      let declared := session.declared ++ [pending.job]
      ({ session with checked, declared := declared.drop (declared.length - declaredKept) },
        { declarator with book }, .ok [.declareSuccess id token.encode])

/-- `advance`: asks for what is missing, or finishes. -/
def advance (session : DeclaratorSession) (declarator : Declarator) (id : UInt32) (pending : Pending)
    (now : ℕ) (node : Node) : DeclaratorSession × Declarator × Except String (List Frame) :=
  if pending.missing = [] then session.finish declarator id pending now node
  else if maxMissingRounds ≤ pending.rounds then (session, declarator, .error "missing-txs")
  else
    let pending := { pending with rounds := pending.rounds + 1, asked := pending.missing }
    ({ session with pending := session.pending.insert id pending }, declarator,
      .ok [.provideMissing id pending.asked])

/-- `declare`. -/
def declare (session : DeclaratorSession) (declarator : Declarator) (request : DeclareMiningJob)
    (context : Context) (now : ℕ) (node : Node) :
    DeclaratorSession × Declarator × Except String (List Frame) :=
  let recent := session.declarations.dropWhile fun at_ => 60 * second ≤ now - at_
  if 30 ≤ recent.length then
    ({ session with declarations := recent }, declarator, .error "invalid-job")
  else
    let session := { session with declarations := recent ++ [now] }
    match declarator.book.declare request.miningJobToken session.owner now with
    | (book, .error code) => (session, { declarator with book }, .error code)
    | (book, .ok (payout, rates)) =>
      let declarator := { declarator with book }
      match Pending.ofRequest declarator request context payout rates now with
      | .error code => (session, declarator, .error code)
      | .ok pending => session.advance declarator request.requestId pending now node

/-- The loop of `provide`: each transaction must be the one asked for. -/
def provideEach : List (UInt16 × Bytes) → Pending → ProvidedTxs → ProvidedTxs × Except String Pending
  | [], pending, provided => (provided, .ok pending)
  | (position, tx) :: rest, pending, provided =>
    match checkedTransaction tx with
    | .error _ => (provided, .error "invalid-job")
    | .ok txid =>
      if pending.txids[position.toNat]? ≠ some txid then (provided, .error "invalid-job")
      else provideEach rest { pending with found := pending.found.set position.toNat (some tx) }
        (provided.insert txid tx)

/-- `provide`. -/
def provide (pending : Pending) (reply : ProvideMissingTransactionsSuccess)
    (provided : ProvidedTxs) : ProvidedTxs × Except String Pending :=
  if reply.transactionList.length ≠ pending.asked.length then (provided, .error "invalid-job")
  else
    let result := provideEach (pending.asked.zip reply.transactionList) pending provided
    (result.1, result.2.map fun pending => { pending with provided := true })

/-- The answer to ProvideMissingTransactions.Success. -/
def receiveProvided (session : DeclaratorSession) (declarator : Declarator)
    (reply : ProvideMissingTransactionsSuccess) (now : ℕ) (node : Node) :
    DeclaratorSession × Declarator × Except String (List Frame) :=
  match session.pending.find? reply.requestId with
  -- a reply after its declaration expired finds nothing
  | none => (session, declarator, .ok [])
  | some pending =>
    let session := { session with pending := session.pending.erase reply.requestId }
    match provide pending reply declarator.provided with
    | (provided, .error code) => (session, { declarator with provided }, .error code)
    | (provided, .ok pending) =>
      session.advance { declarator with provided } reply.requestId pending now node

/-- A refusal is answered with its code. -/
def answer (id : UInt32) : Except String (List Frame) → JdResponses
  | .ok frames => .of frames
  | .error code => .of [.declareError id code]

/-- The answer to SetupConnection. -/
def receiveSetup (session : DeclaratorSession) (declarator : Declarator) (jobDeclaration : Bool)
    (minVersion maxVersion : UInt16) (flags : UInt32) : DeclaratorSession × JdResponses :=
  let full := flags &&& 1 != 0
  let error : Option (UInt32 × String) :=
    if jobDeclaration = false then some (0, "unsupported-protocol")
    else if minVersion > 2 ∨ maxVersion < 2 then some (0, "protocol-version-mismatch")
    else if flags &&& ~~~1 ≠ 0 then some (flags &&& ~~~1, "unsupported-feature-flags")
    else if declarator.accept.allows full = false then
      some (1, if full then "unsupported-feature-flags" else "missing-declare-tx-data-flag")
    else none
  match error with
  | some (flags, code) => (session, ⟨[.setupError flags code], none, true, []⟩)
  | none => ({ session with setUp := true, fullTemplate := full }, .of [.setupSuccess])

/-- The answer to AllocateMiningJobToken; one over the rate is answered late. -/
def receiveAllocate (session : DeclaratorSession) (declarator : Declarator) (requestId : UInt32)
    (identity : List Char) (now : ℕ) (node : Node) :
    DeclaratorSession × Declarator × Except String JdResponses :=
  let recent := session.allocations.dropWhile fun at_ => 60 * second ≤ now - at_
  let answerAt := if 20 ≤ recent.length then recent.getD (recent.length - 20) 0 + 60 * second
    else now
  let session := { session with allocations := recent ++ [answerAt] }
  match Payout.identityLogin declarator.network identity with
  | .error e =>
    (session, declarator,
      .error (if e = Payout.donationOptionError then Payout.donationOptionError
        else "unknown user"))
  | .ok login =>
    match PayoutRule.publicPool declarator.network login.payout declarator.pool
        (login.donation.getD declarator.donation) with
    | .error e => (session, declarator, .error e)
    | .ok rule =>
      let outputs := rule.allocatedOutputs
      match declarator.book.allocate session.owner login.payout outputs.2 session.fullTemplate
          node.secret now with
      | (book, .error e) => (session, { declarator with book }, .error e)
      | (book, .ok token) =>
        (session, { declarator with book },
          .ok ⟨[.allocated requestId token.encode (serializeOutputs outputs.1)],
            if now < answerAt then some answerAt else none, false, []⟩)

/-- The answer to PushSolution: the newest declared job it solves names the block. -/
def receivePush (session : DeclaratorSession) (solution : Solution) : JdResponses :=
  let found := session.declared.reverse.findSome? fun job => (job.solved solution).map fun s =>
    (⟨job.template.previousHash, s.1, job.template.height, s.2⟩ : Pushed)
  ⟨[], none, false, found.toList⟩

/-- `receive`: the answer to one message.  An error ends the session. -/
def receive (session : DeclaratorSession) (declarator : Declarator) (message : Message)
    (context : Context) (now : ℕ) (node : Node) :
    DeclaratorSession × Declarator × Except String JdResponses :=
  let unexpected : DeclaratorSession × Declarator × Except String JdResponses :=
    (session, declarator, .error "unexpected Job Declaration message")
  match message with
  | .setup jobDeclaration minVersion maxVersion flags =>
    if session.setUp then unexpected
    else
      let result := session.receiveSetup declarator jobDeclaration minVersion maxVersion flags
      (result.1, declarator, .ok result.2)
  | .allocate requestId identity =>
    if session.setUp then session.receiveAllocate declarator requestId identity now node
    else unexpected
  | .declare request =>
    if session.setUp && session.fullTemplate then
      let result := session.declare declarator request context now node
      (result.1, result.2.1, .ok (answer request.requestId result.2.2))
    else unexpected
  | .provide reply =>
    if session.setUp && session.fullTemplate then
      let result := session.receiveProvided declarator reply now node
      (result.1, result.2.1, .ok (answer reply.requestId result.2.2))
    else unexpected
  | .push solution =>
    if session.setUp && session.fullTemplate then
      (session, declarator, .ok (session.receivePush solution))
    else unexpected

/-- `expire`: declarations whose missing transactions did not arrive within 30 seconds. -/
def expire (session : DeclaratorSession) (now : ℕ) : DeclaratorSession × JdResponses :=
  let expired := session.pending.filter fun _ pending => 30 * second ≤ now - pending.started
  ({ session with
      pending := session.pending.filter fun _ pending => !decide (30 * second ≤ now - pending.started) },
    .of (expired.keys.map fun id => .declareError id "missing-txs"))

end DeclaratorSession

end Jd

end Pickaxe
