/-
# Block templates

A template is the work jobs are built from: a BCH block's parent, bits, target, times and
transactions, or an ASIC-exclusive token's header.  Its coinbase is built whole for a
standard channel, and cut around the extranonce for an extended one.

The main result, `coinbase_parts_agree`, says that the two agree: the parts of an extended
channel, around any extranonce of the right length, are the coinbase the pool builds for
it, with the merkle root the pool puts in the header.  The reason is the same on every path
(`coinbaseWithAux_frame`): what stands before and after the extranonce, and whether the
coinbase is accepted at all, depends on the extranonce's length only.
-/
import Pickaxe.Jd.Plan
import Pickaxe.Lib.CompactSize
import Pickaxe.Lib.Result
import Pickaxe.Payout

namespace Pickaxe

open Lib Merge Jd

/-- Chipnet's proof-of-work limit as bits. -/
def minDifficultyBits : UInt32 := 0x1d00ffff

/-- The gap after the parent's time from which a Chipnet block must carry the limit's
bits. -/
def minDifficultyGap : ℕ := 1200

/-- `channel::VERSION_ROLLING_MASK`: BIP320's version bits. -/
def versionRollingMask : UInt32 := 0x1fffe000

/-- How a token's job is laid out. -/
inductive TokenLayout where
  /-- The header is the token's commitment, the coinbase is the forwarder. -/
  | safa
  /-- A coinbase-only "block" whose output 0 commits to the token. -/
  | caseA
deriving DecidableEq

/-- An ASIC-exclusive token's job, mined instead of BCH. -/
structure TokenJob where
  token : String
  layout : TokenLayout
  /-- The version bits a device may roll; 0 keeps the version fixed. -/
  versionMask : UInt32
  anchor : Hash
  thread : OutPoint
  age : UInt16
  mtp : UInt32
deriving DecidableEq

/-- What a template's jobs are worth. -/
inductive Work where
  | block
  | token (job : TokenJob)
deriving DecidableEq

/-- Where a template's jobs come from. -/
inductive Origin where
  /-- This server's own source. -/
  | own
  /-- A Coinbase-only custom job: headers without transactions. -/
  | headerOnly
  /-- A Full-Template declaration a pool checked. -/
  | declared
deriving DecidableEq

/-- `height_script`: the minimal BIP34 push of a height. -/
def heightScript (height : UInt32) : Bytes :=
  if height = 0 then [0]
  else if height ≤ 16 then [0x50 + height.toUInt8]
  else
    let trimmed := ((u32Le height).reverse.dropWhile (· = 0)).reverse
    let bytes := if 0x80 ≤ trimmed.getLastD 0 then trimmed ++ [0] else trimmed
    UInt8.ofNat bytes.length :: bytes

/-- A template.  Only a token's job has no merkle branch to speak of, and a coinbase P2Pool
prepared starts with this template's script head. -/
structure BchTemplate where
  previousHash : Hash
  version : UInt32
  bits : UInt32
  target : Hash
  minTime : UInt32
  currentTime : UInt32
  height : UInt32
  sizeLimit : ℕ
  coinbaseValue : ℕ
  /-- The parent block's time, on Chipnet. -/
  parentTime : Option UInt32
  coinbaseFlags : Bytes
  transactions : List Bytes
  /-- The coinbase's merkle branch (index 0). -/
  merklePath : List Hash
  tokens : Option TokenSet
  origin : Origin
  jd : Option JdPlan
  p2pool : Option Prepared
  declarationId : Option UInt64
  work : Work
  /-- Devices start within the allowed times. -/
  minTime_le : minTime ≤ currentTime
  /-- Token work has no transactions and no prepared coinbase. -/
  token_plain : ∀ job, work = .token job → merklePath = [] ∧ p2pool = none
  /-- A prepared coinbase has this template's script head. -/
  p2pool_head : ∀ prepared, p2pool = some prepared →
    prepared.coinbase.head = heightScript height ++ coinbaseFlags
  /-- A token set is one `TokenSet::new` made, with at most 16 entries. -/
  tokens_fit : ∀ set, tokens = some set → set.entries.length ≤ maxTokens
deriving DecidableEq

lemma BchTemplate.no_tokens_fit :
    ∀ set : TokenSet, none = some set → set.entries.length ≤ maxTokens := by
  intro set h
  cases h

lemma BchTemplate.no_p2pool_head (t : BchTemplate) : ∀ prepared : Prepared, none = some prepared →
    prepared.coinbase.head = heightScript t.height ++ [] := by
  intro prepared h
  cases h

/-- A coinbase and the merkle root it leads to. -/
structure Coinbase where
  bytes : Bytes
  merkleRoot : Hash
deriving DecidableEq

/-- A coinbase without its extranonce, and its merkle branch. -/
structure CoinbaseParts where
  pre : Bytes
  suffix : Bytes
  merklePath : List Hash
deriving DecidableEq

namespace BchTemplate

/-! ## What a template says -/

/-- `BchTemplate::token_job`. -/
def tokenJob (t : BchTemplate) : Option TokenJob :=
  match t.work with
  | .block => none
  | .token job => some job

/-- `BchTemplate::is_block`. -/
def isBlock (t : BchTemplate) : Bool := t.work == .block

/-- `BchTemplate::is_safa`: whether the coinbase is the forwarder. -/
def isSafa (t : BchTemplate) : Bool :=
  match t.work with
  | .block => false
  | .token job => job.layout == .safa

/-- `BchTemplate::stale_from`: the first header time past Chipnet's 20-minute point. -/
def staleFrom (t : BchTemplate) : Option UInt32 :=
  if t.bits = minDifficultyBits then none
  else t.parentTime.bind fun parent =>
    if parent.toNat + (minDifficultyGap + 1) < 2 ^ 32 then
      some (UInt32.ofNat (parent.toNat + (minDifficultyGap + 1)))
    else none

/-- `BchTemplate::stale_bits`. -/
def staleBits (t : BchTemplate) (time : UInt32) : Bool :=
  match t.staleFrom with
  | none => false
  | some start => start ≤ time

/-- `BchTemplate::asert_bits`: the bits ASERT gives this template's block. -/
def asertBits (t : BchTemplate) : Option UInt32 :=
  if t.height = 0 then none
  else t.parentTime.bind fun parent => Asert.nextBits Asert.chipnet (t.height - 1) parent

/-- `BchTemplate::wrong_bits`: whether the node would refuse a header at `time` for this
template's bits. -/
def wrongBits (t : BchTemplate) (time : UInt32) : Bool :=
  t.staleBits time ||
    (t.bits == minDifficultyBits &&
      (match t.parentTime with
        | none => false
        | some parent => decide (time.toNat ≤ parent.toNat + minDifficultyGap)) &&
      (match t.asertBits with
        | none => false
        | some bits => bits != minDifficultyBits))

/-- `BchTemplate::version_mask`: the version bits a device may roll. -/
def versionMask (t : BchTemplate) : UInt32 :=
  match t.work with
  | .block => versionRollingMask
  | .token job => job.versionMask

/-- `BchTemplate::is_p2pool`. -/
def isP2pool (t : BchTemplate) : Bool :=
  match t.jd with
  | none => false
  | some plan => plan.p2pool.isSome

/-- `BchTemplate::script_head`: the height push and the flags. -/
def scriptHead (t : BchTemplate) : Bytes := heightScript t.height ++ t.coinbaseFlags

/-- `BchTemplate::declaration_id`. -/
def declarationIdOr (t : BchTemplate) (generation : UInt64) : UInt64 :=
  t.declarationId.getD generation

/-- `BchTemplate::is_header_only`. -/
def isHeaderOnly (t : BchTemplate) : Bool := t.origin == .headerOnly

/-- `BchTemplate::with_header`: this template for a custom job set on it. -/
def withHeader (t : BchTemplate) (version minNtime : UInt32) : BchTemplate :=
  { t with
    version := version
    minTime := minNtime
    currentTime := minNtime
    minTime_le := UInt32.le_refl _ }

/-- `BchTemplate::custom`: a Coinbase-only custom job's template. -/
def custom (context : BchTemplate) (version minNtime : UInt32) (merklePath : List Hash) :
    BchTemplate :=
  { previousHash := context.previousHash
    version := version
    bits := context.bits
    target := context.target
    minTime := minNtime
    currentTime := minNtime
    height := context.height
    sizeLimit := context.sizeLimit
    coinbaseValue := context.coinbaseValue
    parentTime := context.parentTime
    coinbaseFlags := []
    transactions := []
    merklePath := merklePath
    tokens := none
    origin := .headerOnly
    jd := none
    p2pool := none
    declarationId := none
    work := .block
    minTime_le := UInt32.le_refl _
    token_plain := fun _ h => by cases h
    p2pool_head := fun _ h => by cases h
    tokens_fit := fun _ h => by cases h }

/-- `BchTemplate::coinbase_budget`: the bytes a coinbase may take in a block. -/
def coinbaseBudget (t : BchTemplate) : ℕ :=
  t.sizeLimit - (80 + (compactSize (t.transactions.length + 1)).length +
    (t.transactions.map List.length).sum)

/-- `BchTemplate::tokens_refused`: why this template's token set is not merge-mined, if it
has one that is not. -/
def tokensRefused (t : BchTemplate) : Option String :=
  if t.tokens.isNone then none
  else if t.isP2pool then some "P2Pool's coinbase does not carry the token commitment yet"
  else match t.jd with
    | none => none
    | some plan =>
      if plan.fullTemplate then none
      else some ("Coinbase-only Job Declaration cannot show the pool its token leaves; " ++
        "use Full-Template")

/-- `BchTemplate::check_block_size`. -/
def checkBlockSize (t : BchTemplate) (coinbaseSize : ℕ) : Except String Unit :=
  if coinbaseSize > t.coinbaseBudget then .error "coinbase exceeds template block size budget"
  else .ok ()

/-- `BchTemplate::check_p2pool_prepared`. -/
def checkP2poolPrepared (t : BchTemplate) : Except String Unit :=
  if t.isP2pool ∧ t.p2pool = none then .error "P2Pool coinbase has not been prepared" else .ok ()

end BchTemplate

/-! ## The forwarder -/

/-- `header::TAG`: "PXH1". -/
def forwarderTag : Bytes := [0x50, 0x58, 0x48, 0x31]

/-- `header::MAX_P2S`: the longest forwarder. -/
def maxP2s : ℕ := 201

/-- `forwarder_body`: forwards a claim to `destination`. -/
def forwarderBody (destination : Bytes) : Except String Bytes :=
  if destination.isEmpty ∨ destination.length > 75 then
    .error "a forwarder destination takes 1 to 75 bytes"
  else .ok ([0xc0, 0xcd, UInt8.ofNat destination.length] ++ destination ++
    [0x88, 0xc0, 0xd1, 0xc0, 0xce, 0x88, 0xc0, 0xd3, 0xc0, 0xd0, 0x9c])

section Coinbase

variable [Hasher]

/-- `forwarder_coinbase`: a SAFA job's coinbase, whose HASH256 is the merkle root. -/
def forwarderCoinbase (extranonce destination : Bytes) : Except String Coinbase :=
  if 4 + extranonce.length > 75 then .error "extranonce exceeds the forwarder's salt"
  else do
    let body ← forwarderBody destination
    let bytes := [UInt8.ofNat (4 + extranonce.length)] ++ forwarderTag ++ extranonce ++ [0x75] ++
      body
    if bytes.length > maxP2s then .error "the forwarder exceeds 201 bytes"
    else .ok ⟨bytes, doubleSha256 bytes⟩

namespace BchTemplate

/-! ## Merge mining -/

/-- `BchTemplate::declared_aux`: the merge-mining all jobs of a Job Declaration template
share. -/
def declaredAux (t : BchTemplate) : Except String (Option AuxJob) :=
  match t.jd, t.tokens with
  | some plan, some set =>
    if t.isP2pool ∨ plan.fullTemplate = false then .ok none
    else match plan.tokenPayout with
      | none => .error "the pool's plan has no outputs"
      | some miner => do
        let slot := fun (bps : UInt16) (output : Option UInt8) =>
          match output.bind fun index => plan.scripts[index.toNat]? with
          | some script => (Slot.new bps script).mapError SplitError.display
          | none => .ok Slot.empty
        let donation ← slot plan.rates.donationBps plan.rates.donationOutput
        let fee ← slot plan.rates.feeBps plan.rates.feeOutput
        .ok (some (AuxJob.build set ⟨miner, ⟨donation, fee⟩, miner⟩))
  | _, _ => .ok none

/-- `BchTemplate::declared_outputs`: the outputs of a Job Declaration template's custom jobs, the
commitment first when tokens are merge-mined. -/
def declaredOutputs (t : BchTemplate) : Except String (List (ℕ × Bytes)) := do
  t.checkP2poolPrepared
  match t.p2pool with
  | some prepared => .ok prepared.coinbase.outputs
  | none => match t.jd with
    | none => .error "not a Job Declaration template"
    | some plan => do
      let aux ← t.declaredAux
      -- a whole output: 8 value bytes, the script's length and the script
      .ok ((aux.map fun aux => (0, aux.output.bytes.drop 9)).toList ++ plan.outputs t.coinbaseValue)

/-- `BchTemplate::aux_job`: one job's merge-mining for this template's token set, or `none`
without one. -/
def auxJob (t : BchTemplate) (network : MiningNetwork) (payout : List Char)
    (operator : Option (List Char)) (policy : BchPayout) : Except String (Option AuxJob) :=
  if t.jd.isSome then t.declaredAux
  else match t.tokens with
    | none => .ok none
    | some set => do
      let scripts ← Payout.scripts network payout operator
      let terms ← Payout.leafTerms scripts policy
      .ok (some (AuxJob.build set terms))

/-- A job's merge-mining is built on the template's own set. -/
lemma auxJob_eq_some {t : BchTemplate} {network : MiningNetwork} {payout : List Char}
    {operator : Option (List Char)} {policy : BchPayout} {aux : AuxJob}
    (h : t.auxJob network payout operator policy = .ok (some aux)) :
    ∃ set terms, t.tokens = some set ∧ aux = AuxJob.build set terms := by
  unfold auxJob at h
  split_ifs at h with hjd
  · -- the declared coinbase's
    unfold declaredAux at h
    split at h
    · rename_i plan set hplan hset
      split_ifs at h
      · cases h
      · split at h
        · cases h
        · obtain ⟨donation, -, h⟩ := Except.bind_eq_ok.mp h
          obtain ⟨fee, -, h⟩ := Except.bind_eq_ok.mp h
          cases h
          exact ⟨set, _, hset, rfl⟩
    · cases h
  · -- the miner's own
    split at h
    · cases h
    · rename_i set hset
      obtain ⟨scripts, -, h⟩ := Except.bind_eq_ok.mp h
      obtain ⟨terms, -, h⟩ := Except.bind_eq_ok.mp h
      cases h
      exact ⟨set, terms, hset, rfl⟩

/-! ## Coinbases -/

/-- One output: its amount, its script's length and its script. -/
def outputBytes (output : ℕ × Bytes) : Bytes :=
  leBytes 8 output.1 ++ compactSize output.2.length ++ output.2

/-- The coinbase script: the head, the extranonce, and zero bytes up to 15. -/
def coinbaseScript (t : BchTemplate) (extranonce : Bytes) : Bytes :=
  let script := heightScript t.height ++ t.coinbaseFlags ++ extranonce
  script ++ List.replicate (15 - script.length) 0

/-- A coinbase's bytes up to its script: version, one input with the null prevout, the
script's length. -/
def beforeScript (scriptLen : ℕ) : Bytes :=
  leBytes 4 2 ++ [1] ++ List.replicate 32 0 ++ List.replicate 4 0xff ++ compactSize scriptLen

/-- How many outputs a coinbase has. -/
def outputCount (outputs : List (ℕ × Bytes)) (commitment : Option (ByteVec 53)) : ℕ :=
  outputs.length + if commitment.isSome then 1 else 0

/-- A coinbase's bytes after its script: sequence, outputs with the commitment first, lock
time. -/
def afterScript (outputs : List (ℕ × Bytes)) (commitment : Option (ByteVec 53)) : Bytes :=
  List.replicate 4 0xff ++ compactSize (outputCount outputs commitment) ++
    (commitment.map ByteVec.bytes).getD [] ++ outputs.flatMap outputBytes ++ leBytes 4 0

/-- `BchTemplate::coinbase_with_outputs`: the coinbase paying `outputs`, with a job's
merge-mining output 0, if any. -/
def coinbaseWithOutputs (t : BchTemplate) (extranonce : Bytes) (outputs : List (ℕ × Bytes))
    (commitment : Option (ByteVec 53)) : Except String Coinbase :=
  if extranonce.length > 64 then .error "extranonce exceeds coinbase budget"
  else
    let script := t.coinbaseScript extranonce
    if script.length > 100 then .error "coinbase script exceeds 100 bytes"
    else if commitment.isSome ∧ outputCount outputs commitment ≥ 0xfd then
      .error "a merge-mined coinbase needs fewer than 253 outputs"
    else do
      let bytes := beforeScript script.length ++ script ++ afterScript outputs commitment
      t.checkBlockSize bytes.length
      .ok ⟨bytes, foldPath (doubleSha256 bytes) t.merklePath⟩

/-- The outputs a block's coinbase pays: the pool's under Job Declaration, the payout's
otherwise. -/
def coinbaseOutputs (t : BchTemplate) (network : MiningNetwork) (payout : List Char)
    (operator : Option (List Char)) (policy : BchPayout) : Except String (List (ℕ × Bytes)) :=
  match t.jd with
  | some plan => .ok (plan.outputs t.coinbaseValue)
  | none => do
    let scripts ← Payout.scripts network payout operator
    .ok (Payout.outputs t.coinbaseValue scripts policy)

/-- `BchTemplate::coinbase_with_aux`: the coinbase with a job's merge-mining output 0, if
any. -/
def coinbaseWithAux (t : BchTemplate) (network : MiningNetwork) (payout : List Char)
    (operator : Option (List Char)) (extranonce : Bytes) (policy : BchPayout)
    (aux : Option (ByteVec 53)) : Except String Coinbase := do
  t.checkP2poolPrepared
  match t.p2pool with
  | some prepared =>
    if aux.isSome then .error "P2Pool coinbase does not carry this token proof format"
    else match prepared.coinbase.coinbase extranonce with
      | none => .error "P2Pool extranonce length changed"
      | some bytes => do
        t.checkBlockSize bytes.length
        .ok ⟨bytes, foldPath (doubleSha256 bytes) t.merklePath⟩
  | none =>
    if t.isSafa then do
      let scripts ← Payout.scripts network payout operator
      forwarderCoinbase extranonce (Payout.beneficiary scripts policy)
    else do
      let outputs ← t.coinbaseOutputs network payout operator policy
      t.coinbaseWithOutputs extranonce outputs aux

/-- The place of the extranonce in the coinbase. -/
def extranonceOffset (t : BchTemplate) : ℕ :=
  if t.isSafa then 1 + forwarderTag.length
  else 4 + 1 + 32 + 4 + 1 + (heightScript t.height).length + t.coinbaseFlags.length

/-- `BchTemplate::split`: the parts of a coinbase around an extranonce of
`extranonceLen` bytes. -/
def split (t : BchTemplate) (coinbase : Coinbase) (extranonceLen : ℕ) : CoinbaseParts :=
  { pre := coinbase.bytes.take t.extranonceOffset
    suffix := coinbase.bytes.drop (t.extranonceOffset + extranonceLen)
    merklePath := t.merklePath }

/-- `BchTemplate::coinbase_parts_with_aux`. -/
def coinbasePartsWithAux (t : BchTemplate) (network : MiningNetwork) (payout : List Char)
    (operator : Option (List Char)) (extranonceLen : ℕ) (policy : BchPayout)
    (aux : Option (ByteVec 53)) : Except String CoinbaseParts :=
  if extranonceLen > 64 then .error "extranonce exceeds coinbase budget"
  else do
    let coinbase ← t.coinbaseWithAux network payout operator (List.replicate extranonceLen 0)
      policy aux
    .ok (t.split coinbase extranonceLen)

/-- `BchTemplate::header`: the 80 bytes devices hash. -/
def header (t : BchTemplate) (coinbase : Coinbase) (version time nonce : UInt32) :
    Except String (ByteVec 80) :=
  if time < t.minTime then .error "header time is below mintime"
  else .ok ⟨u32Le version ++ t.previousHash.bytes ++ coinbase.merkleRoot.bytes ++ u32Le time ++
    u32Le t.bits ++ u32Le nonce, by simp⟩

omit [Hasher] in
/-- A header carries its coinbase's merkle root at bytes 36..68. -/
lemma slice_header {t : BchTemplate} {c : Coinbase} {version time nonce : UInt32}
    {header : ByteVec 80} (h : t.header c version time nonce = .ok header) :
    slice header.bytes 36 68 = c.merkleRoot.bytes := by
  obtain ⟨-, h⟩ := Except.ite_error_eq_ok.mp h
  cases h
  have hsplit : u32Le version ++ t.previousHash.bytes ++ c.merkleRoot.bytes ++ u32Le time ++
      u32Le t.bits ++ u32Le nonce = (u32Le version ++ t.previousHash.bytes) ++ c.merkleRoot.bytes ++
        (u32Le time ++ u32Le t.bits ++ u32Le nonce) := by
    simp only [List.append_assoc]
  exact (congrArg (fun b => slice b 36 68) hsplit).trans (slice_append (by simp) (by simp))

/-! ## Blocks -/

omit [Hasher] in
/-- `BchTemplate::assemble`: the header, the count, the coinbase and the transactions. -/
def assemble (t : BchTemplate) (coinbase : Bytes) (header : ByteVec 80) : Bytes :=
  header.bytes ++ compactSize (t.transactions.length + 1) ++ coinbase ++ t.transactions.flatten

/-- `BchTemplate::block`: a whole block, whose header belongs to this template. -/
def block (t : BchTemplate) (coinbase : Coinbase) (header : ByteVec 80) : Except String Bytes :=
  if t.isHeaderOnly then .error "a custom job's template has no transactions"
  else if t.isBlock = false then .error "token work is not a BCH block"
  else do
    t.checkBlockSize coinbase.bytes.length
    if slice header.bytes 4 36 ≠ t.previousHash.bytes ∨
        slice header.bytes 36 68 ≠ (foldPath (doubleSha256 coinbase.bytes) t.merklePath).bytes ∨
        slice header.bytes 72 76 ≠ u32Le t.bits then
      .error "block header does not belong to this template"
    else .ok (t.assemble coinbase.bytes header)

lemma block_eq_ok {t : BchTemplate} {coinbase : Coinbase} {header : ByteVec 80} {bytes : Bytes}
    (h : t.block coinbase header = .ok bytes) : bytes = t.assemble coinbase.bytes header := by
  obtain ⟨-, h⟩ := Except.ite_error_eq_ok.mp h
  obtain ⟨-, h⟩ := Except.ite_error_eq_ok.mp h
  obtain ⟨-, -, h⟩ := Except.bind_eq_ok.mp h
  obtain ⟨-, h⟩ := Except.ite_error_eq_ok.mp h
  exact (Except.ok.inj h).symm

/-! ## The extranonce's frame -/

/-- A way to build coinbases has a frame at `offset` for extranonces of length `n`: each
such extranonce is accepted, and its coinbase is the extranonce between the same bytes. -/
def Framed (t : BchTemplate) (build : Bytes → Except String Coinbase) (offset n : ℕ) : Prop :=
  ∃ pre suffix : Bytes, pre.length = offset ∧ ∀ e : Bytes, e.length = n →
    build e = .ok ⟨pre ++ e ++ suffix, foldPath (doubleSha256 (pre ++ e ++ suffix)) t.merklePath⟩

/-- A P2Pool coinbase is prepared around its extranonce. -/
lemma framed_prepared {t : BchTemplate} {prepared : Prepared} (hprepared : t.p2pool = some prepared)
    {e : Bytes} {c : Coinbase} {build : Bytes → Except String Coinbase}
    (hbuild : ∀ e, build e = match prepared.coinbase.coinbase e with
      | none => .error "P2Pool extranonce length changed"
      | some bytes => do
        t.checkBlockSize bytes.length
        .ok ⟨bytes, foldPath (doubleSha256 bytes) t.merklePath⟩)
    (h : build e = .ok c) : t.Framed build t.extranonceOffset e.length := by
  have hblock : t.isSafa = false := by
    cases hwork : t.work with
    | block => simp [isSafa, hwork]
    | token job =>
      rw [(t.token_plain job hwork).2] at hprepared
      cases hprepared
  refine ⟨prepared.coinbase.pre, prepared.coinbase.suffix, ?_, ?_⟩
  · rw [prepared.coinbase.length_pre, t.p2pool_head prepared hprepared, extranonceOffset, hblock,
      List.length_append]
    simp
    omega
  · intro e' hlen
    rw [hbuild] at h ⊢
    unfold CoinbaseShape.coinbase at h ⊢
    rw [hlen]
    split at h
    · rename_i hnone
      split at hnone
      · cases h
      · cases hnone
    · rename_i bytes hbytes
      split at hbytes
      · cases hbytes
      rename_i hok
      obtain rfl := Option.some.inj hbytes
      rw [if_neg hok]
      obtain ⟨_, hsize, -⟩ := Except.bind_eq_ok.mp h
      refine Except.bind_eq_ok.mpr ⟨(), ?_, rfl⟩
      rw [← hsize]
      simp [hlen]

/-- A forwarder carries its extranonce after the push and the tag. -/
lemma framed_forwarder {t : BchTemplate} (hsafa : t.isSafa = true) {destination e : Bytes}
    {c : Coinbase} (h : forwarderCoinbase e destination = .ok c) :
    t.Framed (fun e => forwarderCoinbase e destination) t.extranonceOffset e.length := by
  unfold forwarderCoinbase at h
  obtain ⟨hpush, h⟩ := Except.ite_error_eq_ok.mp h
  obtain ⟨body, hbody, h⟩ := Except.bind_eq_ok.mp h
  obtain ⟨hsize, -⟩ := Except.ite_error_eq_ok.mp h
  have hpath : t.merklePath = [] := by
    cases hwork : t.work with
    | block => simp [isSafa, hwork] at hsafa
    | token job => exact (t.token_plain job hwork).1
  refine ⟨[UInt8.ofNat (4 + e.length)] ++ forwarderTag, [0x75] ++ body, ?_, ?_⟩
  · simp [extranonceOffset, hsafa, forwarderTag]
  · intro e' hlen
    have hbytes : ∀ x : Bytes, [UInt8.ofNat (4 + e.length)] ++ forwarderTag ++ x ++ [0x75] ++ body =
        [UInt8.ofNat (4 + e.length)] ++ forwarderTag ++ x ++ ([0x75] ++ body) := by
      intro x
      rw [List.append_assoc _ [0x75] body]
    simp only [forwarderCoinbase, hlen]
    refine Except.ite_error_eq_ok.mpr ⟨hpush, Except.bind_eq_ok.mpr ⟨body, hbody, ?_⟩⟩
    refine Except.ite_error_eq_ok.mpr ⟨?_, ?_⟩
    · simpa [hlen] using hsize
    · rw [hbytes, hpath]
      rfl

/-- A coinbase that pays outputs carries its extranonce after the script head; the padding
follows it. -/
lemma framed_outputs {t : BchTemplate} (hblock : t.isSafa = false) {e : Bytes}
    {outputs : List (ℕ × Bytes)} {commitment : Option (ByteVec 53)} {c : Coinbase}
    (h : t.coinbaseWithOutputs e outputs commitment = .ok c) :
    t.Framed (fun e => t.coinbaseWithOutputs e outputs commitment) t.extranonceOffset
      e.length := by
  unfold coinbaseWithOutputs at h
  obtain ⟨hlong, h⟩ := Except.ite_error_eq_ok.mp h
  obtain ⟨hscript, h⟩ := Except.ite_error_eq_ok.mp h
  obtain ⟨hcount, h⟩ := Except.ite_error_eq_ok.mp h
  obtain ⟨_, hsize, -⟩ := Except.bind_eq_ok.mp h
  -- the script's length is that of any extranonce as long as `e`
  have hsame : ∀ e' : Bytes, e'.length = e.length →
      (t.coinbaseScript e').length = (t.coinbaseScript e).length := by
    intro e' hlen
    simp [coinbaseScript, hlen]
  refine ⟨beforeScript (t.coinbaseScript e).length ++ heightScript t.height ++ t.coinbaseFlags,
    List.replicate (15 - (heightScript t.height ++ t.coinbaseFlags ++ e).length) 0 ++
      afterScript outputs commitment, ?_, ?_⟩
  · have hone : (compactSize (t.coinbaseScript e).length).length = 1 := by
      rw [compactSize_of_lt (by omega), List.length_singleton]
    simp only [beforeScript, extranonceOffset, hblock, List.length_append, List.length_replicate,
      length_leBytes, List.length_singleton, hone]
    simp
  · intro e' hlen
    have hbytes : beforeScript (t.coinbaseScript e').length ++ t.coinbaseScript e' ++
        afterScript outputs commitment =
        beforeScript (t.coinbaseScript e).length ++ heightScript t.height ++ t.coinbaseFlags ++ e' ++
          (List.replicate (15 - (heightScript t.height ++ t.coinbaseFlags ++ e).length) 0 ++
            afterScript outputs commitment) := by
      rw [hsame e' hlen]
      simp [coinbaseScript, hlen]
    simp only [coinbaseWithOutputs]
    rw [hlen, hbytes, hsame e' hlen]
    refine Except.ite_error_eq_ok.mpr ⟨hlong, Except.ite_error_eq_ok.mpr ⟨hscript, ?_⟩⟩
    refine Except.ite_error_eq_ok.mpr ⟨hcount, Except.bind_eq_ok.mpr ⟨(), ?_, rfl⟩⟩
    rw [← hbytes, ← hsize]
    simp only [List.length_append, hsame e' hlen]

/-- Whatever the template, a coinbase's bytes around the extranonce, and whether it is built
at all, depend on the extranonce's length only. -/
lemma framed_coinbaseWithAux {t : BchTemplate} {network : MiningNetwork} {payout : List Char}
    {operator : Option (List Char)} {e : Bytes} {policy : BchPayout} {aux : Option (ByteVec 53)}
    {c : Coinbase} (h : t.coinbaseWithAux network payout operator e policy aux = .ok c) :
    t.Framed (fun e => t.coinbaseWithAux network payout operator e policy aux) t.extranonceOffset
      e.length := by
  unfold coinbaseWithAux at h
  obtain ⟨_, hready, h⟩ := Except.bind_eq_ok.mp h
  have hframed : ∀ {build : Bytes → Except String Coinbase},
      t.Framed build t.extranonceOffset e.length →
      (∀ e, t.coinbaseWithAux network payout operator e policy aux = build e) →
      t.Framed (fun e => t.coinbaseWithAux network payout operator e policy aux)
        t.extranonceOffset e.length := by
    intro build hbuild heq
    rwa [funext heq]
  split at h
  · -- P2Pool prepared the coinbase
    rename_i prepared hprepared
    obtain ⟨haux, h⟩ := Except.ite_error_eq_ok.mp h
    refine hframed (framed_prepared hprepared (fun _ => rfl) h) fun e' => ?_
    unfold coinbaseWithAux
    rw [hready, hprepared]
    exact if_neg haux
  · rename_i hnone
    split at h
    · -- the forwarder
      rename_i hsafa
      obtain ⟨scripts, hscripts, h⟩ := Except.bind_eq_ok.mp h
      refine hframed (framed_forwarder hsafa h) fun e' => ?_
      unfold coinbaseWithAux
      rw [hready, hnone, if_pos hsafa, hscripts]
      rfl
    · -- a coinbase that pays the pool's outputs or the payout's
      rename_i hblock
      obtain ⟨outputs, houtputs, h⟩ := Except.bind_eq_ok.mp h
      refine hframed (framed_outputs (Bool.eq_false_iff.mpr hblock) h) fun e' => ?_
      unfold coinbaseWithAux
      rw [hready, hnone, if_neg hblock, houtputs]
      rfl

/-- The parts around an extranonce of the right length are the coinbase built for it. -/
lemma coinbaseWithAux_of_parts {t : BchTemplate} {network : MiningNetwork} {payout : List Char}
    {operator : Option (List Char)} {n : ℕ} {policy : BchPayout} {aux : Option (ByteVec 53)}
    {p : CoinbaseParts} (h : t.coinbasePartsWithAux network payout operator n policy aux = .ok p)
    {e : Bytes} (he : e.length = n) :
    p.merklePath = t.merklePath ∧ t.coinbaseWithAux network payout operator e policy aux =
      .ok ⟨p.pre ++ e ++ p.suffix, foldPath (doubleSha256 (p.pre ++ e ++ p.suffix)) t.merklePath⟩ := by
  unfold coinbasePartsWithAux at h
  obtain ⟨-, h⟩ := Except.ite_error_eq_ok.mp h
  obtain ⟨c0, hc0, h⟩ := Except.bind_eq_ok.mp h
  obtain ⟨pre, suffix, hpre, hbuild⟩ := framed_coinbaseWithAux hc0
  rw [List.length_replicate] at hbuild
  -- the coinbase the parts are cut from is the one of the zero extranonce
  have hzero := hbuild (List.replicate n 0) List.length_replicate
  obtain rfl := Except.ok.inj (hzero.symm.trans hc0)
  have htake : (pre ++ List.replicate n 0 ++ suffix).take t.extranonceOffset = pre := by
    rw [List.append_assoc, List.take_left' hpre]
  have hdrop : (pre ++ List.replicate n 0 ++ suffix).drop (t.extranonceOffset + n) = suffix :=
    List.drop_left' (by rw [List.length_append, List.length_replicate, hpre])
  cases h
  simp only [split, htake, hdrop]
  exact ⟨trivial, hbuild e he⟩

/-- An extended channel's coinbase agrees with the pool's own: around every extranonce of the
right length the parts are the coinbase the pool builds for it, and its double SHA-256 folded
over the template's merkle path is the merkle root the pool puts in the header. -/
theorem coinbase_parts_agree {t : BchTemplate} {network : MiningNetwork} {payout : List Char}
    {operator : Option (List Char)} {n : ℕ} {policy : BchPayout} {aux : Option (ByteVec 53)}
    {p : CoinbaseParts} (h : t.coinbasePartsWithAux network payout operator n policy aux = .ok p)
    {e : Bytes} (he : e.length = n) :
    ∃ c, t.coinbaseWithAux network payout operator e policy aux = .ok c ∧
      c.bytes = p.pre ++ e ++ p.suffix ∧ p.merklePath = t.merklePath ∧
      foldPath (doubleSha256 (p.pre ++ e ++ p.suffix)) t.merklePath = c.merkleRoot ∧
      ∀ version time nonce header, t.header c version time nonce = .ok header →
        slice header.bytes 36 68 =
          (foldPath (doubleSha256 (p.pre ++ e ++ p.suffix)) t.merklePath).bytes := by
  obtain ⟨hpath, hbuild⟩ := coinbaseWithAux_of_parts h he
  refine ⟨_, hbuild, rfl, hpath, rfl, ?_⟩
  intro version time nonce header hheader
  exact slice_header hheader

end BchTemplate

end Coinbase

/-! ### A template on Chipnet -/

namespace BchTemplate

/-- A block template at height 300,000 with one other transaction. -/
def sample : BchTemplate :=
  { previousHash := ByteVec.zero 32
    version := 0x20000000
    bits := 0x1d00ffff
    target := targetOfNat (0xffff * 2 ^ 208)
    minTime := 1775336000
    currentTime := 1775336600
    height := 300000
    sizeLimit := 32000000
    coinbaseValue := 312500000
    parentTime := some 1775336127
    coinbaseFlags := []
    transactions := [List.replicate 100 0]
    merklePath := [ByteVec.zero 32]
    tokens := none
    origin := .own
    jd := none
    p2pool := none
    declarationId := none
    work := .block
    minTime_le := by decide
    token_plain := fun _ h => by cases h
    p2pool_head := fun _ h => by cases h
    tokens_fit := fun _ h => by cases h }

/-- Its coinbase around eight bytes: a script of 15 bytes with three of padding, and one
output. -/
def sampleParts : CoinbaseParts :=
  { pre := beforeScript 15 ++ [0x03, 0xe0, 0x93, 0x04]
    suffix := [0, 0, 0] ++ afterScript [(312500000, [0x76, 0xa9, 0x14, 0xc4, 0x0a, 0x24, 0xbf, 0x5b,
      0x3c, 0xfe, 0x56, 0x1c, 0xf3, 0x6a, 0xfe, 0xa1, 0xb5, 0x9f, 0xe6, 0x13, 0x83, 0xe8, 0x06, 0x88,
      0xac])] none
    merklePath := [ByteVec.zero 32] }

theorem coinbase_parts_agree_sample :
    ∃ c, @coinbaseWithAux Hasher.fips sample .chipnet (donationAddress .chipnet) none
        [1, 2, 3, 4, 5, 6, 7, 8] default none = .ok c ∧
      c.bytes = sampleParts.pre ++ [1, 2, 3, 4, 5, 6, 7, 8] ++ sampleParts.suffix ∧
      sampleParts.merklePath = sample.merklePath ∧
      @foldPath Hasher.fips (@doubleSha256 Hasher.fips
        (sampleParts.pre ++ [1, 2, 3, 4, 5, 6, 7, 8] ++ sampleParts.suffix)) sample.merklePath =
        c.merkleRoot ∧
      ∀ version time nonce header, sample.header c version time nonce = .ok header →
        slice header.bytes 36 68 = (@foldPath Hasher.fips (@doubleSha256 Hasher.fips
          (sampleParts.pre ++ [1, 2, 3, 4, 5, 6, 7, 8] ++ sampleParts.suffix))
            sample.merklePath).bytes :=
  @coinbase_parts_agree Hasher.fips sample .chipnet (donationAddress .chipnet) none 8 default none
    sampleParts (by decide +kernel) [1, 2, 3, 4, 5, 6, 7, 8] rfl

end BchTemplate

end Pickaxe
