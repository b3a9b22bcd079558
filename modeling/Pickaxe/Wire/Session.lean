/-
# Mining sessions

A session is one connection's state: its channels with their maximum targets, the groups its
extended channels form, and the job the server published last.  The operations are the
server's own (`set_job_with_payout`, `retarget`, `revoke_job`) and the messages a device
sends (`receive`).  An operation that fails ends the connection, so it leaves no state.

Messages and frames are taken parsed.  What a Job Declaration token redeems, vardiff's
decisions and random bytes are arguments.  The lanes are the server's, shared by all its
sessions: the operations that use them take and give them.
-/
import Pickaxe.Channel.Wins
import Pickaxe.Jd.Custom

namespace Pickaxe

open Lib Merge Jd

/-- `MAX_CHANNELS`. -/
def maxChannels : ℕ := 32

/-- `MAX_GROUPED_CHANNELS`. -/
def maxGroupedChannels : ℕ := 256

/-- The lanes of a Job Declaration client's local server. -/
structure Lanes where
  next : UInt32
  /-- The layout of the last plan a job carried. -/
  compact : Bool
deriving DecidableEq

/-- A group channel: the extended channels of one payout. -/
structure Group where
  payout : List Char
  members : OrdMap UInt32 Unit

/-- What the server sends. -/
inductive Frame where
  | setTarget (channelId : UInt32) (maximumTarget : Hash)
  | newMiningJob (channelId jobId : UInt32) (minNtime : Option UInt32) (version : UInt32)
      (merkleRoot : Hash)
  | newExtendedMiningJob (channelId jobId : UInt32) (minNtime : Option UInt32) (version : UInt32)
      (versionRollingAllowed : Bool) (merklePath : List Hash)
      (coinbaseTxPrefix coinbaseTxSuffix : Bytes)
  | setNewPrevHash (channelId jobId : UInt32) (prevHash : Hash) (minNtime nbits : UInt32)
  | jobLeaves (channelId jobId : UInt32) (aux : AuxJob)
  | winProof (channelId jobId : UInt32) (share : ValidatedShare)
  | setupSuccess (flags : UInt32)
  | setupError (flags : UInt32) (code : String)
  | extensionsSuccess (granted : List UInt16)
  | openError (requestId : UInt32) (code : String)
  | openStandardSuccess (requestId channelId : UInt32) (target : Hash) (extranoncePrefix : Bytes)
      (groupChannelId : UInt32)
  | openExtendedSuccess (requestId channelId : UInt32) (target : Hash) (extranonceSize : ℕ)
      (extranoncePrefix : Bytes) (groupChannelId : UInt32)
  | updateError (channelId : UInt32) (code : String)
  | submitSuccess (channelId lastSequence : UInt32) (target : Hash)
  | submitError (channelId sequence : UInt32) (code : String)
  | customSuccess (channelId requestId jobId : UInt32)
  | customError (channelId requestId : UInt32) (code : String)

/-- A pool's Job Declaration rules, as far as a session reads them: the rollable bytes a
work-selection channel is granted. -/
structure Declarator where
  grant : ℕ

structure Session where
  network : MiningNetwork
  payout : List Char
  salt : ByteVec 12
  shareTarget : Hash
  setupFlags : Option UInt32
  nextChannel : UInt32
  channels : OrdMap UInt32 Channel
  maximumTargets : OrdMap UInt32 Hash
  /-- The job published last: its id, generation and template. -/
  current : Option (UInt32 × UInt64 × BchTemplate)
  payoutPolicy : BchPayout
  /-- A public pool, where each channel pays its user. -/
  pub : Option PublicPool
  accepted : UInt64
  rejected : UInt64
  declarator : Option Declarator
  workSelection : Bool
  /-- How many custom jobs it set so far. -/
  customJobs : UInt32
  /-- Whether its channels take lanes. -/
  lanes : Bool
  grouping : Bool
  groups : OrdMap UInt32 Group
  fixedVersion : Bool
  tokenRefusal : Option String
  donationChoice : Option (Option BchDonation)
  mergeDisclosure : Bool

namespace Session

/-- `MiningSession::new`. -/
def new (network : MiningNetwork) (payout : List Char) (salt : ByteVec 12) (shareTarget : Hash) :
    Except String Session :=
  match Config.validateCoinbaseAddress network payout with
  | .error _ => .error "invalid payout for selected network"
  | .ok _ =>
    if shareTarget = ByteVec.zero 32 then .error "share target cannot be zero"
    else .ok
      { network := network
        payout := payout
        salt := salt
        shareTarget := shareTarget
        setupFlags := none
        nextChannel := 0
        channels := OrdMap.empty
        maximumTargets := OrdMap.empty
        current := none
        payoutPolicy := default
        pub := none
        accepted := 0
        rejected := 0
        declarator := none
        workSelection := false
        customJobs := 0
        lanes := false
        grouping := false
        groups := OrdMap.empty
        fixedVersion := false
        tokenRefusal := none
        donationChoice := none
        mergeDisclosure := false }

/-- What the server sets on a new session: `set_public`, `set_declarator`,
`set_fixed_version` and `set_lanes`. -/
def configure (s : Session) (pub : Option PublicPool) (declarator : Option Declarator)
    (fixedVersion lanes : Bool) : Session :=
  { s with pub := pub, declarator := declarator, fixedVersion := fixedVersion, lanes := lanes }

end Session

/-! ## Job frames -/

/-- `frames_for`: a job's frames addressed to a channel or a group; each field has its SV2
limit. -/
def framesFor (channelId : UInt32) (kind : ChannelKind) (job : Job) (immediate : Bool) :
    Except String (List Frame) := do
  let minNtime := if immediate then some job.template.currentTime else none
  let new ← match kind with
    | .standard => .ok (Frame.newMiningJob channelId job.id minNtime job.template.version
        job.standardCoinbase.merkleRoot)
    | .extended =>
      if job.parts.merklePath.length > 255 then .error "merkle path too long"
      else if job.parts.pre.length > 65535 then .error "coinbase prefix too long"
      else if job.parts.suffix.length > 65535 then .error "coinbase suffix too long"
      else .ok (Frame.newExtendedMiningJob channelId job.id minNtime job.template.version
        (job.template.versionMask != 0) job.parts.merklePath job.parts.pre job.parts.suffix)
  .ok (new :: if immediate then [] else [.setNewPrevHash channelId job.id job.template.previousHash
    job.template.currentTime job.template.bits])

/-- `job_frames`: a channel's own. -/
def jobFrames (c : Channel) (immediate : Bool) : Except String (List Frame) :=
  match c.job with
  | none => .error "channel has no job"
  | some job => framesFor c.id c.kind job immediate

/-- Whether two jobs make one frame. -/
def Job.sameFrame (job first : Job) : Bool :=
  job.id == first.id && job.parts.pre == first.parts.pre && job.parts.suffix == first.parts.suffix &&
    job.parts.merklePath == first.parts.merklePath &&
    job.template.version == first.template.version &&
    job.template.previousHash == first.template.previousHash

/-- Each channel's own frames, one after the other. -/
def eachJobFrames (immediate : Channel → Bool) : List Channel → Except String (List Frame)
  | [] => .ok []
  | c :: rest => do
    let frames ← jobFrames c (immediate c)
    let others ← eachJobFrames immediate rest
    .ok (frames ++ others)

/-- `group_frames`: one frame for a group's members when they hold the same job, activated at
once only when every member's would be; otherwise each member's own. -/
def groupFrames (group : UInt32) (members : List Channel) (immediate : Channel → Bool) :
    Except String (List Frame) :=
  match members.head?.bind Channel.job with
  | none => .error "group has no job"
  | some first =>
    if members.all fun c => match c.job with
        | none => false
        | some job => job.sameFrame first then
      framesFor group .extended first (members.all immediate)
    else eachJobFrames immediate members

/-- The SetTarget of a settled channel, when its target changed. -/
def targetFrame (settled : Bool × Channel) : List Frame :=
  if settled.1 then [.setTarget settled.2.id settled.2.target] else []

namespace Session

variable [Hasher]

/-! ## Jobs from the server -/

/-- What `set_job_with_payout` leaves of one channel. -/
structure Sent where
  channel : Channel
  frames : List Frame
  /-- For the group broadcast: whether the job can start at once. -/
  immediate : Bool
  refusal : Option String

omit [Hasher] in
/-- Whether a channel already works on a template's parent and bits. -/
def sameTip (c : Channel) (template : BchTemplate) : Bool :=
  match c.job with
  | none => false
  | some job => job.template.previousHash == template.previousHash &&
      job.template.bits == template.bits

/-- One turn of the loop of `set_job_with_payout`. -/
def setJobOn (maximums : OrdMap UInt32 Hash) (broadcast : UInt32 → Bool)
    (random : UInt32 → ℕ → UInt8) (id : UInt32) (generation : UInt64) (template : BchTemplate)
    (payout : BchPayout) (c : Channel) : Except String Sent :=
  let immediate := sameTip c template
  match maximums.find? c.id with
  | none => .error "channel target missing"
  | some maximum =>
    if meetsTarget template.target maximum = false then
      .error "device maximum target would discard valid block work"
    else if c.customOnly then
      -- a Job Declaration client never gets the pool's jobs
      let settled := (if immediate then c else c.revoke).settle template.target none maximum
      .ok ⟨settled.2, targetFrame settled, immediate, none⟩
    else
      let tokens := c.floorFor template
      let settled := c.settle template.target tokens maximum
      let installed := settled.2.installWithPayout (random c.id) id generation template payout
      match installed.1 with
      | .error error => .error error
      | .ok _ =>
        let taken := installed.2.takeTokenRefusal
        let dropped :=
          if taken.1.isSome ∧ tokens.isSome then taken.2.dropTokenFloor maximum else (false, taken.2)
        let frames := targetFrame settled ++ targetFrame dropped
        if broadcast c.id then .ok ⟨dropped.2, frames, immediate, taken.1⟩
        else do
          let own ← jobFrames dropped.2 immediate
          .ok ⟨dropped.2, frames ++ own, immediate, taken.1⟩

omit [Hasher] in
/-- The groups that get one frame for all their members. -/
def broadcastGroups (s : Session) : List (UInt32 × Group) :=
  s.groups.entries.filter fun g => 2 ≤ g.2.members.size

omit [Hasher] in
/-- Whether a channel's job frame is its group's. -/
def isBroadcast (s : Session) (id : UInt32) : Bool :=
  s.broadcastGroups.any fun g => g.2.members.keys.contains id

omit [Hasher] in
/-- The frames of the groups, in order. -/
def eachGroupFrames (channels : OrdMap UInt32 Channel) (immediate : Channel → Bool) :
    List (UInt32 × Group) → Except String (List Frame)
  | [] => .ok []
  | g :: rest => do
    let frames ← groupFrames g.1 (g.2.members.keys.filterMap channels.find?) immediate
    let others ← eachGroupFrames channels immediate rest
    .ok (frames ++ others)

omit [Hasher] in
/-- `MiningSession::disclose`: the leaves of a channel's current job, for a client that asked
for them. -/
def disclose (s : Session) (id : UInt32) : List Frame :=
  match (s.channels.find? id).bind Channel.job with
  | none => []
  | some job =>
    match job.aux with
    | none => []
    | some aux => if aux.isEmpty = false ∧ s.mergeDisclosure then [.jobLeaves id job.id aux] else []

/-- `MiningSession::set_job_with_payout`. -/
def setJobWithPayout (s : Session) (lanes : Lanes) (random : UInt32 → ℕ → UInt8) (id : UInt32)
    (generation : UInt64) (template : BchTemplate) (payout : BchPayout) :
    Except String (Session × Lanes × List Frame) := do
  let lanes := match template.jd with
    | none => lanes
    | some plan => if s.lanes then { lanes with compact := plan.compact } else lanes
  let (sent, _) ← s.channels.mapM (fun (_ : Unit) _ c => do
    let sent ← setJobOn s.maximumTargets s.isBroadcast random id generation template payout c
    .ok (sent, ())) ()
  let channels := sent.mapValues fun _ r => r.channel
  let immediate := fun (c : Channel) => ((sent.find? c.id).map fun r => r.immediate).getD false
  let groupFrames ← eachGroupFrames channels immediate s.broadcastGroups
  let refusal := (sent.values.reverse.findSome? fun r => r.refusal).orElse fun _ => s.tokenRefusal
  let s := { s with
    current := some (id, generation, template)
    payoutPolicy := payout
    channels := channels
    tokenRefusal := refusal }
  .ok (s, lanes, (sent.values.flatMap fun r => r.frames) ++ groupFrames ++
    channels.keys.flatMap s.disclose)

/-- What `retarget` leaves of one channel. -/
structure Retargeted where
  channel : Channel
  frames : List Frame
  refusal : Option String
  /-- Whether it got a new job. -/
  job : Bool

/-- One turn of the loop of `retarget`, with the session's job counter. -/
def retargetOn (maximums : OrdMap UInt32 Hash) (desired : UInt32 → Option Hash)
    (random : UInt32 → ℕ → UInt8) (nextId : UInt32) (c : Channel) :
    Except String (Retargeted × UInt32) :=
  match maximums.find? c.id with
  | none => .error "channel target missing"
  | some maximum =>
    let retargeted := c.retarget (desired c.id) maximum
    match retargeted.1 with
    | none => .ok (⟨retargeted.2, [], none, false⟩, nextId)
    | some target =>
      let c := retargeted.2
      if c.customOnly then .ok (⟨c, [.setTarget c.id target], none, false⟩, nextId)
      else match c.job with
        | none => .error "channel has no job"
        | some job =>
          if nextId = 0xffffffff then .error "job identifiers exhausted"
          else
            let nextId := nextId + 1
            let installed :=
              c.installWithPayout (random c.id) nextId job.generation job.template job.payout
            match installed.1 with
            | .error error => .error error
            | .ok _ =>
              let taken := installed.2.takeTokenRefusal
              do
                let own ← jobFrames taken.2 true
                .ok (⟨taken.2, .setTarget c.id target :: own, taken.1, true⟩, nextId)

/-- `MiningSession::retarget`, with vardiff's decision for each channel. -/
def retarget (s : Session) (desired : UInt32 → Option Hash) (random : UInt32 → ℕ → UInt8)
    (nextId : UInt32) : Except String (Session × UInt32 × List Frame) := do
  let (done, nextId) ← s.channels.mapM
    (fun nextId _ c => retargetOn s.maximumTargets desired random nextId c) nextId
  let s := { s with
    channels := done.mapValues fun _ r => r.channel
    tokenRefusal := (done.values.reverse.findSome? fun r => r.refusal).orElse
      fun _ => s.tokenRefusal }
  .ok (s, nextId, (done.values.flatMap fun r => r.frames) ++
    (done.entries.filter fun r => r.2.job).flatMap fun r => s.disclose r.1)

omit [Hasher] in
/-- `MiningSession::revoke_job`. -/
def revokeJob (s : Session) : Session :=
  { s with current := none, channels := s.channels.mapValues fun _ c => c.revoke }

end Session

end Pickaxe
