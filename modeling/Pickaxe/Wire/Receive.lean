/-
# Messages from devices

`Session.receive` answers one parsed message: it opens, updates and closes channels, sets a
Job Declaration client's custom jobs and checks shares.
-/
import Pickaxe.Wire.Session

namespace Pickaxe

open Lib Merge Jd

/-- A SetupConnection, as far as a session reads it. -/
structure SetupConnection where
  /-- Whether it asks for the mining protocol. -/
  mining : Bool
  minVersion : UInt16
  maxVersion : UInt16
  flags : UInt32
  vendor : String
  firmware : String

/-- An OpenStandardMiningChannel or OpenExtendedMiningChannel. -/
structure OpenRequest where
  requestId : UInt32
  kind : ChannelKind
  /-- Whether the nominal hash rate is finite and not negative. -/
  validRate : Bool
  maximum : Hash
  minExtranonceSize : UInt16
  identity : List Char

/-- What a device sends. -/
inductive Message where
  | setupConnection (setup : SetupConnection)
  | requestExtensions (asked : List UInt16)
  | openChannel (request : OpenRequest)
  | submitShares (kind : ChannelKind) (share : Share)
  | updateChannel (channelId : UInt32) (validRate : Bool) (maximum : Hash)
  | closeChannel (channelId : UInt32)
  /-- With what its token redeems. -/
  | setCustomMiningJob (request : SetCustomMiningJob) (redeemed : Except String Custom)
  /-- Any other mining message. -/
  | unsupported

/-- What a message makes the server send and do. -/
structure Responses where
  frames : List Frame
  blocks : List ValidatedShare
  tokenWins : List ValidatedShare
  shareEvent : Option (Except String Hash)
  acceptedWork : Option (Hash × BchPayout)
  customJob : Option (Except String Unit)
  forward : List ForwardShare
  headerWins : List ValidatedShare

namespace Responses

def ofFrames (frames : List Frame) : Responses := ⟨frames, [], [], none, none, none, [], []⟩

end Responses

/-- `disclosure::EXTENSION`. -/
def mergeExtension : UInt16 := 0x4d4d

namespace Session

/-- The setup a session refuses: flags and error code. -/
def setupRefusal (s : Session) (setup : SetupConnection) : Option (UInt32 × String) :=
  let allowed : UInt32 := if s.declarator.isSome then 7 else 5
  if setup.mining = false then some (0, "unsupported-protocol")
  else if setup.minVersion > 2 ∨ setup.maxVersion < 2 then some (0, "protocol-version-mismatch")
  else if setup.flags &&& ~~~allowed ≠ 0 then
    some (setup.flags &&& ~~~allowed, "unsupported-feature-flags")
  else if s.fixedVersion ∧ setup.flags &&& 4 ≠ 0 then some (4, "unsupported-feature-flags")
  else none

/-- The SetupConnection arm of `receive`. -/
def setup (s : Session) (setup : SetupConnection) : Except String (Session × List Frame) :=
  if s.setupFlags.isSome then .error "unexpected setup message"
  else match s.setupRefusal setup with
    | some (flags, code) => .ok ({ s with workSelection := false }, [.setupError flags code])
    | none => .ok ({ s with
        workSelection := setup.flags &&& 2 != 0
        setupFlags := some setup.flags
        grouping := setup.flags &&& 1 == 0 &&
          !(setup.vendor == "Pickaxe SV1 adapter" && setup.firmware.isEmpty) },
        [.setupSuccess (if s.fixedVersion then 1 else 0)])

/-! ## Opening -/

/-- The layout of a lane opened now. -/
def laneCompact (s : Session) (lanes : Lanes) : Bool :=
  s.lanes && match s.current.bind fun current => current.2.2.jd with
    | none => lanes.compact
    | some plan => plan.compact

/-- The rollable bytes a channel opened now gets. -/
def openRollable (s : Session) (lanes : Lanes) (kind : ChannelKind) : ℕ :=
  if s.workSelection ∧ kind = .extended then (s.declarator.map Declarator.grant).getD jdRollable
  else if s.laneCompact lanes then compactDeviceExtranonce
  else deviceExtranonceSize

/-- The first refusals of `open`, in order. -/
def openRefusal (s : Session) (lanes : Lanes) (request : OpenRequest) : Option String :=
  if s.workSelection ∧ request.kind = .standard then
    some "standard-channels-not-supported-for-custom-work"
  else if request.validRate = false then some "invalid-nominal-hashrate"
  else if request.minExtranonceSize.toNat > s.openRollable lanes request.kind then
    some "unsupported-min-extranonce-size"
  else if request.maximum = ByteVec.zero 32 then some "max-target-out-of-range"
  else if s.channels.size ≥ (if s.grouping then maxGroupedChannels else maxChannels) ∨
      s.nextChannel ≥ 0xfffffffe then some "channel-capacity-exhausted"
  else if s.current.isNone then some "no-template-available"
  else none

/-- Who a channel opened by `identity` pays and its donation choice, or why it is refused. -/
def openLogin (s : Session) (identity : List Char) : Except String Login :=
  match s.pub with
  | none => .ok ⟨s.payout, none⟩
  | some _ =>
    match Payout.identityLogin s.network identity with
    | .ok login =>
      match s.donationChoice with
      | none => .ok login
      | some choice => if choice ≠ login.donation then .error "donation-mismatch" else .ok login
    | .error error =>
      if error = Payout.donationOptionError then .error "invalid-donation"
      else .error "unknown-user"

/-- The channel `open` makes, before its first job: the session's salt and its own id, or a
lane. -/
def newChannel (s : Session) (lanes : Lanes) (kind : ChannelKind) (id : UInt32) (login : Login) :
    Except String Channel := do
  let c ← Channel.new id kind s.shareTarget s.salt s.network login.payout
  let c ← match s.pub with
    | none => .ok c
    | some pool => do
      let c ← c.setOperator (some pool.address)
      .ok (c.setDonation login.donation)
  let c := if s.lanes then c.setLane lanes.next (s.laneCompact lanes) else c
  .ok (if s.workSelection ∧ kind = .extended then c.setCustomOnly (s.openRollable lanes kind) else c)

/-- The group a new extended channel joins and the groups afterwards: its payout's, made with
the next id when it is the first. -/
def joinGroup (s : Session) (payout : List Char) (id : UInt32) :
    UInt32 × UInt32 × OrdMap UInt32 Group :=
  match s.groups.entries.find? fun g => g.2.payout = payout with
  | some (group, members) =>
    (group, s.nextChannel, s.groups.insert group { members with
      members := members.members.insert id () })
  | none =>
    let group := s.nextChannel + 1
    (group, group, s.groups.insert group ⟨payout, OrdMap.empty.insert id ()⟩)

variable [Hasher]

/-- `open` on a Job Declaration client's channel: no job of the pool's. -/
def openCustom (s : Session) (request : OpenRequest) (rollable : ℕ) (template : BchTemplate)
    (c : Channel) : Session × List Frame :=
  let c := (c.settle template.target none request.maximum).2
  ({ s with
    maximumTargets := s.maximumTargets.insert c.id request.maximum
    channels := s.channels.insert c.id c },
    [.openExtendedSuccess request.requestId c.id c.target rollable c.extranoncePrefix 0])

/-- `open` on a device's channel: its first job, and its group. -/
def openDevice (s : Session) (random : ℕ → UInt8) (request : OpenRequest) (payout : List Char)
    (id : UInt32) (generation : UInt64) (template : BchTemplate) (c : Channel) :
    Except String (Session × List Frame) :=
  let tokens := c.floorFor template
  let settled := c.settle template.target tokens request.maximum
  let installed := settled.2.installWithPayout random id generation template s.payoutPolicy
  match installed.1 with
  | .error error => .error error
  | .ok _ =>
    let taken := installed.2.takeTokenRefusal
    let c := if taken.1.isSome then (taken.2.dropTokenFloor request.maximum).2 else taken.2
    let s := { s with tokenRefusal := taken.1.orElse fun _ => s.tokenRefusal }
    let joined :=
      if s.grouping ∧ request.kind = .extended then s.joinGroup payout c.id
      else (0, s.nextChannel, s.groups)
    let success := match request.kind with
      | .standard => Frame.openStandardSuccess request.requestId c.id c.target c.extranoncePrefix 0
      | .extended => Frame.openExtendedSuccess request.requestId c.id c.target c.rolled
          c.extranoncePrefix joined.1
    do
      let frames ← jobFrames c false
      let s := { s with
        nextChannel := joined.2.1
        groups := joined.2.2
        maximumTargets := s.maximumTargets.insert c.id request.maximum
        channels := s.channels.insert c.id c }
      .ok (s, success :: frames ++ s.disclose c.id)

/-- `MiningSession::open`. -/
def openChannel (s : Session) (lanes : Lanes) (random : ℕ → UInt8) (request : OpenRequest) :
    Except String (Session × Lanes × List Frame) :=
  match s.openRefusal lanes request, s.current with
  | some code, _ => .ok (s, lanes, [.openError request.requestId code])
  | none, none => .ok (s, lanes, [.openError request.requestId "no-template-available"])
  | none, some (id, generation, template) =>
    if meetsTarget template.target request.maximum = false then
      .ok (s, lanes, [.openError request.requestId "max-target-out-of-range"])
    else match s.openLogin request.identity with
      | .error code => .ok (s, lanes, [.openError request.requestId code])
      | .ok login => do
        let s := { s with
          donationChoice := if s.pub.isSome then some login.donation else s.donationChoice
          nextChannel := s.nextChannel + 1 }
        let c ← s.newChannel lanes request.kind s.nextChannel login
        let after := if s.lanes then { lanes with next := lanes.next + 1 } else lanes
        if s.workSelection ∧ request.kind = .extended then
          let opened := s.openCustom request (s.openRollable lanes request.kind) template c
          .ok (opened.1, after, opened.2)
        else do
          let opened ← s.openDevice random request login.payout id generation template c
          .ok (opened.1, after, opened.2)

/-! ## The other messages -/

omit [Hasher] in
/-- The UpdateChannel arm of `receive`. -/
def updateChannel (s : Session) (id : UInt32) (validRate : Bool) (maximum : Hash) :
    Session × List Frame :=
  match s.channels.find? id with
  | none => (s, [.updateError id "invalid-channel-id"])
  | some c =>
    if validRate = false then (s, [.updateError id "invalid-nominal-hashrate"])
    else if meetsTarget c.target maximum = false then (s, [.updateError id "max-target-out-of-range"])
    else ({ s with maximumTargets := s.maximumTargets.insert id maximum }, [.setTarget id c.target])

omit [Hasher] in
/-- The groups without the channels `closed`, empty ones left out. -/
def leaveGroups (groups : OrdMap UInt32 Group) (closed : List UInt32) : OrdMap UInt32 Group :=
  (groups.mapValues fun _ g => { g with
    members := closed.foldl (fun members id => members.erase id) g.members }).filter
      fun _ g => g.members.size ≠ 0

omit [Hasher] in
/-- The CloseChannel arm of `receive`: closing a group closes its members. -/
def closeChannel (s : Session) (id : UInt32) : Session :=
  let closed := match s.groups.find? id with
    | none => [id]
    | some group => group.members.keys
  { s with
    channels := closed.foldl (fun channels id => channels.erase id) s.channels
    maximumTargets := closed.foldl (fun maximums id => maximums.erase id) s.maximumTargets
    groups := leaveGroups (s.groups.erase id) closed }

omit [Hasher] in
/-- `MiningSession::next_custom_id`. -/
def nextCustomId (s : Session) : Except String (UInt32 × Session) :=
  if s.customJobs.toNat + 1 < customJobBit.toNat then
    .ok (customJobBit ||| (s.customJobs + 1), { s with customJobs := s.customJobs + 1 })
  else .error "invalid-coinbase-tx"

/-- Installs a custom job that passed its checks.  The counter has moved on even if the
channel refuses the job. -/
def installCustom (s : Session) (c : Channel) (template : BchTemplate) (parts : CoinbaseParts) :
    Except String UInt32 × Session :=
  match s.nextCustomId with
  | .error error => (.error error, s)
  | .ok (id, s) =>
    let installed := c.installCustom id template parts
    let s := { s with channels := s.channels.insert c.id installed.2 }
    match installed.1 with
    | .error _ => (.error "invalid-coinbase-tx", s)
    | .ok _ => (.ok id, s)

/-- `MiningSession::custom_job` and `declared_job`. -/
def customJob (s : Session) (request : SetCustomMiningJob) (redeemed : Except String Custom)
    (now : UInt32) : Except String UInt32 × Session :=
  if s.declarator.isNone ∨ s.workSelection = false then (.error "jd-not-supported", s)
  else match s.channels.find? request.channelId with
    | none => (.error "invalid-channel-id", s)
    | some c =>
      if c.customOnly = false then (.error "invalid-channel-id", s)
      else match s.current with
        | none => (.error "stale-chain-tip", s)
        | some (_, _, context) =>
          let extranonce := c.extranoncePrefix.length + c.rolled
          if declaredToken request.token then
            match redeemed with
            | .error error => (.error error, s)
            | .ok (.coinbaseOnly _) => (.error "invalid-mining-job-token", s)
            | .ok (.declared job) =>
              match request.checkDeclared context job extranonce now with
              | .error error => (.error error, s)
              | .ok () =>
                s.installCustom c (job.template.withHeader request.version request.minNtime)
                  ⟨job.shape.pre, job.shape.suffix, request.merklePath⟩
          else match request.checkContent context extranonce now with
            | .error error => (.error error, s)
            | .ok () =>
              match redeemed with
              | .error error => (.error error, s)
              | .ok (.declared _) => (.error "invalid-mining-job-token", s)
              | .ok (.coinbaseOnly rule) =>
                match request.checkOutputs rule with
                | .error error => (.error error, s)
                | .ok () =>
                  s.installCustom c
                    (context.custom request.version request.minNtime request.merklePath)
                    (request.parts extranonce)

/-- What `submit` answers to an accepted share. -/
def acceptedResponses (s : Session) (share : Share) (v : ValidatedShare) : Responses :=
  let wins := v.tokenWins ≠ [] ∧ v.aux.isSome
  { frames := .submitSuccess share.channelId share.sequence v.shareTarget ::
      if wins ∧ s.mergeDisclosure then [.winProof share.channelId share.jobId v] else []
    blocks := if v.block then [v] else []
    tokenWins := if wins then [v] else []
    shareEvent := some (.ok v.shareTarget)
    acceptedWork :=
      if v.template.isHeaderOnly = false ∧ v.template.origin ≠ .declared then
        some (v.shareTarget, v.payout)
      else none
    customJob := none
    forward := v.forward.toList
    headerWins := if v.block = false ∧ v.headerWin then [v] else [] }

omit [Hasher] in
/-- What `submit` answers to a refused share. -/
def refusedResponses (share : Share) (code : String) : Responses :=
  { Responses.ofFrames [.submitError share.channelId share.sequence code] with
    shareEvent := some (.error code) }

/-- `MiningSession::submit`. -/
def submit (s : Session) (share : Share) (kind : ChannelKind) (now : UInt32) :
    Responses × Session :=
  match s.channels.find? share.channelId with
  | none => (refusedResponses share "invalid-channel-id",
      { s with rejected := saturatingSucc s.rejected })
  | some c =>
    if c.kind ≠ kind then (refusedResponses share "invalid-channel-type",
      { s with rejected := saturatingSucc s.rejected })
    else
      let checked := c.check share now
      let s := { s with channels := s.channels.insert share.channelId checked.2 }
      match checked.1 with
      | .ok v => (s.acceptedResponses share v, { s with accepted := saturatingSucc s.accepted })
      | .error code => (refusedResponses share code,
          { s with rejected := saturatingSucc s.rejected })

/-- `MiningSession::receive` on a parsed message. -/
def receive (s : Session) (lanes : Lanes) (random : ℕ → UInt8) (message : Message) (now : UInt32) :
    Except String (Session × Lanes × Responses) :=
  match message with
  | .setupConnection setup => do
    let (s, frames) ← s.setup setup
    .ok (s, lanes, .ofFrames frames)
  | .requestExtensions asked =>
    if s.setupFlags.isNone then .error "extensions requested before setup"
    else
      let granted := asked.filter fun e => e = mergeExtension
      .ok ({ s with mergeDisclosure := s.mergeDisclosure || !granted.isEmpty }, lanes,
        .ofFrames [.extensionsSuccess granted])
  | message =>
    match s.setupFlags with
    | none => .error "SetupConnection is required first"
    | some flags =>
      match message with
      | .openChannel request =>
        if request.kind = .extended ∧ flags &&& 1 ≠ 0 then
          .ok (s, lanes, .ofFrames [.openError request.requestId
            "extended-channels-not-supported-for-standard-jobs"])
        else do
          let (s, lanes, frames) ← s.openChannel lanes random request
          .ok (s, lanes, .ofFrames frames)
      | .submitShares kind share =>
        let answered := s.submit share kind now
        .ok (answered.2, lanes, answered.1)
      | .updateChannel id validRate maximum =>
        let answered := s.updateChannel id validRate maximum
        .ok (answered.1, lanes, .ofFrames answered.2)
      | .closeChannel id => .ok (s.closeChannel id, lanes, .ofFrames [])
      | .setCustomMiningJob request redeemed =>
        let outcome := s.customJob request redeemed now
        let frame := match outcome.1 with
          | .ok id => Frame.customSuccess request.channelId request.requestId id
          | .error code => Frame.customError request.channelId request.requestId code
        .ok (outcome.2, lanes, { Responses.ofFrames [frame] with
          customJob := some (outcome.1.map fun _ => ()) })
      | _ => .error "unsupported downstream mining message"

end Session

end Pickaxe
