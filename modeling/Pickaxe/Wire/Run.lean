/-
# Operations of a session

A session changes by the server's operations and a device's messages.  `step_change` says
once what any of them can do: set the connection up, work on the open channels, open one,
change a maximum, or close some.
-/
import Pickaxe.Wire.Steps

namespace Pickaxe

open Lib Merge Jd

namespace Session

variable [Hasher]

/-- The operations on a session. -/
inductive Op where
  | setJob (random : UInt32 → ℕ → UInt8) (id : UInt32) (generation : UInt64)
      (template : BchTemplate) (payout : BchPayout)
  | retarget (desired : UInt32 → Option Hash) (random : UInt32 → ℕ → UInt8) (nextId : UInt32)
  | revokeJob
  | receive (random : ℕ → UInt8) (message : Message) (now : UInt32)

/-- One operation, with the frames it sends.  One that fails ends the connection. -/
def step (s : Session) (lanes : Lanes) : Op → Except String (Session × Lanes × List Frame)
  | .setJob random id generation template payout =>
    s.setJobWithPayout lanes random id generation template payout
  | .retarget desired random nextId => do
    let (s, _, frames) ← s.retarget desired random nextId
    .ok (s, lanes, frames)
  | .revokeJob => .ok (s.revokeJob, lanes, [])
  | .receive random message now => do
    let (s, lanes, responses) ← s.receive lanes random message now
    .ok (s, lanes, responses.frames)

/-- How a session starts. -/
def Start (s : Session) : Prop :=
  ∃ network payout salt shareTarget pub declarator fixedVersion lanes,
    ∃ made, new network payout salt shareTarget = .ok made ∧
      s = made.configure pub declarator fixedVersion lanes

/-! ## What one operation can do -/

omit [Hasher] in
/-- Every channel stands under its own id. -/
def OwnIds (s : Session) : Prop := ∀ k c, s.channels.find? k = some c → c.id = k

/-- Nothing but channel operations on the open channels, each under its maximum. -/
structure Worked (s s' : Session) : Prop where
  same : s' = { s with
    channels := s'.channels
    current := s'.current
    payoutPolicy := s'.payoutPolicy
    accepted := s'.accepted
    rejected := s'.rejected
    customJobs := s'.customJobs
    tokenRefusal := s'.tokenRefusal
    mergeDisclosure := s'.mergeDisclosure }
  keys : s'.channels.keys = s.channels.keys
  customJobs : s.customJobs ≤ s'.customJobs
  channel : ∀ k c', s'.channels.find? k = some c' → ∃ c, s.channels.find? k = some c ∧
    ∃ ops, c' = c.steps ops ∧ ∀ maximum, s.maximumTargets.find? c.id = some maximum →
      ∀ op ∈ ops, op.Under maximum

/-- The groups, the group of a new channel among them, and the last id given. -/
def joined (s : Session) (request : OpenRequest) (login : Login) :
    UInt32 × UInt32 × OrdMap UInt32 Group :=
  if s.grouping ∧ request.kind = .extended ∧ s.workSelection = false then
    { s with nextChannel := s.nextChannel + 1 }.joinGroup login.payout (s.nextChannel + 1)
  else (0, s.nextChannel + 1, s.groups)

/-- An open that was not refused. -/
structure Opened (s s' : Session) (lanes : Lanes) (request : OpenRequest) (login : Login)
    (start c : Channel) : Prop where
  accepted : s.openRefusal lanes request = none
  room : s.nextChannel < 0xfffffffe
  login_eq : s.openLogin request.identity = .ok login
  start_eq : s.newChannel lanes request.kind (s.nextChannel + 1) login = .ok start
  ops : ∃ ops, c = start.steps ops ∧ ∀ op ∈ ops, op.Under request.maximum
  job : ∃ id generation template, s.current = some (id, generation, template) ∧
    if start.customOnly then c = (start.settle template.target none request.maximum).2
    else ∃ random, Issued start c (start.floorFor template) request.maximum random id generation
      template s.payoutPolicy
  meets : meetsTarget c.target request.maximum = true
  state : s' = { s with
    donationChoice := s'.donationChoice
    tokenRefusal := s'.tokenRefusal
    nextChannel := (s.joined request login).2.1
    groups := (s.joined request login).2.2
    maximumTargets := s.maximumTargets.insert c.id request.maximum
    channels := s.channels.insert c.id c }

/-- What an operation can do to a session. -/
inductive Change (s : Session) : Session → Prop
  | setup {s' : Session} : s.setupFlags = none →
      s' = { s with
        workSelection := s'.workSelection
        setupFlags := s'.setupFlags
        grouping := s'.grouping } → Change s s'
  | worked {s' : Session} : Worked s s' → Change s s'
  | opened {s' : Session} {lanes : Lanes} {request : OpenRequest} {login : Login}
      {start c : Channel} : s.setupFlags ≠ none → Opened s s' lanes request login start c →
      Change s s'
  | updated {id : UInt32} {maximum : Hash} {c : Channel} : s.channels.find? id = some c →
      meetsTarget c.target maximum = true →
      Change s { s with maximumTargets := s.maximumTargets.insert id maximum }
  | closed (id : UInt32) : Change s (s.closeChannel id)

/-- The same channels. -/
lemma Worked.of_channels {s s' : Session} (hsame : s' = { s with
    current := s'.current
    payoutPolicy := s'.payoutPolicy
    accepted := s'.accepted
    rejected := s'.rejected
    customJobs := s'.customJobs
    tokenRefusal := s'.tokenRefusal
    mergeDisclosure := s'.mergeDisclosure }) (hjobs : s.customJobs ≤ s'.customJobs) :
    Worked s s' := by
  have hchannels : s'.channels = s.channels := by rw [hsame]
  refine ⟨?_, by rw [hchannels], hjobs, ?_⟩
  · rw [hchannels]
    exact hsame
  · intro k c' hc'
    rw [hchannels] at hc'
    exact ⟨c', hc', [], rfl, fun _ _ op hop => by cases hop⟩

/-- One channel changed, by one operation without a target. -/
lemma Worked.of_insert {s s' : Session} {c : Channel} (op : Channel.Op) {k : UInt32}
    (hk : s.channels.find? k = some c) (hop : ∀ maximum, op.Under maximum) (hsame : s' = { s with
      channels := s.channels.insert k (c.step op).2
      current := s'.current
      payoutPolicy := s'.payoutPolicy
      accepted := s'.accepted
      rejected := s'.rejected
      customJobs := s'.customJobs
      tokenRefusal := s'.tokenRefusal
      mergeDisclosure := s'.mergeDisclosure }) (hjobs : s.customJobs ≤ s'.customJobs) :
    Worked s s' := by
  have hchannels : s'.channels = s.channels.insert k (c.step op).2 := by rw [hsame]
  refine ⟨?_, ?_, hjobs, ?_⟩
  · rw [hchannels]
    exact hsame
  · rw [hchannels]
    apply OrdMap.keys_eq_of_mem
    intro k'
    rw [OrdMap.mem_keys_insert]
    constructor
    · rintro (rfl | h)
      · exact OrdMap.mem_keys.mpr ⟨c, hk⟩
      · exact h
    · exact Or.inr
  · intro k' c' hc'
    rw [hchannels, OrdMap.find?_insert] at hc'
    split_ifs at hc' with h
    · subst h
      cases hc'
      exact ⟨c, hk, [op], rfl, fun maximum _ o ho => List.mem_singleton.mp ho ▸ hop maximum⟩
    · exact ⟨c', hc', [], rfl, fun _ _ o ho => by cases ho⟩

lemma setJobWithPayout_eq_ok {s s' : Session} {lanes lanes' : Lanes} {random : UInt32 → ℕ → UInt8}
    {id : UInt32} {generation : UInt64} {template : BchTemplate} {payout : BchPayout}
    {frames : List Frame}
    (h : s.setJobWithPayout lanes random id generation template payout = .ok (s', lanes', frames)) :
    ∃ (sent : OrdMap UInt32 Sent) (grouped : List Frame),
      sent.keys = s.channels.keys ∧
      (∀ k r, sent.find? k = some r → ∃ c, s.channels.find? k = some c ∧
        setJobOn s.maximumTargets s.isBroadcast random id generation template payout c = .ok r) ∧
      eachGroupFrames (sent.mapValues fun _ r => r.channel)
        (fun c => ((sent.find? c.id).map fun r => r.immediate).getD false) s.broadcastGroups =
          .ok grouped ∧
      s' = { s with
        current := some (id, generation, template)
        payoutPolicy := payout
        channels := sent.mapValues fun _ r => r.channel
        tokenRefusal := s'.tokenRefusal } ∧
      frames = (sent.values.flatMap fun r => r.frames) ++ grouped ++
        s'.channels.keys.flatMap s'.disclose := by
  obtain ⟨⟨sent, u⟩, hsent, h⟩ := Except.bind_eq_ok.mp h
  obtain ⟨grouped, hgrouped, h⟩ := Except.bind_eq_ok.mp h
  cases h
  refine ⟨sent, grouped, OrdMap.keys_mapM hsent, ?_, hgrouped, rfl, rfl⟩
  intro k r hr
  obtain ⟨-, hall⟩ := OrdMap.find?_mapM (fun _ => True) trivial (fun _ _ _ _ _ _ _ => trivial) hsent
  obtain ⟨c, _, _, hc, -, hon⟩ := hall k r hr
  obtain ⟨r', hr', hon⟩ := Except.bind_eq_ok.mp hon
  cases hon
  exact ⟨c, hc, hr'⟩

lemma SetOn.steps {maximum : Hash} {broadcast : UInt32 → Bool} {random : UInt32 → ℕ → UInt8}
    {id : UInt32} {generation : UInt64} {template : BchTemplate} {payout : BchPayout} {c : Channel}
    {sent : Sent} (h : SetOn maximum broadcast random id generation template payout c sent) :
    ∃ ops, sent.channel = c.steps ops ∧ ∀ op ∈ ops, op.Under maximum := by
  cases hcustom : c.customOnly with
  | true => exact ⟨_, (h.custom hcustom).1, under_customOps c template maximum⟩
  | false =>
    obtain ⟨drop, hops⟩ := (h.device hcustom).1.ops
    exact ⟨_, hops, under_issueOps _ _ _ _ _ _ _ _⟩

lemma worked_setJob {s s' : Session} {lanes lanes' : Lanes} {random : UInt32 → ℕ → UInt8}
    {id : UInt32} {generation : UInt64} {template : BchTemplate} {payout : BchPayout}
    {frames : List Frame}
    (h : s.setJobWithPayout lanes random id generation template payout = .ok (s', lanes', frames)) :
    Worked s s' := by
  obtain ⟨sent, grouped, hkeys, hsent, -, hs', -⟩ := setJobWithPayout_eq_ok h
  have hchannels : s'.channels = sent.mapValues fun _ r => r.channel := by rw [hs']
  refine ⟨?_, by rw [hchannels, OrdMap.keys_mapValues, hkeys], le_of_eq (by rw [hs']), ?_⟩
  · rw [hchannels]
    rw [hs']
  · intro k c' hc'
    rw [hchannels, OrdMap.find?_mapValues, Option.map_eq_some_iff] at hc'
    obtain ⟨r, hr, rfl⟩ := hc'
    obtain ⟨c, hc, hon⟩ := hsent k r hr
    obtain ⟨maximum, hmaximum, hseton⟩ := setJobOn_eq_ok hon
    obtain ⟨ops, hops, hunder⟩ := hseton.steps
    refine ⟨c, hc, ops, hops, fun m hm => ?_⟩
    rw [hmaximum] at hm
    cases hm
    exact hunder

lemma RetargetedOn.steps {maximum : Hash} {desired : Option Hash} {random : ℕ → UInt8}
    {c : Channel} {r : Retargeted} {nextId nextId' : UInt32}
    (h : RetargetedOn maximum desired random c r nextId nextId') :
    ∃ ops, r.channel = c.steps ops ∧ ∀ op ∈ ops, op.Under maximum := by
  cases h with
  | target _ hops => exact ⟨_, hops, fun op hop => by rw [List.mem_singleton.mp hop]; exact rfl⟩
  | job _ _ _ _ _ _ hops =>
    refine ⟨_, hops, fun op hop => ?_⟩
    simp only [List.mem_cons, List.not_mem_nil, or_false] at hop
    rcases hop with rfl | rfl | rfl
    · exact rfl
    · exact trivial
    · exact trivial

lemma retarget_eq_ok {s s' : Session} {desired : UInt32 → Option Hash}
    {random : UInt32 → ℕ → UInt8} {nextId nextId' : UInt32} {frames : List Frame}
    (h : s.retarget desired random nextId = .ok (s', nextId', frames)) :
    ∃ done : OrdMap UInt32 Retargeted,
      s.channels.mapM (fun nextId _ c => retargetOn s.maximumTargets desired random nextId c)
        nextId = .ok (done, nextId') ∧
      s' = { s with
        channels := done.mapValues fun _ r => r.channel
        tokenRefusal := s'.tokenRefusal } := by
  obtain ⟨⟨done, next⟩, hdone, h⟩ := Except.bind_eq_ok.mp h
  cases h
  exact ⟨done, hdone, rfl⟩

lemma worked_retarget {s s' : Session} {desired : UInt32 → Option Hash}
    {random : UInt32 → ℕ → UInt8} {nextId nextId' : UInt32} {frames : List Frame}
    (h : s.retarget desired random nextId = .ok (s', nextId', frames)) : Worked s s' := by
  obtain ⟨done, hdone, hs'⟩ := retarget_eq_ok h
  obtain ⟨-, hall⟩ := OrdMap.find?_mapM (fun _ => True) trivial (fun _ _ _ _ _ _ _ => trivial) hdone
  have hchannels : s'.channels = done.mapValues fun _ r => r.channel := by rw [hs']
  refine ⟨?_, by rw [hchannels, OrdMap.keys_mapValues, OrdMap.keys_mapM hdone],
    le_of_eq (by rw [hs']), ?_⟩
  · rw [hchannels]
    rw [hs']
  · intro k c' hc'
    rw [hchannels, OrdMap.find?_mapValues, Option.map_eq_some_iff] at hc'
    obtain ⟨r, hr, rfl⟩ := hc'
    obtain ⟨c, _, _, hc, -, hon⟩ := hall k r hr
    obtain ⟨maximum, hmaximum, hretargeted⟩ := retargetOn_eq_ok hon
    obtain ⟨ops, hops, hunder⟩ := hretargeted.steps
    refine ⟨c, hc, ops, hops, fun m hm => ?_⟩
    rw [hmaximum] at hm
    cases hm
    exact hunder

lemma worked_revokeJob (s : Session) : Worked s s.revokeJob := by
  refine ⟨rfl, OrdMap.keys_mapValues _ _, le_rfl, fun k c' hc' => ?_⟩
  rw [revokeJob, OrdMap.find?_mapValues, Option.map_eq_some_iff] at hc'
  obtain ⟨c, hc, rfl⟩ := hc'
  exact ⟨c, hc, [.revoke], rfl, fun _ _ op hop => by rw [List.mem_singleton.mp hop]; exact trivial⟩

lemma worked_submit (s : Session) (share : Share) (kind : ChannelKind) (now : UInt32) :
    Worked s (s.submit share kind now).2 := by
  unfold submit
  cases hc : s.channels.find? share.channelId with
  | none => exact .of_channels rfl le_rfl
  | some c =>
    simp only
    split_ifs with hkind
    · exact .of_channels rfl le_rfl
    · cases (c.check share now).1 with
      | ok v => exact .of_insert (.check share now) hc (fun _ => trivial) rfl le_rfl
      | error code => exact .of_insert (.check share now) hc (fun _ => trivial) rfl le_rfl

/-- What a SetCustomMiningJob can do: nothing to the channels, or one custom job tried on the
channel it names. -/
lemma installCustom_cases (s : Session) (c : Channel) (template : BchTemplate)
    (parts : CoinbaseParts) :
    (s.installCustom c template parts).2 = s ∨
      ∃ id s1, s.nextCustomId = .ok (id, s1) ∧ (s.installCustom c template parts).2 =
        { s1 with channels := s.channels.insert c.id (c.installCustom id template parts).2 } := by
  unfold installCustom
  cases hid : s.nextCustomId with
  | error e => exact Or.inl rfl
  | ok r =>
    obtain ⟨id, s1⟩ := r
    have hs1 : s1.channels = s.channels := by
      unfold nextCustomId at hid
      split_ifs at hid
      cases hid
      rfl
    refine Or.inr ⟨id, s1, rfl, ?_⟩
    simp only [hs1]
    cases (c.installCustom id template parts).1 with
    | error e => rfl
    | ok job => rfl

omit [Hasher] in
/-- The template and coinbase of a custom job that passed its checks. -/
inductive CustomContent (request : SetCustomMiningJob) (context : BchTemplate) (extranonce : ℕ)
    (now : UInt32) : BchTemplate → CoinbaseParts → Prop
  | declared {job : DeclaredJob} : request.checkDeclared context job extranonce now = .ok () →
      CustomContent request context extranonce now
        (job.template.withHeader request.version request.minNtime)
        ⟨job.shape.pre, job.shape.suffix, request.merklePath⟩
  | coinbaseOnly {rule : PayoutRule} : request.checkContent context extranonce now = .ok () →
      request.checkOutputs rule = .ok () →
      CustomContent request context extranonce now
        (context.custom request.version request.minNtime request.merklePath)
        (request.parts extranonce)

lemma customJob_cases (s : Session) (request : SetCustomMiningJob)
    (redeemed : Except String Custom) (now : UInt32) :
    (s.customJob request redeemed now).2 = s ∨
      ∃ c id generation context template parts, s.channels.find? request.channelId = some c ∧
        c.customOnly = true ∧ s.current = some (id, generation, context) ∧
        CustomContent request context (c.extranoncePrefix.length + c.rolled) now template parts ∧
        s.customJob request redeemed now = s.installCustom c template parts := by
  by_cases h1 : s.declarator.isNone ∨ s.workSelection = false
  · exact Or.inl (by rw [customJob, if_pos h1])
  cases hc : s.channels.find? request.channelId with
  | none => exact Or.inl (by simp only [customJob, if_neg h1, hc])
  | some c =>
    by_cases h2 : c.customOnly = false
    · exact Or.inl (by simp only [customJob, if_neg h1, hc, if_pos h2])
    cases hcurrent : s.current with
    | none => exact Or.inl (by simp only [customJob, if_neg h1, hc, if_neg h2, hcurrent])
    | some current =>
      obtain ⟨id, generation, context⟩ := current
      have hcustom : c.customOnly = true := by simpa using h2
      have hreduce : s.customJob request redeemed now = s.customJob request redeemed now := rfl
      conv at hreduce =>
        rhs
        simp only [customJob, if_neg h1, hc, if_neg h2, hcurrent]
      by_cases h3 : declaredToken request.token = true
      · -- the declared way
        rw [if_pos h3] at hreduce
        rcases redeemed with error | rule | job
        · exact Or.inl (by rw [hreduce])
        · exact Or.inl (by rw [hreduce])
        · simp only at hreduce
          cases hcheck : request.checkDeclared context job (c.extranoncePrefix.length + c.rolled)
            now with
          | error error => exact Or.inl (by rw [hreduce, hcheck])
          | ok u =>
            rw [hcheck] at hreduce
            exact Or.inr ⟨c, id, generation, context, _, _, rfl, hcustom, rfl, .declared hcheck,
              hreduce⟩
      · -- the Coinbase-only way
        rw [if_neg h3] at hreduce
        cases hcheck : request.checkContent context (c.extranoncePrefix.length + c.rolled)
          now with
        | error error => exact Or.inl (by rw [hreduce, hcheck])
        | ok u =>
          rw [hcheck] at hreduce
          simp only at hreduce
          rcases redeemed with error | rule | job
          · exact Or.inl (by rw [hreduce])
          · simp only at hreduce
            cases houtputs : request.checkOutputs rule with
            | error error => exact Or.inl (by rw [hreduce, houtputs])
            | ok u' =>
              rw [houtputs] at hreduce
              exact Or.inr ⟨c, id, generation, context, _, _, rfl, hcustom, rfl,
                .coinbaseOnly hcheck houtputs, hreduce⟩
          · exact Or.inl (by rw [hreduce])

omit [Hasher] in
lemma nextCustomId_eq_ok {s s1 : Session} {id : UInt32} (h : s.nextCustomId = .ok (id, s1)) :
    s.customJobs < s1.customJobs ∧ id.toNat = customJobBit.toNat + s1.customJobs.toNat ∧
      s1 = { s with customJobs := s1.customJobs } := by
  unfold nextCustomId at h
  split_ifs at h with hroom
  cases h
  have hbit : customJobBit.toNat = 2 ^ 31 := rfl
  have hone : (1 : UInt32).toNat = 1 := rfl
  have hsucc : (s.customJobs + 1).toNat = s.customJobs.toNat + 1 := by
    rw [UInt32.toNat_add]
    omega
  refine ⟨?_, ?_, rfl⟩
  · rw [UInt32.lt_iff_toNat_lt, hsucc]
    omega
  · have hlt : s.customJobs.toNat + 1 < 2 ^ 31 := hbit ▸ hroom
    have hor := Nat.two_pow_add_eq_or_of_lt hlt 1
    rw [mul_one] at hor
    rw [UInt32.toNat_or, hbit, hsucc, hor]

lemma worked_customJob {s : Session} (hids : s.OwnIds) (request : SetCustomMiningJob)
    (redeemed : Except String Custom) (now : UInt32) :
    Worked s (s.customJob request redeemed now).2 := by
  rcases customJob_cases s request redeemed now with h |
    ⟨c, id, generation, context, template, parts, hc, -, -, -, h⟩
  · rw [h]
    exact .of_channels rfl le_rfl
  rw [h]
  rcases installCustom_cases s c template parts with h | ⟨jobId, s1, hid, h⟩
  · rw [h]
    exact .of_channels rfl le_rfl
  · rw [h, hids _ _ hc]
    obtain ⟨hlt, -, hs1⟩ := nextCustomId_eq_ok hid
    refine .of_insert (.installCustom jobId template parts) hc (fun _ => trivial) ?_ hlt.le
    rw [hs1]
    rfl

omit [Hasher] in
/-- A channel as `open` makes it. -/
structure New (s : Session) (lanes : Lanes) (kind : ChannelKind) (id : UInt32) (login : Login)
    (c : Channel) : Prop where
  id_eq : c.id = id
  kind_eq : c.kind = kind
  fresh : c.Fresh
  payout : Config.validateCoinbaseAddress s.network login.payout = .ok c.payout
  customOnly : c.customOnly = decide (s.workSelection ∧ kind = .extended)
  compact : c.compact = s.laneCompact lanes
  extranoncePrefix : c.extranoncePrefix =
    if s.lanes then if s.laneCompact lanes then (u32Le lanes.next).take 2 else u32Le lanes.next
    else s.salt.bytes ++ u32Le id
  rolled : c.rolled = s.openRollable lanes kind

omit [Hasher] in
lemma newChannel_eq_ok {s : Session} {lanes : Lanes} {kind : ChannelKind} {id : UInt32}
    {login : Login} {c : Channel} (h : s.newChannel lanes kind id login = .ok c) :
    s.New lanes kind id login c := by
  obtain ⟨made, hmade, h⟩ := Except.bind_eq_ok.mp h
  -- the operator's address and the donation do not matter for the rest
  have hnamed : ∃ named : Channel,
      named = { made with operator := named.operator, donation := named.donation } ∧
      c = (let c := if s.lanes then named.setLane lanes.next (s.laneCompact lanes) else named
        if s.workSelection ∧ kind = .extended then c.setCustomOnly (s.openRollable lanes kind)
        else c) := by
    cases hpub : s.pub with
    | none =>
      simp only [hpub] at h
      cases h
      exact ⟨made, rfl, rfl⟩
    | some pool =>
      simp only [hpub] at h
      obtain ⟨operated, hoperated, h⟩ := Except.bind_eq_ok.mp h
      cases h
      refine ⟨operated.setDonation login.donation, ?_, rfl⟩
      simp only [Channel.setOperator] at hoperated
      split at hoperated
      · cases hoperated
      · cases hoperated
        rfl
  obtain ⟨named, hnamed, hc⟩ := hnamed
  unfold Channel.new at hmade
  obtain ⟨-, hmade⟩ := Except.ite_error_eq_ok.mp hmade
  split at hmade
  · cases hmade
  rename_i payout hpayout
  cases hmade
  rw [hnamed] at hc
  subst hc
  have hrollable : ∀ compact : Bool, s.laneCompact lanes = compact →
      ¬ (s.workSelection = true ∧ kind = .extended) →
      s.openRollable lanes kind = if compact then compactDeviceExtranonce
        else deviceExtranonceSize := by
    rintro compact rfl hdevice
    rw [openRollable, if_neg hdevice]
  by_cases hcustom : s.workSelection = true ∧ kind = .extended
  · simp only [if_pos hcustom]
    cases hlanes : s.lanes with
    | false =>
      have hcompact : s.laneCompact lanes = false := by rw [laneCompact, hlanes, Bool.false_and]
      exact ⟨rfl, rfl, ⟨rfl, rfl, rfl⟩, hpayout, (decide_eq_true hcustom).symm, hcompact.symm,
        by simp [hlanes, Channel.setCustomOnly], rfl⟩
    | true =>
      cases hcompact : s.laneCompact lanes with
      | false =>
        exact ⟨rfl, rfl, ⟨rfl, rfl, rfl⟩, hpayout, (decide_eq_true hcustom).symm, hcompact.symm,
          by simp [hlanes, hcompact, Channel.setCustomOnly, Channel.setLane], rfl⟩
      | true =>
        exact ⟨rfl, rfl, ⟨rfl, rfl, rfl⟩, hpayout, (decide_eq_true hcustom).symm, hcompact.symm,
          by simp [hlanes, hcompact, Channel.setCustomOnly, Channel.setLane], rfl⟩
  · simp only [if_neg hcustom]
    cases hlanes : s.lanes with
    | false =>
      have hcompact : s.laneCompact lanes = false := by rw [laneCompact, hlanes, Bool.false_and]
      exact ⟨rfl, rfl, ⟨rfl, rfl, rfl⟩, hpayout, (decide_eq_false hcustom).symm, hcompact.symm,
        by simp [hlanes], (hrollable false hcompact hcustom).symm⟩
    | true =>
      cases hcompact : s.laneCompact lanes with
      | false =>
        exact ⟨rfl, rfl, ⟨rfl, rfl, rfl⟩, hpayout, (decide_eq_false hcustom).symm, hcompact.symm,
          by simp [hlanes, hcompact, Channel.setLane], (hrollable false hcompact hcustom).symm⟩
      | true =>
        exact ⟨rfl, rfl, ⟨rfl, rfl, rfl⟩, hpayout, (decide_eq_false hcustom).symm, hcompact.symm,
          by simp [hlanes, hcompact, Channel.setLane], (hrollable true hcompact hcustom).symm⟩

lemma Issued.kept {c d : Channel} {tokens : Option Hash} {maximum : Hash} {random : ℕ → UInt8}
    {id : UInt32} {generation : UInt64} {template : BchTemplate} {payout : BchPayout}
    (h : Issued c d tokens maximum random id generation template payout) : c.Kept d := by
  obtain ⟨drop, rfl⟩ := h.ops
  exact c.kept_steps _

lemma Issued.meets {c d : Channel} {tokens : Option Hash} {maximum : Hash} {random : ℕ → UInt8}
    {id : UInt32} {generation : UInt64} {template : BchTemplate} {payout : BchPayout}
    (h : Issued c d tokens maximum random id generation template payout) :
    meetsTarget d.target maximum = true := by
  obtain ⟨drop, rfl⟩ := h.ops
  refine Channel.meets_steps (c := (c.settle template.target tokens maximum).2)
    (fun op hop => ?_) (Channel.meets_settle c _ _ _)
  exact under_issueOps tokens maximum random id generation template payout drop op
    (List.mem_cons_of_mem _ hop)

lemma openDevice_eq_ok {s s' : Session} {random : ℕ → UInt8} {request : OpenRequest}
    {payout : List Char} {id : UInt32} {generation : UInt64} {template : BchTemplate}
    {start : Channel} {frames : List Frame}
    (h : s.openDevice random request payout id generation template start = .ok (s', frames)) :
    ∃ c, Issued start c (start.floorFor template) request.maximum random id generation template
        s.payoutPolicy ∧ meetsTarget c.target request.maximum = true ∧
      s' = { s with
        tokenRefusal := s'.tokenRefusal
        nextChannel := (if s.grouping ∧ request.kind = .extended then s.joinGroup payout start.id
          else (0, s.nextChannel, s.groups)).2.1
        groups := (if s.grouping ∧ request.kind = .extended then s.joinGroup payout start.id
          else (0, s.nextChannel, s.groups)).2.2
        maximumTargets := s.maximumTargets.insert start.id request.maximum
        channels := s.channels.insert start.id c } := by
  unfold openDevice at h
  simp only at h
  split at h
  · cases h
  rename_i job hjob
  rcases hr : (start.settle template.target (start.floorFor template) request.maximum).2.installWithPayout
    random id generation template s.payoutPolicy with ⟨r, d⟩
  rw [hr] at hjob h
  obtain rfl : r = .ok job := hjob
  have hissued := issued_of_install hr d.takeTokenRefusal.1.isSome
  set c : Channel := if d.takeTokenRefusal.1.isSome then
    (d.takeTokenRefusal.2.dropTokenFloor request.maximum).2 else d.takeTokenRefusal.2 with hc
  have hsame : (if d.takeTokenRefusal.1.isSome then
      d.takeTokenRefusal.2.dropTokenFloor request.maximum
      else (false, d.takeTokenRefusal.2)).2 = c := by
    rw [hc]
    split_ifs
    · rfl
    · rfl
  rw [hsame] at hissued
  obtain ⟨own, -, h⟩ := Except.bind_eq_ok.mp h
  rw [hissued.kept.id] at h
  cases h
  exact ⟨c, hissued, hissued.meets, rfl⟩

/-- What `open` can do: refuse, or open a channel. -/
lemma openChannel_cases {s s' : Session} {lanes lanes' : Lanes} {random : ℕ → UInt8}
    {request : OpenRequest} {frames : List Frame}
    (h : s.openChannel lanes random request = .ok (s', lanes', frames)) :
    (s' = s ∧ lanes' = lanes) ∨ ∃ login start c, Opened s s' lanes request login start c ∧
      lanes' = if s.lanes then { lanes with next := lanes.next + 1 } else lanes := by
  unfold openChannel at h
  split at h
  · cases h
    exact Or.inl ⟨rfl, rfl⟩
  · cases h
    exact Or.inl ⟨rfl, rfl⟩
  rename_i id generation template hrefusal hcurrent
  by_cases hmeets : meetsTarget template.target request.maximum = false
  · rw [if_pos hmeets] at h
    cases h
    exact Or.inl ⟨rfl, rfl⟩
  rw [if_neg hmeets] at h
  split at h
  · cases h
    exact Or.inl ⟨rfl, rfl⟩
  rename_i login hlogin
  obtain ⟨start, hstart, h⟩ := Except.bind_eq_ok.mp h
  have hstart' : s.newChannel lanes request.kind (s.nextChannel + 1) login = .ok start := hstart
  have hid := (newChannel_eq_ok hstart').id_eq
  -- the refusals leave room for the channel's id and a group's
  have hroom : s.nextChannel < 0xfffffffe := by
    unfold openRefusal at hrefusal
    by_contra hroom
    have hfull : s.channels.size ≥ (if s.grouping then maxGroupedChannels else maxChannels) ∨
        s.nextChannel ≥ 0xfffffffe := Or.inr (not_lt.mp hroom)
    rw [if_pos hfull] at hrefusal
    split_ifs at hrefusal
  right
  -- a client that selects its work gets no job with its channel
  by_cases hcustom : s.workSelection = true ∧ request.kind = .extended
  · rw [if_pos hcustom] at h
    cases h
    refine ⟨login, start, (start.settle template.target none request.maximum).2,
      ⟨hrefusal, hroom, hlogin, hstart', ⟨[.settle template.target none request.maximum], rfl, ?_⟩,
        ⟨id, generation, template, hcurrent, ?_⟩, Channel.meets_settle _ _ _ _, ?_⟩, rfl⟩
    · intro op hop
      rw [List.mem_singleton.mp hop]
      exact rfl
    · rw [if_pos (by rw [(newChannel_eq_ok hstart').customOnly]; exact decide_eq_true hcustom)]
    · have hjoined : s.joined request login = (0, s.nextChannel + 1, s.groups) := by
        rw [joined, if_neg]
        rintro ⟨-, -, h⟩
        rw [hcustom.1] at h
        cases h
      rw [hjoined]
      rfl
  · rw [if_neg hcustom] at h
    obtain ⟨⟨opened, frames'⟩, hopened, h⟩ := Except.bind_eq_ok.mp h
    cases h
    obtain ⟨c, hissued, hmeets, hs'⟩ := openDevice_eq_ok hopened
    obtain ⟨drop, hops⟩ := hissued.ops
    refine ⟨login, start, c, ⟨hrefusal, hroom, hlogin, hstart', ⟨_, hops, under_issueOps _ _ _ _ _ _ _ _⟩,
      ⟨id, generation, template, hcurrent, ?_⟩, hmeets, ?_⟩, rfl⟩
    · have hdevice : start.customOnly = false := by
        rw [(newChannel_eq_ok hstart').customOnly]
        exact decide_eq_false hcustom
      rw [hdevice]
      exact ⟨random, hissued⟩
    have hjoined : s.joined request login = if s.grouping ∧ request.kind = .extended then
        { s with nextChannel := s.nextChannel + 1 }.joinGroup login.payout start.id
        else (0, s.nextChannel + 1, s.groups) := by
      rw [joined, hid]
      by_cases hkind : request.kind = .extended
      · have hselection : s.workSelection = false := by
          simpa [hkind] using hcustom
        simp [hkind, hselection]
      · simp [hkind]
    rw [hjoined, hissued.kept.id]
    rw [hs']
    rfl

omit [Hasher] in
lemma setup_eq_ok {s s' : Session} {setup : SetupConnection} {frames : List Frame}
    (h : s.setup setup = .ok (s', frames)) : s.setupFlags = none ∧ s' = { s with
      workSelection := s'.workSelection
      setupFlags := s'.setupFlags
      grouping := s'.grouping } := by
  unfold Session.setup at h
  obtain ⟨hnone, h⟩ := Except.ite_error_eq_ok.mp h
  refine ⟨by simpa using hnone, ?_⟩
  split at h
  · cases h
    rfl
  · cases h
    rfl

lemma change_updateChannel (s : Session) (id : UInt32) (validRate : Bool) (maximum : Hash) :
    Change s (s.updateChannel id validRate maximum).1 := by
  unfold updateChannel
  split
  · exact .worked (.of_channels rfl le_rfl)
  rename_i c hc
  split_ifs with hrate hmeets
  · exact .worked (.of_channels rfl le_rfl)
  · exact .worked (.of_channels rfl le_rfl)
  · exact .updated hc (by simpa using hmeets)

/-- What a message that is answered does to a session. -/
inductive Received (s : Session) (lanes : Lanes) (now : UInt32) : Message → Session → Prop
  | setup {asked : SetupConnection} {s' : Session} {frames : List Frame} :
      s.setup asked = .ok (s', frames) → Received s lanes now (.setupConnection asked) s'
  | extensions (asked : List UInt16) (disclosure : Bool) :
      Received s lanes now (.requestExtensions asked) { s with mergeDisclosure := disclosure }
  | refused (request : OpenRequest) : Received s lanes now (.openChannel request) s
  | opened {request : OpenRequest} {login : Login} {start c : Channel} {s' : Session} :
      s.setupFlags ≠ none → Opened s s' lanes request login start c →
      Received s lanes now (.openChannel request) s'
  | submitted (kind : ChannelKind) (share : Share) :
      Received s lanes now (.submitShares kind share) (s.submit share kind now).2
  | updated (id : UInt32) (validRate : Bool) (maximum : Hash) :
      Received s lanes now (.updateChannel id validRate maximum)
        (s.updateChannel id validRate maximum).1
  | closed (id : UInt32) : Received s lanes now (.closeChannel id) (s.closeChannel id)
  | custom (request : SetCustomMiningJob) (redeemed : Except String Custom) :
      Received s lanes now (.setCustomMiningJob request redeemed)
        (s.customJob request redeemed now).2

lemma receive_cases {s s' : Session} {lanes lanes' : Lanes} {random : ℕ → UInt8} {message : Message}
    {now : UInt32} {responses : Responses}
    (h : s.receive lanes random message now = .ok (s', lanes', responses)) :
    Received s lanes now message s' := by
  cases message with
  | setupConnection asked =>
    obtain ⟨⟨s1, frames⟩, hsetup, h⟩ := Except.bind_eq_ok.mp h
    cases h
    exact .setup hsetup
  | requestExtensions asked =>
    obtain ⟨-, h⟩ := Except.ite_error_eq_ok.mp h
    cases h
    exact .extensions asked _
  -- every other message needs a connection that was set up
  | unsupported =>
    unfold receive at h
    simp only at h
    split at h
    · cases h
    · cases h
  | openChannel request =>
    unfold receive at h
    simp only at h
    split at h
    · cases h
    rename_i flags hflags
    by_cases hkind : request.kind = .extended ∧ flags &&& 1 ≠ 0
    · rw [if_pos hkind] at h
      cases h
      exact .refused request
    · rw [if_neg hkind] at h
      obtain ⟨⟨s1, lanes1, frames⟩, hopen, h⟩ := Except.bind_eq_ok.mp h
      cases h
      rcases openChannel_cases hopen with ⟨rfl, -⟩ | ⟨login, start, c, hopened, -⟩
      · exact .refused request
      · exact .opened (by rw [hflags]; simp) hopened
  | submitShares kind share =>
    unfold receive at h
    simp only at h
    split at h
    · cases h
    · cases h
      exact .submitted kind share
  | updateChannel id validRate maximum =>
    unfold receive at h
    simp only at h
    split at h
    · cases h
    · cases h
      exact .updated id validRate maximum
  | closeChannel id =>
    unfold receive at h
    simp only at h
    split at h
    · cases h
    · cases h
      exact .closed id
  | setCustomMiningJob request redeemed =>
    unfold receive at h
    simp only at h
    split at h
    · cases h
    · cases h
      exact .custom request redeemed

lemma receive_change {s s' : Session} (hids : s.OwnIds) {lanes lanes' : Lanes} {random : ℕ → UInt8}
    {message : Message} {now : UInt32} {responses : Responses}
    (h : s.receive lanes random message now = .ok (s', lanes', responses)) : Change s s' := by
  cases receive_cases h with
  | setup hsetup =>
    obtain ⟨hnone, hs'⟩ := setup_eq_ok hsetup
    exact .setup hnone hs'
  | extensions asked disclosure => exact .worked (.of_channels rfl le_rfl)
  | refused request => exact .worked (.of_channels rfl le_rfl)
  | opened hflags hopened => exact .opened hflags hopened
  | submitted kind share => exact .worked (worked_submit s share kind now)
  | updated id validRate maximum => exact change_updateChannel s id validRate maximum
  | closed id => exact .closed id
  | custom request redeemed => exact .worked (worked_customJob hids request redeemed now)

lemma step_change {s s' : Session} (hids : s.OwnIds) {lanes lanes' : Lanes} {op : Op}
    {frames : List Frame} (h : s.step lanes op = .ok (s', lanes', frames)) : Change s s' := by
  cases op with
  | setJob random id generation template payout => exact .worked (worked_setJob h)
  | retarget desired random nextId =>
    obtain ⟨⟨s1, next, frames1⟩, hretarget, h⟩ := Except.bind_eq_ok.mp h
    cases h
    exact .worked (worked_retarget hretarget)
  | revokeJob =>
    cases h
    exact .worked (worked_revokeJob s)
  | receive random message now =>
    obtain ⟨⟨s1, lanes1, responses⟩, hreceive, h⟩ := Except.bind_eq_ok.mp h
    cases h
    exact receive_change hids hreceive

end Session

end Pickaxe
