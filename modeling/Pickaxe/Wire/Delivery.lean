/-
# Who gets a job

A new template is announced to each channel once: to itself, or to its group when that has
two members or more.  `setJob_delivers` says so for every session that has the invariant,
and `session_invariant` puts it together with what every run keeps.
-/
import Pickaxe.Wire.Invariant

namespace Pickaxe

open Lib Merge Jd

/-! ## Announcements -/

/-- The frames that announce a job to an address: the job, and its parent unless it starts at
once. -/
def Job.announce (job : Job) (address : UInt32) (kind : ChannelKind) (immediate : Bool) :
    List Frame :=
  let minNtime := if immediate then some job.template.currentTime else none
  (match kind with
    | .standard => .newMiningJob address job.id minNtime job.template.version
        job.standardCoinbase.merkleRoot
    | .extended => .newExtendedMiningJob address job.id minNtime job.template.version
        (job.template.versionMask != 0) job.parts.merklePath job.parts.pre job.parts.suffix) ::
    if immediate then [] else [.setNewPrevHash address job.id job.template.previousHash
      job.template.currentTime job.template.bits]

lemma framesFor_eq_ok {address : UInt32} {kind : ChannelKind} {job : Job} {immediate : Bool}
    {frames : List Frame} (h : framesFor address kind job immediate = .ok frames) :
    frames = job.announce address kind immediate := by
  unfold framesFor at h
  simp only at h
  cases kind with
  | standard =>
    obtain ⟨new, hnew, h⟩ := Except.bind_eq_ok.mp h
    cases hnew
    cases h
    rfl
  | extended =>
    simp only at h
    by_cases h1 : job.parts.merklePath.length > 255
    · rw [if_pos h1] at h
      cases h
    by_cases h2 : job.parts.pre.length > 65535
    · rw [if_neg h1, if_pos h2] at h
      cases h
    by_cases h3 : job.parts.suffix.length > 65535
    · rw [if_neg h1, if_neg h2, if_pos h3] at h
      cases h
    rw [if_neg h1, if_neg h2, if_neg h3] at h
    cases h
    rfl

lemma jobFrames_eq_ok {c : Channel} {immediate : Bool} {frames : List Frame}
    (h : jobFrames c immediate = .ok frames) :
    ∃ job, c.job = some job ∧ frames = job.announce c.id c.kind immediate := by
  unfold jobFrames at h
  split at h
  · cases h
  · rename_i job hjob
    exact ⟨job, hjob, framesFor_eq_ok h⟩

lemma jobAddress_announce {job : Job} {address : UInt32} {kind : ChannelKind} {immediate : Bool}
    {f : Frame} (h : f ∈ job.announce address kind immediate) : f.jobAddress = some address := by
  unfold Job.announce at h
  rcases List.mem_cons.mp h with rfl | h
  · cases kind with
    | standard => rfl
    | extended => rfl
  · split_ifs at h
    · cases h
    · rw [List.mem_singleton.mp h]
      rfl

/-- Jobs of one template that make one frame are announced alike. -/
lemma Job.announce_eq {job first : Job} (h : job.sameFrame first = true)
    (htemplate : job.template = first.template) (address : UInt32) (immediate : Bool) :
    first.announce address .extended immediate = job.announce address .extended immediate := by
  simp only [Job.sameFrame, Bool.and_eq_true, beq_iff_eq] at h
  obtain ⟨⟨⟨⟨⟨hid, hpre⟩, hsuffix⟩, hpath⟩, -⟩, -⟩ := h
  simp only [Job.announce, hid, hpre, hsuffix, hpath, htemplate]

/-- A list of channels' own announcements. -/
lemma eachJobFrames_eq_ok {immediate : Channel → Bool} {l : List Channel} {frames : List Frame}
    (h : eachJobFrames immediate l = .ok frames) :
    ∃ own : Channel → List Frame, frames = l.flatMap own ∧
      ∀ c ∈ l, jobFrames c (immediate c) = .ok (own c) := by
  refine ⟨fun c => match jobFrames c (immediate c) with
    | .ok frames => frames
    | .error _ => [], ?_⟩
  induction l generalizing frames with
  | nil =>
    cases h
    exact ⟨rfl, fun c hc => absurd hc List.not_mem_nil⟩
  | cons c rest ih =>
    obtain ⟨own, hown, h⟩ := Except.bind_eq_ok.mp h
    obtain ⟨others, hothers, h⟩ := Except.bind_eq_ok.mp h
    cases h
    obtain ⟨heq, hall⟩ := ih hothers
    refine ⟨by rw [List.flatMap_cons, hown, ← heq], fun d hd => ?_⟩
    rcases List.mem_cons.mp hd with rfl | hd
    · simp only [hown]
    · exact hall d hd

namespace Session

/-- The groups' frames, one group after the other. -/
lemma eachGroupFrames_eq_ok {channels : OrdMap UInt32 Channel} {immediate : Channel → Bool}
    {l : List (UInt32 × Group)} {frames : List Frame}
    (h : eachGroupFrames channels immediate l = .ok frames) :
    ∃ shared : UInt32 × Group → List Frame, frames = l.flatMap shared ∧
      ∀ g ∈ l, groupFrames g.1 (g.2.members.keys.filterMap channels.find?) immediate =
        .ok (shared g) := by
  refine ⟨fun g => match groupFrames g.1 (g.2.members.keys.filterMap channels.find?) immediate with
    | .ok frames => frames
    | .error _ => [], ?_⟩
  induction l generalizing frames with
  | nil =>
    cases h
    exact ⟨rfl, fun c hc => absurd hc List.not_mem_nil⟩
  | cons g rest ih =>
    obtain ⟨own, hown, h⟩ := Except.bind_eq_ok.mp h
    obtain ⟨others, hothers, h⟩ := Except.bind_eq_ok.mp h
    cases h
    obtain ⟨heq, hall⟩ := ih hothers
    refine ⟨by rw [List.flatMap_cons, hown, ← heq], fun d hd => ?_⟩
    rcases List.mem_cons.mp hd with rfl | hd
    · simp only [hown]
    · exact hall d hd

/-! ## Who hears an address -/

/-- Whether the channel `k` hears what is sent to an address: its own, or its group's. -/
def hears (s : Session) (k address : UInt32) : Bool :=
  address == k || match s.groups.find? address with
    | none => false
    | some group => group.members.keys.contains k

/-- The announcements among `frames` that the channel `k` hears. -/
def reaching (s : Session) (k : UInt32) (frames : List Frame) : List Frame :=
  frames.filter fun f => match f.jobAddress with
    | none => false
    | some address => s.hears k address

lemma reaching_append (s : Session) (k : UInt32) (frames frames' : List Frame) :
    s.reaching k (frames ++ frames') = s.reaching k frames ++ s.reaching k frames' :=
  List.filter_append _ _

lemma reaching_flatMap {α : Type} (s : Session) (k : UInt32) (l : List α) (f : α → List Frame) :
    s.reaching k (l.flatMap f) = l.flatMap fun a => s.reaching k (f a) :=
  List.filter_flatMap ..

lemma reaching_of_none {s : Session} {k : UInt32} {frames : List Frame}
    (h : ∀ f ∈ frames, f.jobAddress = none) : s.reaching k frames = [] := by
  rw [reaching, List.filter_eq_nil_iff]
  intro f hf
  rw [h f hf]
  exact Bool.false_ne_true

lemma reaching_announce (s : Session) (k : UInt32) (job : Job) (address : UInt32)
    (kind : ChannelKind) (immediate : Bool) :
    s.reaching k (job.announce address kind immediate) =
      if s.hears k address then job.announce address kind immediate else [] := by
  unfold reaching
  split_ifs with h
  · rw [List.filter_eq_self]
    intro f hf
    rw [jobAddress_announce hf]
    exact h
  · rw [List.filter_eq_nil_iff]
    intro f hf
    rw [jobAddress_announce hf]
    exact h

lemma hears_self (s : Session) (k : UInt32) : s.hears k k = true := by
  simp [hears]

/-- Another channel's address is not a group's. -/
lemma Inv.hears_other {s : Session} (hs : s.Inv) {k k' : UInt32} (hk' : k' ∈ s.channels.keys)
    (hne : k' ≠ k) : s.hears k k' = false := by
  have hnone : s.groups.find? k' = none := by
    cases hfind : s.groups.find? k' with
    | none => rfl
    | some group => exact absurd (OrdMap.mem_keys.mpr ⟨group, hfind⟩) (hs.disjoint k' hk')
  simp [hears, hnone, hne]

lemma Inv.hears_group {s : Session} (hs : s.Inv) {k g : UInt32} {group : Group}
    (hk : k ∈ s.channels.keys) (hg : s.groups.find? g = some group) :
    s.hears k g = true ↔ k ∈ group.members.keys := by
  have hne : g ≠ k := by
    rintro rfl
    exact hs.disjoint g hk (OrdMap.mem_keys.mpr ⟨group, hg⟩)
  simp [hears, hg, hne]

/-- A channel is in one group at most. -/
lemma Inv.group_unique {s : Session} (hs : s.Inv) {k g h : UInt32} {a b : Group}
    (ha : s.groups.find? g = some a) (hb : s.groups.find? h = some b) (hka : k ∈ a.members.keys)
    (hkb : k ∈ b.members.keys) : g = h := by
  obtain ⟨c, hc, -, -, hvalid⟩ := (hs.members g a ha k).mp hka
  obtain ⟨d, hd, -, -, hvalid'⟩ := (hs.members h b hb k).mp hkb
  rw [hc] at hd
  cases hd
  exact hs.distinct g h a b ha hb
    ((hs.payouts g a ha).unique (hs.payouts h b hb) hvalid hvalid')

lemma mem_broadcastGroups {s : Session} {g : UInt32} {group : Group} :
    (g, group) ∈ s.broadcastGroups ↔ s.groups.find? g = some group ∧ 2 ≤ group.members.size := by
  rw [broadcastGroups, List.mem_filter, OrdMap.mem_entries, decide_eq_true_eq]

lemma isBroadcast_iff {s : Session} {k : UInt32} : s.isBroadcast k = true ↔
    ∃ g group, (g, group) ∈ s.broadcastGroups ∧ k ∈ group.members.keys := by
  simp [isBroadcast, List.any_eq_true]

lemma jobAddress_disclose {s : Session} {k : UInt32} {f : Frame} (h : f ∈ s.disclose k) :
    f.jobAddress = none := by
  unfold disclose at h
  split at h
  · cases h
  · split at h
    · cases h
    · split_ifs at h
      · rw [List.mem_singleton.mp h]
        rfl
      · cases h

variable [Hasher]

/-! ## A new template -/

/-- What a new template leaves and sends, channel by channel and group by group. -/
structure SetJob (s s' : Session) (random : UInt32 → ℕ → UInt8) (id : UInt32)
    (generation : UInt64) (template : BchTemplate) (payout : BchPayout) (frames : List Frame)
    (sent : OrdMap UInt32 Sent) (shared : UInt32 × Group → List Frame) : Prop where
  before : s.Inv
  after : s'.Inv
  keys : sent.keys = s.channels.keys
  on : ∀ k r, sent.find? k = some r → ∃ c maximum, s.channels.find? k = some c ∧
    SetOn maximum s.isBroadcast random id generation template payout c r
  groups : s'.groups = s.groups
  channels : s'.channels = sent.mapValues fun _ r => r.channel
  grouped : ∀ g ∈ s.broadcastGroups,
    groupFrames g.1 (g.2.members.keys.filterMap s'.channels.find?)
      (fun c => ((sent.find? c.id).map fun r => r.immediate).getD false) = .ok (shared g)
  frames : frames = (sent.entries.flatMap fun e => e.2.frames) ++ s.broadcastGroups.flatMap shared ++
    s'.channels.keys.flatMap s'.disclose

lemma setJob_eq_ok {s s' : Session} {lanes lanes' : Lanes} {random : UInt32 → ℕ → UInt8}
    {id : UInt32} {generation : UInt64} {template : BchTemplate} {payout : BchPayout}
    {frames : List Frame} (hs : s.Inv)
    (h : s.setJobWithPayout lanes random id generation template payout = .ok (s', lanes', frames)) :
    ∃ sent shared, SetJob s s' random id generation template payout frames sent shared := by
  have hafter := (worked_setJob h).inv hs
  obtain ⟨sent, grouped, hkeys, hon, hgrouped, hs', hframes⟩ := setJobWithPayout_eq_ok h
  obtain ⟨shared, rfl, hshared⟩ := eachGroupFrames_eq_ok hgrouped
  have hchannels : s'.channels = sent.mapValues fun _ r => r.channel := by rw [hs']
  refine ⟨sent, shared, hs, hafter, hkeys, ?_, by rw [hs'], hchannels, ?_, ?_⟩
  · intro k r hr
    obtain ⟨c, hc, hset⟩ := hon k r hr
    obtain ⟨maximum, -, hset⟩ := setJobOn_eq_ok hset
    exact ⟨c, maximum, hc, hset⟩
  · rw [hchannels]
    exact hshared
  · rw [hframes, OrdMap.values, List.flatMap_map]

namespace SetJob

variable {s s' : Session} {random : UInt32 → ℕ → UInt8} {id : UInt32} {generation : UInt64}
  {template : BchTemplate} {payout : BchPayout} {frames : List Frame}
  {sent : OrdMap UInt32 Sent} {shared : UInt32 × Group → List Frame}

lemma find? (h : SetJob s s' random id generation template payout frames sent shared) {k : UInt32}
    {c' : Channel} (hc' : s'.channels.find? k = some c') :
    ∃ r c maximum, sent.find? k = some r ∧ r.channel = c' ∧ s.channels.find? k = some c ∧
      SetOn maximum s.isBroadcast random id generation template payout c r ∧ c.Kept c' := by
  rw [h.channels, OrdMap.find?_mapValues, Option.map_eq_some_iff] at hc'
  obtain ⟨r, hr, rfl⟩ := hc'
  obtain ⟨c, maximum, hc, hon⟩ := h.on k r hr
  obtain ⟨ops, hops, -⟩ := hon.steps
  exact ⟨r, c, maximum, hr, rfl, hc, hon, hops ▸ c.kept_steps ops⟩

/-- The job that a device's channel has now. -/
lemma job (h : SetJob s s' random id generation template payout frames sent shared) {k : UInt32}
    {c' : Channel} (hc' : s'.channels.find? k = some c') (hdevice : c'.customOnly = false) :
    ∃ job, c'.job = some job ∧ job.id = id ∧ job.template = template := by
  obtain ⟨r, c, maximum, hr, rfl, hc, hon, hkept⟩ := h.find? hc'
  obtain ⟨hissued, -⟩ := hon.device (hkept.customOnly ▸ hdevice)
  obtain ⟨job, current, hjob, hcurrent, hcontent⟩ := hissued.job
  obtain ⟨-, hown⟩ := Channel.installWithPayout_eq_ok (Prod.ext hjob rfl)
  refine ⟨current, hcurrent, ?_, ?_⟩
  · rw [← hown.id_eq, Job.content_eq hcontent]
  · rw [← hown.template_eq, Job.content_eq hcontent]

/-- A channel hears the frames of its own turn, and of no other channel's. -/
lemma reaching_turns (h : SetJob s s' random id generation template payout frames sent shared)
    {k : UInt32} {r : Sent} (hr : sent.find? k = some r) :
    s'.reaching k (sent.entries.flatMap fun e => e.2.frames) = s'.reaching k r.frames := by
  rw [reaching_flatMap]
  refine flatMap_eq_of_key (a := (k, r)) Prod.fst sent.nodup_keys (OrdMap.mem_entries.mpr hr) ?_
  rintro ⟨k', r'⟩ hmem hne
  have hr' : sent.find? k' = some r' := OrdMap.mem_entries.mp hmem
  have hc' : s'.channels.find? k' = some r'.channel := by
    rw [h.channels, OrdMap.find?_mapValues, hr']
    rfl
  obtain ⟨c, maximum, hc, hon⟩ := h.on k' r' hr'
  cases hcustom : c.customOnly with
  | true => exact reaching_of_none (hon.custom hcustom).2
  | false =>
    obtain ⟨-, targets, own, hframes, htargets, hown⟩ := hon.device hcustom
    rw [hframes, reaching_append, reaching_of_none htargets, List.nil_append]
    split_ifs at hown
    · rw [hown]
      rfl
    · obtain ⟨job, -, rfl⟩ := jobFrames_eq_ok hown
      have hid : r'.channel.id = k' := h.after.ids k' _ hc'
      rw [reaching_announce, hid, h.after.hears_other (OrdMap.mem_keys.mpr ⟨_, hc'⟩) hne]
      rfl

/-- A channel hears nothing of a group it is not in. -/
lemma reaching_shared_other
    (h : SetJob s s' random id generation template payout frames sent shared) {k g : UInt32}
    {group : Group} (hk : k ∈ s'.channels.keys) (hg : (g, group) ∈ s.broadcastGroups)
    (hnot : k ∉ group.members.keys) : s'.reaching k (shared (g, group)) = [] := by
  have hgroup : s'.groups.find? g = some group := by
    rw [h.groups]
    exact (mem_broadcastGroups.mp hg).1
  have hshared := h.grouped (g, group) hg
  unfold groupFrames at hshared
  split at hshared
  · cases hshared
  rename_i first hfirst
  split_ifs at hshared
  · rw [framesFor_eq_ok hshared, reaching_announce, if_neg]
    rw [h.after.hears_group hk hgroup]
    exact hnot
  · obtain ⟨own, hown, hall⟩ := eachJobFrames_eq_ok hshared
    rw [hown, reaching_flatMap, List.flatMap_eq_nil_iff]
    intro c hc
    obtain ⟨m, hm, hfind⟩ := List.mem_filterMap.mp hc
    obtain ⟨job, -, hframes⟩ := jobFrames_eq_ok (hall c hc)
    have hne : m ≠ k := by
      rintro rfl
      exact hnot hm
    rw [hframes, reaching_announce, h.after.ids m c hfind,
      h.after.hears_other (OrdMap.mem_keys.mpr ⟨c, hfind⟩) hne]
    rfl

/-- The groups' frames that a channel hears: its own group's, if that is broadcast to. -/
lemma reaching_groups (h : SetJob s s' random id generation template payout frames sent shared)
    {k g : UInt32} {group : Group} (hk : k ∈ s'.channels.keys) (hg : (g, group) ∈ s.broadcastGroups)
    (hmem : k ∈ group.members.keys) :
    s'.reaching k (s.broadcastGroups.flatMap shared) = s'.reaching k (shared (g, group)) := by
  rw [reaching_flatMap]
  have hnodup : (s.broadcastGroups.map Prod.fst).Nodup :=
    (s.groups.filter fun _ group => 2 ≤ group.members.size).nodup_keys
  refine flatMap_eq_of_key (a := (g, group)) Prod.fst hnodup hg ?_
  rintro ⟨g', group'⟩ hg' hne
  refine h.reaching_shared_other hk hg' fun hmem' => hne ?_
  exact h.before.group_unique (mem_broadcastGroups.mp hg').1 (mem_broadcastGroups.mp hg).1 hmem' hmem

lemma reaching_groups_none
    (h : SetJob s s' random id generation template payout frames sent shared) {k : UInt32}
    (hk : k ∈ s'.channels.keys) (hnot : s.isBroadcast k = false) :
    s'.reaching k (s.broadcastGroups.flatMap shared) = [] := by
  rw [reaching_flatMap, List.flatMap_eq_nil_iff]
  rintro ⟨g, group⟩ hg
  refine h.reaching_shared_other hk hg fun hmem => ?_
  rw [isBroadcast_iff.mpr ⟨g, group, hg, hmem⟩] at hnot
  cases hnot

lemma reaching_frames (h : SetJob s s' random id generation template payout frames sent shared)
    {k : UInt32} {r : Sent} (hr : sent.find? k = some r) :
    s'.reaching k frames =
      s'.reaching k r.frames ++ s'.reaching k (s.broadcastGroups.flatMap shared) := by
  have hdisclosed : s'.reaching k (s'.channels.keys.flatMap s'.disclose) = [] := by
    apply reaching_of_none
    intro f hf
    obtain ⟨k', -, hf⟩ := List.mem_flatMap.mp hf
    exact jobAddress_disclose hf
  rw [h.frames, reaching_append, reaching_append, h.reaching_turns hr, hdisclosed, List.append_nil]

end SetJob

/-- A channel hears exactly one announcement, of the job installed on it now, to itself or to
its group of two members or more; the job starts at once only if all who are addressed
already worked on its parent and bits. -/
def Delivered (s s' : Session) (id : UInt32) (template : BchTemplate) (frames : List Frame)
    (k : UInt32) (c : Channel) : Prop :=
  ∃ job address immediate, c.job = some job ∧ job.id = id ∧ job.template = template ∧
    s'.reaching k frames = job.announce address c.kind immediate ∧
    (address = k ∨ ∃ group, s'.groups.find? address = some group ∧ 2 ≤ group.members.size ∧
      k ∈ group.members.keys) ∧
    (immediate = true → ∀ k' d, s'.hears k' address = true → s.channels.find? k' = some d →
      sameTip d template = true)

namespace SetJob

variable {s s' : Session} {random : UInt32 → ℕ → UInt8} {id : UInt32} {generation : UInt64}
  {template : BchTemplate} {payout : BchPayout} {frames : List Frame}
  {sent : OrdMap UInt32 Sent} {shared : UInt32 × Group → List Frame}

/-- A Job Declaration client's channel is sent no job. -/
lemma custom (h : SetJob s s' random id generation template payout frames sent shared) {k : UInt32}
    {c' : Channel} (hc' : s'.channels.find? k = some c') (hcustom : c'.customOnly = true) :
    s'.reaching k frames = [] := by
  obtain ⟨r, c, maximum, hr, rfl, hc, hon, hkept⟩ := h.find? hc'
  have hnot : s.isBroadcast k = false := by
    by_contra hbroadcast
    rw [Bool.not_eq_false, isBroadcast_iff] at hbroadcast
    obtain ⟨g, group, hg, hmem⟩ := hbroadcast
    obtain ⟨d, hd, -, hdevice, -⟩ :=
      (h.before.members g group (mem_broadcastGroups.mp hg).1 k).mp hmem
    rw [hc] at hd
    cases hd
    rw [hkept.customOnly, hdevice] at hcustom
    cases hcustom
  rw [h.reaching_frames hr, reaching_of_none (hon.custom (hkept.customOnly ▸ hcustom)).2,
    h.reaching_groups_none (OrdMap.mem_keys.mpr ⟨_, hc'⟩) hnot]
  rfl

/-- Whether a channel's job can start at once, as the groups' frames look it up. -/
lemma immediate (h : SetJob s s' random id generation template payout frames sent shared)
    {k : UInt32} {c c' : Channel} (hc' : s'.channels.find? k = some c')
    (hc : s.channels.find? k = some c) :
    ((sent.find? c'.id).map fun r => r.immediate).getD false = sameTip c template := by
  obtain ⟨r, d, maximum, hr, -, hd, hon, -⟩ := h.find? hc'
  rw [hc] at hd
  cases hd
  rw [h.after.ids k c' hc', hr]
  exact hon.immediate

/-- A channel that is not part of a broadcast is sent its own frame. -/
lemma delivered_own (h : SetJob s s' random id generation template payout frames sent shared)
    {k : UInt32} {c' : Channel} (hc' : s'.channels.find? k = some c')
    (hdevice : c'.customOnly = false) (hnot : s.isBroadcast k = false) :
    s.Delivered s' id template frames k c' := by
  obtain ⟨job, hjob, hid, htemplate⟩ := h.job hc' hdevice
  obtain ⟨r, c, maximum, hr, rfl, hc, hon, hkept⟩ := h.find? hc'
  have hk : k ∈ s'.channels.keys := OrdMap.mem_keys.mpr ⟨_, hc'⟩
  have hck : c.id = k := h.before.ids k c hc
  obtain ⟨-, targets, own, hframes, htargets, hown⟩ := hon.device (hkept.customOnly ▸ hdevice)
  rw [hck, if_neg (by rw [hnot]; simp)] at hown
  obtain ⟨job', hjob', hannounce⟩ := jobFrames_eq_ok hown
  rw [hjob] at hjob'
  cases hjob'
  rw [h.after.ids k _ hc'] at hannounce
  refine ⟨job, k, r.immediate, hjob, hid, htemplate, ?_, Or.inl rfl, ?_⟩
  · rw [h.reaching_frames hr, hframes, reaching_append, reaching_of_none htargets, hannounce,
      reaching_announce, if_pos (hears_self s' k), h.reaching_groups_none hk hnot,
      List.nil_append, List.append_nil]
  · intro himmediate k' d hhears hd
    -- a channel's address is no group's, so only the channel itself hears it
    have hk' : k' = k := by
      by_contra hne
      rw [h.after.hears_other hk (Ne.symm hne)] at hhears
      cases hhears
    rw [hk', hc] at hd
    cases hd
    rw [← hon.immediate]
    exact himmediate

/-- The members of a group, as its frames look them up. -/
lemma mem_members (h : SetJob s s' random id generation template payout frames sent shared)
    {group : Group} {k : UInt32} {c : Channel}
    (hc : s'.channels.find? k = some c) :
    c ∈ group.members.keys.filterMap s'.channels.find? ↔ k ∈ group.members.keys := by
  rw [List.mem_filterMap]
  constructor
  · rintro ⟨k', hk', hc'⟩
    rw [← h.after.ids k c hc, h.after.ids k' c hc']
    exact hk'
  · exact fun hk => ⟨k, hk, hc⟩

lemma nodup_members (h : SetJob s s' random id generation template payout frames sent shared)
    (members : OrdMap UInt32 Unit) :
    ((members.keys.filterMap s'.channels.find?).map Channel.id).Nodup := by
  rw [List.Nodup, List.pairwise_map, List.pairwise_filterMap]
  refine members.nodup_keys.imp fun {a b} hne c hc d hd heq => hne ?_
  rw [← h.after.ids a c hc, ← h.after.ids b d hd, heq]

/-- A channel in a group of two members or more is sent its group's frame, or its own if the
members' jobs differ. -/
lemma delivered_group (h : SetJob s s' random id generation template payout frames sent shared)
    {k g : UInt32} {c' : Channel} {group : Group} (hc' : s'.channels.find? k = some c')
    (hdevice : c'.customOnly = false) (hg : (g, group) ∈ s.broadcastGroups)
    (hmem : k ∈ group.members.keys) : s.Delivered s' id template frames k c' := by
  obtain ⟨job, hjob, hid, htemplate⟩ := h.job hc' hdevice
  obtain ⟨r, c, maximum, hr, rfl, hc, hon, hkept⟩ := h.find? hc'
  obtain ⟨hfind, hsize⟩ := mem_broadcastGroups.mp hg
  have hgroup : s'.groups.find? g = some group := by
    rw [h.groups]
    exact hfind
  have hk : k ∈ s'.channels.keys := OrdMap.mem_keys.mpr ⟨_, hc'⟩
  have hkind : r.channel.kind = .extended := by
    obtain ⟨d, hd, hkind, -⟩ := (h.after.members g group hgroup k).mp hmem
    rw [hc'] at hd
    cases hd
    exact hkind
  -- its own turn announces nothing
  have hturn : s'.reaching k r.frames = [] := by
    obtain ⟨-, targets, own, hframes, htargets, hown⟩ := hon.device (hkept.customOnly ▸ hdevice)
    rw [h.before.ids k c hc, if_pos (isBroadcast_iff.mpr ⟨g, group, hg, hmem⟩)] at hown
    rw [hframes, hown, List.append_nil]
    exact reaching_of_none htargets
  have hreach : s'.reaching k frames = s'.reaching k (shared (g, group)) := by
    rw [h.reaching_frames hr, hturn, h.reaching_groups hk hg hmem]
    rfl
  have hmember : r.channel ∈ group.members.keys.filterMap s'.channels.find? ↔
    k ∈ group.members.keys := h.mem_members hc'
  set starts := fun c : Channel => ((sent.find? c.id).map fun r => r.immediate).getD false
    with hstarts
  have hshared := h.grouped (g, group) hg
  unfold groupFrames at hshared
  split at hshared
  · cases hshared
  rename_i first hfirst
  obtain ⟨head, hhead, hheadjob⟩ := Option.bind_eq_some_iff.mp hfirst
  split_ifs at hshared with hall
  · -- one frame for all members
    have hfirsttemplate : first.template = template := by
      obtain ⟨m, hm, hhead'⟩ := List.mem_filterMap.mp (List.mem_of_mem_head? hhead)
      obtain ⟨d, hd, -, hdevice', -⟩ := (h.after.members g group hgroup m).mp hm
      rw [hhead'] at hd
      cases hd
      obtain ⟨job', hjob', -, htemplate'⟩ := h.job hhead' hdevice'
      rw [hheadjob] at hjob'
      cases hjob'
      exact htemplate'
    have hsame : job.sameFrame first = true := by
      have := List.all_eq_true.mp hall r.channel (hmember.mpr hmem)
      rwa [hjob] at this
    refine ⟨job, g, (group.members.keys.filterMap s'.channels.find?).all starts, hjob, hid,
      htemplate, ?_, Or.inr ⟨group, hgroup, hsize, hmem⟩, ?_⟩
    rotate_left
    · intro himmediate k' d hhears hd
      have hk' : k' ∈ s'.channels.keys := by
        have hin : k' ∈ s.channels.keys := OrdMap.mem_keys.mpr ⟨d, hd⟩
        rwa [h.channels, OrdMap.keys_mapValues, h.keys]
      obtain ⟨d', hd'⟩ := OrdMap.mem_keys.mp hk'
      rw [h.after.hears_group hk' hgroup] at hhears
      rw [← h.immediate hd' hd]
      exact List.all_eq_true.mp himmediate d' ((h.mem_members hd').mpr hhears)
    · rw [hreach, framesFor_eq_ok hshared, reaching_announce,
        if_pos ((h.after.hears_group hk hgroup).mpr hmem), hkind]
      exact Job.announce_eq hsame (htemplate.trans hfirsttemplate.symm) g _
  · -- each member's own
    obtain ⟨own, hown, hframes⟩ := eachJobFrames_eq_ok hshared
    obtain ⟨job', hjob', hannounce⟩ := jobFrames_eq_ok (hframes r.channel (hmember.mpr hmem))
    rw [hjob] at hjob'
    cases hjob'
    have hannounce : own r.channel = job.announce k r.channel.kind (starts r.channel) :=
      hannounce.trans (congrArg (fun a => job.announce a _ _) (h.after.ids k _ hc'))
    refine ⟨job, k, starts r.channel, hjob, hid, htemplate, ?_, Or.inl rfl, ?_⟩
    rotate_left
    · intro himmediate k' d hhears hd
      have hk' : k' = k := by
        by_contra hne
        rw [h.after.hears_other hk (Ne.symm hne)] at hhears
        cases hhears
      rw [hk', hc] at hd
      cases hd
      rw [← h.immediate hc' hc]
      exact himmediate
    · rw [hreach, hown, reaching_flatMap]
      rw [flatMap_eq_of_key (a := r.channel) Channel.id (h.nodup_members _) (hmember.mpr hmem)]
      · rw [hannounce, reaching_announce, if_pos (hears_self s' k)]
      · intro d hd hne
        obtain ⟨m, -, hfound⟩ := List.mem_filterMap.mp hd
        obtain ⟨job', -, hd'⟩ := jobFrames_eq_ok (hframes d hd)
        rw [h.after.ids m d hfound, h.after.ids k _ hc'] at hne
        rw [hd', reaching_announce, h.after.ids m d hfound,
          h.after.hears_other (OrdMap.mem_keys.mpr ⟨d, hfound⟩) hne]
        rfl

end SetJob

/-- Every channel that mines the pool's jobs is sent the job it has now, once. -/
lemma setJob_delivers {s s' : Session} {lanes lanes' : Lanes} {random : UInt32 → ℕ → UInt8}
    {id : UInt32} {generation : UInt64} {template : BchTemplate} {payout : BchPayout}
    {frames : List Frame} (hs : s.Inv)
    (h : s.setJobWithPayout lanes random id generation template payout = .ok (s', lanes', frames))
    {k : UInt32} {c : Channel} (hc : s'.channels.find? k = some c) :
    if c.customOnly then s'.reaching k frames = [] else s.Delivered s' id template frames k c := by
  obtain ⟨sent, shared, hset⟩ := setJob_eq_ok hs h
  split_ifs with hcustom
  · exact hset.custom hc hcustom
  · have hdevice : c.customOnly = false := by simpa using hcustom
    cases hbroadcast : s.isBroadcast k with
    | false => exact hset.delivered_own hc hdevice hbroadcast
    | true =>
      obtain ⟨g, group, hg, hmem⟩ := isBroadcast_iff.mp hbroadcast
      exact hset.delivered_group hc hdevice hg hmem

/-- What holds in every session a run reaches: the three maps fit together, no id is given
twice, and a new template reaches every channel as it should. -/
theorem session_invariant {start s : Session} {given : List UInt32} (hstart : start.Start)
    (hrun : Run start given s) :
    s.channels.keys = s.maximumTargets.keys ∧
      (∀ k c maximum, s.channels.find? k = some c → s.maximumTargets.find? k = some maximum →
        fromLe c.target.bytes ≤ fromLe maximum.bytes) ∧
      given.Nodup ∧ (s.channels.keys ++ s.groups.keys).Nodup ∧
      (∀ k ∈ s.channels.keys ++ s.groups.keys, k ∈ given) ∧
      (∀ g group, s.groups.find? g = some group →
        group.members.keys ≠ [] ∧ ∀ k, k ∈ group.members.keys ↔ s.Mines group.payout k) ∧
      ∀ lanes random id generation template payout s' lanes' frames,
        s.setJobWithPayout lanes random id generation template payout =
          .ok (s', lanes', frames) →
        s'.channels.keys = s.channels.keys ∧ ∀ k c, s'.channels.find? k = some c →
          if c.customOnly then s'.reaching k frames = []
          else s.Delivered s' id template frames k c := by
  obtain ⟨hs, hgiven⟩ := hrun.inv hstart
  refine ⟨hs.keys.symm, ?_, hgiven.nodup, ?_, ?_, ?_, ?_⟩
  · intro k c maximum hc hmaximum
    exact (meetsTarget_iff _ _).mp (hs.targets k c maximum hc hmaximum)
  · exact List.Nodup.append s.channels.nodup_keys s.groups.nodup_keys
      fun k hk hg => hs.disjoint k hk hg
  · intro k hk
    rcases List.mem_append.mp hk with hk | hk
    · exact hgiven.channels k hk
    · exact hgiven.groups k hk
  · exact fun g group hg => ⟨hs.nonempty g group hg, hs.members g group hg⟩
  · intro lanes random id generation template payout s' lanes' frames hset
    exact ⟨(worked_setJob hset).keys, fun k c hc => setJob_delivers hs hset hc⟩

/-! ### Two devices of one miner -/

/-- Some operations one after the other, with the ids they give. -/
def play : Lanes → Session → List UInt32 → List Op → Except String (List UInt32 × Session)
  | _, s, given, [] => .ok (given, s)
  | lanes, s, given, op :: rest =>
    match s.step lanes op with
    | .error error => .error error
    | .ok (s', lanes', _) => play lanes' s' (newIds s s' ++ given) rest

lemma run_of_play {start s s' : Session} {lanes : Lanes} {given given' : List UInt32}
    {ops : List Op} (hrun : Run start given s) (h : play lanes s given ops = .ok (given', s')) :
    Run start given' s' := by
  induction ops generalizing lanes s given with
  | nil =>
    cases h
    exact hrun
  | cons op rest ih =>
    rw [play] at h
    split at h
    · cases h
    · rename_i s1 lanes1 frames hstep
      exact ih (.next hrun hstep) h

end Session

namespace Session

/-- A session on Chipnet, as `new` makes it. -/
def sample : Session :=
  { network := .chipnet
    payout := donationAddress .chipnet
    salt := ByteVec.zero 12
    shareTarget := ⟨List.replicate 32 0xff, length_full⟩
    setupFlags := none
    nextChannel := 0
    channels := OrdMap.empty
    maximumTargets := OrdMap.empty
    current := none
    payoutPolicy := default
    pub := none
    accepted := 0
    rejected := 0
    declarator := none
    workSelection := false
    customJobs := 0
    lanes := false
    grouping := false
    groups := OrdMap.empty
    fixedVersion := false
    tokenRefusal := none
    donationChoice := none
    mergeDisclosure := false }

lemma sample_start (declarator : Option Declarator) (lanes : Bool) :
    (sample.configure none declarator false lanes).Start := by
  refine ⟨.chipnet, donationAddress .chipnet, ByteVec.zero 12, ⟨List.replicate 32 0xff, rfl⟩,
    none, declarator, false, lanes, sample, ?_, rfl⟩
  rw [new]
  have hvalid : (Config.validateCoinbaseAddress .chipnet (donationAddress .chipnet)).toOption.isSome =
      true := by decide +kernel
  obtain ⟨payout, hpayout⟩ := Except.exists_eq_ok hvalid
  rw [hpayout]
  rfl

/-- A setup, a template and two extended channels. -/
def sampleOps : List Op :=
  let request : OpenRequest := ⟨0, .extended, true, ⟨List.replicate 32 0xff, length_full⟩, 8, []⟩
  [.receive (fun _ => 0) (.setupConnection ⟨true, 2, 2, 0, "", ""⟩) 0,
    .setJob (fun _ _ => 0) 1 1 BchTemplate.sample default,
    .receive (fun _ => 0) (.openChannel request) 0,
    .receive (fun _ => 0) (.openChannel request) 0]

theorem session_invariant_sample :
    ∃ s group, @Run Hasher.fips sample [3, 1, 2] s ∧ s.groups.find? 2 = some group ∧
      s.channels.keys = [1, 3] ∧ s.Mines group.payout 1 ∧ s.Mines group.payout 3 := by
  let : Hasher := Hasher.fips
  have hstart : sample.Start := sample_start none false
  have hplay : (match @play Hasher.fips ⟨0, false⟩ sample [] sampleOps with
      | .ok (given, s) => match s.groups.find? 2 with
        | some group => decide (given = [3, 1, 2] ∧ s.channels.keys = [1, 3] ∧
            group.members.keys = [1, 3])
        | none => false
      | .error _ => false) = true := by decide +kernel
  split at hplay
  · rename_i given s hs
    split at hplay
    · rename_i group hgroup
      obtain ⟨rfl, hkeys, hmembers⟩ := of_decide_eq_true hplay
      have hrun : Run sample [3, 1, 2] s := run_of_play Run.start hs
      obtain ⟨-, -, -, -, -, hgroups, -⟩ := session_invariant hstart hrun
      have hmines := (hgroups 2 group hgroup).2
      exact ⟨s, group, hrun, hgroup, hkeys, (hmines 1).mp (by simp [hmembers]),
        (hmines 3).mp (by simp [hmembers])⟩
    · cases hplay
  · cases hplay

end Session

end Pickaxe
