/-
# Turns

What one operation of a session does to the jobs of one channel: nothing, a new job with
some of the older ones behind it, all of them gone, or a share credited.  `step_turns` says
so of every operation and every channel it leaves open.
-/
import Pickaxe.Channel.Space
import Pickaxe.Wire.Invariant

namespace Pickaxe

open Lib Merge Jd

namespace Channel

/-! ## A new job -/

/-- A new current job; behind it some of the latest jobs on its parent and bits, each with what
it has seen. -/
structure Renewed (c d : Channel) (job : Job) : Prop where
  current : d.job = some job
  fresh : c.holds job.id = false
  suffix : ∃ dropped, c.live.map Job.content = dropped ++ d.previous.map Job.content
  same_parent : ∀ old ∈ d.previous, old.template.previousHash = job.template.previousHash ∧
    old.template.bits = job.template.bits
  seen : ∀ id, d.seen.find? id =
    if id ∈ d.previous.map Job.id then c.seen.find? id else none

lemma Quiet.trans {c d e : Channel} (h : c.Quiet d) (h' : d.Quiet e) : c.Quiet e :=
  ⟨h'.job.trans h.job, h'.previous.trans h.previous, h'.seen.trans h.seen, h'.kind.trans h.kind,
    h'.extranoncePrefix.trans h.extranoncePrefix, h'.rolled.trans h.rolled,
    h'.customOnly.trans h.customOnly, h'.compact.trans h.compact⟩

lemma Quiet.refl (c : Channel) : c.Quiet c := ⟨rfl, rfl, rfl, rfl, rfl, rfl, rfl, rfl⟩

lemma Quiet.holds {c d : Channel} (h : c.Quiet d) (id : UInt32) : d.holds id = c.holds id := by
  rw [Bool.eq_iff_iff, holds_iff, holds_iff, map_id_of_content h.content_live]

lemma Fresh.live {c : Channel} (h : c.Fresh) : c.live = [] := by
  obtain ⟨hjob, hprevious, -⟩ := h
  rw [Channel.live, hjob, hprevious]
  rfl

/-- A job that stayed has a template that stayed. -/
lemma Quiet.parent {c d : Channel} (h : c.Quiet d) {parent : Option Hash}
    (hc : ∀ job ∈ c.live, parent = some job.template.previousHash) :
    ∀ job ∈ d.live, parent = some job.template.previousHash := by
  intro job hjob
  have hmem : job.content ∈ c.live.map Job.content :=
    h.content_live ▸ List.mem_map_of_mem hjob
  obtain ⟨old, hold, hcontent⟩ := List.mem_map.mp hmem
  have htemplate : old.template = job.template := by rw [Job.content_eq hcontent]
  exact htemplate ▸ hc old hold

/-- An installation between operations that leave the jobs alone. -/
lemma Installed.renewed {c c1 d1 d : Channel} {job : Job} (hc : c.Inv) (hbefore : c.Quiet c1)
    (h : c1.Installed d1 job) (hafter : d1.Quiet d) :
    ∃ current, c.Renewed d current ∧ current.content = job.content := by
  have hretained := retainPrevious_spec (hbefore.inv hc) job.template
  have hchannel := h.channel
  have hjob : d1.job = some job := by rw [hchannel]
  have hprevious : d.previous = (c1.retainPrevious job.template).previous := by
    rw [hafter.previous, hchannel]
  have hseen : d.seen = (c1.retainPrevious job.template).seen := by
    rw [hafter.seen, hchannel]
  have hcurrent := hafter.job
  rw [hjob, Option.map_some, Option.map_eq_some_iff] at hcurrent
  obtain ⟨current, hcurrent, hcontent⟩ := hcurrent
  have htemplate : current.template = job.template := by rw [Job.content_eq hcontent]
  have hid : current.id = job.id := by rw [Job.content_eq hcontent]
  refine ⟨current, ⟨hcurrent, ?_, ?_, ?_, ?_⟩, hcontent⟩
  · rw [hid, ← hbefore.holds]
    exact h.fresh
  · obtain ⟨dropped, hsuffix⟩ := hretained.suffix
    refine ⟨dropped.map Job.content, ?_⟩
    rw [← hbefore.content_live, hsuffix, List.map_append, hprevious]
  · rw [hprevious, htemplate]
    exact hretained.same_parent
  · rw [hseen, hprevious, ← hbefore.seen]
    exact hretained.seen

section Steps

variable [Hasher]

lemma inv_steps {c : Channel} (h : c.Inv) (ops : List Op) : (c.steps ops).Inv := by
  induction ops generalizing c with
  | nil => exact h
  | cons op ops ih => exact ih (inv_step h op)

lemma Makes.kept {c d : Channel} {job : Job} (h : c.Makes job) (hkept : c.Kept d) : d.Makes job := by
  unfold Makes at h ⊢
  rw [hkept.customOnly]
  split_ifs at h ⊢
  · obtain ⟨hkind, hshaped⟩ := h
    refine ⟨hkind, hkept.kind.trans hshaped.extended, hshaped.length_pre, ?_, ?_, ?_⟩
    · rw [hkept.extranoncePrefix, hkept.rolled]
      exact hshaped.scriptLen
    · rw [hkept.extranoncePrefix, hkept.rolled]
      exact hshaped.script_le
    · rw [hkept.extranoncePrefix, hkept.rolled]
      exact hshaped.long
  · exact ⟨h.1, h.2.kept hkept.kind hkept.extranoncePrefix hkept.rolled⟩

/-- The target does not matter. -/
lemma Makes.content {c : Channel} {job other : Job} (h : c.Makes job)
    (hcontent : other.content = job.content) : c.Makes other := by
  have hother := Job.content_eq hcontent
  unfold Makes at h ⊢
  split_ifs at h ⊢
  · obtain ⟨hkind, hshaped⟩ := h
    rw [hother]
    exact ⟨hkind, hshaped.extended, hshaped.length_pre, hshaped.scriptLen, hshaped.script_le,
      hshaped.long⟩
  · rw [hother]
    exact h

end Steps

end Channel

namespace Session

/-! ## Turns -/

/-- The parent the session's jobs build on. -/
def parent (s : Session) : Option Hash := s.current.map fun current => current.2.2.previousHash

/-- A share that was accepted: its channel, its header, and the coinbase and path its merkle
root was made from. -/
structure Credit where
  channel : UInt32
  header : ByteVec 80
  coinbase : Bytes
  path : List Hash
deriving DecidableEq

variable [Hasher]

/-- The share an operation credits, if any. -/
def credits (s : Session) : Op → List Credit
  | .receive _ (.submitShares kind share) now =>
    match s.channels.find? share.channelId with
    | none => []
    | some c =>
      if c.kind ≠ kind then []
      else match (c.check share now).1, c.findJob share.jobId with
        | .ok v, .ok job => [⟨share.channelId, v.header, v.coinbase.bytes, job.parts.merklePath⟩]
        | _, _ => []
  | _ => []

/-- The id of a new job: the server's, a custom job's the next of the session's own. -/
def Numbered (s s' : Session) (op : Op) (k : UInt32) (d : Channel) (job : Job) : Prop :=
  if d.customOnly then s.customJobs < s'.customJobs ∧
    job.id.toNat = customJobBit.toNat + s'.customJobs.toNat
  else match op with
    | .setJob _ id _ _ _ => job.id = id
    | .retarget _ _ last => last < job.id
    | .revokeJob => False
    | .receive _ _ _ => s.channels.find? k = none

/-- One operation on one channel's jobs. -/
inductive Turn (s s' : Session) (op : Op) (k : UInt32) (c d : Channel) : Prop
  /-- The jobs stay, on the session's parent. -/
  | quiet : c.Quiet d → (s'.parent = s.parent ∨ d.live = []) → s.credits op = [] →
      Turn s s' op k c d
  | renewed {job : Job} : c.Renewed d job → s'.parent = some job.template.previousHash →
      d.Makes job → s.credits op = [] → Numbered s s' op k d job → Turn s s' op k c d
  | cleared : d.Fresh → s.credits op = [] → Turn s s' op k c d
  | credited {share : Share} {v : ValidatedShare} {job : Job} : c.Credited d share v job →
      s'.parent = s.parent →
      s.credits op = [⟨k, v.header, v.coinbase.bytes, job.parts.merklePath⟩] →
      Turn s s' op k c d
  /-- Another channel's share. -/
  | other {x : Credit} : c.Quiet d → s'.parent = s.parent → s.credits op = [x] → x.channel ≠ k →
      Turn s s' op k c d

/-- What every session that runs keeps of its channels. -/
structure Sound (s : Session) : Prop where
  inv : s.Inv
  channels : ∀ k c, s.channels.find? k = some c → c.Inv
  extended : ∀ k c, s.channels.find? k = some c → c.customOnly = true → c.kind = .extended
  parent : ∀ k c job, s.channels.find? k = some c → job ∈ c.live →
    s.parent = some job.template.previousHash
  makes : ∀ k c job, s.channels.find? k = some c → job ∈ c.live → c.Makes job

/-- Where a channel of the session after an operation comes from: it was open, or it opens
now. -/
def Turned (s : Session) (lanes : Lanes) (s' : Session) (op : Op) (k : UInt32) (d : Channel) : Prop :=
  (∃ c, s.channels.find? k = some c ∧ c.Kept d ∧ s.Turn s' op k c d) ∨
    (s.channels.find? k = none ∧ ∃ random request now login start,
      op = .receive random (.openChannel request) now ∧
      s.Opened s' lanes request login start d ∧ s.Turn s' op k start d)

lemma Opened.kept {s s' : Session} {lanes : Lanes} {request : OpenRequest} {login : Login}
    {start c : Channel} (h : s.Opened s' lanes request login start c) : start.Kept c := by
  obtain ⟨ops, rfl, -⟩ := h.ops
  exact start.kept_steps ops

/-- A job the pool issued. -/
lemma Issued.renewed {c d : Channel} {tokens : Option Hash} {maximum : Hash} {random : ℕ → UInt8}
    {id : UInt32} {generation : UInt64} {template : BchTemplate} {payout : BchPayout}
    (h : Issued c d tokens maximum random id generation template payout) (hc : c.Inv)
    (hdevice : c.customOnly = false) :
    ∃ job, c.Renewed d job ∧ job.id = id ∧ job.template = template ∧ d.Makes job := by
  obtain ⟨drop, hops⟩ := h.ops
  obtain ⟨made, -, hmade, -⟩ := h.job
  set c1 := (c.settle template.target tokens maximum).2 with hc1
  rcases hr : c1.installWithPayout random id generation template payout with ⟨r, d1⟩
  obtain rfl : r = .ok made := by rw [← hmade, hr]
  obtain ⟨hinstalled, hown⟩ := Channel.installWithPayout_eq_ok hr
  -- what follows the installation leaves the jobs alone
  have hafter : d1.Quiet d := by
    rw [hops]
    cases drop with
    | false =>
      have hsteps : c.steps (issueOps tokens maximum random id generation template payout false) =
          d1.takeTokenRefusal.2 := by
        simp [issueOps, Channel.steps, Channel.step, ← hc1, hr]
      rw [hsteps]
      exact Channel.quiet_of_tokenRefusal rfl
    | true =>
      have hsteps : c.steps (issueOps tokens maximum random id generation template payout true) =
          (d1.takeTokenRefusal.2.dropTokenFloor maximum).2 := by
        simp [issueOps, Channel.steps, Channel.step, ← hc1, hr]
      rw [hsteps]
      exact (Channel.quiet_of_tokenRefusal rfl).trans (Channel.quiet_dropTokenFloor _ _)
  obtain ⟨job, hrenewed, hcontent⟩ :=
    hinstalled.renewed hc (c.quiet_settle template.target tokens maximum) hafter
  have hid : job.id = id := by
    rw [Job.content_eq hcontent]
    exact hown.id_eq
  have htemplate : job.template = template := by
    rw [Job.content_eq hcontent]
    exact hown.template_eq
  have hmakes : c1.Makes made := by
    unfold Channel.Makes
    rw [if_neg (by rw [(c.kept_settle _ _ _).customOnly, hdevice]; simp)]
    exact ⟨hown.kind_eq, hown.built⟩
  have hkept : c1.Kept d :=
    ⟨h.kept.id, h.kept.kind, h.kept.extranoncePrefix, h.kept.network, h.kept.payout,
      h.kept.operator, h.kept.customOnly, h.kept.rolled, h.kept.compact, h.kept.donation⟩
  exact ⟨job, hrenewed, hid, htemplate, (hmakes.kept hkept).content hcontent⟩

/-! ## Each operation's turns -/

lemma setJob_turned {s s' : Session} {lanes lanes' : Lanes} {random : UInt32 → ℕ → UInt8}
    {id : UInt32} {generation : UInt64} {template : BchTemplate} {payout : BchPayout}
    {frames : List Frame} (hs : s.Sound)
    (h : s.setJobWithPayout lanes random id generation template payout = .ok (s', lanes', frames))
    {k : UInt32} {d : Channel} (hd : s'.channels.find? k = some d) :
    s.Turned lanes s' (.setJob random id generation template payout) k d := by
  obtain ⟨sent, grouped, -, hsent, -, hs', -⟩ := setJobWithPayout_eq_ok h
  have hfind : s'.channels = sent.mapValues fun _ r => r.channel := by rw [hs']
  have hnew : s'.parent = some template.previousHash := by rw [hs']; rfl
  rw [hfind, OrdMap.find?_mapValues, Option.map_eq_some_iff] at hd
  obtain ⟨r, hr, rfl⟩ := hd
  obtain ⟨c, hc, hon⟩ := hsent k r hr
  obtain ⟨maximum, -, hset⟩ := setJobOn_eq_ok hon
  obtain ⟨ops, hops, -⟩ := hset.steps
  refine Or.inl ⟨c, hc, hops ▸ c.kept_steps ops, ?_⟩
  cases hcustom : c.customOnly with
  | false =>
    obtain ⟨hissued, -⟩ := hset.device hcustom
    obtain ⟨job, hrenewed, hid, htemplate, hmakes⟩ :=
      hissued.renewed (hs.channels k c hc) hcustom
    refine .renewed hrenewed (by rw [htemplate, hnew]) hmakes rfl ?_
    rw [Numbered, hissued.kept.customOnly, hcustom]
    exact hid
  | true =>
    have hchannel := (hset.custom hcustom).1
    unfold customOps at hchannel
    by_cases htip : sameTip c template = true
    · rw [if_pos htip] at hchannel
      refine .quiet (hchannel ▸ c.quiet_settle _ _ _) (Or.inl ?_) rfl
      -- its job is on the template's parent, and the session's
      unfold sameTip at htip
      cases hjob : c.job with
      | none =>
        rw [hjob] at htip
        cases htip
      | some job =>
        simp only [hjob, Bool.and_eq_true, beq_iff_eq] at htip
        rw [hnew, hs.parent k c job hc (by simp [Channel.live, hjob]), htip.1]
    · rw [if_neg htip] at hchannel
      refine .cleared ?_ rfl
      rw [hchannel]
      exact ⟨rfl, rfl, rfl⟩

omit [Hasher] in
lemma lt_succ {n : UInt32} (h : n ≠ 0xffffffff) : n < n + 1 := by
  have hne : n.toNat ≠ 0xffffffff := fun heq => h (UInt32.toNat_inj.mp heq)
  have hlt := n.toNat_lt
  have hone : (1 : UInt32).toNat = 1 := rfl
  rw [UInt32.lt_iff_toNat_lt, UInt32.toNat_add]
  omega

lemma retarget_turned {s s' : Session} {lanes : Lanes} {desired : UInt32 → Option Hash}
    {random : UInt32 → ℕ → UInt8} {nextId nextId' : UInt32} {frames : List Frame}
    (hs : s.Sound)
    (h : s.retarget desired random nextId = .ok (s', nextId', frames)) {k : UInt32} {d : Channel}
    (hd : s'.channels.find? k = some d) : s.Turned lanes s' (.retarget desired random nextId) k d := by
  obtain ⟨done, hdone, hs'⟩ := retarget_eq_ok h
  -- the counter only grows
  have hgrows : ∀ last (_ : UInt32) c r last', nextId ≤ last →
      retargetOn s.maximumTargets desired random last c = .ok (r, last') → nextId ≤ last' := by
    intro last _ c r last' hle hon
    obtain ⟨_, -, hretargeted⟩ := retargetOn_eq_ok hon
    cases hretargeted with
    | target _ _ => exact hle
    | job _ _ hroom _ _ _ _ => exact hle.trans (lt_succ hroom).le
  obtain ⟨-, hall⟩ := OrdMap.find?_mapM (fun last => nextId ≤ last) le_rfl hgrows hdone
  have hfind : s'.channels = done.mapValues fun _ r => r.channel := by rw [hs']
  have hsame : s'.parent = s.parent := by rw [hs']; rfl
  rw [hfind, OrdMap.find?_mapValues, Option.map_eq_some_iff] at hd
  obtain ⟨r, hr, rfl⟩ := hd
  obtain ⟨c, last, _, hc, hle, hon⟩ := hall k r hr
  obtain ⟨maximum, -, hretargeted⟩ := retargetOn_eq_ok hon
  obtain ⟨ops, hops, -⟩ := hretargeted.steps
  have hkept : c.Kept r.channel := hops ▸ c.kept_steps ops
  refine Or.inl ⟨c, hc, hkept, ?_⟩
  cases hretargeted with
  | target _ hchannel =>
    exact .quiet (hchannel ▸ c.quiet_retarget _ _) (Or.inl hsame) rfl
  | @job old made _ hdevice hroom hold hmade hcurrent hchannel =>
    set c1 := (c.retarget (desired c.id) maximum).2 with hc1
    rcases hr1 : c1.installWithPayout (random c.id) (last + 1) old.generation old.template
      old.payout with ⟨result, d1⟩
    obtain rfl : result = .ok made := by rw [← hmade, hr1]
    obtain ⟨hinstalled, hown⟩ := Channel.installWithPayout_eq_ok hr1
    have hquiet : c.Quiet c1 := c.quiet_retarget _ _
    have hsteps : r.channel = d1.takeTokenRefusal.2 := by
      rw [hchannel]
      simp [Channel.steps, Channel.step, ← hc1, hr1]
    have hafter : d1.Quiet r.channel := hsteps ▸ Channel.quiet_of_tokenRefusal rfl
    obtain ⟨job, hrenewed, hcontent⟩ := hinstalled.renewed (hs.channels k c hc) hquiet hafter
    have htemplate : job.template = old.template := by
      rw [Job.content_eq hcontent]
      exact hown.template_eq
    -- the job it repeats is on the session's parent
    have hpast : s.parent = some old.template.previousHash := by
      have hlive : old.content ∈ c.live.map Job.content := by
        rw [← hquiet.content_live]
        exact List.mem_map_of_mem (by simp [Channel.live, hold])
      obtain ⟨job', hjob', hcontent'⟩ := List.mem_map.mp hlive
      have heq : job'.template = old.template := by rw [Job.content_eq hcontent']
      rw [← heq]
      exact hs.parent k c job' hc hjob'
    have hmakes : c1.Makes made := by
      unfold Channel.Makes
      rw [if_neg (by rw [(c.kept_retarget _ _).customOnly, hdevice]; simp)]
      exact ⟨hown.kind_eq, hown.built⟩
    have hkept1 : c1.Kept r.channel :=
      hinstalled.kept.trans (hsteps ▸ Channel.kept_of_tokenRefusal rfl)
    refine .renewed hrenewed (by rw [htemplate, hsame, hpast])
      ((hmakes.kept hkept1).content hcontent) rfl ?_
    have hid : job.id = last + 1 := by
      rw [Job.content_eq hcontent]
      exact hown.id_eq
    rw [Numbered, hkept.customOnly, hdevice, hid]
    exact lt_of_le_of_lt hle (lt_succ hroom)

lemma revokeJob_turned (s : Session) {lanes : Lanes} {k : UInt32} {d : Channel}
    (hd : s.revokeJob.channels.find? k = some d) : s.Turned lanes s.revokeJob .revokeJob k d := by
  rw [revokeJob, OrdMap.find?_mapValues, Option.map_eq_some_iff] at hd
  obtain ⟨c, hc, rfl⟩ := hd
  exact Or.inl ⟨c, hc, c.kept_step .revoke, .cleared ⟨rfl, rfl, rfl⟩ rfl⟩

/-- A channel that an operation leaves alone. -/
lemma turned_of_find? {s s' : Session} {lanes : Lanes} {op : Op} {k : UInt32} {d : Channel}
    (hd : s.channels.find? k = some d) (hparent : s'.parent = s.parent)
    (hcredits : s.credits op = []) : s.Turned lanes s' op k d :=
  Or.inl ⟨d, hd, .refl d, .quiet (.refl d) (Or.inl hparent) hcredits⟩

omit [Hasher] in
/-- A custom job that passed its checks has the form its channel asks for. -/
lemma CustomContent.shaped {request : SetCustomMiningJob} {context template : BchTemplate}
    {now : UInt32} {parts : CoinbaseParts} {c : Channel} {job : Job}
    (h : CustomContent request context (c.extranoncePrefix.length + c.rolled) now template parts)
    (hkind : c.kind = .extended) (hparts : job.parts = parts) :
    c.Shaped job ∧ template.previousHash = context.previousHash := by
  cases h with
  | @declared declaration hcheck =>
    unfold SetCustomMiningJob.checkDeclared at hcheck
    simp only [Except.ite_error_eq_ok, not_not, ne_eq, not_or, and_true] at hcheck
    obtain ⟨⟨-, hparent⟩, -, -, -, -, -, -, -, -, -, -, hlen⟩ := hcheck
    have hpre := declaration.shape.length_pre
    have hlt := declaration.shape.head_lt
    have hle := declaration.shape.scriptLen_le
    have hscript : declaration.shape.pre.length - 42 + (c.extranoncePrefix.length + c.rolled) =
        declaration.shape.scriptLen := by
      rw [← hlen, CoinbaseShape.extranonceLen]
      omega
    refine ⟨⟨hkind, ?_, ?_, ?_, ?_⟩, hparent⟩
    · rw [hparts]
      simp only
      omega
    · rw [hparts]
      simp only [hscript]
      exact declaration.shape.scriptLen_pre
    · rw [hparts]
      simp only [hscript]
      exact hle
    · rw [hparts, ← hlen]
      exact declaration.shape.long
  | coinbaseOnly hcheck =>
    unfold SetCustomMiningJob.checkContent at hcheck
    simp only [Except.ite_error_eq_ok, not_or, not_lt, not_not, and_true] at hcheck
    obtain ⟨-, -, -, -, -, ⟨-, hle⟩, -, hlong⟩ := hcheck
    have hlength : ∀ n, (request.parts n).pre.length = 42 + request.coinbasePrefix.length := by
      intro n
      simp [SetCustomMiningJob.parts]
      omega
    refine ⟨⟨hkind, ?_, ?_, ?_, ?_⟩, rfl⟩
    · rw [hparts, hlength]
      omega
    · rw [hparts, hlength]
      have h42 : 42 + request.coinbasePrefix.length - 42 = request.coinbasePrefix.length := by omega
      rw [h42]
      simp [SetCustomMiningJob.parts, List.getElem?_append]
    · rw [hparts, hlength]
      omega
    · rw [hparts]
      omega

lemma submit_turned {s : Session} {lanes : Lanes} {random : ℕ → UInt8} {kind : ChannelKind} {share : Share}
    {now : UInt32} {k : UInt32} {d : Channel}
    (hd : (s.submit share kind now).2.channels.find? k = some d) :
    s.Turned lanes (s.submit share kind now).2 (.receive random (.submitShares kind share) now) k d := by
  cases hc : s.channels.find? share.channelId with
  | none =>
    have hsubmit : (s.submit share kind now).2 =
        { s with rejected := saturatingSucc s.rejected } := by simp [submit, hc]
    rw [hsubmit] at hd ⊢
    exact turned_of_find? hd rfl (by simp [credits, hc])
  | some c =>
    -- a share for a channel of the other kind is refused before it is checked
    by_cases hkind : c.kind ≠ kind
    · have hsubmit : (s.submit share kind now).2 =
          { s with rejected := saturatingSucc s.rejected } := by simp [submit, hc, hkind]
      rw [hsubmit] at hd ⊢
      exact turned_of_find? hd rfl (by simp [credits, hc, hkind])
    have hkept := c.kept_step (.check share now)
    rcases hr : c.check share now with ⟨r, c'⟩
    simp only [Channel.step, hr] at hkept
    have hfind : (s.submit share kind now).2.channels =
        s.channels.insert share.channelId c' := by
      simp only [submit, hc, if_neg hkind, hr]
      cases r with
      | error code => rfl
      | ok v => rfl
    have hsame : (s.submit share kind now).2.parent = s.parent := by
      simp only [submit, hc, if_neg hkind, hr]
      cases r with
      | error code => rfl
      | ok v => rfl
    rw [hfind, OrdMap.find?_insert] at hd
    cases r with
    | error code =>
      have hcredits : s.credits (.receive random (.submitShares kind share) now) = [] := by
        simp [credits, hc, hkind, hr]
      split_ifs at hd with hk
      · obtain rfl := Option.some.inj hd
        obtain ⟨hjobs, hseen⟩ := Channel.check_eq_error hr
        exact Or.inl ⟨c, hk ▸ hc, hkept,
          .quiet (hjobs.quiet hseen) (Or.inl hsame) hcredits⟩
      · exact turned_of_find? hd hsame hcredits
    | ok v =>
      obtain ⟨job, hcredited⟩ := Channel.check_eq_ok hr
      have hcredits : s.credits (.receive random (.submitShares kind share) now) =
          [⟨share.channelId, v.header, v.coinbase.bytes, job.parts.merklePath⟩] := by
        simp only [credits, hc, if_neg hkind, hr, hcredited.found]
      split_ifs at hd with hk
      · obtain rfl := Option.some.inj hd
        exact Or.inl ⟨c, hk ▸ hc, hkept, .credited hcredited hsame (hk ▸ hcredits)⟩
      · exact Or.inl ⟨d, hd, .refl d, .other (.refl d) hsame hcredits (Ne.symm hk)⟩

lemma customJob_turned {s : Session} (hs : s.Sound) {lanes : Lanes} {random : ℕ → UInt8}
    {request : SetCustomMiningJob} {redeemed : Except String Custom} {now : UInt32} {k : UInt32}
    {d : Channel} (hd : (s.customJob request redeemed now).2.channels.find? k = some d) :
    s.Turned lanes (s.customJob request redeemed now).2
      (.receive random (.setCustomMiningJob request redeemed) now) k d := by
  rcases customJob_cases s request redeemed now with h |
    ⟨c, id, generation, context, template, parts, hc, hcustom, hcurrent, hcontent, h⟩
  · rw [h] at hd ⊢
    exact turned_of_find? hd rfl rfl
  rw [h] at hd ⊢
  rcases installCustom_cases s c template parts with h | ⟨jobId, s1, hid, h⟩
  · rw [h] at hd ⊢
    exact turned_of_find? hd rfl rfl
  rw [h] at hd ⊢
  obtain ⟨hlt, hnat, hs1⟩ := nextCustomId_eq_ok hid
  have hsame : Session.parent { s1 with
      channels := s.channels.insert c.id (c.installCustom jobId template parts).2 } = s.parent := by
    rw [hs1]
    rfl
  have hid' := hs.inv.ids _ _ hc
  rcases hr : c.installCustom jobId template parts with ⟨r, c'⟩
  rw [hr, hid'] at hsame
  simp only [hr, hid', OrdMap.find?_insert] at hd ⊢
  split_ifs at hd with hk
  swap
  · exact turned_of_find? hd hsame rfl
  obtain rfl := Option.some.inj hd
  cases r with
  | error e =>
    obtain rfl := Channel.installCustom_eq_error hr
    exact turned_of_find? (hk ▸ hc) hsame rfl
  | ok made =>
    obtain ⟨hinstalled, hmade⟩ := Channel.installCustom_eq_ok hr
    obtain ⟨job, hrenewed, hjob⟩ := hinstalled.renewed (hs.channels _ _ hc) (.refl c) (.refl c')
    obtain ⟨hshaped, hprevious⟩ := hcontent.shaped (hs.extended _ _ hc hcustom) hmade.parts_eq
    have hmakes : c.Makes made := by
      rw [Channel.Makes, if_pos hcustom]
      exact ⟨⟨_, hmade.kind_eq⟩, hshaped⟩
    have hjobEq := Job.content_eq hjob
    refine Or.inl ⟨c, hk ▸ hc, hinstalled.kept, .renewed hrenewed ?_ ?_ rfl ?_⟩
    · rw [hsame, parent, hcurrent, hjobEq]
      simp only [Option.map_some, hmade.template_eq, hprevious]
    · exact (hmakes.kept hinstalled.kept).content hjob
    · rw [Numbered, hinstalled.kept.customOnly, hcustom, if_pos rfl, hjobEq]
      simp only [hmade.id_eq]
      exact ⟨hlt, hnat⟩

lemma opened_turned {s s' : Session} {lanes : Lanes} {request : OpenRequest} {login : Login}
    {start c : Channel} (h : s.Opened s' lanes request login start c) (hs : s.Sound)
    {random : ℕ → UInt8} {now : UInt32} {k : UInt32} {d : Channel}
    (hd : s'.channels.find? k = some d) :
    s.Turned lanes s' (.receive random (.openChannel request) now) k d := by
  have hnew := newChannel_eq_ok h.start_eq
  have hstate := h.state
  have hsame : s'.parent = s.parent := by rw [hstate]; rfl
  have hkept := h.kept
  have hid : c.id = s.nextChannel + 1 := hkept.id.trans hnew.id_eq
  have hchannels : s'.channels = s.channels.insert c.id c := by rw [hstate]
  rw [hchannels, OrdMap.find?_insert] at hd
  split_ifs at hd with hk
  swap
  · exact turned_of_find? hd hsame rfl
  obtain rfl := Option.some.inj hd
  have hnone : s.channels.find? k = none := by
    rw [hk, hid, ← Option.not_isSome_iff_eq_none, Option.isSome_iff_exists]
    rintro ⟨e, he⟩
    have hle := hs.inv.channel_le _ (OrdMap.mem_keys.mpr ⟨e, he⟩)
    exact absurd (succ_lt h.room).1 (not_lt.mpr hle)
  refine Or.inr ⟨hnone, random, request, now, login, start, rfl, h, ?_⟩
  obtain ⟨id, generation, template, hcurrent, hjob⟩ := h.job
  cases hcustom : start.customOnly with
  | true =>
    rw [hcustom, if_pos rfl] at hjob
    exact .quiet (hjob ▸ start.quiet_settle _ _ _) (Or.inl hsame) rfl
  | false =>
    rw [hcustom] at hjob
    obtain ⟨_, hissued⟩ := hjob
    obtain ⟨job, hrenewed, -, htemplate, hmakes⟩ := hissued.renewed hnew.fresh.inv hcustom
    refine .renewed hrenewed ?_ hmakes rfl ?_
    · rw [hsame, parent, hcurrent, htemplate]
      rfl
    · rw [Numbered, hkept.customOnly, hcustom]
      exact hnone

lemma receive_turned {s s' : Session} (hs : s.Sound) {lanes lanes' : Lanes} {random : ℕ → UInt8}
    {message : Message} {now : UInt32} {responses : Responses}
    (h : s.receive lanes random message now = .ok (s', lanes', responses)) {k : UInt32}
    {d : Channel} (hd : s'.channels.find? k = some d) :
    s.Turned lanes s' (.receive random message now) k d := by
  cases receive_cases h with
  | setup hsetup =>
    obtain ⟨-, hs'⟩ := setup_eq_ok hsetup
    rw [hs'] at hd ⊢
    exact turned_of_find? hd rfl rfl
  | extensions asked disclosure => exact turned_of_find? hd rfl rfl
  | refused request => exact turned_of_find? hd rfl rfl
  | opened hflags hopened => exact opened_turned hopened hs hd
  | submitted kind share => exact submit_turned hd
  | updated id validRate maximum =>
    -- only the greatest target of the channel is new
    have hchannels : (s.updateChannel id validRate maximum).1.channels = s.channels ∧
        (s.updateChannel id validRate maximum).1.parent = s.parent := by
      unfold updateChannel
      split
      · exact ⟨rfl, rfl⟩
      · split_ifs
        · exact ⟨rfl, rfl⟩
        · exact ⟨rfl, rfl⟩
        · exact ⟨rfl, rfl⟩
    exact turned_of_find? (hchannels.1 ▸ hd) hchannels.2 rfl
  | closed id =>
    have hfind := OrdMap.find?_foldl_erase s.channels (s.closing id) k
    rw [show (s.closing id).foldl (fun channels id => channels.erase id) s.channels =
      (s.closeChannel id).channels from rfl, hd] at hfind
    split_ifs at hfind with hk
    exact turned_of_find? hfind.symm rfl rfl
  | custom request redeemed => exact customJob_turned hs hd

/-- Where each channel a step leaves open comes from, and what happened to its jobs. -/
lemma step_turned {s s' : Session} (hs : s.Sound) {lanes lanes' : Lanes} {op : Op}
    {frames : List Frame} (h : s.step lanes op = .ok (s', lanes', frames)) {k : UInt32}
    {d : Channel} (hd : s'.channels.find? k = some d) : s.Turned lanes s' op k d := by
  cases op with
  | setJob random id generation template payout => exact setJob_turned hs h hd
  | retarget desired random nextId =>
    obtain ⟨⟨s1, next, frames1⟩, hretarget, h⟩ := Except.bind_eq_ok.mp h
    cases h
    exact retarget_turned hs hretarget hd
  | revokeJob =>
    cases h
    exact revokeJob_turned s hd
  | receive random message now =>
    obtain ⟨⟨s1, lanes1, responses⟩, hreceive, h⟩ := Except.bind_eq_ok.mp h
    cases h
    exact receive_turned hs hreceive hd

/-! ## Sound sessions -/

lemma Change.channels_inv {s s' : Session} (h : Change s s') (hs : s.Sound) {k : UInt32}
    {d : Channel} (hd : s'.channels.find? k = some d) : d.Inv := by
  cases h with
  | setup _ hs' =>
    rw [hs'] at hd
    exact hs.channels k d hd
  | worked hworked =>
    obtain ⟨c, hc, ops, rfl, -⟩ := hworked.channel k d hd
    exact Channel.inv_steps (hs.channels k c hc) ops
  | @opened _ _ _ _ start c _ hopened =>
    have hstate := hopened.state
    rw [show s'.channels = s.channels.insert c.id c by rw [hstate], OrdMap.find?_insert] at hd
    split_ifs at hd
    · cases hd
      obtain ⟨ops, rfl, -⟩ := hopened.ops
      exact Channel.inv_steps (newChannel_eq_ok hopened.start_eq).fresh.inv ops
    · exact hs.channels k d hd
  | updated _ _ => exact hs.channels k d hd
  | closed id =>
    have hfind := OrdMap.find?_foldl_erase s.channels (s.closing id) k
    rw [show (s.closing id).foldl (fun channels id => channels.erase id) s.channels =
      (s.closeChannel id).channels from rfl, hd] at hfind
    split_ifs at hfind
    exact hs.channels k d hfind.symm

lemma Turn.parent {s s' : Session} {op : Op} {k : UInt32} {c d : Channel} (h : s.Turn s' op k c d)
    (hc : ∀ job ∈ c.live, s.parent = some job.template.previousHash) :
    ∀ job ∈ d.live, s'.parent = some job.template.previousHash := by
  cases h with
  | quiet hquiet hparent _ =>
    rcases hparent with hparent | hnil
    · rw [hparent]
      exact hquiet.parent hc
    · rw [hnil]
      exact fun job hjob => absurd hjob List.not_mem_nil
  | @renewed new hrenewed hparent _ _ _ =>
    intro job hjob
    rw [Channel.live, hrenewed.current, List.mem_append] at hjob
    rcases hjob with hjob | hjob
    · rw [hparent, (hrenewed.same_parent job hjob).1]
    · rw [hparent, List.mem_singleton.mp hjob]
  | cleared hfresh _ =>
    rw [hfresh.live]
    exact fun job hjob => absurd hjob List.not_mem_nil
  | credited hcredited hparent _ =>
    rw [hparent, hcredited.same.live_eq]
    exact hc
  | other hquiet hparent _ _ =>
    rw [hparent]
    exact hquiet.parent hc

lemma Turn.makes {s s' : Session} {op : Op} {k : UInt32} {c d : Channel} (h : s.Turn s' op k c d)
    (hkept : c.Kept d) (hc : ∀ job ∈ c.live, c.Makes job) : ∀ job ∈ d.live, d.Makes job := by
  -- a job that stayed, up to its target
  have hstays : ∀ job : Job, job.content ∈ c.live.map Job.content → d.Makes job := by
    intro job hjob
    obtain ⟨old, hold, hcontent⟩ := List.mem_map.mp hjob
    exact ((hc old hold).kept hkept).content hcontent.symm
  have hquiet : c.Quiet d → ∀ job ∈ d.live, d.Makes job := fun hquiet job hjob =>
    hstays job (hquiet.content_live ▸ List.mem_map_of_mem hjob)
  cases h with
  | quiet hq _ _ => exact hquiet hq
  | @renewed new hrenewed _ hmakes _ _ =>
    intro job hjob
    rw [Channel.live, hrenewed.current, List.mem_append] at hjob
    rcases hjob with hjob | hjob
    · obtain ⟨dropped, hsuffix⟩ := hrenewed.suffix
      apply hstays
      rw [hsuffix]
      exact List.mem_append_right _ (List.mem_map_of_mem hjob)
    · rw [List.mem_singleton.mp hjob]
      exact hmakes
  | cleared hfresh _ =>
    rw [hfresh.live]
    exact fun job hjob => absurd hjob List.not_mem_nil
  | credited hcredited _ _ =>
    rw [hcredited.same.live_eq]
    exact fun job hjob => (hc job hjob).kept hkept
  | other hq _ _ _ => exact hquiet hq

lemma Start.sound {s : Session} (h : s.Start) : s.Sound := by
  have hnone : ∀ k c, s.channels.find? k ≠ some c := by
    rw [h.empty.1]
    exact not_mem_of_keys_eq_nil rfl
  exact ⟨h.inv, fun k c hc => absurd hc (hnone k c), fun k c hc => absurd hc (hnone k c),
    fun k c _ hc => absurd hc (hnone k c), fun k c _ hc => absurd hc (hnone k c)⟩

lemma step_sound {s s' : Session} (hs : s.Sound) {lanes lanes' : Lanes} {op : Op}
    {frames : List Frame} (h : s.step lanes op = .ok (s', lanes', frames)) : s'.Sound := by
  have hchange := step_change hs.inv.ids h
  refine ⟨hchange.inv hs.inv, fun k d hd => hchange.channels_inv hs hd, ?_, ?_, ?_⟩
  · intro k d hd hcustom
    rcases step_turned hs h hd with ⟨c, hc, hkept, -⟩ |
      ⟨-, _, request, _, _, start, -, hopened, -⟩
    · rw [hkept.kind]
      exact hs.extended k c hc (hkept.customOnly ▸ hcustom)
    · rw [hopened.channel.2.2.1, decide_eq_true_eq] at hcustom
      exact hopened.channel.2.1.trans hcustom.2
  · intro k d job hd
    rcases step_turned hs h hd with ⟨c, hc, -, hturn⟩ | ⟨-, _, _, _, _, c, -, hopened, hturn⟩
    · exact hturn.parent (fun job => hs.parent k c job hc) job
    · refine hturn.parent (fun job hjob => ?_) job
      rw [(newChannel_eq_ok hopened.start_eq).fresh.live] at hjob
      cases hjob
  · intro k d job hd
    rcases step_turned hs h hd with ⟨c, hc, hkept, hturn⟩ | ⟨-, _, _, _, _, c, -, hopened, hturn⟩
    · exact hturn.makes hkept (fun job => hs.makes k c job hc) job
    · refine hturn.makes hopened.kept (fun job hjob => ?_) job
      rw [(newChannel_eq_ok hopened.start_eq).fresh.live] at hjob
      cases hjob

lemma Change.customJobs_le {s s' : Session} (h : Change s s') : s.customJobs ≤ s'.customJobs := by
  cases h with
  | setup _ hs' => exact le_of_eq (by rw [hs'])
  | worked hworked => exact hworked.customJobs
  | opened _ hopened =>
    have hstate := hopened.state
    exact le_of_eq (by rw [hstate])
  | updated _ _ => exact le_rfl
  | closed _ => exact le_rfl

end Session

end Pickaxe
