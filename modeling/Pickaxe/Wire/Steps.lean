/-
# Channel operations of a session

A session's operation acts on each channel by channel operations, one after the other
(`Channel.steps`).  What these keep, the session's operations keep: a channel stays the one
that was opened, and its target below the device's maximum.  `SetOn` and `RetargetedOn` say
which operations a new template and vardiff make of one channel.
-/
import Pickaxe.Wire.Receive

namespace Pickaxe

open Lib Merge Jd

namespace Channel

/-! ## What no operation changes -/

/-- What a channel was opened with stays. -/
structure Kept (c d : Channel) : Prop where
  id : d.id = c.id
  kind : d.kind = c.kind
  extranoncePrefix : d.extranoncePrefix = c.extranoncePrefix
  network : d.network = c.network
  payout : d.payout = c.payout
  operator : d.operator = c.operator
  customOnly : d.customOnly = c.customOnly
  rolled : d.rolled = c.rolled
  compact : d.compact = c.compact
  donation : d.donation = c.donation

lemma Kept.refl (c : Channel) : c.Kept c := ⟨rfl, rfl, rfl, rfl, rfl, rfl, rfl, rfl, rfl, rfl⟩

lemma Kept.trans {c d e : Channel} (h : c.Kept d) (h' : d.Kept e) : c.Kept e :=
  ⟨h'.id.trans h.id, h'.kind.trans h.kind, h'.extranoncePrefix.trans h.extranoncePrefix,
    h'.network.trans h.network, h'.payout.trans h.payout, h'.operator.trans h.operator,
    h'.customOnly.trans h.customOnly, h'.rolled.trans h.rolled, h'.compact.trans h.compact,
    h'.donation.trans h.donation⟩

lemma kept_settle (c : Channel) (block : Hash) (tokens : Option Hash) (maximum : Hash) :
    c.Kept (c.settle block tokens maximum).2 :=
  ⟨rfl, rfl, rfl, rfl, rfl, rfl, rfl, rfl, rfl, rfl⟩

lemma kept_dropTokenFloor (c : Channel) (maximum : Hash) :
    c.Kept (c.dropTokenFloor maximum).2 := by
  unfold dropTokenFloor
  split
  · exact .refl c
  · exact ⟨rfl, rfl, rfl, rfl, rfl, rfl, rfl, rfl, rfl, rfl⟩

lemma kept_retarget (c : Channel) (desired : Option Hash) (maximum : Hash) :
    c.Kept (c.retarget desired maximum).2 := by
  unfold retarget
  split
  · exact ⟨rfl, rfl, rfl, rfl, rfl, rfl, rfl, rfl, rfl, rfl⟩
  · exact .refl c

lemma kept_of_tokenRefusal {c d : Channel} (h : d = { c with tokenRefusal := d.tokenRefusal }) :
    c.Kept d := by
  rw [h]
  exact ⟨rfl, rfl, rfl, rfl, rfl, rfl, rfl, rfl, rfl, rfl⟩

lemma kept_retainPrevious (c : Channel) (template : BchTemplate) :
    c.Kept (c.retainPrevious template) := by
  unfold retainPrevious
  split
  · exact .refl c
  · split_ifs
    · exact ⟨rfl, rfl, rfl, rfl, rfl, rfl, rfl, rfl, rfl, rfl⟩
    · exact ⟨rfl, rfl, rfl, rfl, rfl, rfl, rfl, rfl, rfl, rfl⟩

lemma Installed.kept {c d : Channel} {job : Job} (h : c.Installed d job) : c.Kept d := by
  refine (kept_retainPrevious c job.template).trans ?_
  rw [h.channel]
  exact ⟨rfl, rfl, rfl, rfl, rfl, rfl, rfl, rfl, rfl, rfl⟩

lemma SameJobs.kept {c d : Channel} (h : c.SameJobs d) : c.Kept d := by
  unfold SameJobs at h
  rw [h]
  exact ⟨rfl, rfl, rfl, rfl, rfl, rfl, rfl, rfl, rfl, rfl⟩

lemma retainPrevious_target (c : Channel) (template : BchTemplate) :
    (c.retainPrevious template).target = c.target := by
  unfold retainPrevious
  split
  · rfl
  · split_ifs
    · rfl
    · rfl

lemma Installed.target_eq {c d : Channel} {job : Job} (h : c.Installed d job) :
    d.target = c.target := by
  rw [h.channel]
  exact retainPrevious_target c job.template

lemma meets_settle (c : Channel) (block : Hash) (tokens : Option Hash) (maximum : Hash) :
    meetsTarget (c.settle block tokens maximum).2.target maximum = true := by
  have hplain : meetsTarget (c.plainTarget block maximum) maximum = true := by
    simp only [plainTarget]
    generalize (if meetsTarget c.desired block = true then block else c.desired) = target
    split_ifs with h
    · exact h
    · exact (meetsTarget_iff _ _).mpr le_rfl
  change meetsTarget (flooredTarget (c.plainTarget block maximum) maximum tokens) maximum = true
  cases tokens with
  | none => exact hplain
  | some easiest =>
    simp only [flooredTarget]
    split_ifs with hfloor hmaximum
    · exact hplain
    · exact hmaximum
    · exact (meetsTarget_iff _ _).mpr le_rfl

/-! ## Operations one after the other -/

section Steps

/-- An operation that settles a target settles it under `maximum`. -/
def Op.Under (maximum : Hash) : Op → Prop
  | .settle _ _ m => m = maximum
  | .dropTokenFloor m => m = maximum
  | .retarget _ m => m = maximum
  | _ => True

variable [Hasher]

/-- The channel after some operations. -/
def steps (c : Channel) (ops : List Op) : Channel := ops.foldl (fun c op => (c.step op).2) c

lemma kept_step (c : Channel) (op : Op) : c.Kept (c.step op).2 := by
  cases op with
  | install random id generation template payout =>
    rcases hr : c.installWithPayout random id generation template payout with ⟨r, d⟩
    simp only [step, hr]
    cases r with
    | error e => exact kept_of_tokenRefusal (installWithPayout_eq_error hr)
    | ok job => exact (installWithPayout_eq_ok hr).1.kept
  | installCustom id template parts =>
    rcases hr : c.installCustom id template parts with ⟨r, d⟩
    simp only [step, hr]
    cases r with
    | error e => exact installCustom_eq_error hr ▸ .refl c
    | ok job => exact (installCustom_eq_ok hr).1.kept
  | revoke => exact ⟨rfl, rfl, rfl, rfl, rfl, rfl, rfl, rfl, rfl, rfl⟩
  | settle block tokens maximum => exact kept_settle c block tokens maximum
  | dropTokenFloor maximum => exact kept_dropTokenFloor c maximum
  | retarget desired maximum => exact kept_retarget c desired maximum
  | takeTokenRefusal => exact kept_of_tokenRefusal rfl
  | check share now =>
    rcases hr : c.check share now with ⟨r, d⟩
    simp only [step, hr]
    cases r with
    | error e => exact (check_eq_error hr).1.kept
    | ok v =>
      obtain ⟨job, hcredited⟩ := check_eq_ok hr
      exact hcredited.same.kept

lemma kept_steps (c : Channel) (ops : List Op) : c.Kept (c.steps ops) := by
  induction ops generalizing c with
  | nil => exact .refl c
  | cons op ops ih => exact (kept_step c op).trans (ih _)

/-- A target below the maximum stays there. -/
lemma meets_step {c : Channel} {op : Op} {maximum : Hash} (hunder : op.Under maximum)
    (h : meetsTarget c.target maximum = true) :
    meetsTarget (c.step op).2.target maximum = true := by
  cases op with
  | install random id generation template payout =>
    rcases hr : c.installWithPayout random id generation template payout with ⟨r, d⟩
    simp only [step, hr]
    cases r with
    | error e =>
      rw [installWithPayout_eq_error hr]
      exact h
    | ok job =>
      rw [(installWithPayout_eq_ok hr).1.target_eq]
      exact h
  | installCustom id template parts =>
    rcases hr : c.installCustom id template parts with ⟨r, d⟩
    simp only [step, hr]
    cases r with
    | error e =>
      rw [installCustom_eq_error hr]
      exact h
    | ok job =>
      rw [(installCustom_eq_ok hr).1.target_eq]
      exact h
  | revoke => exact h
  | settle block tokens m =>
    obtain rfl : m = maximum := hunder
    exact meets_settle c block tokens m
  | dropTokenFloor m =>
    obtain rfl : m = maximum := hunder
    simp only [step, dropTokenFloor]
    split
    · exact h
    · exact meets_settle c _ none m
  | retarget desired m =>
    obtain rfl : m = maximum := hunder
    simp only [step, retarget]
    split
    · exact meets_settle _ _ _ m
    · exact h
  | takeTokenRefusal => exact h
  | check share now =>
    rcases hr : c.check share now with ⟨r, d⟩
    simp only [step, hr]
    -- a check keeps the target, accepted or not
    have hsame : c.SameJobs d := by
      cases r with
      | error e => exact (check_eq_error hr).1
      | ok v =>
        obtain ⟨job, hcredited⟩ := check_eq_ok hr
        exact hcredited.same
    unfold SameJobs at hsame
    rw [hsame]
    exact h

lemma meets_steps {c : Channel} {ops : List Op} {maximum : Hash}
    (hunder : ∀ op ∈ ops, op.Under maximum) (h : meetsTarget c.target maximum = true) :
    meetsTarget (c.steps ops).target maximum = true := by
  induction ops generalizing c with
  | nil => exact h
  | cons op ops ih =>
    exact ih (fun o ho => hunder o (List.mem_cons_of_mem _ ho))
      (meets_step (hunder op List.mem_cons_self) h)

end Steps

end Channel

/-! ## One channel's part of an operation -/

/-- Whom a frame gives work: the address of a job or of its parent. -/
def Frame.jobAddress : Frame → Option UInt32
  | .newMiningJob channelId _ _ _ _ => some channelId
  | .newExtendedMiningJob channelId _ _ _ _ _ _ _ => some channelId
  | .setNewPrevHash channelId _ _ _ _ => some channelId
  | _ => none

lemma jobAddress_targetFrame {settled : Bool × Channel} {f : Frame} (h : f ∈ targetFrame settled) :
    f.jobAddress = none := by
  unfold targetFrame at h
  split_ifs at h
  · rw [List.mem_singleton.mp h]
    rfl
  · cases h

namespace Session

variable [Hasher]

/-- The channel operations of a new job: the target first, then the job, and the plain target
again when its tokens were refused. -/
def issueOps (tokens : Option Hash) (maximum : Hash) (random : ℕ → UInt8) (id : UInt32)
    (generation : UInt64) (template : BchTemplate) (payout : BchPayout) (drop : Bool) :
    List Channel.Op :=
  [.settle template.target tokens maximum, .install random id generation template payout,
    .takeTokenRefusal] ++ if drop then [.dropTokenFloor maximum] else []

/-- The channel operations of a new template on a Job Declaration client's channel. -/
def customOps (c : Channel) (template : BchTemplate) (maximum : Hash) : List Channel.Op :=
  (if sameTip c template then [] else [.revoke]) ++ [.settle template.target none maximum]

omit [Hasher] in
lemma under_issueOps (tokens : Option Hash) (maximum : Hash) (random : ℕ → UInt8) (id : UInt32)
    (generation : UInt64) (template : BchTemplate) (payout : BchPayout) (drop : Bool) :
    ∀ op ∈ issueOps tokens maximum random id generation template payout drop,
      op.Under maximum := by
  intro op hop
  cases drop with
  | false =>
    simp only [issueOps, Bool.false_eq_true, if_false, List.append_nil, List.mem_cons,
      List.not_mem_nil, or_false] at hop
    rcases hop with rfl | rfl | rfl
    · exact rfl
    · exact trivial
    · exact trivial
  | true =>
    simp only [issueOps, if_true, List.cons_append, List.nil_append, List.mem_cons,
      List.not_mem_nil, or_false] at hop
    rcases hop with rfl | rfl | rfl | rfl
    · exact rfl
    · exact trivial
    · exact trivial
    · exact rfl

omit [Hasher] in
lemma under_customOps (c : Channel) (template : BchTemplate) (maximum : Hash) :
    ∀ op ∈ customOps c template maximum, op.Under maximum := by
  intro op hop
  rw [customOps, List.mem_append, List.mem_singleton] at hop
  rcases hop with hop | rfl
  · split_ifs at hop
    · cases hop
    · rw [List.mem_singleton.mp hop]
      exact trivial
  · exact rfl

/-- What `issueOps` leaves when the job is installed. -/
structure Issued (c d : Channel) (tokens : Option Hash) (maximum : Hash) (random : ℕ → UInt8)
    (id : UInt32) (generation : UInt64) (template : BchTemplate) (payout : BchPayout) :
    Prop where
  ops : ∃ drop, d = c.steps (issueOps tokens maximum random id generation template payout drop)
  job : ∃ job current, ((c.settle template.target tokens maximum).2.installWithPayout random id
    generation template payout).1 = .ok job ∧ d.job = some current ∧
      current.content = job.content

lemma issued_of_install {c d : Channel} {tokens : Option Hash} {maximum : Hash}
    {random : ℕ → UInt8} {id : UInt32} {generation : UInt64} {template : BchTemplate}
    {payout : BchPayout} {job : Job}
    (h : (c.settle template.target tokens maximum).2.installWithPayout random id generation template
      payout = (.ok job, d)) (drop : Bool) :
    Issued c (if drop then d.takeTokenRefusal.2.dropTokenFloor maximum
      else (false, d.takeTokenRefusal.2)).2 tokens maximum random id generation template payout := by
  have hd : d.job = some job := by
    rw [(Channel.installWithPayout_eq_ok h).1.channel]
  cases drop with
  | false =>
    refine ⟨⟨false, ?_⟩, job, job, by rw [h], hd, rfl⟩
    simp [issueOps, Channel.steps, Channel.step, h]
  | true =>
    refine ⟨⟨true, ?_⟩, job, ?_⟩
    · simp [issueOps, Channel.steps, Channel.step, h]
    · have hquiet := (Channel.quiet_dropTokenFloor d.takeTokenRefusal.2 maximum).job
      have hcurrent : d.takeTokenRefusal.2.job = some job := hd
      rw [hcurrent, Option.map_some, Option.map_eq_some_iff] at hquiet
      obtain ⟨current, hsome, hcontent⟩ := hquiet
      exact ⟨current, by rw [h], hsome, hcontent⟩

/-- What a new template does to one channel, and what it sends there. -/
structure SetOn (maximum : Hash) (broadcast : UInt32 → Bool) (random : UInt32 → ℕ → UInt8)
    (id : UInt32) (generation : UInt64) (template : BchTemplate) (payout : BchPayout) (c : Channel)
    (sent : Sent) : Prop where
  immediate : sent.immediate = sameTip c template
  custom : c.customOnly = true → sent.channel = c.steps (customOps c template maximum) ∧
    ∀ f ∈ sent.frames, f.jobAddress = none
  device : c.customOnly = false →
    Issued c sent.channel (c.floorFor template) maximum (random c.id) id generation template
      payout ∧
    ∃ targets own, sent.frames = targets ++ own ∧ (∀ f ∈ targets, f.jobAddress = none) ∧
      if broadcast c.id then own = [] else jobFrames sent.channel sent.immediate = .ok own

lemma setJobOn_eq_ok {maximums : OrdMap UInt32 Hash} {broadcast : UInt32 → Bool}
    {random : UInt32 → ℕ → UInt8} {id : UInt32} {generation : UInt64} {template : BchTemplate}
    {payout : BchPayout} {c : Channel} {sent : Sent}
    (h : setJobOn maximums broadcast random id generation template payout c = .ok sent) :
    ∃ maximum, maximums.find? c.id = some maximum ∧
      SetOn maximum broadcast random id generation template payout c sent := by
  unfold setJobOn at h
  simp only at h
  split at h
  · cases h
  rename_i maximum hmaximum
  refine ⟨maximum, hmaximum, ?_⟩
  obtain ⟨-, h⟩ := Except.ite_error_eq_ok.mp h
  by_cases hcustom : c.customOnly = true
  · -- a Job Declaration client's channel
    rw [if_pos hcustom] at h
    cases h
    refine ⟨rfl, fun _ => ⟨?_, fun f hf => jobAddress_targetFrame hf⟩, fun hc => ?_⟩
    · rw [customOps]
      split_ifs
      · rfl
      · rfl
    · rw [hcustom] at hc
      cases hc
  · rw [if_neg hcustom] at h
    split at h
    · cases h
    rename_i job hjob
    rcases hr : (c.settle template.target (c.floorFor template) maximum).2.installWithPayout
      (random c.id) id generation template payout with ⟨r, d⟩
    rw [hr] at hjob h
    obtain rfl : r = .ok job := hjob
    set drop : Bool := decide (d.takeTokenRefusal.1.isSome ∧ (c.floorFor template).isSome) with hdrop
    have hissued := issued_of_install hr drop
    set dropped : Bool × Channel :=
      if drop then d.takeTokenRefusal.2.dropTokenFloor maximum else (false, d.takeTokenRefusal.2)
      with hdropped
    have hsame : (if d.takeTokenRefusal.1.isSome ∧ (c.floorFor template).isSome then
        d.takeTokenRefusal.2.dropTokenFloor maximum else (false, d.takeTokenRefusal.2)) =
        dropped := by
      rw [hdropped, hdrop]
      simp only [decide_eq_true_eq]
    simp only [hsame] at h
    -- the frames before the job's are about targets alone
    have htargets : ∀ f ∈ targetFrame (c.settle template.target (c.floorFor template) maximum) ++
        targetFrame dropped, f.jobAddress = none := by
      intro f hf
      rcases List.mem_append.mp hf with hf | hf
      · exact jobAddress_targetFrame hf
      · exact jobAddress_targetFrame hf
    split_ifs at h with hbroadcast
    · cases h
      exact ⟨rfl, fun hc => absurd hc hcustom,
        fun _ => ⟨hissued, _, [], (List.append_nil _).symm, htargets, by rw [if_pos hbroadcast]⟩⟩
    · obtain ⟨own, hown, h⟩ := Except.bind_eq_ok.mp h
      cases h
      exact ⟨rfl, fun hc => absurd hc hcustom,
        fun _ => ⟨hissued, _, own, rfl, htargets, by rw [if_neg hbroadcast]; exact hown⟩⟩

/-- What vardiff does to one channel: a new target at most, or the target and the job again
under the next id. -/
inductive RetargetedOn (maximum : Hash) (desired : Option Hash) (random : ℕ → UInt8) (c : Channel) :
    Retargeted → UInt32 → UInt32 → Prop
  | target {r : Retargeted} {nextId : UInt32} : r.job = false →
      r.channel = c.steps [.retarget desired maximum] →
      RetargetedOn maximum desired random c r nextId nextId
  | job {r : Retargeted} {nextId : UInt32} {old job : Job} : r.job = true → c.customOnly = false →
      nextId ≠ 0xffffffff → (c.retarget desired maximum).2.job = some old →
      ((c.retarget desired maximum).2.installWithPayout random (nextId + 1) old.generation
        old.template old.payout).1 = .ok job →
      r.channel.job = some job →
      r.channel = c.steps [.retarget desired maximum,
        .install random (nextId + 1) old.generation old.template old.payout, .takeTokenRefusal] →
      RetargetedOn maximum desired random c r nextId (nextId + 1)

lemma retargetOn_eq_ok {maximums : OrdMap UInt32 Hash} {desired : UInt32 → Option Hash}
    {random : UInt32 → ℕ → UInt8} {nextId nextId' : UInt32} {c : Channel} {r : Retargeted}
    (h : retargetOn maximums desired random nextId c = .ok (r, nextId')) :
    ∃ maximum, maximums.find? c.id = some maximum ∧
      RetargetedOn maximum (desired c.id) (random c.id) c r nextId nextId' := by
  have hkept : ∀ maximum, (c.retarget (desired c.id) maximum).2.customOnly = c.customOnly ∧
      (c.retarget (desired c.id) maximum).2.id = c.id := fun maximum =>
    ⟨(c.kept_retarget _ maximum).customOnly, (c.kept_retarget _ maximum).id⟩
  unfold retargetOn at h
  split at h
  · cases h
  rename_i maximum hmaximum
  refine ⟨maximum, hmaximum, ?_⟩
  simp only at h
  split at h
  · cases h
    exact .target rfl rfl
  by_cases hcustom : (c.retarget (desired c.id) maximum).2.customOnly = true
  · rw [if_pos hcustom] at h
    cases h
    exact .target rfl rfl
  rw [if_neg hcustom] at h
  split at h
  · cases h
  rename_i old hold
  obtain ⟨hroom, h⟩ := Except.ite_error_eq_ok.mp h
  rw [(hkept maximum).1] at hcustom
  rw [(hkept maximum).2] at h
  split at h
  · cases h
  rename_i job hjob
  obtain ⟨own, -, h⟩ := Except.bind_eq_ok.mp h
  rcases hr : (c.retarget (desired c.id) maximum).2.installWithPayout (random c.id) (nextId + 1)
    old.generation old.template old.payout with ⟨result, d⟩
  rw [hr] at hjob h
  obtain rfl : result = .ok job := hjob
  have hd : d.job = some job := by
    rw [(Channel.installWithPayout_eq_ok hr).1.channel]
  cases h
  refine .job rfl (by simpa using hcustom) hroom hold (by rw [hr]) hd ?_
  simp [Channel.steps, Channel.step, hr]

end Session

end Pickaxe
