/-
# Runs of a channel

A run is any order of a channel's operations, from a channel that has no job yet.  A run
keeps a log of what happened: the jobs installed, the revocations and the accepted shares.

The main result, `channel_job_binding`, is about every run in which an id that has left the
channel does not come back: the channel keeps its invariant, a failed operation leaves the
jobs, an accepted share carries what was installed under the id it names, and jobs that were
evicted, replaced or revoked take no more shares.  It rests on one fact about the log
(`Trace.Linked`): the live jobs are the latest installed ones.
-/
import Pickaxe.Channel.Install
import Mathlib.Data.List.Infix
import Mathlib.Data.List.TakeWhile

namespace Pickaxe

open Lib Merge Jd

/-- A job without the target it was issued with, which `drop_token_floor` may change. -/
def Job.content (job : Job) : Job := { job with target := default }

/-- Two jobs with one content differ in their target at most. -/
lemma Job.content_eq {j k : Job} (h : j.content = k.content) : j = { k with target := j.target } := by
  cases j
  cases k
  simp only [content, mk.injEq] at h ⊢
  simp [h]

namespace Channel

/-- The operations on a channel. -/
inductive Op where
  | install (random : ℕ → UInt8) (id : UInt32) (generation : UInt64) (template : BchTemplate)
      (payout : BchPayout)
  | installCustom (id : UInt32) (template : BchTemplate) (parts : CoinbaseParts)
  | revoke
  | settle (block : Hash) (tokens : Option Hash) (maximum : Hash)
  | dropTokenFloor (maximum : Hash)
  | retarget (desired : Option Hash) (maximum : Hash)
  | takeTokenRefusal
  | check (share : Share) (now : UInt32)

/-- What an operation did that later ones depend on. -/
inductive Event where
  | installed (job : Job)
  | revoked
  | accepted (jobId : UInt32) (share : ValidatedShare)

/-- The id an operation would install. -/
def Op.installs : Op → Option UInt32
  | .install _ id _ _ _ => some id
  | .installCustom id _ _ => some id
  | _ => none

/-- The event of an installation. -/
def installEvent (result : Except String Job) : List Event :=
  match result with
  | .error _ => []
  | .ok job => [.installed job]

/-- The event of a share. -/
def shareEvent (share : Share) (result : Except String ValidatedShare) : List Event :=
  match result with
  | .error _ => []
  | .ok v => [.accepted share.jobId v]

/-- The jobs a log installs, the latest first. -/
def installs (log : List Event) : List Job :=
  log.filterMap fun
    | .installed job => some job
    | _ => none

/-- A log up to its latest revocation. -/
def sinceRevoked (log : List Event) : List Event :=
  log.takeWhile fun
    | .revoked => false
    | _ => true

/-- A channel and the log of its run, the latest event first. -/
structure Trace where
  log : List Event
  channel : Channel

variable [Hasher]

/-- One operation on a channel. -/
def step (c : Channel) : Op → List Event × Channel
  | .install random id generation template payout =>
    let result := c.installWithPayout random id generation template payout
    (installEvent result.1, result.2)
  | .installCustom id template parts =>
    let result := c.installCustom id template parts
    (installEvent result.1, result.2)
  | .revoke => ([.revoked], c.revoke)
  | .settle block tokens maximum => ([], (c.settle block tokens maximum).2)
  | .dropTokenFloor maximum => ([], (c.dropTokenFloor maximum).2)
  | .retarget desired maximum => ([], (c.retarget desired maximum).2)
  | .takeTokenRefusal => ([], c.takeTokenRefusal.2)
  | .check share now =>
    let result := c.check share now
    (shareEvent share result.1, result.2)

/-- One operation on a trace. -/
def Trace.next (t : Trace) (op : Op) : Trace :=
  ⟨(t.channel.step op).1 ++ t.log, (t.channel.step op).2⟩

/-- The runs from `start` whose operations `allowed` lets through. -/
inductive Run (allowed : Trace → Op → Prop) (start : Channel) : Trace → Prop
  | start : Run allowed start ⟨[], start⟩
  | next {t : Trace} {op : Op} : Run allowed start t → allowed t op → Run allowed start (t.next op)

omit [Hasher] in
/-- An id is not installed again once it has left the channel. -/
def NoReuse (t : Trace) (op : Op) : Prop :=
  ∀ id, op.installs = some id → id ∈ (installs t.log).map Job.id → t.channel.holds id = true

/-! ## One step -/

omit [Hasher] in
/-- The same jobs, up to the current one's target, and the same seen hashes. -/
structure Quiet (c d : Channel) : Prop where
  job : d.job.map Job.content = c.job.map Job.content
  previous : d.previous = c.previous
  seen : d.seen = c.seen
  kind : d.kind = c.kind
  extranoncePrefix : d.extranoncePrefix = c.extranoncePrefix
  rolled : d.rolled = c.rolled
  customOnly : d.customOnly = c.customOnly
  compact : d.compact = c.compact

omit [Hasher] in
lemma quiet_settle (c : Channel) (block : Hash) (tokens : Option Hash) (maximum : Hash) :
    c.Quiet (c.settle block tokens maximum).2 :=
  ⟨rfl, rfl, rfl, rfl, rfl, rfl, rfl, rfl⟩

omit [Hasher] in
lemma quiet_dropTokenFloor (c : Channel) (maximum : Hash) :
    c.Quiet (c.dropTokenFloor maximum).2 := by
  unfold dropTokenFloor
  cases hjob : c.job with
  | none => exact ⟨rfl, rfl, rfl, rfl, rfl, rfl, rfl, rfl⟩
  | some job => exact ⟨by rw [hjob]; rfl, rfl, rfl, rfl, rfl, rfl, rfl, rfl⟩

omit [Hasher] in
lemma quiet_retarget (c : Channel) (desired : Option Hash) (maximum : Hash) :
    c.Quiet (c.retarget desired maximum).2 := by
  unfold retarget
  split
  · exact ⟨rfl, rfl, rfl, rfl, rfl, rfl, rfl, rfl⟩
  · exact ⟨rfl, rfl, rfl, rfl, rfl, rfl, rfl, rfl⟩

omit [Hasher] in
lemma quiet_of_tokenRefusal {c d : Channel} (h : d = { c with tokenRefusal := d.tokenRefusal }) :
    c.Quiet d := by
  rw [h]
  exact ⟨rfl, rfl, rfl, rfl, rfl, rfl, rfl, rfl⟩

omit [Hasher] in
lemma SameJobs.quiet {c d : Channel} (h : c.SameJobs d) (hseen : d.seen = c.seen) : c.Quiet d := by
  unfold SameJobs at h
  exact ⟨by rw [h], by rw [h], hseen, by rw [h], by rw [h], by rw [h], by rw [h], by rw [h]⟩

/-- What one operation can do: nothing to the jobs, an installation, a revocation or an
accepted share. -/
lemma step_cases (c : Channel) (op : Op) :
    ((c.step op).1 = [] ∧ c.Quiet (c.step op).2) ∨
      (∃ job, op.installs = some job.id ∧ (c.step op).1 = [.installed job] ∧
        c.Installed (c.step op).2 job ∧ c.Made job) ∨
      ((c.step op).1 = [.revoked] ∧ (c.step op).2 = c.revoke) ∨
      ∃ share v job, (c.step op).1 = [.accepted share.jobId v] ∧
        c.Credited (c.step op).2 share v job := by
  cases op with
  | install random id generation template payout =>
    rcases hr : c.installWithPayout random id generation template payout with ⟨r, d⟩
    cases r with
    | error e =>
      refine Or.inl ⟨by simp [step, hr, installEvent], ?_⟩
      simpa only [step, hr] using quiet_of_tokenRefusal (installWithPayout_eq_error hr)
    | ok job =>
      obtain ⟨hinstalled, hown⟩ := installWithPayout_eq_ok hr
      refine Or.inr (Or.inl ⟨job, by rw [hown.id_eq]; rfl, by simp [step, hr, installEvent], ?_,
        .own hown⟩)
      simpa only [step, hr] using hinstalled
  | installCustom id template parts =>
    rcases hr : c.installCustom id template parts with ⟨r, d⟩
    cases r with
    | error e =>
      refine Or.inl ⟨by simp [step, hr, installEvent], ?_⟩
      obtain rfl := installCustom_eq_error hr
      simpa only [step, hr] using quiet_of_tokenRefusal rfl
    | ok job =>
      obtain ⟨hinstalled, hcustom⟩ := installCustom_eq_ok hr
      refine Or.inr (Or.inl ⟨job, by rw [hcustom.id_eq]; rfl, by simp [step, hr, installEvent], ?_,
        .custom hcustom⟩)
      simpa only [step, hr] using hinstalled
  | revoke => exact Or.inr (Or.inr (Or.inl ⟨rfl, rfl⟩))
  | settle block tokens maximum => exact Or.inl ⟨rfl, quiet_settle c block tokens maximum⟩
  | dropTokenFloor maximum => exact Or.inl ⟨rfl, quiet_dropTokenFloor c maximum⟩
  | retarget desired maximum => exact Or.inl ⟨rfl, quiet_retarget c desired maximum⟩
  | takeTokenRefusal => exact Or.inl ⟨rfl, quiet_of_tokenRefusal rfl⟩
  | check share now =>
    rcases hr : c.check share now with ⟨r, d⟩
    cases r with
    | error e =>
      obtain ⟨hsame, hseen⟩ := check_eq_error hr
      refine Or.inl ⟨by simp [step, hr, shareEvent], ?_⟩
      simpa only [step, hr] using hsame.quiet hseen
    | ok v =>
      obtain ⟨job, hcredited⟩ := check_eq_ok hr
      refine Or.inr (Or.inr (Or.inr ⟨share, v, job, by simp [step, hr, shareEvent], ?_⟩))
      simpa only [step, hr] using hcredited

/-- An installed job was made by the operation. -/
lemma installed_step {c : Channel} {op : Op} {job : Job} (h : (c.step op).1 = [.installed job]) :
    (∃ random id generation template payout, op = .install random id generation template payout ∧
        c.installWithPayout random id generation template payout = (.ok job, (c.step op).2)) ∨
      ∃ id template parts, op = .installCustom id template parts ∧
        c.installCustom id template parts = (.ok job, (c.step op).2) := by
  cases op with
  | install random id generation template payout =>
    rcases hr : c.installWithPayout random id generation template payout with ⟨r, d⟩
    simp only [step, hr] at h ⊢
    cases r with
    | error e => simp [installEvent] at h
    | ok new =>
      obtain rfl : new = job := by simpa [installEvent] using h
      exact .inl ⟨random, id, generation, template, payout, rfl, hr⟩
  | installCustom id template parts =>
    rcases hr : c.installCustom id template parts with ⟨r, d⟩
    simp only [step, hr] at h ⊢
    cases r with
    | error e => simp [installEvent] at h
    | ok new =>
      obtain rfl : new = job := by simpa [installEvent] using h
      exact .inr ⟨id, template, parts, rfl, hr⟩
  | revoke => simp [step] at h
  | settle block tokens maximum => simp [step] at h
  | dropTokenFloor maximum => simp [step] at h
  | retarget desired maximum => simp [step] at h
  | takeTokenRefusal => simp [step] at h
  | check share now =>
    simp only [step, shareEvent] at h
    split at h
    · simp at h
    · simp at h

/-! ## The invariant -/

omit [Hasher] in
lemma Quiet.content_live {c d : Channel} (h : c.Quiet d) :
    d.live.map Job.content = c.live.map Job.content := by
  have hjob := h.job
  rw [live, live, h.previous, List.map_append, List.map_append]
  congr 1
  cases hd : d.job with
  | none =>
    rw [hd] at hjob
    cases hc : c.job with
    | none => rfl
    | some job =>
      rw [hc] at hjob
      cases hjob
  | some job =>
    rw [hd] at hjob
    cases hc : c.job with
    | none =>
      rw [hc] at hjob
      cases hjob
    | some job' =>
      rw [hc, Option.map_some, Option.map_some, Option.some.injEq] at hjob
      simp [hjob]

omit [Hasher] in
lemma map_id_of_content {l m : List Job} (h : l.map Job.content = m.map Job.content) :
    l.map Job.id = m.map Job.id := by
  have hid : ∀ l : List Job, l.map Job.id = (l.map Job.content).map Job.id := by
    intro l
    rw [List.map_map]
    rfl
  rw [hid l, hid m, h]

omit [Hasher] in
lemma Quiet.inv {c d : Channel} (h : c.Quiet d) (hc : c.Inv) : d.Inv := by
  have hids := map_id_of_content h.content_live
  have hjob := h.job
  have hlength : d.live.length = c.live.length := by
    rw [← List.length_map Job.content, h.content_live, List.length_map]
  refine ⟨hlength ▸ hc.length_live, hids ▸ hc.nodup_ids, ?_, ?_, ?_, ?_⟩
  · intro hnone
    rw [hnone, Option.map_none, eq_comm, Option.map_eq_none_iff] at hjob
    rw [h.previous]
    exact hc.previous_of_none hjob
  · intro job hsome old hold
    rw [hsome, Option.map_some, eq_comm, Option.map_eq_some_iff] at hjob
    obtain ⟨job', hjob', hcontent⟩ := hjob
    have htemplate : job'.template = job.template := by rw [Job.content_eq hcontent]
    rw [h.previous] at hold
    exact htemplate ▸ hc.same_parent job' hjob' old hold
  · rw [h.seen, hids]
    exact hc.seen_live
  · rw [h.seen]
    exact hc.seen_card

omit [Hasher] in
lemma inv_revoke (c : Channel) : c.revoke.Inv := Fresh.inv ⟨rfl, rfl, rfl⟩

lemma Credited.inv {c d : Channel} {share : Share} {v : ValidatedShare} {job : Job}
    (h : c.Credited d share v job) (hc : c.Inv) : d.Inv := by
  have hlive := h.same.live_eq
  have hsame := h.same
  unfold SameJobs at hsame
  have hjob : d.job = c.job := by rw [hsame]
  have hprevious : d.previous = c.previous := by rw [hsame]
  refine ⟨hlive ▸ hc.length_live, hlive ▸ hc.nodup_ids, ?_, ?_, ?_, ?_⟩
  · rw [hjob, hprevious]
    exact hc.previous_of_none
  · rw [hjob, hprevious]
    exact hc.same_parent
  · intro id hkey
    rw [h.seen, OrdMap.mem_keys_insert] at hkey
    rw [hlive]
    rcases hkey with rfl | hkey
    · exact List.mem_map_of_mem h.mem
    · exact hc.seen_live id hkey
  · intro id seen hfind
    rw [h.seen, OrdMap.find?_insert] at hfind
    split_ifs at hfind with hid
    · -- the set that grew had room
      cases hfind
      exact (Finset.card_insert_le _ _).trans h.room
    · exact hc.seen_card id seen hfind

/-- Every operation keeps the invariant. -/
lemma inv_step {c : Channel} (h : c.Inv) (op : Op) : (c.step op).2.Inv := by
  rcases step_cases c op with ⟨-, hquiet⟩ | ⟨job, -, -, hinstalled, -⟩ | ⟨-, hrevoke⟩ |
    ⟨share, v, job, -, hcredited⟩
  · exact hquiet.inv h
  · exact hinstalled.inv h
  · rw [hrevoke]
    exact inv_revoke c
  · exact hcredited.inv h

/-- Every channel a run reaches has the invariant. -/
lemma Run.inv {allowed : Trace → Op → Prop} {start : Channel} {t : Trace}
    (h : Run allowed start t) (hfresh : start.Fresh) : t.channel.Inv := by
  induction h with
  | start => exact hfresh.inv
  | next _ _ ih => exact inv_step ih _

/-! ## The log -/

/-- The live jobs are the latest installed ones, since the last revocation. -/
def Trace.Linked (t : Trace) : Prop :=
  t.channel.live.reverse.map Job.content <+:
    (installs (sinceRevoked t.log)).map Job.content

omit [Hasher] in
lemma linked_installed {t : Trace} {d : Channel} {job : Job} (h : t.Linked) (hc : t.channel.Inv)
    (hinstalled : t.channel.Installed d job) :
    Trace.Linked ⟨.installed job :: t.log, d⟩ := by
  have hretained := retainPrevious_spec hc job.template
  obtain ⟨dropped, hsuffix⟩ := hretained.suffix
  have hlive : d.live = (t.channel.retainPrevious job.template).previous ++ [job] := by
    rw [hinstalled.channel]
    rfl
  have hlog : installs (sinceRevoked (.installed job :: t.log)) =
      job :: installs (sinceRevoked t.log) := rfl
  unfold Trace.Linked
  simp only [hlog, hlive, List.reverse_append, List.reverse_singleton, List.singleton_append,
    List.map_cons]
  rw [List.cons_prefix_cons]
  refine ⟨rfl, List.IsPrefix.trans ?_ h⟩
  rw [hsuffix, List.reverse_append, List.map_append]
  exact List.prefix_append _ _

lemma linked_step {t : Trace} (h : t.Linked) (hc : t.channel.Inv) (op : Op) : (t.next op).Linked := by
  rcases step_cases t.channel op with ⟨hlog, hquiet⟩ | ⟨job, -, hlog, hinstalled, -⟩ |
    ⟨hlog, hrevoke⟩ | ⟨share, v, job, hlog, hcredited⟩
  · unfold Trace.Linked Trace.next
    rw [hlog, List.nil_append, List.map_reverse, hquiet.content_live, ← List.map_reverse]
    exact h
  · have := linked_installed h hc hinstalled
    rwa [Trace.next, hlog]
  · unfold Trace.Linked Trace.next
    rw [hlog, hrevoke]
    exact List.nil_prefix
  · unfold Trace.Linked Trace.next
    rw [hlog]
    simp only [hcredited.same.live_eq]
    exact h

lemma Run.linked {allowed : Trace → Op → Prop} {start : Channel} {t : Trace}
    (h : Run allowed start t) (hfresh : start.Fresh) : t.Linked := by
  induction h with
  | start =>
    obtain ⟨hjob, hprevious, -⟩ := hfresh
    simp [Trace.Linked, live, hjob, hprevious]
  | next hrun _ ih => exact linked_step ih (hrun.inv hfresh) _

/-- While no id comes back, the log installs each id once. -/
lemma Run.nodup_installs {start : Channel} {t : Trace} (h : Run NoReuse start t) :
    ((installs t.log).map Job.id).Nodup := by
  induction h with
  | start => exact List.nodup_nil
  | @next t op _ hallowed ih =>
    rcases step_cases t.channel op with ⟨hlog, -⟩ | ⟨job, hop, hlog, hinstalled, -⟩ | ⟨hlog, -⟩ |
      ⟨share, v, job, hlog, -⟩
    · rw [Trace.next, hlog]
      exact ih
    · rw [Trace.next, hlog]
      refine List.nodup_cons.mpr ⟨fun hmem => ?_, ih⟩
      -- an id of the log that is installed again is still live, and refused
      have hholds := hallowed job.id hop hmem
      rw [hinstalled.fresh] at hholds
      cases hholds
    · rw [Trace.next, hlog]
      exact ih
    · rw [Trace.next, hlog]
      exact ih

omit [Hasher] in
lemma installs_append (a b : List Event) : installs (a ++ b) = installs a ++ installs b :=
  List.filterMap_append

omit [Hasher] in
lemma installs_sinceRevoked (log : List Event) : installs (sinceRevoked log) <+: installs log :=
  List.IsPrefix.filterMap _ (List.takeWhile_prefix _)

omit [Hasher] in
/-- The live jobs are among the latest installed ones. -/
lemma Trace.Linked.live_prefix {t : Trace} (h : t.Linked) :
    t.channel.live.reverse.map Job.content <+: (installs t.log).map Job.content :=
  h.trans ((installs_sinceRevoked t.log).map _)

/-- A job is gone once eight were installed after it, or one on another parent or with other
bits, or the channel was revoked. -/
def Gone (newer : List Event) (job : Job) : Prop :=
  maxActiveJobs ≤ (installs newer).length ∨
    (∃ later ∈ installs newer, later.template.previousHash ≠ job.template.previousHash ∨
      later.template.bits ≠ job.template.bits) ∨
    Event.revoked ∈ newer

omit [Hasher] in
/-- All live jobs are on one parent, with one target in bits. -/
lemma Inv.same_parent_of_mem {c : Channel} (h : c.Inv) {j k : Job} (hj : j ∈ c.live)
    (hk : k ∈ c.live) : j.template.previousHash = k.template.previousHash ∧
      j.template.bits = k.template.bits := by
  cases hjob : c.job with
  | none => simp [live, hjob, h.previous_of_none hjob] at hj
  | some current =>
    have hcurrent : ∀ i ∈ c.live, i.template.previousHash = current.template.previousHash ∧
        i.template.bits = current.template.bits := by
      intro i hi
      rw [live, hjob, Option.toList_some, List.mem_append, List.mem_singleton] at hi
      rcases hi with hi | rfl
      · exact h.same_parent current hjob i hi
      · exact ⟨rfl, rfl⟩
    obtain ⟨hhash, hbits⟩ := hcurrent j hj
    obtain ⟨hhash', hbits'⟩ := hcurrent k hk
    exact ⟨hhash.trans hhash'.symm, hbits.trans hbits'.symm⟩

omit [Hasher] in
lemma mem_live_of_content {c : Channel} {job : Job}
    (h : job.content ∈ c.live.reverse.map Job.content) :
    ∃ j ∈ c.live, j.template = job.template := by
  obtain ⟨j, hj, hcontent⟩ := List.mem_map.mp h
  exact ⟨j, List.mem_reverse.mp hj, by rw [Job.content_eq hcontent]⟩

omit [Hasher] in
/-- Once a job is gone, the live jobs are among those installed after it. -/
lemma live_newer_of_gone {t : Trace} (h : t.Linked) (hc : t.channel.Inv) {newer older : List Event}
    {job : Job} (hlog : t.log = newer ++ .installed job :: older) (hgone : Gone newer job) :
    t.channel.live.reverse.map Job.content <+: (installs newer).map Job.content := by
  have hinstalls : installs t.log = installs newer ++ job :: installs older := by
    rw [hlog, installs_append]
    rfl
  have hpfx := h.live_prefix
  rw [hinstalls, List.map_append] at hpfx
  have hnewer : (installs newer).map Job.content <+:
      (installs newer).map Job.content ++ (job :: installs older).map Job.content :=
    List.prefix_append _ _
  have hlength : (t.channel.live.reverse.map Job.content).length = t.channel.live.length := by simp
  rcases hgone with height | ⟨later, hlater, hother⟩ | hrevoked
  · -- eight or more newer jobs leave it no place
    have := hc.length_live
    refine List.prefix_of_prefix_length_le hpfx hnewer ?_
    rw [hlength, List.length_map]
    omega
  · by_cases hle : t.channel.live.length ≤ (installs newer).length
    · exact List.prefix_of_prefix_length_le hpfx hnewer (by rwa [hlength, List.length_map])
    · -- otherwise both it and the later job are live, on one parent
      exfalso
      have hupto : (installs newer ++ [job]).map Job.content <+:
          (installs newer).map Job.content ++ (job :: installs older).map Job.content := by
        rw [List.map_append, List.map_cons, List.map_cons, List.prefix_append_right_inj]
        exact ⟨(installs older).map Job.content, rfl⟩
      have hboth : (installs newer ++ [job]).map Job.content <+:
          t.channel.live.reverse.map Job.content := by
        refine List.prefix_of_prefix_length_le hupto hpfx ?_
        rw [hlength, List.length_map, List.length_append, List.length_singleton]
        omega
      have hmem : ∀ k ∈ installs newer ++ [job], ∃ j ∈ t.channel.live, j.template = k.template :=
        fun k hk => mem_live_of_content (hboth.subset (List.mem_map_of_mem hk))
      obtain ⟨j, hj, hjt⟩ := hmem job (by simp)
      obtain ⟨k, hk, hkt⟩ := hmem later (by simp [hlater])
      have hsame := hc.same_parent_of_mem hk hj
      rw [hjt, hkt] at hsame
      rcases hother with hother | hother
      · exact hother hsame.1
      · exact hother hsame.2
  · -- the log since the revocation is newer
    have hsince : sinceRevoked t.log = sinceRevoked newer := by
      rw [hlog, sinceRevoked, List.takeWhile_append, if_neg]
      · rfl
      · intro hall
        have hself := (List.takeWhile_prefix (l := newer) fun
          | Event.revoked => false
          | _ => true).eq_of_length hall
        have := List.takeWhile_eq_self_iff.mp hself _ hrevoked
        cases this
    have := h
    rw [Trace.Linked, hsince] at this
    exact this.trans ((installs_sinceRevoked newer).map _)

omit [Hasher] in
/-- The id of a job that is gone is not live any more. -/
lemma not_live_of_gone {t : Trace} (h : t.Linked) (hc : t.channel.Inv)
    (hids : ((installs t.log).map Job.id).Nodup) {newer older : List Event} {job : Job}
    (hlog : t.log = newer ++ .installed job :: older) (hgone : Gone newer job) :
    job.id ∉ t.channel.live.map Job.id := by
  intro hmem
  obtain ⟨j, hj, hid⟩ := List.mem_map.mp hmem
  have hnewer := live_newer_of_gone h hc hlog hgone
  have hcontent : j.content ∈ (installs newer).map Job.content :=
    hnewer.subset (List.mem_map_of_mem (List.mem_reverse.mpr hj))
  obtain ⟨k, hk, hkc⟩ := List.mem_map.mp hcontent
  have hkid : k.id = job.id := by
    rw [Job.content_eq hkc]
    exact hid
  rw [hlog, installs_append, List.map_append, List.nodup_append] at hids
  exact hids.2.2 k.id (List.mem_map_of_mem hk) job.id (by simp [installs]) hkid

/-! ## What an accepted share carries -/

/-- A share accepted under a job carries that job's template, payout and merge-mining, on a
coinbase rebuilt from its parts. -/
structure Carries (c : Channel) (share : Share) (v : ValidatedShare) (job : Job) : Prop where
  generation : v.generation = job.generation
  template : v.template = job.template
  payout : v.payout = job.payout
  aux : v.aux = job.aux
  coinbase : v.coinbase = match c.kind with
    | .standard => job.standardCoinbase
    | .extended => rebuild job.parts c.extranoncePrefix share.extranonce
  header : job.template.header v.coinbase share.version share.time share.nonce = .ok v.header
  hash : v.hash = doubleSha256 v.header.bytes

lemma shareCoinbase_eq_ok {c : Channel} {job : Job} {extranonce : Bytes} {coinbase : Coinbase}
    (h : c.shareCoinbase job extranonce = .ok coinbase) :
    coinbase = match c.kind with
      | .standard => job.standardCoinbase
      | .extended => rebuild job.parts c.extranoncePrefix extranonce := by
  unfold shareCoinbase at h
  cases hkind : c.kind with
  | standard =>
    simp only [hkind] at h
    split_ifs at h
    cases h
    rfl
  | extended =>
    simp only [hkind] at h
    split_ifs at h
    cases h
    rfl

lemma Credited.carries {c d : Channel} {share : Share} {v : ValidatedShare} {job : Job}
    (h : c.Credited d share v job) : c.Carries share v job := by
  have hv := h.validated
  exact ⟨by rw [hv]; rfl, by rw [hv]; rfl, by rw [hv]; rfl, by rw [hv]; rfl,
    shareCoinbase_eq_ok h.coinbase, h.header, by rw [hv]; rfl⟩

omit [Hasher] in
/-- Every live job was installed under its id, up to its target. -/
lemma Trace.Linked.installed_of_mem {t : Trace} (h : t.Linked) {job : Job}
    (hmem : job ∈ t.channel.live) : ∃ issued ∈ installs t.log, issued.content = job.content := by
  have hcontent : job.content ∈ (installs t.log).map Job.content :=
    h.live_prefix.subset (List.mem_map_of_mem (List.mem_reverse.mpr hmem))
  obtain ⟨issued, hissued, heq⟩ := List.mem_map.mp hcontent
  exact ⟨issued, hissued, heq⟩

/-- Whatever happened since, an accepted share carries the one job installed under its id. -/
lemma accepted_carries {t : Trace} (h : t.Linked) (hids : ((installs t.log).map Job.id).Nodup)
    {share : Share} {now : UInt32} {v : ValidatedShare} {d : Channel}
    (hcheck : t.channel.check share now = (.ok v, d)) :
    ∃ job ∈ installs t.log, job.id = share.jobId ∧
      (∀ other ∈ installs t.log, other.id = share.jobId → other = job) ∧
      t.channel.Carries share v job := by
  obtain ⟨job, hcredited⟩ := check_eq_ok hcheck
  obtain ⟨issued, hissued, hcontent⟩ := h.installed_of_mem hcredited.mem
  have hjob := Job.content_eq hcontent
  have hid : issued.id = share.jobId := by
    rw [hjob]
    exact hcredited.id
  have hcarries := hcredited.carries
  refine ⟨issued, hissued, hid, ?_, ?_⟩
  · intro other hother hotherId
    exact List.inj_on_of_nodup_map hids hother hissued (hotherId.trans hid.symm)
  · -- the live job is the issued one, up to a target no share carries
    rw [hjob]
    exact ⟨hcarries.generation, hcarries.template, hcarries.payout, hcarries.aux,
      hcarries.coinbase, hcarries.header, hcarries.hash⟩

/-- A share is refused when no live job has the id it names. -/
lemma refused_of_not_live {c : Channel} {share : Share} (h : share.jobId ∉ c.live.map Job.id)
    (now : UInt32) : ∃ e d, c.check share now = (.error e, d) := by
  rcases hr : c.check share now with ⟨r, d⟩
  cases r with
  | error e => exact ⟨e, d, rfl⟩
  | ok v =>
    obtain ⟨job, hcredited⟩ := check_eq_ok hr
    exact absurd (List.mem_map.mpr ⟨job, hcredited.mem, hcredited.id⟩) h

/-! ## Every run -/

/-- A failed operation left the jobs and the seen hashes. -/
def Untouched (c d : Channel) : Prop := d.job = c.job ∧ d.previous = c.previous ∧ d.seen = c.seen

/-- In every run of a channel's operations in which no id comes back: the channel keeps its
invariant; a failed installation or share leaves the live jobs and the seen hashes; an
accepted share carries exactly what was installed under the id it names; and a share that
names a job evicted, on a replaced parent or revoked is refused. -/
theorem channel_job_binding {start : Channel} (hfresh : start.Fresh) {t : Trace}
    (hrun : Run NoReuse start t) :
    t.channel.Inv ∧
      (∀ random id generation template payout e d,
        t.channel.installWithPayout random id generation template payout = (.error e, d) →
          t.channel.Untouched d) ∧
      (∀ id template parts e d, t.channel.installCustom id template parts = (.error e, d) →
        t.channel.Untouched d) ∧
      (∀ share now e d, t.channel.check share now = (.error e, d) → t.channel.Untouched d) ∧
      (∀ share now v d, t.channel.check share now = (.ok v, d) →
        ∃ job ∈ installs t.log, job.id = share.jobId ∧
          (∀ other ∈ installs t.log, other.id = share.jobId → other = job) ∧
          t.channel.Carries share v job) ∧
      ∀ newer job older, t.log = newer ++ .installed job :: older → Gone newer job →
        ∀ share now, share.jobId = job.id → ∃ e d, t.channel.check share now = (.error e, d) := by
  have hinv := hrun.inv hfresh
  have hlinked := hrun.linked hfresh
  have hids := hrun.nodup_installs
  refine ⟨hinv, ?_, ?_, ?_, ?_, ?_⟩
  · intro random id generation template payout e d h
    have := installWithPayout_eq_error h
    exact ⟨by rw [this], by rw [this], by rw [this]⟩
  · intro id template parts e d h
    obtain rfl := installCustom_eq_error h
    exact ⟨rfl, rfl, rfl⟩
  · intro share now e d h
    obtain ⟨hsame, hseen⟩ := check_eq_error h
    unfold SameJobs at hsame
    exact ⟨by rw [hsame], by rw [hsame], hseen⟩
  · intro share now v d h
    exact accepted_carries hlinked hids h
  · intro newer job older hlog hgone share now hid
    apply refused_of_not_live
    rw [hid]
    exact not_live_of_gone hlinked hinv hids hlog hgone

end Channel

/-! ### A run on Chipnet -/

namespace Channel

/-- An extended channel before its first job. -/
def sample : Channel :=
  { id := 7
    kind := .extended
    target := ⟨List.replicate 32 0xff, length_full⟩
    extranoncePrefix := List.replicate 12 0 ++ u32Le 7
    network := .chipnet
    payout := donationAddress .chipnet
    operator := none
    job := none
    previous := []
    sequence := none
    seen := OrdMap.empty
    accepted := 0
    rejected := 0
    desired := ⟨List.replicate 32 0xff, length_full⟩
    vardiffTarget := ⟨List.replicate 32 0xff, length_full⟩
    customOnly := false
    rolled := 8
    compact := false
    donation := none
    tokenRefusal := none }

example : new 7 .extended ⟨List.replicate 32 0xff, rfl⟩ (ByteVec.zero 12) .chipnet
    (donationAddress .chipnet) = .ok sample := by decide +kernel

/-- Job 1, then job 2 on the next block. -/
def sampleRun : Trace :=
  ((@Trace.next Hasher.fips ⟨[], sample⟩ (.install (fun _ => 0) 1 1 BchTemplate.sample default)) |>
    fun t => @Trace.next Hasher.fips t (.install (fun _ => 0) 2 2
      { BchTemplate.sample with previousHash := Hash.ofHex 1 } default))

/-- Whether job 1 and then job 2 on another parent were installed, and nothing else happened. -/
def installedBoth : List Event → Bool
  | [.installed j2, .installed j1] =>
    decide (j2.id = 2 ∧ j1.id = 1 ∧ j2.template.previousHash ≠ j1.template.previousHash)
  | _ => false

lemma exists_of_installedBoth {log : List Event} (h : installedBoth log = true) :
    ∃ j2 j1, log = [.installed j2, .installed j1] ∧ j2.id = 2 ∧ j1.id = 1 ∧
      j2.template.previousHash ≠ j1.template.previousHash := by
  unfold installedBoth at h
  split at h
  · exact ⟨_, _, rfl, of_decide_eq_true h⟩
  · cases h

theorem channel_job_binding_sample :
    (installs sampleRun.log).map Job.id = [2, 1] ∧ sampleRun.channel.Inv ∧
      ∀ share now, share.jobId = 1 →
        ∃ e d, @check Hasher.fips sampleRun.channel share now = (.error e, d) := by
  let : Hasher := Hasher.fips
  have hboth : installedBoth sampleRun.log = true := by decide +kernel
  obtain ⟨j2, j1, hlog, hid2, hid1, hparent⟩ := exists_of_installedBoth hboth
  have hrun : Run NoReuse sample sampleRun := by
    refine Run.next (Run.next Run.start ?_) ?_
    · intro id _ hmem
      cases hmem
    · intro id hid hmem
      have hold : (installs (@Trace.next Hasher.fips ⟨[], sample⟩
          (.install (fun _ => 0) 1 1 BchTemplate.sample default)).log).map Job.id = [1] := by
        decide +kernel
      cases hid
      rw [hold] at hmem
      exact absurd hmem (by decide)
  have hmain := channel_job_binding ⟨rfl, rfl, rfl⟩ hrun
  refine ⟨by simp [hlog, installs, hid1, hid2], hmain.1, ?_⟩
  intro share now hshare
  refine hmain.2.2.2.2.2 [.installed j2] j1 [] hlog (Or.inr (Or.inl ⟨j2, ?_, Or.inl hparent⟩)) share
    now (hshare.trans hid1.symm)
  simp [installs]

end Channel

end Pickaxe
