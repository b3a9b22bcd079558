/-
# Winning hashes

What happens to a share that finds a block or wins a token.  The seen hashes of a live job
are those of the shares accepted on it since it was installed (`Run.seen_eq`), so a share on
a live job is refused for its hash only if the hash was accepted before, or the job has
accepted its 16,384 shares: `winning_hash_accepted` and `winning_hash_refused`.

The token wins of a share are exactly the entries whose target its hash meets, since a job's
easiest target is the largest of its entries' (`easiest_build`).
-/
import Pickaxe.Channel.Run

namespace Pickaxe

open Lib Merge Jd

namespace Merge

/-- The easiest target is at least every other. -/
lemma le_easiestOf {targets : List Hash} {easiest : Hash} (h : easiestOf targets = some easiest) :
    ∀ target ∈ targets, fromLe target.bytes ≤ fromLe easiest.bytes := by
  -- the fold keeps the best so far and never loses what it has seen
  have hfold : ∀ (ts : List Hash) (best : Hash),
      fromLe best.bytes ≤ fromLe (ts.foldl (fun best target =>
        if easier target best then target else best) best).bytes ∧
      ∀ target ∈ ts, fromLe target.bytes ≤ fromLe (ts.foldl (fun best target =>
        if easier target best then target else best) best).bytes := by
    intro ts
    induction ts with
    | nil => exact fun best => ⟨le_refl _, by simp⟩
    | cons t ts ih =>
      intro best
      rw [List.foldl_cons]
      have hstep : fromLe best.bytes ≤ fromLe (if easier t best then t else best).bytes ∧
          fromLe t.bytes ≤ fromLe (if easier t best then t else best).bytes := by
        split_ifs with heasier
        · rw [easier_iff] at heasier
          exact ⟨heasier.le, le_refl _⟩
        · rw [easier_iff, not_lt] at heasier
          exact ⟨le_refl _, heasier⟩
      obtain ⟨hbest, hrest⟩ := ih (if easier t best then t else best)
      refine ⟨hstep.1.trans hbest, ?_⟩
      intro target htarget
      rcases List.mem_cons.mp htarget with rfl | htarget
      · exact hstep.2.trans hbest
      · exact hrest target htarget
  cases targets with
  | nil => cases h
  | cons t ts =>
    cases h
    intro target htarget
    rcases List.mem_cons.mp htarget with rfl | htarget
    · exact (hfold ts target).1
    · exact (hfold ts t).2 target htarget

namespace AuxJob

variable [Hasher]

lemma easiest_build {set : TokenSet} {terms : LeafTerms} {entry : AuxEntry}
    (h : entry ∈ (build set terms).entries) :
    ∃ easiest, (build set terms).easiest = some easiest ∧
      fromLe entry.target.bytes ≤ fromLe easiest.bytes := by
  have hmem : entry.target ∈ (build set terms).entries.map fun e => e.target :=
    List.mem_map_of_mem h
  have hsome : ∃ best, easiestOf ((build set terms).entries.map fun e => e.target) = some best := by
    cases htargets : (build set terms).entries.map fun e => e.target with
    | nil =>
      rw [htargets] at hmem
      cases hmem
    | cons t ts => exact ⟨_, rfl⟩
  obtain ⟨best, hbest⟩ := hsome
  refine ⟨best, ?_, le_easiestOf hbest _ hmem⟩
  change some ((easiestOf ((build set terms).entries.map fun e => e.target)).getD set.easiest) = _
  rw [hbest, Option.getD_some]

lemma length_entries_build (set : TokenSet) (terms : LeafTerms) :
    (build set terms).entries.length ≤ set.entries.length := by
  simp [build]

end AuxJob

end Merge

namespace Channel

/-! ## The hashes accepted on a job -/

/-- The hashes accepted under an id since its job was installed. -/
def acceptedOn (id : UInt32) : List Event → Finset Hash
  | [] => ∅
  | .installed job :: log => if job.id = id then ∅ else acceptedOn id log
  | .revoked :: _ => ∅
  | .accepted jobId share :: log =>
    if jobId = id then insert share.hash (acceptedOn id log) else acceptedOn id log

/-- The seen hashes of the live jobs are those of the log. -/
def Trace.SeenLog (t : Trace) : Prop :=
  ∀ id ∈ t.channel.live.map Job.id,
    (t.channel.seen.find? id).getD ∅ = acceptedOn id t.log

variable [Hasher]

omit [Hasher] in
lemma seenLog_installed {t : Trace} {d : Channel} {job : Job} (h : t.SeenLog) (hc : t.channel.Inv)
    (hinstalled : t.channel.Installed d job) : Trace.SeenLog ⟨.installed job :: t.log, d⟩ := by
  have hretained := retainPrevious_spec hc job.template
  obtain ⟨dropped, hsuffix⟩ := hretained.suffix
  have hlive : d.live = (t.channel.retainPrevious job.template).previous ++ [job] := by
    rw [hinstalled.channel]
    rfl
  have hseen : d.seen = (t.channel.retainPrevious job.template).seen := by
    rw [hinstalled.channel]
  have hfresh : job.id ∉ t.channel.live.map Job.id := by
    rw [← holds_iff, hinstalled.fresh]
    simp
  intro id hid
  simp only [acceptedOn]
  rw [hseen, hretained.seen]
  by_cases hjob : job.id = id
  · -- the new job has accepted nothing yet
    subst hjob
    have hnot : job.id ∉ ((t.channel.retainPrevious job.template).previous).map Job.id := by
      intro hmem
      apply hfresh
      rw [hsuffix, List.map_append]
      exact List.mem_append_right _ hmem
    rw [if_neg hnot, if_pos rfl]
    rfl
  · simp only [hlive, List.map_append, List.mem_append, List.map_singleton,
      List.mem_singleton] at hid
    have hold := hid.resolve_right (Ne.symm hjob)
    rw [if_pos hold, if_neg hjob]
    apply h
    rw [hsuffix, List.map_append]
    exact List.mem_append_right _ hold

lemma seenLog_step {t : Trace} (h : t.SeenLog) (hc : t.channel.Inv) (op : Op) :
    (t.next op).SeenLog := by
  rcases step_cases t.channel op with ⟨hlog, hquiet⟩ | ⟨job, -, hlog, hinstalled, -⟩ |
    ⟨hlog, hrevoke⟩ | ⟨share, v, job, hlog, hcredited⟩
  · intro id hid
    simp only [Trace.next, hlog, List.nil_append] at hid ⊢
    rw [map_id_of_content hquiet.content_live] at hid
    rw [hquiet.seen]
    exact h id hid
  · have := seenLog_installed h hc hinstalled
    rwa [Trace.next, hlog]
  · intro id hid
    simp only [Trace.next, hrevoke] at hid
    cases hid
  · intro id hid
    simp only [Trace.next, hlog, hcredited.same.live_eq] at hid ⊢
    simp only [List.singleton_append, acceptedOn]
    rw [hcredited.seen, OrdMap.find?_insert, hcredited.id]
    by_cases hjob : id = share.jobId
    · subst hjob
      rw [if_pos rfl, if_pos rfl, Option.getD_some, h _ hid]
    · rw [if_neg hjob, if_neg (Ne.symm hjob)]
      exact h id hid

/-- In every run, what is seen on a live job is what was accepted on it. -/
lemma Run.seen_eq {allowed : Trace → Op → Prop} {start : Channel} {t : Trace}
    (h : Run allowed start t) (hfresh : start.Fresh) : t.SeenLog := by
  induction h with
  | start =>
    obtain ⟨hjob, hprevious, -⟩ := hfresh
    intro id hid
    simp [live, hjob, hprevious] at hid
  | next hrun _ ih => exact seenLog_step ih (hrun.inv hfresh) _

/-- A hash no live job has accepted is in no set. -/
lemma Run.unseen {allowed : Trace → Op → Prop} {start : Channel} {t : Trace}
    (h : Run allowed start t) (hfresh : start.Fresh) {hash : Hash}
    (hnew : ∀ job ∈ t.channel.live, hash ∉ acceptedOn job.id t.log) :
    ∀ id seen, t.channel.seen.find? id = some seen → hash ∉ seen := by
  intro id seen hfind hhash
  have hlive : id ∈ t.channel.live.map Job.id :=
    (h.inv hfresh).seen_live id (OrdMap.mem_keys.mpr ⟨seen, hfind⟩)
  obtain ⟨job, hjob, rfl⟩ := List.mem_map.mp hlive
  have hseen := h.seen_eq hfresh job.id hlive
  rw [hfind, Option.getD_some] at hseen
  exact hnew job hjob (hseen ▸ hhash)

/-! ## Shares a channel takes -/

/-- The coinbase a share's device hashed. -/
def mined (c : Channel) (job : Job) (share : Share) : Coinbase :=
  match c.kind with
  | .standard => job.standardCoinbase
  | .extended => rebuild job.parts c.extranoncePrefix share.extranonce

/-- The header a share's device hashed. -/
def minedHeader (c : Channel) (job : Job) (share : Share) : ByteVec 80 :=
  ⟨u32Le share.version ++ job.template.previousHash.bytes ++ (c.mined job share).merkleRoot.bytes ++
    u32Le share.time ++ u32Le job.template.bits ++ u32Le share.nonce, by simp⟩

/-- The hash of that header. -/
def minedHash (c : Channel) (job : Job) (share : Share) : Hash :=
  doubleSha256 (c.minedHeader job share).bytes

omit [Hasher] in
/-- A share on `job` with the channel's id, a fresh sequence number, an allowed version, an
allowed time and the right extranonce length. -/
structure Allows (c : Channel) (job : Job) (share : Share) (now : UInt32) : Prop where
  channelId : share.channelId = c.id
  jobId : share.jobId = job.id
  sequence : c.oldSequence share.sequence = false
  version : (share.version ^^^ job.template.version) &&& ~~~job.template.versionMask = 0
  notEarly : job.template.currentTime ≤ share.time
  notLate : job.late share.time now = false
  extranonce : share.extranonce.length = match c.kind with
    | .standard => 0
    | .extended => c.rolled

lemma solve_of_allows {c : Channel} {job : Job} {share : Share} {now : UInt32}
    (h : c.Allows job share now) :
    (c.noted share).solve job share now = .ok (c.mined job share, c.minedHeader job share) := by
  have hcoinbase : (c.noted share).shareCoinbase job share.extranonce = .ok (c.mined job share) := by
    have hlength := h.extranonce
    unfold shareCoinbase mined noted
    cases hkind : c.kind with
    | standard =>
      rw [hkind] at hlength
      simp only [if_pos (List.length_eq_zero_iff.mp hlength)]
    | extended =>
      rw [hkind] at hlength
      simp only [if_pos hlength]
  have hheader : job.template.header (c.mined job share) share.version share.time share.nonce =
      .ok (c.minedHeader job share) := by
    have htime : ¬ share.time < job.template.minTime :=
      not_lt.mpr (le_trans job.template.minTime_le h.notEarly)
    rw [BchTemplate.header, if_neg htime]
    rfl
  unfold solve
  rw [if_neg (by simp [h.version]), if_neg (by simp [h.notLate, h.notEarly]), hcoinbase]
  simp only [bind, Except.bind, hheader]
  rfl

/-- A share the channel allows reaches the judgement of its hash. -/
lemma checkInner_of_allows {c : Channel} (hc : c.Inv) {job : Job} (hmem : job ∈ c.live)
    {share : Share} {now : UInt32} (h : c.Allows job share now) :
    c.checkInner share now =
      (c.noted share).credit job share (c.mined job share) (c.minedHeader job share) := by
  have hfind : c.findJob share.jobId = .ok job := by
    rw [h.jobId]
    exact findJob_of_mem hmem hc.nodup_ids hc.previous_of_none
  have hsolve := solve_of_allows h
  unfold noted at hsolve
  simp [checkInner, h.channelId, hfind, h.sequence, hsolve, noted]

/-- A hash that is easy enough, new and within the job's limit is accepted. -/
lemma check_of_allows {c : Channel} (hc : c.Inv) {job : Job} (hmem : job ∈ c.live) {share : Share}
    {now : UInt32} (h : c.Allows job share now)
    (henough : meetsTarget (c.minedHash job share) (c.acceptedTarget job) = true ∨
      job.isBlockHash (c.minedHash job share) share.time = true ∨
      job.isHeaderWin (c.minedHash job share) = true)
    (hunseen : ∀ id seen, c.seen.find? id = some seen → c.minedHash job share ∉ seen) :
    (((c.seen.find? job.id).getD ∅).card < maxSharesPerJob →
      ∃ d, c.check share now =
        (.ok (c.validated job share (c.mined job share) (c.minedHeader job share)), d)) ∧
      (maxSharesPerJob ≤ ((c.seen.find? job.id).getD ∅).card →
        ∃ d, c.check share now = (.error "job-share-limit", d)) := by
  have hlow : ¬ (¬ meetsTarget (c.minedHash job share) (c.acceptedTarget job) = true ∧
      ¬ job.isBlockHash (c.minedHash job share) share.time = true ∧
      ¬ job.isHeaderWin (c.minedHash job share) = true) := by tauto
  have hdup : ¬ (c.seen.values.any fun seen => c.minedHash job share ∈ seen) = true := by
    rw [any_values_iff]
    push Not
    exact hunseen
  have hcredit : c.checkInner share now =
      if maxSharesPerJob ≤ ((c.seen.find? job.id).getD ∅).card then
        (.error "job-share-limit", { c.noted share with
          seen := c.seen.insert job.id ((c.seen.find? job.id).getD ∅) })
      else (.ok (c.validated job share (c.mined job share) (c.minedHeader job share)),
        { c.noted share with
          seen := c.seen.insert job.id
            (insert (c.minedHash job share) ((c.seen.find? job.id).getD ∅)) }) := by
    rw [checkInner_of_allows hc hmem h]
    exact (if_neg hlow).trans ((if_neg hdup).trans rfl)
  constructor
  · intro hroom
    rw [if_neg (not_le.mpr hroom)] at hcredit
    exact ⟨_, by rw [check, hcredit]⟩
  · intro hfull
    rw [if_pos hfull] at hcredit
    exact ⟨_, by rw [check, hcredit]⟩

/-! ## Token wins -/

/-- Every job's merge-mining is built on its template's token set. -/
lemma Run.aux_eq {allowed : Trace → Op → Prop} {start : Channel} {t : Trace}
    (h : Run allowed start t) : ∀ job ∈ installs t.log, ∀ aux, job.aux = some aux →
      ∃ set terms, job.template.tokens = some set ∧ aux = AuxJob.build set terms := by
  induction h with
  | start => exact fun job hjob => by cases hjob
  | @next t op _ _ ih =>
    rcases step_cases t.channel op with ⟨hlog, -⟩ | ⟨job, -, hlog, -, hmade⟩ | ⟨hlog, -⟩ |
      ⟨share, v, job, hlog, -⟩
    · rw [Trace.next, hlog]
      exact ih
    · rw [Trace.next, hlog]
      intro k hk
      rcases List.mem_cons.mp hk with rfl | hk
      · intro aux haux
        cases hmade with
        | own hown =>
          rw [hown.template_eq]
          exact BchTemplate.auxJob_eq_some (hown.aux aux haux)
        | custom hcustom =>
          rw [hcustom.aux_eq] at haux
          cases haux
      · exact ih k hk
    · rw [Trace.next, hlog]
      exact ih
    · rw [Trace.next, hlog]
      exact ih

/-- A job's token wins are the entries whose target the hash meets. -/
lemma mem_tokenWins {job : Job} {aux : AuxJob} (haux : job.aux = some aux) {set : TokenSet}
    {terms : LeafTerms} (hset : job.template.tokens = some set)
    (hbuild : aux = AuxJob.build set terms) (hash : Hash) (i : ℕ) :
    (∃ w ∈ job.tokenWins hash, w.toNat = i) ↔
      ∃ entry, aux.entries[i]? = some entry ∧ meetsTarget hash entry.target = true := by
  have hlength : aux.entries.length ≤ maxTokens := by
    rw [hbuild]
    exact (AuxJob.length_entries_build set terms).trans (job.template.tokens_fit set hset)
  unfold Job.tokenWins
  simp only [haux]
  constructor
  · rintro ⟨w, hw, rfl⟩
    split_ifs at hw
    · exact AuxJob.mem_wins.mp hw
    · cases hw
  · rintro ⟨entry, hentry, hmeets⟩
    have hi : i < 2 ^ 16 := by
      have := (List.getElem?_eq_some_iff.mp hentry).1
      unfold maxTokens maxLeaves at hlength
      omega
    -- a hash that meets an entry's target meets the easiest
    have heasiest : (aux.easiest.any fun easiest => meetsTarget hash easiest) = true := by
      have hmem : entry ∈ (AuxJob.build set terms).entries :=
        hbuild ▸ List.mem_of_getElem? hentry
      obtain ⟨easiest, hsome, hle⟩ := AuxJob.easiest_build hmem
      rw [meetsTarget_iff] at hmeets
      rw [hbuild, hsome, Option.any_some, meetsTarget_iff]
      exact hmeets.trans hle
    refine ⟨UInt16.ofNat i, ?_, UInt16.toNat_ofNat_of_lt' hi⟩
    rw [if_pos heasiest, AuxJob.mem_wins, UInt16.toNat_ofNat_of_lt' hi]
    exact ⟨entry, hentry, hmeets⟩

/-- The token wins of an accepted share are exactly the aux entries whose target its hash
meets. -/
lemma tokenWins_exact {allowed : Trace → Op → Prop} {start : Channel} (hfresh : start.Fresh)
    {t : Trace} (hrun : Run allowed start t) {share : Share} {now : UInt32} {v : ValidatedShare}
    {d : Channel} (hcheck : t.channel.check share now = (.ok v, d)) (i : ℕ) :
    (∃ w ∈ v.tokenWins, w.toNat = i) ↔ ∃ aux entry, v.aux = some aux ∧
      aux.entries[i]? = some entry ∧ meetsTarget v.hash entry.target = true := by
  obtain ⟨job, hcredited⟩ := check_eq_ok hcheck
  have hv := hcredited.validated
  have hwins : v.tokenWins = job.tokenWins v.hash := by rw [hv]; rfl
  have haux : v.aux = job.aux := by rw [hv]; rfl
  rw [hwins, haux]
  cases hjob : job.aux with
  | none => simp [Job.tokenWins, hjob]
  | some aux =>
    obtain ⟨issued, hissued, hcontent⟩ := (hrun.linked hfresh).installed_of_mem hcredited.mem
    have hsame := Job.content_eq hcontent
    obtain ⟨set, terms, hset, hbuild⟩ := hrun.aux_eq issued hissued aux (by rw [hsame]; exact hjob)
    have hset' : job.template.tokens = some set := by
      rw [hsame] at hset
      exact hset
    rw [mem_tokenWins hjob hset' hbuild]
    simp

/-! ## Every run -/

/-- In every state a run reaches, a share on a live job that the channel allows, whose hash
was not accepted before on a live job, is accepted as a block when it meets the block target
with the right bits, and as a header win when it wins a header-shaped token, if the job has
accepted fewer than 16,384 shares; and the token wins of every accepted share are exactly
the aux entries whose target its hash meets. -/
theorem winning_hash_accepted {allowed : Trace → Op → Prop} {start : Channel}
    (hfresh : start.Fresh) {t : Trace} (hrun : Run allowed start t) :
    (∀ job ∈ t.channel.live, ∀ share now, t.channel.Allows job share now →
      (∀ other ∈ t.channel.live, t.channel.minedHash job share ∉ acceptedOn other.id t.log) →
      (acceptedOn job.id t.log).card < maxSharesPerJob →
      meetsTarget (t.channel.minedHash job share) job.template.target = true →
        (job.template.work = .block → job.template.wrongBits share.time = false →
          ∃ v d, t.channel.check share now = (.ok v, d) ∧ v.hash = t.channel.minedHash job share ∧
            v.block = true) ∧
        (∀ token, job.template.work = .token token → token.layout = .safa →
          (t.channel.minedHash job share).bytes.getD 31 0 &&& 0x80 = 0 →
          ∃ v d, t.channel.check share now = (.ok v, d) ∧ v.hash = t.channel.minedHash job share ∧
            v.headerWin = true)) ∧
      ∀ share now v d, t.channel.check share now = (.ok v, d) → ∀ i : ℕ,
        ((∃ w ∈ v.tokenWins, w.toNat = i) ↔ ∃ aux entry, v.aux = some aux ∧
          aux.entries[i]? = some entry ∧ meetsTarget v.hash entry.target = true) := by
  have hinv := hrun.inv hfresh
  refine ⟨?_, fun share now v d hcheck i => tokenWins_exact hfresh hrun hcheck i⟩
  intro job hmem share now hallows hnew hroom hmeets
  have hunseen := hrun.unseen hfresh hnew
  rw [← hrun.seen_eq hfresh job.id (List.mem_map_of_mem hmem)] at hroom
  refine ⟨fun hwork hbits => ?_, fun token hwork hlayout hpositive => ?_⟩
  · have hblock : job.isBlockHash (t.channel.minedHash job share) share.time = true := by
      simp [Job.isBlockHash, BchTemplate.isBlock, hwork, hmeets, hbits]
    obtain ⟨d, hcheck⟩ := (check_of_allows hinv hmem hallows (Or.inr (Or.inl hblock)) hunseen).1 hroom
    exact ⟨_, d, hcheck, rfl, hblock⟩
  · have hwin : job.isHeaderWin (t.channel.minedHash job share) = true := by
      simp only [Job.isHeaderWin, BchTemplate.tokenJob, hwork, hlayout, hmeets, hpositive]
      rfl
    obtain ⟨d, hcheck⟩ := (check_of_allows hinv hmem hallows (Or.inr (Or.inr hwin)) hunseen).1 hroom
    exact ⟨_, d, hcheck, rfl, hwin⟩

end Channel

namespace Channel

/-! ### A block on Chipnet -/

/-- Job 1 on a template with the easiest target bits can stand for. -/
def easyStart : Trace :=
  @Trace.next Hasher.fips ⟨[], sample⟩ (.install (fun _ => 0) 1 1
    { BchTemplate.sample with
      bits := 0x207fffff
      target := targetOfNat (0x7fffff * 2 ^ 232)
      parentTime := none } default)

/-- A share of job 1 that follows the channel's last one. -/
def nextShare (c : Channel) (nonce : ℕ) : Share :=
  { channelId := 7
    jobId := 1
    sequence := (c.sequence.map fun last => last + 1).getD 0
    version := 0x20000000
    time := 1775337400
    nonce := UInt32.ofNat nonce
    extranonce := List.replicate 8 0 }

/-- The job of a log that only installs it, while it is the only one. -/
def onlyInstalled : List Event → List Job → Option Job
  | [.installed job], [live] => if live = job then some live else none
  | _, _ => none

lemma onlyInstalled_eq_some {log : List Event} {live : List Job} {job : Job}
    (h : onlyInstalled log live = some job) : log = [.installed job] ∧ live = [job] := by
  unfold onlyInstalled at h
  split at h
  · split_ifs at h with heq
    cases h
    exact ⟨by rw [heq], rfl⟩
  · cases h

/-- What `easyStart` computes. -/
lemma easyStart_spec : ∃ job, easyStart.log = [.installed job] ∧ easyStart.channel.live = [job] ∧
    easyStart.channel.id = 7 ∧ easyStart.channel.sequence = none ∧
    easyStart.channel.kind = .extended ∧ easyStart.channel.rolled = 8 ∧ job.id = 1 ∧
    job.kind = .own ∧ job.template.work = .block ∧ job.template.version = 0x20000000 ∧
    job.template.currentTime ≤ 1775337400 ∧ job.template.wrongBits 1775337400 = false ∧
    meetsTarget (@minedHash Hasher.fips easyStart.channel job (easyStart.channel.nextShare 3))
      job.template.target = true := by
  have hcompute : ((onlyInstalled easyStart.log easyStart.channel.live).any fun job =>
      decide (easyStart.channel.id = 7 ∧ easyStart.channel.sequence = none ∧
        easyStart.channel.kind = .extended ∧ easyStart.channel.rolled = 8 ∧ job.id = 1 ∧
        job.kind = .own ∧ job.template.work = .block ∧ job.template.version = 0x20000000 ∧
        job.template.currentTime ≤ 1775337400 ∧ job.template.wrongBits 1775337400 = false ∧
        meetsTarget (@minedHash Hasher.fips easyStart.channel job (easyStart.channel.nextShare 3))
          job.template.target = true)) = true := by
    rw [easyStart, Hasher.fips_eq]
    decide +kernel
  obtain ⟨job, hjob, hrest⟩ := (Option.any_eq_true _ _).mp hcompute
  obtain ⟨hlog, hlive⟩ := onlyInstalled_eq_some hjob
  exact ⟨job, hlog, hlive, of_decide_eq_true hrest⟩

theorem winning_hash_accepted_sample :
    ∃ v d, @check Hasher.fips easyStart.channel (easyStart.channel.nextShare 3) 1775337400 =
      (.ok v, d) ∧ v.block = true := by
  let : Hasher := Hasher.fips
  obtain ⟨job, hlog, hlive, hid, hsequence, hkind, hrolled, hjobId, hown, hwork, hversion, htime,
    hbits, hmeets⟩ := easyStart_spec
  have hfresh : sample.Fresh := ⟨rfl, rfl, rfl⟩
  have hrun : Run (fun _ _ => True) sample easyStart := Run.next Run.start trivial
  have hempty : ∀ id, acceptedOn id easyStart.log = ∅ := by
    intro id
    rw [hlog]
    simp [acceptedOn]
  have hallows : easyStart.channel.Allows job (easyStart.channel.nextShare 3) 1775337400 := by
    refine ⟨hid.symm, hjobId.symm, ?_, ?_, htime, ?_, ?_⟩
    · simp [oldSequence, hsequence]
    · rw [hversion]
      simp [nextShare]
    · unfold Job.late
      rw [hown]
      change decide ((1775337400 : UInt32) > saturatingAdd 1775337400 60) = false
      decide
    · rw [hkind, hrolled]
      rfl
  have hmain := (winning_hash_accepted hfresh hrun).1 job (by simp [hlive])
    (easyStart.channel.nextShare 3) 1775337400 hallows (fun other _ => by simp [hempty])
    (by simp [hempty, maxSharesPerJob]) hmeets
  obtain ⟨v, d, hcheck, -, hblock⟩ := hmain.1 hwork hbits
  exact ⟨v, d, hcheck, hblock⟩

/-! ### A job that is full -/

/-- The last 32 bytes, a function in place of SHA-256 under which hashes are easy to tell
apart. -/
def tail (b : Bytes) : Hash :=
  ⟨(List.replicate 32 0 ++ b).drop b.length, by
    rw [List.length_drop, List.length_append, List.length_replicate]
    omega⟩

abbrev tailHasher : Hasher := ⟨tail⟩

lemma bytes_tail {b : Bytes} (h : 32 ≤ b.length) : (tail b).bytes = b.drop (b.length - 32) := by
  change (List.replicate 32 0 ++ b).drop b.length = _
  rw [List.drop_append, List.length_replicate, List.drop_eq_nil_of_le (by rwa [List.length_replicate]),
    List.nil_append]

/-- Under `tail` a header's hash ends with its nonce. -/
lemma drop_doubleSha256_tail {b : Bytes} (h : b.length = 80) :
    (@doubleSha256 tailHasher b).bytes.drop 28 = b.drop 76 := by
  change (tail (tail b).bytes).bytes.drop 28 = _
  rw [bytes_tail (by simp), ByteVec.length_bytes, Nat.sub_self, List.drop_zero,
    bytes_tail (by omega), h, List.drop_drop]

/-- Job 1 on `sample`. -/
def fullStart : Trace :=
  @Trace.next tailHasher ⟨[], sample⟩ (.install (fun _ => 0) 1 1 BchTemplate.sample default)

lemma oldSequence_nextShare (c : Channel) (nonce : ℕ) :
    c.oldSequence (c.nextShare nonce).sequence = false := by
  unfold oldSequence nextShare
  cases c.sequence with
  | none => rfl
  | some last =>
    have hdelta : last + 1 - last = 1 := by
      rw [UInt32.add_comm, UInt32.add_sub_cancel]
    simp [hdelta]

/-- Different nonces, different hashes. -/
lemma minedHash_inj {c : Channel} {job : Job} {a b : Share}
    (h : @minedHash tailHasher c job a = @minedHash tailHasher c job b) : a.nonce = b.nonce := by
  have hdrop := congrArg (fun hash : Hash => hash.bytes.drop 28) h
  simp only [minedHash] at hdrop
  rw [drop_doubleSha256_tail (by simp), drop_doubleSha256_tail (by simp)] at hdrop
  have hnonce : ∀ share : Share, (@minedHeader tailHasher c job share).bytes.drop 76 =
      u32Le share.nonce := by
    intro share
    apply List.drop_left'
    simp
  rw [hnonce a, hnonce b] at hdrop
  exact u32Le_injective hdrop

/-- The channel `fullStart` leaves, with its one job. -/
structure FullStart (job : Job) : Prop where
  live : fullStart.channel.live = [job]
  id : job.id = 1
  template : job.template = BchTemplate.sample
  kind : job.kind = .own
  channelId : fullStart.channel.id = 7
  extended : fullStart.channel.kind = .extended
  rolled : fullStart.channel.rolled = 8
  target : fullStart.channel.target = ⟨List.replicate 32 0xff, rfl⟩
  jobTarget : job.target = ⟨List.replicate 32 0xff, rfl⟩
  seen : fullStart.channel.seen = OrdMap.empty
  block : meetsTarget (@minedHash tailHasher fullStart.channel job (fullStart.channel.nextShare 0))
    job.template.target = true

lemma exists_fullStart : ∃ job, FullStart job := by
  have hcompute : fullStart.channel.live.length = 1 ∧ (fullStart.channel.live.all fun job =>
      decide (job.id = 1 ∧ job.template = BchTemplate.sample ∧ job.kind = .own ∧
        fullStart.channel.id = 7 ∧ fullStart.channel.kind = .extended ∧
        fullStart.channel.rolled = 8 ∧
        fullStart.channel.target = ⟨List.replicate 32 0xff, rfl⟩ ∧
        job.target = ⟨List.replicate 32 0xff, rfl⟩ ∧ fullStart.channel.seen = OrdMap.empty ∧
        meetsTarget (@minedHash tailHasher fullStart.channel job (fullStart.channel.nextShare 0))
          job.template.target = true)) = true := by decide +kernel
  obtain ⟨hlength, hall⟩ := hcompute
  obtain ⟨job, hlive⟩ := List.length_eq_one_iff.mp hlength
  rw [hlive, List.all_cons, List.all_nil, Bool.and_true] at hall
  obtain ⟨h1, h2, h3, h4, h5, h6, h7, h8, h9, h10⟩ := of_decide_eq_true hall
  exact ⟨job, hlive, h1, h2, h3, h4, h5, h6, h7, h8, h9, h10⟩

/-- Every share of the series is allowed. -/
lemma FullStart.allows {job : Job} (h : FullStart job) {c : Channel}
    (hc : fullStart.channel.SameJobs c) (nonce : ℕ) :
    c.Allows job (c.nextShare nonce) 1775337400 := by
  have hsame := hc
  unfold SameJobs at hsame
  refine ⟨?_, h.id.symm, oldSequence_nextShare c nonce, ?_, ?_, ?_, ?_⟩
  · have hid : c.id = fullStart.channel.id := by rw [hsame]
    rw [hid, h.channelId]
    rfl
  · rw [h.template]
    change (0x20000000 ^^^ BchTemplate.sample.version) &&& ~~~BchTemplate.sample.versionMask = 0
    decide
  · rw [h.template]
    change BchTemplate.sample.currentTime ≤ 1775337400
    decide
  · unfold Job.late
    rw [h.kind]
    change decide ((1775337400 : UInt32) > saturatingAdd 1775337400 60) = false
    decide
  · have hkind : c.kind = fullStart.channel.kind := by rw [hsame]
    have hrolled : c.rolled = fullStart.channel.rolled := by rw [hsame]
    rw [hkind, hrolled, h.extended, h.rolled]
    rfl

/-- A state in which job 1 has accepted the nonces from 1 to `n`. -/
structure Filled (job : Job) (n : ℕ) (t : Trace) : Prop where
  run : @Run tailHasher (fun _ _ => True) sample t
  same : fullStart.channel.SameJobs t.channel
  card : ((t.channel.seen.find? 1).getD ∅).card = n
  mem : ∀ id seen, t.channel.seen.find? id = some seen → id = 1 ∧ ∀ hash ∈ seen, ∃ nonce,
    1 ≤ nonce ∧ nonce ≤ n ∧ hash = @minedHash tailHasher fullStart.channel job
      (fullStart.channel.nextShare nonce)

/-- The hash of a share does not depend on the shares before it. -/
lemma minedHash_nextShare {c : Channel} (hc : fullStart.channel.SameJobs c) (job : Job) (nonce : ℕ) :
    @minedHash tailHasher c job (c.nextShare nonce) =
      @minedHash tailHasher fullStart.channel job (fullStart.channel.nextShare nonce) := by
  unfold SameJobs at hc
  have hkind : c.kind = fullStart.channel.kind := by rw [hc]
  have hpfx : c.extranoncePrefix = fullStart.channel.extranoncePrefix := by rw [hc]
  simp only [minedHash, minedHeader, mined, nextShare, hkind, hpfx]

/-- A nonce not tried yet has a new hash. -/
lemma Filled.unseen {job : Job} {n : ℕ} {t : Trace} (h : Filled job n t) {nonce : ℕ}
    (hnonce : nonce = 0 ∨ n < nonce) (hlt : nonce ≤ maxSharesPerJob) (hn : n ≤ maxSharesPerJob) :
    ∀ id seen, t.channel.seen.find? id = some seen →
      @minedHash tailHasher t.channel job (t.channel.nextShare nonce) ∉ seen := by
  intro id seen hfind hmem
  obtain ⟨other, hlow, hhigh, heq⟩ := (h.mem id seen hfind).2 _ hmem
  rw [minedHash_nextShare h.same] at heq
  have hnonces := congrArg UInt32.toNat (minedHash_inj heq)
  unfold maxSharesPerJob at hlt hn
  simp only [nextShare, UInt32.toNat_ofNat'] at hnonces
  omega

/-- The share of the next nonce is accepted, whatever its hash. -/
lemma Filled.next {job : Job} (hstart : FullStart job) {n : ℕ} {t : Trace} (h : Filled job n t)
    (hn : n < maxSharesPerJob) : ∃ t', Filled job (n + 1) t' := by
  let : Hasher := tailHasher
  set share := t.channel.nextShare (n + 1) with hshare
  have hinv : t.channel.Inv := h.run.inv ⟨rfl, rfl, rfl⟩
  have hlive : t.channel.live = [job] := h.same.live_eq.trans hstart.live
  have hallows : t.channel.Allows job share 1775337400 := hstart.allows h.same (n + 1)
  have hunseen : ∀ id seen, t.channel.seen.find? id = some seen →
      t.channel.minedHash job share ∉ seen := h.unseen (Or.inr (by omega)) (by omega) hn.le
  -- every hash meets the greatest target
  have henough : meetsTarget (t.channel.minedHash job share) (t.channel.acceptedTarget job) = true := by
    have htarget : t.channel.acceptedTarget job = ⟨List.replicate 32 0xff, rfl⟩ := by
      have hsame := h.same
      unfold SameJobs at hsame
      have hchannel : t.channel.target = fullStart.channel.target := by rw [hsame]
      rw [acceptedTarget, hchannel, hstart.target, hstart.jobTarget, ite_self]
    rw [htarget, meetsTarget_iff]
    have hlt := fromLe_lt (t.channel.minedHash job share).bytes
    have hmax : fromLe (List.replicate 32 0xff) = 256 ^ 32 - 1 := by decide +kernel
    simp only [ByteVec.length_bytes] at hlt
    rw [hmax]
    omega
  have hroom : ((t.channel.seen.find? job.id).getD ∅).card < maxSharesPerJob := by
    rw [hstart.id, h.card]
    exact hn
  obtain ⟨d, hcheck⟩ := (check_of_allows hinv (by simp [hlive]) hallows (Or.inl henough) hunseen).1
    hroom
  obtain ⟨job', hcredited⟩ := check_eq_ok hcheck
  have hjob' : job' = job := by
    have := hcredited.mem
    rwa [hlive, List.mem_singleton] at this
  subst hjob'
  have hseen : d.seen = t.channel.seen.insert 1 (insert (t.channel.minedHash job' share)
      ((t.channel.seen.find? 1).getD ∅)) := by
    have := hcredited.seen
    rwa [hstart.id] at this
  have hstep : (t.next (.check share 1775337400)).channel = d := by
    simp [Trace.next, step, hcheck]
  -- the share of the next nonce is none of those seen
  have hnew : t.channel.minedHash job' share ∉ (t.channel.seen.find? 1).getD ∅ := by
    cases hfind : t.channel.seen.find? 1 with
    | none => simp
    | some seen => exact hunseen 1 seen hfind
  refine ⟨t.next (.check share 1775337400), h.run.next trivial, ?_, ?_, ?_⟩
  · rw [hstep]
    exact h.same.trans hcredited.same
  · rw [hstep, hseen, OrdMap.find?_insert_self, Option.getD_some, Finset.card_insert_of_notMem hnew,
      h.card]
  · rw [hstep, hseen]
    intro id seen hfind
    rw [OrdMap.find?_insert] at hfind
    split_ifs at hfind with hid
    · cases hfind
      refine ⟨hid, fun hash hhash => ?_⟩
      rcases Finset.mem_insert.mp hhash with rfl | hhash
      · exact ⟨n + 1, by omega, le_refl _, minedHash_nextShare h.same job' (n + 1)⟩
      · cases hold : t.channel.seen.find? 1 with
        | none =>
          rw [hold] at hhash
          simp at hhash
        | some old =>
          rw [hold] at hhash
          obtain ⟨nonce, hlow, hhigh, heq⟩ := (h.mem 1 old hold).2 hash hhash
          exact ⟨nonce, hlow, by omega, heq⟩
    · obtain ⟨hone, -⟩ := h.mem id seen hfind
      exact absurd hone hid

lemma exists_filled {job : Job} (hstart : FullStart job) (n : ℕ) (hn : n ≤ maxSharesPerJob) :
    ∃ t, Filled job n t := by
  induction n with
  | zero =>
    refine ⟨fullStart, @Run.next tailHasher _ _ _ _ (@Run.start tailHasher _ _) trivial,
      SameJobs.refl _, ?_, ?_⟩
    · rw [hstart.seen]
      rfl
    · intro id seen hfind
      rw [hstart.seen] at hfind
      cases hfind
  | succ n ih =>
    obtain ⟨t, ht⟩ := ih (by omega)
    exact ht.next hstart hn

/-- After 16,384 shares on its job, a share that finds a block is refused. -/
theorem full_job_refuses_block :
    ∃ (t : Trace) (job : Job) (share : Share) (now : UInt32) (d : Channel),
      sample.Fresh ∧ @Run tailHasher (fun _ _ => True) sample t ∧ job ∈ t.channel.live ∧
      t.channel.Allows job share now ∧
      (∀ other ∈ t.channel.live,
        @minedHash tailHasher t.channel job share ∉ acceptedOn other.id t.log) ∧
      meetsTarget (@minedHash tailHasher t.channel job share) job.template.target = true ∧
      job.template.work = .block ∧ job.template.wrongBits share.time = false ∧
      @check tailHasher t.channel share now = (.error "job-share-limit", d) := by
  let : Hasher := tailHasher
  obtain ⟨job, hstart⟩ := exists_fullStart
  obtain ⟨t, h⟩ := exists_filled hstart maxSharesPerJob le_rfl
  have hfresh : sample.Fresh := ⟨rfl, rfl, rfl⟩
  have hinv : t.channel.Inv := h.run.inv hfresh
  have hlive : t.channel.live = [job] := h.same.live_eq.trans hstart.live
  have hallows := hstart.allows h.same 0
  have hunseen := h.unseen (Or.inl rfl) (by simp [maxSharesPerJob]) le_rfl
  have hmeets : meetsTarget (t.channel.minedHash job (t.channel.nextShare 0))
      job.template.target = true := by
    rw [minedHash_nextShare h.same]
    exact hstart.block
  have hbits : job.template.wrongBits (t.channel.nextShare 0).time = false := by
    rw [hstart.template]
    change BchTemplate.sample.wrongBits 1775337400 = false
    decide +kernel
  have hblock : job.isBlockHash (t.channel.minedHash job (t.channel.nextShare 0))
      (t.channel.nextShare 0).time = true := by
    have hwork : job.template.isBlock = true := by
      rw [hstart.template]
      rfl
    rw [Job.isBlockHash, hwork, hmeets, hbits]
    rfl
  obtain ⟨d, hcheck⟩ := (check_of_allows hinv (by simp [hlive]) hallows (Or.inr (Or.inl hblock))
    hunseen).2 (by rw [hstart.id, h.card])
  refine ⟨t, job, t.channel.nextShare 0, 1775337400, d, hfresh, h.run, by simp [hlive], hallows, ?_,
    hmeets, by rw [hstart.template]; rfl, hbits, hcheck⟩
  intro other hother
  have hseen := h.run.seen_eq hfresh other.id (List.mem_map_of_mem hother)
  rw [← hseen]
  cases hfind : t.channel.seen.find? other.id with
  | none => simp
  | some seen => exact hunseen other.id seen hfind

end Channel

end Pickaxe
