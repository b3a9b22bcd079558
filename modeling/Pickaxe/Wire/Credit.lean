/-
# Credited work

A ledger follows a session while its parent stays: the jobs issued on each channel and the
shares credited.  What a channel has credited on a job that it still holds is in that job's
seen set, and the set of a dropped job is gone.  So a header comes back only through a job
that repeats a dropped one, and as long as no share names such a job, no header is credited
twice (`credited_once`).

A pool job carries its id in every coinbase, so it repeats none.  A Job Declaration client
chooses the whole coinbase of a custom job, and a new id is all it takes to set the same
job again.
-/
import Pickaxe.Wire.Delivery
import Pickaxe.Wire.Turn

namespace Pickaxe

open Lib Merge Jd

namespace Channel

variable [Hasher]

/-- Whether two jobs of a channel can make one header: the same bits, versions that agree
outside their masks, and the same coinbase.  A client's coinbases are equal when their parts
are. -/
def Repeats (c : Channel) (old job : Job) : Prop :=
  old.template.bits = job.template.bits ∧
    (old.template.version ^^^ job.template.version) &&&
      ~~~(old.template.versionMask ||| job.template.versionMask) = 0 ∧
    if c.customOnly then old.parts = job.parts
    else ¬ c.Told old job ∧ ∃ e f x y, c.shareCoinbase old e = .ok x ∧
      c.shareCoinbase job f = .ok y ∧ x.merkleRoot = y.merkleRoot

end Channel

/-- The fields of a header. -/
lemma BchTemplate.header_inj {t u : BchTemplate} {x y : Coinbase}
    {version time nonce version' time' nonce' : UInt32} {header : ByteVec 80}
    (h : t.header x version time nonce = .ok header)
    (h' : u.header y version' time' nonce' = .ok header) :
    version = version' ∧ x.merkleRoot = y.merkleRoot ∧ t.bits = u.bits := by
  obtain ⟨-, h⟩ := Except.ite_error_eq_ok.mp h
  obtain ⟨-, h'⟩ := Except.ite_error_eq_ok.mp h'
  have hbytes := congrArg ByteVec.bytes ((Except.ok.inj h).trans (Except.ok.inj h').symm)
  simp only [List.append_assoc] at hbytes
  obtain ⟨hversion, hbytes⟩ := List.append_inj hbytes (by simp)
  obtain ⟨-, hbytes⟩ := ByteVec.append_inj hbytes
  obtain ⟨hroot, hbytes⟩ := ByteVec.append_inj hbytes
  obtain ⟨-, hbytes⟩ := List.append_inj hbytes (by simp)
  obtain ⟨hbits, -⟩ := List.append_inj hbytes (by simp)
  exact ⟨u32Le_injective hversion, hroot, u32Le_injective hbits⟩

/-- One version for two jobs: they agree where neither may roll. -/
lemma version_agree {v a b m n : UInt32} (ha : (v ^^^ a) &&& ~~~m = 0) (hb : (v ^^^ b) &&& ~~~n = 0) :
    (a ^^^ b) &&& ~~~(m ||| n) = 0 := by
  rw [← UInt32.toBitVec_inj] at ha hb ⊢
  apply BitVec.eq_of_getLsbD_eq
  intro i hi
  have hbit := congrArg (fun x : BitVec 32 => x.getLsbD i) ha
  have hbit' := congrArg (fun x : BitVec 32 => x.getLsbD i) hb
  simp only [UInt32.toBitVec_and, UInt32.toBitVec_xor, UInt32.toBitVec_not, UInt32.toBitVec_or,
    BitVec.getLsbD_and, BitVec.getLsbD_xor, BitVec.getLsbD_not, BitVec.getLsbD_or, hi,
    UInt32.toBitVec_ofNat, BitVec.getLsbD_zero] at hbit hbit' ⊢
  grind

namespace Session

/-- A session and what happened since its parent changed: the jobs issued, with their
channels, and the shares credited. -/
structure Ledger where
  session : Session
  issued : List (UInt32 × Job)
  credited : List Credit

/-- The jobs a step issued: the current ones that their channels did not hold before. -/
def newJobs (s s' : Session) : List (UInt32 × Job) :=
  s'.channels.entries.filterMap fun e =>
    match e.2.job with
    | none => none
    | some job =>
      if ((s.channels.find? e.1).map fun c => c.holds job.id).getD false then none
      else some (e.1, job)

lemma mem_newJobs {s s' : Session} {k : UInt32} {job : Job} : (k, job) ∈ newJobs s s' ↔
    ∃ d, s'.channels.find? k = some d ∧ d.job = some job ∧
      ∀ c, s.channels.find? k = some c → c.holds job.id = false := by
  unfold newJobs
  rw [List.mem_filterMap]
  constructor
  · rintro ⟨⟨k', d⟩, hmem, heq⟩
    simp only at heq
    split at heq
    · cases heq
    rename_i job' hjob
    split_ifs at heq with hholds
    cases heq
    refine ⟨d, OrdMap.mem_entries.mp hmem, hjob, fun c hc => ?_⟩
    simpa [hc] using hholds
  · rintro ⟨d, hd, hjob, hnew⟩
    refine ⟨(k, d), OrdMap.mem_entries.mpr hd, ?_⟩
    have hholds : ((s.channels.find? k).map fun c => c.holds job.id).getD false = false := by
      cases hc : s.channels.find? k with
      | none => rfl
      | some c => exact hnew c hc
    simp [hjob, hholds]

variable [Hasher]

/-- The ledger after an operation. -/
def Ledger.next (l : Ledger) (op : Op) (s' : Session) : Ledger :=
  if s'.parent = l.session.parent then
    ⟨s', newJobs l.session s' ++ l.issued, l.session.credits op ++ l.credited⟩
  else ⟨s', newJobs l.session s', []⟩

/-- The runs of a session from `start` whose operations `allowed` lets through. -/
inductive Ledger.Run (allowed : Ledger → Op → Prop) (start : Session) : Ledger → Prop
  | start : Ledger.Run allowed start ⟨start, [], []⟩
  | next {l : Ledger} {op : Op} {s' : Session} {lanes lanes' : Lanes} {frames : List Frame} :
      Ledger.Run allowed start l → allowed l op →
      l.session.step lanes op = .ok (s', lanes', frames) → Ledger.Run allowed start (l.next op s')

omit [Hasher] in
/-- The server's job ids strictly increase. -/
def Ledger.Increasing (l : Ledger) : Op → Prop
  | .setJob _ id _ _ _ => ∀ x ∈ l.issued, x.2.kind = .own → x.2.id < id
  | .retarget _ _ last => ∀ x ∈ l.issued, x.2.kind = .own → x.2.id ≤ last
  | _ => True

omit [Hasher] in
instance (l : Ledger) : DecidablePred l.Increasing := fun op =>
  match op with
  | .setJob _ id _ _ _ =>
    inferInstanceAs (Decidable (∀ x ∈ l.issued, x.2.kind = .own → x.2.id < id))
  | .retarget _ _ last =>
    inferInstanceAs (Decidable (∀ x ∈ l.issued, x.2.kind = .own → x.2.id ≤ last))
  | .revokeJob => isTrue trivial
  | .receive _ _ _ => isTrue trivial

/-- A share does not name a job that repeats one its channel has dropped. -/
def Ledger.NoRepeat (l : Ledger) : Op → Prop
  | .receive _ (.submitShares _ share) _ => ∀ c job,
      l.session.channels.find? share.channelId = some c → c.findJob share.jobId = .ok job →
      ∀ old, (share.channelId, old) ∈ l.issued → c.holds old.id = false → ¬ c.Repeats old job
  | _ => True

/-! ## What a ledger knows of a channel -/

/-- A credit's header was made on `job`. -/
def Hashed (c : Channel) (job : Job) (x : Credit) : Prop :=
  ∃ e version time nonce coinbase, c.shareCoinbase job e = .ok coinbase ∧
    x.coinbase = coinbase.bytes ∧ x.path = job.parts.merklePath ∧
    (version ^^^ job.template.version) &&& ~~~job.template.versionMask = 0 ∧
    job.template.header coinbase version time nonce = .ok x.header

/-- How a channel's live jobs and seen hashes go with the jobs issued on it and the shares
credited: each share's job was issued, and its hash is in the job's seen set while the channel
holds the job. -/
structure Keeps (jobs : Set Job) (shares : Set Credit) (customJobs : UInt32) (c : Channel) :
    Prop where
  live : ∀ job ∈ c.live, ∃ old ∈ jobs, old.content = job.content
  makes : ∀ job ∈ jobs, c.Makes job
  custom : c.customOnly = true → ∀ job ∈ jobs,
    job.id.toNat ≤ customJobBit.toNat + customJobs.toNat
  credit : ∀ x ∈ shares, ∃ job ∈ jobs, Hashed c job x ∧ (c.holds job.id = true →
    ∃ seen, c.seen.find? job.id = some seen ∧ doubleSha256 x.header.bytes ∈ seen)

lemma Hashed.kept {c d : Channel} {job : Job} {x : Credit} (h : Hashed c job x) (hkept : c.Kept d) :
    Hashed d job x := by
  obtain ⟨e, version, time, nonce, coinbase, hcoinbase, hrest⟩ := h
  refine ⟨e, version, time, nonce, coinbase, ?_, hrest⟩
  rw [Channel.shareCoinbase_kept hkept.kind hkept.extranoncePrefix hkept.rolled]
  exact hcoinbase

lemma Keeps.empty {c : Channel} (hlive : c.live = []) (customJobs : UInt32) :
    Keeps ∅ ∅ customJobs c := by
  refine ⟨?_, ?_, ?_, ?_⟩
  · rw [hlive]
    exact fun job hjob => absurd hjob List.not_mem_nil
  · exact fun job hjob => hjob.elim
  · exact fun _ job hjob => hjob.elim
  · exact fun x hx => hx.elim

variable {jobs : Set Job} {shares : Set Credit} {customJobs customJobs' : UInt32} {c d : Channel}

lemma Keeps.quiet (h : Keeps jobs shares customJobs c) (hle : customJobs ≤ customJobs')
    (hkept : c.Kept d) (hquiet : c.Quiet d) : Keeps jobs shares customJobs' d := by
  refine ⟨?_, fun job hjob => (h.makes job hjob).kept hkept, ?_, ?_⟩
  · intro job hjob
    have hmem : job.content ∈ c.live.map Job.content :=
      hquiet.content_live ▸ List.mem_map_of_mem hjob
    obtain ⟨job', hjob', hcontent⟩ := List.mem_map.mp hmem
    obtain ⟨old, hold, hsame⟩ := h.live job' hjob'
    exact ⟨old, hold, hsame.trans hcontent⟩
  · intro hcustom job hjob
    rw [hkept.customOnly] at hcustom
    have hlt := UInt32.le_iff_toNat_le.mp hle
    exact (h.custom hcustom job hjob).trans (by omega)
  · intro x hx
    obtain ⟨job, hjob, hhashed, hseen⟩ := h.credit x hx
    refine ⟨job, hjob, hhashed.kept hkept, ?_⟩
    rw [hquiet.holds, hquiet.seen]
    exact hseen

lemma Keeps.cleared (h : Keeps jobs shares customJobs c) (hle : customJobs ≤ customJobs')
    (hkept : c.Kept d) (hfresh : d.Fresh) : Keeps jobs shares customJobs' d := by
  refine ⟨?_, fun job hjob => (h.makes job hjob).kept hkept, ?_, ?_⟩
  · rw [hfresh.live]
    exact fun job hjob => absurd hjob List.not_mem_nil
  · intro hcustom job hjob
    rw [hkept.customOnly] at hcustom
    have hlt := UInt32.le_iff_toNat_le.mp hle
    exact (h.custom hcustom job hjob).trans (by omega)
  · intro x hx
    obtain ⟨job, hjob, hhashed, -⟩ := h.credit x hx
    refine ⟨job, hjob, hhashed.kept hkept, fun hholds => ?_⟩
    rw [Channel.holds_iff, hfresh.live] at hholds
    cases hholds

lemma Keeps.renewed (h : Keeps jobs shares customJobs c) (hle : customJobs ≤ customJobs')
    (hkept : c.Kept d) {job : Job} (hrenewed : c.Renewed d job) (hmakes : d.Makes job)
    (hid : d.customOnly = true → job.id.toNat ≤ customJobBit.toNat + customJobs'.toNat)
    (hnew : ∀ old ∈ jobs, old.id ≠ job.id) : Keeps (insert job jobs) shares customJobs' d := by
  have hlive : d.live = d.previous ++ [job] := by rw [Channel.live, hrenewed.current]; rfl
  obtain ⟨dropped, hsuffix⟩ := hrenewed.suffix
  have hprevious : ∀ old ∈ d.previous, old.content ∈ c.live.map Job.content := by
    intro old hold
    rw [hsuffix]
    exact List.mem_append_right _ (List.mem_map_of_mem hold)
  refine ⟨?_, ?_, ?_, ?_⟩
  · intro old hold
    rw [hlive, List.mem_append, List.mem_singleton] at hold
    rcases hold with hold | rfl
    · obtain ⟨old', hold', hcontent⟩ := List.mem_map.mp (hprevious old hold)
      obtain ⟨first, hfirst, hsame⟩ := h.live old' hold'
      exact ⟨first, Set.mem_insert_of_mem _ hfirst, hsame.trans hcontent⟩
    · exact ⟨old, Set.mem_insert _ _, rfl⟩
  · rintro old (rfl | hold)
    · exact hmakes
    · exact (h.makes old hold).kept hkept
  · rintro hcustom old (rfl | hold)
    · exact hid hcustom
    · rw [hkept.customOnly] at hcustom
      have hlt := UInt32.le_iff_toNat_le.mp hle
      exact (h.custom hcustom old hold).trans (by omega)
  · intro x hx
    obtain ⟨old, hold, hhashed, hseen⟩ := h.credit x hx
    refine ⟨old, Set.mem_insert_of_mem _ hold, hhashed.kept hkept, fun hholds => ?_⟩
    -- held still, so it is one of the jobs that stayed
    have hstays : old.id ∈ d.previous.map Job.id := by
      rw [Channel.holds_iff, hlive, List.map_append, List.mem_append] at hholds
      rcases hholds with hmem | hmem
      · exact hmem
      · exact absurd (List.mem_singleton.mp hmem) (hnew old hold)
    rw [hrenewed.seen, if_pos hstays]
    apply hseen
    obtain ⟨stays, hmem, hsame⟩ := List.mem_map.mp hstays
    obtain ⟨stays', hmem', hcontent⟩ := List.mem_map.mp (hprevious stays hmem)
    have hids : stays'.id = stays.id := by rw [Job.content_eq hcontent]
    rw [Channel.holds_iff, ← hsame, ← hids]
    exact List.mem_map_of_mem hmem'

lemma Keeps.credited {share : Share} {v : ValidatedShare} {job : Job} {k : UInt32}
    (h : Keeps jobs shares customJobs c) (hle : customJobs ≤ customJobs') (hkept : c.Kept d)
    (hcredited : c.Credited d share v job) :
    Keeps jobs (insert ⟨k, v.header, v.coinbase.bytes, job.parts.merklePath⟩ shares) customJobs'
      d := by
  have hlive := hcredited.same.live_eq
  have hhash : v.hash = doubleSha256 v.header.bytes := by
    rw [hcredited.validated]
    rfl
  refine ⟨?_, fun job hjob => (h.makes job hjob).kept hkept, ?_, ?_⟩
  · rw [hlive]
    exact h.live
  · intro hcustom old hold
    rw [hkept.customOnly] at hcustom
    have hlt := UInt32.le_iff_toNat_le.mp hle
    exact (h.custom hcustom old hold).trans (by omega)
  · rintro x (rfl | hx)
    · obtain ⟨old, hold, hcontent⟩ := h.live job hcredited.mem
      have heq := Job.content_eq hcontent
      have hid : old.id = job.id := by rw [heq]
      refine ⟨old, hold, ⟨share.extranonce, share.version, share.time, share.nonce, v.coinbase, ?_,
        rfl, by rw [heq], ?_, ?_⟩, fun _ => ?_⟩
      · rw [Channel.shareCoinbase_kept hkept.kind hkept.extranoncePrefix hkept.rolled, heq]
        exact hcredited.coinbase
      · rw [heq]
        exact hcredited.version
      · rw [heq]
        exact hcredited.header
      · rw [hcredited.seen, hid, OrdMap.find?_insert_self]
        exact ⟨_, rfl, hhash ▸ Finset.mem_insert_self _ _⟩
    · obtain ⟨old, hold, hhashed, hseen⟩ := h.credit x hx
      refine ⟨old, hold, hhashed.kept hkept, fun hholds => ?_⟩
      have hholds' : c.holds old.id = true := by
        rw [Channel.holds_iff, ← hlive, ← Channel.holds_iff]
        exact hholds
      obtain ⟨seen, hfind, hmem⟩ := hseen hholds'
      rw [hcredited.seen, OrdMap.find?_insert]
      split_ifs with hid
      · refine ⟨_, rfl, Finset.mem_insert_of_mem ?_⟩
        rw [← hid, hfind]
        exact hmem
      · exact ⟨seen, hfind, hmem⟩

lemma Keeps.single {job : Job} (hlive : d.live = [job]) (hmakes : d.Makes job)
    (hid : d.customOnly = true → job.id.toNat ≤ customJobBit.toNat + customJobs.toNat) :
    Keeps {job} ∅ customJobs d := by
  refine ⟨?_, ?_, ?_, fun x hx => hx.elim⟩
  · rw [hlive]
    intro old hold
    exact ⟨job, rfl, by rw [List.mem_singleton.mp hold]⟩
  · rintro old rfl
    exact hmakes
  · rintro hcustom old rfl
    exact hid hcustom

/-! ## Ledgers of runs -/

namespace Ledger

omit [Hasher] in
/-- The jobs issued on a channel. -/
def jobsOn (l : Ledger) (k : UInt32) : Set Job := {job | (k, job) ∈ l.issued}

omit [Hasher] in
/-- The shares credited on a channel. -/
def creditedOn (l : Ledger) (k : UInt32) : Set Credit := {x | x ∈ l.credited ∧ x.channel = k}

/-- What every ledger of a run keeps. -/
structure Good (l : Ledger) : Prop where
  sound : l.session.Sound
  keeps : ∀ k c, l.session.channels.find? k = some c →
    Keeps (l.jobsOn k) (l.creditedOn k) l.session.customJobs c
  issued_le : ∀ x ∈ l.issued, x.1 ≤ l.session.nextChannel
  credited_le : ∀ x ∈ l.credited, x.channel ≤ l.session.nextChannel

variable {l : Ledger} {op : Op} {s' : Session} {k : UInt32} {c d : Channel}

/-- A new job has a new id. -/
lemma numbered_ne (hkeeps : Keeps (l.jobsOn k) (l.creditedOn k) l.session.customJobs c)
    (hincreasing : l.Increasing op) (hkept : c.Kept d) {job : Job}
    (hnumbered : l.session.Numbered s' op k d job)
    (hopen : l.session.channels.find? k = none → l.jobsOn k = ∅) :
    (d.customOnly = true → job.id.toNat ≤ customJobBit.toNat + s'.customJobs.toNat) ∧
      ∀ old ∈ l.jobsOn k, old.id ≠ job.id := by
  unfold Numbered at hnumbered
  rw [hkept.customOnly] at hnumbered ⊢
  cases hcustom : c.customOnly with
  | true =>
    rw [hcustom, if_pos rfl] at hnumbered
    obtain ⟨hlt, hid⟩ := hnumbered
    refine ⟨fun _ => hid.le, fun old hold heq => ?_⟩
    have hle := hkeeps.custom hcustom old hold
    have hlt' := UInt32.lt_iff_toNat_lt.mp hlt
    rw [heq, hid] at hle
    omega
  | false =>
    rw [hcustom] at hnumbered
    simp only [Bool.false_eq_true, if_false] at hnumbered
    refine ⟨fun h => absurd h Bool.false_ne_true, fun old hold => ?_⟩
    have hown : old.kind = .own := by
      have hmakes := hkeeps.makes old hold
      rw [Channel.Makes, hcustom] at hmakes
      exact hmakes.1
    cases op with
    | setJob random id generation template payout =>
      rw [hnumbered]
      exact (hincreasing _ hold hown).ne
    | retarget desired random last => exact (lt_of_le_of_lt (hincreasing _ hold hown) hnumbered).ne
    | revokeJob => exact hnumbered.elim
    | receive random message now =>
      rw [hopen hnumbered] at hold
      exact hold.elim

omit [Hasher] in
/-- A channel whose jobs stayed has no new job. -/
lemma not_mem_newJobs_of_live
    (hnew : ∀ job, (k, job) ∈ newJobs l.session s' ↔ d.job = some job ∧ c.holds job.id = false)
    (hlive : ∀ job ∈ d.live, c.holds job.id = true) (job : Job) :
    (k, job) ∉ newJobs l.session s' := by
  intro hmem
  obtain ⟨hjob, hnot⟩ := (hnew job).mp hmem
  rw [hlive job (by simp [Channel.live, hjob])] at hnot
  cases hnot

lemma next_of_parent (h : s'.parent = l.session.parent) : l.next op s' =
    ⟨s', newJobs l.session s' ++ l.issued, l.session.credits op ++ l.credited⟩ := by
  rw [next, if_pos h]

/-- The jobs of a channel without a new one, and with one. -/
lemma jobsOn_next (h : s'.parent = l.session.parent) :
    (l.next op s').jobsOn k = {job | (k, job) ∈ newJobs l.session s'} ∪ l.jobsOn k := by
  rw [next_of_parent h]
  ext job
  exact List.mem_append

lemma creditedOn_next (h : s'.parent = l.session.parent) :
    (l.next op s').creditedOn k =
      {x | x ∈ l.session.credits op ∧ x.channel = k} ∪ l.creditedOn k := by
  rw [next_of_parent h]
  ext x
  simp only [creditedOn, List.mem_append, or_and_right, Set.mem_ofPred_eq, Set.mem_union]

/-- The turn of a channel while the parent stays. -/
lemma keeps_same (hturn : l.session.Turn s' op k c d) (hkept : c.Kept d)
    (hle : l.session.customJobs ≤ s'.customJobs)
    (hkeeps : Keeps (l.jobsOn k) (l.creditedOn k) l.session.customJobs c)
    (hincreasing : l.Increasing op) (hopen : l.session.channels.find? k = none → l.jobsOn k = ∅)
    (hnew : ∀ job, (k, job) ∈ newJobs l.session s' ↔ d.job = some job ∧ c.holds job.id = false)
    (hparent : s'.parent = l.session.parent) :
    Keeps ((l.next op s').jobsOn k) ((l.next op s').creditedOn k) s'.customJobs d := by
  rw [jobsOn_next hparent, creditedOn_next hparent]
  -- where the live jobs are old ones, the turn adds no job
  have hstays : (∀ job ∈ d.live, c.holds job.id = true) →
      {job | (k, job) ∈ newJobs l.session s'} = ∅ := fun hlive =>
    Set.eq_empty_of_forall_notMem (not_mem_newJobs_of_live hnew hlive)
  have hnone : l.session.credits op = [] →
      {x | x ∈ l.session.credits op ∧ x.channel = k} = ∅ := by
    intro h
    simp [h]
  have hquietLive : c.Quiet d → ∀ job ∈ d.live, c.holds job.id = true := by
    intro hquiet job hjob
    rw [← hquiet.holds, Channel.holds_iff]
    exact List.mem_map_of_mem hjob
  cases hturn with
  | quiet hquiet _ hcredits =>
    rw [hstays (hquietLive hquiet), hnone hcredits, Set.empty_union, Set.empty_union]
    exact hkeeps.quiet hle hkept hquiet
  | @renewed job hrenewed _ hmakes hcredits hnumbered =>
    obtain ⟨hid, hne⟩ := numbered_ne hkeeps hincreasing hkept hnumbered hopen
    have hjobs : {job | (k, job) ∈ newJobs l.session s'} = {job} := by
      ext job'
      rw [Set.mem_ofPred_eq, hnew, hrenewed.current, Set.mem_singleton_iff, Option.some.injEq]
      constructor
      · exact fun h => h.1.symm
      · rintro rfl
        exact ⟨rfl, hrenewed.fresh⟩
    rw [hjobs, hnone hcredits, Set.empty_union, Set.singleton_union]
    exact hkeeps.renewed hle hkept hrenewed hmakes hid hne
  | cleared hfresh hcredits =>
    have hlive : ∀ job ∈ d.live, c.holds job.id = true := by
      rw [hfresh.live]
      exact fun job hjob => absurd hjob List.not_mem_nil
    rw [hstays hlive, hnone hcredits, Set.empty_union, Set.empty_union]
    exact hkeeps.cleared hle hkept hfresh
  | @credited share v job hcredited _ hcredits =>
    have hlive : ∀ job ∈ d.live, c.holds job.id = true := by
      rw [hcredited.same.live_eq]
      exact fun job hjob => (Channel.holds_iff _ _).mpr (List.mem_map_of_mem hjob)
    have hone : {x | x ∈ l.session.credits op ∧ x.channel = k} =
        {⟨k, v.header, v.coinbase.bytes, job.parts.merklePath⟩} := by
      ext x
      rw [hcredits, Set.mem_ofPred_eq, List.mem_singleton, Set.mem_singleton_iff]
      exact ⟨fun h => h.1, fun h => ⟨h, by rw [h]⟩⟩
    rw [hstays hlive, hone, Set.empty_union, Set.singleton_union]
    exact hkeeps.credited hle hkept hcredited
  | @other x hquiet _ hcredits hx =>
    have hnot : {y | y ∈ l.session.credits op ∧ y.channel = k} = ∅ := by
      rw [hcredits]
      refine Set.eq_empty_of_forall_notMem fun y hy => hx ?_
      rw [← List.mem_singleton.mp hy.1]
      exact hy.2
    rw [hstays (hquietLive hquiet), hnot, Set.empty_union, Set.empty_union]
    exact hkeeps.quiet hle hkept hquiet

/-- The turn of a channel when the parent changes: no job of the old parent stays. -/
lemma keeps_changed (hturn : l.session.Turn s' op k c d) (hkept : c.Kept d)
    (hkeeps : Keeps (l.jobsOn k) (l.creditedOn k) l.session.customJobs c)
    (hlive : ∀ job ∈ c.live, l.session.parent = some job.template.previousHash)
    (hincreasing : l.Increasing op) (hopen : l.session.channels.find? k = none → l.jobsOn k = ∅)
    (hnew : ∀ job, (k, job) ∈ newJobs l.session s' ↔ d.job = some job ∧ c.holds job.id = false)
    (hparent : s'.parent ≠ l.session.parent) :
    Keeps ((l.next op s').jobsOn k) ((l.next op s').creditedOn k) s'.customJobs d := by
  have hnext : l.next op s' = ⟨s', newJobs l.session s', []⟩ := by rw [next, if_neg hparent]
  have hcredited : (l.next op s').creditedOn k = ∅ := by
    rw [hnext]
    exact Set.eq_empty_of_forall_notMem fun x hx => List.not_mem_nil hx.1
  have hjobs : (l.next op s').jobsOn k = {job | d.job = some job ∧ c.holds job.id = false} := by
    rw [hnext]
    ext job
    exact hnew job
  -- a channel left without jobs has nothing to keep
  have hempty : d.live = [] →
      Keeps ((l.next op s').jobsOn k) ((l.next op s').creditedOn k) s'.customJobs d := by
    intro hnil
    have hnone : d.job = none := by
      cases hjob : d.job with
      | none => rfl
      | some job => simp [Channel.live, hjob] at hnil
    have hnojobs : {job | d.job = some job ∧ c.holds job.id = false} = ∅ := by
      rw [hnone]
      exact Set.eq_empty_of_forall_notMem fun job hjob => by cases hjob.1
    rw [hjobs, hcredited, hnojobs]
    exact .empty hnil _
  cases hturn with
  | quiet _ hor _ => exact hempty (hor.resolve_left hparent)
  | @renewed job hrenewed hnewparent hmakes _ hnumbered =>
    have hid := (numbered_ne hkeeps hincreasing hkept hnumbered hopen).1
    -- a job kept beside the new one would be on the old parent
    have hprevious : d.previous = [] := by
      rw [List.eq_nil_iff_forall_not_mem]
      intro old hold
      obtain ⟨dropped, hsuffix⟩ := hrenewed.suffix
      have hmem : old.content ∈ c.live.map Job.content := by
        rw [hsuffix]
        exact List.mem_append_right _ (List.mem_map_of_mem hold)
      obtain ⟨old', hold', hcontent⟩ := List.mem_map.mp hmem
      have htemplate : old'.template = old.template := by rw [Job.content_eq hcontent]
      apply hparent
      rw [hnewparent, hlive old' hold', htemplate, (hrenewed.same_parent old hold).1]
    have hone : {job | d.job = some job ∧ c.holds job.id = false} = {job} := by
      ext job'
      rw [Set.mem_ofPred_eq, hrenewed.current, Set.mem_singleton_iff, Option.some.injEq]
      constructor
      · exact fun h => h.1.symm
      · rintro rfl
        exact ⟨rfl, hrenewed.fresh⟩
    rw [hjobs, hcredited, hone]
    refine .single ?_ hmakes hid
    rw [Channel.live, hrenewed.current, hprevious]
    rfl
  | cleared hfresh _ => exact hempty hfresh.live
  | credited _ hsame _ => exact absurd hsame hparent
  | other _ hsame _ _ => exact absurd hsame hparent

lemma mem_credits {s : Session} {op : Op} {x : Credit} (h : x ∈ s.credits op) :
    ∃ random kind share now c d v job, op = .receive random (.submitShares kind share) now ∧
      s.channels.find? share.channelId = some c ∧ c.Credited d share v job ∧
      x = ⟨share.channelId, v.header, v.coinbase.bytes, job.parts.merklePath⟩ := by
  unfold credits at h
  split at h
  swap
  · cases h
  rename_i random kind share now
  split at h
  · cases h
  rename_i c hc
  by_cases hkind : c.kind ≠ kind
  · rw [if_pos hkind] at h
    cases h
  rw [if_neg hkind] at h
  rcases hr : c.check share now with ⟨r, d⟩
  rw [hr] at h
  cases r with
  | error code => cases h
  | ok v =>
    obtain ⟨job, hcredited⟩ := Channel.check_eq_ok hr
    simp only [hcredited.found, List.mem_singleton] at h
    exact ⟨random, kind, share, now, c, d, v, job, rfl, hc, hcredited, h⟩

@[simp] lemma next_session (l : Ledger) (op : Op) (s' : Session) : (l.next op s').session = s' := by
  unfold next
  split_ifs
  · rfl
  · rfl

lemma mem_next_issued {x : UInt32 × Job} (h : x ∈ (l.next op s').issued) :
    x ∈ newJobs l.session s' ∨ x ∈ l.issued := by
  unfold next at h
  split_ifs at h
  · exact List.mem_append.mp h
  · exact Or.inl h

lemma mem_next_credited {x : Credit} (h : x ∈ (l.next op s').credited) :
    x ∈ l.session.credits op ∨ x ∈ l.credited := by
  unfold next at h
  split_ifs at h
  · exact List.mem_append.mp h
  · cases h

/-- Every operation keeps what a ledger knows. -/
lemma Good.next (hgood : l.Good) (hincreasing : l.Increasing op) {lanes lanes' : Lanes}
    {frames : List Frame} (h : l.session.step lanes op = .ok (s', lanes', frames)) :
    (l.next op s').Good := by
  have hsound := step_sound hgood.sound h
  have hchange := step_change hgood.sound.inv.ids h
  obtain ⟨hnext, hlt⟩ := hchange.lt_newIds
  have hjobs := hchange.customJobs_le
  refine ⟨by rwa [next_session], ?_, ?_, ?_⟩
  · rw [next_session]
    intro k d hd
    -- the turn of a channel that was open, or of one that opens now
    have hkeeps : ∀ c, c.Kept d → l.session.Turn s' op k c d →
        Keeps (l.jobsOn k) (l.creditedOn k) l.session.customJobs c →
        (∀ job ∈ c.live, l.session.parent = some job.template.previousHash) →
        (∀ job, (k, job) ∈ newJobs l.session s' ↔ d.job = some job ∧ c.holds job.id = false) →
        (l.session.channels.find? k = none → l.jobsOn k = ∅) →
        Keeps ((l.next op s').jobsOn k) ((l.next op s').creditedOn k) s'.customJobs d := by
      intro c hkept hturn hkeeps hlive hnew hopen
      by_cases hparent : s'.parent = l.session.parent
      · exact keeps_same hturn hkept hjobs hkeeps hincreasing hopen hnew hparent
      · exact keeps_changed hturn hkept hkeeps hlive hincreasing hopen hnew hparent
    rcases step_turned hgood.sound h hd with ⟨c, hc, hkept, hturn⟩ |
      ⟨hnone, _, _, _, _, c, -, hopened, hturn⟩
    · refine hkeeps c hkept hturn (hgood.keeps k c hc) (fun job => hgood.sound.parent k c job hc) ?_
        fun hnone => ?_
      · intro job
        simp [mem_newJobs, hd, hc]
      · rw [hc] at hnone
        cases hnone
    · -- nothing was issued or credited on a channel before it opened
      have hk : l.session.nextChannel < k := by
        refine hlt k (mem_newIds.mpr (Or.inl ⟨OrdMap.mem_keys.mpr ⟨d, hd⟩, ?_⟩))
        rw [OrdMap.mem_keys, hnone]
        simp
      have hfresh : c.Fresh := (newChannel_eq_ok hopened.start_eq).fresh
      have hnojobs : l.jobsOn k = ∅ := Set.eq_empty_of_forall_notMem fun job hjob =>
        absurd hk (not_lt.mpr (hgood.issued_le _ hjob))
      have hnocredits : l.creditedOn k = ∅ := Set.eq_empty_of_forall_notMem fun x hx =>
        absurd hk (not_lt.mpr (hx.2 ▸ hgood.credited_le x hx.1))
      refine hkeeps c hopened.kept hturn ?_ ?_ ?_ fun _ => hnojobs
      · rw [hnojobs, hnocredits]
        exact .empty hfresh.live _
      · rw [hfresh.live]
        exact fun job hjob => absurd hjob List.not_mem_nil
      · intro job
        have hholds : c.holds job.id = false := by
          rw [← Bool.not_eq_true, Channel.holds_iff, hfresh.live]
          exact List.not_mem_nil
        simp [mem_newJobs, hd, hnone, hholds]
  · rw [next_session]
    rintro ⟨k, job⟩ hx
    rcases mem_next_issued hx with hx | hx
    · obtain ⟨d, hd, -⟩ := mem_newJobs.mp hx
      exact hsound.inv.channel_le k (OrdMap.mem_keys.mpr ⟨d, hd⟩)
    · exact (hgood.issued_le _ hx).trans hnext
  · rw [next_session]
    intro x hx
    rcases mem_next_credited hx with hx | hx
    · obtain ⟨_, _, share, _, c, _, _, _, -, hc, -, rfl⟩ := mem_credits hx
      exact (hgood.sound.inv.channel_le _ (OrdMap.mem_keys.mpr ⟨c, hc⟩)).trans hnext
    · exact (hgood.credited_le x hx).trans hnext

lemma Run.good {allowed : Ledger → Op → Prop} (hallowed : ∀ l op, allowed l op → l.Increasing op)
    {start : Session} (hrun : Run allowed start l) (hstart : start.Start) : l.Good := by
  induction hrun with
  | start =>
    have hnone : ∀ k c, start.channels.find? k ≠ some c := by
      rw [hstart.empty.1]
      exact not_mem_of_keys_eq_nil rfl
    exact ⟨hstart.sound, fun k c hc => absurd hc (hnone k c),
      fun x hx => absurd hx List.not_mem_nil, fun x hx => absurd hx List.not_mem_nil⟩
  | next _ hop hstep ih => exact ih.next (hallowed _ _ hop) hstep

/-! ## No header twice -/

/-- A share that no dropped job's share equals. -/
lemma Good.header_ne (hgood : l.Good) (hnorepeat : l.NoRepeat op) {used : Set Bytes}
    (hinj : Set.InjOn doubleSha256 used) {x y : Credit} (hx : x ∈ l.session.credits op)
    (hy : y ∈ l.credited) (hxused : ∀ b ∈ hashedStrings x.coinbase x.path, b ∈ used)
    (hyused : ∀ b ∈ hashedStrings y.coinbase y.path, b ∈ used) (hchannel : x.channel = y.channel) :
    x.header ≠ y.header := by
  intro hheader
  obtain ⟨random, kind, share, now, c, d, v, job, rfl, hc, hcredited, rfl⟩ := mem_credits hx
  simp only at hchannel hheader hxused
  have hkeeps := hgood.keeps _ c hc
  obtain ⟨old, hold, ⟨e, version, time, nonce, coinbase, hcoinbase, hbytes, hpath, hversion, hmade⟩,
    hseen⟩ := hkeeps.credit y ⟨hy, hchannel.symm⟩
  rw [hbytes, hpath] at hyused
  -- its job was dropped, or its hash would be known
  have hdropped : c.holds old.id = false := by
    rw [← Bool.not_eq_true]
    intro hholds
    obtain ⟨seen, hfind, hmem⟩ := hseen hholds
    have hhash : v.hash = doubleSha256 y.header.bytes := by
      rw [hcredited.validated, ← hheader]
      rfl
    exact hcredited.unseen old.id seen hfind (hhash ▸ hmem)
  -- and then the job of the new share repeats it
  refine hnorepeat c job hc hcredited.found old hold hdropped ?_
  rw [← hheader] at hmade
  obtain ⟨hversions, hroot, hbits⟩ := BchTemplate.header_inj hmade hcredited.header
  refine ⟨hbits, version_agree hversion (hversions ▸ hcredited.version), ?_⟩
  obtain ⟨first, hfirst, hcontent⟩ := hkeeps.live job hcredited.mem
  have hmakes : c.Makes job := (hkeeps.makes first hfirst).content hcontent.symm
  have hmakesold : c.Makes old := hkeeps.makes old hold
  unfold Channel.Makes at hmakes hmakesold
  split_ifs at hmakes hmakesold ⊢
  · exact Channel.Shaped.parts_eq hinj hmakesold.2 hmakes.2 hcoinbase hcredited.coinbase hyused hxused hroot
  · refine ⟨fun htold => ?_, e, share.extranonce, coinbase, v.coinbase, hcoinbase,
      hcredited.coinbase, hroot⟩
    exact htold.merkleRoot_ne hinj hmakesold.2 hmakes.2 hcoinbase hcredited.coinbase hyused hxused
      hroot

end Ledger

/-- An operation credits one share at most. -/
lemma credits_pairwise (s : Session) (op : Op) (r : Credit → Credit → Prop) :
    (s.credits op).Pairwise r := by
  unfold credits
  split
  · split
    · exact List.Pairwise.nil
    · split_ifs
      · exact List.Pairwise.nil
      · split
        · exact List.pairwise_singleton _ _
        · exact List.Pairwise.nil
  · exact List.Pairwise.nil

/-- No header is credited twice on a channel while its parent stays the session's, in every
run whose job ids increase and whose shares name no job that repeats a dropped one, when no
two of the strings hashed for the credited shares' merkle roots have one double SHA-256. -/
theorem credited_once {start : Session} (hstart : start.Start) {l : Ledger}
    (hrun : Ledger.Run (fun l op => l.Increasing op ∧ l.NoRepeat op) start l)
    (hinj : Set.InjOn doubleSha256
      {b | ∃ x ∈ l.credited, b ∈ hashedStrings x.coinbase x.path}) :
    l.credited.Pairwise fun x y => x.channel = y.channel → x.header ≠ y.header := by
  induction hrun with
  | start => exact List.Pairwise.nil
  | @next l op s' lanes lanes' frames hrun hop hstep ih =>
    have hgood := hrun.good (fun _ _ h => h.1) hstart
    by_cases hparent : s'.parent = l.session.parent
    · rw [Ledger.next_of_parent hparent] at hinj ⊢
      simp only at hinj ⊢
      refine List.pairwise_append.mpr ⟨?_, ih (hinj.mono ?_), fun x hx y hy => ?_⟩
      · exact credits_pairwise l.session op _
      · rintro b ⟨x, hx, hb⟩
        exact ⟨x, List.mem_append_right _ hx, hb⟩
      · exact hgood.header_ne hop.2 hinj hx hy (fun b hb => ⟨x, List.mem_append_left _ hx, hb⟩)
          fun b hb => ⟨y, List.mem_append_right _ hy, hb⟩
    · rw [Ledger.next, if_neg hparent]
      exact List.Pairwise.nil

end Session

/-! ## Two runs -/

namespace Session

/-- Plays operations `allowed` lets through on a ledger, one after the other. -/
def Ledger.play [Hasher] (allowed : Ledger → Op → Bool) : Lanes → Ledger → List Op → Option Ledger
  | _, l, [] => some l
  | lanes, l, op :: rest =>
    if allowed l op then
      match l.session.step lanes op with
      | .error _ => none
      | .ok (s', lanes', _) => play allowed lanes' (l.next op s') rest
    else none

lemma Ledger.run_of_play [Hasher] {allowed : Ledger → Op → Bool} {start : Session} {l l' : Ledger}
    {P : Ledger → Op → Prop} (hallowed : ∀ l op, allowed l op = true → P l op) {lanes : Lanes}
    {ops : List Op} (hrun : Run P start l) (h : play allowed lanes l ops = some l') :
    Run P start l' := by
  induction ops generalizing lanes l with
  | nil =>
    cases h
    exact hrun
  | cons op rest ih =>
    rw [play] at h
    split_ifs at h with hop
    split at h
    · cases h
    · rename_i s' lanes' frames hstep
      exact ih (.next hrun (hallowed l op hop) hstep) h

/-- A pool for Job Declaration clients. -/
def declaring : Session := sample.configure none (some ⟨jdRollable⟩) false false

/-- A client's job on channel 1: one output, and `locktime` to tell jobs apart. -/
def clientJob (locktime : UInt32) : Op :=
  .receive (fun _ => 0) (.setCustomMiningJob
    { channelId := 1
      requestId := 0
      token := []
      version := 0x20000000
      prevHash := ByteVec.zero 32
      minNtime := 1775336600
      nbits := 0x1d00ffff
      coinbaseTxVersion := 2
      coinbasePrefix := [0x03, 0xe0, 0x93, 0x04]
      coinbaseTxInputNSequence := 0xffffffff
      coinbaseTxOutputs := [1, 0x20, 0x4f, 0xa0, 0x12, 0, 0, 0, 0, 1, 0x51]
      coinbaseTxLocktime := locktime
      merklePath := [] } (.ok (.coinbaseOnly ⟨[0x51], none, none⟩))) 1775336600

/-- A client's share on one of its jobs. -/
def clientShare (jobId sequence : UInt32) : Op :=
  .receive (fun _ => 0) (.submitShares .extended
    ⟨1, jobId, sequence, 0x20000000, 1775336600, 0, List.replicate 16 0⟩) 1775336600

/-- A client opens its channel and sets a job. -/
def clientOps : List Op :=
  [.receive (fun _ => 0) (.setupConnection ⟨true, 2, 2, 2, "", ""⟩) 0,
    .setJob (fun _ _ => 0) 1 1 { BchTemplate.sample with parentTime := none } default,
    .receive (fun _ => 0) (.openChannel ⟨0, .extended, true, ⟨List.replicate 32 0xff, length_full⟩, 16, []⟩) 0,
    clientJob 0]

lemma declaring_start : declaring.Start := sample_start (some ⟨jdRollable⟩) false

/-- Whether every channel still holds each job issued on it. -/
def Ledger.keepsAll (l : Ledger) : Bool :=
  l.issued.all fun x => ((l.session.channels.find? x.1).map fun c => c.holds x.2.id).getD true

lemma Ledger.noRepeat_of_keepsAll [Hasher] {l : Ledger} (h : l.keepsAll = true) (op : Op) :
    l.NoRepeat op := by
  unfold Ledger.NoRepeat
  split
  · intro c job hc _ old hold hdropped
    have hholds := List.all_eq_true.mp h _ hold
    simp [hc, hdropped] at hholds
  · trivial

/-- The two shares of a run that credited two. -/
def Ledger.pair (l : Ledger) : Option (Credit × Credit) :=
  match l.credited with
  | [x, y] => some (x, y)
  | _ => none

lemma Ledger.credited_of_pair {l : Ledger} {x y : Credit} (h : l.pair = some (x, y)) :
    l.credited = [x, y] := by
  unfold Ledger.pair at h
  split at h
  · rename_i hcredited
    cases h
    exact hcredited
  · cases h

/-- A client's two jobs, one share on each. -/
lemma sample_play :
    let _ : Hasher := Hasher.fips
    ∃ l x y, Ledger.play (fun l op => decide (l.Increasing op) && l.keepsAll) ⟨0, false⟩
        ⟨declaring, [], []⟩ (clientOps ++ [clientShare 0x80000001 0, clientJob 1,
          clientShare 0x80000002 1]) = some l ∧
      l.credited = [x, y] ∧ x.channel = y.channel ∧ x.path = [] ∧ y.path = [] ∧
      doubleSha256 x.coinbase ≠ doubleSha256 y.coinbase := by
  rw [Hasher.fips_eq]
  intro _
  have hplay : ((Ledger.play (fun l op => decide (l.Increasing op) && l.keepsAll) ⟨0, false⟩
      ⟨declaring, [], []⟩ (clientOps ++ [clientShare 0x80000001 0, clientJob 1,
        clientShare 0x80000002 1])).any fun l => l.pair.any fun p =>
          decide (p.1.channel = p.2.channel ∧ p.1.path = [] ∧ p.2.path = [] ∧
            doubleSha256 p.1.coinbase ≠ doubleSha256 p.2.coinbase)) = true := by decide +kernel
  obtain ⟨l, hl, hplay⟩ := (Option.any_eq_true _ _).mp hplay
  obtain ⟨p, hpair, hplay⟩ := (Option.any_eq_true _ _).mp hplay
  exact ⟨l, p.1, p.2, hl, l.credited_of_pair hpair, of_decide_eq_true hplay⟩

theorem credited_once_sample : ∃ l x y,
    @Ledger.Run Hasher.fips (fun l op => l.Increasing op ∧ @Ledger.NoRepeat Hasher.fips l op)
      declaring l ∧
    l.credited = [x, y] ∧ x.channel = y.channel ∧ x.header ≠ y.header := by
  obtain ⟨l, x, y, hl, hcredited, hchannel, hx, hy, hne⟩ := sample_play
  let : Hasher := Hasher.fips
  have hrun : Ledger.Run (fun l op => l.Increasing op ∧ l.NoRepeat op) declaring l := by
    refine Ledger.run_of_play (fun l op hop => ?_) .start hl
    rw [Bool.and_eq_true, decide_eq_true_eq] at hop
    exact ⟨hop.1, Ledger.noRepeat_of_keepsAll hop.2 op⟩
  have hinj : Set.InjOn doubleSha256 {b | ∃ x ∈ l.credited, b ∈ hashedStrings x.coinbase x.path} := by
    have hused : ∀ b, (∃ x ∈ l.credited, b ∈ hashedStrings x.coinbase x.path) →
        b = x.coinbase ∨ b = y.coinbase := by
      rintro b ⟨z, hz, hb⟩
      rw [hcredited] at hz
      simp only [List.mem_cons, List.not_mem_nil, or_false] at hz
      rcases hz with rfl | rfl
      · rw [hx] at hb
        exact Or.inl (List.mem_singleton.mp hb)
      · rw [hy] at hb
        exact Or.inr (List.mem_singleton.mp hb)
    intro a ha b hb heq
    rcases hused a ha with rfl | rfl
    · rcases hused b hb with rfl | rfl
      · rfl
      · exact absurd heq hne
    · rcases hused b hb with rfl | rfl
      · exact absurd heq.symm hne
      · rfl
  have honce := credited_once declaring_start hrun hinj
  rw [hcredited, List.pairwise_pair] at honce
  exact ⟨l, x, y, hrun, hcredited, hchannel, honce hchannel⟩

/-- A client's first job and its last are the same, with eight others between them. -/
lemma repeated_play :
    let _ : Hasher := Hasher.fips
    ∃ l x, Ledger.play (fun l op => decide (l.Increasing op)) ⟨0, false⟩
        ⟨declaring, [], []⟩ (clientOps ++ [clientShare 0x80000001 0] ++
          (List.range 8).map (fun n => clientJob (UInt32.ofNat (n + 1))) ++
          [clientJob 0, clientShare 0x8000000a 1]) = some l ∧
      l.credited = [x, x] ∧ x.path = [] := by
  rw [Hasher.fips_eq]
  intro _
  have hplay : ((Ledger.play (fun l op => decide (l.Increasing op)) ⟨0, false⟩
      ⟨declaring, [], []⟩ (clientOps ++ [clientShare 0x80000001 0] ++
        (List.range 8).map (fun n => clientJob (UInt32.ofNat (n + 1))) ++
        [clientJob 0, clientShare 0x8000000a 1])).any fun l => l.pair.any fun p =>
          decide (p.1 = p.2 ∧ p.1.path = [])) = true := by decide +kernel
  obtain ⟨l, hl, hplay⟩ := (Option.any_eq_true _ _).mp hplay
  obtain ⟨⟨x, y⟩, hpair, hplay⟩ := (Option.any_eq_true _ _).mp hplay
  obtain ⟨heq, hpath⟩ : x = y ∧ x.path = [] := of_decide_eq_true hplay
  obtain rfl := heq
  exact ⟨l, x, hl, Ledger.credited_of_pair hpair, hpath⟩

/-- A client sets its job again, under a new id, after eight others have pushed it out. -/
theorem client_job_credited_twice : ∃ l, declaring.Start ∧
    @Ledger.Run Hasher.fips Ledger.Increasing declaring l ∧
    Set.InjOn (@doubleSha256 Hasher.fips)
      {b | ∃ x ∈ l.credited, b ∈ @hashedStrings Hasher.fips x.coinbase x.path} ∧
    ¬ l.credited.Pairwise fun x y => x.channel = y.channel → x.header ≠ y.header := by
  obtain ⟨l, x, hl, hcredited, hpath⟩ := repeated_play
  let : Hasher := Hasher.fips
  refine ⟨l, declaring_start, Ledger.run_of_play (fun l op hop => of_decide_eq_true hop) .start hl,
    Set.Subsingleton.injOn ?_ _, ?_⟩
  · have hused : ∀ b, (∃ x ∈ l.credited, b ∈ hashedStrings x.coinbase x.path) →
        b = x.coinbase := by
      rintro b ⟨z, hz, hb⟩
      rw [hcredited] at hz
      simp only [List.mem_cons, List.not_mem_nil, or_false, or_self] at hz
      rw [hz, hpath] at hb
      exact List.mem_singleton.mp hb
    intro a ha b hb
    exact (hused a ha).trans (hused b hb).symm
  · rw [hcredited, List.pairwise_pair]
    exact fun h => h rfl rfl

end Session

end Pickaxe
