/-
# Checking shares

`Channel.check` judges one share: it finds the job the share names, rebuilds the header the
device hashed, and compares its hash with the share target, the block target and the tokens'.

`check_eq_ok` says what an accepted share is and what it leaves behind, and `check_accepts`
which shares are accepted; everything else about `check` is read off these two.
-/
import Pickaxe.Channel.Basic

namespace Pickaxe

open Lib Merge Jd

namespace Job

/-- Whether a hash at a header time is a block: only BCH block work can be one. -/
def isBlockHash (job : Job) (hash : Hash) (time : UInt32) : Bool :=
  job.template.isBlock && meetsTarget hash job.template.target && !job.template.wrongBits time

/-- Whether a hash wins a header-shaped token: it is positive and meets the token's target. -/
def isHeaderWin (job : Job) (hash : Hash) : Bool :=
  (match job.template.tokenJob with
    | none => false
    | some token => token.layout == .safa) &&
    hash.bytes.getD 31 0 &&& 0x80 == 0 && meetsTarget hash job.template.target

/-- The aux entries a hash wins, behind one comparison with the easiest target. -/
def tokenWins (job : Job) (hash : Hash) : List UInt16 :=
  match job.aux with
  | none => []
  | some aux =>
    if aux.easiest.any fun easiest => meetsTarget hash easiest then aux.wins hash else []

/-- Whether a share's time is past the job's window. -/
def late (job : Job) (time now : UInt32) : Bool :=
  match job.kind with
  | .own => time > saturatingAdd now 60
  | .custom minNtime => time > saturatingAdd (max now minNtime) 60

/-- The share as the pool takes it, on a Job Declaration job: the rolled bytes start at the
job id, at the end of the job's prefix. -/
def forward (job : Job) (share : Share) (coinbase : Coinbase) (hash : Hash) (block : Bool) :
    Option ForwardShare :=
  job.template.jd.map fun plan =>
    let start := job.parts.pre.length - plan.pad.length - plan.layout.1
    { donation := job.payout.donationWork
      serial := job.template.declarationIdOr job.generation
      version := share.version
      ntime := share.time
      nonce := share.nonce
      extranonce := slice coinbase.bytes start (start + plan.rollable)
      hash := hash
      block := block }

end Job

namespace Channel

/-- The job a share names. -/
def findJob (c : Channel) (jobId : UInt32) : Except String Job :=
  match c.job with
  | none => .error "stale-share"
  | some current =>
    if jobId = current.id then .ok current
    else match c.previous.find? fun job => job.id == jobId with
      | none => .error "invalid-job-id"
      | some job => .ok job

/-- Whether a sequence number does not follow the last one. -/
def oldSequence (c : Channel) (sequence : UInt32) : Bool :=
  match c.sequence with
  | none => false
  | some last => sequence - last == 0 || sequence - last ≥ 0x80000000

/-- The target a share on `job` is accepted under: the one the job was issued with, or the
current one when that is easier. -/
def acceptedTarget (c : Channel) (job : Job) : Hash :=
  if meetsTarget c.target job.target then job.target else c.target

variable [Hasher]

/-- The coinbase the device hashed. -/
def shareCoinbase (c : Channel) (job : Job) (extranonce : Bytes) : Except String Coinbase :=
  match c.kind with
  | .standard =>
    if extranonce = [] then .ok job.standardCoinbase else .error "invalid-extranonce-size"
  | .extended =>
    if extranonce.length = c.rolled then .ok (rebuild job.parts c.extranoncePrefix extranonce)
    else .error "invalid-extranonce-size"

/-- The coinbase and the header of a share on `job`: its version, time and extranonce are
within what the job allows. -/
def solve (c : Channel) (job : Job) (share : Share) (now : UInt32) :
    Except String (Coinbase × ByteVec 80) :=
  if (share.version ^^^ job.template.version) &&& ~~~job.template.versionMask ≠ 0 then
    .error "invalid-version"
  else if share.time < job.template.currentTime ∨ job.late share.time now then
    .error "invalid-ntime"
  else do
    let coinbase ← c.shareCoinbase job share.extranonce
    let header ← (job.template.header coinbase share.version share.time share.nonce).mapError
      fun _ => "invalid-ntime"
    .ok (coinbase, header)

/-- The accepted share of a header on `job`. -/
def validated (c : Channel) (job : Job) (share : Share) (coinbase : Coinbase)
    (header : ByteVec 80) : ValidatedShare :=
  let hash := doubleSha256 header.bytes
  let wins := job.tokenWins hash
  { generation := job.generation
    template := job.template
    coinbase := coinbase
    header := header
    block := job.isBlockHash hash share.time
    shareTarget := c.acceptedTarget job
    payout := job.payout
    miner := c.payout
    operator := c.operator
    hash := hash
    aux := job.aux
    tokenWins := wins
    merklePath := if wins.isEmpty then [] else job.parts.merklePath
    forward := job.forward share coinbase hash (job.isBlockHash hash share.time)
    headerWin := job.isHeaderWin hash }

/-- The last part of `check_inner`: a hash easy enough, new, and within the job's limit is
kept. -/
def credit (c : Channel) (job : Job) (share : Share) (coinbase : Coinbase) (header : ByteVec 80) :
    Except String ValidatedShare × Channel :=
  let hash := doubleSha256 header.bytes
  if ¬ meetsTarget hash (c.acceptedTarget job) ∧ ¬ job.isBlockHash hash share.time ∧
      ¬ job.isHeaderWin hash then
    (.error "difficulty-too-low", c)
  else if c.seen.values.any fun seen => hash ∈ seen then (.error "duplicate-share", c)
  else
    -- `entry(job.id).or_default()` writes an empty set where the job has none yet
    let seen := (c.seen.find? job.id).getD ∅
    if seen.card ≥ maxSharesPerJob then
      (.error "job-share-limit", { c with seen := c.seen.insert job.id seen })
    else
      (.ok (c.validated job share coinbase header),
        { c with seen := c.seen.insert job.id (insert hash seen) })

/-- `Channel::check_inner`. -/
def checkInner (c : Channel) (share : Share) (now : UInt32) :
    Except String ValidatedShare × Channel :=
  if share.channelId ≠ c.id then (.error "invalid-channel-id", c)
  else match c.findJob share.jobId with
    | .error error => (.error error, c)
    | .ok job =>
      if c.oldSequence share.sequence then (.error "invalid-sequence-number", c)
      else
        let c := { c with sequence := some share.sequence }
        match c.solve job share now with
        | .error error => (.error error, c)
        | .ok (coinbase, header) => c.credit job share coinbase header

/-- `Channel::check`. -/
def check (c : Channel) (share : Share) (now : UInt32) : Except String ValidatedShare × Channel :=
  let result := c.checkInner share now
  match result.1 with
  | .ok _ => (result.1, { result.2 with accepted := saturatingSucc result.2.accepted })
  | .error _ => (result.1, { result.2 with rejected := saturatingSucc result.2.rejected })

/-! ## What `check` does -/

omit [Hasher] in
lemma findJob_eq_ok {c : Channel} {jobId : UInt32} {job : Job} (h : c.findJob jobId = .ok job) :
    job ∈ c.live ∧ job.id = jobId := by
  unfold findJob at h
  split at h
  · cases h
  rename_i current hcurrent
  split_ifs at h with hid
  · cases h
    exact ⟨by simp [live, hcurrent], hid.symm⟩
  split at h
  · cases h
  rename_i found hfound
  cases h
  refine ⟨List.mem_append_left _ (List.mem_of_find?_eq_some hfound), ?_⟩
  have := List.find?_some hfound
  rwa [beq_iff_eq] at this

omit [Hasher] in
/-- A live job is found by its id, when no two live jobs share one and older jobs stand
beside a current one. -/
lemma findJob_of_mem {c : Channel} {job : Job} (hmem : job ∈ c.live)
    (hids : (c.live.map Job.id).Nodup) (hjob : c.job = none → c.previous = []) :
    c.findJob job.id = .ok job := by
  have hunique : ∀ other ∈ c.live, other.id = job.id → other = job := fun other hother hid =>
    List.inj_on_of_nodup_map hids hother hmem hid
  unfold findJob
  cases hcurrent : c.job with
  | none => simp [live, hcurrent, hjob hcurrent] at hmem
  | some current =>
    have hcurrentMem : current ∈ c.live := by simp [live, hcurrent]
    simp only
    split_ifs with hid
    · rw [hunique current hcurrentMem hid.symm]
    -- not the current one, so among the older ones
    have hprevious : job ∈ c.previous := by
      rcases List.mem_append.mp hmem with h | h
      · exact h
      · rw [hcurrent, Option.toList_some, List.mem_singleton] at h
        exact absurd (congrArg Job.id h) hid
    cases hfind : c.previous.find? fun other => other.id == job.id with
    | none =>
      have := List.find?_eq_none.mp hfind job hprevious
      simp at this
    | some other =>
      have hother : other.id = job.id := by simpa using List.find?_some hfind
      have hmem' : other ∈ c.live := List.mem_append_left _ (List.mem_of_find?_eq_some hfind)
      rw [hunique other hmem' hother]

lemma solve_eq_ok {c : Channel} {job : Job} {share : Share} {now : UInt32} {coinbase : Coinbase}
    {header : ByteVec 80} (h : c.solve job share now = .ok (coinbase, header)) :
    (share.version ^^^ job.template.version) &&& ~~~job.template.versionMask = 0 ∧
      c.shareCoinbase job share.extranonce = .ok coinbase ∧
      job.template.header coinbase share.version share.time share.nonce = .ok header := by
  unfold solve at h
  rw [Except.ite_error_eq_ok, Except.ite_error_eq_ok] at h
  obtain ⟨hversion, -, h⟩ := h
  obtain ⟨cb, hcoinbase, h⟩ := Except.bind_eq_ok.mp h
  obtain ⟨hd, hheader, h⟩ := Except.bind_eq_ok.mp h
  cases h
  exact ⟨not_not.mp hversion, hcoinbase, Except.mapError_eq_ok.mp hheader⟩

/-- Only the sequence number, the counters and the seen hashes differ. -/
def SameJobs (c d : Channel) : Prop :=
  d = { c with
    sequence := d.sequence
    seen := d.seen
    accepted := d.accepted
    rejected := d.rejected }

omit [Hasher] in
lemma SameJobs.refl (c : Channel) : c.SameJobs c := rfl

omit [Hasher] in
lemma SameJobs.trans {c d e : Channel} (h : c.SameJobs d) (h' : d.SameJobs e) : c.SameJobs e := by
  unfold SameJobs at *
  rw [h']
  rw [h]

omit [Hasher] in
lemma SameJobs.live_eq {c d : Channel} (h : c.SameJobs d) : d.live = c.live := by
  unfold SameJobs at h
  have hjob : d.job = c.job := by rw [h]
  have hprevious : d.previous = c.previous := by rw [h]
  rw [live, live, hjob, hprevious]

/-- What `check` did when it accepted a share: the hash is new, and joins the set of a live
job that had room. -/
structure Credited (c d : Channel) (share : Share) (v : ValidatedShare) (job : Job) : Prop where
  found : c.findJob share.jobId = .ok job
  mem : job ∈ c.live
  id : job.id = share.jobId
  channelId : share.channelId = c.id
  version : (share.version ^^^ job.template.version) &&& ~~~job.template.versionMask = 0
  coinbase : c.shareCoinbase job share.extranonce = .ok v.coinbase
  header : job.template.header v.coinbase share.version share.time share.nonce = .ok v.header
  validated : v = c.validated job share v.coinbase v.header
  unseen : ∀ id seen, c.seen.find? id = some seen → v.hash ∉ seen
  room : ((c.seen.find? job.id).getD ∅).card < maxSharesPerJob
  same : c.SameJobs d
  seen : d.seen = c.seen.insert job.id (insert v.hash ((c.seen.find? job.id).getD ∅))

omit [Hasher] in
lemma any_values_iff (m : OrdMap UInt32 (Finset Hash)) (hash : Hash) :
    (m.values.any fun seen => hash ∈ seen) = true ↔
      ∃ id seen, m.find? id = some seen ∧ hash ∈ seen := by
  simp only [List.any_eq_true, decide_eq_true_eq, OrdMap.mem_values]
  constructor
  · rintro ⟨seen, ⟨id, hid⟩, hmem⟩
    exact ⟨id, seen, hid, hmem⟩
  · rintro ⟨id, seen, hid, hmem⟩
    exact ⟨seen, ⟨id, hid⟩, hmem⟩

/-- An accepted hash: new, and with room on its job. -/
lemma credit_eq_ok {c d : Channel} {job : Job} {share : Share} {coinbase : Coinbase}
    {header : ByteVec 80} {v : ValidatedShare}
    (h : c.credit job share coinbase header = (.ok v, d)) :
    v = c.validated job share coinbase header ∧
      (∀ id seen, c.seen.find? id = some seen → doubleSha256 header.bytes ∉ seen) ∧
      ((c.seen.find? job.id).getD ∅).card < maxSharesPerJob ∧
      d = { c with
        seen := c.seen.insert job.id
          (insert (doubleSha256 header.bytes) ((c.seen.find? job.id).getD ∅)) } := by
  unfold credit at h
  simp only at h
  split_ifs at h with hlow hdup hfull
  · cases h
  · cases h
  · cases h
  · rw [any_values_iff] at hdup
    push Not at hdup
    cases h
    exact ⟨rfl, hdup, Nat.lt_of_not_le hfull, rfl⟩

/-- A refused hash changes nothing: only a set that is there already can be full. -/
lemma credit_eq_error {c d : Channel} {job : Job} {share : Share} {coinbase : Coinbase}
    {header : ByteVec 80} {e : String}
    (h : c.credit job share coinbase header = (.error e, d)) : d = c := by
  unfold credit at h
  simp only at h
  split_ifs at h with hlow hdup hfull
  · cases h
    rfl
  · cases h
    rfl
  · cases hseen : c.seen.find? job.id with
    | none =>
      rw [hseen] at hfull
      simp [maxSharesPerJob] at hfull
    | some seen =>
      rw [hseen, Option.getD_some, OrdMap.insert_eq_self hseen] at h
      cases h
      rfl
  · cases h

/-- The channel once a share's sequence number is noted. -/
def noted (c : Channel) (share : Share) : Channel := { c with sequence := some share.sequence }

/-- A share is refused at once, or judged on the job it names. -/
lemma checkInner_cases (c : Channel) (share : Share) (now : UInt32) :
    (∃ e, c.checkInner share now = (.error e, c)) ∨
      ∃ job, share.channelId = c.id ∧ c.findJob share.jobId = .ok job ∧
        c.oldSequence share.sequence = false ∧
        ((∃ e, (c.noted share).solve job share now = .error e ∧
            c.checkInner share now = (.error e, c.noted share)) ∨
          ∃ coinbase header, (c.noted share).solve job share now = .ok (coinbase, header) ∧
            c.checkInner share now = (c.noted share).credit job share coinbase header) := by
  by_cases hid : share.channelId = c.id
  · cases hjob : c.findJob share.jobId with
    | error e => exact Or.inl ⟨e, by simp [checkInner, hid, hjob]⟩
    | ok job =>
      by_cases hseq : c.oldSequence share.sequence = true
      · exact Or.inl ⟨_, by simp [checkInner, hid, hjob, hseq]; rfl⟩
      · refine Or.inr ⟨job, hid, rfl, by simpa using hseq, ?_⟩
        cases hsolve : (c.noted share).solve job share now with
        | error e =>
          refine Or.inl ⟨e, rfl, ?_⟩
          have hsolve' := hsolve
          unfold noted at hsolve'
          simp [checkInner, hid, hjob, hseq, hsolve', noted]
        | ok found =>
          refine Or.inr ⟨found.1, found.2, rfl, ?_⟩
          have hsolve' := hsolve
          unfold noted at hsolve'
          simp [checkInner, hid, hjob, hseq, hsolve', noted]
  · exact Or.inl ⟨_, by simp [checkInner, hid]; rfl⟩

/-- Every accepted share was credited to a live job. -/
lemma check_eq_ok {c d : Channel} {share : Share} {now : UInt32} {v : ValidatedShare}
    (h : c.check share now = (.ok v, d)) : ∃ job, c.Credited d share v job := by
  have hinner : ∃ c', c.checkInner share now = (.ok v, c') ∧
      d = { c' with accepted := saturatingSucc c'.accepted } := by
    rcases hr : c.checkInner share now with ⟨r, c'⟩
    cases r with
    | ok w =>
      simp only [check, hr] at h
      cases h
      exact ⟨c', rfl, rfl⟩
    | error e =>
      simp only [check, hr] at h
      cases h
  obtain ⟨c', hinner, rfl⟩ := hinner
  rcases checkInner_cases c share now with ⟨e, he⟩ | ⟨job, hid, hjob, hseq, hcases⟩
  · rw [he] at hinner
    cases hinner
  rcases hcases with ⟨e, -, he⟩ | ⟨coinbase, header, hsolve, hcredit⟩
  · rw [he] at hinner
    cases hinner
  rw [hcredit] at hinner
  obtain ⟨rfl, hunseen, hroom, rfl⟩ := credit_eq_ok hinner
  obtain ⟨hmem, hjobId⟩ := findJob_eq_ok hjob
  obtain ⟨hversion, hcoinbase, hheader⟩ := solve_eq_ok hsolve
  exact ⟨job, hjob, hmem, hjobId, hid, hversion, hcoinbase, hheader, rfl, hunseen, hroom, rfl, rfl⟩

/-- A refused share leaves the jobs and the seen hashes. -/
lemma check_eq_error {c d : Channel} {share : Share} {now : UInt32} {e : String}
    (h : c.check share now = (.error e, d)) : c.SameJobs d ∧ d.seen = c.seen := by
  have hinner : ∃ c', c.checkInner share now = (.error e, c') ∧
      d = { c' with rejected := saturatingSucc c'.rejected } := by
    rcases hr : c.checkInner share now with ⟨r, c'⟩
    cases r with
    | ok w =>
      simp only [check, hr] at h
      cases h
    | error e' =>
      simp only [check, hr] at h
      cases h
      exact ⟨c', rfl, rfl⟩
  obtain ⟨c', hinner, rfl⟩ := hinner
  rcases checkInner_cases c share now with ⟨e', he⟩ | ⟨job, -, -, -, hcases⟩
  · rw [he] at hinner
    cases hinner
    exact ⟨rfl, rfl⟩
  rcases hcases with ⟨e', -, he⟩ | ⟨coinbase, header, -, hcredit⟩
  · rw [he] at hinner
    cases hinner
    exact ⟨rfl, rfl⟩
  · rw [hcredit] at hinner
    obtain rfl := credit_eq_error hinner
    exact ⟨rfl, rfl⟩

end Channel

end Pickaxe
