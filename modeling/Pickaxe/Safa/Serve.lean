/-
# Serving a header-shaped token

A server that mines a token offers its devices the job of the thread, again each time the thread
has moved, and hands the wins of their channels to the token's work.  A share of such a job is
judged where the job was made, a win where the thread is: `consistent_of_late` says that the two
agree, over every run, as long as the clock is past 1985.
-/
import Pickaxe.Journal.Accepts
import Pickaxe.Safa.Terms

namespace Pickaxe.Safa

open Lib

/-- A template is one of a token's jobs: what the server adds, the pool's tag and a token set,
leaves this. -/
structure Carries (t template : BchTemplate) : Prop where
  previousHash : template.previousHash = t.previousHash
  version : template.version = t.version
  bits : template.bits = t.bits
  target : template.target = t.target
  minTime : template.minTime = t.minTime
  work : template.work = t.work

section Channels

variable [Hasher]

/-- A forwarder ends with its rule, and its hash is the merkle root. -/
lemma forwarderCoinbase_eq_ok {extranonce destination : Bytes} {x : Coinbase}
    (h : forwarderCoinbase extranonce destination = .ok x) :
    (∃ body, forwarderBody destination = .ok body ∧ body <:+ x.bytes) ∧
      x.merkleRoot = doubleSha256 x.bytes := by
  obtain ⟨-, h⟩ := Except.ite_error_eq_ok.mp h
  obtain ⟨body, hbody, h⟩ := Except.bind_eq_ok.mp h
  obtain ⟨-, h⟩ := Except.ite_error_eq_ok.mp h
  cases h
  exact ⟨⟨body, hbody, List.suffix_append _ _⟩, rfl⟩

/-- A header-shaped job's coinbase is the forwarder to the script its work pays. -/
lemma coinbaseWithAux_safa {t : BchTemplate} (hsafa : t.isSafa = true) {network : MiningNetwork}
    {payout : List Char} {operator : Option (List Char)} {extranonce : Bytes} {policy : BchPayout}
    {aux : Option (ByteVec 53)} {x : Coinbase}
    (h : t.coinbaseWithAux network payout operator extranonce policy aux = .ok x) :
    ∃ scripts, Payout.scripts network payout operator = .ok scripts ∧
      forwarderCoinbase extranonce (Payout.beneficiary scripts policy) = .ok x := by
  have hplain : t.p2pool = none := by
    cases hwork : t.work with
    | block => simp [BchTemplate.isSafa, hwork] at hsafa
    | token job => exact (t.token_plain job hwork).2
  unfold BchTemplate.coinbaseWithAux at h
  rw [hplain] at h
  obtain ⟨_, -, h⟩ := Except.bind_eq_ok.mp h
  dsimp only at h
  rw [if_pos hsafa] at h
  exact Except.bind_eq_ok.mp h

/-- A channel's job on the terms of a token: each coinbase its devices may hash pays one of the
destinations, and is the header's payout. -/
structure Mined (terms : Terms) (c : Channel) (job : Job) : Prop where
  offers : terms.Offers job.template
  pays : ∀ e x, c.shareCoinbase job e = .ok x →
    terms.Pays x.bytes ∧ x.merkleRoot = doubleSha256 x.bytes

variable {terms : Terms} {c d : Channel} {job : Job}

/-- Neither the account nor the share target matters to the terms. -/
lemma Mined.kept (hsame : Journal.SameAccount c d) {j k : Job} (hcontent : k.content = j.content)
    (h : Mined terms c j) : Mined terms d k := by
  obtain ⟨target, rfl⟩ : ∃ target, k = { j with target := target } :=
    ⟨k.target, Job.content_eq hcontent⟩
  refine ⟨h.offers, fun e x hx => ?_⟩
  rw [Channel.shareCoinbase_kept hsame.kind hsame.extranoncePrefix hsame.rolled] at hx
  exact h.pays e x hx

/-- A channel pays one of `destinations` under a policy. -/
def PaysOne (destinations : List Bytes) (c : Channel) (payout : BchPayout) : Prop :=
  ∀ scripts, Payout.scripts c.network c.payout c.operator = .ok scripts →
    Payout.beneficiary scripts (c.adjustPayout payout) ∈ destinations

lemma Mined.of_own {id : UInt32} {generation : UInt64} {t template : BchTemplate}
    {payout : BchPayout} (hown : c.Own id generation template payout job)
    (hsafa : template.isSafa = true) (hoffers : terms.Offers t) (hcarries : Carries t template)
    (hpays : PaysOne terms.destinations c payout) : Mined terms c job := by
  obtain ⟨random, aux, hcoinbases⟩ := hown.coinbases
  refine ⟨?_, fun e x hx => ?_⟩
  · obtain ⟨⟨token, hwork, hlayout, hmask⟩, hversion, hbits, htarget, htime⟩ := hoffers
    rw [hown.template_eq]
    exact ⟨⟨token, hcarries.work.trans hwork, hlayout, hmask⟩, hcarries.version ▸ hversion,
      hcarries.bits ▸ hbits, hcarries.target ▸ htarget, hcarries.minTime ▸ htime⟩
  · obtain ⟨y, hy, -, -⟩ := Channel.shareCoinbase_of_coinbases hcoinbases hx
    obtain ⟨scripts, hscripts, hforwarder⟩ := coinbaseWithAux_safa hsafa hy
    obtain ⟨hbody, hroot⟩ := forwarderCoinbase_eq_ok hforwarder
    rw [hown.payout_eq] at hbody
    exact ⟨⟨_, hpays scripts hscripts, hbody⟩, hroot⟩

omit [Hasher] in
/-- Only a header-shaped job is won. -/
lemma isSafa_of_isHeaderWin {hash : Hash} (h : job.isHeaderWin hash = true) :
    job.template.isSafa = true ∧ hash.bytes.getD 31 0 &&& 0x80 = 0 ∧
      fromLe hash.bytes ≤ fromLe job.template.target.bytes := by
  simp only [Job.isHeaderWin, BchTemplate.tokenJob, Bool.and_eq_true, beq_iff_eq,
    meetsTarget_iff] at h
  obtain ⟨⟨hlayout, hsign⟩, hmeets⟩ := h
  refine ⟨?_, hsign, hmeets⟩
  cases hwork : job.template.work with
  | block => simp [hwork] at hlayout
  | token token => simpa [BchTemplate.isSafa, hwork] using hlayout

/-- A share that wins on the terms is a win on the terms. -/
lemma Mined.takes (h : Mined terms c job) {share : Share} {v : ValidatedShare}
    (hcredited : c.Credited d share v job) (hwin : v.headerWin = true) :
    terms.Takes ⟨v.header, v.coinbase.bytes⟩ := by
  have hheaderWin : job.isHeaderWin (doubleSha256 v.header.bytes) = true := by
    have hvalidated := congrArg ValidatedShare.headerWin hcredited.validated
    exact hvalidated.symm.trans hwin
  obtain ⟨-, hsign, hmeets⟩ := isSafa_of_isHeaderWin hheaderWin
  obtain ⟨htime, hheader⟩ := Except.ite_error_eq_ok.mp hcredited.header
  obtain ⟨hpays, hroot⟩ := h.pays _ _ hcredited.coinbase
  obtain ⟨token, hwork, -, hmask⟩ := h.offers.work
  have hversion := hcredited.version
  rw [BchTemplate.versionMask, hwork, xor_and_eq_zero] at hversion
  have hencode : v.header = Commitment.encode ⟨share.version, job.template.previousHash,
      v.coinbase.merkleRoot, share.time, terms.bits, share.nonce⟩ := by
    have hbits : terms.bits = ⟨u32Le job.template.bits, length_leBytes _ _⟩ :=
      ByteVec.ext h.offers.bits.symm
    rw [← Except.ok.inj hheader, hbits]
    rfl
  refine ⟨_, hencode, hpays, ?_, hroot, ?_, rfl, ?_⟩
  · rw [← h.offers.version, ← hmask]
    exact hversion
  · exact h.offers.time.trans_le (UInt32.not_lt.mp htime)
  · rw [← hencode, proofPasses_positive, ← h.offers.target]
    exact ⟨hsign, hmeets⟩

end Channels

/-! ## The server -/

/-- A server that mines a token: its work, the jobs it offered, its devices' channels, the wins they
found, and the record of what was proven. -/
structure TokenServer where
  work : HeaderWork
  jobs : List BchTemplate
  channels : ℕ → Channel
  wins : List HeaderShare
  proofs : List Proof

namespace TokenServer

/-- What a channel may be told to do: its header-shaped jobs are among those offered, and pay one of
the work's destinations. -/
def Allows (s : TokenServer) (c : Channel) : Channel.Op → Prop
  | .install _ _ _ template payout => template.isSafa = true →
      (∃ t ∈ s.jobs, Carries t template) ∧ PaysOne s.work.destinations c payout
  | .installCustom _ template _ => template.isSafa = false
  | _ => True

/-- The wins among the shares a channel accepted. -/
def headerWins (log : List Channel.Event) : List HeaderShare :=
  log.filterMap fun
    | .accepted _ v => if v.headerWin then some ⟨v.header, v.coinbase.bytes⟩ else none
    | _ => none

variable [Hasher]

/-- The token's job goes out. -/
def offer (s : TokenServer) (t : BchTemplate) : TokenServer := { s with jobs := t :: s.jobs }

/-- An operation on a device's channel; the wins it accepts are kept. -/
def device (s : TokenServer) (k : ℕ) (op : Channel.Op) : TokenServer :=
  { s with
    channels := Function.update s.channels k ((s.channels k).step op).2
    wins := headerWins ((s.channels k).step op).1 ++ s.wins }

lemma channels_device (s : TokenServer) (k k' : ℕ) (op : Channel.Op) :
    (s.device k op).channels k' =
      if k' = k then ((s.channels k).step op).2 else s.channels k' :=
  Function.update_apply ..

/-- A win is handed to the token's work. -/
def submit (s : TokenServer) (win : HeaderShare) (busy : Bool) : TokenServer :=
  { s with work := (s.work.submit win busy).2 }

/-- The waiting wins are checked. -/
def check (s : TokenServer) (turns : ℕ → Turn) : TokenServer :=
  { s with
    work := (s.work.check turns).2
    proofs := s.proofs ++ (s.work.checkAll turns).1 }

/-- The runs of a server for a miner's token at `targetBits`, whose clock reads what `clock` lets
through: the token's job is offered, channels work, wins are handed on in any order, and the waiting
ones are checked. -/
inductive Run (clock : UInt32 → Prop) (network : MiningNetwork) (targetBits : UInt32)
    (payout : List Char) : TokenServer → Prop
  | start {work : HeaderWork} {first : BchTemplate} {channels : ℕ → Channel} {now : UInt32} :
      clock now → HeaderWork.testToken network targetBits payout now = .ok work →
      work.job = .ok first → (∀ k, (channels k).Fresh) →
      Run clock network targetBits payout ⟨work, [], channels, [], []⟩
  | offer {s : TokenServer} {t : BchTemplate} :
      Run clock network targetBits payout s → s.work.job = .ok t →
      Run clock network targetBits payout (s.offer t)
  | device {s : TokenServer} (k : ℕ) (op : Channel.Op) :
      Run clock network targetBits payout s → s.Allows (s.channels k) op →
      Run clock network targetBits payout (s.device k op)
  | submit {s : TokenServer} {win : HeaderShare} (busy : Bool) :
      Run clock network targetBits payout s → win ∈ s.wins →
      Run clock network targetBits payout (s.submit win busy)
  | check {s : TokenServer} (turns : ℕ → Turn) :
      Run clock network targetBits payout s → (∀ n, clock (turns n).movedAt) →
      Run clock network targetBits payout (s.check turns)

omit [Hasher] in
/-- The clock is far enough past 1985 that the jobs' times are times the covenant takes. -/
def Late (now : UInt32) : Prop := 500007200 < now.toNat

omit [Hasher] in
lemma Late.startAt {now : UInt32} (h : Late now) : minTime < startAt now := by
  have hlt := now.toNat_lt
  have hbehind : startBehind.toNat = 7200 := rfl
  have hmin : minTime.toNat = 500000000 := rfl
  unfold Late at h
  rw [UInt32.lt_iff_toNat_lt, Safa.startAt, UInt32.toNat_ofNat']
  omega

/-- A server's work, jobs, channels and wins are on one set of terms. -/
structure Sound (terms : Terms) (first : ByteVec 80) (s : TokenServer) : Prop where
  kept : Kept terms s.work
  wins : ∀ win ∈ s.wins, terms.Takes win
  jobs : ∀ t ∈ s.jobs, terms.Offers t
  inv : ∀ k, (s.channels k).Inv
  mined : ∀ k, ∀ job ∈ (s.channels k).live, job.template.isSafa = true →
    Mined terms (s.channels k) job
  logged : Logged first s.work s.proofs

/-! ## Starting -/

section Start

variable {network : MiningNetwork} {targetBits : UInt32} {payout : List Char} {now : UInt32}
  {work : HeaderWork}

/-- A token as it starts: nothing waits, and no state is won. -/
lemma testToken_eq_ok (h : HeaderWork.testToken network targetBits payout now = .ok work) :
    ∃ first : Commitment, ∃ target, first.prev = ByteVec.zero 32 ∧
      decodeCompact first.bits headerTestToken.params.compact = .ok target ∧
      work.thread.commitment = first.encode ∧ work.thread.start = startAt now ∧
      work.token = headerTestToken ∧ work.queue = [] ∧ work.won = [] ∧ work.summary.off = none := by
  obtain ⟨-, h⟩ := Except.ite_error_eq_ok.mp h
  obtain ⟨target, htarget, h⟩ := Except.bind_eq_ok.mp h
  obtain ⟨scripts, -, h⟩ := Except.bind_eq_ok.mp h
  cases h
  let first : Commitment := ⟨0x20000001, ByteVec.zero 32, ByteVec.zero 32, startAt now,
    ⟨u32Le targetBits, length_leBytes _ _⟩, 0⟩
  exact ⟨first, target, rfl, htarget, rfl, rfl, rfl, rfl, rfl, rfl⟩

/-- The terms of a token that has a job to start with. -/
lemma exists_terms (h : HeaderWork.testToken network targetBits payout now = .ok work)
    (hlate : Late now) {t : BchTemplate} (hjob : work.job = .ok t) :
    ∃ terms, Kept terms work ∧ Logged work.thread.commitment work [] := by
  obtain ⟨first, target, hprev, hreads, hcommitment, hstart, htoken, hqueue, hwon, hoff⟩ :=
    testToken_eq_ok h
  have hown : nextTarget target testAge headerTestToken.params.daa = target :=
    nextTarget_canonical target
  -- the target is the one the first job writes
  obtain ⟨bits, hbits⟩ : ∃ bits, encodeCompact target headerTestToken.params.compact = .ok bits := by
    unfold HeaderWork.job at hjob
    rw [hcommitment, Commitment.decode_encode, htoken] at hjob
    obtain ⟨current, hcurrent, hjob⟩ := Except.bind_eq_ok.mp hjob
    cases hcurrent
    obtain ⟨previous, hprevious, hjob⟩ := Except.bind_eq_ok.mp hjob
    obtain rfl := Except.ok.inj (hprevious.symm.trans hreads)
    obtain ⟨bits, hbits, -⟩ := Except.bind_eq_ok.mp hjob
    rw [hown] at hbits
    exact ⟨bits, hbits⟩
  refine ⟨⟨headerTestToken.params, work.destinations,
    first.virtualSlot &&& ~~~headerTestToken.params.version.mask, target, bits, hown, hbits,
    decodeCompact_encodeCompact hreads hbits, by decide, rfl⟩, ?_, ?_⟩
  · refine ⟨congrArg HeaderToken.params htoken, rfl, ⟨first, hcommitment, rfl, hreads⟩,
      hstart ▸ hlate.startAt, fun win hwin => ?_, fun reason hreason => ?_⟩
    · rw [hqueue] at hwin
      cases hwin
    · rw [hoff] at hreason
      cases hreason
  · refine ⟨rfl, ?_, by rw [hwon, List.map_nil, Recent.kept, List.drop_nil], Recent.Distinct.nil⟩
    rw [List.map_nil, List.nil_append, HashChain.cons_iff, hcommitment, first.slice_encode.2.1, hprev]
    exact ⟨rfl, HashChain.nil⟩

end Start

/-! ## Every step keeps the terms -/

section Steps

variable {terms : Terms} {first : ByteVec 80} {s : TokenServer}

lemma Sound.offer (h : Sound terms first s) {t : BchTemplate} (hjob : s.work.job = .ok t) :
    Sound terms first (s.offer t) := by
  obtain ⟨t', hjob', -, hoffers⟩ := h.kept.exists_job
  obtain rfl := Except.ok.inj (hjob.symm.trans hjob')
  exact ⟨h.kept, h.wins, List.forall_mem_cons.mpr ⟨hoffers, h.jobs⟩, h.inv, h.mined, h.logged⟩

omit [Hasher] in
lemma mem_headerWins {log : List Channel.Event} {win : HeaderShare} (h : win ∈ headerWins log) :
    ∃ id v, .accepted id v ∈ log ∧ v.headerWin = true ∧ win = ⟨v.header, v.coinbase.bytes⟩ := by
  obtain ⟨event, hevent, hwin⟩ := List.mem_filterMap.mp h
  cases event with
  | installed job => cases hwin
  | revoked => cases hwin
  | accepted id v =>
    obtain ⟨hheader, hwin⟩ := Option.ite_none_right_eq_some.mp hwin
    exact ⟨id, v, hevent, hheader, (Option.some.inj hwin).symm⟩

/-- A win that a channel accepts is one on the terms. -/
lemma Sound.takes (h : Sound terms first s) {k : ℕ} {d : Channel} {share : Share}
    {v : ValidatedShare} {job : Job} (hcredited : (s.channels k).Credited d share v job)
    (hwin : v.headerWin = true) : terms.Takes ⟨v.header, v.coinbase.bytes⟩ := by
  have hheaderWin : job.isHeaderWin (doubleSha256 v.header.bytes) = true :=
    (congrArg ValidatedShare.headerWin hcredited.validated).symm.trans hwin
  have hsafa := (isSafa_of_isHeaderWin hheaderWin).1
  exact (h.mined k job hcredited.mem hsafa).takes hcredited hwin

lemma Sound.device (h : Sound terms first s) {k : ℕ} {op : Channel.Op}
    (hallows : s.Allows (s.channels k) op) : Sound terms first (s.device k op) := by
  have hlive : ∀ job ∈ ((s.channels k).step op).2.live, job.template.isSafa = true →
      Mined terms ((s.channels k).step op).2 job := by
    refine Journal.live_step (P := fun c job => job.template.isSafa = true → Mined terms c job) ?_
      (h.inv k) (h.mined k) ?_
    · intro c d j k hsame hcontent hmined hsafa
      refine (hmined ?_).kept hsame hcontent
      rw [Job.content_eq hcontent] at hsafa
      exact hsafa
    · intro job hlog hsafa
      rcases Channel.installed_step hlog with ⟨_, _, _, template, policy, rfl, hr⟩ |
        ⟨_, template, _, rfl, hr⟩
      · have hown := (Channel.installWithPayout_eq_ok hr).2
        rw [hown.template_eq] at hsafa
        obtain ⟨⟨t, ht, hcarries⟩, hpays⟩ := hallows hsafa
        exact .of_own hown hsafa (h.jobs t ht) hcarries (h.kept.destinations ▸ hpays)
      · rw [(Channel.installCustom_eq_ok hr).2.template_eq] at hsafa
        exact absurd (hsafa.symm.trans hallows) nofun
  refine ⟨h.kept, ?_, h.jobs, fun k' => ?_, fun k' => ?_, h.logged⟩
  · intro win hwin
    rcases List.mem_append.mp hwin with hnew | hold
    · obtain ⟨id, v, hevent, hheader, rfl⟩ := mem_headerWins hnew
      rcases (s.channels k).step_cases op with ⟨hlog, -⟩ | ⟨new, -, hlog, -, -⟩ | ⟨hlog, -⟩ |
        ⟨share, v', job, hlog, hcredited⟩
      · simp [hlog] at hevent
      · simp [hlog] at hevent
      · simp [hlog] at hevent
      · obtain ⟨-, rfl⟩ : id = share.jobId ∧ v = v' := by simpa [hlog] using hevent
        exact h.takes hcredited hheader
    · exact h.wins win hold
  · rw [channels_device]
    split
    · exact Channel.inv_step (h.inv k) op
    · exact h.inv k'
  · rw [channels_device]
    split
    · exact hlive
    · exact h.mined k'

lemma Sound.submit (h : Sound terms first s) {win : HeaderShare} (hwin : win ∈ s.wins)
    (busy : Bool) : Sound terms first (s.submit win busy) := by
  obtain ⟨hparams, hdestinations, hthread, hstart, hqueue, hoff⟩ := h.kept
  unfold TokenServer.submit HeaderWork.submit
  split
  · refine ⟨⟨hparams, hdestinations, hthread, hstart, ?_, hoff⟩, h.wins, h.jobs, h.inv, h.mined,
      h.logged.congr rfl rfl⟩
    intro queued hqueued
    rcases List.mem_append.mp hqueued with hqueued | hqueued
    · exact hqueue queued hqueued
    · obtain rfl := List.mem_singleton.mp hqueued
      exact h.wins queued hwin
  · exact ⟨⟨hparams, hdestinations, hthread, hstart, hqueue, hoff⟩, h.wins, h.jobs, h.inv, h.mined,
      h.logged.congr rfl rfl⟩

lemma Sound.check (h : Sound terms first s) {turns : ℕ → Turn}
    (hlate : ∀ n, Late (turns n).movedAt) : Sound terms first (s.check turns) := by
  obtain ⟨hparams, hdestinations, hthread, hstart, hqueue, hoff⟩ := h.kept
  have hempty : Kept terms { s.work with queue := [] } :=
    ⟨hparams, hdestinations, hthread, hstart, nofun, hoff⟩
  obtain ⟨hkept, hlogged⟩ := hempty.checkWins (h.logged.congr rfl rfl) hqueue fun n =>
    (hlate n).startAt
  exact ⟨hkept, h.wins, h.jobs, h.inv, h.mined, hlogged⟩

/-- Along a run everything is on the terms of its start. -/
lemma Run.sound {network : MiningNetwork} {targetBits : UInt32} {payout : List Char}
    (h : Run Late network targetBits payout s) : ∃ terms first, Sound terms first s := by
  induction h with
  | @start work _ channels _ hlate htoken hjob hfresh =>
    obtain ⟨terms, hkept, hlogged⟩ := exists_terms htoken hlate hjob
    have hnone : ∀ k, (channels k).live = [] := by
      intro k
      obtain ⟨hjob, hprevious, -⟩ := hfresh k
      rw [Channel.live, hjob, hprevious]
      rfl
    refine ⟨terms, work.thread.commitment, hkept, ?_, ?_, fun k => (hfresh k).inv, ?_, hlogged⟩
    · intro win hwin
      cases hwin
    · intro t ht
      cases ht
    · intro k job hmem
      dsimp only at hmem
      rw [hnone] at hmem
      cases hmem
  | offer _ hjob ih =>
    obtain ⟨terms, first, hsound⟩ := ih
    exact ⟨terms, first, hsound.offer hjob⟩
  | device k op _ hallows ih =>
    obtain ⟨terms, first, hsound⟩ := ih
    exact ⟨terms, first, hsound.device hallows⟩
  | submit busy _ hwin ih =>
    obtain ⟨terms, first, hsound⟩ := ih
    exact ⟨terms, first, hsound.submit hwin busy⟩
  | check turns _ hlate ih =>
    obtain ⟨terms, first, hsound⟩ := ih
    exact ⟨terms, first, hsound.check hlate⟩

end Steps

/-! ## Where a share is judged and where a win is -/

/-- What is asked of a server. -/
structure Consistent (s : TokenServer) : Prop where
  /-- A share that a channel accepts as a win, on the job of the thread, passes the thread's check. -/
  accepted : ∀ t k share now v d, s.work.job = .ok t →
    (s.channels k).check share now = (.ok v, d) → v.headerWin = true → Carries t v.template →
    s.work.paysUs v.coinbase.bytes = true ∧ s.work.token.params.verify s.work.thread.commitment
      v.header testAge v.coinbase.bytes = .ok ()
  /-- No win has turned proofs off, only a journal that was not saved. -/
  off : ∀ reason, s.work.summary.off = some reason → ∃ error, reason = unsaved error
  /-- Each proof ends the thread state it is of, and its header is the next. -/
  states : ∃ first, s.proofs.map Proof.thread ++ [s.work.thread.commitment] =
    first :: s.proofs.map fun proof => proof.win.header
  /-- No state comes twice among any 257 proofs. -/
  recent : Recent.Distinct recentStates
    (s.proofs.map fun proof => doubleSha256 proof.thread.bytes)
  /-- No state comes twice at all, unless the hash collides or takes one to zero. -/
  once : Set.InjOn (fun c : ByteVec 80 => doubleSha256 c.bytes) {c | c ∈ s.proofs.map Proof.thread} →
    (∀ c ∈ s.proofs.map Proof.thread, doubleSha256 c.bytes ≠ ByteVec.zero 32) →
    (s.proofs.map Proof.thread).Nodup
  /-- There is a job on the thread, which is the latest proof's header. -/
  job : ∃ t, s.work.job = .ok t ∧ t.previousHash = s.work.anchor ∧
    ∀ proof, s.proofs.getLast? = some proof →
      t.previousHash = doubleSha256 proof.win.header.bytes

lemma Sound.accepted {terms : Terms} {first : ByteVec 80} {s : TokenServer}
    (h : Sound terms first s) {t : BchTemplate} {k : ℕ} {share : Share} {now : UInt32}
    {v : ValidatedShare} {d : Channel} (hjob : s.work.job = .ok t)
    (hcheck : (s.channels k).check share now = (.ok v, d)) (hwin : v.headerWin = true)
    (hcarries : Carries t v.template) :
    s.work.paysUs v.coinbase.bytes = true ∧ s.work.token.params.verify s.work.thread.commitment
      v.header testAge v.coinbase.bytes = .ok () := by
  obtain ⟨job, hcredited⟩ := Channel.check_eq_ok hcheck
  refine h.kept.passes (h.takes hcredited hwin) ?_
  -- the header names the parent of its job, which is the thread
  obtain ⟨t', hjob', hparent, -⟩ := h.kept.exists_job
  obtain rfl := Except.ok.inj (hjob.symm.trans hjob')
  have htemplate : v.template = job.template :=
    congrArg ValidatedShare.template hcredited.validated
  have hprevious : job.template.previousHash = s.work.anchor := by
    rw [← htemplate, hcarries.previousHash, hparent]
  obtain ⟨-, hheader⟩ := Except.ite_error_eq_ok.mp hcredited.header
  have hslice := (Commitment.slice_encode ⟨share.version, job.template.previousHash,
    v.coinbase.merkleRoot, share.time, ⟨u32Le job.template.bits, length_leBytes _ _⟩,
    share.nonce⟩).2.1
  rw [← hprevious, ← Except.ok.inj hheader]
  exact hslice

/-- Over every run whose clock is late enough, whichever target bits the token has a job for, however
many wins it proves, and in whatever order its devices, its queue and its checks work. -/
theorem consistent_of_late {network : MiningNetwork} {targetBits : UInt32} {payout : List Char}
    {s : TokenServer} (h : Run Late network targetBits payout s) : Consistent s := by
  obtain ⟨terms, first, hsound⟩ := h.sound
  have hlogged := hsound.logged
  obtain ⟨t, hjob, hparent, -⟩ := hsound.kept.exists_job
  refine ⟨fun t k share now v d => hsound.accepted, hsound.kept.off, ⟨first, hlogged.states⟩,
    hlogged.distinct, fun hinj hzero => ?_, ⟨t, hjob, hparent, fun proof hproof => ?_⟩⟩
  · refine (HashChain.append_iff.mp hlogged.chain).1.nodup ?_ ?_
    · intro c hc d hd heq
      exact hinj hc hd (ByteVec.ext heq)
    · intro c hc heq
      exact hzero c hc (ByteVec.ext heq)
  · -- the thread is the header of the last proof
    rw [hparent, HeaderWork.anchor]
    have hlast := congrArg List.getLast? hlogged.states
    rw [List.getLast?_append, List.getLast?_singleton, Option.some_or, List.getLast?_cons,
      List.getLast?_map, hproof] at hlast
    exact congrArg (fun c : ByteVec 80 => doubleSha256 c.bytes) (Option.some.inj hlast)

/-! ## One win -/

section Sample

/-- A channel that pays the token's miner and no operator pays a destination, whatever its policy. -/
lemma paysOne_of_testToken {network : MiningNetwork} {targetBits : UInt32} {payout : List Char}
    {now : UInt32} {work : HeaderWork}
    (h : HeaderWork.testToken network targetBits payout now = .ok work) {c : Channel}
    (hnetwork : c.network = network) (hpayout : c.payout = payout) (hoperator : c.operator = none)
    (policy : BchPayout) : PaysOne work.destinations c policy := by
  intro scripts hscripts
  rw [hnetwork, hpayout, hoperator] at hscripts
  obtain ⟨-, h⟩ := Except.ite_error_eq_ok.mp h
  obtain ⟨target, -, h⟩ := Except.bind_eq_ok.mp h
  obtain ⟨scripts', hscripts', h⟩ := Except.bind_eq_ok.mp h
  obtain rfl := Except.ok.inj (hscripts.symm.trans hscripts')
  have hlength : scripts.length = 2 := (Payout.scripts_eq_ok hscripts).2
  cases h
  unfold Payout.beneficiary
  split
  · simp
  · rw [if_neg (by omega)]
    simp

/-- A server whose one device finds a win on the first job, with its version rolled, and hands it
on. -/
def sampleServer (now : UInt32) : Option TokenServer := do
  let work ← (HeaderWork.testToken .chipnet 0x207fffff (donationAddress .chipnet) now).toOption
  let t ← work.job.toOption
  let started : TokenServer := ⟨work, [], fun _ => Channel.sample, [], []⟩
  let installed := (started.offer t).device 0 (.install (fun _ => 0) 1 1 t default)
  let mined := installed.device 0
    (.check ⟨7, 1, 0, 0x20002001, t.currentTime, 1, List.replicate 8 0⟩ now)
  let win ← mined.wins.head?
  some ((mined.submit win false).check fun _ => ⟨now, ⟨.ok [], .ok ()⟩, now⟩)

lemma run_sampleServer {clock : UInt32 → Prop} {now : UInt32} (hclock : clock now)
    {s : TokenServer} (h : sampleServer now = some s) :
    Run clock .chipnet 0x207fffff (donationAddress .chipnet) s := by
  have hsome : ∀ {α : Type} {x : Except String α} {a : α}, x.toOption = some a → x = .ok a := by
    intro α x a h
    cases x with
    | error e => cases h
    | ok b => exact congrArg Except.ok (Option.some.inj h)
  rw [sampleServer] at h
  simp only [Option.bind_eq_bind, Option.bind_eq_some_iff, Option.some.injEq] at h
  obtain ⟨work, hwork, t, ht, win, hwin, rfl⟩ := h
  have hpays : PaysOne work.destinations Channel.sample default :=
    paysOne_of_testToken (hsome hwork) rfl rfl rfl default
  have hstarted : Run clock .chipnet 0x207fffff (donationAddress .chipnet)
      ⟨work, [], fun _ => Channel.sample, [], []⟩ :=
    .start hclock (hsome hwork) (hsome ht) fun _ => ⟨rfl, rfl, rfl⟩
  have hinstalled := (hstarted.offer (hsome ht)).device 0 (.install (fun _ => 0) 1 1 t default)
    fun _ => ⟨⟨t, List.mem_singleton_self t, rfl, rfl, rfl, rfl, rfl, rfl⟩, hpays⟩
  have hmined := hinstalled.device 0
    (.check ⟨7, 1, 0, 0x20002001, t.currentTime, 1, List.replicate 8 0⟩ now) trivial
  exact (hmined.submit false (List.mem_of_head? hwin)).check _ fun _ => hclock

omit [Hasher]

/-- In 2026 the win is proven. -/
theorem consistent_of_late_sample :
    let _ : Hasher := Hasher.fips
    ∃ s, Run Late .chipnet 0x207fffff (donationAddress .chipnet) s ∧ s.work.summary.proven = 1 ∧
      Consistent s := by
  intro hasher
  have hproven : (@sampleServer Hasher.fips 1775340000).map (fun s => s.work.summary.proven) =
      some 1 := by
    rw [Hasher.fips_eq]
    decide +kernel
  obtain ⟨s, hs, hproven⟩ := Option.map_eq_some_iff.mp hproven
  have hlate : Late 1775340000 := by
    unfold Late
    decide +kernel
  have hrun := run_sampleServer hlate hs
  exact ⟨s, hrun, hproven, consistent_of_late hrun⟩

/-- The journal's error is not the check's. -/
lemma head_unsaved (error : String) : (unsaved error).toList.head? = some 't' := by
  have hsplit : (unsaved error).toList = "token proofs cannot be saved: ".toList ++ error.toList :=
    String.toList_append
  have hhead : "token proofs cannot be saved: ".toList.head? = some 't' := by decide +kernel
  rw [hsplit, List.head?_append, hhead]
  rfl

/-- With the clock at its epoch the same win is accepted and then fails its own check. -/
theorem not_consistent :
    let _ : Hasher := Hasher.fips
    ∃ s, Run (fun _ => True) .chipnet 0x207fffff (donationAddress .chipnet) s ∧
      s.work.summary.off = some "a token win failed its own check" ∧ ¬ Consistent s := by
  intro hasher
  have hoff : (@sampleServer Hasher.fips 0).map (fun s => s.work.summary.off) =
      some (some "a token win failed its own check") := by
    rw [Hasher.fips_eq]
    decide +kernel
  obtain ⟨s, hs, hoff⟩ := Option.map_eq_some_iff.mp hoff
  refine ⟨s, run_sampleServer trivial hs, hoff, fun h => ?_⟩
  obtain ⟨error, herror⟩ := h.off _ hoff
  have hhead : "a token win failed its own check".toList.head? = some 'a' := by decide +kernel
  rw [herror, head_unsaved] at hhead
  exact absurd hhead (by decide)

end Sample

end TokenServer

end Pickaxe.Safa
