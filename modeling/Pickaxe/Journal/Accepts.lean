/-
# The journal takes what the server builds

A job's coinbase splits its value by the job's policy, a template's block puts it before
the template's transactions, and the journal checks the block it is given with the Bitcoin
library: that all three agree is found out only when a block is won.
-/
import Pickaxe.Channel.Space
import Pickaxe.Journal.Library
import Pickaxe.Journal.State
import Mathlib.Algebra.Order.BigOperators.Group.List

namespace Pickaxe

open Lib Merge

namespace Journal

/-! ## The coinbase as a transaction -/

/-- A coinbase's outputs with its commitment, if any, first. -/
def allOutputs (outputs : List (ℕ × Bytes)) (commitment : Option AuxCommitment) :
    List (ℕ × Bytes) :=
  (commitment.map fun c => (0, c.script)).toList ++ outputs

lemma outputBytes_commitment (c : AuxCommitment) :
    BchTemplate.outputBytes (0, c.script) = c.output.bytes := by
  have hzero : leBytes 8 0 = List.replicate 8 0 := by decide
  simp only [BchTemplate.outputBytes, AuxCommitment.length_script, AuxCommitment.output, hzero]
  rw [compactSize_of_lt (by decide)]

lemma afterScript_allOutputs (outputs : List (ℕ × Bytes)) (commitment : Option AuxCommitment) :
    BchTemplate.afterScript outputs (commitment.map AuxCommitment.output) =
      BchTemplate.afterScript (allOutputs outputs commitment) none := by
  cases commitment with
  | none => rfl
  | some c =>
    simp only [BchTemplate.afterScript, allOutputs, BchTemplate.outputCount, Option.map_some,
      Option.getD_some, Option.toList_some, List.singleton_append, List.flatMap_cons,
      List.length_cons, outputBytes_commitment, Option.isSome_some, if_true, Option.map_none,
      Option.getD_none, List.append_assoc, List.nil_append, Option.isSome_none]
    rfl

lemma parseScript_locking {script : Bytes} (h : Cashaddr.Locking script) :
    AuxCommitment.parseScript script = none := by
  have hlength := h.length_le
  rw [AuxCommitment.parseScript, if_pos]
  rw [scriptLen]
  omega

/-- The payments are what stands after the commitment. -/
lemma payments_allOutputs {outputs : List (ℕ × Bytes)} {commitment : Option AuxCommitment}
    (hreadable : ∀ c ∈ commitment, c.Readable) (hlocking : ∀ o ∈ outputs, Cashaddr.Locking o.2) :
    payments (allOutputs outputs commitment) = outputs := by
  cases commitment with
  | none =>
    cases outputs with
    | nil => rfl
    | cons first rest =>
      have hnone := parseScript_locking (hlocking first (by simp))
      simp [allOutputs, payments, hnone]
  | some c =>
    have hsome := AuxCommitment.parseScript_script (hreadable c rfl)
    simp [allOutputs, payments, hsome]

/-! ## Blocks pass -/

section Blocks

variable [Hasher] [Bitcoin]

lemma plain_of_checkedTransaction {bytes : Bytes} {hash : Hash}
    (h : checkedTransaction bytes = .ok hash) :
    ∃ tx, Bitcoin.deserializeTransaction bytes = some tx ∧ tx.Plain := by
  unfold checkedTransaction at h
  cases htx : Bitcoin.deserializeTransaction bytes with
  | none =>
    rw [htx] at h
    cases h
  | some tx =>
    rw [htx] at h
    obtain ⟨hchecks, -⟩ := Except.ite_error_eq_ok.mp h
    refine ⟨tx, rfl, fun input hinput => ?_⟩
    by_contra hwitness
    refine hchecks (.inr (.inr (.inl ?_)))
    rw [List.any_eq_true]
    exact ⟨input, hinput, by simpa using hwitness⟩

/-- A full template's transactions decode. -/
lemma Full.decoded {t : BchTemplate} (h : Full t) : ∃ txdata : List Transaction,
    List.Forall₂ (fun bytes tx => Bitcoin.deserializeTransaction bytes = some tx)
      t.transactions txdata ∧ ∀ tx ∈ txdata, tx.Plain := by
  have hall := h.transactions
  generalize t.transactions = transactions at hall
  induction transactions with
  | nil => exact ⟨[], .nil, by simp⟩
  | cons bytes rest ih =>
    obtain ⟨txdata, hforall, hplain⟩ := ih fun b hb => hall b (by simp [hb])
    obtain ⟨tx, htx, hp⟩ := plain_of_checkedTransaction (hall bytes (by simp))
    exact ⟨tx :: txdata, .cons htx hforall, by simpa using ⟨hp, hplain⟩⟩

/-- The header a full template's coinbase leads to carries the merkle root of its block. -/
lemma Full.foldPath {t : BchTemplate} (h : Full t) (coinbase : Bytes) :
    foldPath (doubleSha256 coinbase) t.merklePath =
      Merkle.evenedRoot pairHash ((coinbase :: t.transactions).map doubleSha256) := by
  rw [h.merklePath, coinbasePath, Pickaxe.foldPath, Merkle.foldl_evenedPath, List.map_cons]

omit [Bitcoin] in
/-- A coinbase of a template, as a transaction: its script and its outputs. -/
lemma coinbaseWithOutputs_eq_ok {t : BchTemplate} {extranonce : Bytes}
    {outputs : List (ℕ × Bytes)} {commitment : Option AuxCommitment} {coinbase : Coinbase}
    (h : t.coinbaseWithOutputs extranonce outputs (commitment.map AuxCommitment.output) =
      .ok coinbase) :
    ∃ script, script.length ≤ 100 ∧
      coinbase.bytes = BchTemplate.beforeScript script.length ++ script ++
        BchTemplate.afterScript (allOutputs outputs commitment) none ∧
      coinbase.merkleRoot = foldPath (doubleSha256 coinbase.bytes) t.merklePath ∧
      t.checkBlockSize coinbase.bytes.length = .ok () := by
  obtain ⟨-, h⟩ := Except.ite_error_eq_ok.mp h
  obtain ⟨hscript, h⟩ := Except.ite_error_eq_ok.mp h
  obtain ⟨-, h⟩ := Except.ite_error_eq_ok.mp h
  obtain ⟨u, hsize, h⟩ := Except.bind_eq_ok.mp h
  cases h
  exact ⟨_, Nat.not_lt.mp hscript, by rw [afterScript_allOutputs], rfl, hsize⟩

omit [Hasher] [Bitcoin] in
/-- Where the fields of a header stand. -/
lemma slice_header_fields {t : BchTemplate} {coinbase : Coinbase} {version time nonce : UInt32}
    {header : ByteVec 80} (h : t.header coinbase version time nonce = .ok header) :
    slice header.bytes 4 36 = t.previousHash.bytes ∧
      slice header.bytes 36 68 = coinbase.merkleRoot.bytes ∧
      slice header.bytes 72 76 = u32Le t.bits := by
  refine ⟨?_, BchTemplate.slice_header h, ?_⟩ <;>
    (obtain ⟨-, h⟩ := Except.ite_error_eq_ok.mp h; cases h)
  · have hsplit : u32Le version ++ t.previousHash.bytes ++ coinbase.merkleRoot.bytes ++ u32Le time ++
        u32Le t.bits ++ u32Le nonce = u32Le version ++ t.previousHash.bytes ++
          (coinbase.merkleRoot.bytes ++ u32Le time ++ u32Le t.bits ++ u32Le nonce) := by
      simp only [List.append_assoc]
    exact (congrArg (fun b => slice b 4 36) hsplit).trans (slice_append (by simp) (by simp))
  · exact slice_append (by simp) (by simp)

/-- A header on a full template whose hash meets the target makes a block, and the journal
takes it when its outputs are the expected ones after a readable commitment. -/
lemma validateBlock_of_outputs (hlib : Lawful) {t : BchTemplate} (hfull : Full t)
    {extranonce : Bytes} {outputs : List (ℕ × Bytes)} {commitment : Option AuxCommitment}
    {coinbase : Coinbase}
    (hcoinbase : t.coinbaseWithOutputs extranonce outputs (commitment.map AuxCommitment.output) =
      .ok coinbase)
    (hlocking : ∀ o ∈ outputs, Cashaddr.Locking o.2) (hcount : outputs.length < 252)
    (hvalue : (outputs.map Prod.fst).sum ≤ 21000000 * 100000000)
    (hreadable : ∀ c ∈ commitment, c.Readable) {version time nonce : UInt32} {header : ByteVec 80}
    (hheader : t.header coinbase version time nonce = .ok header)
    (htarget : meetsTarget (doubleSha256 header.bytes) t.target = true) :
    ∃ bytes, t.block coinbase header = .ok bytes ∧
      (bytes.length ≤ maxBlockBytes → ∀ expected : Expected,
        expected.outputs (outputs.map Prod.fst).sum = outputs →
        validateBlock bytes (some expected) = .ok (Block.mk header []).hash) := by
  obtain ⟨script, hscript, hbytes, hroot, hsize⟩ := coinbaseWithOutputs_eq_ok hcoinbase
  obtain ⟨hprevious, hmerkle, hbits⟩ := slice_header_fields hheader
  obtain ⟨txdata, hforall, hplain⟩ := hfull.decoded
  -- the template makes the block
  have hblock : t.block coinbase header = .ok (t.assemble coinbase.bytes header) := by
    rw [BchTemplate.block, if_neg (by simp [hfull.own]), if_neg (by simp [hfull.block]), hsize]
    show (if _ then _ else _) = _
    rw [if_neg]
    rw [hprevious, hmerkle, hbits, hroot]
    simp
  -- the library reads it
  have hcommitment : ∀ o ∈ allOutputs outputs commitment,
      o.1 ≤ 21000000 * 100000000 ∧ o.2.length < 253 := by
    intro o ho
    rcases List.mem_append.mp ho with ho | ho
    · obtain ⟨c, -, rfl⟩ := Option.map_eq_some_iff.mp (Option.mem_toList.mp ho)
      exact ⟨Nat.zero_le _, by rw [AuxCommitment.length_script, scriptLen]; omega⟩
    · have hle := List.single_le_sum (l := outputs.map Prod.fst) (by simp) o.1
        (List.mem_map_of_mem ho)
      have hlen := (hlocking o ho).length_le
      exact ⟨by omega, by omega⟩
  have hlength : (allOutputs outputs commitment).length < 253 := by
    rw [allOutputs, List.length_append]
    cases commitment <;> simp <;> omega
  have htx := hlib.deserializeTransaction script _ hscript hlength hcommitment
  rw [← hbytes] at htx
  have hdecoded : List.Forall₂ (fun bytes tx => Bitcoin.deserializeTransaction bytes = some tx)
      (coinbase.bytes :: t.transactions)
      (coinbaseTransaction script (allOutputs outputs commitment) :: txdata) :=
    .cons htx hforall
  have hallplain : ∀ tx ∈ coinbaseTransaction script (allOutputs outputs commitment) :: txdata,
      tx.Plain := by
    simp only [List.forall_mem_cons]
    exact ⟨by simp [Transaction.Plain, coinbaseTransaction], hplain⟩
  have hdeserialize := hlib.deserialize header _ _ hdecoded (by simpa using hfull.count)
  have hassemble : t.assemble coinbase.bytes header = header.bytes ++
      compactSize (coinbase.bytes :: t.transactions).length ++
      (coinbase.bytes :: t.transactions).flatten := by
    simp [BchTemplate.assemble]
  rw [← hassemble] at hdeserialize
  have hmerkleRoot := hlib.checkMerkleRoot header _ _ hdecoded (by simp) hallplain
    (by rw [hmerkle, hroot, hfull.foldPath])
  have hpow := hlib.validatePow header t.bits t.target hbits hfull.target htarget
  refine ⟨_, hblock, fun hmax expected hexpected => ?_⟩
  -- and finds the outputs it expects
  have hpayments : checkPayments (allOutputs outputs commitment) expected = .ok () := by
    have hsum : ((allOutputs outputs commitment).map Prod.fst).sum =
        (outputs.map Prod.fst).sum := by
      cases commitment <;> simp [allOutputs]
    rw [checkPayments]
    simp only [hsum, hexpected, payments_allOutputs hreadable hlocking]
    rw [if_neg (by omega), if_neg (by simp)]
  have hwitness : ((coinbaseTransaction script (allOutputs outputs commitment) :: txdata).any
      fun tx => tx.input.any fun input => !input.witness.isEmpty) = false := by
    rw [List.any_eq_false]
    intro tx htx
    rw [Bool.not_eq_true, List.any_eq_false]
    intro input hinput
    simp [hallplain tx htx input hinput]
  rw [validateBlock, if_neg (by omega), hdeserialize]
  simp only [hmerkleRoot, hpow, not_true_eq_false, or_self, if_false, hwitness]
  rw [if_neg (by simp [Transaction.isCoinbase, coinbaseTransaction])]
  exact Except.bind_eq_ok.mpr ⟨(), hpayments, rfl⟩

/-! ## Shares of a channel -/

/-- What a channel's own jobs pay, and from which merge-mining. -/
def Paid (c : Channel) (job : Job) : Prop :=
  ∀ e x, c.shareCoinbase job e = .ok x → ∃ y aux,
    job.template.auxJob c.network c.payout c.operator job.payout = .ok aux ∧
      job.template.coinbaseWithAux c.network c.payout c.operator y job.payout
        (aux.map fun aux => aux.output) = .ok x

/-- A job of block work that pays by the server's policy, with a commitment that reads back. -/
structure Payable (c : Channel) (pool : Option PublicPool) (job : Job) : Prop where
  full : Full job.template
  jd : job.template.jd = none
  p2pool : job.template.p2pool = none
  issued : job.payout.Issued pool
  readable : ∀ aux, job.template.auxJob c.network c.payout c.operator job.payout = .ok (some aux) →
    aux.commitment.Readable
  paid : Paid c job

omit [Bitcoin] in
/-- Without a Job Declaration plan, a job's output 0 is its merge-mining's commitment. -/
lemma output_of_auxJob {t : BchTemplate} {network : MiningNetwork} {payout : List Char}
    {operator : Option (List Char)} {policy : BchPayout} {aux : AuxJob}
    (h : t.auxJob network payout operator policy = .ok (some aux)) :
    aux.output = aux.commitment.output := by
  obtain ⟨set, terms, -, rfl⟩ := BchTemplate.auxJob_eq_some h
  rfl

omit [Hasher] [Bitcoin] in
/-- The scripts the journal finds for a block are the ones its job paid. -/
lemma blockScripts_of_scripts {network : MiningNetwork} {configured list : List Bytes}
    {payout miner : List Char} {operator : Option (List Char)}
    (hconfigured : Payout.scripts network payout none = .ok configured)
    (h : Payout.scripts network miner operator = .ok list) :
    blockScripts network configured (if miner ≠ payout then some miner else none) operator =
      .ok list := by
  by_cases hminer : miner = payout
  · subst hminer
    rw [if_neg (not_not.mpr rfl)]
    cases operator with
    | none =>
      rw [hconfigured] at h
      exact h
    | some operator =>
      unfold Payout.scripts at h hconfigured
      obtain ⟨m, hm, h⟩ := Except.bind_eq_ok.mp h
      obtain ⟨d, hd, h⟩ := Except.bind_eq_ok.mp h
      obtain ⟨minerScript, hminer, h⟩ := Except.bind_eq_ok.mp h
      obtain ⟨donationScript, hdonation, h⟩ := Except.bind_eq_ok.mp h
      obtain ⟨o, ho, h⟩ := Except.bind_eq_ok.mp h
      obtain ⟨operatorScript, hoperator, h⟩ := Except.bind_eq_ok.mp h
      simp only [hm, hd, hminer, hdonation, bind, Except.bind, pure, Except.pure] at hconfigured h
      cases hconfigured
      cases h
      have hother : Payout.scripts network operator none =
          .ok [operatorScript, donationScript] := by
        simp only [Payout.scripts, ho, hd, hoperator, hdonation, bind, Except.bind, pure,
          Except.pure]
      simp only [blockScripts, hother, bind, Except.bind]
      rfl
  · rw [if_pos hminer]
    cases operator <;> exact h

/-- The journal of this server's own payout. -/
structure Configured (setting : Setting) : Prop where
  binding : ∃ payout scripts, setting.binding = .payout payout scripts ∧
    Payout.scripts setting.network payout none = .ok scripts

/-- A block share on a payable job is taken, as long as the block is not too large. -/
lemma enqueued_of_credited (hlib : Lawful) {setting : Setting} (hsetting : Configured setting)
    {c d : Channel} (hnetwork : c.network = setting.network) {pool : Option PublicPool}
    (hoperator : c.operator = pool.map PublicPool.address) {share : Share} {v : ValidatedShare}
    {job : Job} (hcredited : c.Credited d share v job) (hjob : Payable c pool job)
    (hblock : v.block = true) :
    ∃ bytes, v.template.block v.coinbase v.header = .ok bytes ∧
      (bytes.length ≤ maxBlockBytes → ∃ block, setting.enqueued v = .ok block) := by
  obtain ⟨payout, configured, hbinding, hconfigured⟩ := hsetting.binding
  have hv := hcredited.validated
  have htemplate : v.template = job.template := by rw [hv]; rfl
  have hpayout : v.payout = job.payout := by rw [hv]; rfl
  have hminer : v.miner = c.payout := by rw [hv]; rfl
  have hop : v.operator = c.operator := by rw [hv]; rfl
  have htarget : meetsTarget (doubleSha256 v.header.bytes) job.template.target = true := by
    rw [hv] at hblock
    have : job.isBlockHash (doubleSha256 v.header.bytes) share.time = true := hblock
    simp only [Job.isBlockHash, Bool.and_eq_true] at this
    exact this.1.2
  obtain ⟨y, aux, haux, hcoinbase⟩ := hjob.paid _ _ hcredited.coinbase
  -- the coinbase pays the policy's outputs
  have hsafa : job.template.isSafa = false := by
    have hwork := hjob.full.block
    rw [BchTemplate.isBlock, beq_iff_eq] at hwork
    rw [BchTemplate.isSafa, hwork]
  unfold BchTemplate.coinbaseWithAux at hcoinbase
  obtain ⟨u, -, hcoinbase⟩ := Except.bind_eq_ok.mp hcoinbase
  rw [hjob.p2pool] at hcoinbase
  simp only [hsafa, Bool.false_eq_true, if_false] at hcoinbase
  obtain ⟨outputs, houtputs, hcoinbase⟩ := Except.bind_eq_ok.mp hcoinbase
  rw [BchTemplate.coinbaseOutputs, hjob.jd] at houtputs
  obtain ⟨scripts, hscripts, houtputs⟩ := Except.bind_eq_ok.mp houtputs
  cases houtputs
  have hscripts' := hscripts
  rw [hoperator] at hscripts'
  obtain ⟨hsum, hnodup, hsub, -, -⟩ :=
    Payout.outputs_spec hscripts' hjob.issued job.template.coinbaseValue
  obtain ⟨hlocking, hlength⟩ := Payout.scripts_eq_ok hscripts
  have hcommitment : (aux.map fun aux => aux.output) =
      (aux.map AuxJob.commitment).map AuxCommitment.output := by
    cases aux with
    | none => rfl
    | some aux => rw [Option.map_some, output_of_auxJob haux]; rfl
  rw [hcommitment] at hcoinbase
  have hreadable : ∀ c ∈ aux.map AuxJob.commitment, c.Readable := by
    intro commitment hmem
    obtain ⟨a, rfl, rfl⟩ := Option.map_eq_some_iff.mp hmem
    exact hjob.readable a haux
  have hcount := hsub.length_le
  rw [List.length_map] at hcount
  obtain ⟨bytes, hbytes, hvalid⟩ := validateBlock_of_outputs hlib hjob.full hcoinbase
    (fun o ho => hlocking o.2 (hsub.subset (List.mem_map_of_mem ho)))
    (by split_ifs at hlength <;> omega) (by rw [hsum]; exact hjob.full.value) hreadable
    hcredited.header htarget
  rw [htemplate]
  refine ⟨bytes, hbytes, fun hmax => ?_⟩
  have hvalid := hvalid hmax ⟨scripts, some job.payout⟩ (by rw [hsum]; rfl)
  have hfound : blockScripts setting.network configured
      (if v.miner ≠ payout then some v.miner else none) v.operator = .ok scripts := by
    rw [hminer, hop]
    rw [hnetwork] at hscripts
    exact blockScripts_of_scripts hconfigured hscripts
  rw [Setting.enqueued, if_neg (by simp [hblock]), htemplate, hbytes, hbinding, hpayout]
  simp only [bind, Except.bind, hfound, hvalid]
  exact ⟨_, rfl⟩

/-! ## Runs of a channel -/

omit [Hasher] [Bitcoin] in
/-- The parts of a channel that say whom its jobs pay and what its devices may roll. -/
structure SameAccount (c d : Channel) : Prop where
  network : d.network = c.network
  payout : d.payout = c.payout
  operator : d.operator = c.operator
  kind : d.kind = c.kind
  extranoncePrefix : d.extranoncePrefix = c.extranoncePrefix
  rolled : d.rolled = c.rolled

omit [Hasher] [Bitcoin] in
lemma SameAccount.trans {c d e : Channel} (h : SameAccount c d) (h' : SameAccount d e) :
    SameAccount c e :=
  ⟨h'.network.trans h.network, h'.payout.trans h.payout, h'.operator.trans h.operator,
    h'.kind.trans h.kind, h'.extranoncePrefix.trans h.extranoncePrefix, h'.rolled.trans h.rolled⟩

omit [Hasher] [Bitcoin] in
lemma sameAccount_retainPrevious (c : Channel) (template : BchTemplate) :
    SameAccount c (c.retainPrevious template) := by
  unfold Channel.retainPrevious
  cases c.job with
  | none => exact ⟨rfl, rfl, rfl, rfl, rfl, rfl⟩
  | some job =>
    simp only
    split_ifs <;> exact ⟨rfl, rfl, rfl, rfl, rfl, rfl⟩

omit [Hasher] [Bitcoin] in
lemma sameAccount_of_tokenRefusal {c d : Channel} (h : d = { c with tokenRefusal := d.tokenRefusal }) :
    SameAccount c d := by
  rw [h]
  exact ⟨rfl, rfl, rfl, rfl, rfl, rfl⟩

omit [Hasher] [Bitcoin] in
lemma sameAccount_installed {c d : Channel} {job : Job} (h : c.Installed d job) :
    SameAccount c d := by
  obtain ⟨h1, h2, h3, h4, h5, h6⟩ := sameAccount_retainPrevious c job.template
  rw [h.channel]
  exact ⟨h1, h2, h3, h4, h5, h6⟩

omit [Hasher] [Bitcoin] in
lemma sameAccount_sameJobs {c d : Channel} (h : c.SameJobs d) : SameAccount c d := by
  unfold Channel.SameJobs at h
  rw [h]
  exact ⟨rfl, rfl, rfl, rfl, rfl, rfl⟩

omit [Bitcoin] in
/-- No operation changes them. -/
lemma sameAccount_step (c : Channel) (op : Channel.Op) : SameAccount c (c.step op).2 := by
  cases op with
  | install random id generation template payout =>
    rcases hr : c.installWithPayout random id generation template payout with ⟨r, d⟩
    simp only [Channel.step, hr]
    cases r with
    | error e => exact sameAccount_of_tokenRefusal (Channel.installWithPayout_eq_error hr)
    | ok job => exact sameAccount_installed (Channel.installWithPayout_eq_ok hr).1
  | installCustom id template parts =>
    rcases hr : c.installCustom id template parts with ⟨r, d⟩
    simp only [Channel.step, hr]
    cases r with
    | error e =>
      obtain rfl := Channel.installCustom_eq_error hr
      exact sameAccount_of_tokenRefusal rfl
    | ok job => exact sameAccount_installed (Channel.installCustom_eq_ok hr).1
  | revoke => exact ⟨rfl, rfl, rfl, rfl, rfl, rfl⟩
  | settle block tokens maximum => exact ⟨rfl, rfl, rfl, rfl, rfl, rfl⟩
  | dropTokenFloor maximum =>
    simp only [Channel.step, Channel.dropTokenFloor]
    cases c.job <;> exact ⟨rfl, rfl, rfl, rfl, rfl, rfl⟩
  | retarget desired maximum =>
    simp only [Channel.step, Channel.retarget]
    split <;> exact ⟨rfl, rfl, rfl, rfl, rfl, rfl⟩
  | takeTokenRefusal => exact ⟨rfl, rfl, rfl, rfl, rfl, rfl⟩
  | check share now =>
    rcases hr : c.check share now with ⟨r, d⟩
    simp only [Channel.step, hr]
    cases r with
    | error e => exact sameAccount_sameJobs (Channel.check_eq_error hr).1
    | ok v =>
      obtain ⟨job, hcredited⟩ := Channel.check_eq_ok hr
      exact sameAccount_sameJobs hcredited.same

/-- Neither the account nor the share target matters to what a job pays. -/
lemma Payable.kept {c d : Channel} (hsame : SameAccount c d) {pool : Option PublicPool}
    {j k : Job} (hcontent : k.content = j.content) (h : Payable c pool j) : Payable d pool k := by
  obtain ⟨target, rfl⟩ : ∃ target, k = { j with target := target } :=
    ⟨k.target, Job.content_eq hcontent⟩
  refine ⟨h.full, h.jd, h.p2pool, h.issued, ?_, ?_⟩
  · rw [hsame.network, hsame.payout, hsame.operator]
    exact h.readable
  · intro e x hx
    rw [Channel.shareCoinbase_kept hsame.kind hsame.extranoncePrefix hsame.rolled] at hx
    rw [hsame.network, hsame.payout, hsame.operator]
    exact h.paid e x hx

/-- What the server installs on a channel of its own payouts: full templates without a Job
Declaration plan, under the policies it issues, with token sets it made and no zero root. -/
def Serves (pool : Option PublicPool) (t : Channel.Trace) (op : Channel.Op) : Prop :=
  match op with
  | .install _ _ _ template payout =>
    Full template ∧ template.jd = none ∧ template.p2pool = none ∧ payout.Issued pool ∧
      (∀ set, template.tokens = some set → set.Valid) ∧
      ∀ aux, template.auxJob t.channel.network t.channel.payout t.channel.operator
          (t.channel.adjustPayout payout) = .ok (some aux) →
        aux.commitment.root ≠ ByteVec.zero 32
  | .installCustom _ _ _ => False
  | _ => True

omit [Hasher] [Bitcoin] in
/-- A miner's own donation choice leaves the fee as it is. -/
lemma issued_adjustPayout {policy : BchPayout} {pool : Option PublicPool} (h : policy.Issued pool)
    (c : Channel) : (c.adjustPayout policy).Issued pool := by
  unfold Channel.adjustPayout
  split
  · exact h
  · split_ifs
    · exact h
    · exact ⟨h.fee, h.feeWork⟩

lemma payable_installed {pool : Option PublicPool} {t : Channel.Trace} {random : ℕ → UInt8}
    {id : UInt32} {generation : UInt64} {template : BchTemplate} {payout : BchPayout}
    (hserves : Serves pool t (.install random id generation template payout)) {job : Job}
    {d : Channel}
    (h : t.channel.installWithPayout random id generation template payout = (.ok job, d)) :
    Payable t.channel pool job := by
  obtain ⟨hfull, hjd, hp2pool, hissued, hvalid, hroot⟩ := hserves
  have hown := (Channel.installWithPayout_eq_ok h).2
  have htemplate := hown.template_eq
  have hpayout := hown.payout_eq
  rw [← htemplate] at hfull hjd hp2pool hvalid
  rw [← htemplate, ← hpayout] at hroot
  refine ⟨hfull, hjd, hp2pool, hpayout ▸ issued_adjustPayout hissued _, ?_, ?_⟩
  · intro aux haux
    obtain ⟨set, terms, hset, rfl⟩ := BchTemplate.auxJob_eq_some haux
    exact ⟨(hvalid set hset).height_le_max, fun hzero => absurd hzero (hroot _ haux)⟩
  intro e x hx
  -- the installation built both coinbases from the template's merge-mining
  unfold Channel.installWithPayout at h
  simp only at h
  split_ifs at h with hid hcompact
  · cases h
  · cases h
  split at h
  · cases h
  rename_i aux haux
  split at h
  · cases h
  rename_i standard parts hcoinbases
  rw [Channel.coinbases_refuse] at hcoinbases
  rw [← htemplate, ← hpayout] at haux hcoinbases
  have hstandard : standard = job.standardCoinbase ∧ parts = job.parts := by
    have hjob := Except.ok.inj (Prod.mk.inj h).1
    exact ⟨congrArg Job.standardCoinbase hjob, congrArg Job.parts hjob⟩
  rw [hstandard.1, hstandard.2] at hcoinbases
  obtain ⟨y, hy, -, -⟩ := Channel.shareCoinbase_of_coinbases hcoinbases hx
  exact ⟨_, aux, haux, hy⟩

omit [Bitcoin] in
/-- A live job was live before, up to its share target, or was just installed. -/
lemma mem_live_step {c : Channel} (hc : c.Inv) {op : Channel.Op} {job : Job}
    (hjob : job ∈ (c.step op).2.live) :
    (∃ old ∈ c.live, job.content = old.content) ∨
      ((c.step op).1 = [.installed job] ∧ c.Made job) := by
  rcases Channel.step_cases c op with ⟨-, hquiet⟩ | ⟨new, -, hlog, hinstalled, hmade⟩ |
    ⟨-, hrevoke⟩ | ⟨share, v, old, -, hcredited⟩
  · have hmem := List.mem_map_of_mem (f := Job.content) hjob
    rw [hquiet.content_live] at hmem
    obtain ⟨old, hold, heq⟩ := List.mem_map.mp hmem
    exact .inl ⟨old, hold, heq.symm⟩
  · obtain ⟨dropped, hsuffix⟩ := (Channel.retainPrevious_spec hc new.template).suffix
    rw [hinstalled.channel, Channel.live] at hjob
    rcases List.mem_append.mp hjob with hjob | hjob
    · exact .inl ⟨job, by rw [hsuffix]; exact List.mem_append_right _ hjob, rfl⟩
    · obtain rfl : job = new := by simpa using hjob
      exact .inr ⟨hlog, hmade⟩
  · rw [hrevoke] at hjob
    simp [Channel.revoke, Channel.live] at hjob
  · rw [hcredited.same.live_eq] at hjob
    exact .inl ⟨job, hjob, rfl⟩

omit [Bitcoin] in
/-- What holds of the live jobs, and of a job as it is installed, holds of the live jobs after an
operation, if of a channel only its account matters to it, and of a job all but the target. -/
lemma live_step {P : Channel → Job → Prop}
    (hkept : ∀ {c d : Channel} {j k : Job}, SameAccount c d → k.content = j.content → P c j → P d k)
    {c : Channel} (hc : c.Inv) {op : Channel.Op} (hlive : ∀ job ∈ c.live, P c job)
    (hnew : ∀ job, (c.step op).1 = [.installed job] → P c job) :
    ∀ job ∈ (c.step op).2.live, P (c.step op).2 job := by
  have hsame := sameAccount_step c op
  intro job hjob
  rcases mem_live_step hc hjob with ⟨old, hold, hcontent⟩ | ⟨hlog, -⟩
  · exact hkept hsame hcontent (hlive old hold)
  · exact hkept hsame rfl (hnew job hlog)

/-- Along a run all live jobs pay by the server's policies. -/
lemma payable_run {pool : Option PublicPool} {start : Channel} {t : Channel.Trace}
    (h : Channel.Run (Serves pool) start t) (hfresh : start.Fresh) :
    SameAccount start t.channel ∧ ∀ job ∈ t.channel.live, Payable t.channel pool job := by
  induction h with
  | start =>
    refine ⟨⟨rfl, rfl, rfl, rfl, rfl, rfl⟩, ?_⟩
    obtain ⟨hjob, hprevious, -⟩ := hfresh
    simp [Channel.live, hjob, hprevious]
  | @next t op hrun hserves ih =>
    refine ⟨ih.1.trans (sameAccount_step t.channel op), ?_⟩
    refine live_step (P := fun c job => Payable c pool job)
      (fun hsame hcontent h => h.kept hsame hcontent) (hrun.inv hfresh) ih.2 ?_
    intro job hlog
    rcases Channel.installed_step hlog with ⟨_, _, _, _, _, rfl, hr⟩ | ⟨_, _, _, rfl, -⟩
    · exact payable_installed hserves hr
    · exact hserves.elim

/-- Every block share a run accepts is taken, unless its block is too large. -/
lemma enqueued_run (hlib : Lawful) {setting : Setting} (hsetting : Configured setting)
    {pool : Option PublicPool} {start : Channel} (hfresh : start.Fresh)
    (hnetwork : start.network = setting.network)
    (hoperator : start.operator = pool.map PublicPool.address) {t : Channel.Trace}
    (h : Channel.Run (Serves pool) start t) {id : UInt32} {v : ValidatedShare}
    (hmem : .accepted id v ∈ t.log) (hblock : v.block = true) :
    ∃ bytes, v.template.block v.coinbase v.header = .ok bytes ∧
      (bytes.length ≤ maxBlockBytes → ∃ block, setting.enqueued v = .ok block) := by
  induction h with
  | start => cases hmem
  | @next t op hrun hserves ih =>
    rcases List.mem_append.mp hmem with hnew | hold
    · rcases Channel.step_cases t.channel op with ⟨hlog, -⟩ | ⟨new, -, hlog, -, -⟩ | ⟨hlog, -⟩ |
        ⟨share, v', job, hlog, hcredited⟩
      · simp [hlog] at hnew
      · simp [hlog] at hnew
      · simp [hlog] at hnew
      · obtain ⟨-, rfl⟩ : id = share.jobId ∧ v = v' := by simpa [hlog] using hnew
        obtain ⟨hsame, hlive⟩ := payable_run hrun hfresh
        exact enqueued_of_credited hlib hsetting (hsame.network.trans hnetwork)
          (hsame.operator.trans hoperator) hcredited (hlive job hcredited.mem) hblock
    · exact ih hold

/-- What the journal thinks of the outputs `payout::outputs` makes of `value` for the scripts
and the policy of a job. -/
structure Takes (network : MiningNetwork) (pool : Option PublicPool) (scripts : List Bytes)
    (policy : BchPayout) (value : ℕ) : Prop where
  /-- The value is split whole, among scripts in the order given, each once. -/
  sum : ((Payout.outputs value scripts policy).map Prod.fst).sum = value
  nodup : ((Payout.outputs value scripts policy).map Prod.snd).Nodup
  order : ((Payout.outputs value scripts policy).map Prod.snd).Sublist scripts
  /-- No output is empty, unless there is nothing to split. -/
  nonzero : value ≠ 0 → ∀ o ∈ Payout.outputs value scripts policy, 0 < o.1
  zero : value = 0 →
    Payout.outputs value scripts policy = [(0, Payout.beneficiary scripts policy)]
  /-- A block with these outputs, after a commitment or none, is made and passes. -/
  passes : ∀ (t : BchTemplate) (commitment : Option AuxCommitment) (extranonce : Bytes)
    (coinbase : Coinbase) (version time nonce : UInt32) (header : ByteVec 80),
    Full t → (∀ c ∈ commitment, c.Readable) →
    t.coinbaseWithOutputs extranonce (Payout.outputs value scripts policy)
      (commitment.map AuxCommitment.output) = .ok coinbase →
    t.header coinbase version time nonce = .ok header →
    meetsTarget (doubleSha256 header.bytes) t.target = true →
    ∃ bytes, t.block coinbase header = .ok bytes ∧
      (bytes.length ≤ maxBlockBytes →
        validateBlock bytes (some ⟨scripts, some policy⟩) = .ok (Block.mk header []).hash)
  /-- So whatever a channel of this server does, the blocks its shares find are taken. -/
  taken : ∀ (setting : Setting) (start : Channel) (t : Channel.Trace) (id : UInt32)
    (v : ValidatedShare), Configured setting → setting.network = network → start.Fresh →
    start.network = network → start.operator = pool.map PublicPool.address →
    Channel.Run (Serves pool) start t → .accepted id v ∈ t.log → v.block = true →
    ∃ bytes, v.template.block v.coinbase v.header = .ok bytes ∧
      (bytes.length ≤ maxBlockBytes → ∃ block, setting.enqueued v = .ok block)

/-- For every amount of money, every policy the server issues and every list of scripts it
builds, the outputs make up the value and the journal takes the blocks that pay them. -/
theorem outputs_accepted (hlib : Lawful) {network : MiningNetwork} {miner : List Char}
    {pool : Option PublicPool} {scripts : List Bytes}
    (hscripts : Payout.scripts network miner (pool.map PublicPool.address) = .ok scripts)
    {policy : BchPayout} (hissued : policy.Issued pool) {value : ℕ}
    (hvalue : value ≤ 21000000 * 100000000) : Takes network pool scripts policy value := by
  obtain ⟨hsum, hnodup, hsub, hnonzero, hzero⟩ := Payout.outputs_spec hscripts hissued value
  refine ⟨hsum, hnodup, hsub, hnonzero, hzero, ?_, ?_⟩
  · intro t commitment extranonce coinbase version time nonce header hfull hreadable hcoinbase
      hheader htarget
    obtain ⟨hlocking, hlength⟩ := Payout.scripts_eq_ok hscripts
    have hcount := hsub.length_le
    rw [List.length_map] at hcount
    obtain ⟨bytes, hbytes, hvalid⟩ := validateBlock_of_outputs hlib hfull hcoinbase
      (fun o ho => hlocking o.2 (hsub.subset (List.mem_map_of_mem ho)))
      (by split_ifs at hlength <;> omega) (by rw [hsum]; exact hvalue) hreadable hheader htarget
    exact ⟨bytes, hbytes, fun hmax => hvalid hmax _ (by rw [hsum]; rfl)⟩
  · rintro setting start t id v hsetting rfl hfresh hnetwork hoperator hrun hmem hblock
    exact enqueued_run hlib hsetting hfresh hnetwork hoperator hrun hmem hblock

end Blocks

/-! ## Blocks of an easy template -/

/-- A template with the easiest target there is and no transactions. -/
def easyTemplate : BchTemplate :=
  { BchTemplate.sample with
    bits := 0x207fffff
    target := targetOfNat (0x7fffff * 2 ^ 232)
    transactions := []
    merklePath := []
    token_plain := fun _ h => by cases h }

lemma compactTarget_easy : compactTarget easyTemplate.bits = .ok easyTemplate.target := by
  decide +kernel

/-- The whole of Chipnet's donation, to the miner whose address it is. -/
def sampleOutputs : List (ℕ × Bytes) :=
  [(312500000, [0x76, 0xa9, 0x14, 0xc4, 0x0a, 0x24, 0xbf, 0x5b, 0x3c, 0xfe, 0x56, 0x1c, 0xf3, 0x6a,
    0xfe, 0xa1, 0xb5, 0x9f, 0xe6, 0x13, 0x83, 0xe8, 0x06, 0x88, 0xac])]

/-- The scripts of a miner who is paid at Chipnet's donation address. -/
def sampleScripts : List Bytes := [(sampleOutputs.headD default).2, (sampleOutputs.headD default).2]

lemma scripts_sample :
    Payout.scripts .chipnet (donationAddress .chipnet) none = .ok sampleScripts := by
  decide +kernel

lemma issued_default : (default : BchPayout).Issued none :=
  ⟨rfl, fun h => by cases h⟩

theorem outputs_accepted_easy :
    let : Hasher := Hasher.fips
    let : Bitcoin := plainLibrary
    Lawful ∧ Payout.scripts .chipnet (donationAddress .chipnet) none = .ok sampleScripts ∧
      Full easyTemplate ∧
      ∃ coinbase header bytes,
        easyTemplate.coinbaseWithOutputs [1, 2, 3, 4]
          (Payout.outputs 312500000 sampleScripts default) none = .ok coinbase ∧
        easyTemplate.header coinbase 0x20000000 1775336600 0 = .ok header ∧
        easyTemplate.block coinbase header = .ok bytes ∧
        validateBlock bytes (some ⟨sampleScripts, some default⟩) = .ok (Block.mk header []).hash := by
  intro _ _
  have hfull : Full easyTemplate := by
    refine ⟨?_, ?_, compactTarget_easy, by decide, by decide, rfl, rfl⟩
    · intro bytes h
      cases h
    · show [] = Merkle.evenedPath pairHash [ByteVec.zero 32]
      rw [Merkle.evenedPath]
  have hscripts : Payout.scripts .chipnet (donationAddress .chipnet)
      ((none : Option PublicPool).map PublicPool.address) = .ok sampleScripts := scripts_sample
  have hvalue : 312500000 ≤ 21000000 * 100000000 := by omega
  have hmain := outputs_accepted lawful_plainLibrary hscripts issued_default hvalue
  have hmined : (do
      let coinbase ← easyTemplate.coinbaseWithOutputs [1, 2, 3, 4]
        (Payout.outputs 312500000 sampleScripts default) none
      let header ← easyTemplate.header coinbase 0x20000000 1775336600 0
      .ok (meetsTarget (doubleSha256 header.bytes) easyTemplate.target &&
        decide ((easyTemplate.assemble coinbase.bytes header).length ≤ maxBlockBytes))) =
      .ok true := by decide +kernel
  obtain ⟨coinbase, hcoinbase, hmined⟩ := Except.bind_eq_ok.mp hmined
  obtain ⟨header, hheader, hmined⟩ := Except.bind_eq_ok.mp hmined
  have hmined := Except.ok.inj hmined
  simp only [Bool.and_eq_true, decide_eq_true_eq] at hmined
  obtain ⟨bytes, hbytes, hvalid⟩ := hmain.passes easyTemplate none _ coinbase _ _ _ header hfull
    (by simp) hcoinbase hheader hmined.1
  refine ⟨lawful_plainLibrary, scripts_sample, hfull, coinbase, header, bytes, hcoinbase, hheader,
    hbytes, hvalid ?_⟩
  rw [BchTemplate.block_eq_ok hbytes]
  exact hmined.2

/-- A transaction with `n` bytes of script. -/
def longTransaction (n : ℕ) : Transaction :=
  ⟨1, [⟨ByteVec.zero 32, 0, List.replicate n 0, 0, []⟩], [], 0⟩

/-- The easy template with that transaction, in a chain whose blocks may be so large. -/
def longTemplate (n limit : ℕ) : BchTemplate :=
  { easyTemplate with
    sizeLimit := limit
    transactions := [(longTransaction n).bytes]
    merklePath := [ByteVec.zero 32]
    token_plain := fun _ h => by cases h }

/-- A hash that is always zero. -/
abbrev zeroHasher : Hasher := ⟨fun _ => ByteVec.zero 32⟩

lemma full_longTemplate {n limit : ℕ} (hn : n < 2 ^ 32) :
    @Full zeroHasher (@plainLibrary zeroHasher) (longTemplate n limit) := by
  let : Hasher := zeroHasher
  let : Bitcoin := plainLibrary
  refine ⟨?_, ?_, compactTarget_easy, show 312500000 ≤ _ by omega, show 1 + 1 < _ by omega, rfl, rfl⟩
  · intro bytes h
    obtain rfl := List.mem_singleton.mp h
    have hplain : plainTransaction (longTransaction n).bytes = some (longTransaction n) := by
      refine plainTransaction_eq_some.mpr ⟨?_, rfl⟩
      simp [Transaction.isPlain, longTransaction]
      omega
    have hone : (longTransaction n).bytes[4]? = some 1 := rfl
    show checkedTransaction _ = _
    unfold checkedTransaction
    rw [show Bitcoin.deserializeTransaction _ = _ from hplain]
    simp only [hone]
    rw [if_neg (by simp [longTransaction, Transaction.isCoinbase])]
  · show [ByteVec.zero 32] = Merkle.evenedPath pairHash [ByteVec.zero 32, ByteVec.zero 32]
    rw [Merkle.evenedPath, show Merkle.pairs pairHash (Merkle.evened [ByteVec.zero 32,
      ByteVec.zero 32]) = [ByteVec.zero 32] from rfl, Merkle.evenedPath]

lemma length_longTransaction (n : ℕ) :
    n < (longTransaction n).bytes.length ∧ (longTransaction n).bytes.length ≤ n + 60 := by
  have hsize := length_compactSize_le n
  have hone : (compactSize 1).length = 1 := rfl
  have hzero : (compactSize 0).length = 1 := rfl
  simp [longTransaction, Transaction.bytes, TxIn.bytes, hone, hzero]
  omega

/-- The whole block is longer than the script. -/
lemma exists_long_block {n limit : ℕ} (hn : n < 2 ^ 32) (hlimit : n + 2000 ≤ limit) :
    let : Hasher := zeroHasher
    let : Bitcoin := plainLibrary
    ∃ coinbase header bytes,
      (longTemplate n limit).coinbaseWithOutputs []
        (Payout.outputs 312500000 sampleScripts default) none = .ok coinbase ∧
      (longTemplate n limit).header coinbase 0x20000000 1775336600 0 = .ok header ∧
      meetsTarget (doubleSha256 header.bytes) (longTemplate n limit).target = true ∧
      (longTemplate n limit).block coinbase header = .ok bytes ∧ n < bytes.length := by
  intro _ _
  have houtputs : Payout.outputs 312500000 sampleScripts default = sampleOutputs := by
    decide +kernel
  have hscript : (longTemplate n limit).coinbaseScript [] = easyTemplate.coinbaseScript [] := rfl
  have hshort : (easyTemplate.coinbaseScript []).length ≤ 100 ∧
      (BchTemplate.beforeScript (easyTemplate.coinbaseScript []).length ++
        easyTemplate.coinbaseScript [] ++ BchTemplate.afterScript sampleOutputs none).length ≤ 1000 := by
    decide +kernel
  have hlength := length_longTransaction n
  have hsize : ∀ size ≤ 1000, (longTemplate n limit).checkBlockSize size = .ok () := by
    intro size hle
    have hcount : (compactSize ((longTemplate n limit).transactions.length + 1)).length = 1 := rfl
    have hbudget : (longTemplate n limit).coinbaseBudget =
        limit - (80 + 1 + (longTransaction n).bytes.length) := by
      rw [BchTemplate.coinbaseBudget, hcount]
      simp [longTemplate]
    rw [BchTemplate.checkBlockSize, if_neg (by omega)]
  obtain ⟨coinbase, hcoinbase⟩ : ∃ coinbase, (longTemplate n limit).coinbaseWithOutputs []
      sampleOutputs (Option.map AuxCommitment.output none) = .ok coinbase := by
    rw [BchTemplate.coinbaseWithOutputs, if_neg (by simp)]
    simp only [hscript, Option.map_none]
    rw [if_neg (by omega), if_neg (by simp), hsize _ hshort.2]
    exact ⟨_, rfl⟩
  obtain ⟨header, hheader⟩ : ∃ header, (longTemplate n limit).header coinbase 0x20000000 1775336600 0 =
      .ok header := by
    rw [BchTemplate.header, if_neg (by show ¬ (1775336600 : UInt32) < 1775336000; decide)]
    exact ⟨_, rfl⟩
  have htarget : meetsTarget (doubleSha256 header.bytes) (longTemplate n limit).target = true := by
    show meetsTarget (ByteVec.zero 32) easyTemplate.target = true
    decide +kernel
  have hlocking : ∀ o ∈ sampleOutputs, Cashaddr.Locking o.2 := by
    intro o ho
    obtain rfl := List.mem_singleton.mp ho
    exact (Payout.scripts_eq_ok scripts_sample).1 _ (by decide)
  obtain ⟨bytes, hbytes, -⟩ := validateBlock_of_outputs lawful_plainLibrary
    (full_longTemplate hn) hcoinbase hlocking (by decide) (by decide) (by simp)
    hheader htarget
  refine ⟨coinbase, header, bytes, houtputs ▸ hcoinbase, hheader, htarget, hbytes, ?_⟩
  rw [BchTemplate.block_eq_ok hbytes, BchTemplate.assemble]
  simp [longTemplate]
  omega

/-- Where there is nothing to split the one output is worth nothing, and a block larger than
the journal's storage is refused although it is built from the outputs of its value. -/
theorem worthless_or_too_large :
    let : Hasher := zeroHasher
    let : Bitcoin := plainLibrary
    Payout.scripts .chipnet (donationAddress .chipnet) none = .ok sampleScripts ∧
      (default : BchPayout).Issued none ∧
      (∃ o ∈ Payout.outputs 0 sampleScripts default, o.1 = 0) ∧
      ∃ t coinbase header bytes, Full t ∧
        t.coinbaseWithOutputs [] (Payout.outputs 312500000 sampleScripts default) none =
          .ok coinbase ∧
        t.header coinbase 0x20000000 1775336600 0 = .ok header ∧
        meetsTarget (doubleSha256 header.bytes) t.target = true ∧
        t.block coinbase header = .ok bytes ∧
        validateBlock bytes (some ⟨sampleScripts, some default⟩) =
          .error "block exceeds journal storage budget" := by
  intro _ _
  have hn : maxBlockBytes < 2 ^ 32 := by decide
  obtain ⟨coinbase, header, bytes, hcoinbase, hheader, htarget, hbytes, hlong⟩ :=
    exists_long_block hn le_rfl
  refine ⟨scripts_sample, issued_default, ⟨_, List.mem_singleton_self _, rfl⟩, longTemplate _ _, coinbase,
    header, bytes, full_longTemplate hn, hcoinbase, hheader, htarget, hbytes, ?_⟩
  rw [validateBlock, if_pos hlong]

end Journal

end Pickaxe
