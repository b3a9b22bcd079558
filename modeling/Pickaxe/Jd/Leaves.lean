/-
# Token leaves under Job Declaration

A Full-Template client discloses the token leaves behind its coinbase's output 0, and the pool
holds each of them to its payout rule.  The client builds its leaves from the plan it read off
the pool's token, the pool checks them from its own rule: the two meet in `leaves_agree`.
-/
import Pickaxe.Jd.Policy
import Pickaxe.Merge.Complete

namespace Pickaxe.Jd

open Lib Merge

variable [Hasher]

/-! ## The pool's check -/

namespace PayoutRule

/-- The slot of a recipient. -/
def slot : Option (Bytes × UInt16) → Except String Slot
  | some (script, bps) => (Slot.new bps script).mapError SplitError.display
  | none => .ok Slot.empty

/-- The split a rule asks of every leaf. -/
def split (rule : PayoutRule) : Except String Split := do
  let donation ← slot rule.donation
  let fee ← slot rule.fee
  .ok ⟨donation, fee⟩

omit [Hasher] in
/-- One leaf of `check_leaves_with`. -/
def checkLeaf (known : Hash → Option MergeToken) (miner : Hash) (split : Split)
    (disclosed : DisclosedLeaf) : Except String Unit :=
  match known disclosed.leaf.category with
  | none => .error "a token leaf names a token the pool does not know"
  | some token =>
    if token.split = false then
      .error (token.name ++ " takes no split, so it cannot pay the pool's fee under Job Declaration")
    else if disclosed.leaf.payoutHash ≠ miner then
      .error (token.name ++ "'s leaf does not pay the miner")
    else if disclosed.split ≠ split then
      .error (token.name ++ "'s split is not the donation and the pool's fee")
    else .ok ()

omit [Hasher] in
/-- The leaves, one after the other. -/
def checkEach (known : Hash → Option MergeToken) (miner : Hash) (split : Split) :
    List DisclosedLeaf → Except String Unit
  | [] => .ok ()
  | disclosed :: rest => do
    checkLeaf known miner split disclosed
    checkEach known miner split rest

/-- `check_leaves_with`: the leaves `excess` discloses for `outputs`, against the tokens `known`
names. -/
def checkLeavesWith (known : Hash → Option MergeToken) (rule : PayoutRule)
    (outputs : List (ℕ × Bytes)) (excess : Bytes) : Except String Unit :=
  match (outputs.head?.bind fun o => AuxCommitment.parseScript o.2).filter
      fun commitment => !commitment.isEmpty with
  | none =>
    if excess.isEmpty then .ok () else .error "token leaves without a token commitment"
  | some commitment =>
    if excess.isEmpty then .error "a token commitment needs its leaves in excess_data"
    else do
      let disclosure ← Disclosure.decode excess
      disclosure.checkRoot commitment
      let split ← rule.split
      checkEach known (doubleSha256 rule.miner) split disclosure.leaves

/-- `check_leaves`: against the pool's registry on `network`. -/
def checkLeaves (network : MiningNetwork) (rule : PayoutRule) (outputs : List (ℕ × Bytes))
    (excess : Bytes) : Except String Unit :=
  checkLeavesWith (known network) rule outputs excess

omit [Hasher] in
lemma checkLeaf_eq_ok {known : Hash → Option MergeToken} {miner : Hash} {split : Split}
    {d : DisclosedLeaf} : checkLeaf known miner split d = .ok () ↔
      (∃ token, known d.leaf.category = some token ∧ token.split = true) ∧
        d.leaf.payoutHash = miner ∧ d.split = split := by
  rw [checkLeaf]
  cases hknown : known d.leaf.category with
  | none => simp
  | some token =>
    simp only [Except.ite_error_eq_ok, Bool.not_eq_false, not_not, and_true, Option.some.injEq,
      exists_eq_left']

omit [Hasher] in
lemma checkEach_eq_ok {known : Hash → Option MergeToken} {miner : Hash} {split : Split}
    {leaves : List DisclosedLeaf} : checkEach known miner split leaves = .ok () ↔
      ∀ d ∈ leaves, checkLeaf known miner split d = .ok () := by
  induction leaves with
  | nil => simp [checkEach]
  | cons d leaves ih =>
    rw [checkEach, Except.bind_eq_ok, List.forall_mem_cons, ← ih]
    constructor
    · rintro ⟨_, hd, hrest⟩
      exact ⟨hd, hrest⟩
    · rintro ⟨hd, hrest⟩
      exact ⟨(), hd, hrest⟩

/-- A leaf that was decoded commits to its split. -/
lemma ext_of_decode {bytes : Bytes} {d : Disclosure} (h : Disclosure.decode bytes = .ok d) :
    ∀ leaf ∈ d.leaves, leaf.split.ext = leaf.leaf.ext := by
  rw [Disclosure.decode] at h
  cases hread : (do
      let disclosure ← Disclosure.read
      Reader.eof badDisclosure
      return disclosure : Reader String Disclosure) bytes with
  | error e =>
    rw [hread] at h
    cases h
  | ok r =>
    rw [hread] at h
    cases h
    obtain ⟨d, s, hd, hread⟩ := Reader.bind_eq_ok hread
    obtain ⟨_, _, -, hread⟩ := Reader.bind_eq_ok hread
    obtain rfl := Reader.pure_eq_ok hread
    obtain ⟨_, _, -, hd⟩ := Reader.bind_eq_ok hd
    obtain ⟨_, _, -, hd⟩ := Reader.bind_eq_ok hd
    obtain ⟨_, _, -, hd⟩ := Reader.bind_eq_ok hd
    obtain ⟨_, _, -, hd⟩ := Reader.bind_eq_ok hd
    obtain ⟨_, _, -, hd⟩ := Reader.bind_eq_ok hd
    obtain ⟨leaves, _, hleaves, hd⟩ := Reader.bind_eq_ok hd
    obtain ⟨rfl, -⟩ := Prod.mk.inj (Reader.pure_eq_ok hd)
    intro leaf hleaf
    obtain ⟨t, rest, hread⟩ := Reader.times_eq_ok hleaves leaf hleaf
    obtain ⟨_, _, -, hread⟩ := Reader.bind_eq_ok hread
    obtain ⟨_, _, -, hread⟩ := Reader.bind_eq_ok hread
    obtain ⟨_, _, -, hread⟩ := Reader.bind_eq_ok hread
    obtain ⟨_, _, -, hread⟩ := Reader.bind_eq_ok hread
    obtain ⟨_, _, hext, hread⟩ := Reader.bind_eq_ok hread
    obtain ⟨rfl, -⟩ := Prod.mk.inj (Reader.pure_eq_ok hread)
    exact (Reader.guard_eq_ok hext).1

/-! ## The client's leaves -/

/-- A plan read off the pool's answer has the pool's own slots. -/
lemma slots_allocated {rule : PayoutRule} {plan : JdPlan}
    (hscripts : plan.scripts = rule.allocatedOutputs.1.map Prod.snd)
    (hrates : plan.rates = rule.allocatedOutputs.2) :
    plan.tokenPayout = some rule.miner ∧
    (match plan.rates.donationOutput.bind fun index => plan.scripts[index.toNat]? with
      | some script => (Slot.new plan.rates.donationBps script).mapError SplitError.display
      | none => .ok Slot.empty) = slot rule.donation ∧
    (match plan.rates.feeOutput.bind fun index => plan.scripts[index.toNat]? with
      | some script => (Slot.new plan.rates.feeBps script).mapError SplitError.display
      | none => .ok Slot.empty) = slot rule.fee := by
  obtain ⟨miner, donation, fee⟩ := rule
  rw [JdPlan.tokenPayout, hscripts, hrates]
  cases donation <;> cases fee <;> exact ⟨rfl, rfl, rfl⟩

/-- The leaves a client builds are those of its set, on the pool's terms. -/
lemma declaredAux_allocated {rule : PayoutRule} {plan : JdPlan} {t : BchTemplate} {set : TokenSet}
    (hplan : t.jd = some plan) (hset : t.tokens = some set)
    (hscripts : plan.scripts = rule.allocatedOutputs.1.map Prod.snd)
    (hrates : plan.rates = rule.allocatedOutputs.2) {aux : AuxJob}
    (haux : t.declaredAux = .ok (some aux)) :
    ∃ split, rule.split = .ok split ∧ aux = AuxJob.build set ⟨rule.miner, split, rule.miner⟩ := by
  obtain ⟨hpayout, hdonation, hfee⟩ := slots_allocated hscripts hrates
  rw [BchTemplate.declaredAux, hplan, hset] at haux
  simp only [hpayout] at haux
  split_ifs at haux
  · cases haux
  · obtain ⟨d, hd, haux⟩ := Except.bind_eq_ok.mp haux
    obtain ⟨f, hf, haux⟩ := Except.bind_eq_ok.mp haux
    cases haux
    refine ⟨⟨d, f⟩, ?_, rfl⟩
    rw [PayoutRule.split, show slot rule.donation = .ok d from hdonation.symm.trans hd,
      show slot rule.fee = .ok f from hfee.symm.trans hf]
    rfl

/-- What is disclosed of a job whose tokens all take splits. -/
lemma leaves_build {set : TokenSet} {miner : Bytes} {split : Split}
    (hsplit : ∀ e ∈ set.entries, e.token.split = true) {d : DisclosedLeaf}
    (hd : d ∈ (Disclosure.fromJob (AuxJob.build set ⟨miner, split, miner⟩)).leaves) :
    (∃ e ∈ set.entries, d.leaf.category = e.token.category) ∧
      d.leaf.payoutHash = doubleSha256 miner ∧ d.split = split ∧ d.leaf.ext = split.ext := by
  obtain ⟨entry, hentry, rfl⟩ := List.mem_map.mp hd
  obtain ⟨p, hp, rfl⟩ := List.mem_map.mp hentry
  have hmem := (List.of_mem_zip hp).1
  have hterms : AuxJob.termsOf ⟨miner, split, miner⟩ p.1.token = (miner, split) :=
    if_pos (hsplit p.1 hmem)
  refine ⟨⟨p.1, hmem, rfl⟩, ?_⟩
  simp [AuxJob.buildEntry, hterms, Leaf.new]

/-- The first output of a template that merge-mines is its commitment. -/
lemma head?_declaredOutputs {t : BchTemplate} (hprepared : t.p2pool = none) {aux : AuxJob}
    (haux : t.declaredAux = .ok (some aux)) {outputs : List (ℕ × Bytes)}
    (houtputs : t.declaredOutputs = .ok outputs) :
    outputs.head?.map Prod.snd = some (aux.output.bytes.drop 9) := by
  rw [BchTemplate.declaredOutputs, hprepared, haux] at houtputs
  obtain ⟨_, -, houtputs⟩ := Except.bind_eq_ok.mp houtputs
  cases hplan : t.jd with
  | none =>
    rw [hplan] at houtputs
    cases houtputs
  | some plan =>
    rw [hplan] at houtputs
    cases houtputs
    rfl

/-- A job's output 0 reads back as its commitment, unless its root is 32 zero bytes. -/
lemma parse_output_build {set : TokenSet} (hvalid : set.Valid) (terms : LeafTerms)
    (hroot : (AuxJob.build set terms).commitment.root ≠ ByteVec.zero 32) :
    (AuxCommitment.parseScript ((AuxJob.build set terms).output.bytes.drop 9)).filter
      (fun commitment => !commitment.isEmpty) = some (AuxJob.build set terms).commitment := by
  have hdrop : (AuxJob.build set terms).output.bytes.drop 9 =
      (AuxJob.build set terms).commitment.script := List.drop_left' rfl
  have hread := AuxCommitment.parseScript_script
    (c := (AuxJob.build set terms).commitment) ⟨hvalid.height_le_max, fun h => absurd h hroot⟩
  have hempty : (AuxJob.build set terms).commitment.isEmpty = false := by
    rw [AuxCommitment.isEmpty, beq_eq_false_iff_ne]
    intro heq
    rw [heq] at hroot
    exact hroot rfl
  rw [hdrop, hread, Option.filter_some, hempty]
  rfl

/-- The client's leaves pass. -/
lemma checkLeavesWith_fromJob {known : Hash → Option MergeToken} {rule : PayoutRule}
    {set : TokenSet} (hvalid : set.Valid) (hne : set.entries ≠ [])
    (hknown : ∀ e ∈ set.entries, e.token.split = true ∧
      ∃ token, known e.token.category = some token ∧ token.split = true)
    {split : Split} (hsplit : rule.split = .ok split) {outputs : List (ℕ × Bytes)} {aux : AuxJob}
    (haux : aux = AuxJob.build set ⟨rule.miner, split, rule.miner⟩)
    (houtputs : outputs.head?.map Prod.snd = some (aux.output.bytes.drop 9))
    (hroot : aux.commitment.root ≠ ByteVec.zero 32) :
    checkLeavesWith known rule outputs (Disclosure.fromJob aux).encode = .ok () := by
  subst haux
  obtain ⟨value, hhead⟩ : ∃ value, outputs.head? = some (value, (AuxJob.build set
      ⟨rule.miner, split, rule.miner⟩).output.bytes.drop 9) := by
    obtain ⟨o, ho, heq⟩ := Option.map_eq_some_iff.mp houtputs
    exact ⟨o.1, by rw [ho, ← heq]⟩
  have hleaves := fun d (hd : d ∈ (Disclosure.fromJob (AuxJob.build set
    ⟨rule.miner, split, rule.miner⟩)).leaves) => leaves_build (fun e he => (hknown e he).1) hd
  have hdecode : Disclosure.decode (Disclosure.fromJob (AuxJob.build set
      ⟨rule.miner, split, rule.miner⟩)).encode = .ok (Disclosure.fromJob (AuxJob.build set
        ⟨rule.miner, split, rule.miner⟩)) := by
    refine Disclosure.decode_encode ?_ fun d hd => ⟨?_, Split.eq_none_of_isNone⟩
    · rw [Disclosure.fromJob, List.length_map, AuxJob.length_build hvalid, hvalid.holds.slots_eq,
        List.length_map, List.length_map]
      exact hvalid.length_le
    · rw [(hleaves d hd).2.2.1, (hleaves d hd).2.2.2]
  have hencode : (Disclosure.fromJob (AuxJob.build set
      ⟨rule.miner, split, rule.miner⟩)).encode.isEmpty = false := rfl
  rw [checkLeavesWith, hhead, Option.bind_some, parse_output_build hvalid _ hroot]
  simp only [hencode, Bool.false_eq_true, if_false]
  rw [hdecode]
  refine Except.bind_eq_ok.mpr ⟨_, rfl, Except.bind_eq_ok.mpr
    ⟨(), Disclosure.checkRoot_fromJob hvalid hne _, ?_⟩⟩
  rw [hsplit]
  refine checkEach_eq_ok.mpr fun d hd => checkLeaf_eq_ok.mpr ?_
  obtain ⟨⟨e, he, hcategory⟩, hpayout, hsplit, -⟩ := hleaves d hd
  rw [hcategory]
  exact ⟨(hknown e he).2, hpayout, hsplit⟩

/-- What the pool accepted. -/
lemma checkLeavesWith_eq_ok {known : Hash → Option MergeToken} {rule : PayoutRule}
    {outputs : List (ℕ × Bytes)} {excess : Bytes}
    (h : checkLeavesWith known rule outputs excess = .ok ()) {d : Disclosure}
    (hd : Disclosure.decode excess = .ok d) : ∃ commitment split,
      (outputs.head?.bind fun o => AuxCommitment.parseScript o.2) = some commitment ∧
      d.checkRoot commitment = .ok () ∧ rule.split = .ok split ∧
      ∀ leaf ∈ d.leaves,
        checkLeaf known (doubleSha256 rule.miner) split leaf = .ok () := by
  rw [checkLeavesWith] at h
  split at h
  · split_ifs at h with hempty
    obtain rfl : excess = [] := List.isEmpty_iff.mp hempty
    cases hd
  · rename_i commitment hcommitment
    split_ifs at h
    rw [hd] at h
    obtain ⟨_, hdecode, h⟩ := Except.bind_eq_ok.mp h
    cases hdecode
    obtain ⟨_, hroot, h⟩ := Except.bind_eq_ok.mp h
    obtain ⟨split, hsplit, h⟩ := Except.bind_eq_ok.mp h
    exact ⟨commitment, split, (Option.filter_eq_some_iff.mp hcommitment).1, hroot, hsplit,
      checkEach_eq_ok.mp h⟩

/-- A client and its pool agree on token leaves.  The leaves a client builds from the pool's
plan, for a set of tokens that take splits and that the pool knows, pass the pool's check (or
the root they make is 32 zero bytes, which stand for no leaf).  And whatever leaves the pool
accepts are those of output 0's root, each of a token it knows that takes splits, and each pays
the miner's script with the slots of the pool's donation and fee. -/
theorem leaves_agree (known : Hash → Option MergeToken) (rule : PayoutRule) :
    (∀ (t : BchTemplate) (plan : JdPlan), t.jd = some plan → t.p2pool = none →
      plan.scripts = rule.allocatedOutputs.1.map Prod.snd → plan.rates = rule.allocatedOutputs.2 →
      ∀ (network : MiningNetwork) (entries : List SetEntry) (serial : UInt64) (base : TokenSet),
        TokenSet.new network entries serial = .ok base →
      ∀ choices, t.tokens = some (base.addThreads choices) →
      (∀ e ∈ base.entries, e.token.split = true ∧
        ∃ token, known e.token.category = some token ∧ token.split = true) →
      ∀ aux outputs, t.declaredAux = .ok (some aux) → t.declaredOutputs = .ok outputs →
        checkLeavesWith known rule outputs (Disclosure.fromJob aux).encode = .ok () ∨
          aux.commitment.root = ByteVec.zero 32) ∧
    ∀ outputs excess, checkLeavesWith known rule outputs excess = .ok () →
      ∀ d, Disclosure.decode excess = .ok d → ∃ commitment split,
        (outputs.head?.bind fun o => AuxCommitment.parseScript o.2) = some commitment ∧
        d.checkRoot commitment = .ok () ∧ rule.split = .ok split ∧
        ∀ leaf ∈ d.leaves, (∃ token, known leaf.leaf.category = some token ∧ token.split = true) ∧
          leaf.leaf.payoutHash = doubleSha256 rule.miner ∧ leaf.split = split ∧
          leaf.leaf.ext = split.ext := by
  refine ⟨?_, ?_⟩
  · intro t plan hplan hprepared hscripts hrates network entries serial base hnew choices htokens
      hknown aux outputs haux houtputs
    obtain ⟨split, hsplit, hbuild⟩ := declaredAux_allocated hplan htokens hscripts hrates haux
    by_cases hroot : aux.commitment.root = ByteVec.zero 32
    · exact .inr hroot
    · have hentries := TokenSet.entries_addThreads base choices
      refine .inl (checkLeavesWith_fromJob (TokenSet.valid_addThreads (TokenSet.valid_new hnew)
        choices) ?_ ?_ hsplit hbuild (head?_declaredOutputs hprepared haux houtputs) hroot)
      · rw [hentries]
        exact TokenSet.entries_ne_nil hnew
      · rwa [hentries]
  · intro outputs excess h d hd
    obtain ⟨commitment, split, hcommitment, hroot, hsplit, hleaves⟩ := checkLeavesWith_eq_ok h hd
    refine ⟨commitment, split, hcommitment, hroot, hsplit, fun leaf hleaf => ?_⟩
    obtain ⟨hknown, hpayout, hleafSplit⟩ := checkLeaf_eq_ok.mp (hleaves leaf hleaf)
    exact ⟨hknown, hpayout, hleafSplit, by rw [← ext_of_decode hd leaf hleaf, hleafSplit]⟩

section Sample

omit [Hasher]

/-- A pool's rule: 1.5% donated, a fee of 1%. -/
def sampleRule : PayoutRule := ⟨[0x51], some ([0x52], 150), some ([0x53], 100)⟩

/-- What a client read off that pool's answer. -/
def samplePlan : JdPlan :=
  { serial := 1
    upstreamPrefix := []
    pad := []
    compact := false
    scripts := [[0x51], [0x53], [0x52]]
    rates := ⟨150, 100, some 2, some 1⟩
    poolTarget := ByteVec.zero 32
    p2pool := none
    fullTemplate := true }

/-- The test token alone. -/
def sampleTokens : TokenSet := ⟨[⟨testToken, sampleState⟩], ⟨0, 0, [0]⟩, sampleState.target, 1, [], []⟩

/-- The client's template with it. -/
def sampleTemplate : BchTemplate :=
  { BchTemplate.sample with
    tokens := some sampleTokens
    jd := some samplePlan
    tokens_fit := by
      rintro set h
      cases h
      decide }

theorem leaves_agree_sample :
    let _ : Hasher := Hasher.fips
    TokenSet.new .chipnet [⟨testToken, sampleState⟩] 1 = .ok sampleTokens ∧
    ∃ aux outputs, sampleTemplate.declaredAux = .ok (some aux) ∧
      sampleTemplate.declaredOutputs = .ok outputs ∧
      (checkLeavesWith (known .chipnet) sampleRule outputs (Disclosure.fromJob aux).encode = .ok () ∨
        aux.commitment.root = ByteVec.zero 32) := by
  intro _
  have hnew : TokenSet.new .chipnet [⟨testToken, sampleState⟩] 1 = .ok sampleTokens := by
    decide +kernel
  have haux : (sampleTemplate.declaredAux.toOption.bind id).isSome = true := by decide +kernel
  have houtputs : sampleTemplate.declaredOutputs.toOption.isSome = true := by decide +kernel
  have hknown : ∀ e ∈ sampleTokens.entries, e.token.split = true ∧
      ∃ token, known .chipnet e.token.category = some token ∧ token.split = true := by
    intro e he
    obtain rfl : e = ⟨testToken, sampleState⟩ := List.mem_singleton.mp he
    exact ⟨rfl, testToken, by decide +kernel, rfl⟩
  refine ⟨hnew, ?_⟩
  cases haux' : sampleTemplate.declaredAux with
  | error e =>
    rw [haux'] at haux
    cases haux
  | ok aux =>
    cases aux with
    | none =>
      rw [haux'] at haux
      cases haux
    | some aux =>
      cases houtputs' : sampleTemplate.declaredOutputs with
      | error e =>
        rw [houtputs'] at houtputs
        cases houtputs
      | ok outputs =>
        exact ⟨aux, outputs, rfl, rfl, (leaves_agree (known .chipnet) sampleRule).1 sampleTemplate
          samplePlan rfl rfl rfl rfl .chipnet _ 1 sampleTokens hnew [] rfl hknown aux outputs haux'
          houtputs'⟩

end Sample

end PayoutRule

end Pickaxe.Jd
