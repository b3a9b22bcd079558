/-
# The pool's own jobs pass its checks

The scripts a server works out for a job decide what its leaves bind (`leafTerms`), and the
audit works out from the same scripts whom those leaves may pay.  The coinbases devices hash are
built around the job's commitment, and the own-root check looks for it in their bytes.  So no job
the server can build loses its tokens (`own_jobs_keep_tokens`).
-/
import Pickaxe.Channel.Run
import Pickaxe.Merge.Verify

namespace Pickaxe

open Lib Merge

/-! ## What leaves bind -/

namespace Merge

variable [Hasher]

lemma Slot.new_eq_ok {bps : UInt16} {script : Bytes} {slot : Slot} (h : Slot.new bps script = .ok slot) :
    slot.isEmpty = true ∨ slot.scriptHash = doubleSha256 script := by
  unfold Slot.new at h
  split_ifs at h
  · cases h
    exact .inl rfl
  · exact .inr (Slot.fromHash_eq_ok h).2

/-- A slot that pays somebody pays `script`. -/
def Slot.Names (slot : Slot) (script : Bytes) : Prop :=
  slot.isEmpty = true ∨ slot.scriptHash = doubleSha256 script

/-- What an entry's leaf binds, by the terms of its job. -/
lemma AuxJob.mem_entries_build {set : TokenSet} {terms : LeafTerms} {item : AuxEntry}
    (h : item ∈ (AuxJob.build set terms).entries) :
    item.split = (AuxJob.termsOf terms item.token).2 ∧
      item.leaf = Leaf.new item.token.category item.leaf.lockHash item.leaf.stateHash
        (AuxJob.termsOf terms item.token).1 item.leaf.targetBits item.split.ext := by
  obtain ⟨p, -, rfl⟩ := List.mem_map.mp h
  exact ⟨rfl, rfl⟩

end Merge

namespace Payout

variable [Hasher]

/-- Whom a job's leaves pay: without a split the miner, the donation or the operator, with one the
miner, and its slots the donation and the operator. -/
structure LeafTermsOf (scripts : List Bytes) (terms : LeafTerms) : Prop where
  payout : if terms.split.isNone then
      terms.payout = scripts.getD 0 [] ∨ terms.payout = scripts.getD 1 [] ∨
        scripts[2]? = some terms.payout
    else terms.payout = scripts.getD 0 []
  plain : terms.plainPayout = scripts.getD 0 [] ∨ terms.plainPayout = scripts.getD 1 [] ∨
    scripts[2]? = some terms.plainPayout
  donation : terms.split.donation.Names (scripts.getD 1 [])
  fee : terms.split.fee.isEmpty = true ∨
    ∃ operator, scripts[2]? = some operator ∧ terms.split.fee.scriptHash = doubleSha256 operator

omit [Hasher] in
/-- What a token without split support pays. -/
def plainPayout (scripts : List Bytes) (policy : BchPayout) : Bytes :=
  if policy.donationWork ∨ policy.tokenDonationWork = some true then scripts.getD 1 []
  else match scripts[2]? with
    | some operator =>
      if policy.feeWork ∨ policy.tokenFeeWork = some true then operator else scripts.getD 0 []
    | none => scripts.getD 0 []

omit [Hasher] in
lemma plainPayout_cases (scripts : List Bytes) (policy : BchPayout) :
    plainPayout scripts policy = scripts.getD 0 [] ∨ plainPayout scripts policy = scripts.getD 1 [] ∨
      scripts[2]? = some (plainPayout scripts policy) := by
  unfold plainPayout
  split_ifs
  · exact .inr (.inl rfl)
  · cases scripts[2]? with
    | none => exact .inl rfl
    | some operator => exact .inr (.inr rfl)
  · cases scripts[2]? with
    | none => exact .inl rfl
    | some operator => exact .inl rfl

/-- The fee slot of a public pool. -/
def feeSlot (fee : Option PoolFee) (operator : Option Bytes) : Except String Slot :=
  match fee, operator with
  | some fee, some operator =>
    (Slot.new (UInt16.ofNat fee.rewardBps) operator).mapError SplitError.display
  | _, _ => .ok Slot.empty

/-- What a token with split support pays, and its split. -/
def splitPayout (scripts : List Bytes) (policy : BchPayout) : Except String (Bytes × Split) :=
  if policy.donationWork then .ok (scripts.getD 1 [], Split.none)
  else match policy.feeWork, scripts[2]? with
    | true, some operator => .ok (operator, Split.none)
    | _, _ => do
      let donation ← (Slot.new (UInt16.ofNat policy.donation.rewardBps)
        (scripts.getD 1 [])).mapError SplitError.display
      let fee ← feeSlot policy.fee scripts[2]?
      return (scripts.getD 0 [], ⟨donation, fee⟩)

lemma leafTerms_eq (scripts : List Bytes) (policy : BchPayout) : leafTerms scripts policy =
    (splitPayout scripts policy).map fun t => ⟨t.1, t.2, plainPayout scripts policy⟩ := by
  unfold splitPayout leafTerms plainPayout
  simp only
  generalize (if policy.donationWork = true ∨ policy.tokenDonationWork = some true then
    scripts.getD 1 [] else match scripts[2]? with
      | some operator =>
        if policy.feeWork = true ∨ policy.tokenFeeWork = some true then operator
        else scripts.getD 0 []
      | none => scripts.getD 0 []) = plain
  split_ifs
  · rfl
  · cases (Slot.new (UInt16.ofNat policy.donation.rewardBps) (scripts.getD 1 [])).mapError
      SplitError.display with
    | error e => cases policy.feeWork <;> cases scripts[2]? <;> rfl
    | ok donation =>
      cases policy.fee with
      | none => cases policy.feeWork <;> cases scripts[2]? <;> rfl
      | some fee =>
        cases scripts[2]? with
        | none => cases policy.feeWork <;> rfl
        | some operator =>
          cases policy.feeWork with
          | true => rfl
          | false =>
            show (Except.mapError _ (Slot.new (UInt16.ofNat fee.rewardBps) operator) >>= _) =
              Except.map _ (Except.mapError _ (Slot.new (UInt16.ofNat fee.rewardBps) operator) >>= _)
            cases Slot.new (UInt16.ofNat fee.rewardBps) operator <;> rfl

/-- Work jobs pay their recipient whole, other jobs the miner with the slots of the policy. -/
lemma leafTerms_eq_ok {scripts : List Bytes} {policy : BchPayout} {terms : LeafTerms}
    (h : leafTerms scripts policy = .ok terms) : LeafTermsOf scripts terms := by
  have hplain := plainPayout_cases scripts policy
  rw [leafTerms_eq] at h
  obtain ⟨⟨payout, split⟩, hsplit, rfl⟩ := Except.map_eq_ok.mp h
  unfold splitPayout at hsplit
  split_ifs at hsplit
  · cases hsplit
    exact ⟨.inr (.inl rfl), hplain, .inl rfl, .inl rfl⟩
  · split at hsplit
    · rename_i operator _ hoperator
      cases hsplit
      exact ⟨.inr (.inr hoperator), hplain, .inl rfl, .inl rfl⟩
    · obtain ⟨donation, hdonation, hsplit⟩ := Except.bind_eq_ok.mp hsplit
      obtain ⟨fee, hfee, hsplit⟩ := Except.bind_eq_ok.mp hsplit
      cases hsplit
      refine ⟨?_, hplain, Slot.new_eq_ok (Except.mapError_eq_ok.mp hdonation), ?_⟩
      · split_ifs
        · exact .inl rfl
        · rfl
      · unfold feeSlot at hfee
        split at hfee
        · rename_i operator _ hoperator
          rcases Slot.new_eq_ok (Except.mapError_eq_ok.mp hfee) with hempty | hhash
          · exact .inl hempty
          · exact .inr ⟨operator, hoperator, hhash⟩
        · cases hfee
          exact .inl rfl

/-- A slot for a rate of at most the whole, to a script whose hash is not zero, can be made. -/
lemma exists_slot {rate : ℕ} (hrate : rate ≤ 10000) {script : Bytes}
    (hscript : doubleSha256 script ≠ ByteVec.zero 32) :
    ∃ slot, (Slot.new (UInt16.ofNat rate) script).mapError SplitError.display = .ok slot := by
  have hbps : (UInt16.ofNat rate).toNat = rate :=
    UInt16.toNat_ofNat_of_lt' (by rw [UInt16.size]; omega)
  unfold Slot.new Slot.fromHash
  split_ifs with hzero hlarge hhash hstray
  · exact ⟨_, rfl⟩
  · rw [hbps] at hlarge
    exact absurd hrate (Nat.not_le.mpr hlarge)
  · exact absurd hhash.2 hscript
  · exact absurd hstray.1 hzero
  · exact ⟨_, rfl⟩

/-- Every policy has its terms, as long as no script hashes to zero. -/
lemma exists_leafTerms {scripts : List Bytes} (hlength : 2 ≤ scripts.length)
    (hscripts : ∀ script ∈ scripts, doubleSha256 script ≠ ByteVec.zero 32) (policy : BchPayout) :
    ∃ terms, leafTerms scripts policy = .ok terms := by
  have hdonation : doubleSha256 (scripts.getD 1 []) ≠ ByteVec.zero 32 := by
    refine hscripts _ ?_
    rw [List.getD_eq_getElem _ _ (by omega)]
    exact List.getElem_mem _
  have hsplit : ∃ t, splitPayout scripts policy = .ok t := by
    obtain ⟨donation, hslot⟩ := exists_slot
      (show policy.donation.rewardBps ≤ 10000 from policy.donation.rewardUnits_le 10000) hdonation
    unfold splitPayout
    split_ifs
    · exact ⟨_, rfl⟩
    · split
      · exact ⟨_, rfl⟩
      · have hfee : ∃ slot, feeSlot policy.fee scripts[2]? = .ok slot := by
          unfold feeSlot
          split
          · rename_i fee operator _ hoperator
            exact exists_slot (show fee.rewardBps ≤ 10000 from fee.rewardUnits_le 10000)
              (hscripts operator (List.mem_of_getElem? hoperator))
          · exact ⟨_, rfl⟩
        obtain ⟨fee, hfee⟩ := hfee
        rw [hslot, hfee]
        exact ⟨_, rfl⟩
  obtain ⟨t, ht⟩ := hsplit
  exact ⟨_, by rw [leafTerms_eq, ht]; rfl⟩

end Payout

/-! ## The commitment in the coinbase -/

namespace Merge

/-- The own-root check finds an output right after a well-shaped head. -/
lemma checkOwnRoot_of_head {head : Bytes} (h : checkHead head = .ok ()) (c : AuxCommitment)
    (tail : Bytes) :
    checkOwnRoot (head ++ c.output.bytes ++ tail) c = .ok () := by
  obtain ⟨length, hlength, hlen⟩ := checkHead_eq_ok h
  have hbyte : (head ++ c.output.bytes ++ tail)[41]? = some length := by
    rw [List.append_assoc, List.getElem?_append_left (by omega), hlength]
  have hfront : slice? (head ++ c.output.bytes ++ tail) 0 (47 + length.toNat) = some head := by
    rw [slice?_eq_some]
    refine ⟨Nat.zero_le _, ?_, ?_⟩
    · rw [List.append_assoc, List.length_append]
      omega
    · rw [List.append_assoc]
      exact slice_append (a := []) rfl (by simpa using hlen)
  have hhead : headLen (head ++ c.output.bytes ++ tail) = some (47 + length.toNat) := by
    unfold headLen
    rw [hbyte]
    show (slice? _ 0 (47 + length.toNat) >>= _) = _
    rw [hfront]
    exact Option.bind_eq_some_iff.mpr ⟨head, rfl, by rw [h]⟩
  have houtput : outputZero (head ++ c.output.bytes ++ tail) = some c.output.bytes := by
    unfold outputZero
    rw [hhead]
    show slice? _ _ _ = _
    rw [slice?_eq_some]
    have hwidth : c.output.bytes.length = outputLen := c.output.length_eq
    refine ⟨Nat.le_add_right _ _, ?_, ?_⟩
    · rw [List.length_append, List.length_append]
      omega
    · exact slice_append hlen (by omega)
  rw [checkOwnRoot, houtput]
  exact if_pos rfl

end Merge

namespace BchTemplate

/-- The bytes of a coinbase up to its outputs have the shape every proof starts with. -/
lemma checkHead_beforeScript {script : Bytes} (hscript : script.length ≤ 100) {count : ℕ}
    (hpos : 1 ≤ count) (hcount : count < 253) :
    checkHead (beforeScript script.length ++ script ++ (List.replicate 4 0xff ++ compactSize count)) =
      .ok () := by
  have hlen : compactSize script.length = [UInt8.ofNat script.length] :=
    compactSize_of_lt (by omega)
  have hbyte : (UInt8.ofNat script.length).toNat = script.length :=
    UInt8.toNat_ofNat_of_lt' (by rw [UInt8.size]; omega)
  have hcountByte : (UInt8.ofNat count).toNat = count :=
    UInt8.toNat_ofNat_of_lt' (by rw [UInt8.size]; omega)
  rw [compactSize_of_lt hcount]
  have hbefore : beforeScript script.length =
      leBytes 4 2 ++ nullInput ++ [UInt8.ofNat script.length] := by
    rw [beforeScript, hlen]
    rfl
  set head := beforeScript script.length ++ script ++ (List.replicate 4 0xff ++ [UInt8.ofNat count])
    with hhead
  have hlength : head.length = 47 + script.length := by
    rw [hhead, hbefore]
    simp [nullInput]
    omega
  have h41 : head[41]? = some (UInt8.ofNat script.length) := by
    rw [hhead, hbefore, List.append_assoc, List.append_assoc,
      List.getElem?_append_right (by simp [nullInput])]
    simp [nullInput]
  have hinput : slice head 4 41 = nullInput := by
    rw [hhead, hbefore]
    simp only [List.append_assoc]
    rw [← List.append_assoc (leBytes 4 2)]
    exact slice_append (by simp) (by simp [nullInput])
  have hlast : head.getD (47 + script.length - 1) 0 = UInt8.ofNat count := by
    rw [hhead, ← List.append_assoc, List.getD_eq_getElem?_getD,
      List.getElem?_append_right (by rw [hbefore]; simp [nullInput]; omega)]
    have hzero : 47 + script.length - 1 - (beforeScript script.length ++ script ++
        List.replicate 4 0xff).length = 0 := by
      rw [hbefore]
      simp [nullInput]
      omega
    rw [hzero]
    rfl
  unfold checkHead
  rw [h41]
  simp only
  rw [if_neg]
  rw [hlength, hbyte, hinput, hlast, UInt8.le_iff_toNat_le, UInt8.lt_iff_toNat_lt, hcountByte]
  unfold maxScriptSig
  simp
  omega

variable [Hasher]

/-- A coinbase built with a commitment carries it as output 0. -/
lemma checkOwnRoot_coinbaseWithOutputs {t : BchTemplate} {extranonce : Bytes}
    {outputs : List (ℕ × Bytes)} {c : AuxCommitment} {coinbase : Coinbase}
    (h : t.coinbaseWithOutputs extranonce outputs (some c.output) = .ok coinbase) :
    checkOwnRoot coinbase.bytes c = .ok () := by
  obtain ⟨-, h⟩ := Except.ite_error_eq_ok.mp h
  obtain ⟨hscript, h⟩ := Except.ite_error_eq_ok.mp h
  obtain ⟨hcount, h⟩ := Except.ite_error_eq_ok.mp h
  obtain ⟨_, -, h⟩ := Except.bind_eq_ok.mp h
  cases h
  have hlt : outputCount outputs (some c.output) < 253 := by
    rw [not_and] at hcount
    exact Nat.not_le.mp (hcount rfl)
  have hpos : 1 ≤ outputCount outputs (some c.output) := Nat.le_add_left _ _
  have hhead := checkHead_beforeScript (Nat.not_lt.mp hscript) hpos hlt
  have hok := checkOwnRoot_of_head hhead c (outputs.flatMap outputBytes ++ leBytes 4 0)
  have hbytes : beforeScript (t.coinbaseScript extranonce).length ++ t.coinbaseScript extranonce ++
      afterScript outputs (some c.output) =
      beforeScript (t.coinbaseScript extranonce).length ++ t.coinbaseScript extranonce ++
        (List.replicate 4 0xff ++ compactSize (outputCount outputs (some c.output))) ++
        c.output.bytes ++ (outputs.flatMap outputBytes ++ leBytes 4 0) := by
    simp [afterScript]
  simp only
  rw [hbytes]
  exact hok

/-- So does every coinbase of a template that is no forwarder's. -/
lemma checkOwnRoot_coinbaseWithAux {t : BchTemplate} {network : MiningNetwork}
    {payout : List Char} {operator : Option (List Char)} {extranonce : Bytes} {policy : BchPayout}
    {c : AuxCommitment} {coinbase : Coinbase} (hsafa : t.isSafa = false)
    (h : t.coinbaseWithAux network payout operator extranonce policy (some c.output) =
      .ok coinbase) : checkOwnRoot coinbase.bytes c = .ok () := by
  unfold coinbaseWithAux at h
  obtain ⟨_, -, h⟩ := Except.bind_eq_ok.mp h
  split at h
  · obtain ⟨hnone, -⟩ := Except.ite_error_eq_ok.mp h
    exact absurd rfl hnone
  · rw [hsafa] at h
    obtain ⟨outputs, -, h⟩ := Except.bind_eq_ok.mp h
    exact checkOwnRoot_coinbaseWithOutputs h

end BchTemplate

/-! ## The audit -/

variable [Hasher]

/-- The leaves of a job built on a public pool's own scripts pay whom they may. -/
lemma auditPublic_build {set : TokenSet} {miner donation operator : Bytes} {policy : BchPayout}
    {terms : LeafTerms} (h : Payout.leafTerms [miner, donation, operator] policy = .ok terms) :
    auditPublic (Disclosure.fromJob (AuxJob.build set terms)) miner donation operator = .ok () := by
  have hterms := Payout.leafTerms_eq_ok h
  have hslots : (terms.split.donation.isEmpty = true ∨
      terms.split.donation.scriptHash = doubleSha256 donation) ∧
      (terms.split.fee.isEmpty = true ∨
        terms.split.fee.scriptHash = doubleSha256 operator) := by
    refine ⟨hterms.donation, ?_⟩
    obtain hempty | ⟨script, hscript, hhash⟩ := hterms.fee
    · exact .inl hempty
    · cases hscript
      exact .inr hhash
  have hplain := hterms.plain
  have hpayout := hterms.payout
  simp only [List.getD_cons_zero, List.getD_cons_succ, List.getElem?_cons_succ,
    List.getElem?_cons_zero, Option.some.injEq] at hplain hpayout
  unfold auditPublic
  rw [if_pos]
  rw [List.all_eq_true]
  intro disclosed hdisclosed
  obtain ⟨item, hitem, rfl⟩ := List.mem_map.mp hdisclosed
  obtain ⟨hsplit, hleaf⟩ := AuxJob.mem_entries_build hitem
  have hhash : item.leaf.payoutHash = doubleSha256 (AuxJob.termsOf terms item.token).1 := by
    rw [hleaf]
    rfl
  unfold DisclosedLeaf.paysOnly
  simp only [hhash, hsplit, Bool.and_eq_true, Bool.or_eq_true, beq_iff_eq]
  unfold AuxJob.termsOf
  by_cases htoken : item.token.split = true
  · -- a token with split support
    simp only [htoken, if_true]
    refine ⟨⟨?_, hslots.1⟩, hslots.2⟩
    by_cases hnone : terms.split.isNone = true
    · rw [if_pos hnone] at hpayout ⊢
      rcases hpayout with heq | heq | heq <;> simp [heq]
    · rw [if_neg hnone] at hpayout ⊢
      simp [hpayout]
  · simp only [htoken, Bool.false_eq_true, if_false]
    refine ⟨⟨?_, .inl rfl⟩, .inl rfl⟩
    have hnone : Split.none.isNone = true := rfl
    rw [if_pos hnone]
    rcases hplain with heq | heq | heq <;> simp [heq]

namespace Channel

/-- A public pool's channel mines its own block templates. -/
structure Honest (c : Channel) (template : BchTemplate) : Prop where
  /-- A Job Declaration client's server has no operator. -/
  jd : c.operator.isSome = true → template.jd = none
  /-- ASIC tokens are mined without merge-mined ones. -/
  work : template.isSafa = false

lemma audit_eq_ok {c : Channel} {template : BchTemplate} {policy : BchPayout} {aux : AuxJob}
    (hjd : c.operator.isSome = true → template.jd = none)
    (h : template.auxJob c.network c.payout c.operator policy = .ok (some aux)) :
    c.audit aux = .ok () := by
  unfold audit
  cases hoperator : c.operator with
  | none => rfl
  | some operator =>
    rw [hoperator] at h hjd
    rw [BchTemplate.auxJob, hjd rfl] at h
    cases hset : template.tokens with
    | none =>
      rw [hset] at h
      cases h
    | some set =>
      rw [hset] at h
      obtain ⟨scripts, hscripts, h⟩ := Except.bind_eq_ok.mp h
      obtain ⟨terms, hterms, h⟩ := Except.bind_eq_ok.mp h
      cases h
      have hlength := (Payout.scripts_eq_ok hscripts).2
      rw [Option.isSome_some, if_pos rfl] at hlength
      obtain ⟨miner, donation, fee, rfl⟩ := List.length_eq_three.mp hlength
      simp only [hscripts]
      exact auditPublic_build hterms

/-- Both coinbases of a job are built around its commitment. -/
lemma ownRoot_eq_ok {c : Channel} {random : ℕ → UInt8} {id : UInt32} {template : BchTemplate}
    {policy payout : BchPayout} {aux : AuxJob} {standard : Coinbase} {parts : CoinbaseParts}
    (hsafa : template.isSafa = false)
    (haux : template.auxJob c.network c.payout c.operator policy = .ok (some aux))
    (h : c.coinbases random id template payout (some aux) = .ok (standard, parts)) :
    ownRoot aux standard.bytes parts c.extranoncePrefix c.rolled = .ok () := by
  obtain ⟨set, terms, -, rfl⟩ := BchTemplate.auxJob_eq_some haux
  obtain ⟨standard', hstandard, h⟩ := Except.bind_eq_ok.mp h
  obtain ⟨parts', hparts, h⟩ := Except.bind_eq_ok.mp h
  cases h
  have hrolled : (jobBytes template id ++ (c.extranoncePrefix ++ List.replicate c.rolled 0)).length =
      (jobBytes template id).length + c.extranoncePrefix.length + c.rolled := by
    simp
    omega
  have hrebuilt := (BchTemplate.coinbaseWithAux_of_parts hparts hrolled).2
  refine Except.bind_eq_ok.mpr ⟨(), BchTemplate.checkOwnRoot_coinbaseWithAux hsafa hstandard, ?_⟩
  have hroot := BchTemplate.checkOwnRoot_coinbaseWithAux
    (c := (AuxJob.build set terms).commitment) hsafa hrebuilt
  simpa only [List.append_assoc] using hroot

/-- A job the server can build loses no tokens: on the scripts of a public pool every policy has its
terms (unless one of the scripts hashes to zero) and their job's disclosure passes the audit, and
what an installation puts into its job is the merge-mining its template asked for, which passes
both checks. -/
theorem own_jobs_keep_tokens :
    (∀ (network : MiningNetwork) (miner operator : List Char) (scripts : List Bytes)
      (policy : BchPayout), Payout.scripts network miner (some operator) = .ok scripts →
        ((∀ script ∈ scripts, doubleSha256 script ≠ ByteVec.zero 32) →
          ∃ terms, Payout.leafTerms scripts policy = .ok terms) ∧
        ∀ terms set, Payout.leafTerms scripts policy = .ok terms →
          auditPublic (Disclosure.fromJob (AuxJob.build set terms)) (scripts.getD 0 [])
            (scripts.getD 1 []) (scripts.getD 2 []) = .ok ()) ∧
    ∀ (c d : Channel) (random : ℕ → UInt8) (id : UInt32) (generation : UInt64)
      (template : BchTemplate) (payout : BchPayout) (job : Job), c.Honest template →
      c.installWithPayout random id generation template payout = (.ok job, d) →
        template.auxJob c.network c.payout c.operator job.payout = .ok job.aux ∧
        ∀ aux, job.aux = some aux →
          ownRoot aux job.standardCoinbase.bytes job.parts c.extranoncePrefix c.rolled = .ok () ∧
          c.audit aux = .ok () := by
  refine ⟨fun network miner operator scripts policy hscripts => ?_,
    fun c d random id generation template payout job hhonest h => ?_⟩
  · have hlength := (Payout.scripts_eq_ok hscripts).2
    rw [Option.isSome_some, if_pos rfl] at hlength
    refine ⟨fun hhashes => Payout.exists_leafTerms (by omega) hhashes policy, fun terms set hterms => ?_⟩
    obtain ⟨a, b, e, rfl⟩ := List.length_eq_three.mp hlength
    exact auditPublic_build hterms
  · unfold installWithPayout at h
    simp only at h
    split_ifs at h
    · cases h
    · cases h
    split at h
    · cases h
    rename_i aux haux
    split at h
    · cases h
    rename_i standard parts hcoinbases
    rw [coinbases_refuse] at hcoinbases
    cases h
    have hchecks : ∀ a, aux = some a →
        ownRoot a standard.bytes parts c.extranoncePrefix c.rolled = .ok () ∧
          c.audit a = .ok () := by
      rintro a rfl
      exact ⟨ownRoot_eq_ok hhonest.work haux hcoinbases, audit_eq_ok hhonest.jd haux⟩
    -- so the checks before the job keep its tokens
    have hkept : ((c.refuse template.tokensRefused).checkedAux aux standard parts).1 = aux := by
      cases aux with
      | none => rfl
      | some a =>
        obtain ⟨hroot, haudit⟩ := hchecks a rfl
        have hboth : (do ownRoot a standard.bytes parts c.extranoncePrefix c.rolled; c.audit a) =
            .ok () := Except.bind_eq_ok.mpr ⟨(), hroot, haudit⟩
        rw [refuse_eq]
        show (c.checkedAux (some a) standard parts).1 = _
        simp only [checkedAux, hboth]
    simp only [hkept]
    exact ⟨haux, hchecks⟩

section Sample

omit [Hasher]

/-- A public pool's channel. -/
def samplePublic : Channel := { sample with operator := some (donationAddress .chipnet) }

/-- A template with two tokens. -/
def sampleTokens : BchTemplate :=
  { BchTemplate.sample with
    tokens := some sampleSet
    tokens_fit := fun set h => by
      cases h
      decide }

/-- A job with two leaves, and the terms of its scripts. -/
theorem own_jobs_keep_tokens_sample :
    let _ : Hasher := Hasher.fips
    (∃ scripts terms, Payout.scripts .chipnet (donationAddress .chipnet)
        (some (donationAddress .chipnet)) = .ok scripts ∧
      Payout.leafTerms scripts default = .ok terms ∧
      auditPublic (Disclosure.fromJob (AuxJob.build sampleSet terms)) (scripts.getD 0 [])
        (scripts.getD 1 []) (scripts.getD 2 []) = .ok ()) ∧
    ∃ job d aux,
      samplePublic.installWithPayout (fun _ => 0) 1 1 sampleTokens default = (.ok job, d) ∧
      job.aux = some aux ∧ aux.entries.length = 2 ∧ samplePublic.audit aux = .ok () := by
  intro _
  constructor
  · have hscripts : (Payout.scripts .chipnet (donationAddress .chipnet)
        (some (donationAddress .chipnet))).toOption.any fun scripts =>
          scripts.all fun script => decide (doubleSha256 script ≠ ByteVec.zero 32) := by
      decide +kernel
    cases h : Payout.scripts .chipnet (donationAddress .chipnet)
        (some (donationAddress .chipnet)) with
    | error e =>
      rw [h] at hscripts
      cases hscripts
    | ok scripts =>
      rw [h] at hscripts
      have hhashes : ∀ script ∈ scripts, doubleSha256 script ≠ ByteVec.zero 32 := by
        simpa [Except.toOption] using hscripts
      obtain ⟨hterms, haudit⟩ := own_jobs_keep_tokens.1 _ _ _ _ default h
      obtain ⟨terms, hterms⟩ := hterms hhashes
      exact ⟨scripts, terms, rfl, hterms, haudit terms sampleSet hterms⟩
  · have hhonest : samplePublic.Honest sampleTokens := ⟨fun _ => rfl, rfl⟩
    have haux : (sampleTokens.auxJob samplePublic.network samplePublic.payout samplePublic.operator
        default).toOption.any fun aux => aux.any fun aux => aux.entries.length == 2 := by
      decide +kernel
    have hinstalled : (samplePublic.installWithPayout (fun _ => 0) 1 1 sampleTokens
        default).1.toOption.any fun job => decide (job.payout = default) := by decide +kernel
    rcases h : samplePublic.installWithPayout (fun _ => 0) 1 1 sampleTokens default with ⟨r, d⟩
    rw [h] at hinstalled
    cases r with
    | error e => cases hinstalled
    | ok job =>
      have hpayout : job.payout = default := by simpa [Except.toOption] using hinstalled
      obtain ⟨hkept, hchecks⟩ := own_jobs_keep_tokens.2 _ _ _ _ _ _ _ _ hhonest h
      rw [hpayout] at hkept
      rw [hkept] at haux
      cases hjob : job.aux with
      | none =>
        rw [hjob] at haux
        cases haux
      | some aux =>
        rw [hjob] at haux
        exact ⟨job, d, aux, rfl, hjob, by simpa [Except.toOption] using haux, (hchecks aux hjob).2⟩

end Sample

end Channel

end Pickaxe
