/-
# Where a claim's fields stand

The serialiser writes every length as a compact size, and the layout is a constant with one shift.
Where both amounts take nine bytes they agree: the parent of a claim is cut at fixed places, and
reading it back gives the parts it was made of.
-/
import Pickaxe.Photon.Template

namespace Pickaxe.Photon

open Lib

/-! ## Reading a parent back -/

lemma readCompactUint_compactSize {a r : Bytes} {n : ℕ} (hn : n < 2 ^ 64) :
    readCompactUint (a ++ compactSize n ++ r) a.length = .ok (n, a.length + (compactSize n).length) :=
  readCount_compactSize hn

lemma checkedAdd_of_lt {a b : ℕ} (h : a + b < 2 ^ 64) : checkedAdd a b = some (a + b) := if_pos h

/-- An output behind other bytes. -/
lemma parseOutput_append {a r : Bytes} (bytecode : Bytes) {value : ℕ} (hvalue : value < 2 ^ 64)
    (hlen : a.length + 8 + (compactSize bytecode.length).length + bytecode.length < 2 ^ 64) :
    parseOutput (a ++ leBytes 8 value ++ compactSize bytecode.length ++ bytecode ++ r) a.length =
      .ok (⟨value, bytecode⟩,
        a.length + 8 + (compactSize bytecode.length).length + bytecode.length) := by
  have hfirst : slice? (a ++ leBytes 8 value ++ compactSize bytecode.length ++ bytecode ++ r)
      a.length (a.length + 8) = some (leBytes 8 value) := by
    have h : slice? (a ++ leBytes 8 value ++ (compactSize bytecode.length ++ bytecode ++ r))
        a.length (a.length + 8) = some (leBytes 8 value) := slice?_append rfl (by simp)
    simpa using h
  have hcount : readCompactUint (a ++ leBytes 8 value ++ compactSize bytecode.length ++ bytecode ++ r)
      (a.length + 8) = .ok (bytecode.length, a.length + 8 + (compactSize bytecode.length).length) := by
    have h : readCompactUint ((a ++ leBytes 8 value) ++ compactSize bytecode.length ++ (bytecode ++ r))
        (a ++ leBytes 8 value).length = _ := readCompactUint_compactSize (by omega)
    simpa using h
  have hlast : slice? (a ++ leBytes 8 value ++ compactSize bytecode.length ++ bytecode ++ r)
      (a.length + 8 + (compactSize bytecode.length).length)
      (a.length + 8 + (compactSize bytecode.length).length + bytecode.length) = some bytecode :=
    slice?_append (by simp; omega) rfl
  rw [parseOutput, checkedAdd_of_lt (by omega)]
  simp only [hfirst, hcount]
  refine Except.bind_eq_ok.mpr ⟨_, rfl, ?_⟩
  rw [checkedAdd_of_lt hlen]
  simp only [hlast, fromLe_leBytes_of_lt (hvalue.trans_eq (by norm_num : 2 ^ 64 = 256 ^ 8))]

/-- A parent is read back as its outputs. -/
lemma parseParentOutputs_serializeParent {prev script output0 output1 : Bytes}
    {prevIndex age batonSats : ℕ} (hprev : prev.length = 32) (hsats : batonSats < 2 ^ 64)
    (hlen : (serializeParent prev prevIndex age batonSats script output0 output1).length < 2 ^ 64) :
    parseParentOutputs (serializeParent prev prevIndex age batonSats script output0 output1) =
      .ok (⟨batonSats, output0⟩, ⟨tokenOutputSats, output1⟩) := by
  generalize hraw : serializeParent prev prevIndex age batonSats script output0 output1 = raw at hlen ⊢
  -- the parts before the script, before the outputs, and behind each of them
  obtain ⟨a₁, ha₁⟩ : ∃ a, a = leBytes 4 2 ++ [1] ++ prev ++ leBytes 4 prevIndex := ⟨_, rfl⟩
  obtain ⟨a₂, ha₂⟩ : ∃ a, a = a₁ ++ compactSize script.length ++ script ++ leBytes 4 age := ⟨_, rfl⟩
  obtain ⟨a₃, ha₃⟩ : ∃ a, a = a₂ ++ [2] ++ leBytes 8 batonSats ++ compactSize output0.length ++
    output0 := ⟨_, rfl⟩
  have hlen₁ : a₁.length = 41 := by simp [ha₁, hprev]
  have hlen₂ : a₂.length = 41 + (compactSize script.length).length + script.length + 4 := by
    simp only [ha₂, hlen₁, List.length_append, length_leBytes]
  have hlen₃ : a₃.length = a₂.length + 1 + 8 + (compactSize output0.length).length +
      output0.length := by
    simp only [ha₃, List.length_append, List.length_singleton, length_leBytes]
  have hsplit₃ : raw = a₃ ++ leBytes 8 tokenOutputSats ++ compactSize output1.length ++ output1 ++
      leBytes 4 0 := by
    rw [← hraw, serializeParent, ha₃, ha₂, ha₁]
  have hsplit₂ : raw = a₂ ++ [2] ++ leBytes 8 batonSats ++ compactSize output0.length ++ output0 ++
      (leBytes 8 tokenOutputSats ++ compactSize output1.length ++ output1 ++ leBytes 4 0) := by
    rw [hsplit₃, ha₃]
    simp only [List.append_assoc]
  have hsplit₁ : raw = a₁ ++ compactSize script.length ++ (script ++ leBytes 4 age ++ [2] ++
      leBytes 8 batonSats ++ compactSize output0.length ++ output0 ++
      (leBytes 8 tokenOutputSats ++ compactSize output1.length ++ output1 ++ leBytes 4 0)) := by
    rw [hsplit₂, ha₂]
    simp
  have htotal : raw.length = a₃.length + 8 + (compactSize output1.length).length +
      output1.length + 4 := by
    rw [hsplit₃]
    simp only [List.length_append, length_leBytes]
  have hone : readCompactUint raw 4 = .ok (1, 5) := by
    have h : readCompactUint (leBytes 4 2 ++ compactSize 1 ++ (prev ++ leBytes 4 prevIndex ++
        (compactSize script.length ++ (script ++ leBytes 4 age ++ [2] ++ leBytes 8 batonSats ++
        compactSize output0.length ++ output0 ++ (leBytes 8 tokenOutputSats ++
        compactSize output1.length ++ output1 ++ leBytes 4 0))))) (leBytes 4 2).length = _ :=
      readCompactUint_compactSize (by decide)
    have hwrite : compactSize 1 = [1] := rfl
    rw [hsplit₁, ha₁]
    simpa [hwrite] using h
  have hscript : readCompactUint raw (5 + 36) =
      .ok (script.length, 41 + (compactSize script.length).length) := by
    have h := readCompactUint_compactSize (a := a₁) (r := script ++ leBytes 4 age ++ [2] ++
      leBytes 8 batonSats ++ compactSize output0.length ++ output0 ++
      (leBytes 8 tokenOutputSats ++ compactSize output1.length ++ output1 ++ leBytes 4 0))
      (n := script.length) (by omega)
    rwa [← hsplit₁, hlen₁] at h
  have htwo : readCompactUint raw a₂.length = .ok (2, a₂.length + 1) := by
    have h := readCompactUint_compactSize (a := a₂) (r := leBytes 8 batonSats ++
      compactSize output0.length ++ output0 ++ (leBytes 8 tokenOutputSats ++
      compactSize output1.length ++ output1 ++ leBytes 4 0)) (n := 2) (by decide)
    have hwrite : compactSize 2 = [2] := rfl
    rw [hsplit₂]
    simpa [hwrite] using h
  have hfirst : parseOutput raw (a₂.length + 1) = .ok (⟨batonSats, output0⟩, a₃.length) := by
    have h := parseOutput_append (a := a₂ ++ [2]) (r := leBytes 8 tokenOutputSats ++
      compactSize output1.length ++ output1 ++ leBytes 4 0) output0 hsats
      (by rw [List.length_append, List.length_singleton]; omega)
    rw [hsplit₂, hlen₃]
    simpa using h
  have hsecond : parseOutput raw a₃.length = .ok (⟨tokenOutputSats, output1⟩,
      a₃.length + 8 + (compactSize output1.length).length + output1.length) := by
    rw [hsplit₃]
    exact parseOutput_append _ (by decide) (by omega)
  have hcursor : (checkedAdd (41 + (compactSize script.length).length) script.length).bind
      (checkedAdd · 4) = some a₂.length := by
    rw [checkedAdd_of_lt (by omega), Option.bind_some, checkedAdd_of_lt (by omega), hlen₂]
  have hend : checkedAdd (a₃.length + 8 + (compactSize output1.length).length + output1.length) 4 =
      some raw.length := by
    rw [checkedAdd_of_lt (by omega), htotal]
  refine Except.ite_error_eq_ok.mpr ⟨by omega, Except.bind_eq_ok.mpr ⟨_, hone, ?_⟩⟩
  refine Except.ite_error_eq_ok.mpr ⟨fun h => h rfl, Except.ite_error_eq_ok.mpr ⟨by omega, ?_⟩⟩
  refine Except.bind_eq_ok.mpr ⟨_, hscript, ?_⟩
  dsimp only
  rw [hcursor]
  refine Except.ite_error_eq_ok.mpr ⟨by omega, Except.bind_eq_ok.mpr ⟨_, htwo, ?_⟩⟩
  refine Except.ite_error_eq_ok.mpr ⟨fun h => h rfl, ?_⟩
  refine Except.bind_eq_ok.mpr ⟨_, hfirst, Except.bind_eq_ok.mpr ⟨_, hsecond, ?_⟩⟩
  exact Except.ite_error_eq_ok.mpr ⟨fun h => h hend, rfl⟩

/-! ## The next baton -/

lemma readCanonicalCompactUint_compactSize {a r : Bytes} {n : ℕ} (hn : n < 2 ^ 64) :
    readCanonicalCompactUint (a ++ compactSize n ++ r) a.length =
      .ok (n, a.length + (compactSize n).length) := by
  refine Except.bind_eq_ok.mpr ⟨_, readCompactUint_compactSize hn, ?_⟩
  exact Except.ite_error_eq_ok.mpr ⟨fun h => h (slice?_append rfl rfl), rfl⟩

section Output

variable {d : PhotonDeployment} {category commitment covenantLock : Bytes} {amount : ℕ}

variable (covenantLock) in
/-- The length and the amount of a baton's output, with what stands around them. -/
lemma batonOutput_reads (hcategory : category.length = 32) (hcommitment : commitment.length = 100)
    (hamount : amount < 2 ^ 64) :
    readCanonicalCompactUint (batonOutput category commitment (compactUint amount) covenantLock) 34 =
        .ok (100, 35) ∧
      slice? (batonOutput category commitment (compactUint amount) covenantLock) 35 135 =
        some commitment ∧
      readCanonicalCompactUint (batonOutput category commitment (compactUint amount) covenantLock) 135 =
        .ok (amount, 135 + (compactSize amount).length) := by
  have hhead : ([0xef] ++ category.reverse ++ [0x71] : Bytes).length = 34 := by
    simp [hcategory]
  have hcount : compactSize 100 = [100] := rfl
  refine ⟨?_, ?_, ?_⟩
  · have h := readCanonicalCompactUint_compactSize (a := [0xef] ++ category.reverse ++ [0x71])
      (r := commitment ++ compactUint amount ++ covenantLock) (n := 100) (by decide)
    rw [hhead] at h
    rw [batonOutput, hcommitment]
    simpa [hcount] using h
  · rw [batonOutput, List.append_assoc]
    refine slice?_append ?_ (by rw [hcommitment])
    rw [hcommitment, List.length_append, hhead]
    rfl
  · have h := readCanonicalCompactUint_compactSize
      (a := [0xef] ++ category.reverse ++ [0x71] ++ compactUint commitment.length ++ commitment)
      (r := covenantLock) hamount
    have hlen : ([0xef] ++ category.reverse ++ [0x71] ++ compactUint commitment.length ++
        commitment : Bytes).length = 135 := by
      rw [List.length_append, List.length_append, hhead, hcommitment]
      rfl
    rwa [hlen] at h

/-- The output of a baton passes the deployment's check. -/
lemma validateDeploymentBatonToken_batonOutput
    (hcategory : Text.hexDecode d.categoryHex.toList = some category)
    (hlock : Text.hexDecode d.covenantLockHex.toList = some covenantLock)
    (hlenCategory : category.length = 32) (hlenCommitment : commitment.length = 100)
    (hamount : amount < 2 ^ 64) :
    validateDeploymentBatonToken d (batonOutput category commitment (compactUint amount) covenantLock) =
      .ok () := by
  obtain ⟨hcount, hcommitment, hread⟩ := batonOutput_reads covenantLock
    hlenCategory hlenCommitment hamount
  have hlong : 135 ≤ (batonOutput category commitment (compactUint amount) covenantLock).length :=
    (slice?_eq_some.mp hcommitment).2.1
  have hfirst : slice? (batonOutput category commitment (compactUint amount) covenantLock) 1 33 =
      some category.reverse := by
    have h : slice? ([0xef] ++ category.reverse ++ ([0x71] ++ compactUint commitment.length ++
        commitment ++ compactUint amount ++ covenantLock)) 1 33 = some category.reverse :=
      slice?_append rfl (by rw [List.length_reverse, hlenCategory])
    simpa [batonOutput] using h
  have hmarker : (batonOutput category commitment (compactUint amount) covenantLock)[33]? =
      some 0x71 := by
    have h : ((0xef :: category.reverse) ++ 0x71 :: (compactUint commitment.length ++
        commitment ++ compactUint amount ++ covenantLock))[(0xef :: category.reverse).length]? =
        some 0x71 := by simp
    rw [List.length_cons, List.length_reverse, hlenCategory] at h
    simpa [batonOutput] using h
  have hdrop : (batonOutput category commitment (compactUint amount) covenantLock).drop
      (135 + (compactSize amount).length) = covenantLock := by
    rw [batonOutput]
    refine List.drop_left' ?_
    simp only [List.length_append, List.length_reverse, List.length_singleton, hlenCategory,
      hlenCommitment]
    rfl
  rw [validateDeploymentBatonToken, hcategory, hlock]
  refine Except.ite_error_eq_ok.mpr ⟨?_, Except.ite_error_eq_ok.mpr ⟨fun h => h hmarker, ?_⟩⟩
  · rintro (h | h)
    · exact h rfl
    · exact h hfirst
  refine Except.bind_eq_ok.mpr ⟨_, hcount, Except.ite_error_eq_ok.mpr ⟨by decide, ?_⟩⟩
  rw [checkedAdd_of_lt (by decide)]
  refine Except.ite_error_eq_ok.mpr ⟨by omega, Except.bind_eq_ok.mpr ⟨_, hread, ?_⟩⟩
  exact Except.ite_error_eq_ok.mpr ⟨fun h => h hdrop, rfl⟩

/-- What is read of the baton a parent leaves. -/
lemma successorBaton_serializeParent {prev script output1 : Bytes} {prevIndex age batonSats : ℕ}
    (hcategory : Text.hexDecode d.categoryHex.toList = some category)
    (hlock : Text.hexDecode d.covenantLockHex.toList = some covenantLock)
    (hlenCategory : category.length = 32) (hlenCommitment : commitment.length = 100)
    (hamount : amount < 2 ^ 64) (hprev : prev.length = 32) (hsats : batonSats < 2 ^ 64)
    (hlen : (serializeParent prev prevIndex age batonSats script
      (batonOutput category commitment (compactUint amount) covenantLock) output1).length < 2 ^ 64) :
    successorBaton (serializeParent prev prevIndex age batonSats script
      (batonOutput category commitment (compactUint amount) covenantLock) output1) d =
      .ok ⟨batonSats, Text.hexEncode commitment, amount⟩ := by
  obtain ⟨hcount, hcommitment, hread⟩ := batonOutput_reads covenantLock
    hlenCategory hlenCommitment hamount
  refine Except.bind_eq_ok.mpr ⟨_, parseParentOutputs_serializeParent hprev hsats hlen, ?_⟩
  refine Except.bind_eq_ok.mpr ⟨_, validateDeploymentBatonToken_batonOutput hcategory hlock
    hlenCategory hlenCommitment hamount, Except.bind_eq_ok.mpr ⟨_, hcount, ?_⟩⟩
  dsimp only
  rw [checkedAdd_of_lt (by decide)]
  simp only [Nat.reduceAdd, hcommitment]
  exact Except.bind_eq_ok.mpr ⟨_, hread, rfl⟩

end Output

/-! ## What was built -/

lemma parseHex_eq_ok {text : List Char} {bytes : Bytes} :
    parseHex text = .ok bytes ↔ Text.hexDecode (Text.trim text) = some bytes := decodeHex_eq_ok

lemma compactTokenAmount_eq_ok {amount : ℕ} {bytes : Bytes} :
    compactTokenAmount amount = .ok bytes ↔ amount < 2 ^ 64 ∧ bytes = compactUint amount := by
  rw [compactTokenAmount, Except.ite_error_eq_ok, not_le, Except.ok.injEq, eq_comm]

/-- The parts of a parent that was built, with what the builder saw to. -/
structure Built [Hasher] (p : TemplateParams) (d : Deployment) (tx : Bytes) where
  layout : PhotonLayout
  (publicKey target signature agePush redeemScript category covenantLock prev : Bytes)
  (maxDecrease decrease : ℕ)
  layout_eq : PhotonLayout.forAgeWithDeployment p.age d = .ok layout
  target_eq : parseHex p.targetHex = .ok target
  signature_eq : parseHex p.signatureHex = .ok signature
  category_eq : Text.hexDecode d.categoryHex.toList = some category
  covenantLock_eq : Text.hexDecode d.covenantLockHex.toList = some covenantLock
  budget_eq : d.singleInputMaxBatonDecreaseSats = .ok maxDecrease
  decrease_le : decrease ≤ maxDecrease
  decrease_le_value : decrease ≤ p.contractValueSats
  reward_le : p.rewardAmount ≤ p.contractTokenAmount
  reward_lt : p.rewardAmount < 2 ^ 64
  remaining_lt : p.contractTokenAmount - p.rewardAmount < 2 ^ 64
  length_target : target.length = 32
  length_signature : signature.length = 64
  length_category : category.length = 32
  length_covenantLock : covenantLock.length = 35
  length_payout : p.payoutLocking.length = 25
  length_prev : prev.length = 32
  tx_eq : tx = serializeParent prev p.prevIndex p.age (p.contractValueSats - decrease)
    (inputScript publicKey agePush redeemScript)
    (batonOutput category (commitmentOf p.nonce target signature)
      (compactUint (p.contractTokenAmount - p.rewardAmount)) covenantLock)
    (rewardOutput category (compactUint p.rewardAmount) p.payoutLocking)
  length_eq : tx.length = layout.txBytes

section Built

variable [Hasher] {p : TemplateParams} {d : Deployment} {tx : Bytes}

lemma exists_built (h : buildPhotonTemplateBytesForDeployment p d = .ok tx) :
    Nonempty (Built p d tx) := by
  obtain ⟨_, hverify, h⟩ := Except.bind_eq_ok.mp h
  obtain ⟨layout, hlayout, h⟩ := Except.bind_eq_ok.mp h
  obtain ⟨publicKey, -, h⟩ := Except.bind_eq_ok.mp h
  obtain ⟨target, htarget, h⟩ := Except.bind_eq_ok.mp h
  obtain ⟨signature, hsignature, h⟩ := Except.bind_eq_ok.mp h
  obtain ⟨redeemScript, -, h⟩ := Except.bind_eq_ok.mp h
  obtain ⟨category, hcategory, h⟩ := Except.bind_eq_ok.mp h
  obtain ⟨covenantLock, hlock, h⟩ := Except.bind_eq_ok.mp h
  obtain ⟨-, h⟩ := Except.ite_error_eq_ok.mp h
  obtain ⟨hlen₁, h⟩ := Except.ite_error_eq_ok.mp h
  obtain ⟨hlen₂, h⟩ := Except.ite_error_eq_ok.mp h
  obtain ⟨hlen₃, h⟩ := Except.ite_error_eq_ok.mp h
  obtain ⟨agePush, -, h⟩ := Except.bind_eq_ok.mp h
  obtain ⟨-, h⟩ := Except.ite_error_eq_ok.mp h
  obtain ⟨hreward, h⟩ := Except.ite_error_eq_ok.mp h
  obtain ⟨remaining, hremaining, h⟩ := Except.bind_eq_ok.mp h
  obtain ⟨reward, hrewardBytes, h⟩ := Except.bind_eq_ok.mp h
  obtain ⟨prevHash, -, h⟩ := Except.bind_eq_ok.mp h
  obtain ⟨hprev, h⟩ := Except.ite_error_eq_ok.mp h
  obtain ⟨maxDecrease, hbudget, h⟩ := Except.bind_eq_ok.mp h
  obtain ⟨decrease, -, h⟩ := Except.bind_eq_ok.mp h
  obtain ⟨hdecrease, h⟩ := Except.ite_error_eq_ok.mp h
  obtain ⟨hvalue, h⟩ := Except.ite_error_eq_ok.mp h
  obtain ⟨hlen, h⟩ := Except.ite_error_eq_ok.mp h
  obtain ⟨hremainingLt, rfl⟩ := compactTokenAmount_eq_ok.mp hremaining
  obtain ⟨hrewardLt, rfl⟩ := compactTokenAmount_eq_ok.mp hrewardBytes
  obtain rfl := Except.ok.inj h
  -- the texts of a deployment that verifies have no white space around them
  obtain ⟨_, lock', category', -, hlock', hcategory', hbytes⟩ := Deployment.verify_eq_ok.mp hverify
  rw [parseHex_eq_ok, Text.trim_of_hexDecode hcategory', hcategory', Option.some.injEq] at hcategory
  rw [parseHex_eq_ok, Text.trim_of_hexDecode hlock', hlock', Option.some.injEq] at hlock
  subst hcategory hlock
  obtain ⟨hlenCategory, hlenLock⟩ := Deployment.lengths hbytes
  exact ⟨{
    layout := layout, publicKey := publicKey, target := target, signature := signature
    agePush := agePush, redeemScript := redeemScript, category := category'
    covenantLock := lock', prev := prevHash.reverse, maxDecrease := maxDecrease
    decrease := decrease, layout_eq := hlayout, target_eq := htarget
    signature_eq := hsignature, category_eq := hcategory', covenantLock_eq := hlock'
    budget_eq := hbudget, decrease_le := not_lt.mp hdecrease, decrease_le_value := not_lt.mp hvalue
    reward_le := not_lt.mp hreward, reward_lt := hrewardLt, remaining_lt := hremainingLt
    length_target := not_not.mp hlen₁, length_signature := not_not.mp hlen₂
    length_category := hlenCategory, length_covenantLock := hlenLock
    length_payout := not_not.mp hlen₃
    length_prev := by rw [List.length_reverse]; exact not_not.mp hprev
    tx_eq := rfl, length_eq := not_not.mp hlen }⟩

end Built

/-! ## A parent cut at its fields -/

/-- A parent of what stands around its commitment and its two amounts. -/
def cutParent (before commitment between after : Bytes) (baton reward : ℕ) : Bytes :=
  before ++ commitment ++ [0xff] ++ leBytes 8 baton ++ between ++ [0xff] ++ leBytes 8 reward ++ after

/-- The amounts of a parent moved, where its layout says they are. -/
def writeAmounts (parent : Bytes) (layout : PhotonLayout) (baton reward : ℕ) : Bytes :=
  parent.take (491 + layout.shift) ++ leBytes 8 baton ++
    slice parent (499 + layout.shift) (578 + layout.shift) ++ leBytes 8 reward ++
    parent.drop (586 + layout.shift)

/-- Whether two amounts stand behind their markers, where the layout says they are. -/
structure AmountsAt (parent : Bytes) (layout : PhotonLayout) (baton reward : ℕ) : Prop where
  batonMarker : parent.getD (490 + layout.shift) 0 = 0xff
  baton_eq : amountAt parent (491 + layout.shift) = baton
  rewardMarker : parent.getD (577 + layout.shift) 0 = 0xff
  reward_eq : amountAt parent (578 + layout.shift) = reward

section Cut

variable {before commitment between after : Bytes} {layout : PhotonLayout} {baton reward : ℕ}

/-- The lengths of the parts, as a layout has them. -/
structure CutLengths (layout : PhotonLayout) (before commitment between after : Bytes) : Prop where
  before : before.length = 390 + layout.shift
  commitment : commitment.length = 100
  between : between.length = 78
  after : after.length = 29

lemma length_cutParent (h : CutLengths layout before commitment between after) :
    (cutParent before commitment between after baton reward).length = layout.txBytes := by
  simp only [cutParent, List.length_append, length_leBytes, List.length_singleton, h.before,
    h.commitment, h.between, h.after, PhotonLayout.txBytes]
  omega

lemma getD_append_cons {a r : Bytes} {b : UInt8} {i : ℕ} (h : a.length = i) :
    (a ++ b :: r).getD i 0 = b := by
  subst h
  simp

lemma amountsAt_cutParent (h : CutLengths layout before commitment between after)
    (hbaton : baton < 2 ^ 64) (hreward : reward < 2 ^ 64) :
    AmountsAt (cutParent before commitment between after baton reward) layout baton reward where
  batonMarker := by
    have hlen : (before ++ commitment).length = 490 + layout.shift := by
      rw [List.length_append, h.before, h.commitment]
      omega
    rw [cutParent]
    simp only [List.append_assoc, List.singleton_append]
    rw [← List.append_assoc]
    exact getD_append_cons hlen
  baton_eq := by
    have hlen : (before ++ commitment ++ [0xff]).length = 491 + layout.shift := by
      simp only [List.length_append, h.before, h.commitment, List.length_singleton]
      omega
    have hslice : slice (cutParent before commitment between after baton reward)
        (491 + layout.shift) (491 + layout.shift + 8) = leBytes 8 baton := by
      rw [cutParent, List.append_assoc, List.append_assoc, List.append_assoc]
      exact slice_append hlen (by rw [length_leBytes])
    rw [amountAt, hslice, fromLe_leBytes_of_lt (hbaton.trans_eq (by norm_num))]
  rewardMarker := by
    have hlen : (before ++ commitment ++ [0xff] ++ leBytes 8 baton ++ between).length =
        577 + layout.shift := by
      simp only [List.length_append, h.before, h.commitment, List.length_singleton, length_leBytes,
        h.between]
      omega
    rw [cutParent, List.append_assoc, List.append_assoc, List.singleton_append]
    exact getD_append_cons hlen
  reward_eq := by
    have hlen : (before ++ commitment ++ [0xff] ++ leBytes 8 baton ++ between ++ [0xff]).length =
        578 + layout.shift := by
      simp only [List.length_append, h.before, h.commitment, List.length_singleton, length_leBytes,
        h.between]
      omega
    have hslice : slice (cutParent before commitment between after baton reward)
        (578 + layout.shift) (578 + layout.shift + 8) = leBytes 8 reward := by
      rw [cutParent]
      exact slice_append hlen (by rw [length_leBytes])
    rw [amountAt, hslice, fromLe_leBytes_of_lt (hreward.trans_eq (by norm_num))]

/-- A part of the commitment stands where the parts before it end. -/
lemma slice?_cutParent {a m r : Bytes} {start stop : ℕ}
    (h : CutLengths layout before commitment between after) (hcommitment : commitment = a ++ m ++ r)
    (hstart : start = 390 + layout.shift + a.length) (hstop : stop = start + m.length) :
    slice? (cutParent before commitment between after baton reward) start stop = some m := by
  have hsplit : cutParent before commitment between after baton reward =
      (before ++ a) ++ m ++ (r ++ [0xff] ++ leBytes 8 baton ++ between ++ [0xff] ++
        leBytes 8 reward ++ after) := by
    simp [cutParent, hcommitment]
  rw [hsplit]
  exact slice?_append (by rw [List.length_append, h.before, hstart]) hstop.symm

/-- Moving the amounts of a parent leaves everything around them. -/
lemma writeAmounts_cutParent (h : CutLengths layout before commitment between after)
    (baton' reward' : ℕ) :
    writeAmounts (cutParent before commitment between after baton reward) layout baton' reward' =
      cutParent before commitment between after baton' reward' := by
  have hhead : (before ++ commitment ++ [0xff]).length = 491 + layout.shift := by
    simp only [List.length_append, h.before, h.commitment, List.length_singleton]
    omega
  have hmiddle : (before ++ commitment ++ [0xff] ++ leBytes 8 baton).length = 499 + layout.shift := by
    rw [List.length_append, hhead, length_leBytes]
    omega
  have htake : (cutParent before commitment between after baton reward).take (491 + layout.shift) =
      before ++ commitment ++ [0xff] := by
    have hsplit : cutParent before commitment between after baton reward =
        (before ++ commitment ++ [0xff]) ++
          (leBytes 8 baton ++ between ++ [0xff] ++ leBytes 8 reward ++ after) := by
      simp [cutParent]
    rw [hsplit, List.take_left' hhead]
  have hslice : slice (cutParent before commitment between after baton reward)
      (499 + layout.shift) (578 + layout.shift) = between ++ [0xff] := by
    have hsplit : cutParent before commitment between after baton reward =
        (before ++ commitment ++ [0xff] ++ leBytes 8 baton) ++ (between ++ [0xff]) ++
          (leBytes 8 reward ++ after) := by
      simp [cutParent]
    rw [hsplit]
    refine slice_append hmiddle ?_
    rw [List.length_append, h.between, List.length_singleton]
    omega
  have hdrop : (cutParent before commitment between after baton reward).drop (586 + layout.shift) =
      after := by
    rw [cutParent]
    refine List.drop_left' ?_
    simp only [List.length_append, hmiddle, h.between, length_leBytes, List.length_singleton]
    omega
  rw [writeAmounts, htake, hslice, hdrop, cutParent]
  simp only [List.append_assoc]

end Cut

/-! ## Moving a reward -/

lemma PhotonLayout.forTxLen_txBytes {layout : PhotonLayout}
    (h : PhotonLayout.gpuShifts.contains layout.shift = true) :
    PhotonLayout.forTxLen layout.txBytes = .ok layout := by
  have hshift : layout.txBytes - 615 = layout.shift := by
    rw [PhotonLayout.txBytes]
    omega
  refine Except.ite_error_eq_ok.mpr ⟨?_, by rw [hshift]⟩
  rw [hshift, h, PhotonLayout.txBytes]
  rintro (hlt | hne)
  · omega
  · cases hne

/-- What a parent has to be for a reward to be read of it. -/
lemma t2ParentRewardAmount_eq_ok {parent : Bytes} {contract base moved : ℕ} :
    t2ParentRewardAmount parent contract base = .ok moved ↔
      ∃ layout baton, PhotonLayout.forTxLen parent.length = .ok layout ∧
        AmountsAt parent layout baton moved ∧ baton + moved = contract ∧ moved ≤ base ∧
        base - moved < 2 ^ 16 ∧ t2RewardAmount contract base (base - moved) = .ok moved := by
  constructor
  · intro h
    obtain ⟨layout, hlayout, h⟩ := Except.bind_eq_ok.mp h
    obtain ⟨hmarkers, h⟩ := Except.ite_error_eq_ok.mp h
    obtain ⟨hsum, h⟩ := Except.ite_error_eq_ok.mp h
    obtain ⟨hle, h⟩ := Except.ite_error_eq_ok.mp h
    obtain ⟨hlt, h⟩ := Except.ite_error_eq_ok.mp h
    obtain ⟨amount, hamount, h⟩ := Except.bind_eq_ok.mp h
    obtain ⟨hmoved, h⟩ := Except.ite_error_eq_ok.mp h
    obtain rfl := Except.ok.inj h
    obtain ⟨hfirst, hsecond⟩ := not_or.mp hmarkers
    rw [not_not.mp hmoved] at hamount
    exact ⟨layout, _, hlayout, ⟨not_not.mp hfirst, rfl, not_not.mp hsecond, rfl⟩, not_not.mp hsum,
      not_lt.mp hle, not_le.mp hlt, hamount⟩
  · rintro ⟨layout, baton, hlayout, ⟨hfirst, rfl, hsecond, rfl⟩, hsum, hle, hlt, hamount⟩
    refine Except.bind_eq_ok.mpr ⟨_, hlayout, Except.ite_error_eq_ok.mpr ⟨?_, ?_⟩⟩
    · rw [not_or]
      exact ⟨not_not.mpr hfirst, not_not.mpr hsecond⟩
    refine Except.ite_error_eq_ok.mpr ⟨not_not.mpr hsum, ?_⟩
    refine Except.ite_error_eq_ok.mpr ⟨not_lt.mpr hle, ?_⟩
    refine Except.ite_error_eq_ok.mpr ⟨not_le.mpr hlt, Except.bind_eq_ok.mpr ⟨_, hamount, ?_⟩⟩
    exact Except.ite_error_eq_ok.mpr ⟨fun h => h rfl, rfl⟩

lemma t2RewardAmount_eq_ok {contract reward j moved : ℕ} :
    t2RewardAmount contract reward j = .ok moved ↔ j ≤ reward ∧ moved = reward - j ∧
      moved ≤ contract ∧ 2 ^ 32 - 1 < moved ∧ 2 ^ 32 - 1 < contract - moved := by
  rw [t2RewardAmount, Except.ite_error_eq_ok, not_lt, Except.map_eq_ok]
  constructor
  · rintro ⟨hle, ⟨⟩, hpreimage, rfl⟩
    obtain ⟨hcontract, hpreimage⟩ := Except.ite_error_eq_ok.mp hpreimage
    obtain ⟨hsmall, -⟩ := Except.ite_error_eq_ok.mp hpreimage
    exact ⟨hle, rfl, by omega⟩
  · rintro ⟨hle, rfl, hcontract, hmoved, hremaining⟩
    refine ⟨hle, (), Except.ite_error_eq_ok.mpr ⟨by omega, ?_⟩, rfl⟩
    exact Except.ite_error_eq_ok.mpr ⟨by omega, rfl⟩

/-- Tokens moved back to the baton in a parent that is cut as its layout says are read back. -/
lemma t2ParentRewardAmount_writeAmounts {before commitment between after : Bytes}
    {layout : PhotonLayout} {contract base j moved : ℕ}
    (h : CutLengths layout before commitment between after)
    (hshift : PhotonLayout.gpuShifts.contains layout.shift = true) (hbase : base ≤ contract)
    (hcontract : contract < 2 ^ 64) (hj : j < 2 ^ 16)
    (hmoved : t2RewardAmount contract base j = .ok moved) :
    t2ParentRewardAmount (writeAmounts
      (cutParent before commitment between after (contract - base) base) layout
      (contract - base + j) (base - j)) contract base = .ok (base - j) := by
  obtain ⟨hle, rfl, hbounds⟩ := t2RewardAmount_eq_ok.mp hmoved
  have hback : base - (base - j) = j := by omega
  rw [writeAmounts_cutParent h]
  refine t2ParentRewardAmount_eq_ok.mpr ⟨layout, contract - base + j, ?_,
    amountsAt_cutParent h (by omega) (by omega), by omega, Nat.sub_le _ _, ?_, ?_⟩
  · rw [length_cutParent h]
    exact PhotonLayout.forTxLen_txBytes hshift
  · rwa [hback]
  · rwa [hback]

/-! ## The layout of what was built -/

lemma PhotonLayout.contains_of_forAgeWithDeployment [Hasher] {age : ℕ} {d : Deployment}
    {layout : PhotonLayout} (h : PhotonLayout.forAgeWithDeployment age d = .ok layout) :
    PhotonLayout.gpuShifts.contains layout.shift = true := by
  obtain ⟨ageLayout, -, h⟩ := Except.bind_eq_ok.mp h
  obtain ⟨_, -, h⟩ := Except.bind_eq_ok.mp h
  -- the length of a long text is not to be computed
  generalize hlen : (Text.trim Deployment.mainnetV0.redeemScriptHex.toList).length / 2 = baseLen
  rw [PhotonLayout.shifted, hlen] at h
  obtain ⟨-, h⟩ := Except.ite_error_eq_ok.mp h
  obtain ⟨hshift, h⟩ := Except.ite_error_eq_ok.mp h
  obtain rfl := Except.ok.inj h
  exact eq_true_of_ne_false hshift

/-- An amount above `u32::MAX` takes nine bytes. -/
lemma compactUint_of_large {amount : ℕ} (h : 2 ^ 32 - 1 < amount) :
    compactUint amount = 0xff :: leBytes 8 amount := by
  have h₁ : ¬amount < 253 := by omega
  have h₂ : ¬amount < 2 ^ 16 := by omega
  have h₃ : ¬amount < 2 ^ 32 := by omega
  simp only [compactUint, compactSize, if_neg h₁, if_neg h₂, if_neg h₃]

namespace Built

variable [Hasher] {p : TemplateParams} {d : Deployment} {tx : Bytes}

/-- The commitment of the parent that was built. -/
def commitment (b : Built p d tx) : Bytes := commitmentOf p.nonce b.target b.signature

lemma length_commitment (b : Built p d tx) : b.commitment.length = 100 := by
  rw [commitment, commitmentOf, List.length_append, List.length_append, length_leBytes,
    b.length_target, b.length_signature]

/-- The parts before the commitment. -/
def before (b : Built p d tx) : Bytes :=
  leBytes 4 2 ++ [1] ++ b.prev ++ leBytes 4 p.prevIndex ++
    compactUint (inputScript b.publicKey b.agePush b.redeemScript).length ++
    inputScript b.publicKey b.agePush b.redeemScript ++ leBytes 4 p.age ++ [2] ++
    leBytes 8 (p.contractValueSats - b.decrease) ++ [179] ++ [0xef] ++ b.category.reverse ++ [0x71] ++
    [100]

/-- The parts between the amounts. -/
def between (b : Built p d tx) : Bytes :=
  b.covenantLock ++ leBytes 8 tokenOutputSats ++ [68] ++ [0xef] ++ b.category.reverse ++ [0x10]

/-- A parent whose amounts take nine bytes is cut at its fields. -/
lemma eq_cutParent (b : Built p d tx) (hreward : 2 ^ 32 - 1 < p.rewardAmount)
    (hremaining : 2 ^ 32 - 1 < p.contractTokenAmount - p.rewardAmount) :
    tx = cutParent b.before b.commitment b.between (p.payoutLocking ++ leBytes 4 0)
      (p.contractTokenAmount - p.rewardAmount) p.rewardAmount := by
  have hcount : compactUint 100 = [100] := rfl
  have hbaton : (batonOutput b.category (commitmentOf p.nonce b.target b.signature)
      (compactUint (p.contractTokenAmount - p.rewardAmount)) b.covenantLock).length = 179 := by
    rw [batonOutput, ← commitment, compactUint_of_large hremaining, length_commitment, hcount]
    simp only [List.length_append, List.length_cons, List.length_nil, List.length_reverse,
      length_leBytes, b.length_category, length_commitment, b.length_covenantLock]
  have hpaid : (rewardOutput b.category (compactUint p.rewardAmount) p.payoutLocking).length = 68 := by
    rw [rewardOutput, compactUint_of_large hreward]
    simp only [List.length_append, List.length_cons, List.length_nil, List.length_reverse,
      length_leBytes, b.length_category, b.length_payout]
  have hbatonCount : compactUint 179 = [179] := rfl
  have hpaidCount : compactUint 68 = [68] := rfl
  refine b.tx_eq.trans ?_
  rw [serializeParent, hbaton, hpaid, hbatonCount, hpaidCount, batonOutput, rewardOutput,
    ← commitment, length_commitment, hcount, compactUint_of_large hremaining,
    compactUint_of_large hreward, cutParent, before, between]
  simp only [List.append_assoc, List.cons_append, List.nil_append]

/-- Its parts have the lengths of its layout: the script's count takes three bytes. -/
lemma cutLengths (b : Built p d tx) (hreward : 2 ^ 32 - 1 < p.rewardAmount)
    (hremaining : 2 ^ 32 - 1 < p.contractTokenAmount - p.rewardAmount) :
    CutLengths b.layout b.before b.commitment b.between (p.payoutLocking ++ leBytes 4 0) := by
  have htotal := (congrArg List.length (b.eq_cutParent hreward hremaining)).symm.trans b.length_eq
  have hbetween : b.between.length = 78 := by
    simp only [between, List.length_append, List.length_cons, List.length_nil, List.length_reverse,
      length_leBytes, b.length_category, b.length_covenantLock]
  have hafter : (p.payoutLocking ++ leBytes 4 0).length = 29 := by
    rw [List.length_append, length_leBytes, b.length_payout]
  refine ⟨?_, b.length_commitment, hbetween, hafter⟩
  rw [cutParent, List.length_append, hafter] at htotal
  simp only [List.length_append, List.length_singleton, length_leBytes, length_commitment, hbetween,
    PhotonLayout.txBytes] at htotal
  omega

lemma length_lt (b : Built p d tx) : tx.length < 2 ^ 64 := by
  have hshift := List.contains_iff_mem.mp (PhotonLayout.contains_of_forAgeWithDeployment b.layout_eq)
  have hlen := b.length_eq
  rw [PhotonLayout.txBytes] at hlen
  simp only [PhotonLayout.gpuShifts, List.mem_cons, List.not_mem_nil, or_false] at hshift
  omega

/-- The parts of the parent's outputs. -/
lemma parseParentOutputs_eq (b : Built p d tx) (hvalue : p.contractValueSats < 2 ^ 64) :
    parseParentOutputs tx =
      .ok (⟨p.contractValueSats - b.decrease, batonOutput b.category b.commitment
        (compactUint (p.contractTokenAmount - p.rewardAmount)) b.covenantLock⟩,
        ⟨tokenOutputSats, rewardOutput b.category (compactUint p.rewardAmount) p.payoutLocking⟩) :=
  (congrArg parseParentOutputs b.tx_eq).trans (parseParentOutputs_serializeParent b.length_prev
    ((Nat.sub_le _ _).trans_lt hvalue) ((congrArg List.length b.tx_eq).symm.trans_lt b.length_lt))

/-- The baton the parent leaves. -/
lemma successorBaton_eq (b : Built p d tx) (hvalue : p.contractValueSats < 2 ^ 64) :
    successorBaton tx d.toPhotonDeployment =
      .ok ⟨p.contractValueSats - b.decrease, Text.hexEncode b.commitment,
        p.contractTokenAmount - p.rewardAmount⟩ :=
  (congrArg (successorBaton · d.toPhotonDeployment) b.tx_eq).trans
    (successorBaton_serializeParent b.category_eq b.covenantLock_eq b.length_category
      b.length_commitment b.remaining_lt b.length_prev ((Nat.sub_le _ _).trans_lt hvalue)
      ((congrArg List.length b.tx_eq).symm.trans_lt b.length_lt))

/-- What stands in the reward's output before its locking bytecode. -/
def rewardToken (b : Built p d tx) : Bytes :=
  0xef :: b.category.reverse ++ 0x10 :: compactUint p.rewardAmount

lemma deploymentTokenPrefix_eq (b : Built p d tx) :
    deploymentTokenPrefix d.toPhotonDeployment p.rewardAmount = .ok b.rewardToken := by
  rw [deploymentTokenPrefix, b.category_eq]
  refine Except.ite_error_eq_ok.mpr ⟨fun h => h b.length_category, ?_⟩
  exact Except.ite_error_eq_ok.mpr ⟨not_le.mpr b.reward_lt, rfl⟩

lemma rewardOutput_eq (b : Built p d tx) :
    rewardOutput b.category (compactUint p.rewardAmount) p.payoutLocking =
      b.rewardToken ++ p.payoutLocking := by
  simp [rewardOutput, rewardToken]

end Built

/-- Where the fields of a claim's parent stand, what its outputs hold, and that a reward moves
within it: a parent is accepted for a moved reward exactly as it was moved. -/
theorem parent_layout [Hasher] {p : TemplateParams} {d : Deployment} {tx : Bytes}
    (h : buildPhotonTemplateBytesForDeployment p d = .ok tx) (hvalue : p.contractValueSats < 2 ^ 64)
    (hreward : 2 ^ 32 - 1 < p.rewardAmount) (hrewardMax : p.rewardAmount ≤ 2 ^ 63 - 1)
    (hremaining : 2 ^ 32 - 1 < p.contractTokenAmount - p.rewardAmount)
    (hremainingMax : p.contractTokenAmount - p.rewardAmount ≤ 2 ^ 63 - 1) :
    ∃ layout target signature maxDecrease batonSats baton token,
      PhotonLayout.forAgeWithDeployment p.age d = .ok layout ∧
      PhotonLayout.forTxLen tx.length = .ok layout ∧
      parseHex p.targetHex = .ok target ∧ parseHex p.signatureHex = .ok signature ∧
      slice? tx layout.nonceOffset (layout.nonceOffset + 4) = some (leBytes 4 p.nonce) ∧
      slice? tx layout.targetOffset (layout.targetOffset + 32) = some target ∧
      slice? tx layout.signatureOffset (layout.signatureOffset + 64) = some signature ∧
      AmountsAt tx layout (p.contractTokenAmount - p.rewardAmount) p.rewardAmount ∧
      p.contractTokenAmount - p.rewardAmount + p.rewardAmount = p.contractTokenAmount ∧
      parseParentOutputs tx =
        .ok (⟨batonSats, baton⟩, ⟨tokenOutputSats, token ++ p.payoutLocking⟩) ∧
      successorBaton tx d.toPhotonDeployment =
        .ok ⟨batonSats, Text.hexEncode (commitmentOf p.nonce target signature),
          p.contractTokenAmount - p.rewardAmount⟩ ∧
      deploymentTokenPrefix d.toPhotonDeployment p.rewardAmount = .ok token ∧
      d.singleInputMaxBatonDecreaseSats = .ok maxDecrease ∧ batonSats ≤ p.contractValueSats ∧
      p.contractValueSats - batonSats ≤ maxDecrease ∧
      (∀ j moved, j ≤ 65535 →
        t2RewardAmount p.contractTokenAmount p.rewardAmount j = .ok moved →
        t2ParentRewardAmount (writeAmounts tx layout
          (p.contractTokenAmount - p.rewardAmount + j) (p.rewardAmount - j))
          p.contractTokenAmount p.rewardAmount = .ok (p.rewardAmount - j)) ∧
      ∀ parent moved,
        t2ParentRewardAmount parent p.contractTokenAmount p.rewardAmount = .ok moved →
        ∃ j parentLayout, j ≤ 65535 ∧ moved = p.rewardAmount - j ∧
          t2RewardAmount p.contractTokenAmount p.rewardAmount j = .ok moved ∧
          PhotonLayout.forTxLen parent.length = .ok parentLayout ∧
          AmountsAt parent parentLayout (p.contractTokenAmount - p.rewardAmount + j) moved := by
  obtain ⟨b⟩ := exists_built h
  have hcut := b.eq_cutParent hreward hremaining
  have hlens := b.cutLengths hreward hremaining
  have hshift := PhotonLayout.contains_of_forAgeWithDeployment b.layout_eq
  have hle := b.reward_le
  have hlenNonce := length_leBytes 4 p.nonce
  have hparse := b.parseParentOutputs_eq hvalue
  rw [b.rewardOutput_eq] at hparse
  refine ⟨b.layout, b.target, b.signature, b.maxDecrease, _, _, b.rewardToken, b.layout_eq, ?_,
    b.target_eq, b.signature_eq, (congrArg (slice? · _ _) hcut).trans ?_,
    (congrArg (slice? · _ _) hcut).trans ?_, (congrArg (slice? · _ _) hcut).trans ?_, ?_, by omega,
    hparse, b.successorBaton_eq hvalue, b.deploymentTokenPrefix_eq, b.budget_eq, Nat.sub_le _ _, ?_,
    ?_, ?_⟩
  · rw [b.length_eq]
    exact PhotonLayout.forTxLen_txBytes hshift
  -- the three fields of the commitment
  · refine slice?_cutParent (a := []) (r := b.target ++ b.signature) hlens ?_ rfl ?_
    · rw [Built.commitment, commitmentOf, List.nil_append, List.append_assoc]
    · rw [hlenNonce]
  · refine slice?_cutParent (a := leBytes 4 p.nonce) hlens rfl ?_ ?_
    · rw [hlenNonce, PhotonLayout.targetOffset]
      omega
    · rw [b.length_target]
  · refine slice?_cutParent (a := leBytes 4 p.nonce ++ b.target) (r := []) hlens ?_ ?_ ?_
    · rw [Built.commitment, commitmentOf, List.append_nil]
    · rw [List.length_append, hlenNonce, b.length_target, PhotonLayout.signatureOffset]
      omega
    · rw [b.length_signature]
  · have hamounts := amountsAt_cutParent hlens
      (show p.contractTokenAmount - p.rewardAmount < 2 ^ 64 by omega)
      (show p.rewardAmount < 2 ^ 64 by omega)
    rwa [← hcut] at hamounts
  · have := b.decrease_le
    have := b.decrease_le_value
    omega
  · intro j moved hj hmoved
    have hback := t2ParentRewardAmount_writeAmounts hlens hshift hle (by omega)
      (Nat.lt_succ_of_le hj) hmoved
    rwa [← hcut] at hback
  · intro parent moved hparent
    obtain ⟨layout, baton, hlayout, hamounts, hsum, hbase, hlt, hmoved⟩ :=
      t2ParentRewardAmount_eq_ok.mp hparent
    obtain rfl : baton = p.contractTokenAmount - p.rewardAmount + (p.rewardAmount - moved) := by
      omega
    exact ⟨p.rewardAmount - moved, layout, by omega, by omega, hmoved, hlayout, hamounts⟩

/-- A claim of the baton one block after it was created. -/
def sampleParams : TemplateParams where
  prevTxHashHex := List.replicate 64 'a'
  prevIndex := 0
  age := 1
  publicKeyHex := List.replicate 66 '2'
  targetHex := List.replicate 64 '3'
  signatureHex := List.replicate 128 '4'
  nonce := 5
  contractValueSats := 10000
  relayFeeSatsPerKb := 1000
  contractTokenAmount := 2 ^ 34
  rewardAmount := 2 ^ 33
  payoutLocking := List.replicate 25 6

lemma length_mainnetV0 : (Text.trim Deployment.mainnetV0.redeemScriptHex.toList).length = 518 := by
  unfold Deployment.mainnetV0
  unfold photonV0RedeemHex
  -- the digits of the text are read off its literals
  simp only [String.toList_append, -String.reduceAppend]
  repeat rewrite [String.toList_ofList]
  decide +kernel

lemma sampleParams_built :
    let _ : Hasher := Hasher.fips
    (buildPhotonTemplateBytesForDeployment sampleParams .mainnet).toOption.isSome = true := by
  rw [Hasher.fips_eq]
  intro _
  unfold buildPhotonTemplateBytesForDeployment buildParts batonDecreaseSats
    PhotonLayout.forAgeWithDeployment PhotonLayout.shifted
    Deployment.singleInputMaxBatonDecreaseSats
  simp -zeta only [length_mainnetV0]
  unfold Deployment.verify Deployment.mainnet PhotonDeployment.mainnet photonV32RedeemHex
    covenantLockingBytecodeHex expectedScriptHashHex
  simp -zeta only [String.toList_append, -String.reduceAppend]
  repeat rewrite [String.toList_ofList]
  decide +kernel

theorem parent_layout_sample :
    let _ : Hasher := Hasher.fips
    ∃ tx layout, buildPhotonTemplateBytesForDeployment sampleParams .mainnet = .ok tx ∧
      PhotonLayout.forTxLen tx.length = .ok layout ∧ AmountsAt tx layout (2 ^ 33) (2 ^ 33) ∧
      t2ParentRewardAmount (writeAmounts tx layout (2 ^ 33 + 1) (2 ^ 33 - 1)) (2 ^ 34) (2 ^ 33) =
        .ok (2 ^ 33 - 1) := by
  intro hasher
  have hbuilt : (buildPhotonTemplateBytesForDeployment sampleParams .mainnet).toOption.isSome = true :=
    sampleParams_built
  obtain ⟨tx, hbuild⟩ := Except.exists_eq_ok hbuilt
  have hmoves : t2RewardAmount sampleParams.contractTokenAmount sampleParams.rewardAmount 1 =
      .ok (2 ^ 33 - 1) := by decide
  obtain ⟨layout, _, _, _, _, _, _, -, hlayout, -, -, -, -, -, hamounts, -, -, -, -, -, -, -,
    hmoved, -⟩ := parent_layout hbuild (by decide) (by decide) (by decide) (by decide) (by decide)
  exact ⟨tx, layout, hbuild, hlayout, hamounts, hmoved 1 _ (by decide) hmoves⟩

end Pickaxe.Photon
