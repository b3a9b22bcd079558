/-
# The host's check of a winner

The host prepares a job for the engine and checks every winner that the engine reports: it signs the
claim itself, serialises it and hashes it.  What it serialises is the template with the claim's nonce
and signature in their places, so what the engine found is what the host finds.
-/
import Pickaxe.Engine.Search
import Pickaxe.Rigs.Wire

namespace Pickaxe.Photon

open Lib Engine Engine.Meets
open Rigs (MiningJob Ripemd WireWinner validateJob p2pkhLockingFromPublicKey verifyRigWinner)

/-! ## Code -/

/-- `PreparedJob`. -/
structure PreparedJob where
  job : MiningJob
  template : Bytes
  target : Hash

/-- The key and the signatures of the library. -/
abbrev schnorrOf (lib : Secp) (fuel : ℕ) : Electric.Schnorr where
  Secret := lib.SecretKey
  publicKey sk := lib.serialize (lib.fromSecretKey sk)
  sign sk message := (Crypto.bchSchnorrSign lib fuel (lib.toSecretBytes sk) message).getD
    (.error "the nonce is not found")
  verify publicKey message signature :=
    match ByteVec.ofBytes? 33 publicKey, ByteVec.ofBytes? 32 message,
        ByteVec.ofBytes? 64 signature with
    | some publicKey, some message, some signature =>
      decide (Crypto.bchSchnorrVerify lib publicKey message signature = .ok true)
    | _, _, _ => false

attribute [local instance] Hasher.fips

section Code

variable [Ripemd] (lib : Secp) (fuel : ℕ)

/-- The checks of `prepare_job` before it signs: the target, the payout and the message. -/
def jobSetup (job : MiningJob) (publicKey : ByteVec 33) : Except String (Hash × Bytes × Hash) := do
  let target ← validateJob job
  let payoutLocking ← Cashaddr.toP2pkhLocking job.payoutAddress
  if payoutLocking = p2pkhLockingFromPublicKey publicKey then
    .error "PHOTON search identity must be separate from the funded reward identity"
  else do
    let message ← photonMessageSha256 0 job.targetLeHex
    .ok (target, payoutLocking, message)

/-- The parameters of a job's template. -/
def MiningJob.params (job : MiningJob) (publicKey : ByteVec 33) (signature : ByteVec 64)
    (payoutLocking : Bytes) : TemplateParams where
  prevTxHashHex := job.batonTxid
  prevIndex := job.batonVout
  age := job.age
  publicKeyHex := Text.hexEncode publicKey.bytes
  targetHex := job.targetLeHex
  signatureHex := Text.hexEncode signature.bytes
  nonce := 0
  contractValueSats := job.batonValueSats
  relayFeeSatsPerKb := job.relayFeeSatsPerKb
  contractTokenAmount := job.tokenAmount
  rewardAmount := job.rewardRaw
  payoutLocking := payoutLocking

/-- `prepare_job`: none where the setup nonce is not found. -/
def prepareJob (job : MiningJob) (sk : ByteVec 32) (publicKey : ByteVec 33) :
    Option (Except String PreparedJob) :=
  match jobSetup job publicKey with
  | .error error => some (.error error)
  | .ok (target, payoutLocking, message) =>
    (Crypto.bchSchnorrSign lib fuel sk message).map fun signed => do
      let signature ← signed
      let verified ← Crypto.bchSchnorrVerify lib publicKey message signature
      if verified = false then .error "generated PHOTON setup signature failed verification"
      else do
        let d := deployment job.network
        let template ← buildPhotonTemplateBytesForDeployment
          (MiningJob.params job publicKey signature payoutLocking) d
        let layout ← PhotonLayout.forAgeWithDeployment job.age d
        if template.length ≠ layout.txBytes then
          .error s!"PHOTON live template is {template.length} bytes; age {job.age} needs {layout.txBytes}"
        else if slice template layout.targetOffset (layout.targetOffset + 32) ≠ target.bytes then
          .error "PHOTON template target bytes do not match live target"
        else .ok ⟨job, template, target⟩

/-- The checks of `verify_gpu_winner` before it signs: the reward and the message. -/
def winnerSetup (prepared : PreparedJob) (winner : PhotonCudaWinner) : Except String (ℕ × Hash) :=
  if winner.tailJ.isSome ∧ winner.schnorrK.isSome then
    .error "GPU winner cannot combine T2 amount and incremental scalar modes"
  else
    match winner.tailValueSats with
    | some sats => .error s!"GPU payout BCH value must remain 700 sats (got {sats})"
    | none => do
      let actualReward ← match winner.tailJ with
        | some j => t2RewardAmount prepared.job.tokenAmount prepared.job.rewardRaw j
        | none => .ok prepared.job.rewardRaw
      let message ← photonMessageSha256 winner.nonce.toNat prepared.job.targetLeHex
      .ok (actualReward, message)

/-- The signature of a winner. -/
def winnerSignature (sk : ByteVec 32) (message : Hash) (schnorrK : Option ℕ) :
    Option (Except String (ByteVec 64)) :=
  match schnorrK with
  | some k => some (Crypto.bchSchnorrSignSearchCandidate lib sk message k)
  | none => Crypto.bchSchnorrSign lib fuel sk message

/-- The context of a winner's claim. -/
def PreparedJob.context (prepared : PreparedJob) (actualReward : ℕ) : ReferenceJobContext where
  prevTxid := prepared.job.batonTxid
  prevVout := prepared.job.batonVout
  age := prepared.job.age
  targetLeHex := prepared.job.targetLeHex
  contractValueSats := prepared.job.batonValueSats
  relayFeeSatsPerKb := prepared.job.relayFeeSatsPerKb
  contractTokenAmount := prepared.job.tokenAmount
  rewardRaw := actualReward

/-- The winner that `verify_gpu_winner` returns. -/
def PreparedJob.winner (prepared : PreparedJob) (winner : PhotonCudaWinner)
    (publicKey : ByteVec 33) (signature : ByteVec 64) (transaction : Bytes) (digest : Hash) :
    CompleteWinner where
  generationId := prepared.job.generationId
  height := prepared.job.height
  batonTxid := prepared.job.batonTxid
  batonVout := prepared.job.batonVout
  digest := digest.bytes
  transaction := transaction
  payout := none
  jobRewardRaw := prepared.job.rewardRaw
  nonce := winner.nonce.toNat
  publicKey := publicKey
  signature := signature

/-- `verify_gpu_winner`: none where the winner's nonce is not found. -/
def verifyGpuWinner (prepared : PreparedJob) (sk : ByteVec 32) (publicKey : ByteVec 33)
    (winner : PhotonCudaWinner) : Option (Except String CompleteWinner) :=
  match winnerSetup prepared winner with
  | .error error => some (.error error)
  | .ok (actualReward, message) =>
    (winnerSignature lib fuel sk message winner.schnorrK).map fun signed => do
      let signature ← signed
      let verified ← Crypto.bchSchnorrVerify lib publicKey message signature
      if verified = false then .error "returned GPU winner failed BCH Schnorr verification"
      else do
        let d := deployment prepared.job.network
        let transaction ← @applyReferenceSignatureForDeployment _ (schnorrOf lib fuel)
          (prepared.context actualReward) prepared.job.payoutAddress (Text.hexEncode publicKey.bytes)
          winner.nonce.toNat (Text.hexEncode signature.bytes) d
        let digest := doubleSha256 transaction
        if digest ≠ winner.digest then
          .error s!"GPU winner HASH256 mismatch: gpu={String.ofList (Text.hexEncode winner.digest.bytes)} host={String.ofList (Text.hexEncode digest.bytes)}"
        else if meetsTargetLeForRule digest prepared.target d.proofRule = false then
          .error "returned GPU winner failed strict host hash < target verification"
        else .ok (prepared.winner winner publicKey signature transaction digest)

end Code

/-! ## Claims of one template -/

lemma splice_append {a p₀ r p : Bytes} {at_ : ℕ} (ha : a.length = at_) (hp : p.length = p₀.length) :
    splice (a ++ p₀ ++ r) at_ p = a ++ p ++ r := by
  have hdrop : (a ++ p₀ ++ r).drop (at_ + p.length) = r :=
    List.drop_left' (by rw [List.length_append, ha, hp])
  rw [splice, hdrop, List.append_assoc a p₀ r, List.take_left' ha]

/-- A template with another nonce and another signature. -/
lemma finished_commitment {a r target signature signature' : Bytes} {shift nonce nonce' : ℕ}
    (ha : a.length = 390 + shift) (htarget : target.length = 32) (hsignature : signature.length = 64)
    (hsignature' : signature'.length = 64) :
    finished shift (a ++ commitmentOf nonce target signature ++ r) (leBytes 4 nonce') signature' =
      a ++ commitmentOf nonce' target signature' ++ r := by
  have hnonce : splice (a ++ leBytes 4 nonce ++ (target ++ signature ++ r)) (390 + shift)
      (leBytes 4 nonce') = a ++ leBytes 4 nonce' ++ (target ++ signature ++ r) :=
    splice_append ha (by rw [length_leBytes, length_leBytes])
  have hsig : splice (a ++ leBytes 4 nonce' ++ target ++ signature ++ r) (426 + shift) signature' =
      a ++ leBytes 4 nonce' ++ target ++ signature' ++ r := by
    refine splice_append ?_ (by rw [hsignature, hsignature'])
    rw [List.length_append, List.length_append, length_leBytes, ha, htarget]
    omega
  simp only [List.append_assoc] at hnonce hsig
  simp only [finished, commitmentOf, List.append_assoc]
  rw [hnonce, hsig]

/-- What stands before the commitment of a parent. -/
def beforeCommitment (prev : Bytes) (prevIndex age batonSats : ℕ) (script category : Bytes) : Bytes :=
  leBytes 4 2 ++ [1] ++ prev ++ leBytes 4 prevIndex ++ compactUint script.length ++ script ++
    leBytes 4 age ++ [2] ++ leBytes 8 batonSats ++ compactUint 179 ++ [0xef] ++ category.reverse ++
    [0x71] ++ compactUint 100

/-- What stands behind it. -/
def afterCommitment (category remaining covenantLock reward payoutLocking : Bytes) : Bytes :=
  remaining ++ covenantLock ++ leBytes 8 tokenOutputSats ++ compactUint 68 ++
    rewardOutput category reward payoutLocking ++ leBytes 4 0

section Parts

variable {category covenantLock payoutLocking commitment remaining reward : Bytes}

/-- A parent whose amounts take nine bytes, cut at its commitment. -/
lemma serializeParent_eq (prev : Bytes) (prevIndex age batonSats : ℕ) (script : Bytes) (hcategory : category.length = 32) (hlock : covenantLock.length = 35)
    (hpayout : payoutLocking.length = 25) (hcommitment : commitment.length = 100)
    (hremaining : remaining.length = 9) (hreward : reward.length = 9) :
    serializeParent prev prevIndex age batonSats script
        (batonOutput category commitment remaining covenantLock)
        (rewardOutput category reward payoutLocking) =
      beforeCommitment prev prevIndex age batonSats script category ++ commitment ++
        afterCommitment category remaining covenantLock reward payoutLocking := by
  have hbaton : (batonOutput category commitment remaining covenantLock).length = 179 := by
    have hcount : (compactUint 100).length = 1 := rfl
    rw [batonOutput, hcommitment]
    simp only [List.length_append, List.length_singleton, List.length_reverse, hcategory, hcommitment,
      hremaining, hlock, hcount]
  have hpaid : (rewardOutput category reward payoutLocking).length = 68 := by
    rw [rewardOutput]
    simp only [List.length_append, List.length_singleton, List.length_reverse, hcategory, hreward,
      hpayout]
  rw [serializeParent, hbaton, hpaid, batonOutput, hcommitment, beforeCommitment, afterCommitment]
  simp only [List.append_assoc]

lemma length_afterCommitment (hcategory : category.length = 32) (hlock : covenantLock.length = 35)
    (hpayout : payoutLocking.length = 25) (hremaining : remaining.length = 9)
    (hreward : reward.length = 9) :
    (afterCommitment category remaining covenantLock reward payoutLocking).length = 125 := by
  have hcount : (compactUint 68).length = 1 := rfl
  rw [afterCommitment, rewardOutput]
  simp only [List.length_append, List.length_singleton, List.length_reverse, length_leBytes, hcategory,
    hlock, hpayout, hremaining, hreward, hcount]

end Parts

lemma length_commitmentOf (nonce : ℕ) {target signature : Bytes} (htarget : target.length = 32)
    (hsignature : signature.length = 64) : (commitmentOf nonce target signature).length = 100 := by
  rw [commitmentOf, List.length_append, List.length_append, length_leBytes, htarget, hsignature]

lemma compactTokenAmount_large {amount : ℕ} {bytes : Bytes} (h : compactTokenAmount amount = .ok bytes)
    (hlarge : 2 ^ 32 - 1 < amount) : bytes.length = 9 := by
  rw [(compactTokenAmount_eq_ok.mp h).2, compactUint_of_large hlarge, List.length_cons, length_leBytes]

/-- The last part of the builder, with another nonce and another signature. -/
lemma buildParts_finished {p : TemplateParams} {d : Deployment} {layout : PhotonLayout}
    {publicKey target signature₀ redeemScript category covenantLock tx : Bytes}
    (h : buildParts p d layout publicKey target signature₀ redeemScript category covenantLock = .ok tx)
    (htarget : target.length = 32) (hsignature₀ : signature₀.length = 64)
    (hcategory : category.length = 32) (hlock : covenantLock.length = 35)
    (hpayout : p.payoutLocking.length = 25) {nonce : ℕ} {signatureHex : List Char} {signature : Bytes}
    (hsignature : signature.length = 64) (hreward : 2 ^ 32 - 1 < p.rewardAmount)
    (hremaining : 2 ^ 32 - 1 < p.contractTokenAmount - p.rewardAmount) :
    buildParts { p with nonce, signatureHex } d layout publicKey target signature redeemScript category
      covenantLock = .ok (finished layout.shift tx (leBytes 4 nonce) signature) := by
  obtain ⟨agePush, hagePush, h⟩ := Except.bind_eq_ok.mp h
  obtain ⟨hscript, h⟩ := Except.ite_error_eq_ok.mp h
  obtain ⟨hle, h⟩ := Except.ite_error_eq_ok.mp h
  obtain ⟨remaining, hremainingBytes, h⟩ := Except.bind_eq_ok.mp h
  obtain ⟨reward, hrewardBytes, h⟩ := Except.bind_eq_ok.mp h
  obtain ⟨prevHash, hprevHash, h⟩ := Except.bind_eq_ok.mp h
  obtain ⟨hprev, h⟩ := Except.ite_error_eq_ok.mp h
  obtain ⟨maxDecrease, hbudget, h⟩ := Except.bind_eq_ok.mp h
  obtain ⟨decrease, hdecrease, h⟩ := Except.bind_eq_ok.mp h
  obtain ⟨hbound, h⟩ := Except.ite_error_eq_ok.mp h
  obtain ⟨hvalue, h⟩ := Except.ite_error_eq_ok.mp h
  obtain ⟨htotal, h⟩ := Except.ite_error_eq_ok.mp h
  rw [not_not] at htotal
  rw [Except.ok.injEq] at h
  have hremaining_len := compactTokenAmount_large hremainingBytes hremaining
  have hreward_len := compactTokenAmount_large hrewardBytes hreward
  have hcut (nonce : ℕ) {signature : Bytes} (hsignature : signature.length = 64) :=
    serializeParent_eq prevHash.reverse p.prevIndex p.age (p.contractValueSats - decrease)
      (inputScript publicKey agePush redeemScript) hcategory hlock hpayout
      (length_commitmentOf nonce htarget hsignature) hremaining_len hreward_len
  -- the parts around the commitment, with the lengths of the layout
  have hafter := length_afterCommitment hcategory hlock hpayout hremaining_len hreward_len
  obtain ⟨a, ha⟩ : ∃ a, beforeCommitment prevHash.reverse p.prevIndex p.age
    (p.contractValueSats - decrease) (inputScript publicKey agePush redeemScript) category = a := ⟨_, rfl⟩
  obtain ⟨r, hr⟩ : ∃ r, afterCommitment category remaining covenantLock reward p.payoutLocking = r :=
    ⟨_, rfl⟩
  rw [ha, hr] at hcut
  rw [hr] at hafter
  rw [hcut p.nonce hsignature₀] at h
  rw [hcut p.nonce hsignature₀, List.length_append, List.length_append, hafter,
    length_commitmentOf p.nonce htarget hsignature₀, PhotonLayout.txBytes] at htotal
  have hbefore : a.length = 390 + layout.shift := by omega
  rw [← h, finished_commitment hbefore htarget hsignature₀ hsignature, ← hcut nonce hsignature]
  refine Except.bind_eq_ok.mpr ⟨agePush, hagePush, ?_⟩
  refine Except.ite_error_eq_ok.mpr ⟨hscript, Except.ite_error_eq_ok.mpr ⟨hle, ?_⟩⟩
  refine Except.bind_eq_ok.mpr ⟨remaining, hremainingBytes, ?_⟩
  refine Except.bind_eq_ok.mpr ⟨reward, hrewardBytes, ?_⟩
  refine Except.bind_eq_ok.mpr ⟨prevHash, hprevHash, Except.ite_error_eq_ok.mpr ⟨hprev, ?_⟩⟩
  refine Except.bind_eq_ok.mpr ⟨maxDecrease, hbudget, ?_⟩
  refine Except.bind_eq_ok.mpr ⟨decrease, hdecrease, ?_⟩
  refine Except.ite_error_eq_ok.mpr ⟨hbound, Except.ite_error_eq_ok.mpr ⟨hvalue, ?_⟩⟩
  refine Except.ite_error_eq_ok.mpr ⟨?_, rfl⟩
  dsimp only
  rw [not_not, hcut nonce hsignature, List.length_append, List.length_append, hafter,
    length_commitmentOf nonce htarget hsignature, PhotonLayout.txBytes]
  omega

/-- A claim of a job is its template with the claim's nonce and signature in their places. -/
lemma build_finished {p : TemplateParams} {d : Deployment} {tx : Bytes}
    (h : buildPhotonTemplateBytesForDeployment p d = .ok tx) {layout : PhotonLayout}
    (hlayout : PhotonLayout.forAgeWithDeployment p.age d = .ok layout) (nonce : ℕ)
    {signatureHex : List Char} {signature : Bytes} (hsignature : parseHex signatureHex = .ok signature)
    (hlen : signature.length = 64) (hreward : 2 ^ 32 - 1 < p.rewardAmount)
    (hremaining : 2 ^ 32 - 1 < p.contractTokenAmount - p.rewardAmount) :
    buildPhotonTemplateBytesForDeployment { p with nonce, signatureHex } d =
      .ok (finished layout.shift tx (leBytes 4 nonce) signature) := by
  obtain ⟨_, hverify, h⟩ := Except.bind_eq_ok.mp h
  obtain ⟨layout', hlayout', h⟩ := Except.bind_eq_ok.mp h
  rw [hlayout, Except.ok.injEq] at hlayout'
  subst hlayout'
  obtain ⟨publicKey, hpublicKey, h⟩ := Except.bind_eq_ok.mp h
  obtain ⟨target, htarget, h⟩ := Except.bind_eq_ok.mp h
  obtain ⟨signature₀, -, h⟩ := Except.bind_eq_ok.mp h
  obtain ⟨redeemScript, hredeem, h⟩ := Except.bind_eq_ok.mp h
  obtain ⟨category, hcategory, h⟩ := Except.bind_eq_ok.mp h
  obtain ⟨covenantLock, hlock, h⟩ := Except.bind_eq_ok.mp h
  obtain ⟨hlenKey, h⟩ := Except.ite_error_eq_ok.mp h
  obtain ⟨hlenTarget, h⟩ := Except.ite_error_eq_ok.mp h
  obtain ⟨hlenSignature, h⟩ := Except.ite_error_eq_ok.mp h
  obtain ⟨hlenPayout, h⟩ := Except.ite_error_eq_ok.mp h
  -- the texts of a deployment that verifies have no white space around them
  obtain ⟨_, lock', category', -, hlock', hcategory', hbytes⟩ := Deployment.verify_eq_ok.mp hverify
  obtain ⟨hlenCategory, hlenLock⟩ := Deployment.lengths hbytes
  have hcategory_eq := parseHex_eq_ok.mp hcategory
  have hlock_eq := parseHex_eq_ok.mp hlock
  rw [Text.trim_of_hexDecode hcategory', hcategory', Option.some.injEq] at hcategory_eq
  rw [Text.trim_of_hexDecode hlock', hlock', Option.some.injEq] at hlock_eq
  refine Except.bind_eq_ok.mpr ⟨_, hverify, Except.bind_eq_ok.mpr ⟨layout, hlayout, ?_⟩⟩
  refine Except.bind_eq_ok.mpr ⟨publicKey, hpublicKey, Except.bind_eq_ok.mpr ⟨target, htarget, ?_⟩⟩
  refine Except.bind_eq_ok.mpr ⟨signature, hsignature, Except.bind_eq_ok.mpr ⟨redeemScript, hredeem, ?_⟩⟩
  refine Except.bind_eq_ok.mpr ⟨category, hcategory, Except.bind_eq_ok.mpr ⟨covenantLock, hlock, ?_⟩⟩
  refine Except.ite_error_eq_ok.mpr ⟨hlenKey, Except.ite_error_eq_ok.mpr ⟨hlenTarget, ?_⟩⟩
  refine Except.ite_error_eq_ok.mpr ⟨not_not.mpr hlen, Except.ite_error_eq_ok.mpr ⟨hlenPayout, ?_⟩⟩
  exact buildParts_finished h (not_not.mp hlenTarget) (not_not.mp hlenSignature)
    (hcategory_eq ▸ hlenCategory) (hlock_eq ▸ hlenLock) (not_not.mp hlenPayout) hlen hreward hremaining

/-! ## Winners -/

/-- The job that the engine is given. -/
def PreparedJob.engineJob (prepared : PreparedJob) (sk : ByteVec 32) (publicKey : ByteVec 33) :
    Engine.Job where
  template := prepared.template
  target := prepared.target
  rule := (deployment prepared.job.network).proofRule
  privateKey := sk
  publicKey := publicKey

lemma photonMessageSha256_eq {hex : List Char} {target : Hash} (h : parseHex hex = .ok target.bytes)
    (nonce : ℕ) : photonMessageSha256 nonce hex =
      .ok (Lib.Sha256.digest (leBytes 4 nonce ++ target.bytes)) := by
  refine Except.bind_eq_ok.mpr ⟨_, h, ?_⟩
  rw [if_neg (not_not.mpr target.length_bytes)]
  rfl

/-- What a job that is validated is. -/
lemma validateJob_eq_ok {job : MiningJob} {target : Hash} (h : validateJob job = .ok target) :
    parseHex32 job.targetLeHex = .ok target ∧ 2 ^ 32 - 1 < job.rewardRaw ∧
      2 ^ 32 - 1 < job.tokenAmount - job.rewardRaw ∧
      ((deployment job.network).proofRule = .positive → fromLe target.bytes < 2 ^ 255) := by
  obtain ⟨-, h⟩ := Except.ite_error_eq_ok.mp h
  obtain ⟨_, -, h⟩ := Except.bind_eq_ok.mp h
  obtain ⟨_, hpreimage, h⟩ := Except.bind_eq_ok.mp h
  obtain ⟨-, h⟩ := Except.ite_error_eq_ok.mp h
  obtain ⟨target', htarget, h⟩ := Except.bind_eq_ok.mp h
  obtain ⟨hpositive, h⟩ := Except.ite_error_eq_ok.mp h
  rw [Except.ok.injEq] at h
  subst h
  obtain ⟨-, hpreimage⟩ := Except.ite_error_eq_ok.mp hpreimage
  obtain ⟨hamounts, -⟩ := Except.ite_error_eq_ok.mp hpreimage
  refine ⟨htarget, by omega, by omega, fun hrule => ?_⟩
  have hclear : at' target' 31 &&& 0x80 = 0 := by
    by_contra hne
    exact hpositive ⟨hrule, .inl hne⟩
  exact (sign_iff target').mp ((and_80 _).mp hclear)

/-- The host accepts what the rule accepts. -/
lemma meetsTargetLeForRule_of_accepts {rule : ProofRule} {digest target : Hash}
    (hrule : rule = .positive → fromLe target.bytes < 2 ^ 255) (h : Accepts rule digest target) :
    meetsTargetLeForRule digest target rule = true := by
  cases rule with
  | absolute =>
    rw [meetsTargetLeForRule, meetsTargetLe_eq, if_neg (by simp)]
    exact below_compared_iff.mpr h.1
  | positive => exact (meetsTargetLeForRule_iff (hrule rfl)).mpr h

section Signature

variable {lib : Secp} {fuel : ℕ} {sk : ByteVec 32} {publicKey : ByteVec 33}

/-- The host's signature of a place is the one of its claim, and the host accepts it. -/
lemma winnerSignature_signs {engineJob : Engine.Job} (place : Place) (hlib : lib.Lawful)
    {secret : lib.SecretKey} (hsecret : lib.fromSecretBytes sk = .ok secret)
    (hkey : engineJob.privateKey = sk)
    (hpublic : engineJob.publicKey = lib.serialize (lib.fromSecretKey secret))
    {signature : ByteVec 64}
    (h : winnerSignature lib fuel sk (engineJob.message place.nonce) place.schnorrK =
      some (.ok signature)) :
    (∃ k, engineJob.SignsWith place k ∧ Signs engineJob.publicKey (fromBe engineJob.privateKey.bytes)
      (engineJob.message place.nonce) k signature) ∧
    Crypto.bchSchnorrVerify lib engineJob.publicKey (engineJob.message place.nonce) signature =
      .ok true := by
  -- the scalar that the host signs with
  obtain ⟨kBytes, hk, hsign⟩ : ∃ kBytes : ByteVec 32, engineJob.SignsWith place (fromBe kBytes.bytes) ∧
      Crypto.bchSchnorrSignWithK lib sk (engineJob.message place.nonce) kBytes = .ok signature := by
    cases hplace : place.schnorrK with
    | some k =>
      rw [hplace, winnerSignature, Option.some.injEq] at h
      obtain ⟨hbounds, h⟩ := Except.ite_error_eq_ok.mp h
      refine ⟨_, ?_, h⟩
      rw [Job.SignsWith, hplace]
      dsimp only
      rw [fromBe_append, fromBe_replicate_zero, Nat.mul_zero, Nat.zero_add, fromBe_beBytes]
      norm_num
      omega
    | none =>
      rw [hplace, winnerSignature] at h
      obtain ⟨kBytes, hk, h⟩ := Option.map_eq_some_iff.mp h
      refine ⟨kBytes, ?_, h⟩
      rw [Job.SignsWith, hplace]
      refine ⟨fuel, kBytes, ?_, rfl⟩
      rw [hkey]
      exact bchRfc6979_eq_some.mpr (bchRfc6979Nonce_eq_some.mp hk)
  have hsigns := signs_of_signWithK hlib hsecret hsign
  obtain ⟨secret', hsecret', hverify⟩ := verify_of_signWithK hlib hsign
  rw [hsecret, Except.ok.injEq] at hsecret'
  subst hsecret'
  rw [← hpublic] at hsigns hverify
  exact ⟨⟨_, hk, hkey.symm ▸ hsigns⟩, hverify⟩

/-- A signature that the host accepts is one that the journal accepts. -/
lemma schnorr_verify {message : Hash} {signature : ByteVec 64}
    (h : Crypto.bchSchnorrVerify lib publicKey message signature = .ok true) :
    (schnorrOf lib fuel).verify publicKey.bytes message.bytes signature.bytes = true := by
  unfold Electric.Schnorr.verify schnorrOf
  dsimp only
  rw [ByteVec.ofBytes?_bytes, ByteVec.ofBytes?_bytes, ByteVec.ofBytes?_bytes]
  exact decide_eq_true h

/-- The reference verification of a claim that was built, signed and found to meet its target. -/
lemma applyReferenceSignature_eq_ok {context : ReferenceJobContext} {payoutAddress : List Char}
    {nonce : ℕ} {signature : ByteVec 64} {d : Deployment} {target : Hash} {payout tx : Bytes}
    (htarget : parseHex32 context.targetLeHex = .ok target)
    (hpayout : Cashaddr.toP2pkhLocking payoutAddress = .ok payout)
    (hverify : Crypto.bchSchnorrVerify lib publicKey
      (Lib.Sha256.digest (leBytes 4 nonce ++ target.bytes)) signature = .ok true)
    (hbuilt : buildPhotonTemplateBytesForDeployment (context.params (Text.hexEncode publicKey.bytes)
      (Text.hexEncode signature.bytes) nonce payout) d = .ok tx)
    (hmeets : meetsTargetLeForRule (doubleSha256 tx) target d.proofRule = true) :
    @applyReferenceSignatureForDeployment _ (schnorrOf lib fuel) context payoutAddress
      (Text.hexEncode publicKey.bytes) nonce (Text.hexEncode signature.bytes) d = .ok tx := by
  have hhex {n : ℕ} (v : ByteVec n) : parseHex (Text.hexEncode v.bytes) = .ok v.bytes := by
    rw [parseHex_eq_ok, Text.trim_hexEncode, Text.hexDecode_hexEncode]
  refine Except.bind_eq_ok.mpr ⟨_, hhex signature, ?_⟩
  refine Except.ite_error_eq_ok.mpr ⟨not_not.mpr signature.length_bytes, ?_⟩
  refine Except.bind_eq_ok.mpr ⟨_, hhex publicKey, ?_⟩
  refine Except.ite_error_eq_ok.mpr ⟨not_not.mpr publicKey.length_bytes, ?_⟩
  refine Except.bind_eq_ok.mpr ⟨_, photonMessageSha256_eq (parseHex32_eq_ok htarget) nonce, ?_⟩
  refine Except.ite_error_eq_ok.mpr ⟨by rw [schnorr_verify hverify]; simp, ?_⟩
  refine Except.bind_eq_ok.mpr ⟨payout, hpayout, Except.bind_eq_ok.mpr ⟨tx, hbuilt, ?_⟩⟩
  refine Except.bind_eq_ok.mpr ⟨target, htarget, ?_⟩
  exact Except.ite_error_eq_ok.mpr ⟨by rw [hmeets]; simp, rfl⟩

end Signature

lemma winnerSetup_message {prepared : PreparedJob} {winner : PhotonCudaWinner} {actualReward : ℕ}
    {message : Hash} (h : winnerSetup prepared winner = .ok (actualReward, message)) :
    photonMessageSha256 winner.nonce.toNat prepared.job.targetLeHex = .ok message := by
  obtain ⟨-, h⟩ := Except.ite_error_eq_ok.mp h
  cases hsats : winner.tailValueSats with
  | some sats =>
    rw [hsats] at h
    cases h
  | none =>
    rw [hsats] at h
    cases htail : winner.tailJ with
    | some j =>
      rw [htail] at h
      obtain ⟨_, -, h⟩ := Except.bind_eq_ok.mp h
      obtain ⟨message', hmessage, h⟩ := Except.bind_eq_ok.mp h
      rw [Except.ok.injEq, Prod.mk.injEq] at h
      rw [hmessage, h.2]
    | none =>
      rw [htail] at h
      obtain ⟨_, -, h⟩ := Except.bind_eq_ok.mp h
      obtain ⟨message', hmessage, h⟩ := Except.bind_eq_ok.mp h
      rw [Except.ok.injEq, Prod.mk.injEq] at h
      rw [hmessage, h.2]

section Winner

variable [Ripemd] {lib : Secp} {fuel : ℕ} {job : MiningJob} {sk : ByteVec 32} {publicKey : ByteVec 33}
  {prepared : PreparedJob}

/-- What a job that is prepared is. -/
lemma prepareJob_eq_ok (h : prepareJob lib fuel job sk publicKey = some (.ok prepared)) :
    prepared.job = job ∧ validateJob job = .ok prepared.target ∧
      ∃ payout signature layout, Cashaddr.toP2pkhLocking job.payoutAddress = .ok payout ∧
        payout ≠ p2pkhLockingFromPublicKey publicKey ∧
        buildPhotonTemplateBytesForDeployment (MiningJob.params job publicKey signature payout)
          (deployment job.network) = .ok prepared.template ∧
        PhotonLayout.forAgeWithDeployment job.age (deployment job.network) = .ok layout ∧
        prepared.template.length = 615 + layout.shift ∧
        slice prepared.template (394 + layout.shift) (426 + layout.shift) = prepared.target.bytes := by
  rw [prepareJob] at h
  cases hsetup : jobSetup job publicKey with
  | error error =>
    rw [hsetup, Option.some.injEq] at h
    cases h
  | ok setup =>
    obtain ⟨target, payout, message⟩ := setup
    rw [hsetup, Option.map_eq_some_iff] at h
    obtain ⟨signed, -, h⟩ := h
    obtain ⟨target', htarget, hsetup⟩ := Except.bind_eq_ok.mp hsetup
    obtain ⟨payout', hpayout, hsetup⟩ := Except.bind_eq_ok.mp hsetup
    obtain ⟨hseparate, hsetup⟩ := Except.ite_error_eq_ok.mp hsetup
    obtain ⟨message', -, hsetup⟩ := Except.bind_eq_ok.mp hsetup
    rw [Except.ok.injEq, Prod.mk.injEq, Prod.mk.injEq] at hsetup
    obtain ⟨rfl, rfl, -⟩ := hsetup
    obtain ⟨signature, -, h⟩ := Except.bind_eq_ok.mp h
    obtain ⟨_, -, h⟩ := Except.bind_eq_ok.mp h
    obtain ⟨-, h⟩ := Except.ite_error_eq_ok.mp h
    obtain ⟨template, htemplate, h⟩ := Except.bind_eq_ok.mp h
    obtain ⟨layout, hlayout, h⟩ := Except.bind_eq_ok.mp h
    obtain ⟨hlength, h⟩ := Except.ite_error_eq_ok.mp h
    obtain ⟨hslice, h⟩ := Except.ite_error_eq_ok.mp h
    rw [Except.ok.injEq] at h
    subst h
    rw [not_not, PhotonLayout.targetOffset, show 394 + layout.shift + 32 = 426 + layout.shift by omega]
      at hslice
    exact ⟨rfl, htarget, payout', signature, layout, hpayout, hseparate, htemplate, hlayout,
      not_not.mp hlength, hslice⟩

/-- The host accepts every winner of the engine for which it makes a signature: the claim that it
serialises is the one that the engine hashed. -/
lemma verifyGpuWinner_of_wins (hlib : lib.Lawful) {secret : lib.SecretKey}
    (hsecret : lib.fromSecretBytes sk = .ok secret)
    (hpublic : publicKey = lib.serialize (lib.fromSecretKey secret)) {fuel' : ℕ}
    (hprepared : prepareJob lib fuel' job sk publicKey = some (.ok prepared))
    {winner : PhotonCudaWinner}
    (hwins : (prepared.engineJob sk publicKey).Wins winner.place winner.digest)
    (htail : winner.tailJ = none) (hvalue : winner.tailValueSats = none) {signature : ByteVec 64}
    (hsignature : winnerSignature lib fuel sk ((prepared.engineJob sk publicKey).message winner.nonce)
      winner.schnorrK = some (.ok signature)) :
    ∃ verified, verifyGpuWinner lib fuel prepared sk publicKey winner = some (.ok verified) ∧
      (prepared.engineJob sk publicKey).Claims winner.place verified.transaction ∧
      verified.digest = winner.digest.bytes ∧ verified.payout = none ∧
      verified.signature = signature := by
  obtain ⟨rfl, hvalid, payout, signature₀, layout, hpayout, -, htemplate, hlayout, hlength, -⟩ :=
    prepareJob_eq_ok hprepared
  obtain ⟨htarget, hreward, hremaining, hrule⟩ := validateJob_eq_ok hvalid
  obtain ⟨⟨k, hk, hsigns⟩, hverify⟩ := winnerSignature_signs winner.place hlib hsecret rfl hpublic
    hsignature
  obtain ⟨tx, hclaims, hdigest, haccepts⟩ := hwins
  -- the claim of the engine is the claim of the host
  have hshift : (prepared.engineJob sk publicKey).shift = layout.shift := by
    have hshift : prepared.template.length - 615 = layout.shift := by omega
    exact hshift
  have htx : tx = finished layout.shift prepared.template (leBytes 4 winner.nonce.toNat)
      signature.bytes := by
    rw [← hshift]
    exact hclaims.unique ⟨k, signature, hk, hsigns, rfl⟩
  have hhex : parseHex (Text.hexEncode signature.bytes) = .ok signature.bytes := by
    rw [parseHex_eq_ok, Text.trim_hexEncode, Text.hexDecode_hexEncode]
  have hbuilt := build_finished htemplate hlayout winner.nonce.toNat hhex signature.length_bytes
    hreward hremaining
  rw [← htx] at hbuilt
  have hmeets : meetsTargetLeForRule winner.digest prepared.target
      (deployment prepared.job.network).proofRule = true :=
    meetsTargetLeForRule_of_accepts hrule haccepts
  have hhash : doubleSha256 tx = winner.digest := hdigest
  have happlied : @applyReferenceSignatureForDeployment _ (schnorrOf lib fuel)
      (prepared.context prepared.job.rewardRaw) prepared.job.payoutAddress
      (Text.hexEncode publicKey.bytes) winner.nonce.toNat (Text.hexEncode signature.bytes)
      (deployment prepared.job.network) = .ok tx :=
    applyReferenceSignature_eq_ok htarget hpayout hverify hbuilt (by rw [hhash]; exact hmeets)
  have hsetup : winnerSetup prepared winner = .ok (prepared.job.rewardRaw,
      (prepared.engineJob sk publicKey).message winner.nonce) := by
    rw [winnerSetup, htail, hvalue, if_neg (by simp)]
    exact Except.bind_eq_ok.mpr ⟨_, rfl, Except.bind_eq_ok.mpr
      ⟨_, photonMessageSha256_eq (parseHex32_eq_ok htarget) _, rfl⟩⟩
  refine ⟨prepared.winner winner publicKey signature tx winner.digest, ?_, hclaims, rfl, rfl, rfl⟩
  rw [verifyGpuWinner, hsetup]
  refine Option.map_eq_some_iff.mpr ⟨_, hsignature, ?_⟩
  refine Except.bind_eq_ok.mpr ⟨signature, rfl, Except.bind_eq_ok.mpr ⟨true, hverify, ?_⟩⟩
  refine Except.ite_error_eq_ok.mpr ⟨by simp, Except.bind_eq_ok.mpr ⟨tx, happlied, ?_⟩⟩
  dsimp only
  rw [hhash]
  exact Except.ite_error_eq_ok.mpr ⟨not_not.mpr rfl, Except.ite_error_eq_ok.mpr
    ⟨by rw [hmeets]; simp, rfl⟩⟩

/-- What the host accepts, a coordinator accepts. -/
lemma verifyRigWinner_of_verifyGpuWinner {fuel' : ℕ}
    (hprepared : prepareJob lib fuel' job sk publicKey = some (.ok prepared))
    {winner : PhotonCudaWinner} {verified : CompleteWinner}
    (h : verifyGpuWinner lib fuel prepared sk publicKey winner = some (.ok verified)) :
    @verifyRigWinner _ (schnorrOf lib fuel) _ verified job = .ok () := by
  obtain ⟨rfl, hvalid, payout, -, -, hpayout, hseparate, -⟩ := prepareJob_eq_ok hprepared
  rw [verifyGpuWinner] at h
  cases hsetup : winnerSetup prepared winner with
  | error error =>
    rw [hsetup, Option.some.injEq] at h
    cases h
  | ok setup =>
    obtain ⟨actualReward, message⟩ := setup
    rw [hsetup, Option.map_eq_some_iff] at h
    obtain ⟨signed, -, h⟩ := h
    obtain ⟨signature, -, h⟩ := Except.bind_eq_ok.mp h
    obtain ⟨valid, hverify, h⟩ := Except.bind_eq_ok.mp h
    obtain ⟨hvalid', h⟩ := Except.ite_error_eq_ok.mp h
    rw [Bool.not_eq_false] at hvalid'
    subst hvalid'
    obtain ⟨transaction, -, h⟩ := Except.bind_eq_ok.mp h
    obtain ⟨-, h⟩ := Except.ite_error_eq_ok.mp h
    obtain ⟨hmeets, h⟩ := Except.ite_error_eq_ok.mp h
    rw [Except.ok.injEq] at h
    subst h
    have hmessage := winnerSetup_message hsetup
    refine Except.ite_error_eq_ok.mpr ⟨by simp [PreparedJob.winner], ?_⟩
    refine Except.bind_eq_ok.mpr ⟨_, hvalid, Except.bind_eq_ok.mpr ⟨message, hmessage, ?_⟩⟩
    refine Except.ite_error_eq_ok.mpr ⟨?_, Except.ite_error_eq_ok.mpr ⟨not_not.mpr rfl, ?_⟩⟩
    · rw [PreparedJob.winner, schnorr_verify hverify]
      simp
    refine Except.ite_error_eq_ok.mpr ⟨hmeets, Except.bind_eq_ok.mpr ⟨payout, hpayout, ?_⟩⟩
    exact Except.ite_error_eq_ok.mpr ⟨hseparate, rfl⟩

/-- Every winner of a batch of a run whose engine holds a prepared job is accepted by the host that
signs it, crosses the wire as it is, and is accepted by the coordinator. -/
theorem winner_accepted (hlib : lib.Lawful) {table : Memory UInt32} (htable : Complete table)
    {secret : lib.SecretKey} (hsecret : lib.fromSecretBytes sk = .ok secret)
    (hpublic : publicKey = lib.serialize (lib.fromSecretKey secret)) {setupFuel : ℕ}
    (hprepared : prepareJob lib setupFuel job sk publicKey = some (.ok prepared))
    {engine engine' : CudaPhotonEngine}
    (hreaches : Engine.Reaches lib table engine (some (prepared.engineJob sk publicKey)))
    {schedule : Schedule} (hfair : schedule.Fair) {searchFuel count : ℕ} {base : UInt32}
    {batch : PhotonCudaBatchResult}
    (hbatch : engine.searchBatch lib schedule searchFuel base count = some (engine', .ok batch))
    {winner : PhotonCudaWinner} (hwinner : winner ∈ batch.winners) {signature : ByteVec 64}
    (hsignature : winnerSignature lib fuel sk ((prepared.engineJob sk publicKey).message winner.nonce)
      winner.schnorrK = some (.ok signature)) :
    ∃ verified, verifyGpuWinner lib fuel prepared sk publicKey winner = some (.ok verified) ∧
      (prepared.engineJob sk publicKey).Claims winner.place verified.transaction ∧
      verified.digest = winner.digest.bytes ∧ verified.signature = signature ∧
      (WireWinner.ofWinner verified).toWinner = .ok verified ∧
      @verifyRigWinner _ (schnorrOf lib fuel) _ verified job = .ok () := by
  obtain ⟨-, hreports⟩ := searchBatch_sound hlib (hreaches.sound hlib htable) hfair hbatch
  obtain ⟨held, hheld, hreports⟩ := hreports batch rfl
  rw [Option.some.injEq] at hheld
  subst hheld
  obtain ⟨hwins, htail, hvalue⟩ := hreports.of_mem hwinner
  obtain ⟨verified, hverified, hclaims, hdigest, hpayout, hsig⟩ :=
    verifyGpuWinner_of_wins hlib hsecret hpublic hprepared hwins htail hvalue hsignature
  have haccepted := verifyRigWinner_of_verifyGpuWinner hprepared hverified
  have hwire := @Rigs.toWinner_of_verified _ (schnorrOf lib fuel) _ _ _ haccepted
  rw [← hpayout] at hwire
  exact ⟨verified, hverified, hclaims, hdigest, hsig, hwire, haccepted⟩

end Winner

end Pickaxe.Photon
