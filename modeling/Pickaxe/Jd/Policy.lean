/-
# What custom jobs pay

The payout rule of a public pool, the outputs and rates it hands to a client, and the
agreement between the two sides: the client splits a reward by the rates in its token over
the pool's scripts, the pool checks what the coinbase pays script by script, and whatever
the reward is, the pool accepts what the client built.
-/
import Pickaxe.Jd.Token
import Pickaxe.Payout

namespace Pickaxe.Jd

open Lib

namespace PayoutRule

/-! ## The rule of a public pool -/

/-- A recipient beside the miner, left out at a rate of 0. -/
def recipient (bps : UInt16) (script : Except String Bytes) :
    Except String (Option (Bytes × UInt16)) :=
  if bps > 0 then (fun s => some (s, bps)) <$> script else .ok none

/-- `PayoutRule::with_rates`: the miner's, the donation's and the operator's script, with
their rates. -/
def withRates (network : MiningNetwork) (payout : List Char) (pool : PublicPool)
    (donationBps feeBps : UInt16) : Except String PayoutRule := do
  let miner ← Config.validateCoinbaseAddress network payout
  let donation ← Config.validatePayoutAddress network (donationAddress network)
  let operator ← Config.validateCoinbaseAddress network pool.address
  let minerScript ← Cashaddr.toCoinbaseLocking miner
  let donation ← recipient donationBps (Cashaddr.toP2pkhLocking donation)
  let fee ← recipient feeBps (Cashaddr.toCoinbaseLocking operator)
  return ⟨minerScript, donation, fee⟩

/-- `PayoutRule::public_pool`. -/
def publicPool (network : MiningNetwork) (payout : List Char) (pool : PublicPool)
    (donation : BchDonation) : Except String PayoutRule :=
  withRates network payout pool (UInt16.ofNat donation.bps)
    (UInt16.ofNat ((pool.fee.map fun fee => fee.rate.bps).getD 0))

/-- `PayoutRule::from_rates`. -/
def fromRates (network : MiningNetwork) (payout : List Char) (pool : PublicPool)
    (rates : PoolRates) : Except String PayoutRule :=
  withRates network payout pool rates.donationBps rates.feeBps

/-- `PayoutRule::allocated_outputs`: the miner's, the fee's and the donation's output, all
worth 0, and the rates with their output indexes. -/
def allocatedOutputs (rule : PayoutRule) : List (ℕ × Bytes) × PoolRates :=
  let outputs := [(0, rule.miner)]
  let (outputs, feeBps, feeOutput) := match rule.fee with
    | none => (outputs, 0, none)
    | some fee => (outputs ++ [(0, fee.1)], fee.2, some (UInt8.ofNat outputs.length))
  let (outputs, donationBps, donationOutput) := match rule.donation with
    | none => (outputs, 0, none)
    | some d => (outputs ++ [(0, d.1)], d.2, some (UInt8.ofNat outputs.length))
  (outputs, ⟨donationBps, feeBps, donationOutput, feeOutput⟩)

/-- A rule a pool can hold a client to: the rates are at most 100%, and every script is one
that a coinbase pays. -/
structure Payable (rule : PayoutRule) : Prop where
  miner : Cashaddr.Locking rule.miner
  donation : ∀ d ∈ rule.donation, Cashaddr.Locking d.1 ∧ d.2.toNat ≤ 10000
  fee : ∀ f ∈ rule.fee, Cashaddr.Locking f.1 ∧ f.2.toNat ≤ 10000

lemma mem_recipient {x : Except String Bytes} {bps : UInt16} {r : Option (Bytes × UInt16)}
    (h : recipient bps x = .ok r) : ∀ d ∈ r, x = .ok d.1 ∧ d.2 = bps := by
  intro d hd
  unfold recipient at h
  split_ifs at h
  · cases x with
    | error e => cases h
    | ok s =>
      cases h
      cases hd
      exact ⟨rfl, rfl⟩
  · cases h
    cases hd

lemma bps_recipient {x : Except String Bytes} {bps : UInt16} {r : Option (Bytes × UInt16)}
    (h : recipient bps x = .ok r) : (r.map Prod.snd).getD 0 = bps := by
  unfold recipient at h
  split_ifs at h with hbps
  · cases x with
    | error e => cases h
    | ok s =>
      cases h
      rfl
  · cases h
    exact (UInt16.le_zero_iff.mp (UInt16.not_lt.mp hbps)).symm

lemma withRates_payable {network : MiningNetwork} {payout : List Char} {pool : PublicPool}
    {donationBps feeBps : UInt16} {rule : PayoutRule}
    (h : withRates network payout pool donationBps feeBps = .ok rule)
    (hdonation : donationBps.toNat ≤ 10000) (hfee : feeBps.toNat ≤ 10000) : rule.Payable := by
  unfold withRates at h
  obtain ⟨miner, -, h⟩ := Except.bind_eq_ok.mp h
  obtain ⟨donation, -, h⟩ := Except.bind_eq_ok.mp h
  obtain ⟨operator, -, h⟩ := Except.bind_eq_ok.mp h
  obtain ⟨script, hminer, h⟩ := Except.bind_eq_ok.mp h
  obtain ⟨d, hd, h⟩ := Except.bind_eq_ok.mp h
  obtain ⟨f, hf, h⟩ := Except.bind_eq_ok.mp h
  cases h
  refine ⟨.of_coinbase hminer, fun x hx => ?_, fun x hx => ?_⟩
  · obtain ⟨hscript, hbps⟩ := mem_recipient hd x hx
    exact ⟨.of_p2pkh hscript, hbps ▸ hdonation⟩
  · obtain ⟨hscript, hbps⟩ := mem_recipient hf x hx
    exact ⟨.of_coinbase hscript, hbps ▸ hfee⟩

lemma toNat_bps (d : BchDonation) : (UInt16.ofNat d.bps).toNat = d.bps :=
  UInt16.toNat_ofNat_of_lt' (by have := d.bps_le; rw [UInt16.size]; omega)

/-- A public pool's rules can be held to. -/
lemma publicPool_payable {network : MiningNetwork} {payout : List Char} {pool : PublicPool}
    {donation : BchDonation} {rule : PayoutRule}
    (h : publicPool network payout pool donation = .ok rule) : rule.Payable := by
  refine withRates_payable h ?_ ?_
  · rw [toNat_bps]
    exact donation.bps_le
  · cases hfee : pool.fee with
    | none => simp
    | some fee =>
      rw [Option.map_some, Option.getD_some, toNat_bps]
      exact fee.rate.bps_le

lemma bps_allocatedOutputs (rule : PayoutRule) :
    rule.allocatedOutputs.2.donationBps = (rule.donation.map Prod.snd).getD 0 ∧
      rule.allocatedOutputs.2.feeBps = (rule.fee.map Prod.snd).getD 0 := by
  obtain ⟨miner, donation, fee⟩ := rule
  cases donation <;> cases fee <;> exact ⟨rfl, rfl⟩

/-- The rates a token carries give the rule back. -/
lemma fromRates_allocatedOutputs {network : MiningNetwork} {payout : List Char}
    {pool : PublicPool} {donationBps feeBps : UInt16} {rule : PayoutRule}
    (h : withRates network payout pool donationBps feeBps = .ok rule) :
    fromRates network payout pool rule.allocatedOutputs.2 = .ok rule := by
  have hrates : rule.allocatedOutputs.2.donationBps = donationBps ∧
      rule.allocatedOutputs.2.feeBps = feeBps := by
    unfold withRates at h
    obtain ⟨miner, -, h⟩ := Except.bind_eq_ok.mp h
    obtain ⟨donation, -, h⟩ := Except.bind_eq_ok.mp h
    obtain ⟨operator, -, h⟩ := Except.bind_eq_ok.mp h
    obtain ⟨script, hminer, h⟩ := Except.bind_eq_ok.mp h
    obtain ⟨d, hd, h⟩ := Except.bind_eq_ok.mp h
    obtain ⟨f, hf, h⟩ := Except.bind_eq_ok.mp h
    cases h
    obtain ⟨hdonation, hfee⟩ := bps_allocatedOutputs ⟨script, d, f⟩
    exact ⟨hdonation.trans (bps_recipient hd), hfee.trans (bps_recipient hf)⟩
  rw [fromRates, hrates.1, hrates.2]
  exact h

/-! ## What the client builds -/

lemma minimums_le {rule : PayoutRule} (hrule : rule.Payable) (value : ℕ) :
    (rule.minimums value).1 + (rule.minimums value).2 ≤ value := by
  have share : ∀ (amount : ℕ) (bps : UInt16), bps.toNat ≤ 10000 →
      amount * bps.toNat / 10000 ≤ amount := by
    intro amount bps hbps
    calc amount * bps.toNat / 10000 ≤ amount * 10000 / 10000 := by gcongr
      _ = amount := Nat.mul_div_cancel _ (by decide)
  have hdonation : (rule.minimums value).1 ≤ value := by
    cases hd : rule.donation with
    | none => simp [minimums, hd]
    | some d => simpa [minimums, hd] using share value d.2 (hrule.donation d hd).2
  have hfee : (rule.minimums value).2 ≤ value - (rule.minimums value).1 := by
    cases hf : rule.fee with
    | none => simp [minimums, hf]
    | some f => simpa [minimums, hf] using share _ f.2 (hrule.fee f hf).2
  omega

/-- The outputs a client with the pool's scripts and rates builds. -/
lemma outputs_allocated {rule : PayoutRule} {plan : JdPlan}
    (hscripts : plan.scripts = rule.allocatedOutputs.1.map Prod.snd)
    (hrates : plan.rates = rule.allocatedOutputs.2) (value : ℕ) :
    plan.outputs value =
      (value - (rule.minimums value).1 - (rule.minimums value).2, rule.miner) ::
        ((rule.fee.map fun f => ((rule.minimums value).2, f.1)).toList ++
          (rule.donation.map fun d => ((rule.minimums value).1, d.1)).toList) := by
  obtain ⟨miner, donation, fee⟩ := rule
  cases donation <;> cases fee <;>
    simp [JdPlan.outputs, hscripts, hrates, allocatedOutputs, minimums, List.modify]

/-- A plan with the pool's scripts and rates names outputs that exist. -/
lemma isValid_allocated {rule : PayoutRule} {plan : JdPlan} (hrule : rule.Payable)
    (hp2pool : plan.p2pool = none)
    (hscripts : plan.scripts = rule.allocatedOutputs.1.map Prod.snd)
    (hrates : plan.rates = rule.allocatedOutputs.2) : plan.isValid = true := by
  obtain ⟨miner, donation, fee⟩ := rule
  have hdonation : ∀ d ∈ donation, d.2.toNat ≤ 10000 := fun d hd => (hrule.donation d hd).2
  have hfee : ∀ f ∈ fee, f.2.toNat ≤ 10000 := fun f hf => (hrule.fee f hf).2
  cases donation <;> cases fee <;>
    simp_all [JdPlan.isValid, allocatedOutputs]

lemma paid_append (a b : List (ℕ × Bytes)) (script : Bytes) :
    paid (a ++ b) script = paid a script + paid b script := by
  simp [paid]

lemma paid_cons (o : ℕ × Bytes) (a : List (ℕ × Bytes)) (script : Bytes) :
    paid (o :: a) script = paid [o] script + paid a script :=
  paid_append [o] a script

/-- More to a script is more to every script. -/
lemma paid_singleton_mono {a b : ℕ} (h : a ≤ b) (s script : Bytes) :
    paid [(a, s)] script ≤ paid [(b, s)] script := by
  by_cases hs : s = script <;> simp [paid, hs, h]

lemma isPrefixOf_locking {script : Bytes} (h : Cashaddr.Locking script) :
    commitmentHead.isPrefixOf script = false := by
  cases h <;> rfl

/-- Outputs to locking scripts carry no commitment and no token. -/
lemma checkCommitments_locking {outputs : List (ℕ × Bytes)}
    (h : ∀ o ∈ outputs, Cashaddr.Locking o.2) : checkCommitments outputs = true := by
  have hplain : ∀ o ∈ outputs, commitmentHead.isPrefixOf o.2 = false :=
    fun o ho => isPrefixOf_locking (h o ho)
  have hall : (outputs.zipIdx.all fun p => p.1.2.head? != some 0xef &&
      (!commitmentHead.isPrefixOf p.1.2 ||
        (p.2 == 0 && p.1.1 == 0 && (Merge.AuxCommitment.parseScript p.1.2).isSome))) = true := by
    rw [List.all_eq_true]
    intro p hp
    have hmem : p.1 ∈ outputs := List.fst_mem_of_mem_zipIdx hp
    simp [hplain _ hmem, (h _ hmem).head_ne.1]
  have hany : (outputs.any fun o => commitmentHead.isPrefixOf o.2) = false := by
    rw [List.any_eq_false]
    intro o ho
    simp [hplain o ho]
  rw [checkCommitments, hall, hany]
  rfl

/-- Whatever the reward, the outputs a client with the pool's scripts and rates builds make
it up and meet the pool's rule. -/
lemma check_allocated {rule : PayoutRule} {plan : JdPlan} (hrule : rule.Payable)
    (hscripts : plan.scripts = rule.allocatedOutputs.1.map Prod.snd)
    (hrates : plan.rates = rule.allocatedOutputs.2) {value : ℕ} (hvalue : value ≤ maxMoney) :
    ((plan.outputs value).map Prod.fst).sum = value ∧
      rule.check (plan.outputs value) = some value := by
  have hle := minimums_le hrule value
  have houtputs := outputs_allocated hscripts hrates value
  have hsum : ((plan.outputs value).map Prod.fst).sum = value := by
    rw [houtputs]
    cases hd : rule.donation <;> cases hf : rule.fee <;>
      simp [minimums, hd, hf] at hle ⊢ <;> omega
  have hlocking : ∀ o ∈ plan.outputs value, Cashaddr.Locking o.2 := by
    rw [houtputs]
    simp only [List.mem_cons, List.mem_append, Option.mem_toList,
      Option.map_eq_some_iff]
    rintro o (rfl | ⟨f, hf, rfl⟩ | ⟨d, hd, rfl⟩)
    · exact hrule.miner
    · exact (hrule.fee f hf).1
    · exact (hrule.donation d hd).1
  have howed : ∀ script, paid (rule.owed value) script ≤ paid (plan.outputs value) script := by
    intro script
    rw [houtputs, owed, paid_append, paid_append, paid_cons, paid_append]
    have hminer : paid (if value - (rule.minimums value).1 - (rule.minimums value).2 > 0 then
        [(1, rule.miner)] else []) script ≤
        paid [(value - (rule.minimums value).1 - (rule.minimums value).2, rule.miner)] script := by
      split_ifs with hleft
      · exact paid_singleton_mono hleft _ _
      · simp [paid]
    omega
  refine ⟨hsum, ?_⟩
  rw [check, hsum, if_pos]
  exact ⟨checkCommitments_locking hlocking, hvalue, fun o _ => howed o.2⟩

/-- What a client reads back from the pool's answer. -/
lemma tokenFor_allocated {rule : PayoutRule} (hrule : rule.Payable) {token : PxToken}
    (hrates : token.rates = rule.allocatedOutputs.2) :
    PxToken.decode token.encode = some token ∧
      tokenFor token.encode (serializeOutputs rule.allocatedOutputs.1) =
        .ok ((token.encode, rule.allocatedOutputs.2), rule.allocatedOutputs.1.map Prod.snd) := by
  have hindexes : token.rates.donationOutput ≠ some 0xff ∧ token.rates.feeOutput ≠ some 0xff := by
    obtain ⟨miner, donation, fee⟩ := rule
    rw [hrates]
    cases donation <;> cases fee <;> exact ⟨by simp [allocatedOutputs], by simp [allocatedOutputs]⟩
  have hdecode := PxToken.decode_encode hindexes.1 hindexes.2
  have hmem : ∀ o ∈ rule.allocatedOutputs.1, o.1 = 0 ∧ Cashaddr.Locking o.2 := by
    obtain ⟨miner, donation, fee⟩ := rule
    have hminer : Cashaddr.Locking miner := hrule.miner
    have hdonation : ∀ d ∈ donation, Cashaddr.Locking d.1 := fun d hd => (hrule.donation d hd).1
    have hfee : ∀ f ∈ fee, Cashaddr.Locking f.1 := fun f hf => (hrule.fee f hf).1
    cases donation <;> cases fee <;> simp_all [allocatedOutputs]
  have hlength : rule.allocatedOutputs.1.length < 2 ^ 64 := by
    obtain ⟨miner, donation, fee⟩ := rule
    cases donation <;> cases fee <;> simp [allocatedOutputs]
  have hlistable : ∀ o ∈ rule.allocatedOutputs.1, Listable o := by
    intro o ho
    have hlen := (hmem o ho).2.length_le
    exact ⟨by rw [(hmem o ho).1]; exact Nat.zero_le _, by omega⟩
  refine ⟨hdecode, ?_⟩
  rw [tokenFor, hdecode, parseOutputs_serializeOutputs hlength hlistable, ← hrates]
  rfl

/-- A public pool and its clients agree: what the pool allocates reaches the client whole, the
rates in the token give the pool its rule back, and a plan with the scripts and rates read
from the answer is valid and splits every reward up to the money supply into outputs that
make it up and that the pool accepts. -/
theorem client_agrees {network : MiningNetwork} {payout : List Char} {pool : PublicPool}
    {donation : BchDonation} {rule : PayoutRule}
    (hrule : publicPool network payout pool donation = .ok rule) (declared fullTemplate : Bool)
    (serial : UInt64) (secret : ByteVec 8) :
    ∃ (rates : PoolRates) (scripts : List Bytes),
      let token : PxToken := ⟨rule.allocatedOutputs.2, declared, fullTemplate, serial, secret⟩
      PxToken.decode token.encode = some token ∧
      tokenFor token.encode (serializeOutputs rule.allocatedOutputs.1) =
        .ok ((token.encode, rates), scripts) ∧
      fromRates network payout pool rates = .ok rule ∧
      ∀ plan : JdPlan, plan.p2pool = none → plan.scripts = scripts → plan.rates = rates →
        plan.isValid = true ∧
        ∀ value ≤ maxMoney, ((plan.outputs value).map Prod.fst).sum = value ∧
          rule.check (plan.outputs value) = some value := by
  have hpayable := publicPool_payable hrule
  refine ⟨rule.allocatedOutputs.2, rule.allocatedOutputs.1.map Prod.snd, ?_⟩
  intro token
  obtain ⟨hdecode, htoken⟩ := tokenFor_allocated hpayable (show token.rates = _ from rfl)
  refine ⟨hdecode, htoken, fromRates_allocatedOutputs hrule, ?_⟩
  intro plan hp2pool hscripts hrates
  exact ⟨isValid_allocated hpayable hp2pool hscripts hrates,
    fun value hvalue => check_allocated hpayable hscripts hrates hvalue⟩

/-- A pool on Chipnet that takes 1% to the donation's own address, and a miner paid there
too. -/
def samplePool : PublicPool :=
  ⟨some ⟨⟨100, by decide⟩, .coinbase⟩, donationAddress .chipnet⟩

theorem client_agrees_sample : ∃ rule,
    publicPool .chipnet (donationAddress .chipnet) samplePool .standard = .ok rule ∧
    ∃ (rates : PoolRates) (scripts : List Bytes),
      let token : PxToken := ⟨rule.allocatedOutputs.2, false, true, 1, ByteVec.zero 8⟩
      PxToken.decode token.encode = some token ∧
      tokenFor token.encode (serializeOutputs rule.allocatedOutputs.1) =
        .ok ((token.encode, rates), scripts) ∧
      fromRates .chipnet (donationAddress .chipnet) samplePool rates = .ok rule ∧
      ∀ plan : JdPlan, plan.p2pool = none → plan.scripts = scripts → plan.rates = rates →
        plan.isValid = true ∧
        ∀ value ≤ maxMoney, ((plan.outputs value).map Prod.fst).sum = value ∧
          rule.check (plan.outputs value) = some value := by
  have hok : (match publicPool .chipnet (donationAddress .chipnet) samplePool .standard with
      | .ok _ => true
      | .error _ => false) = true := by decide +kernel
  split at hok
  · rename_i rule hrule
    exact ⟨rule, hrule, client_agrees hrule false true 1 (ByteVec.zero 8)⟩
  · cases hok

end PayoutRule

end Pickaxe.Jd
