/-
# Work quotas

A device's donation and a public pool's fee are paid in mining work.  Before its first accepted
share the place in a cycle of eligible time says whose work a job is; afterwards a balance of
validated work does, with the startup phase as a part of the latest share.  Floating-point numbers
are read as rationals.  Whatever the shares' work, the balances stay within a few shares
(`quotas_within_shares`).
-/
import Mathlib.Algebra.Order.Field.Rat
import Mathlib.Tactic.Linarith
import Mathlib.Tactic.Positivity
import Pickaxe.Payout

namespace Pickaxe.Donation

open Lib

/-- `PERIOD_NS`. -/
def periodNs : ℕ := 600000000000

/-- `WorkBalance`: what each recipient of work is owed, in hashes. -/
structure WorkBalance where
  donation : ℚ
  fee : ℚ
  token : ℚ
  tokenFee : ℚ
  phase : ℚ
  share : ℚ
deriving DecidableEq

namespace WorkBalance

def donationDue (b : WorkBalance) : Bool := b.phase * b.share < b.donation

def feeDue (b : WorkBalance) : Bool := (1 - b.phase) * b.share < b.fee

def tokenDue (b : WorkBalance) : Bool := b.phase * b.share < b.token

def tokenFeeDue (b : WorkBalance) : Bool := (1 - b.phase) * b.share < b.tokenFee

end WorkBalance

/-- `WorkAllocation`; an instant is its nanoseconds. -/
structure WorkAllocation where
  position : ℕ
  last : Option ℕ
  balance : Option WorkBalance
deriving DecidableEq

/-- `f64::from(u8::from(flag))`. -/
def flag (b : Bool) : ℚ := if b then 1 else 0

/-- The donation's part of the work. -/
def workRate (rate : BchDonation) : ℚ := rate.bps / 30000

/-- The donation's part of the work where all of it is work. -/
def wholeRate (rate : BchDonation) : ℚ := rate.bps / 10000

/-- The fee's part of the work, of what the donation leaves. -/
def feeRate (rate : BchDonation) : Option PoolFee → ℚ
  | none => 0
  | some fee =>
    match fee.mode with
    | .coinbase => 0
    | .work => (1 - workRate rate) * fee.rate.bps / 10000
    | .both => (1 - workRate rate) * fee.rate.bps / 30000

/-- What `accepted` makes of the token donation's balance: shares on token jobs repay it. -/
def repayToken (payout : BchPayout) (b : WorkBalance) : WorkBalance :=
  { b with
    token := match payout.tokenDonationWork with
      | some tokenWork =>
        b.token + b.share * (wholeRate payout.donation - flag (tokenWork || payout.donationWork))
      | none => b.token }

/-- What `accepted` makes of the token fee's balance. -/
def repayTokenFee (payout : BchPayout) (b : WorkBalance) : WorkBalance :=
  { b with
    tokenFee := match payout.tokenFeeWork, payout.fee with
      | some tokenWork, some fee =>
        b.tokenFee + b.share * ((1 - wholeRate payout.donation) * fee.rate.bps / 10000 -
          flag (tokenWork || payout.feeWork))
      | _, _ => b.tokenFee }

namespace WorkAllocation

/-- `WorkAllocation::new`. -/
def new (phase : ℕ) : WorkAllocation := ⟨phase % periodNs, none, none⟩

/-- `WorkAllocation::advance`. -/
def advance (a : WorkAllocation) (elapsed : ℕ) : WorkAllocation :=
  { a with position := (a.position + elapsed % periodNs) % periodNs }

/-- `WorkAllocation::update`. -/
def update (a : WorkAllocation) (now : ℕ) (available : Bool) : WorkAllocation :=
  if available then
    let advanced := match a.last with
      | some last => a.advance (now - last)
      | none => a
    { advanced with last := some now }
  else { a with last := none }

/-- `WorkAllocation::donation_work`. -/
def donationWork (a : WorkAllocation) (rate : BchDonation) : Bool :=
  match a.balance with
  | none => a.position < rate.workUnits periodNs
  | some balance => rate.bps ≠ 0 && balance.donationDue

/-- `WorkAllocation::pool_donation_work`. -/
def poolDonationWork (a : WorkAllocation) (rate : BchDonation) : Bool :=
  match a.balance with
  | none => a.position < rate.poolWorkUnits periodNs
  | some balance => rate.bps = 10000 || (rate.bps ≠ 0 && balance.donationDue)

/-- `WorkAllocation::merge_token_donation_work`. -/
def mergeTokenDonationWork (a : WorkAllocation) (rate : BchDonation) : Bool :=
  match a.balance with
  | none => a.position < rate.poolWorkUnits periodNs
  | some balance => rate.bps ≠ 0 && balance.tokenDue

/-- `WorkAllocation::merge_token_fee_work`. -/
def mergeTokenFeeWork (a : WorkAllocation) (rate : BchDonation) (fee : PoolFee) : Bool :=
  match a.balance with
  | some balance => fee.rate.bps ≠ 0 && balance.tokenFeeDue
  | none =>
    let donation := rate.poolWorkUnits periodNs
    let fee := fee.rate.poolWorkUnits (periodNs - donation)
    donation ≤ a.position && a.position < donation + fee

/-- `WorkAllocation::fee_work`. -/
def feeWork (a : WorkAllocation) (rate : BchDonation) (fee : PoolFee) : Bool :=
  match a.balance with
  | some balance => fee.workUnits periodNs ≠ 0 && balance.feeDue
  | none =>
    let donation := rate.workUnits periodNs
    let fee := fee.workUnits (periodNs - donation)
    donation ≤ a.position && a.position < donation + fee

/-- `WorkAllocation::credit`, for a share worth so many hashes. -/
def credit (a : WorkAllocation) (hashes donation fee : ℚ) (donated charged : Bool) :
    WorkAllocation :=
  let balance := a.balance.getD ⟨0, 0, 0, 0, a.position / periodNs, hashes⟩
  { a with balance := some { balance with
      share := hashes
      donation := balance.donation + hashes * (donation - flag donated)
      fee := balance.fee + hashes * (fee - flag charged) } }

/-- `WorkAllocation::accepted`, for a share worth so many hashes. -/
def acceptedWork (a : WorkAllocation) (hashes : ℚ) (payout : BchPayout) : WorkAllocation :=
  let credited := a.credit hashes (workRate payout.donation) (feeRate payout.donation payout.fee)
    payout.donationWork payout.feeWork
  { credited with
    balance := credited.balance.map fun b => repayTokenFee payout (repayToken payout b) }

/-- `WorkAllocation::pool_accepted`, for a share worth so many hashes. -/
def poolAcceptedWork (a : WorkAllocation) (hashes : ℚ) (rate : BchDonation) (donation : Bool) :
    WorkAllocation :=
  a.credit hashes (wholeRate rate) 0 donation false

/-- `telemetry::expected_hashes`. -/
def expectedHashes (target : ByteVec 32) : ℚ := 2 ^ 256 / (fromLe target.bytes + 1)

/-- `WorkAllocation::accepted`. -/
def accepted (a : WorkAllocation) (target : ByteVec 32) (payout : BchPayout) : WorkAllocation :=
  a.acceptedWork (expectedHashes target) payout

/-- `WorkAllocation::pool_accepted`. -/
def poolAccepted (a : WorkAllocation) (target : ByteVec 32) (rate : BchDonation)
    (donation : Bool) : WorkAllocation :=
  a.poolAcceptedWork (expectedHashes target) rate donation

/-- The payout of a job made now, for BCH at `rate` with a public pool's fee; `merged` where the
job merge-mines a token without split support. -/
def jobPayout (a : WorkAllocation) (rate : BchDonation) (fee : Option PoolFee) (merged : Bool) :
    BchPayout :=
  let donationWork := a.donationWork rate
  let feeWork := !donationWork && fee.any (a.feeWork rate)
  let tokenDonationWork :=
    if merged then some (donationWork || a.mergeTokenDonationWork rate) else none
  { donation := rate
    donationWork := donationWork
    fee := fee
    feeWork := feeWork
    tokenDonationWork := tokenDonationWork
    tokenFeeWork :=
      match merged, fee with
      | true, some fee =>
        some (feeWork || (tokenDonationWork ≠ some true && a.mergeTokenFeeWork rate fee))
      | _, _ => none }

end WorkAllocation

/-! ## Rates -/

section

variable (rate : BchDonation) (fee : Option PoolFee)

lemma cast_bps_le : (rate.bps : ℚ) ≤ 10000 := by
  exact_mod_cast rate.bps_le

lemma workRate_nonneg : 0 ≤ workRate rate := by
  rw [workRate]
  positivity

lemma wholeRate_nonneg : 0 ≤ wholeRate rate := by
  rw [wholeRate]
  positivity

lemma wholeRate_le_one : wholeRate rate ≤ 1 := by
  have := cast_bps_le rate
  rw [wholeRate, div_le_one (by norm_num)]
  exact this

/-- The whole rate is three times what is work for BCH. -/
lemma wholeRate_eq : wholeRate rate = 3 * workRate rate := by
  rw [wholeRate, workRate]
  ring

lemma feeRate_nonneg : 0 ≤ feeRate rate fee := by
  have hd : 0 ≤ 1 - workRate rate := by
    linarith [wholeRate_le_one rate, wholeRate_eq rate, workRate_nonneg rate]
  rcases fee with _ | ⟨feeBps, _ | _ | _⟩ <;> simp only [feeRate] <;> positivity

/-- The donation and the fee are together no more than the work. -/
lemma workRate_add_feeRate_le : workRate rate + feeRate rate fee ≤ 1 := by
  have hd : 0 ≤ 1 - workRate rate := by
    linarith [wholeRate_le_one rate, wholeRate_eq rate, workRate_nonneg rate]
  have hpart : ∀ (bps : BchDonation) (divisor : ℚ), 10000 ≤ divisor →
      (1 - workRate rate) * bps.bps / divisor ≤ 1 - workRate rate := by
    intro bps divisor hdivisor
    rw [div_le_iff₀ (by linarith)]
    exact mul_le_mul_of_nonneg_left ((cast_bps_le bps).trans hdivisor) hd
  rcases fee with _ | ⟨feeBps, _ | _ | _⟩ <;> simp only [feeRate]
  · linarith
  · linarith
  · linarith [hpart feeBps 10000 le_rfl]
  · linarith [hpart feeBps 30000 (by norm_num)]

end

/-! ## One share -/

section

variable {owed hashes part bound : ℚ} {taken : Bool}

/-- A balance stays below twice the largest share, if it is repaid wherever it is above one. -/
lemma owed_le (hpart : 0 ≤ part ∧ part ≤ 1) (hpos : 0 ≤ hashes) (hle : hashes ≤ bound)
    (hnot : taken = false → owed ≤ bound) (h : owed ≤ 2 * bound) :
    owed + hashes * (part - flag taken) ≤ 2 * bound := by
  cases taken with
  | false =>
    have : hashes * part ≤ hashes := mul_le_of_le_one_right hpos hpart.2
    simp only [flag, Bool.false_eq_true, if_false, sub_zero]
    linarith [hnot rfl]
  | true =>
    have : 0 ≤ hashes * (1 - part) := mul_nonneg hpos (by linarith [hpart.2])
    simp only [flag, if_true]
    linarith

/-- And above minus the largest share, if it is repaid only where something is owed. -/
lemma neg_le_owed (hpart : 0 ≤ part) (hpos : 0 ≤ hashes) (hle : hashes ≤ bound)
    (hdue : taken = true → 0 ≤ owed ∨ part = 1) (h : -bound ≤ owed) :
    -bound ≤ owed + hashes * (part - flag taken) := by
  have hgain : 0 ≤ hashes * part := mul_nonneg hpos hpart
  cases taken with
  | false =>
    simp only [flag, Bool.false_eq_true, if_false, sub_zero]
    linarith
  | true =>
    simp only [flag, if_true]
    rcases hdue rfl with hdue | hone
    · linarith
    · rw [hone]
      linarith

end

/-! ## The balances of a run -/

/-- A balance after a share. -/
def WorkBalance.after (b : WorkBalance) (hashes : ℚ) (payout : BchPayout) : WorkBalance :=
  repayTokenFee payout (repayToken payout { b with
    share := hashes
    donation := b.donation + hashes * (workRate payout.donation - flag payout.donationWork)
    fee := b.fee + hashes * (feeRate payout.donation payout.fee - flag payout.feeWork) })

/-- The balance the first share starts from. -/
def WorkBalance.fresh (phase hashes : ℚ) : WorkBalance := ⟨0, 0, 0, 0, phase, hashes⟩

/-- What holds of the balances when no share was larger than `bound`. -/
structure Within (rate : BchDonation) (pool : Option PoolFee) (bound : ℚ) (b : WorkBalance) :
    Prop where
  phase : 0 ≤ b.phase ∧ b.phase ≤ 1
  share : 0 ≤ b.share ∧ b.share ≤ bound
  donation : -bound ≤ b.donation ∧ b.donation ≤ 2 * bound
  fee : -bound ≤ b.fee
  both : b.donation + b.fee ≤ 2 * bound
  token : b.token ≤ 2 * bound
  donation_zero : workRate rate = 0 → b.donation ≤ 0
  fee_zero : feeRate rate pool = 0 → b.fee ≤ 0
  token_zero : wholeRate rate = 0 → b.token ≤ 0

/-- What the answers on a job say of the balances it was made at. -/
structure Decides (bound : ℚ) (b : WorkBalance) (payout : BchPayout) : Prop where
  donated : payout.donationWork = true → 0 ≤ b.donation
  charged : payout.feeWork = true → payout.donationWork = false ∧ 0 ≤ b.fee
  kept : payout.donationWork = false → b.donation ≤ bound
  neither : payout.donationWork = false → payout.feeWork = false → b.donation + b.fee ≤ bound
  token : payout.tokenDonationWork = some false → payout.donationWork = false ∧ b.token ≤ bound
  tokenOnly : payout.tokenDonationWork = some true → payout.donationWork = false →
    b.donation ≤ b.token

section

variable {rate : BchDonation} {pool : Option PoolFee} {bound hashes : ℚ} {b : WorkBalance}
  {payout : BchPayout}

lemma after_token_none (h : payout.tokenDonationWork = none) :
    (b.after hashes payout).token = b.token := by
  show (match payout.tokenDonationWork with | some _ => _ | none => _) = _
  simp only [h]

lemma after_token_some {tokenWork : Bool} (h : payout.tokenDonationWork = some tokenWork) :
    (b.after hashes payout).token = b.token + hashes *
      (wholeRate payout.donation - flag (tokenWork || payout.donationWork)) := by
  show (match payout.tokenDonationWork with | some _ => _ | none => _) = _
  simp only [h]

/-- A share of no more than the bound keeps the balances within it. -/
lemma Within.after (hw : Within rate pool bound b) (hdec : Decides bound b payout)
    (hrate : payout.donation = rate) (hpool : payout.fee = pool) (hpos : 0 ≤ hashes)
    (hle : hashes ≤ bound) : Within rate pool bound (b.after hashes payout) := by
  subst hrate hpool
  have hd0 := workRate_nonneg payout.donation
  have hf0 := feeRate_nonneg payout.donation payout.fee
  have hr0 := wholeRate_nonneg payout.donation
  have hr1 := wholeRate_le_one payout.donation
  have hdf := workRate_add_feeRate_le payout.donation payout.fee
  have hloss : ∀ {part : ℚ} (taken : Bool), part = 0 → hashes * (part - flag taken) ≤ 0 := by
    rintro part taken rfl
    cases taken <;> simp [flag, hpos]
  refine ⟨hw.phase, ⟨hpos, hle⟩, ⟨?_, ?_⟩, ?_, ?_, ?_, ?_, ?_, ?_⟩
  · exact neg_le_owed hd0 hpos hle (fun h => .inl (hdec.donated h)) hw.donation.1
  · exact owed_le ⟨hd0, by linarith⟩ hpos hle hdec.kept hw.donation.2
  · exact neg_le_owed hf0 hpos hle (fun h => .inl (hdec.charged h).2) hw.fee
  · -- Donation and fee together are one balance, repaid by the work of either.
    have hjoint : b.donation + b.fee +
        hashes * (workRate payout.donation + feeRate payout.donation payout.fee -
          flag (payout.donationWork || payout.feeWork)) ≤ 2 * bound :=
      owed_le ⟨by linarith, hdf⟩ hpos hle (fun h => hdec.neither (Bool.or_eq_false_iff.mp h).1
        (Bool.or_eq_false_iff.mp h).2) hw.both
    have hflag : flag (payout.donationWork || payout.feeWork) =
        flag payout.donationWork + flag payout.feeWork := by
      cases hcharged : payout.feeWork with
      | false => simp [flag]
      | true => simp [flag, (hdec.charged hcharged).1]
    rw [hflag] at hjoint
    show b.donation + _ + (b.fee + _) ≤ _
    linarith
  · cases htoken : payout.tokenDonationWork with
    | none =>
      rw [after_token_none htoken]
      exact hw.token
    | some tokenWork =>
      rw [after_token_some htoken]
      refine owed_le ⟨hr0, hr1⟩ hpos hle (fun h => (hdec.token ?_).2) hw.token
      rw [htoken, (Bool.or_eq_false_iff.mp h).1]
  · intro h
    exact add_nonpos (hw.donation_zero h) (hloss _ h)
  · intro h
    exact add_nonpos (hw.fee_zero h) (hloss _ h)
  · intro h
    cases htoken : payout.tokenDonationWork with
    | none =>
      rw [after_token_none htoken]
      exact hw.token_zero h
    | some tokenWork =>
      rw [after_token_some htoken]
      exact add_nonpos (hw.token_zero h) (hloss _ h)

/-- On token jobs the token donation never falls behind the donation by more than a share: only
where it is owed more does it take a job of its own. -/
lemma token_after (hdec : Decides bound b payout) (hpos : 0 ≤ hashes) (hle : hashes ≤ bound)
    (htoken : payout.tokenDonationWork ≠ none) (h : -bound ≤ b.token - b.donation) :
    -bound ≤ (b.after hashes payout).token - (b.after hashes payout).donation := by
  obtain ⟨tokenWork, htoken⟩ := Option.ne_none_iff_exists'.mp htoken
  have hd0 := mul_nonneg hpos (workRate_nonneg payout.donation)
  have hdonation : (b.after hashes payout).donation =
      b.donation + hashes * (workRate payout.donation - flag payout.donationWork) := rfl
  rw [after_token_some htoken, hdonation, wholeRate_eq]
  cases hdonated : payout.donationWork with
  | true =>
    simp only [Bool.or_true, flag, if_true]
    linarith
  | false =>
    cases tokenWork with
    | false =>
      simp only [Bool.or_false, flag, Bool.false_eq_true, if_false]
      linarith
    | true =>
      have hmore := hdec.tokenOnly htoken hdonated
      simp only [Bool.or_false, flag, Bool.false_eq_true, if_true, if_false]
      linarith

/-- A due date is a part of the latest share. -/
lemma Within.threshold (hw : Within rate pool bound b) :
    0 ≤ b.phase * b.share ∧ b.phase * b.share ≤ bound ∧ 0 ≤ (1 - b.phase) * b.share := by
  have hle : b.phase * b.share ≤ b.share := mul_le_of_le_one_left hw.share.1 hw.phase.2
  exact ⟨mul_nonneg hw.phase.1 hw.share.1, hle.trans hw.share.2,
    mul_nonneg (by linarith [hw.phase.2]) hw.share.1⟩

lemma feeRate_eq_zero {fee : PoolFee} (h : fee.workUnits periodNs = 0) :
    feeRate rate (some fee) = 0 := by
  obtain ⟨⟨bps, hbps⟩, _ | _ | _⟩ := fee <;>
    simp only [PoolFee.workUnits, BchDonation.poolWorkUnits, BchDonation.workUnits, periodNs,
      feeRate] at h ⊢
  · obtain rfl : bps = 0 := by omega
    simp
  · obtain rfl : bps = 0 := by omega
    simp

section

variable {a : WorkAllocation} (hw : Within rate pool bound b) (hb : a.balance = some b)

include hw hb

omit hw in
lemma donationWork_true (h : a.donationWork rate = true) : b.phase * b.share < b.donation := by
  rw [WorkAllocation.donationWork, hb] at h
  simpa [WorkBalance.donationDue] using (Bool.and_eq_true_iff.mp h).2

lemma donationWork_false (h : a.donationWork rate = false) : b.donation ≤ b.phase * b.share := by
  rw [WorkAllocation.donationWork, hb] at h
  rcases Bool.and_eq_false_iff.mp h with hzero | hdue
  · have hbps : rate.bps = 0 := by simpa using hzero
    exact (hw.donation_zero (by simp [workRate, hbps])).trans hw.threshold.1
  · simpa [WorkBalance.donationDue] using hdue

omit hw in
lemma mergeToken_true (h : a.mergeTokenDonationWork rate = true) :
    b.phase * b.share < b.token := by
  rw [WorkAllocation.mergeTokenDonationWork, hb] at h
  simpa [WorkBalance.tokenDue] using (Bool.and_eq_true_iff.mp h).2

lemma mergeToken_false (h : a.mergeTokenDonationWork rate = false) :
    b.token ≤ b.phase * b.share := by
  rw [WorkAllocation.mergeTokenDonationWork, hb] at h
  rcases Bool.and_eq_false_iff.mp h with hzero | hdue
  · have hbps : rate.bps = 0 := by simpa using hzero
    exact (hw.token_zero (by simp [wholeRate, hbps])).trans hw.threshold.1
  · simpa [WorkBalance.tokenDue] using hdue

omit hw in
lemma feeWork_true (h : pool.any (a.feeWork rate) = true) : (1 - b.phase) * b.share < b.fee := by
  cases pool with
  | none => cases h
  | some fee =>
    rw [Option.any_some, WorkAllocation.feeWork, hb] at h
    simpa [WorkBalance.feeDue] using (Bool.and_eq_true_iff.mp h).2

lemma feeWork_false (h : pool.any (a.feeWork rate) = false) :
    b.fee ≤ (1 - b.phase) * b.share := by
  cases pool with
  | none => exact (hw.fee_zero rfl).trans hw.threshold.2.2
  | some fee =>
    rw [Option.any_some, WorkAllocation.feeWork, hb] at h
    rcases Bool.and_eq_false_iff.mp h with hzero | hdue
    · exact (hw.fee_zero (feeRate_eq_zero (by simpa using hzero))).trans hw.threshold.2.2
    · simpa [WorkBalance.feeDue] using hdue

/-- The answers on a job where a share was accepted already. -/
lemma decides_of_balance (merged : Bool) : Decides bound b (a.jobPayout rate pool merged) := by
  obtain ⟨hlo, hhi, hfee⟩ := hw.threshold
  constructor
  · intro h
    exact (hlo.trans_lt (donationWork_true hb h)).le
  · intro h
    obtain ⟨hnot, hfeeWork⟩ := Bool.and_eq_true_iff.mp h
    exact ⟨Bool.eq_false_of_not_eq_true' hnot, (hfee.trans_lt (feeWork_true hb hfeeWork)).le⟩
  · intro h
    exact (donationWork_false hw hb h).trans hhi
  · intro h hcharged
    have hd := donationWork_false hw hb h
    have hnot : pool.any (a.feeWork rate) = false := by
      rcases Bool.and_eq_false_iff.mp hcharged with hdonated | hfeeWork
      · rw [show a.donationWork rate = false from h] at hdonated
        cases hdonated
      · exact hfeeWork
    have hf := feeWork_false hw hb hnot
    linarith [hw.share.2]
  · intro h
    cases merged with
    | false => cases h
    | true =>
      obtain ⟨hnot, htoken⟩ := Bool.or_eq_false_iff.mp (Option.some.inj h)
      exact ⟨hnot, (mergeToken_false hw hb htoken).trans hhi⟩
  · intro h hnot
    cases merged with
    | false => cases h
    | true =>
      rcases Bool.or_eq_true_iff.mp (Option.some.inj h) with hdonated | htoken
      · rw [show a.donationWork rate = false from hnot] at hdonated
        cases hdonated
      · exact (donationWork_false hw hb hnot).trans (mergeToken_true hb htoken).le

end

/-- And before the first one, where nobody is owed anything. -/
lemma decides_of_fresh {a : WorkAllocation} (hbound : 0 ≤ bound) (phase : ℚ) (merged : Bool) :
    Decides bound (.fresh phase hashes) (a.jobPayout rate pool merged) := by
  refine ⟨fun _ => le_rfl, fun h => ⟨?_, le_rfl⟩, fun _ => hbound, fun _ _ => ?_, fun h => ?_,
    fun _ _ => le_rfl⟩
  · exact Bool.eq_false_of_not_eq_true' (Bool.and_eq_true_iff.mp h).1
  · show (0 : ℚ) + 0 ≤ bound
    linarith
  · cases merged with
    | false => cases h
    | true => exact ⟨(Bool.or_eq_false_iff.mp (Option.some.inj h)).1, hbound⟩

end

/-! ## Runs -/

/-- What a device's session does with its allocation: it looks at the clock, or a share of some
work is accepted, on a job that merge-mines a token without split support or not. -/
inductive Event where
  | update (now : ℕ) (available : Bool)
  | share (work : ℚ) (merged : Bool)

/-- An event whose share, if it is one, has a work of at most `bound`. -/
def Event.AtMost (bound : ℚ) : Event → Prop
  | .update _ _ => True
  | .share work _ => 0 < work ∧ work ≤ bound

/-- An event whose share, if it is one, is on a job with tokens. -/
def Event.Merged : Event → Prop
  | .update _ _ => True
  | .share _ merged => merged = true

/-- An allocation and the books on all shares so far. -/
structure Books where
  allocation : WorkAllocation
  total : ℚ
  donated : ℚ
  charged : ℚ
  tokenTotal : ℚ
  tokenDonated : ℚ

namespace Books

/-- Before the first share. -/
def start (phase : ℕ) : Books := ⟨.new phase, 0, 0, 0, 0, 0⟩

/-- A share is accepted on a job that follows the answers of the moment. -/
def step (rate : BchDonation) (pool : Option PoolFee) (s : Books) : Event → Books
  | .update now available => { s with allocation := s.allocation.update now available }
  | .share work merged =>
    let payout := s.allocation.jobPayout rate pool merged
    { allocation := s.allocation.acceptedWork work payout
      total := s.total + work
      donated := s.donated + work * flag payout.donationWork
      charged := s.charged + work * flag payout.feeWork
      tokenTotal := s.tokenTotal + work * flag merged
      tokenDonated := s.tokenDonated + work * flag (payout.tokenDonationWork == some true) }

def run (rate : BchDonation) (pool : Option PoolFee) (phase : ℕ) (events : List Event) : Books :=
  events.foldl (step rate pool) (start phase)

/-- The same at a remote pool, where the whole donation is work. -/
def poolStep (rate : BchDonation) (s : Books) : Event → Books
  | .update now available => { s with allocation := s.allocation.update now available }
  | .share work _ =>
    let donate := s.allocation.poolDonationWork rate
    { s with
      allocation := s.allocation.poolAcceptedWork work rate donate
      total := s.total + work
      donated := s.donated + work * flag donate }

def poolRun (rate : BchDonation) (phase : ℕ) (events : List Event) : Books :=
  events.foldl (poolStep rate) (start phase)

/-- The balances are what the books say. -/
structure Agrees (rate : BchDonation) (pool : Option PoolFee) (bound : ℚ) (s : Books)
    (b : WorkBalance) : Prop where
  within : Within rate pool bound b
  donation : b.donation = workRate rate * s.total - s.donated
  fee : b.fee = feeRate rate pool * s.total - s.charged
  token : b.token = wholeRate rate * s.tokenTotal - s.tokenDonated

/-- What every run keeps. -/
structure Sound (rate : BchDonation) (pool : Option PoolFee) (bound : ℚ) (s : Books) : Prop where
  position : s.allocation.position < periodNs
  fresh : s.allocation.balance = none →
    s.total = 0 ∧ s.donated = 0 ∧ s.charged = 0 ∧ s.tokenTotal = 0 ∧ s.tokenDonated = 0
  agrees : ∀ b, s.allocation.balance = some b → Agrees rate pool bound s b

end Books

namespace WorkAllocation

variable (a : WorkAllocation) (now : ℕ) (available : Bool)

@[simp] lemma balance_update : (a.update now available).balance = a.balance := by
  rw [update]
  split
  · cases a.last <;> rfl
  · rfl

lemma position_update (h : a.position < periodNs) :
    (a.update now available).position < periodNs := by
  rw [update]
  split
  · cases a.last with
    | none => exact h
    | some last => exact Nat.mod_lt _ (by decide)
  · exact h

end WorkAllocation

section

variable {rate : BchDonation} {pool : Option PoolFee} {bound : ℚ} {s : Books} {event : Event}

lemma phase_le {position : ℕ} (h : position < periodNs) :
    0 ≤ (position : ℚ) / periodNs ∧ (position : ℚ) / periodNs ≤ 1 := by
  have hperiod : (0 : ℚ) < periodNs := by
    norm_num [periodNs]
  refine ⟨by positivity, ?_⟩
  rw [div_le_one hperiod]
  exact_mod_cast h.le

lemma within_fresh {phase work : ℚ} (hphase : 0 ≤ phase ∧ phase ≤ 1) (hpos : 0 ≤ work)
    (hle : work ≤ bound) : Within rate pool bound (.fresh phase work) := by
  refine ⟨hphase, ⟨hpos, hle⟩, ?_, ?_, ?_, ?_, fun _ => le_rfl, fun _ => le_rfl, fun _ => le_rfl⟩
  all_goals simp only [WorkBalance.fresh]
  · constructor <;> linarith
  · linarith
  · linarith
  · linarith

namespace Books

/-- The balance a share meets, fresh or not. -/
def balance (s : Books) (work : ℚ) : WorkBalance :=
  s.allocation.balance.getD (.fresh (s.allocation.position / periodNs) work)

lemma Sound.meets (h : s.Sound rate pool bound) {work : ℚ} (hpos : 0 < work) (hle : work ≤ bound)
    (merged : Bool) :
    Agrees rate pool bound s (s.balance work) ∧
      Decides bound (s.balance work) (s.allocation.jobPayout rate pool merged) := by
  cases hb : s.allocation.balance with
  | some b =>
    have hagrees := h.agrees b hb
    rw [balance, hb, Option.getD_some]
    exact ⟨hagrees, decides_of_balance hagrees.within hb merged⟩
  | none =>
    obtain ⟨htotal, hdonated, hcharged, htokenTotal, htokenDonated⟩ := h.fresh hb
    rw [balance, hb, Option.getD_none]
    refine ⟨⟨within_fresh (phase_le h.position) hpos.le hle, ?_, ?_, ?_⟩,
      decides_of_fresh (hpos.le.trans hle) _ merged⟩
    all_goals
      simp only [WorkBalance.fresh, htotal, hdonated, hcharged, htokenTotal, htokenDonated]
      ring

/-- A share is booked as it is balanced. -/
lemma Agrees.after {b : WorkBalance} (h : Agrees rate pool bound s b) {work : ℚ} {merged : Bool}
    (hdec : Decides bound b (s.allocation.jobPayout rate pool merged)) (hpos : 0 < work)
    (hle : work ≤ bound) (allocation : WorkAllocation) :
    Agrees rate pool bound { s.step rate pool (.share work merged) with allocation := allocation }
      (b.after work (s.allocation.jobPayout rate pool merged)) := by
  set payout := s.allocation.jobPayout rate pool merged with hpayout
  refine ⟨h.within.after hdec rfl rfl hpos.le hle, ?_, ?_, ?_⟩
  · show b.donation + work * (workRate rate - flag payout.donationWork) =
      workRate rate * (s.total + work) - (s.donated + work * flag payout.donationWork)
    rw [h.donation]
    ring
  · show b.fee + work * (feeRate rate pool - flag payout.feeWork) =
      feeRate rate pool * (s.total + work) - (s.charged + work * flag payout.feeWork)
    rw [h.fee]
    ring
  · show (b.after work payout).token = wholeRate rate * (s.tokenTotal + work * flag merged) -
      (s.tokenDonated + work * flag (payout.tokenDonationWork == some true))
    cases merged with
    | false =>
      have hnone : payout.tokenDonationWork = none := rfl
      rw [after_token_none hnone, hnone, h.token]
      simp [flag]
    | true =>
      have hsome : payout.tokenDonationWork =
          some (payout.donationWork || s.allocation.mergeTokenDonationWork rate) := rfl
      rw [after_token_some hsome, hsome, h.token]
      cases payout.donationWork <;> cases s.allocation.mergeTokenDonationWork rate <;>
        simp [flag, hpayout, WorkAllocation.jobPayout] <;> ring

lemma Sound.step (h : s.Sound rate pool bound) (hevent : event.AtMost bound) :
    (s.step rate pool event).Sound rate pool bound := by
  cases event with
  | update now available =>
    refine ⟨WorkAllocation.position_update _ _ _ h.position, fun hnone => ?_, fun b hb => ?_⟩
    · exact h.fresh (by simpa [Books.step] using hnone)
    · have hagrees := h.agrees b (by simpa [Books.step] using hb)
      exact ⟨hagrees.within, hagrees.donation, hagrees.fee, hagrees.token⟩
  | share work merged =>
    obtain ⟨hpos, hle⟩ := hevent
    obtain ⟨hagrees, hdec⟩ := h.meets hpos hle merged
    refine ⟨h.position, nofun, fun b hb => ?_⟩
    obtain rfl := Option.some.inj hb
    exact hagrees.after hdec hpos hle _

lemma sound_start (phase : ℕ) : (start phase).Sound rate pool bound :=
  ⟨Nat.mod_lt _ (by decide), fun _ => ⟨rfl, rfl, rfl, rfl, rfl⟩, nofun⟩

lemma sound_run (phase : ℕ) {events : List Event}
    (hevents : ∀ event ∈ events, event.AtMost bound) :
    (run rate pool phase events).Sound rate pool bound := by
  induction events using List.reverseRecOn with
  | nil => exact sound_start phase
  | append_singleton events event ih =>
    rw [run, List.foldl_append]
    exact (ih fun e he => hevents e (List.mem_append_left _ he)).step
      (hevents event (List.mem_append_right _ List.mem_cons_self))

/-! ## Tokens -/

/-- What runs on token jobs alone keep besides. -/
structure TokenSound (bound : ℚ) (s : Books) : Prop where
  total : s.tokenTotal = s.total
  ahead : ∀ b, s.allocation.balance = some b → -bound ≤ b.token - b.donation

lemma TokenSound.step (h : s.Sound rate pool bound) (ht : s.TokenSound bound)
    (hevent : event.AtMost bound) (hmerged : event.Merged) :
    (s.step rate pool event).TokenSound bound := by
  cases event with
  | update now available =>
    exact ⟨ht.total, fun b hb => ht.ahead b (by simpa [Books.step] using hb)⟩
  | share work merged =>
    obtain ⟨hpos, hle⟩ := hevent
    obtain rfl : merged = true := hmerged
    obtain ⟨-, hdec⟩ := h.meets hpos hle true
    have hahead : -bound ≤ (s.balance work).token - (s.balance work).donation := by
      rw [balance]
      cases hb : s.allocation.balance with
      | some b => exact ht.ahead b hb
      | none =>
        simp only [Option.getD_none, WorkBalance.fresh]
        linarith
    refine ⟨?_, fun b hb => ?_⟩
    · show s.tokenTotal + work * flag true = s.total + work
      rw [ht.total, flag, if_pos rfl, mul_one]
    · obtain rfl := Option.some.inj hb
      exact token_after hdec hpos.le hle (by simp [WorkAllocation.jobPayout]) hahead

lemma tokenSound_run (phase : ℕ) {events : List Event}
    (hevents : ∀ event ∈ events, event.AtMost bound) (hmerged : ∀ event ∈ events, event.Merged) :
    (run rate pool phase events).TokenSound bound := by
  induction events using List.reverseRecOn with
  | nil => exact ⟨rfl, nofun⟩
  | append_singleton events event ih =>
    have hbefore : ∀ e ∈ events, e.AtMost bound :=
      fun e he => hevents e (List.mem_append_left _ he)
    rw [run, List.foldl_append]
    exact (ih hbefore fun e he => hmerged e (List.mem_append_left _ he)).step
      (sound_run phase hbefore) (hevents event (List.mem_append_right _ List.mem_cons_self))
      (hmerged event (List.mem_append_right _ List.mem_cons_self))

/-! ## At a remote pool -/

/-- The balance is what the books say, and within two shares. -/
structure PoolAgrees (rate : BchDonation) (bound : ℚ) (s : Books) (b : WorkBalance) : Prop where
  phase : 0 ≤ b.phase ∧ b.phase ≤ 1
  share : 0 ≤ b.share ∧ b.share ≤ bound
  donation : b.donation = wholeRate rate * s.total - s.donated
  owed : -bound ≤ b.donation ∧ b.donation ≤ 2 * bound
  zero : wholeRate rate = 0 → b.donation ≤ 0

/-- What runs at a remote pool keep. -/
structure PoolSound (rate : BchDonation) (bound : ℚ) (s : Books) : Prop where
  position : s.allocation.position < periodNs
  fresh : s.allocation.balance = none → s.total = 0 ∧ s.donated = 0
  agrees : ∀ b, s.allocation.balance = some b → PoolAgrees rate bound s b

/-- The pool's answer says what the balance is that the share meets. -/
lemma PoolSound.meets (h : s.PoolSound rate bound) {work : ℚ} (hpos : 0 < work)
    (hle : work ≤ bound) :
    PoolAgrees rate bound s (s.balance work) ∧
      (s.allocation.poolDonationWork rate = true →
        0 ≤ (s.balance work).donation ∨ wholeRate rate = 1) ∧
      (s.allocation.poolDonationWork rate = false → (s.balance work).donation ≤ bound) := by
  have hbound : 0 ≤ bound := hpos.le.trans hle
  cases hb : s.allocation.balance with
  | none =>
    obtain ⟨htotal, hdonated⟩ := h.fresh hb
    rw [balance, hb, Option.getD_none]
    refine ⟨⟨phase_le h.position, ⟨hpos.le, hle⟩, ?_, ?_, fun _ => le_rfl⟩,
      fun _ => .inl le_rfl, fun _ => hbound⟩
    · simp [WorkBalance.fresh, htotal, hdonated]
    · simp only [WorkBalance.fresh]
      constructor <;> linarith
  | some b =>
    have hagrees := h.agrees b hb
    have hlo : 0 ≤ b.phase * b.share := mul_nonneg hagrees.phase.1 hagrees.share.1
    have hhi : b.phase * b.share ≤ bound :=
      (mul_le_of_le_one_left hagrees.share.1 hagrees.phase.2).trans hagrees.share.2
    rw [balance, hb, Option.getD_some, WorkAllocation.poolDonationWork, hb]
    refine ⟨hagrees, fun hdonate => ?_, fun hnot => ?_⟩
    · rcases Bool.or_eq_true_iff.mp hdonate with hall | hdue
      · right
        have hbps : rate.bps = 10000 := by simpa using hall
        norm_num [wholeRate, hbps]
      · left
        have hlt : b.phase * b.share < b.donation := by
          simpa [WorkBalance.donationDue] using (Bool.and_eq_true_iff.mp hdue).2
        exact (hlo.trans_lt hlt).le
    · rcases Bool.and_eq_false_iff.mp (Bool.or_eq_false_iff.mp hnot).2 with hzero | hdue
      · have hbps : rate.bps = 0 := by simpa using hzero
        exact (hagrees.zero (by simp [wholeRate, hbps])).trans hbound
      · have hle : b.donation ≤ b.phase * b.share := by
          simpa [WorkBalance.donationDue] using hdue
        exact hle.trans hhi

lemma PoolSound.step (h : s.PoolSound rate bound) (hevent : event.AtMost bound) :
    (s.poolStep rate event).PoolSound rate bound := by
  cases event with
  | update now available =>
    refine ⟨WorkAllocation.position_update _ _ _ h.position, fun hnone => ?_, fun b hb => ?_⟩
    · exact h.fresh (by simpa [Books.poolStep] using hnone)
    · have hagrees := h.agrees b (by simpa [Books.poolStep] using hb)
      exact ⟨hagrees.phase, hagrees.share, hagrees.donation, hagrees.owed, hagrees.zero⟩
  | share work merged =>
    obtain ⟨hpos, hle⟩ := hevent
    obtain ⟨hagrees, hdonate, hnot⟩ := h.meets hpos hle
    refine ⟨h.position, nofun, fun b hb => ?_⟩
    obtain rfl := Option.some.inj hb
    refine ⟨hagrees.phase, ⟨hpos.le, hle⟩, ?_, ⟨?_, ?_⟩, fun hzero => ?_⟩
    · show (s.balance work).donation +
          work * (wholeRate rate - flag (s.allocation.poolDonationWork rate)) =
        wholeRate rate * (s.total + work) -
          (s.donated + work * flag (s.allocation.poolDonationWork rate))
      rw [hagrees.donation]
      ring
    · exact neg_le_owed (wholeRate_nonneg rate) hpos.le hle hdonate hagrees.owed.1
    · exact owed_le ⟨wholeRate_nonneg rate, wholeRate_le_one rate⟩ hpos.le hle hnot hagrees.owed.2
    · show (s.balance work).donation +
        work * (wholeRate rate - flag (s.allocation.poolDonationWork rate)) ≤ 0
      refine add_nonpos (hagrees.zero hzero) ?_
      rw [hzero]
      cases s.allocation.poolDonationWork rate <;> simp [flag, hpos.le]

lemma poolSound_run (phase : ℕ) {events : List Event}
    (hevents : ∀ event ∈ events, event.AtMost bound) :
    (poolRun rate phase events).PoolSound rate bound := by
  induction events using List.reverseRecOn with
  | nil => exact ⟨Nat.mod_lt _ (by decide), fun _ => ⟨rfl, rfl⟩, nofun⟩
  | append_singleton events event ih =>
    rw [poolRun, List.foldl_append]
    exact (ih fun e he => hevents e (List.mem_append_left _ he)).step
      (hevents event (List.mem_append_right _ List.mem_cons_self))

end Books

end

/-- Once a share was accepted, the clock changes no answer. -/
lemma answers_update {a : WorkAllocation} (hb : a.balance ≠ none) (now : ℕ) (available : Bool)
    (rate : BchDonation) (fee : PoolFee) :
    (a.update now available).donationWork rate = a.donationWork rate ∧
      (a.update now available).feeWork rate fee = a.feeWork rate fee ∧
      (a.update now available).poolDonationWork rate = a.poolDonationWork rate ∧
      (a.update now available).mergeTokenDonationWork rate = a.mergeTokenDonationWork rate ∧
      (a.update now available).mergeTokenFeeWork rate fee = a.mergeTokenFeeWork rate fee := by
  obtain ⟨b, hb⟩ := Option.ne_none_iff_exists'.mp hb
  simp only [WorkAllocation.donationWork, WorkAllocation.feeWork, WorkAllocation.poolDonationWork,
    WorkAllocation.mergeTokenDonationWork, WorkAllocation.mergeTokenFeeWork,
    WorkAllocation.balance_update, hb, and_self]

/-- Work quotas stay within a few shares.  In every run of shares of at most `bound`, each on a job
that follows the answers of the moment, the donated and the charged work are within two and four
shares of their rates, no job is both, and once a share was accepted the clock changes no answer.
Where all jobs merge-mine a token without split support its donation is within two shares of the
whole rate (on other runs it never falls further behind), and so is a remote pool's. -/
theorem quotas_within_shares (rate : BchDonation) (pool : Option PoolFee) (phase : ℕ)
    (events : List Event) (bound : ℚ) (hbound : 0 ≤ bound)
    (hevents : ∀ event ∈ events, event.AtMost bound) :
    let s := Books.run rate pool phase events
    let p := Books.poolRun rate phase events
    |s.donated - workRate rate * s.total| ≤ 2 * bound ∧
    |s.charged - feeRate rate pool * s.total| ≤ 4 * bound ∧
    (∀ merged, ¬ ((s.allocation.jobPayout rate pool merged).donationWork = true ∧
      (s.allocation.jobPayout rate pool merged).feeWork = true)) ∧
    (∀ a, a = s.allocation ∨ a = p.allocation → a.balance ≠ none → ∀ now available rate fee,
      (a.update now available).donationWork rate = a.donationWork rate ∧
      (a.update now available).feeWork rate fee = a.feeWork rate fee ∧
      (a.update now available).poolDonationWork rate = a.poolDonationWork rate ∧
      (a.update now available).mergeTokenDonationWork rate = a.mergeTokenDonationWork rate ∧
      (a.update now available).mergeTokenFeeWork rate fee = a.mergeTokenFeeWork rate fee) ∧
    wholeRate rate * s.tokenTotal - s.tokenDonated ≤ 2 * bound ∧
    ((∀ event ∈ events, event.Merged) →
      |s.tokenDonated - wholeRate rate * s.total| ≤ 2 * bound) ∧
    |p.donated - wholeRate rate * p.total| ≤ 2 * bound := by
  intro s p
  have hs : s.Sound rate pool bound := Books.sound_run phase hevents
  have hp : p.PoolSound rate bound := Books.poolSound_run phase hevents
  refine ⟨?_, ?_, ?_, ?_, ?_, ?_, ?_⟩
  · cases hb : s.allocation.balance with
    | none =>
      obtain ⟨htotal, hdonated, -⟩ := hs.fresh hb
      simpa [htotal, hdonated] using hbound
    | some b =>
      have h := hs.agrees b hb
      rw [abs_sub_comm, ← h.donation, abs_le]
      exact ⟨by linarith [h.within.donation.1], h.within.donation.2⟩
  · cases hb : s.allocation.balance with
    | none =>
      obtain ⟨htotal, -, hcharged, -⟩ := hs.fresh hb
      simpa [htotal, hcharged] using hbound
    | some b =>
      have h := hs.agrees b hb
      rw [abs_sub_comm, ← h.fee, abs_le]
      constructor
      · linarith [h.within.fee]
      · linarith [h.within.both, h.within.donation.1]
  · rintro merged ⟨hdonated, hcharged⟩
    have hnot := Bool.eq_false_of_not_eq_true' (Bool.and_eq_true_iff.mp hcharged).1
    exact absurd (hdonated.symm.trans hnot) nofun
  · intro a _ hb now available rate fee
    exact answers_update hb now available rate fee
  · cases hb : s.allocation.balance with
    | none =>
      obtain ⟨-, -, -, htotal, hdonated⟩ := hs.fresh hb
      simpa [htotal, hdonated] using hbound
    | some b =>
      have h := hs.agrees b hb
      rw [← h.token]
      exact h.within.token
  · intro hmerged
    have ht : s.TokenSound bound := Books.tokenSound_run phase hevents hmerged
    rw [← ht.total]
    cases hb : s.allocation.balance with
    | none =>
      obtain ⟨-, -, -, htotal, hdonated⟩ := hs.fresh hb
      simpa [htotal, hdonated] using hbound
    | some b =>
      have h := hs.agrees b hb
      rw [abs_sub_comm, ← h.token, abs_le]
      exact ⟨by linarith [ht.ahead b hb, h.within.donation.1], h.within.token⟩
  · cases hb : p.allocation.balance with
    | none =>
      obtain ⟨htotal, hdonated⟩ := hp.fresh hb
      simpa [htotal, hdonated] using hbound
    | some b =>
      have h := hp.agrees b hb
      rw [abs_sub_comm, ← h.donation, abs_le]
      exact ⟨by linarith [h.owed.1], h.owed.2⟩

theorem quotas_within_shares_sample :
    let events : List Event := [.update 0 true, .share 1 true, .update 5 true, .share 2 true]
    (∀ event ∈ events, event.AtMost 2) ∧ (∀ event ∈ events, event.Merged) ∧
      |(Books.run .standard none 7 events).donated -
        workRate .standard * (Books.run .standard none 7 events).total| ≤ 2 * 2 ∧
      |(Books.run .standard none 7 events).tokenDonated -
        wholeRate .standard * (Books.run .standard none 7 events).total| ≤ 2 * 2 := by
  intro events
  have hevents : ∀ event ∈ events, event.AtMost 2 := by
    simp only [events, List.forall_mem_cons, Event.AtMost]
    norm_num
  have hmerged : ∀ event ∈ events, event.Merged := by
    simp [events, Event.Merged]
  obtain ⟨hdonated, -, -, -, -, htoken, -⟩ :=
    quotas_within_shares .standard none 7 events 2 (by norm_num) hevents
  exact ⟨hevents, hmerged, hdonated, htoken hmerged⟩

/-- A rate of 30%, of which a third is work for BCH. -/
def sampleRate : BchDonation := ⟨3000, by omega⟩

/-- Shares of one hash each, with tokens on the jobs of the donation and on no other. -/
def mixedEvents : List Event :=
  .share 1 true :: List.replicate 10 (.share 1 false) ++
    .share 1 true :: List.replicate 9 (.share 1 false) ++ [.share 1 true]

/-- Where jobs with tokens and without them mix, the token's donation can run ahead by more than two
shares: each donated job with tokens counts for it, whatever it is owed. -/
theorem token_donation_ahead :
    let s := Books.run sampleRate none 0 mixedEvents
    (∀ event ∈ mixedEvents, event.AtMost 1) ∧
      2 * 1 < s.tokenDonated - wholeRate sampleRate * s.tokenTotal ∧
      ¬ |s.tokenDonated - wholeRate sampleRate * s.tokenTotal| ≤ 2 * 1 := by
  intro s
  have hevents : ∀ event ∈ mixedEvents, event.AtMost 1 := by
    simp [mixedEvents, Event.AtMost]
  have hahead : 2 * 1 < s.tokenDonated - wholeRate sampleRate * s.tokenTotal := by
    decide +kernel
  exact ⟨hevents, hahead, fun hbound => hahead.not_ge ((le_abs_self _).trans hbound)⟩

end Pickaxe.Donation
