/-
# Shares without a unit lost

The shares of a reward as the source computes them, in `u64` and `u128`: every operation that
could overflow is checked.  None does (`claimSharesChecked_eq`), so the natural numbers of
`Merge.Split` are the machine's, and `Exact` says what they are.
-/
import Pickaxe.Lib.Checked
import Pickaxe.Merge.Split

namespace Pickaxe.Merge

open Lib Checked

/-! ## The shares in machine arithmetic -/

/-- `Slot::share`: the product is a `u128`, the quotient is cut to a `u64`. -/
def Slot.shareChecked (s : Slot) (left : ℕ) : Except Panic ℕ := do
  let product ← unsigned 128 (left * s.bps.toNat)
  return product / maxBps % 2 ^ 64

/-- `Split::shares`. -/
def Split.sharesChecked (s : Split) (reward : ℕ) : Except Panic Shares := do
  let donation ← s.donation.shareChecked reward
  let left ← unsignedSub reward donation
  let fee ← s.fee.shareChecked left
  let kept ← unsignedSub reward donation
  let miner ← unsignedSub kept fee
  return ⟨miner, donation, fee⟩

/-- `Amm::value`: the product saturates, and so does the value. -/
def Amm.valueChecked (amm : Amm) (share : ℕ) : Except Panic (Option ℕ) :=
  if amm.tokens = 0 then .ok none
  else do
    let held ← unsigned 128 (amm.cash + amm.virtualSats)
    let sats := match unsigned 128 (held * share) with
      | .ok product => product / amm.tokens
      | .error _ => 2 ^ 128 - 1
    return some (if sats < 2 ^ 64 then sats else 2 ^ 64 - 1)

/-- One turn of the loop of `Split::claim_shares`. -/
def settleChecked (amm : Amm) (miner share : ℕ) : Except Panic (ℕ × ℕ) :=
  if 0 < share then do
    let worth ← amm.valueChecked share
    if worth.any (decide <| minShareSats ≤ ·) then return (miner, share)
    else do
      let miner ← unsigned 64 (miner + share)
      return (miner, 0)
  else .ok (miner, share)

/-- `Split::claim_shares`. -/
def Split.claimSharesChecked (s : Split) (reward : ℕ) (amm : Amm) : Except Panic Shares := do
  let raw ← s.sharesChecked reward
  let (miner, donation) ← settleChecked amm raw.miner raw.donation
  let (miner, fee) ← settleChecked amm miner raw.fee
  return ⟨miner, donation, fee⟩

/-! ## Nothing overflows -/

lemma Slot.shareChecked_eq (s : Slot) {left : ℕ} (h : left < 2 ^ 64) :
    s.shareChecked left = .ok (s.share left) := by
  have hbps := s.bps_le
  have hproduct : left * s.bps.toNat < 2 ^ 128 := by
    have hle : left * s.bps.toNat ≤ left * 10000 := Nat.mul_le_mul_left _ hbps
    omega
  have hshare := s.share_le left
  rw [shareChecked, unsigned_bind hproduct]
  show Except.ok (s.share left % 2 ^ 64) = _
  rw [Nat.mod_eq_of_lt (by omega)]

lemma Split.sharesChecked_eq (s : Split) {reward : ℕ} (h : reward < 2 ^ 64) :
    s.sharesChecked reward = .ok (s.shares reward) := by
  have hdonation := s.donation.share_le reward
  have hfee := s.fee.share_le (reward - s.donation.share reward)
  rw [sharesChecked, s.donation.shareChecked_eq h]
  show (unsignedSub reward (s.donation.share reward) >>= _) = _
  rw [unsignedSub_bind hdonation, s.fee.shareChecked_eq (by omega)]
  show (unsignedSub reward (s.donation.share reward) >>= _) = _
  rw [unsignedSub_bind hdonation, unsignedSub_bind hfee]
  rfl

/-- An AMM whose numbers are `u64`s. -/
structure Amm.Fits (amm : Amm) : Prop where
  cash : amm.cash < 2 ^ 64
  virtualSats : amm.virtualSats < 2 ^ 64
  tokens : amm.tokens < 2 ^ 64

lemma Amm.valueChecked_eq {amm : Amm} (h : amm.Fits) (share : ℕ) :
    amm.valueChecked share = .ok (amm.value share) := by
  have hcash := h.cash
  have hvirtual := h.virtualSats
  unfold valueChecked value
  split_ifs with htokens
  · rfl
  · rw [unsigned_bind (by omega)]
    by_cases hproduct : (amm.cash + amm.virtualSats) * share < 2 ^ 128
    · simp only [unsigned_of_lt hproduct, if_pos hproduct]
      generalize (amm.cash + amm.virtualSats) * share / amm.tokens = sats
      show Except.ok (some _) = _
      congr 2
      split_ifs <;> omega
    · simp only [unsigned, if_neg hproduct]
      rfl

lemma settleChecked_eq {amm : Amm} (h : amm.Fits) {miner share : ℕ} (hsum : miner + share < 2 ^ 64) :
    settleChecked amm miner share = .ok (Split.settleShare amm miner share) := by
  unfold settleChecked Split.settleShare
  by_cases hpos : 0 < share
  · rw [if_pos hpos, Amm.valueChecked_eq h, Amm.atLeastMin]
    show (if _ then _ else _) = _
    cases hvalue : amm.value share with
    | none =>
      rw [unsigned_bind hsum]
      simp [hpos]
      rfl
    | some sats =>
      by_cases hmin : minShareSats ≤ sats
      · simp [hmin]
        rfl
      · rw [unsigned_bind hsum]
        simp [hpos, hmin]
        rfl
  · simp [hpos]

lemma Split.claimSharesChecked_eq (s : Split) {reward : ℕ} (h : reward < 2 ^ 64) {amm : Amm}
    (hamm : amm.Fits) : s.claimSharesChecked reward amm = .ok (s.claimShares reward amm) := by
  have hraw := s.shares_sum reward
  have hsettle := settleShare_sum amm (s.shares reward).miner (s.shares reward).donation
  rw [claimSharesChecked, s.sharesChecked_eq h]
  show (settleChecked amm (s.shares reward).miner (s.shares reward).donation >>= _) = _
  rw [settleChecked_eq hamm (by omega)]
  show (settleChecked amm (settleShare amm (s.shares reward).miner (s.shares reward).donation).1
    (s.shares reward).fee >>= _) = _
  rw [settleChecked_eq hamm (by omega)]
  rfl

/-! ## What the shares are -/

/-- The AMM prices `share` at the minimum or more. -/
def Amm.Worth (amm : Amm) (share : ℕ) : Prop :=
  amm.tokens ≠ 0 ∧ minShareSats * amm.tokens ≤ (amm.cash + amm.virtualSats) * share

lemma Amm.atLeastMin_iff {amm : Amm} (h : amm.Fits) (share : ℕ) :
    amm.atLeastMin share = true ↔ amm.Worth share := by
  have htokens := h.tokens
  unfold atLeastMin value Worth
  by_cases hzero : amm.tokens = 0
  · simp [hzero]
  · have hpos : 0 < amm.tokens := Nat.pos_of_ne_zero hzero
    simp only [ne_eq, hzero, not_false_eq_true, true_and]
    rw [← Nat.le_div_iff_mul_le hpos]
    generalize hproduct : (amm.cash + amm.virtualSats) * share = product
    by_cases hlt : product < 2 ^ 128
    · generalize product / amm.tokens = sats
      simp only [if_false, if_pos hlt, decide_eq_true_eq]
      unfold minShareSats
      omega
    · -- a product that saturates is worth more than the minimum
      have hmany : minShareSats ≤ product / amm.tokens := by
        rw [Nat.le_div_iff_mul_le hpos]
        unfold minShareSats
        omega
      rw [if_neg hlt]
      exact iff_of_true (by decide) hmany

/-- What a claim pays of a raw share is all or nothing, and nothing exactly if the AMM does not
price it at the minimum. -/
structure Settled (amm : Amm) (raw paid : ℕ) : Prop where
  whole : amm.Worth raw → paid = raw
  dropped : ¬ amm.Worth raw → paid = 0

lemma settleShare_settled {amm : Amm} (h : amm.Fits) (miner share : ℕ) :
    Settled amm share (Split.settleShare amm miner share).2 := by
  have hworth := Amm.atLeastMin_iff h share
  unfold Split.settleShare
  constructor
  · intro hw
    rw [hworth.mpr hw]
    simp
  · intro hw
    have hnot : amm.atLeastMin share = false := by
      rw [← Bool.not_eq_true, hworth]
      exact hw
    by_cases hpos : 0 < share
    · simp [hpos, hnot]
    · simp only [hpos, false_and, if_false]
      omega

/-- The shares of a reward by the split's rule: the raw shares, and what a claim pays of them. -/
structure Exact (s : Split) (reward : ℕ) (amm : Amm) (raw paid : Shares) : Prop where
  donation : raw.donation = reward * s.donation.bps.toNat / 10000
  /-- The fee is of what the raw donation leaves, whether a claim pays the donation or not. -/
  fee : raw.fee = (reward - raw.donation) * s.fee.bps.toNat / 10000
  raw_sum : raw.miner + raw.donation + raw.fee = reward
  paidDonation : Settled amm raw.donation paid.donation
  paidFee : Settled amm raw.fee paid.fee
  paid_sum : paid.miner + paid.donation + paid.fee = reward
  /-- What is dropped stays with the miner, nobody else gets more. -/
  no_more : paid.donation ≤ raw.donation ∧ paid.fee ≤ raw.fee ∧ raw.miner ≤ paid.miner

lemma Settled.le {amm : Amm} {raw paid : ℕ} (h : Settled amm raw paid) : paid ≤ raw := by
  by_cases hw : amm.Worth raw
  · rw [h.whole hw]
  · rw [h.dropped hw]
    exact Nat.zero_le raw

lemma Split.exact (s : Split) (reward : ℕ) {amm : Amm} (h : amm.Fits) :
    Exact s reward amm (s.shares reward) (s.claimShares reward amm) := by
  have hdonation : Settled amm (s.shares reward).donation (s.claimShares reward amm).donation :=
    settleShare_settled h _ _
  have hfee : Settled amm (s.shares reward).fee (s.claimShares reward amm).fee :=
    settleShare_settled h _ _
  have hraw := s.shares_sum reward
  have hpaid := s.claimShares_sum reward amm
  have hdle := hdonation.le
  have hfle := hfee.le
  exact ⟨rfl, rfl, hraw, hdonation, hfee, hpaid, hdle, hfle, by omega⟩

/-! ## Preimages and slots -/

/-- The preimages that are read are those of the splits with a slot, and nothing else. -/
lemma Split.parse_iff {bytes : Bytes} {s : Split} :
    Split.parse bytes = .ok s ↔ bytes = s.preimage ∧ s.isNone = false := by
  constructor
  · exact Split.parse_eq_ok
  · rintro ⟨rfl, h⟩
    exact Split.parse_preimage h

lemma Split.preimage_inj {s t : Split} (h : s.preimage = t.preimage) : s = t := by
  by_cases hs : s.isNone = true
  · by_cases ht : t.isNone = true
    · rw [eq_none_of_isNone hs, eq_none_of_isNone ht]
    · have hread := parse_preimage (by simpa using ht)
      rw [← h, eq_none_of_isNone hs] at hread
      cases hread
  · have hread := parse_preimage (by simpa using hs)
    rw [h] at hread
    by_cases ht : t.isNone = true
    · rw [eq_none_of_isNone ht] at hread
      cases hread
    · rw [parse_preimage (by simpa using ht)] at hread
      cases hread
      rfl

variable [Hasher]

/-- Two splits with one `ext` show a weakness of SHA-256: their preimages collide, or the digest
of one is zero. -/
def ExtBroken (s t : Split) : Prop :=
  (s.preimage ≠ t.preimage ∧ sha256 s.preimage = sha256 t.preimage) ∨
    sha256 s.preimage = ByteVec.zero 32 ∨ sha256 t.preimage = ByteVec.zero 32

lemma Split.ext_inj {s t : Split} (h : s.ext = t.ext) : s = t ∨ ExtBroken s t := by
  unfold ext at h
  split_ifs at h with hs ht ht
  · left
    rw [eq_none_of_isNone hs, eq_none_of_isNone ht]
  · exact .inr (.inr (.inr h.symm))
  · exact .inr (.inr (.inl h))
  · by_cases heq : s.preimage = t.preimage
    · exact .inl (preimage_inj heq)
    · exact .inr (.inl ⟨heq, h⟩)

/-- The shares of every reward are exact, and so is the commitment to their slots. -/
theorem shares_exact :
    (∀ (s : Split) (reward cash virtualSats tokens : UInt64),
      let amm : Amm := ⟨cash.toNat, virtualSats.toNat, tokens.toNat⟩
      ∃ raw paid, s.sharesChecked reward.toNat = .ok raw ∧
        s.claimSharesChecked reward.toNat amm = .ok paid ∧ Exact s reward.toNat amm raw paid ∧
        ∀ payoutHash, ((expectedOutputs s payoutHash paid).map (·.amount)).sum = reward.toNat) ∧
    (∀ bytes s, Split.parse bytes = .ok s ↔ bytes = s.preimage ∧ s.isNone = false) ∧
    ∀ s t : Split, s.ext = t.ext → s = t ∨ ExtBroken s t := by
  refine ⟨fun s reward cash virtualSats tokens => ?_, fun _ _ => Split.parse_iff,
    fun _ _ => Split.ext_inj⟩
  have hreward := reward.toNat_lt
  have hfits : Amm.Fits ⟨cash.toNat, virtualSats.toNat, tokens.toNat⟩ :=
    ⟨cash.toNat_lt, virtualSats.toNat_lt, tokens.toNat_lt⟩
  refine ⟨_, _, s.sharesChecked_eq hreward, s.claimSharesChecked_eq hreward hfits,
    s.exact reward.toNat hfits, fun payoutHash => ?_⟩
  rw [expectedOutputs_sum, Split.claimShares_sum]

omit [Hasher] in
/-- A split and itself have one `ext`. -/
theorem shares_exact_sample :
    let _ : Hasher := Hasher.fips
    ∃ s : Split, s.isNone = false ∧ s.ext = s.ext ∧ (s = s ∨ ExtBroken s s) := by
  intro _
  refine ⟨⟨⟨1000, ⟨List.replicate 32 1, rfl⟩, by decide, by decide⟩, Slot.empty⟩, by decide, rfl, ?_⟩
  exact shares_exact.2.2 _ _ rfl

omit [Hasher] in
/-- What the rule does not do: a donation of a tenth of 5,000 tokens is dropped by an AMM without
tokens, which has no price to value it at, and the 32 bytes of an `ext` are no preimage. -/
theorem unpriced_share_dropped :
    let _ : Hasher := Hasher.fips
    ∃ s : Split, ∃ amm : Amm, (s.shares 5000).donation = 500 ∧
      s.claimSharesChecked 5000 amm = .ok ⟨5000, 0, 0⟩ ∧ amm.value 500 = none ∧
      Split.parse s.ext.bytes = .error .preimage := by
  intro _
  refine ⟨⟨⟨1000, ⟨List.replicate 32 1, rfl⟩, by decide, by decide⟩, Slot.empty⟩, ⟨10000, 10000, 0⟩,
    by decide, by decide, by decide, ?_⟩
  -- 32 bytes are not 69
  generalize Split.ext _ = ext
  have hlength := ext.length_eq
  unfold Split.parse
  cases hbytes : ext.bytes with
  | nil => rfl
  | cons first rest =>
    rw [hbytes, List.length_cons] at hlength
    exact if_pos (.inl (by omega))

end Pickaxe.Merge
