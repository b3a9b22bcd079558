/-
# The per-win split

A leaf's `ext` commits to how each win is shared: a donation slot, then a fee slot, each a
rate in hundredths of a percent and the recipient's script hash.  A slot can only be built
canonical (a rate of 0 has the zero hash, a rate above 0 another one), so the canonical form
is part of its type.

Machine integers are natural numbers here: token amounts and satoshis are below `2 ^ 64`,
and the source computes the products in `u128`.
-/
import Pickaxe.Basic
import Pickaxe.Lib.Result
import Mathlib.Tactic.Linarith

namespace Pickaxe.Merge

open Lib

/-- The domain byte of a split preimage. -/
def splitPrefix : UInt8 := 0x03

/-- The largest rate: the whole reward. -/
def maxBps : ℕ := 10000

/-- A share worth less than this many satoshis at the AMM price is 0. -/
def minShareSats : ℕ := 1000

/-- The satoshis on each claim output after the vault, exactly. -/
def splitOutputSats : ℕ := 800

/-- About how many bytes each split output adds to the claim. -/
def splitOutputBytes : ℕ := 90

/-- Why a split, its preimage or a claim's outputs are refused. -/
inductive SplitError where
  /-- A rate above 10,000. -/
  | rate
  /-- A rate above 0 with a zero hash. -/
  | zeroHash
  /-- A rate of 0 with a non-zero hash. -/
  | strayHash
  /-- Two empty slots written as a preimage. -/
  | emptyPreimage
  /-- Not 69 bytes starting with 0x03. -/
  | preimage
  /-- The claim's outputs are not the expected ones. -/
  | outputs
deriving DecidableEq

/-- `SplitError`'s `Display`. -/
def SplitError.display : SplitError → String
  | .rate => "a split rate exceeds 100%"
  | .zeroHash => "a split slot with a rate has no recipient"
  | .strayHash => "an empty split slot names a recipient"
  | .emptyPreimage => "an empty split is the zero ext, not a preimage"
  | .preimage => "not a split preimage"
  | .outputs => "the claim's outputs do not follow its split"

/-! ## Slots -/

/-- A slot: a rate in hundredths of a percent and the recipient's script hash, or empty. -/
@[ext] structure Slot where
  bps : UInt16
  scriptHash : Hash
  /-- The rate is at most the whole. -/
  bps_le : bps.toNat ≤ maxBps
  /-- Only an empty slot has the zero hash. -/
  canonical : bps = 0 ↔ scriptHash = ByteVec.zero 32
deriving DecidableEq

namespace Slot

/-- `Slot::EMPTY`. -/
def empty : Slot := ⟨0, ByteVec.zero 32, by decide, by simp⟩

/-- `Slot::from_hash`: a slot from its rate and script hash, checked canonical. -/
def fromHash (bps : UInt16) (scriptHash : Hash) : Except SplitError Slot :=
  if hrate : bps.toNat > maxBps then .error .rate
  else if hzero : bps ≠ 0 ∧ scriptHash = ByteVec.zero 32 then .error .zeroHash
  else if hstray : bps = 0 ∧ scriptHash ≠ ByteVec.zero 32 then .error .strayHash
  else .ok ⟨bps, scriptHash, by omega, by tauto⟩

/-- `Slot::is_empty`. -/
def isEmpty (s : Slot) : Bool := s.bps == 0

/-- `Slot::share`: `floor(left × bps / 10000)`. -/
def share (s : Slot) (left : ℕ) : ℕ := left * s.bps.toNat / maxBps

variable [Hasher]

/-- `Slot::new`: the slot paying `bps` of what is left to the locking bytecode `script`;
empty at 0. -/
def new (bps : UInt16) (script : Bytes) : Except SplitError Slot :=
  if bps = 0 then .ok empty else fromHash bps (doubleSha256 script)

omit [Hasher] in
lemma fromHash_eq_ok {bps : UInt16} {hash : Hash} {s : Slot} (h : fromHash bps hash = .ok s) :
    s.bps = bps ∧ s.scriptHash = hash := by
  unfold fromHash at h
  split at h
  · cases h
  split at h
  · cases h
  split at h
  · cases h
  cases h
  exact ⟨rfl, rfl⟩

omit [Hasher] in
/-- A slot's own rate and hash give the slot back. -/
lemma fromHash_self (s : Slot) : fromHash s.bps s.scriptHash = .ok s := by
  have hrate : ¬ s.bps.toNat > maxBps := Nat.not_lt.mpr s.bps_le
  have hzero : ¬ (s.bps ≠ 0 ∧ s.scriptHash = ByteVec.zero 32) := fun h => h.1 (s.canonical.mpr h.2)
  have hstray : ¬ (s.bps = 0 ∧ s.scriptHash ≠ ByteVec.zero 32) := fun h => h.2 (s.canonical.mp h.1)
  rw [fromHash, dif_neg hrate, dif_neg hzero, dif_neg hstray]

omit [Hasher] in
lemma share_le (s : Slot) (left : ℕ) : s.share left ≤ left := by
  have h : left * s.bps.toNat ≤ left * maxBps := Nat.mul_le_mul_left _ s.bps_le
  exact Nat.div_le_of_le_mul (by rwa [Nat.mul_comm maxBps left])

end Slot

/-! ## Splits -/

/-- A leaf's split: the donation slot, then the fee slot. -/
structure Split where
  donation : Slot
  fee : Slot
deriving DecidableEq

/-- The shares of one reward, in token units. -/
@[ext] structure Shares where
  miner : ℕ
  donation : ℕ
  fee : ℕ
deriving DecidableEq

/-- The vault's AMM, which prices a token share. -/
structure Amm where
  /-- The satoshis the vault holds for the AMM. -/
  cash : ℕ
  /-- The AMM's virtual satoshis. -/
  virtualSats : ℕ
  /-- The tokens the AMM holds. -/
  tokens : ℕ
deriving DecidableEq

namespace Amm

/-- `Amm::value`: what `share` tokens are worth in satoshis, rounded down, saturating at
`u64::MAX`; `none` while the AMM holds no tokens.  A product past `u128::MAX` saturates too,
before the division is made. -/
def value (amm : Amm) (share : ℕ) : Option ℕ :=
  if amm.tokens = 0 then none
  else
    let product := (amm.cash + amm.virtualSats) * share
    let sats := if product < 2 ^ 128 then product / amm.tokens else 2 ^ 128 - 1
    some (min sats (2 ^ 64 - 1))

/-- `Amm::at_least_min`: never while the AMM cannot price the share. -/
def atLeastMin (amm : Amm) (share : ℕ) : Bool :=
  match amm.value share with
  | none => false
  | some sats => decide (minShareSats ≤ sats)

end Amm

namespace Split

/-- `Split::NONE`. -/
def none : Split := ⟨Slot.empty, Slot.empty⟩

/-- `Split::is_none`. -/
def isNone (s : Split) : Bool := s.donation.isEmpty && s.fee.isEmpty

/-- `Split::preimage`: the 69 bytes, also of an empty split. -/
def preimage (s : Split) : Bytes :=
  [splitPrefix] ++ u16Le s.donation.bps ++ s.donation.scriptHash.bytes ++ u16Le s.fee.bps ++
    s.fee.scriptHash.bytes

lemma length_preimage (s : Split) : s.preimage.length = 69 := by
  simp [preimage]

/-- `Split::ext`: 32 zero bytes with no split, otherwise the preimage's SHA-256. -/
def ext [Hasher] (s : Split) : Hash :=
  if s.isNone then ByteVec.zero 32 else sha256 s.preimage

/-- `Split::parse`: exactly 69 bytes, the prefix, two canonical slots, not both empty. -/
def parse (preimage : Bytes) : Except SplitError Split :=
  match preimage with
  | [] => .error .preimage
  | first :: rest =>
    if rest.length ≠ 68 ∨ first ≠ splitPrefix then .error .preimage
    else do
      let slot := fun (part : Bytes) =>
        match ByteVec.ofBytes? 32 (part.drop 2) with
        | .none => .error .preimage
        | some hash => Slot.fromHash (u16OfLe (part.take 2)) hash
      let donation ← slot (rest.take 34)
      let fee ← slot (rest.drop 34)
      if (⟨donation, fee⟩ : Split).isNone then .error .emptyPreimage else .ok ⟨donation, fee⟩

/-- A split without slots is the empty one. -/
lemma eq_none_of_isNone {s : Split} (h : s.isNone = true) : s = none := by
  have hempty : ∀ slot : Slot, slot.isEmpty = true → slot = Slot.empty := by
    intro slot hslot
    have hbps : slot.bps = 0 := by simpa [Slot.isEmpty] using hslot
    exact Slot.ext hbps (slot.canonical.mp hbps)
  obtain ⟨donation, fee⟩ := s
  obtain ⟨hdonation, hfee⟩ : donation.isEmpty = true ∧ fee.isEmpty = true := by
    simpa [isNone] using h
  rw [hempty donation hdonation, hempty fee hfee, none]

lemma parse_preimage {s : Split} (h : s.isNone = false) : parse s.preimage = .ok s := by
  have hrest : s.preimage = splitPrefix :: ((u16Le s.donation.bps ++ s.donation.scriptHash.bytes) ++
      (u16Le s.fee.bps ++ s.fee.scriptHash.bytes)) := by
    simp [preimage]
  have hslot : ∀ slot : Slot, (u16Le slot.bps ++ slot.scriptHash.bytes).take 2 = u16Le slot.bps ∧
      (u16Le slot.bps ++ slot.scriptHash.bytes).drop 2 = slot.scriptHash.bytes :=
    fun slot => ⟨List.take_left' (by simp), List.drop_left' (by simp)⟩
  have hlength : (u16Le s.donation.bps ++ s.donation.scriptHash.bytes).length = 34 := by simp
  rw [hrest, parse, if_neg (by simp)]
  simp only [List.take_left' hlength, List.drop_left' hlength, hslot, ByteVec.ofBytes?_bytes,
    u16OfLe_u16Le, Slot.fromHash_self, bind, Except.bind]
  rw [if_neg (by simp [h])]

/-- What is read as a split is that split's preimage, and the split has a slot. -/
lemma parse_eq_ok {bytes : Bytes} {s : Split} (h : parse bytes = .ok s) :
    bytes = s.preimage ∧ s.isNone = false := by
  cases bytes with
  | nil => cases h
  | cons first rest =>
    obtain ⟨hhead, hslots⟩ := Except.ite_error_eq_ok.mp h
    obtain ⟨hlength, rfl⟩ := by simpa only [not_or, not_not] using hhead
    have hslot : ∀ {part : Bytes} {slot : Slot}, part.length = 34 →
        (match ByteVec.ofBytes? 32 (part.drop 2) with
          | .none => .error .preimage
          | some hash => Slot.fromHash (u16OfLe (part.take 2)) hash) = Except.ok slot →
        part = u16Le slot.bps ++ slot.scriptHash.bytes := by
      intro part slot hpart h
      split at h
      · cases h
      · rename_i hash hhash
        obtain ⟨hbps, rfl⟩ := Slot.fromHash_eq_ok h
        rw [hbps, u16Le_u16OfLe (by rw [List.length_take, hpart]; rfl),
          ← ByteVec.ofBytes?_eq_some.mp hhash, List.take_append_drop]
    obtain ⟨donation, hdonation, hslots⟩ := Except.bind_eq_ok.mp hslots
    obtain ⟨fee, hfee, hslots⟩ := Except.bind_eq_ok.mp hslots
    obtain ⟨hnone, hs⟩ := Except.ite_error_eq_ok.mp hslots
    cases hs
    refine ⟨?_, by simpa using hnone⟩
    rw [← List.take_append_drop 34 rest, hslot (by rw [List.length_take]; omega) hdonation,
      hslot (by rw [List.length_drop]; omega) hfee]
    simp only [preimage, List.append_assoc, List.cons_append, List.nil_append]

/-- `Split::shares`: the donation first, the fee from what it leaves, the rest to the
miner. -/
def shares (s : Split) (reward : ℕ) : Shares :=
  let donation := s.donation.share reward
  let fee := s.fee.share (reward - donation)
  ⟨reward - donation - fee, donation, fee⟩

/-- One turn of the loop over the split shares: the miner's share and this one, which goes
to the miner when it is worth too little. -/
def settleShare (amm : Amm) (miner share : ℕ) : ℕ × ℕ :=
  if 0 < share ∧ amm.atLeastMin share = false then (miner + share, 0) else (miner, share)

/-- `Split::claim_shares`: the shares a claim pays, at the vault's AMM price. -/
def claimShares (s : Split) (reward : ℕ) (amm : Amm) : Shares :=
  let raw := s.shares reward
  let donation := settleShare amm raw.miner raw.donation
  let fee := settleShare amm donation.1 raw.fee
  ⟨fee.1, donation.2, fee.2⟩

/-- The raw shares add up to the reward. -/
lemma shares_sum (s : Split) (reward : ℕ) :
    (s.shares reward).miner + (s.shares reward).donation + (s.shares reward).fee = reward := by
  have hd := s.donation.share_le reward
  have hf := s.fee.share_le (reward - s.donation.share reward)
  simp only [shares]
  omega

lemma settleShare_sum (amm : Amm) (miner share : ℕ) :
    (settleShare amm miner share).1 + (settleShare amm miner share).2 = miner + share := by
  unfold settleShare
  split <;> rfl

/-- So do the shares a claim pays: a dropped share stays with the miner. -/
lemma claimShares_sum (s : Split) (reward : ℕ) (amm : Amm) :
    (s.claimShares reward amm).miner + (s.claimShares reward amm).donation +
      (s.claimShares reward amm).fee = reward := by
  have hsum := s.shares_sum reward
  have hdonation := settleShare_sum amm (s.shares reward).miner (s.shares reward).donation
  have hfee := settleShare_sum amm
    (settleShare amm (s.shares reward).miner (s.shares reward).donation).1 (s.shares reward).fee
  simp only [claimShares]
  omega

end Split

/-! ## The outputs of a claim -/

/-- Who a claim output after the vault pays. -/
inductive Role where
  | miner
  | donation
  | fee
deriving DecidableEq

/-- One claim output after the vault, as the covenant expects it. -/
structure ExpectedOutput where
  role : Role
  scriptHash : Hash
  amount : ℕ
deriving DecidableEq

/-- One claim output as introspection shows it. -/
structure TokenOutput where
  sats : ℕ
  scriptHash : Hash
  category : Hash
  /-- An NFT's capability byte, if the output carries one. -/
  nft : Option UInt8
  amount : ℕ
deriving DecidableEq

/-- `expected_outputs`: the miner's remainder, the donation and the fee, each only when
above 0. -/
def expectedOutputs (split : Split) (payoutHash : Hash) (shares : Shares) :
    List ExpectedOutput :=
  [⟨.miner, payoutHash, shares.miner⟩, ⟨.donation, split.donation.scriptHash, shares.donation⟩,
    ⟨.fee, split.fee.scriptHash, shares.fee⟩].filter fun o => 0 < o.amount

/-- `split_outputs`: how many of the donation and the fee are paid. -/
def splitOutputs (shares : Shares) : ℕ :=
  (if 0 < shares.donation then 1 else 0) + if 0 < shares.fee then 1 else 0

/-- `split_cost_sats`: what the split outputs cost the vault. -/
def splitCostSats (shares : Shares) (satsPerByte : ℕ) : ℕ :=
  splitOutputs shares * (splitOutputSats + splitOutputBytes * satsPerByte)

/-- Whether one output is the expected one. -/
def fits (category : Hash) (want : ExpectedOutput) (got : TokenOutput) : Bool :=
  got.scriptHash == want.scriptHash && got.category == category && got.nft.isNone &&
    got.amount == want.amount && decide (1 ≤ got.amount) && got.sats == splitOutputSats

/-- `check_claim_outputs`: the same count and order, each output the expected one. -/
def checkClaimOutputs (expected : List ExpectedOutput) (outputs : List TokenOutput)
    (category : Hash) : Except SplitError Unit :=
  if expected.length ≠ outputs.length then .error .outputs
  else if (expected.zip outputs).all (fun p => fits category p.1 p.2) then .ok ()
  else .error .outputs

/-- The amounts of the expected outputs add up to the shares. -/
lemma expectedOutputs_sum (split : Split) (payoutHash : Hash) (shares : Shares) :
    ((expectedOutputs split payoutHash shares).map (·.amount)).sum =
      shares.miner + shares.donation + shares.fee := by
  unfold expectedOutputs
  simp only [List.filter_cons, List.filter_nil, decide_eq_true_eq]
  split <;> split <;> split <;> simp <;> omega

/-- Accepted outputs are the expected ones, one by one. -/
lemma checkClaimOutputs_eq_ok {expected : List ExpectedOutput} {outputs : List TokenOutput}
    {category : Hash} (h : checkClaimOutputs expected outputs category = .ok ()) :
    outputs = expected.map fun o => ⟨splitOutputSats, o.scriptHash, category, .none, o.amount⟩ := by
  unfold checkClaimOutputs at h
  split at h
  · cases h
  rename_i hlen
  split at h
  swap
  · cases h
  rename_i hall
  clear h
  rw [not_not] at hlen
  induction expected generalizing outputs with
  | nil => exact List.length_eq_zero_iff.mp hlen.symm
  | cons want expected ih =>
    obtain _ | ⟨got, outputs⟩ := outputs
    · simp at hlen
    simp only [List.zip_cons_cons, List.all_cons, Bool.and_eq_true] at hall
    obtain ⟨hfit, hrest⟩ := hall
    rw [ih (by simpa using hlen) hrest, List.map_cons]
    obtain ⟨sats, hash, cat, nft, amount⟩ := got
    simp only [fits, Bool.and_eq_true, beq_iff_eq, Option.isNone_iff_eq_none] at hfit
    obtain ⟨⟨⟨⟨⟨rfl, rfl⟩, rfl⟩, rfl⟩, -⟩, rfl⟩ := hfit
    rfl

end Pickaxe.Merge
