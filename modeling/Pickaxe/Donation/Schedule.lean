/-
# The donation schedule

A token's donation is paid in mining work: the hashes of one cycle are laid out as three
contiguous blocks, the miner's, the project's and the collaborator's, and a schedule walks
through them as batches of hashes complete.  A batch never leaves the slot it starts in, so all
of it belongs to one recipient.  Over a full cycle every recipient gets its block to the hash
(`schedule_exact`), and a new scheme goes on at the same part of its own cycle.
-/
import Pickaxe.Lib.Periodic
import Pickaxe.Lib.Result

namespace Pickaxe.Donation

open Lib Periodic

/-- `Recipient`. -/
inductive Recipient where
  | miner
  | project
  | collaborator
deriving DecidableEq

/-- An array with one entry for each recipient, in the order of `Recipient::ALL`. -/
structure PerRecipient (α : Type) where
  miner : α
  project : α
  collaborator : α
deriving DecidableEq

namespace PerRecipient

variable {α β : Type}

def get (x : PerRecipient α) : Recipient → α
  | .miner => x.miner
  | .project => x.project
  | .collaborator => x.collaborator

def map (f : α → β) (x : PerRecipient α) : PerRecipient β :=
  ⟨f x.miner, f x.project, f x.collaborator⟩

/-- `value` for one recipient, `rest` for the others. -/
def only (recipient : Recipient) (value rest : α) : PerRecipient α :=
  match recipient with
  | .miner => ⟨value, rest, rest⟩
  | .project => ⟨rest, value, rest⟩
  | .collaborator => ⟨rest, rest, value⟩

def sum [Add α] (x : PerRecipient α) : α := x.miner + x.project + x.collaborator

@[simp] lemma get_map (f : α → β) (x : PerRecipient α) (r : Recipient) :
    (x.map f).get r = f (x.get r) := by
  cases r <;> rfl

end PerRecipient

/-! ## Schemes -/

/-- `Scheme`: basis points for project and collaborator. -/
inductive Scheme where
  | work (shares : UInt16 × UInt16)
  | rewardSplit (shares : UInt16 × UInt16)
  | hybrid (work reward : UInt16 × UInt16)
deriving DecidableEq

namespace Scheme

/-- `Scheme::work`. -/
def workShares : Scheme → UInt16 × UInt16
  | work shares => shares
  | rewardSplit _ => (0, 0)
  | hybrid shares _ => shares

/-- `Scheme::reward`. -/
def rewardShares : Scheme → UInt16 × UInt16
  | work _ => (0, 0)
  | rewardSplit shares => shares
  | hybrid _ shares => shares

/-- One turn of the loop of `Scheme::validate`. -/
def validateShares (shares : UInt16 × UInt16) : Except String Unit :=
  if 10000 ≤ shares.1.toUInt32 + shares.2.toUInt32 then
    .error "fee shares must leave a positive miner allocation"
  else .ok ()

/-- `Scheme::validate`. -/
def validate (scheme : Scheme) : Except String Unit :=
  [scheme.workShares, scheme.rewardShares].forM validateShares

/-- `Scheme::split_reward`. -/
def splitReward (scheme : Scheme) (amount : BitVec 128) (recipient : Recipient) :
    Except String (PerRecipient (BitVec 128)) := do
  scheme.validate
  if recipient ≠ .miner then return .only recipient amount 0
  else
    let part (bps : UInt16) : BitVec 128 :=
      amount / 10000 * BitVec.ofNat 128 bps.toNat
        + amount % 10000 * BitVec.ofNat 128 bps.toNat / 10000
    let a := part scheme.rewardShares.1
    let b := part scheme.rewardShares.2
    return ⟨amount - a - b, a, b⟩

/-- The hundredths of a percent of the work that each recipient gets. -/
def share (scheme : Scheme) : PerRecipient ℕ :=
  ⟨10000 - scheme.workShares.1.toNat - scheme.workShares.2.toNat,
    scheme.workShares.1.toNat, scheme.workShares.2.toNat⟩

end Scheme

/-! ## The schedule -/

/-- `Schedule`: counts completed hashes. -/
structure Schedule where
  unit : UInt64
  weights : PerRecipient UInt64
  position : UInt64
deriving DecidableEq

/-- The closure `gcd` of `Schedule::new`. -/
def gcd (a b : UInt64) : UInt64 :=
  if b = 0 then a else gcd b (a % b)
termination_by b.toNat
decreasing_by
  rename_i hb
  rw [UInt64.toNat_mod]
  exact Nat.mod_lt _ (Nat.pos_of_ne_zero fun h => hb (UInt64.toNat_inj.mp h))

/-- `u64::checked_mul`. -/
def checkedMul (a b : UInt64) : Option UInt64 :=
  if a.toNat * b.toNat < 2 ^ 64 then some (a * b) else none

/-- The weights of `Schedule::new`. -/
def Scheme.weights (scheme : Scheme) : PerRecipient UInt64 :=
  let a := scheme.workShares.1.toUInt64
  let b := scheme.workShares.2.toUInt64
  let weights : PerRecipient UInt64 := ⟨10000 - a - b, a, b⟩
  let divisor := gcd (gcd weights.miner a) b
  weights.map (· / divisor)

namespace Schedule

/-- `Schedule::new`. -/
def new (scheme : Scheme) (unit random : UInt64) : Except String Schedule := do
  scheme.validate
  match (checkedMul scheme.weights.sum unit).filter (0 < ·) with
  | some cycle => .ok ⟨unit, scheme.weights, random % cycle⟩
  | none => .error "invalid work allocation period"

/-- The length of one cycle, `weights.iter().sum::<u64>() * unit`. -/
def cycle (s : Schedule) : UInt64 := s.weights.sum * s.unit

/-- `Schedule::set_scheme`: the intermediate product is a `u128`, the quotient is cut to a `u64`. -/
def setScheme (s : Schedule) (scheme : Scheme) : Except String Schedule := do
  let next ← new scheme s.unit 0
  return { next with
    position := .ofNat (s.position.toNat * next.cycle.toNat % 2 ^ 128 / s.cycle.toNat) }

/-- `Schedule::recipient`. -/
def recipient (s : Schedule) : Recipient :=
  let slot := s.position / s.unit
  if slot < s.weights.miner then .miner
  else if slot < s.weights.miner + s.weights.project then .project
  else .collaborator

/-- `Schedule::limit_batch`. -/
def limitBatch (s : Schedule) (requested : UInt32) : UInt32 :=
  (min requested.toUInt64 (s.unit - s.position % s.unit)).toUInt32

/-- `Schedule::record`: the sum is a `u128`. -/
def record (s : Schedule) (completed : UInt32) : Except String Schedule :=
  if s.limitBatch completed < completed then
    .error "GPU batch crossed its mining-work allocation"
  else .ok { s with
    position := .ofNat ((s.position.toNat + completed.toNat) % 2 ^ 128 % s.cycle.toNat) }

end Schedule

/-! ## Validation -/

lemma validateShares_eq_ok {shares : UInt16 × UInt16} :
    Scheme.validateShares shares = .ok () ↔ shares.1.toNat + shares.2.toNat < 10000 := by
  have h1 := shares.1.toNat_lt
  have h2 := shares.2.toNat_lt
  have hsum : (shares.1.toUInt32 + shares.2.toUInt32).toNat = shares.1.toNat + shares.2.toNat := by
    rw [UInt32.toNat_add, UInt16.toNat_toUInt32, UInt16.toNat_toUInt32, Nat.mod_eq_of_lt (by omega)]
  have hten : (10000 : UInt32).toNat = 10000 := rfl
  rw [Scheme.validateShares, Except.ite_error_eq_ok, UInt32.le_iff_toNat_le, hsum, hten]
  simp

lemma Scheme.validate_eq_ok {scheme : Scheme} :
    scheme.validate = .ok () ↔
      scheme.workShares.1.toNat + scheme.workShares.2.toNat < 10000 ∧
        scheme.rewardShares.1.toNat + scheme.rewardShares.2.toNat < 10000 := by
  rw [validate, List.forM_eq_forM, List.forM_cons, List.forM_cons, List.forM_nil,
    Except.bind_eq_ok]
  simp only [Except.bind_eq_ok]
  constructor
  · rintro ⟨⟨⟩, hwork, ⟨⟩, hreward, -⟩
    exact ⟨validateShares_eq_ok.mp hwork, validateShares_eq_ok.mp hreward⟩
  · rintro ⟨hwork, hreward⟩
    exact ⟨(), validateShares_eq_ok.mpr hwork, (), validateShares_eq_ok.mpr hreward, rfl⟩

/-! ## Rewards -/

/-- A part of `n` in basis points, as `split_reward` computes it. -/
def part (n bps : ℕ) : ℕ := n / 10000 * bps + n % 10000 * bps / 10000

/-- Two parts that leave something of every ten thousand leave something of the whole. -/
lemma part_add_part_le {n a b : ℕ} (h : a + b ≤ 10000) : part n a + part n b ≤ n := by
  have hn := Nat.div_add_mod n 10000
  have hwhole : n / 10000 * a + n / 10000 * b ≤ n / 10000 * 10000 := by
    rw [← Nat.mul_add]
    exact Nat.mul_le_mul_left _ h
  have hrest : n % 10000 * a + n % 10000 * b ≤ n % 10000 * 10000 := by
    rw [← Nat.mul_add]
    exact Nat.mul_le_mul_left _ h
  simp only [part]
  omega

/-- No product or sum on the way to a part leaves the type of the reward. -/
lemma toNat_part (amount : BitVec 128) {bps : UInt16} (h : bps.toNat ≤ 10000) :
    (amount / 10000 * BitVec.ofNat 128 bps.toNat
      + amount % 10000 * BitVec.ofNat 128 bps.toNat / 10000).toNat =
        part amount.toNat bps.toNat := by
  have hlt := amount.isLt
  have hn := Nat.div_add_mod amount.toNat 10000
  have hwhole : amount.toNat / 10000 * bps.toNat ≤ amount.toNat / 10000 * 10000 :=
    Nat.mul_le_mul_left _ h
  have hrest : amount.toNat % 10000 * bps.toNat ≤ amount.toNat % 10000 * 10000 :=
    Nat.mul_le_mul_left _ h
  have hten : (10000 : BitVec 128).toNat = 10000 := rfl
  have hbps : (BitVec.ofNat 128 bps.toNat).toNat = bps.toNat := by
    rw [BitVec.toNat_ofNat, Nat.mod_eq_of_lt (by omega)]
  have hpart : part amount.toNat bps.toNat ≤ amount.toNat := by
    have := part_add_part_le (n := amount.toNat) (a := bps.toNat) (b := 0) (by omega)
    omega
  rw [part] at hpart ⊢
  simp only [BitVec.toNat_add, BitVec.toNat_mul, BitVec.toNat_udiv, BitVec.toNat_umod, hten, hbps]
  rw [Nat.mod_eq_of_lt (a := amount.toNat / 10000 * bps.toNat) (by omega),
    Nat.mod_eq_of_lt (a := amount.toNat % 10000 * bps.toNat) (by omega),
    Nat.mod_eq_of_lt (by omega)]

/-- The three amounts add up to the reward, without wrapping. -/
lemma splitReward_sum {scheme : Scheme} (hv : scheme.validate = .ok ()) (amount : BitVec 128)
    (recipient : Recipient) :
    ∃ parts, scheme.splitReward amount recipient = .ok parts ∧
      (parts.map BitVec.toNat).sum = amount.toNat := by
  rw [Scheme.splitReward, hv]
  by_cases hr : recipient ≠ .miner
  · refine ⟨.only recipient amount 0, if_pos hr, ?_⟩
    cases recipient <;> simp [PerRecipient.only, PerRecipient.map, PerRecipient.sum]
  · obtain ⟨-, hreward⟩ := Scheme.validate_eq_ok.mp hv
    refine ⟨_, if_neg hr, ?_⟩
    have ha := toNat_part amount (show scheme.rewardShares.1.toNat ≤ 10000 by omega)
    have hb := toNat_part amount (show scheme.rewardShares.2.toNat ≤ 10000 by omega)
    have hle := part_add_part_le (n := amount.toNat) hreward.le
    simp only [PerRecipient.map, PerRecipient.sum]
    rw [BitVec.toNat_sub_of_le, BitVec.toNat_sub_of_le, ha, hb]
    · omega
    · rw [BitVec.le_def, ha]
      omega
    · rw [BitVec.le_def, BitVec.toNat_sub_of_le, ha, hb]
      · omega
      · rw [BitVec.le_def, ha]
        omega

/-! ## The layout of a cycle -/

/-- Whose hash stands at a place of a cycle: the blocks stand one behind the other. -/
def owner (weights : PerRecipient ℕ) (unit place : ℕ) : Recipient :=
  if place / unit < weights.miner then .miner
  else if place / unit < weights.miner + weights.project then .project
  else .collaborator

namespace PerRecipient

/-- The weights before a recipient's own. -/
def before (weights : PerRecipient ℕ) : Recipient → ℕ
  | .miner => 0
  | .project => weights.miner
  | .collaborator => weights.miner + weights.project

lemma before_add_get_le (weights : PerRecipient ℕ) (r : Recipient) :
    weights.before r + weights.get r ≤ weights.sum := by
  cases r <;> simp only [before, get, sum] <;> omega

end PerRecipient

section

variable {weights : PerRecipient ℕ} {unit place : ℕ} {r : Recipient}

lemma owner_eq_iff (hunit : 0 < unit) (hplace : place < weights.sum * unit) :
    owner weights unit place = r ↔
      weights.before r * unit ≤ place ∧ place < weights.before r * unit + weights.get r * unit := by
  have hslot : place / unit < weights.sum := (Nat.div_lt_iff_lt_mul hunit).mpr hplace
  rw [← Nat.add_mul, ← Nat.le_div_iff_mul_le hunit, ← Nat.div_lt_iff_lt_mul hunit]
  rw [PerRecipient.sum] at hslot
  rw [owner]
  generalize place / unit = slot at hslot ⊢
  cases r <;> simp only [PerRecipient.before, PerRecipient.get] <;> split_ifs <;> simp <;> omega

/-- A recipient's places in one cycle are its block. -/
lemma hits_owner (hunit : 0 < unit) :
    hits (fun k => owner weights unit (k % (weights.sum * unit)) = r) 0 (weights.sum * unit) =
      weights.get r * unit := by
  refine hits_interval (a := weights.before r * unit) ?_ fun k hk => ?_
  · rw [← Nat.add_mul]
    exact Nat.mul_le_mul_right _ (weights.before_add_get_le r)
  · rw [Nat.mod_eq_of_lt hk, owner_eq_iff hunit hk]

end

/-! ## Steps -/

namespace Schedule

/-- The weights as natural numbers. -/
def counts (s : Schedule) : PerRecipient ℕ := s.weights.map UInt64.toNat

/-- What every schedule keeps: a cycle that fits its type, and a place in it. -/
structure Sound (s : Schedule) : Prop where
  unit_pos : 0 < s.unit.toNat
  cycle_lt : s.counts.sum * s.unit.toNat < 2 ^ 64
  position_lt : s.position.toNat < s.counts.sum * s.unit.toNat

variable {s s' : Schedule}

lemma Sound.sum_lt (h : s.Sound) : s.counts.sum < 2 ^ 64 :=
  (Nat.le_mul_of_pos_right _ h.unit_pos).trans_lt h.cycle_lt

lemma Sound.cycle_pos (h : s.Sound) : 0 < s.counts.sum * s.unit.toNat :=
  (Nat.zero_le _).trans_lt h.position_lt

lemma toNat_sum (h : s.counts.sum < 2 ^ 64) : s.weights.sum.toNat = s.counts.sum := by
  simp only [counts, PerRecipient.sum, PerRecipient.map] at h ⊢
  rw [UInt64.toNat_add, UInt64.toNat_add]
  omega

lemma Sound.toNat_cycle (h : s.Sound) : s.cycle.toNat = s.counts.sum * s.unit.toNat := by
  rw [cycle, UInt64.toNat_mul, toNat_sum h.sum_lt, Nat.mod_eq_of_lt h.cycle_lt]

lemma Sound.position_lt_cycle (h : s.Sound) : s.position < s.cycle := by
  rw [UInt64.lt_iff_toNat_lt, h.toNat_cycle]
  exact h.position_lt

lemma Sound.recipient_eq (h : s.Sound) :
    s.recipient = owner s.counts s.unit.toNat s.position.toNat := by
  have hsum := h.sum_lt
  rw [PerRecipient.sum] at hsum
  have hadd : (s.weights.miner + s.weights.project).toNat = s.counts.miner + s.counts.project := by
    rw [UInt64.toNat_add]
    exact Nat.mod_eq_of_lt (by simp only [counts, PerRecipient.map] at hsum ⊢; omega)
  simp only [recipient, owner, UInt64.lt_iff_toNat_lt, UInt64.toNat_div, hadd]
  rfl

lemma Sound.toNat_limitBatch (h : s.Sound) (requested : UInt32) :
    (s.limitBatch requested).toNat =
      min requested.toNat (s.unit.toNat - s.position.toNat % s.unit.toNat) := by
  have hlt := requested.toNat_lt
  have hmod := Nat.mod_lt s.position.toNat h.unit_pos
  have hle : s.position % s.unit ≤ s.unit := by
    rw [UInt64.le_iff_toNat_le, UInt64.toNat_mod]
    exact hmod.le
  rw [limitBatch, UInt64.toNat_toUInt32, UInt64.toNat_min, UInt32.toNat_toUInt64,
    UInt64.toNat_sub_of_le _ _ hle, UInt64.toNat_mod]
  omega

/-- The same cycle at another place. -/
lemma Sound.moved (h : s.Sound) {position : UInt64}
    (hlt : position.toNat < s.counts.sum * s.unit.toNat) :
    Sound { s with position := position } :=
  ⟨h.unit_pos, h.cycle_lt, hlt⟩

/-- A limited batch is recorded: the position goes on by it, round the cycle. -/
lemma Sound.record_eq (h : s.Sound) {requested completed : UInt32}
    (hle : completed ≤ s.limitBatch requested) :
    ∃ position : UInt64, s.record completed = .ok { s with position := position } ∧
      position.toNat = (s.position.toNat + completed.toNat) % (s.counts.sum * s.unit.toNat) := by
  rw [UInt32.le_iff_toNat_le, h.toNat_limitBatch] at hle
  have hlt := h.cycle_lt
  have hpos := h.position_lt
  have hc := completed.toNat_lt
  have hmod := Nat.mod_lt (s.position.toNat + completed.toNat) h.cycle_pos
  refine ⟨_, if_neg ?_, ?_⟩
  · rw [UInt32.lt_iff_toNat_lt, h.toNat_limitBatch]
    omega
  · rw [h.toNat_cycle, Nat.mod_eq_of_lt (b := 2 ^ 128) (by omega), UInt64.toNat_ofNat',
      Nat.mod_eq_of_lt (by omega)]

/-- A limited batch stays in its slot, and so with one recipient. -/
lemma Sound.owner_within (h : s.Sound) {requested completed : UInt32} {i : ℕ}
    (hle : completed ≤ s.limitBatch requested) (hi : i < completed.toNat) :
    s.position.toNat + i < s.counts.sum * s.unit.toNat ∧
      owner s.counts s.unit.toNat (s.position.toNat + i) = s.recipient := by
  rw [UInt32.le_iff_toNat_le, h.toNat_limitBatch] at hle
  have hdiv := Nat.div_add_mod s.position.toNat s.unit.toNat
  have hin : s.position.toNat % s.unit.toNat + i < s.unit.toNat := by omega
  have hslot : (s.position.toNat + i) / s.unit.toNat = s.position.toNat / s.unit.toNat := by
    conv_lhs => rw [← hdiv, Nat.add_assoc, Nat.mul_add_div h.unit_pos, Nat.div_eq_of_lt hin]
    rfl
  constructor
  · rw [← Nat.div_lt_iff_lt_mul h.unit_pos, hslot, Nat.div_lt_iff_lt_mul h.unit_pos]
    exact h.position_lt
  · rw [h.recipient_eq, owner, owner, hslot]

end Schedule

/-! ## New schedules -/

lemma toNat_gcd (a b : UInt64) : (gcd a b).toNat = Nat.gcd a.toNat b.toNat := by
  induction a, b using gcd.induct with
  | case1 a =>
    rw [gcd, if_pos rfl]
    simp
  | case2 a b hb ih =>
    rw [gcd, if_neg hb, ih, UInt64.toNat_mod, Nat.gcd_comm, ← Nat.gcd_rec, Nat.gcd_comm]

/-- The weights are the shares of ten thousand, divided by their common divisor. -/
lemma Scheme.weights_mul {scheme : Scheme} (hv : scheme.validate = .ok ()) :
    ∃ divisor, 0 < divisor ∧
      ∀ r, (scheme.weights.get r).toNat * divisor = scheme.share.get r := by
  obtain ⟨hwork, -⟩ := Scheme.validate_eq_ok.mp hv
  set a := scheme.workShares.1.toNat with ha
  set b := scheme.workShares.2.toNat with hb
  have hminer : (10000 - scheme.workShares.1.toUInt64 - scheme.workShares.2.toUInt64).toNat =
      10000 - a - b := by
    have h1 : (10000 - scheme.workShares.1.toUInt64).toNat = 10000 - a := by
      rw [UInt64.toNat_sub_of_le]
      · rfl
      · rw [UInt64.le_iff_toNat_le]
        exact Nat.le_of_lt (show a < 10000 by omega)
    rw [UInt64.toNat_sub_of_le, h1]
    · rfl
    · rw [UInt64.le_iff_toNat_le, h1]
      exact show b ≤ 10000 - a by omega
  have hgcd : (gcd (gcd (10000 - scheme.workShares.1.toUInt64 - scheme.workShares.2.toUInt64)
      scheme.workShares.1.toUInt64) scheme.workShares.2.toUInt64).toNat =
      Nat.gcd (Nat.gcd (10000 - a - b) a) b := by
    rw [toNat_gcd, toNat_gcd, hminer]
    rfl
  refine ⟨_, Nat.gcd_pos_of_pos_left b (Nat.gcd_pos_of_pos_left a (by omega : 0 < 10000 - a - b)),
    fun r => ?_⟩
  rw [Scheme.weights, PerRecipient.get_map, UInt64.toNat_div, hgcd]
  cases r with
  | miner =>
    rw [PerRecipient.get, hminer]
    exact Nat.div_mul_cancel ((Nat.gcd_dvd_left _ _).trans (Nat.gcd_dvd_left _ _))
  | project => exact Nat.div_mul_cancel ((Nat.gcd_dvd_left _ _).trans (Nat.gcd_dvd_right _ _))
  | collaborator => exact Nat.div_mul_cancel (Nat.gcd_dvd_right _ _)

lemma Scheme.sum_share {scheme : Scheme} (hv : scheme.validate = .ok ()) :
    scheme.share.sum = 10000 := by
  obtain ⟨hwork, -⟩ := Scheme.validate_eq_ok.mp hv
  simp only [share, PerRecipient.sum]
  omega

namespace Schedule

variable {s s' : Schedule} {scheme : Scheme} {unit random : UInt64}

/-- A schedule's weights are those of a scheme: each is its share of ten thousand. -/
structure Follows (s : Schedule) (scheme : Scheme) : Prop where
  valid : scheme.validate = .ok ()
  weights : s.weights = scheme.weights

lemma Follows.mul (h : s.Follows scheme) :
    ∃ divisor, 0 < divisor ∧ (∀ r, s.counts.get r * divisor = scheme.share.get r) ∧
      s.counts.sum * divisor = 10000 := by
  obtain ⟨divisor, hpos, hmul⟩ := Scheme.weights_mul h.valid
  have hget : ∀ r, s.counts.get r * divisor = scheme.share.get r := by
    intro r
    rw [counts, PerRecipient.get_map, h.weights, hmul]
  refine ⟨divisor, hpos, hget, ?_⟩
  rw [← Scheme.sum_share h.valid, PerRecipient.sum, Nat.add_mul, Nat.add_mul]
  exact congrArg₂ _ (congrArg₂ _ (hget .miner) (hget .project)) (hget .collaborator)

lemma Follows.sum_le (h : s.Follows scheme) : s.counts.sum ≤ 10000 := by
  obtain ⟨divisor, hpos, -, hsum⟩ := h.mul
  rw [← hsum]
  exact Nat.le_mul_of_pos_right _ hpos

/-- What `Schedule::new` accepts, and what it makes of it. -/
lemma new_eq_ok (h : new scheme unit random = .ok s) :
    s.Sound ∧ s.Follows scheme ∧ s.unit = unit := by
  obtain ⟨⟨⟩, hv, h⟩ := Except.bind_eq_ok.mp h
  split at h
  · rename_i cycle hcycle
    obtain ⟨hmul, hpos⟩ := Option.filter_eq_some_iff.mp hcycle
    obtain ⟨hlt, hmul⟩ := Option.ite_none_right_eq_some.mp hmul
    have hfollows : s.Follows scheme := by
      cases h
      exact ⟨hv, rfl⟩
    have hsum : scheme.weights.sum.toNat = s.counts.sum := by
      rw [← hfollows.weights, toNat_sum (hfollows.sum_le.trans_lt (by decide))]
    rw [hsum] at hlt
    have hcyc : cycle.toNat = s.counts.sum * unit.toNat := by
      rw [← Option.some.inj hmul, UInt64.toNat_mul, hsum, Nat.mod_eq_of_lt hlt]
    have hcpos : 0 < s.counts.sum * unit.toNat := by
      rw [← hcyc]
      simpa [UInt64.lt_iff_toNat_lt] using hpos
    have hposition : s.position.toNat < s.counts.sum * unit.toNat := by
      cases h
      rw [UInt64.toNat_mod, hcyc]
      exact Nat.mod_lt _ hcpos
    have hunit : s.unit = unit := by
      cases h
      rfl
    refine ⟨?_, hfollows, hunit⟩
    subst hunit
    exact ⟨Nat.pos_of_mul_pos_left hcpos, hlt, hposition⟩
  · cases h

/-- A new scheme goes on at the same part of its own cycle: nothing overflows, and the place is
inside the cycle. -/
lemma Sound.setScheme_eq_ok (hs : s.Sound) (h : s.setScheme scheme = .ok s') :
    s'.Sound ∧ s'.Follows scheme ∧ s.position.toNat * s'.cycle.toNat < 2 ^ 128 ∧
      s'.position.toNat = s.position.toNat * s'.cycle.toNat / s.cycle.toNat := by
  obtain ⟨next, hnew, h⟩ := Except.bind_eq_ok.mp h
  obtain ⟨hnext, hfollows, -⟩ := new_eq_ok hnew
  cases h
  have hposition := hs.position_lt
  rw [← hs.toNat_cycle] at hposition
  have hproduct : s.position.toNat * next.cycle.toNat < 2 ^ 128 :=
    (Nat.mul_lt_mul'' s.position.toNat_lt next.cycle.toNat_lt).trans_eq (by norm_num)
  have hlt : s.position.toNat * next.cycle.toNat / s.cycle.toNat < next.cycle.toNat := by
    rw [Nat.div_lt_iff_lt_mul (Nat.zero_lt_of_lt hposition), Nat.mul_comm next.cycle.toNat]
    exact Nat.mul_lt_mul_of_pos_right hposition (hnext.toNat_cycle ▸ hnext.cycle_pos)
  have heq : (UInt64.ofNat (s.position.toNat * next.cycle.toNat % 2 ^ 128 / s.cycle.toNat)).toNat =
      s.position.toNat * next.cycle.toNat / s.cycle.toNat := by
    rw [Nat.mod_eq_of_lt hproduct, UInt64.toNat_ofNat',
      Nat.mod_eq_of_lt (hlt.trans next.cycle.toNat_lt)]
  refine ⟨hnext.moved ?_, ⟨hfollows.valid, hfollows.weights⟩, hproduct, heq⟩
  rw [heq, ← hnext.toNat_cycle]
  exact hlt

/-! ## Runs -/

/-- A schedule under a scheme, as the program can have one: a new one, and what limited batches
and changes of the scheme make of it. -/
inductive Reached : Scheme → Schedule → Prop
  | new {scheme : Scheme} {unit random : UInt64} {s : Schedule}
    (h : new scheme unit random = .ok s) : Reached scheme s
  | record {scheme : Scheme} {s s' : Schedule} {requested completed : UInt32}
    (hs : Reached scheme s) (hle : completed ≤ s.limitBatch requested)
    (h : s.record completed = .ok s') : Reached scheme s'
  | setScheme {scheme next : Scheme} {s s' : Schedule} (hs : Reached scheme s)
    (h : s.setScheme next = .ok s') : Reached next s'

lemma Reached.sound (h : Reached scheme s) : s.Sound ∧ s.Follows scheme := by
  induction h with
  | new h =>
    obtain ⟨hs, hfollows, -⟩ := new_eq_ok h
    exact ⟨hs, hfollows⟩
  | record _ hle h ih =>
    obtain ⟨position, heq, hposition⟩ := ih.1.record_eq hle
    cases heq.symm.trans h
    exact ⟨ih.1.moved (hposition ▸ Nat.mod_lt _ ih.1.cycle_pos), ⟨ih.2.valid, ih.2.weights⟩⟩
  | setScheme _ h ih =>
    obtain ⟨hs, hfollows, -⟩ := ih.1.setScheme_eq_ok h
    exact ⟨hs, hfollows⟩

/-- A batch of hashes: how many were asked for, and how many completed. -/
structure Batch where
  requested : UInt32
  completed : UInt32

/-- Batches recorded one after the other, with the recipient of every hash. -/
def mine (s : Schedule) : List Batch → Except String (Schedule × List Recipient)
  | [] => .ok (s, [])
  | batch :: batches => do
    let next ← s.record batch.completed
    let (last, hashes) ← next.mine batches
    return (last, List.replicate batch.completed.toNat s.recipient ++ hashes)

/-- Every batch is limited where it starts. -/
def Limited (s : Schedule) : List Batch → Prop
  | [] => True
  | batch :: batches =>
    batch.completed ≤ s.limitBatch batch.requested ∧
      ∀ next, s.record batch.completed = .ok next → next.Limited batches

/-- The hashes of a run are laid out as the cycle is. -/
lemma Reached.mine_ok (h : Reached scheme s) {batches : List Batch} (hl : s.Limited batches) :
    ∃ last hashes, s.mine batches = .ok (last, hashes) ∧ Reached scheme last ∧
      hashes = (List.range' s.position.toNat hashes.length).map fun k =>
        owner s.counts s.unit.toNat (k % (s.counts.sum * s.unit.toNat)) := by
  induction batches generalizing s with
  | nil => exact ⟨s, [], rfl, h, rfl⟩
  | cons batch batches ih =>
    obtain ⟨hle, hl⟩ := hl
    obtain ⟨hs, -⟩ := h.sound
    obtain ⟨position, hrecord, hposition⟩ := hs.record_eq hle
    obtain ⟨last, hashes, hmine, hlast, hhashes⟩ := ih (h.record hle hrecord) (hl _ hrecord)
    refine ⟨last, List.replicate batch.completed.toNat s.recipient ++ hashes, ?_, hlast, ?_⟩
    · rw [mine, hrecord]
      show ({ s with position := position }.mine batches >>= _) = _
      rw [hmine]
      rfl
    · rw [List.length_append, List.length_replicate, ← List.range'_append_1, List.map_append]
      congr 1
      · refine (List.eq_replicate_iff.mpr ⟨by simp, fun r hr => ?_⟩).symm
        obtain ⟨k, hk, rfl⟩ := List.mem_map.mp hr
        obtain ⟨i, hi, rfl⟩ := List.mem_range'.mp hk
        obtain ⟨hlt, howner⟩ := hs.owner_within hle hi
        rw [Nat.one_mul, Nat.mod_eq_of_lt hlt, howner]
      · rw [← map_range'_mod (c := s.counts.sum * s.unit.toNat), ← hposition]
        · exact hhashes
        · intro k
          show owner _ _ _ = _
          rw [Nat.add_mod_right]

/-- Any window of a run gives a recipient what its places in the cycle are. -/
lemma Reached.window (h : Reached scheme s) {hashes before window after : List Recipient}
    (hlaid : hashes = (List.range' s.position.toNat hashes.length).map fun k =>
      owner s.counts s.unit.toNat (k % (s.counts.sum * s.unit.toNat)))
    (hsplit : hashes = before ++ window ++ after) (r : Recipient) :
    (window.length = s.cycle.toNat → window.count r = s.counts.get r * s.unit.toNat) ∧
      |(window.count r : ℚ) - window.length * (scheme.share.get r / 10000)| ≤
        (s.counts.get r * s.unit.toNat : ℕ) := by
  obtain ⟨hs, hfollows⟩ := h.sound
  obtain ⟨divisor, hpos, hget, hsum⟩ := hfollows.mul
  set cycle := s.counts.sum * s.unit.toNat with hcycle
  have hperiodic : Function.Periodic
      (fun k => owner s.counts s.unit.toNat (k % cycle) = r) cycle := by
    intro k
    show (owner _ _ _ = r) = _
    rw [Nat.add_mod_right]
  have hblock : hits (fun k => owner s.counts s.unit.toNat (k % cycle) = r) 0 cycle =
      s.counts.get r * s.unit.toNat := hits_owner hs.unit_pos
  rw [count_window r (hlaid.symm.trans hsplit)]
  constructor
  · intro hlength
    rw [hlength, hs.toNat_cycle, ← hcycle, hits_period hperiodic, hblock]
  · have hshare : ((s.counts.get r * s.unit.toNat : ℕ) : ℚ) / cycle =
        scheme.share.get r / 10000 := by
      have hd : (divisor : ℚ) ≠ 0 := by exact_mod_cast hpos.ne'
      have hu : (s.unit.toNat : ℚ) ≠ 0 := by exact_mod_cast hs.unit_pos.ne'
      have hten : (10000 : ℚ) = s.counts.sum * divisor := by exact_mod_cast hsum.symm
      have hnum : (scheme.share.get r : ℚ) = s.counts.get r * divisor := by
        exact_mod_cast (hget r).symm
      rw [hcycle, hten, hnum]
      push_cast
      rw [mul_div_mul_right _ _ hd, mul_div_mul_right _ _ hu]
    rw [← hshare, ← hblock]
    exact abs_hits_sub_le hperiodic hs.cycle_pos

/-- The donation schedule is exact.  From every schedule the program can have, a limited batch is
recorded and all of it belongs to one recipient; in the hashes of a run of limited batches a window
of one cycle gives each recipient its weight times the unit, and any window its share up to that
much; and a new scheme goes on at the same part of its cycle.  A reward is split without a unit
lost. -/
theorem schedule_exact (scheme : Scheme) (s : Schedule) (h : Reached scheme s) :
    (s.position < s.cycle ∧ s.cycle.toNat = s.counts.sum * s.unit.toNat) ∧
    (∀ requested completed, completed ≤ s.limitBatch requested →
      ∃ next, s.record completed = .ok next ∧ Reached scheme next ∧
        ∀ i < completed.toNat, s.position.toNat + i < s.cycle.toNat ∧
          { s with position := s.position + UInt64.ofNat i }.recipient = s.recipient) ∧
    (∀ batches, s.Limited batches → ∃ last hashes, s.mine batches = .ok (last, hashes) ∧
      Reached scheme last ∧ ∀ before window after, hashes = before ++ window ++ after → ∀ r,
        (window.length = s.cycle.toNat → window.count r = s.counts.get r * s.unit.toNat) ∧
        |(window.count r : ℚ) - window.length * (scheme.share.get r / 10000)| ≤
          (s.counts.get r * s.unit.toNat : ℕ)) ∧
    (∀ next s', s.setScheme next = .ok s' → s'.position < s'.cycle ∧
      s'.cycle.toNat = s'.counts.sum * s'.unit.toNat ∧
      s.position.toNat * s'.cycle.toNat < 2 ^ 128 ∧
      s'.position.toNat = s.position.toNat * s'.cycle.toNat / s.cycle.toNat) ∧
    (∀ (reward : Scheme) amount recipient, reward.validate = .ok () →
      ∃ parts, reward.splitReward amount recipient = .ok parts ∧
        (parts.map BitVec.toNat).sum = amount.toNat) := by
  obtain ⟨hs, hfollows⟩ := h.sound
  refine ⟨⟨hs.position_lt_cycle, hs.toNat_cycle⟩, ?_, ?_, ?_, ?_⟩
  · intro requested completed hle
    obtain ⟨position, hrecord, -⟩ := hs.record_eq hle
    refine ⟨_, hrecord, h.record hle hrecord, fun i hi => ?_⟩
    obtain ⟨hlt, howner⟩ := hs.owner_within hle hi
    have hadd : (s.position + UInt64.ofNat i).toNat = s.position.toNat + i := by
      have := hs.cycle_lt
      rw [UInt64.toNat_add, UInt64.toNat_ofNat', Nat.add_mod_mod, Nat.mod_eq_of_lt (by omega)]
    refine ⟨hs.toNat_cycle ▸ hlt, ?_⟩
    rw [(hs.moved (hadd ▸ hlt)).recipient_eq, ← howner]
    exact congrArg _ hadd
  · intro batches hl
    obtain ⟨last, hashes, hmine, hlast, hlaid⟩ := h.mine_ok hl
    exact ⟨last, hashes, hmine, hlast, fun before window after hsplit r => h.window hlaid hsplit r⟩
  · intro next s' hset
    obtain ⟨hs', -, hproduct, hposition⟩ := hs.setScheme_eq_ok hset
    exact ⟨hs'.position_lt_cycle, hs'.toNat_cycle, hproduct, hposition⟩
  · intro reward amount recipient hv
    exact splitReward_sum hv amount recipient

/-- Two percent each, 251 hashes before the end of a cycle of 5050. -/
def sample : Schedule := ⟨101, ⟨48, 1, 1⟩, 4799⟩

lemma new_sample : new (.work (200, 200)) 101 4799 = .ok sample := by
  have hgcd : gcd (gcd 9600 200) 200 = 200 :=
    UInt64.toNat_inj.mp (by rw [toNat_gcd, toNat_gcd]; decide)
  have hweights : (Scheme.work (200, 200)).weights = ⟨48, 1, 1⟩ := by
    show PerRecipient.map (· / gcd (gcd 9600 200) 200) _ = _
    rw [hgcd]
    decide
  rw [new, hweights]
  decide

theorem schedule_exact_sample :
    Reached (.work (200, 200)) sample ∧ sample.position < sample.cycle ∧
      ∃ last hashes, sample.mine [⟨100, 49⟩, ⟨7, 7⟩] = .ok (last, hashes) := by
  obtain ⟨⟨hlt, -⟩, -, hmine, -⟩ := schedule_exact _ sample (.new new_sample)
  obtain ⟨last, hashes, hrun, -⟩ := hmine [⟨100, 49⟩, ⟨7, 7⟩] (by
    refine ⟨by decide, ?_⟩
    rintro _ ⟨⟩
    exact ⟨by decide, fun _ _ => trivial⟩)
  exact ⟨.new new_sample, hlt, last, hashes, hrun⟩

end Schedule

end Pickaxe.Donation
