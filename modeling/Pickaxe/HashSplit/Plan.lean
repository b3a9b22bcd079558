/-
# One round of the hash split

A session mines several tokens on the same GPUs, each for its share.  Whole GPUs go to the tokens
first, the fastest to whoever needs the most of the rig's speed; the GPUs left over take turns.
Floating-point numbers are read as rationals, and `EPSILON` as zero: then every owner, the idle
rest among them, gets what it needs and no more (`plan_gives_needs`).
-/
import Mathlib.Algebra.BigOperators.Ring.List
import Mathlib.Data.Rat.Floor
import Mathlib.Tactic.FieldSimp
import Mathlib.Tactic.NormNum
import Pickaxe.Lib.Handout
import Pickaxe.Lib.Result

namespace Pickaxe.HashSplit

open Lib Handout

/-! ## Shares -/

/-- `STEP`. -/
def step : UInt8 := 5

/-- `Shares`: each token, by its name, and its share in percent. -/
abbrev Shares : Type := List (String × UInt8)

/-- The sum of shares, in `u32`. -/
def sumShares (shares : List UInt8) : ℕ := (shares.map UInt8.toNat).sum

/-- `total`. -/
def totalShares (shares : List UInt8) : ℕ := min (sumShares shares) 100

/-- `Shares::validate`. -/
def Shares.validate (shares : Shares) : Except String Unit :=
  match shares.find? fun entry => entry.2 % step ≠ 0 with
  | some (token, share) => .error s!"{token}: {share.toNat}% is not a multiple of {step.toNat}%"
  | none =>
    let sum := sumShares (shares.map Prod.snd)
    if 100 < sum then .error s!"the shares add up to {sum}%; at most 100%"
    else if sum = 0 then .error "give at least one token a share of the GPUs"
    else .ok ()

/-! ## The plan -/

/-- An owner of a GPU: a token's place among the slots, or the idle rest. -/
abbrev Owner : Type := Option ℕ

/-- A `Duration`, in nanoseconds. -/
abbrev Duration : Type := ℕ

/-- The nearest natural number, the even one of two. -/
def roundHalfEven (q : ℚ) : ℕ :=
  let below := ⌊q⌋₊
  if q - below < 1 / 2 then below
  else if 1 / 2 < q - below then below + 1
  else if below % 2 = 0 then below
  else below + 1

/-- `Duration::mul_f64`: the product, rounded to nanoseconds. -/
def Duration.mulF64 (period : Duration) (factor : ℚ) : Duration := roundHalfEven (factor * period)

/-- `Round`. -/
structure Round where
  gpus : List (Option Owner)
  turns : List (Owner × Duration)
deriving DecidableEq

/-- `EPSILON`, as zero. -/
def epsilon : ℚ := 0

/-- The sum of the shares of the tokens that want the GPUs. -/
def wanted (shares : List UInt8) (wants : List Bool) : ℕ :=
  sumShares (((shares.zip wants).filter Prod.snd).map Prod.fst)

/-- What the tokens with a share that want the GPUs need, from slot `index` on. -/
def tokenNeeds (total wanted : ℕ) : List (UInt8 × Bool) → ℕ → List (Owner × ℚ)
  | [], _ => []
  | (share, wants) :: rest, index =>
    if 0 < share ∧ wants = true then
      (some index, (share.toNat : ℚ) * total / wanted / 100) ::
        tokenNeeds total wanted rest (index + 1)
    else tokenNeeds total wanted rest (index + 1)

/-- `needs`. -/
def needs (shares : List UInt8) (wants : List Bool) : List (Owner × ℚ) :=
  let total := totalShares shares
  let wanted := wanted shares wants
  let idle := if wanted = 0 then 100 else 100 - total
  (if 0 < wanted then tokenNeeds total wanted (shares.zip wants) 0 else []) ++
    if 0 < idle then [(none, (idle : ℚ) / 100)] else []

/-- Each owner's part of the turns, for what `needs` still want. -/
def parts (needs : List (Owner × ℚ)) : List (Owner × ℚ) :=
  let left := (needs.map fun need => max need.2 0).sum
  if left ≤ epsilon then []
  else (needs.filter fun need => epsilon < need.2).map fun need => (need.1, need.2 / left)

/-- `turns`. -/
def turns (needs : List (Owner × ℚ)) (period : Duration) : List (Owner × Duration) :=
  (parts needs).map fun part => (part.1, period.mulF64 part.2)

/-- The weights in parts of their sum; equal ones where they say nothing. -/
def normalised (weights : List ℚ) : List ℚ :=
  if 0 < weights.sum ∧ ∀ weight ∈ weights, 0 ≤ weight then weights.map (· / weights.sum)
  else List.replicate weights.length (1 / max weights.length 1)

/-- The GPUs, the fastest first. -/
def order (weights : List ℚ) : List ℕ :=
  (List.range weights.length).mergeSort fun a b => weights.getD b 0 ≤ weights.getD a 0

/-- One turn of the loop over the needs: on a near tie the earlier token keeps the GPU. -/
def better (needs : List (Owner × ℚ)) (weight : ℚ) (most : Option ℕ) (entry : (Owner × ℚ) × ℕ) :
    Option ℕ :=
  if weight ≤ entry.1.2 + epsilon ∧
      (most.all fun best => ((needs[best]?.map Prod.snd).getD 0) + epsilon < entry.1.2) = true then
    some entry.2
  else most

/-- Who gets a GPU of this weight whole. -/
def most (needs : List (Owner × ℚ)) (weight : ℚ) : Option ℕ :=
  needs.zipIdx.foldl (better needs weight) none

/-- The loop of `plan` over the GPUs. -/
def assign (needs : List (Owner × ℚ)) (weights : List ℚ) : State Owner :=
  (order weights).foldl (give most weights) ⟨needs, List.replicate weights.length none⟩

/-- `plan`. -/
def plan (shares : List UInt8) (wants : List Bool) (weights : List ℚ) (period : Duration) : Round :=
  let assigned := assign (needs shares wants) (normalised weights)
  ⟨assigned.given,
    if assigned.given.any Option.isNone then turns assigned.needs period else []⟩

/-! ## What the tokens need -/

lemma Shares.validate_eq_ok {shares : Shares} (h : shares.validate = .ok ()) :
    0 < sumShares (shares.map Prod.snd) ∧ sumShares (shares.map Prod.snd) ≤ 100 := by
  rw [validate] at h
  split at h
  · cases h
  · obtain ⟨hle, h⟩ := Except.ite_error_eq_ok.mp h
    obtain ⟨hne, -⟩ := Except.ite_error_eq_ok.mp h
    omega

section

variable {totalPercent wantedPercent index : ℕ} {slots : List (UInt8 × Bool)}

lemma tokenNeeds_nonneg :
    ∀ need ∈ tokenNeeds totalPercent wantedPercent slots index, 0 ≤ need.2 := by
  induction slots generalizing index with
  | nil => exact fun _ h => nomatch h
  | cons slot slots ih =>
    obtain ⟨share, wants⟩ := slot
    rw [tokenNeeds]
    split_ifs
    · exact List.forall_mem_cons.mpr ⟨by positivity, ih⟩
    · exact ih

lemma total_tokenNeeds :
    total (tokenNeeds totalPercent wantedPercent slots index) =
      sumShares ((slots.filter Prod.snd).map Prod.fst) * totalPercent / wantedPercent / 100 := by
  induction slots generalizing index with
  | nil => simp [tokenNeeds, total, sumShares]
  | cons slot slots ih =>
    obtain ⟨share, wants⟩ := slot
    have hzero : ¬ 0 < share → (share.toNat : ℚ) = 0 := by
      intro h
      rw [UInt8.lt_iff_toNat_lt] at h
      exact_mod_cast Nat.eq_zero_of_not_pos h
    rw [tokenNeeds]
    cases wants with
    | false => simpa using ih
    | true =>
      have hsum : sumShares ((((share, true) :: slots).filter Prod.snd).map Prod.fst) =
          share.toNat + sumShares ((slots.filter Prod.snd).map Prod.fst) := by
        simp [sumShares]
      rw [hsum]
      push_cast
      split_ifs with hshare
      · rw [total, List.map_cons, List.sum_cons, ← total, ih]
        ring
      · rw [ih, hzero fun h => hshare ⟨h, rfl⟩]
        ring

end

variable {shares : List UInt8} {wants : List Bool} {weights : List ℚ}

lemma needs_nonneg : ∀ need ∈ needs shares wants, 0 ≤ need.2 := by
  intro need h
  rw [needs, List.mem_append] at h
  rcases h with h | h
  · split_ifs at h
    · exact tokenNeeds_nonneg need h
    · cases h
  · generalize (if wanted shares wants = 0 then 100 else 100 - totalShares shares) = idle at h
    split_ifs at h
    · obtain rfl := List.mem_singleton.mp h
      positivity
    · cases h

/-- Together they need the whole rig. -/
lemma total_needs (hpos : 0 < sumShares shares) (hle : sumShares shares ≤ 100) :
    total (needs shares wants) = 1 := by
  have htotal : totalShares shares = sumShares shares := min_eq_left hle
  have happend : ∀ a b : List (Owner × ℚ), total (a ++ b) = total a + total b := by
    intro a b
    simp [total]
  rw [needs, happend, htotal]
  by_cases hwanted : wanted shares wants = 0
  · simp [hwanted, total]
  · have hcancel : (sumShares (((shares.zip wants).filter Prod.snd).map Prod.fst) : ℚ) ≠ 0 := by
      exact_mod_cast hwanted
    rw [if_pos (Nat.pos_of_ne_zero hwanted), if_neg hwanted, total_tokenNeeds, wanted,
      mul_div_cancel_left₀ _ hcancel]
    split_ifs with hidle
    · simp only [total, List.map_cons, List.map_nil, List.sum_cons, List.sum_nil]
      push_cast [Nat.cast_sub hle]
      ring
    · have hfull : sumShares shares = 100 := by omega
      simp [hfull, total]

/-! ## Who gets a GPU whole -/

/-- Whoever gets a GPU needs at least its weight. -/
lemma fits_most : Fits most := by
  intro needs weight index h
  have hinv : ∀ (entries : List ((Owner × ℚ) × ℕ)) (best : Option ℕ),
      (∀ entry ∈ entries, needs[entry.2]? = some entry.1) →
      (∀ i, best = some i → ∃ entry, needs[i]? = some entry ∧ weight ≤ entry.2) →
      ∀ i, entries.foldl (better needs weight) best = some i →
        ∃ entry, needs[i]? = some entry ∧ weight ≤ entry.2 := by
    intro entries
    induction entries with
    | nil => exact fun best _ hbest => hbest
    | cons entry entries ih =>
      intro best hentries hbest
      obtain ⟨hentry, hentries⟩ := List.forall_mem_cons.mp hentries
      refine ih _ hentries fun i hi => ?_
      rw [better] at hi
      split_ifs at hi with hroom
      · cases hi
        exact ⟨entry.1, hentry, by simpa [epsilon] using hroom.1⟩
      · exact hbest i hi
  refine hinv _ none (fun entry hentry => ?_) nofun index h
  obtain ⟨need, i⟩ := entry
  exact List.mem_zipIdx_iff_getElem?.mp hentry

lemma order_nodup : (order weights).Nodup :=
  (List.mergeSort_perm _ _).nodup_iff.mpr List.nodup_range

lemma lt_of_mem_order {gpu : ℕ} (h : gpu ∈ order weights) : gpu < weights.length :=
  List.mem_range.mp ((List.mergeSort_perm _ _).mem_iff.mp h)

lemma kept_assign {needs : List (Owner × ℚ)} (hn : ∀ need ∈ needs, 0 ≤ need.2) :
    Kept needs weights [] (assign needs weights) :=
  (kept_start hn fun _ h => lt_of_mem_order h).run fits_most order_nodup

/-! ## Weights -/

lemma length_normalised : (normalised weights).length = weights.length := by
  rw [normalised]
  split_ifs
  · exact List.length_map _
  · exact List.length_replicate

lemma normalised_pos (hpos : ∀ weight ∈ weights, 0 < weight) :
    ∀ weight ∈ normalised weights, 0 < weight := by
  rw [normalised]
  split_ifs with h
  · intro weight hweight
    obtain ⟨w, hw, rfl⟩ := List.mem_map.mp hweight
    exact div_pos (hpos w hw) h.1
  · intro weight hweight
    obtain ⟨-, rfl⟩ := List.mem_replicate.mp hweight
    positivity

lemma sum_normalised (hne : weights ≠ []) (hpos : ∀ weight ∈ weights, 0 < weight) :
    (normalised weights).sum = 1 := by
  have hsum : 0 < weights.sum := List.sum_pos weights hpos hne
  rw [normalised, if_pos ⟨hsum, fun weight h => (hpos weight h).le⟩]
  simp only [div_eq_mul_inv, List.sum_map_mul_right, List.map_id']
  exact mul_inv_cancel₀ hsum.ne'

/-! ## Turns -/

section

variable {needs : List (Owner × ℚ)}

lemma sum_max (hn : ∀ need ∈ needs, 0 ≤ need.2) :
    (needs.map fun need => max need.2 0).sum = total needs :=
  congrArg List.sum (List.map_congr_left fun need h => max_eq_left (hn need h))

lemma parts_eq (hn : ∀ need ∈ needs, 0 ≤ need.2) (hpos : 0 < total needs) :
    parts needs = (needs.filter fun need => epsilon < need.2).map fun need =>
      (need.1, need.2 / total needs) := by
  rw [parts, sum_max hn]
  exact if_neg (not_le.mpr hpos)

lemma eq_zero_of_not_kept {q : ℚ} (h : 0 ≤ q) (hkept : ¬ decide (epsilon < q) = true) : q = 0 :=
  le_antisymm (not_lt.mp fun hlt => hkept (decide_eq_true hlt)) h

/-- Leaving out the owners that need nothing changes nobody's part. -/
lemma need_filter (hn : ∀ need ∈ needs, 0 ≤ need.2) (left : ℚ) (owner : Owner) :
    need ((needs.filter fun need => epsilon < need.2).map fun need => (need.1, need.2 / left))
      owner = need needs owner / left := by
  induction needs with
  | nil => simp [need]
  | cons first rest ih =>
    obtain ⟨hfirst, hrest⟩ := List.forall_mem_cons.mp hn
    have := ih hrest
    simp only [need, List.map_map] at this ⊢
    rw [List.filter_cons, List.map_cons, List.sum_cons, add_div, ← this]
    split_ifs with hkept howner howner
    · simp [howner]
    · simp [howner]
    · simp [eq_zero_of_not_kept hfirst hkept]
    · simp

lemma total_filter (hn : ∀ need ∈ needs, 0 ≤ need.2) (left : ℚ) :
    total ((needs.filter fun need => epsilon < need.2).map fun need => (need.1, need.2 / left)) =
      total needs / left := by
  induction needs with
  | nil => simp [total]
  | cons first rest ih =>
    obtain ⟨hfirst, hrest⟩ := List.forall_mem_cons.mp hn
    have := ih hrest
    simp only [total, List.map_map] at this ⊢
    rw [List.filter_cons, List.map_cons, List.sum_cons, add_div, ← this]
    split_ifs with hkept
    · simp
    · simp [eq_zero_of_not_kept hfirst hkept]

/-- What the parts of the turns are, once the whole GPUs are given away. -/
structure Shared (needs : List (Owner × ℚ)) (parts : List (Owner × ℚ)) : Prop where
  ne_nil : parts ≠ []
  pos : ∀ part ∈ parts, 0 < part.2
  total : total parts = 1
  need : ∀ owner, need parts owner * Handout.total needs = need needs owner

lemma shared_parts (hn : ∀ need ∈ needs, 0 ≤ need.2) (hpos : 0 < total needs) :
    Shared needs (parts needs) := by
  have htotal : total (parts needs) = 1 := by
    rw [parts_eq hn hpos, total_filter hn, div_self hpos.ne']
  refine ⟨?_, ?_, htotal, fun owner => ?_⟩
  · intro hnil
    rw [hnil] at htotal
    simp [total] at htotal
  · intro part hpart
    rw [parts_eq hn hpos] at hpart
    obtain ⟨need, hneed, rfl⟩ := List.mem_map.mp hpart
    have hkept : epsilon < need.2 := by simpa using (List.mem_filter.mp hneed).2
    exact div_pos hkept hpos
  · rw [parts_eq hn hpos, need_filter hn, div_mul_cancel₀ _ hpos.ne']

end

/-! ## Durations -/

lemma abs_roundHalfEven_sub_le {q : ℚ} (hq : 0 ≤ q) : |(roundHalfEven q : ℚ) - q| ≤ 1 / 2 := by
  have hle := Nat.floor_le hq
  have hlt := Nat.lt_floor_add_one q
  rw [abs_le]
  simp only [roundHalfEven]
  split_ifs <;> push_cast <;> constructor <;> linarith

/-- A turn is its part of the period, up to half a nanosecond. -/
lemma abs_mulF64_sub_le (period : Duration) {factor : ℚ} (h : 0 ≤ factor) :
    |(period.mulF64 factor : ℚ) - factor * (period : ℕ)| ≤ 1 / 2 :=
  abs_roundHalfEven_sub_le (by positivity)

lemma abs_sum_turns_sub_le (period : Duration) {parts : List (Owner × ℚ)}
    (hpos : ∀ part ∈ parts, 0 < part.2) :
    |((parts.map fun part => ((period.mulF64 part.2 : ℕ) : ℚ)).sum - total parts * (period : ℕ))| ≤
      (parts.length : ℚ) / 2 := by
  induction parts with
  | nil => simp [total]
  | cons part parts ih =>
    obtain ⟨hpart, hparts⟩ := List.forall_mem_cons.mp hpos
    have hfirst := abs_le.mp (abs_mulF64_sub_le period hpart.le)
    have hrest := abs_le.mp (ih hparts)
    simp only [total, List.map_cons, List.sum_cons, List.length_cons] at hrest ⊢
    push_cast
    rw [abs_le]
    constructor <;> linarith [hfirst.1, hfirst.2, hrest.1, hrest.2]

/-! ## The plan gives every owner what it needs -/

/-- A round of the split.  No owner gets more whole GPUs than it needs; there are turns exactly
where a GPU takes turns, each its part of the period rounded to nanoseconds; and on any GPUs at all
an owner's whole GPUs and its part of the GPUs that take turns are what it needs. -/
theorem plan_gives_needs (shares : Shares) (hv : shares.validate = .ok ()) (wants : List Bool)
    (weights : List ℚ) (hpos : ∀ weight ∈ weights, 0 < weight) (period : Duration) :
    let needs := needs (shares.map Prod.snd) wants
    let round := plan (shares.map Prod.snd) wants weights period
    let speeds := normalised weights
    total needs = 1 ∧
    round.gpus.length = weights.length ∧
    (∀ (gpu : ℕ) owner speed, round.gpus[gpu]? = some (some owner) → speeds[gpu]? = some speed →
      speed ≤ held speeds round.gpus (some owner) ∧
        held speeds round.gpus (some owner) ≤ need needs owner) ∧
    (round.turns ≠ [] ↔ none ∈ round.gpus) ∧
    ∃ parts : List (Owner × ℚ),
      round.turns = parts.map (fun part => (part.1, period.mulF64 part.2)) ∧
      (∀ part ∈ parts, 0 < part.2 ∧
        |(period.mulF64 part.2 : ℚ) - part.2 * (period : ℕ)| ≤ 1 / 2) ∧
      (round.turns ≠ [] → total parts = 1 ∧
        |((round.turns.map fun turn => ((turn.2 : ℕ) : ℚ)).sum - (period : ℕ))| ≤
          (round.turns.length : ℚ) / 2) ∧
      (weights ≠ [] → ∀ owner,
        held speeds round.gpus (some owner) + need parts owner * held speeds round.gpus none =
          need needs owner) := by
  intro needs round speeds
  obtain ⟨hsum, hle⟩ := Shares.validate_eq_ok hv
  have htotal : total needs = 1 := total_needs hsum hle
  set assigned := assign needs speeds with hassigned
  have hk : Kept needs speeds [] assigned := kept_assign needs_nonneg
  have hspeeds : ∀ speed ∈ speeds, 0 < speed := normalised_pos hpos
  have hgpus : round.gpus = assigned.given := rfl
  have hany : (assigned.given.any Option.isNone = true) ↔ none ∈ assigned.given := by
    simp [List.any_eq_true]
  have hlength : round.gpus.length = weights.length := hk.length.trans length_normalised
  -- What the owners still need is the speed of the GPUs left over.
  have hleft : weights ≠ [] → total assigned.needs = held speeds assigned.given none := by
    intro hne
    have := hk.total
    rw [show speeds.sum = 1 from sum_normalised hne hpos, htotal] at this
    linarith
  have hparts : none ∈ assigned.given → Shared assigned.needs (parts assigned.needs) := by
    intro hnone
    have hne : weights ≠ [] := by
      rintro rfl
      rw [← hgpus, List.eq_nil_of_length_eq_zero hlength] at hnone
      cases hnone
    exact shared_parts hk.nonneg (hleft hne ▸ held_pos hk.length hspeeds hnone)
  have hturns :
      round.turns = if none ∈ assigned.given then turns assigned.needs period else [] := by
    show (if _ then _ else _) = _
    by_cases hnone : none ∈ assigned.given
    · rw [if_pos hnone, if_pos (hany.mpr hnone)]
    · rw [if_neg hnone, if_neg (mt hany.mp hnone)]
  refine ⟨htotal, hlength, fun gpu owner speed hgpu hspeed => ?_, ?_, ?_⟩
  · have := hk.conserved owner
    have hnonneg := need_nonneg hk.nonneg owner
    exact ⟨le_held hspeeds hspeed hgpu, by rw [hgpus]; linarith⟩
  · rw [hturns, hgpus]
    split_ifs with hnone
    · simp [turns, (hparts hnone).ne_nil, hnone]
    · simp [hnone]
  · by_cases hnone : none ∈ assigned.given
    · have hshared := hparts hnone
      rw [if_pos hnone] at hturns
      refine ⟨parts assigned.needs, hturns, fun part hpart => ?_, fun _ => ?_, fun hne owner => ?_⟩
      · have hpart := hshared.pos part hpart
        exact ⟨hpart, abs_mulF64_sub_le period hpart.le⟩
      · refine ⟨hshared.total, ?_⟩
        have := abs_sum_turns_sub_le period hshared.pos
        rw [hshared.total, one_mul] at this
        simpa [hturns, turns, Function.comp_def] using this
      · rw [hgpus, ← hleft hne, hshared.need, add_comm]
        exact hk.conserved owner
    · rw [if_neg hnone] at hturns
      refine ⟨[], hturns, nofun, fun h => absurd hturns h, fun hne owner => ?_⟩
      have hzero : total assigned.needs = 0 := by
        rw [hleft hne, held_eq_zero hnone]
      have hneed : need assigned.needs owner = 0 :=
        need_eq_zero hk.nonneg hzero owner
      have := hk.conserved owner
      rw [hgpus, held_eq_zero hnone, mul_zero]
      linarith

/-- Both tokens of the program on a fast GPU and a slow one, the rest idle. -/
def sampleShares : Shares := [("PHOTON", 35), ("ELECTRIC", 35)]

lemma order_sample : order (normalised [19, 1]) = [0, 1] := by
  rw [order, List.mergeSort_of_pairwise]
  · decide +kernel
  · decide +kernel

theorem plan_gives_needs_sample :
    sampleShares.validate = .ok () ∧
      total (needs (sampleShares.map Prod.snd) [true, true]) = 1 ∧
      (plan (sampleShares.map Prod.snd) [true, true] [19, 1] 2000000000).gpus.length = 2 := by
  have hv : sampleShares.validate = .ok () := by decide
  obtain ⟨htotal, hlength, -⟩ :=
    plan_gives_needs sampleShares hv [true, true] [19, 1] (by decide) 2000000000
  exact ⟨hv, htotal, hlength⟩

/-- Rounded to nanoseconds, the turns need not add up to the period; and without a GPU nobody gets
what it needs. -/
theorem plan_loses_a_nanosecond :
    sampleShares.validate = .ok () ∧
      ((plan (sampleShares.map Prod.snd) [true, true] [19, 1] 2000000000).turns.map Prod.snd).sum =
        1999999999 ∧
      ∀ fraction : ℚ,
        held (normalised []) (plan (sampleShares.map Prod.snd) [true, true] [] 2000000000).gpus
            (some (some 0)) +
          fraction * held (normalised [])
            (plan (sampleShares.map Prod.snd) [true, true] [] 2000000000).gpus none ≠
        need (needs (sampleShares.map Prod.snd) [true, true]) (some 0) := by
  refine ⟨by decide, ?_, fun fraction => ?_⟩
  · rw [plan, assign, order_sample]
    decide +kernel
  · have hneed : need (needs (sampleShares.map Prod.snd) [true, true]) (some 0) = 7 / 20 := by
      decide +kernel
    have hheld : ∀ owner : Option Owner,
        held (normalised [])
          (plan (sampleShares.map Prod.snd) [true, true] [] 2000000000).gpus owner = 0 := by
      intro owner
      simp [normalised, held]
    rw [hneed, hheld, hheld]
    norm_num

end Pickaxe.HashSplit
