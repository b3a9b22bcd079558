/-
# Payouts

Who a job's coinbase and its token leaves pay: the donation setting, a public pool's fee,
the scripts of the miner, the donation and the operator, and the outputs that split a
reward among them.
-/
import Pickaxe.Cashaddr
import Pickaxe.Merge.Set

namespace Pickaxe

open Lib Merge

/-! ## Donation and fee -/

/-- `BchDonation`: a rate in hundredths of a percent. -/
@[ext] structure BchDonation where
  bps : ℕ
  bps_le : bps ≤ 10000
deriving DecidableEq

namespace BchDonation

/-- The default rate, 1.5%. -/
def standard : BchDonation := ⟨150, by omega⟩

instance : Inhabited BchDonation := ⟨standard⟩

/-- `BchDonation::try_from`. -/
def tryFrom (bps : ℕ) : Except String BchDonation :=
  if h : bps > 10000 then .error "BCH donation must be between 0% and 100%"
  else .ok ⟨bps, Nat.not_lt.mp h⟩

/-- The value of a text of decimal digits. -/
def digits? (s : List Char) : Option ℕ :=
  if s.all fun c => '0' ≤ c && c ≤ '9' then some (s.foldl (fun n c => 10 * n + (c.toNat - 48)) 0)
  else none

/-- `BchDonation::from_str`: a percentage with at most two decimal places. -/
def fromStr (value : List Char) : Except String BchDonation :=
  let invalid := "use a donation percentage with at most two decimal places"
  let whole := value.takeWhile (· ≠ '.')
  let fraction := (value.dropWhile (· ≠ '.')).drop 1
  if whole.isEmpty ∨ fraction.length > 2 then .error invalid
  else match digits? whole, digits? fraction with
    | some units, some part =>
      if units ≥ 2 ^ 16 then .error invalid
      else
        let bps := 100 * units + if fraction.length = 1 then 10 * part else part
        if bps ≥ 2 ^ 16 then .error invalid else tryFrom bps
    | _, _ => .error invalid

/-- `BchDonation::work_units`: a third of the rate, as work. -/
def workUnits (d : BchDonation) (units : ℕ) : ℕ := (units * d.bps + 29999) / 30000

/-- `BchDonation::pool_work_units`. -/
def poolWorkUnits (d : BchDonation) (units : ℕ) : ℕ := (units * d.bps + 9999) / 10000

/-- `BchDonation::reward_units`: two thirds of the rate, from the reward. -/
def rewardUnits (d : BchDonation) (units : ℕ) : ℕ := units * d.bps * 2 / 30000

/-- `BchDonation::reward_bps`. -/
def rewardBps (d : BchDonation) : ℕ := d.rewardUnits 10000

end BchDonation

/-- How a public pool takes its fee. -/
inductive FeeMode where
  | coinbase
  | work
  | both
deriving DecidableEq

/-- A public pool's fee. -/
structure PoolFee where
  rate : BchDonation
  mode : FeeMode
deriving DecidableEq

namespace PoolFee

/-- `PoolFee::work_units`. -/
def workUnits (f : PoolFee) (units : ℕ) : ℕ :=
  match f.mode with
  | .coinbase => 0
  | .work => f.rate.poolWorkUnits units
  | .both => f.rate.workUnits units

/-- `PoolFee::reward_units`. -/
def rewardUnits (f : PoolFee) (units : ℕ) : ℕ :=
  match f.mode with
  | .coinbase => units * f.rate.bps / 10000
  | .work => 0
  | .both => f.rate.rewardUnits units

/-- `PoolFee::reward_bps`. -/
def rewardBps (f : PoolFee) : ℕ := f.rewardUnits 10000

end PoolFee

/-- One job's payout policy. -/
structure BchPayout where
  donation : BchDonation
  donationWork : Bool
  fee : Option PoolFee
  feeWork : Bool
  tokenDonationWork : Option Bool
  tokenFeeWork : Option Bool
deriving DecidableEq

namespace BchPayout

instance : Inhabited BchPayout := ⟨⟨default, false, none, false, none, none⟩⟩

/-- `BchPayout::amounts`: the miner's, the donation's and the fee's part of a reward. -/
def amounts (p : BchPayout) (reward : ℕ) : List ℕ :=
  if p.donationWork then [0, reward, 0]
  else if p.feeWork then [0, 0, reward]
  else
    let donation := p.donation.rewardUnits reward
    let left := reward - donation
    let fee := (p.fee.map fun fee => fee.rewardUnits left).getD 0
    [left - fee, donation, fee]

end BchPayout

/-! ## Scripts and outputs -/

/-- `donation::bch::address`. -/
def donationAddress : MiningNetwork → List Char
  | .mainnet => "bitcoincash:qze95tc2dqrnltvxfa5yhunwx5952f34fvw4g6365k".toList
  | .chipnet => "bchtest:qrzq5f9ltv70u4su7d40agd4nlnp8qlgqcma6x2tvp".toList

/-- A public pool: its fee and its operator's address. -/
structure PublicPool where
  fee : Option PoolFee
  address : List Char
deriving DecidableEq

/-- What a public pool's username says. -/
structure Login where
  payout : List Char
  donation : Option BchDonation
deriving DecidableEq

namespace Payout

/-- `DONATION_OPTION_ERROR`. -/
def donationOptionError : String :=
  "donation= takes a percentage from 0 to 100 in 0.5% steps, such as ,donation=0.5"

/-- `user_payout`: the payout address of a username without its worker name. -/
def userPayout (network : MiningNetwork) (user : List Char) : Except String (List Char) :=
  let name := (Text.trim user).takeWhile (· ≠ '.')
  let address :=
    if name.contains ':' then name else network.cashaddrPrefix.toList ++ [':'] ++ name
  match Config.validateCoinbaseAddress network address with
  | .error _ => .error "the username is not a payout address on this network"
  | .ok payout => .ok payout

/-- The comma-separated options of a username. -/
def options (s : List Char) : List (List Char) :=
  (s.splitBy fun a b => a ≠ ',' && b ≠ ',').filter fun o =>
    o ≠ [','] && !(Text.trim o).isEmpty

/-- The donation a username's options choose, after the one found so far. -/
def loginDonation : List (List Char) → Option BchDonation → Except String (Option BchDonation)
  | [], found => .ok found
  | option :: rest, found =>
    let key := Text.trim (option.takeWhile (· ≠ '='))
    let value := Text.trim ((option.dropWhile (· ≠ '=')).drop 1)
    if key ≠ "donation".toList ∧ key ≠ "pickaxe-donation".toList then loginDonation rest found
    else match BchDonation.fromStr value with
      | .error _ => .error donationOptionError
      | .ok rate =>
        if found.isSome ∨ rate.bps % 50 ≠ 0 then .error donationOptionError
        else loginDonation rest (some rate)

/-- `identity_login`: a public pool username's payout address and donation choice. -/
def identityLogin (network : MiningNetwork) (identity : List Char) : Except String Login := do
  let trimmed := Text.trim identity
  let user := trimmed.takeWhile (· ≠ ',')
  let rest := (trimmed.dropWhile (· ≠ ',')).drop 1
  let donation ← loginDonation (options rest) none
  let payout ← userPayout network user
  return ⟨payout, donation⟩

/-- A public pool's login names its payout in canonical form. -/
lemma validate_userPayout {network : MiningNetwork} {user payout : List Char}
    (h : userPayout network user = .ok payout) :
    Config.validateCoinbaseAddress network payout = .ok payout := by
  unfold userPayout at h
  simp only at h
  split at h
  · cases h
  rename_i p hp
  cases h
  refine Config.validateCoinbaseAddress_canonical ?_ hp
  split_ifs with hcolon
  · exact hcolon
  · simp

lemma validate_identityLogin {network : MiningNetwork} {identity : List Char} {login : Login}
    (h : identityLogin network identity = .ok login) :
    Config.validateCoinbaseAddress network login.payout = .ok login.payout := by
  obtain ⟨donation, -, h⟩ := Except.bind_eq_ok.mp h
  obtain ⟨payout, hpayout, h⟩ := Except.bind_eq_ok.mp h
  cases h
  exact validate_userPayout hpayout

/-- `scripts`: the miner's, the donation's and, on a public pool, the operator's locking
script. -/
def scripts (network : MiningNetwork) (miner : List Char) (operator : Option (List Char)) :
    Except String (List Bytes) := do
  let miner ← Config.validateCoinbaseAddress network miner
  let donation ← Config.validatePayoutAddress network (donationAddress network)
  let minerScript ← Cashaddr.toCoinbaseLocking miner
  let donationScript ← Cashaddr.toP2pkhLocking donation
  match operator with
  | none => return [minerScript, donationScript]
  | some operator =>
    let operator ← Config.validateCoinbaseAddress network operator
    let operatorScript ← Cashaddr.toCoinbaseLocking operator
    return [minerScript, donationScript, operatorScript]

/-- `beneficiary`: the script a job's work pays. -/
def beneficiary (scripts : List Bytes) (policy : BchPayout) : Bytes :=
  if policy.donationWork then scripts.getD 1 []
  else if policy.feeWork ∧ scripts.length > 2 then scripts.getD 2 []
  else scripts.getD 0 []

/-- One more amount to a script: added to the output that pays it already, or a new one. -/
def addOutput (outputs : List (ℕ × Bytes)) (amount : ℕ) (script : Bytes) : List (ℕ × Bytes) :=
  match outputs.findIdx? fun o => o.2 == script with
  | some i => outputs.modify i fun o => (o.1 + amount, o.2)
  | none => outputs ++ [(amount, script)]

/-- `outputs`: the outputs that split `value` by `policy`; a script paid twice has one
output. -/
def outputs (value : ℕ) (scripts : List Bytes) (policy : BchPayout) : List (ℕ × Bytes) :=
  if value = 0 then [(0, beneficiary scripts policy)]
  else (((policy.amounts value).zip scripts).filter fun p => p.1 ≠ 0).foldl
    (fun outputs p => addOutput outputs p.1 p.2) []

/-- `leaf_terms`: what a job's token leaves bind. -/
def leafTerms [Hasher] (scripts : List Bytes) (policy : BchPayout) : Except String LeafTerms := do
  let operator := scripts[2]?
  let slot := fun (bps : ℕ) (script : Bytes) =>
    (Slot.new (UInt16.ofNat bps) script).mapError SplitError.display
  let (payout, split) ←
    if policy.donationWork then .ok (scripts.getD 1 [], Split.none)
    else match policy.feeWork, operator with
      | true, some operator => .ok (operator, Split.none)
      | _, _ => do
        let donation ← slot policy.donation.rewardBps (scripts.getD 1 [])
        let fee ← match policy.fee, operator with
          | some fee, some operator => slot fee.rewardBps operator
          | _, _ => .ok Slot.empty
        pure (scripts.getD 0 [], (⟨donation, fee⟩ : Split))
  let plain :=
    if policy.donationWork ∨ policy.tokenDonationWork = some true then scripts.getD 1 []
    else match operator with
      | some operator =>
        if policy.feeWork ∨ policy.tokenFeeWork = some true then operator else scripts.getD 0 []
      | none => scripts.getD 0 []
  return ⟨payout, split, plain⟩

/-! ## What the outputs add up to -/

lemma sum_addOutput (os : List (ℕ × Bytes)) (amount : ℕ) (script : Bytes) :
    ((addOutput os amount script).map Prod.fst).sum = (os.map Prod.fst).sum + amount := by
  induction os with
  | nil => simp [addOutput]
  | cons o os ih =>
    by_cases ho : o.2 = script
    · simp [addOutput, List.findIdx?_cons, ho, List.modify]
      omega
    · have hrest : addOutput (o :: os) amount script = o :: addOutput os amount script := by
        cases hidx : os.findIdx? fun o => o.2 == script <;>
          simp [addOutput, List.findIdx?_cons, ho, hidx, List.modify]
      rw [hrest, List.map_cons, List.sum_cons, ih, List.map_cons, List.sum_cons, add_assoc]

/-- A script paid already keeps its place, another one comes last. -/
lemma scripts_addOutput (os : List (ℕ × Bytes)) (amount : ℕ) (script : Bytes) :
    (addOutput os amount script).map Prod.snd =
      if script ∈ os.map Prod.snd then os.map Prod.snd else os.map Prod.snd ++ [script] := by
  unfold addOutput
  cases hidx : os.findIdx? fun o => o.2 == script with
  | none =>
    rw [List.findIdx?_eq_none_iff] at hidx
    rw [if_neg]
    · simp
    · rintro hmem
      obtain ⟨o, ho, rfl⟩ := List.mem_map.mp hmem
      simpa using hidx o ho
  | some i =>
    obtain ⟨hlt, ho, -⟩ := List.findIdx?_eq_some_iff_getElem.mp hidx
    rw [if_pos]
    · refine List.ext_getElem? fun j => ?_
      rw [List.getElem?_map, List.getElem?_modify, List.getElem?_map]
      cases os[j]? with
      | none => rfl
      | some o => by_cases hij : i = j <;> simp [hij]
    · exact List.mem_map.mpr ⟨os[i], List.getElem_mem hlt, by simpa using ho⟩

lemma pos_addOutput {os : List (ℕ × Bytes)} {amount : ℕ} (hamount : 0 < amount) (script : Bytes)
    (h : ∀ o ∈ os, 0 < o.1) : ∀ o ∈ addOutput os amount script, 0 < o.1 := by
  intro o ho
  unfold addOutput at ho
  split at ho
  · rename_i i hi
    obtain ⟨j, hj⟩ := List.mem_iff_getElem?.mp ho
    rw [List.getElem?_modify] at hj
    cases hjo : os[j]? with
    | none => simp [hjo] at hj
    | some q =>
      have hq := h q (List.mem_of_getElem? hjo)
      rw [hjo] at hj
      by_cases hij : i = j
      · simp [hij] at hj
        rw [← hj]
        exact Nat.add_pos_left hq amount
      · simp [hij] at hj
        rw [← hj]
        exact hq
  · rcases List.mem_append.mp ho with ho | ho
    · exact h o ho
    · rw [List.mem_singleton.mp ho]
      exact hamount

/-- The outputs of amounts to scripts, one after the other. -/
def gather (payments : List (ℕ × Bytes)) : List (ℕ × Bytes) :=
  payments.foldl (fun outputs p => addOutput outputs p.1 p.2) []

/-- Gathering keeps the sum, the order and the scripts, each once. -/
lemma gather_spec (payments : List (ℕ × Bytes)) :
    ((gather payments).map Prod.fst).sum = (payments.map Prod.fst).sum ∧
      ((gather payments).map Prod.snd).Nodup ∧
      ((gather payments).map Prod.snd).Sublist (payments.map Prod.snd) ∧
      ((∀ p ∈ payments, 0 < p.1) → ∀ o ∈ gather payments, 0 < o.1) := by
  -- one payment more at the end
  induction payments using List.reverseRecOn with
  | nil => simp [gather]
  | append_singleton payments p ih =>
    obtain ⟨hsum, hnodup, hsub, hpos⟩ := ih
    have hstep : gather (payments ++ [p]) = addOutput (gather payments) p.1 p.2 := by
      simp [gather]
    rw [hstep, sum_addOutput, scripts_addOutput, hsum]
    refine ⟨by simp, ?_, ?_, ?_⟩
    · split_ifs with hmem
      · exact hnodup
      · rw [List.nodup_append']
        exact ⟨hnodup, List.nodup_singleton _, by simpa using hmem⟩
    · rw [List.map_append, List.map_singleton]
      split_ifs
      · exact hsub.trans (List.sublist_append_left _ _)
      · exact hsub.append_right _
    · intro hall
      refine pos_addOutput (hall p (by simp)) p.2 (hpos fun q hq => hall q ?_)
      simp [hq]

end Payout

lemma BchDonation.rewardUnits_le (d : BchDonation) (units : ℕ) : d.rewardUnits units ≤ units := by
  have := d.bps_le
  unfold BchDonation.rewardUnits
  have hle : units * d.bps * 2 ≤ units * 30000 := by
    calc units * d.bps * 2 = units * (d.bps * 2) := by ring
      _ ≤ units * 30000 := by
        gcongr
        omega
  exact Nat.div_le_of_le_mul (by omega)

lemma PoolFee.rewardUnits_le (f : PoolFee) (units : ℕ) : f.rewardUnits units ≤ units := by
  unfold PoolFee.rewardUnits
  cases f.mode with
  | coinbase =>
    have := f.rate.bps_le
    have hle : units * f.rate.bps ≤ units * 10000 := by gcongr
    exact Nat.div_le_of_le_mul (by omega)
  | work => exact Nat.zero_le _
  | both => exact f.rate.rewardUnits_le units

namespace BchPayout

/-- The three amounts make up the reward. -/
lemma sum_amounts (p : BchPayout) (reward : ℕ) : (p.amounts reward).sum = reward := by
  unfold amounts
  split_ifs
  · simp
  · simp
  · have hdonation := p.donation.rewardUnits_le reward
    cases p.fee with
    | none =>
      simp
      omega
    | some fee =>
      have hfee := fee.rewardUnits_le (reward - p.donation.rewardUnits reward)
      simp
      omega

lemma length_amounts (p : BchPayout) (reward : ℕ) : (p.amounts reward).length = 3 := by
  unfold amounts
  split_ifs <;> rfl

/-- Without a fee and fee work nothing goes to an operator. -/
lemma amounts_two {p : BchPayout} (hfee : p.fee = none) (hwork : p.feeWork = false) (reward : ℕ) :
    (p.amounts reward)[2]? = some 0 := by
  unfold amounts
  rw [hfee, hwork]
  split_ifs <;> simp_all

/-- A policy as the server issues it: fee work is of a fee, and a fee is a public pool's. -/
structure Issued (p : BchPayout) (pool : Option PublicPool) : Prop where
  fee : p.fee = pool.bind PublicPool.fee
  feeWork : p.feeWork = true → p.fee.isSome

end BchPayout

namespace Payout

/-- What `scripts` lists: scripts that a coinbase pays. -/
lemma scripts_eq_ok {network : MiningNetwork} {miner : List Char} {operator : Option (List Char)}
    {list : List Bytes} (h : scripts network miner operator = .ok list) :
    (∀ script ∈ list, Cashaddr.Locking script) ∧
      list.length = if operator.isSome then 3 else 2 := by
  obtain ⟨m, -, h⟩ := Except.bind_eq_ok.mp h
  obtain ⟨d, -, h⟩ := Except.bind_eq_ok.mp h
  obtain ⟨minerScript, hminer, h⟩ := Except.bind_eq_ok.mp h
  obtain ⟨donationScript, hdonation, h⟩ := Except.bind_eq_ok.mp h
  have hminer := Cashaddr.Locking.of_coinbase hminer
  have hdonation := Cashaddr.Locking.of_p2pkh hdonation
  cases operator with
  | none =>
    cases h
    simp [hminer, hdonation]
  | some operator =>
    obtain ⟨o, -, h⟩ := Except.bind_eq_ok.mp h
    obtain ⟨operatorScript, hoperator, h⟩ := Except.bind_eq_ok.mp h
    have hoperator := Cashaddr.Locking.of_coinbase hoperator
    cases h
    simp [hminer, hdonation, hoperator]

lemma outputs_of_pos {value : ℕ} (hvalue : value ≠ 0) (scripts : List Bytes) (policy : BchPayout) :
    outputs value scripts policy =
      gather (((policy.amounts value).zip scripts).filter fun p => p.1 ≠ 0) := by
  rw [outputs, if_neg hvalue, gather]

lemma sum_filter_ne_zero (payments : List (ℕ × Bytes)) :
    ((payments.filter fun p => p.1 ≠ 0).map Prod.fst).sum = (payments.map Prod.fst).sum := by
  induction payments with
  | nil => rfl
  | cons p payments ih => by_cases hp : p.1 = 0 <;> simp_all

/-- The amounts to scripts the server pairs a policy with add up to the reward. -/
lemma sum_zip_amounts {network : MiningNetwork} {miner : List Char} {pool : Option PublicPool}
    {list : List Bytes} (hscripts : scripts network miner (pool.map PublicPool.address) = .ok list)
    {policy : BchPayout} (hpolicy : policy.Issued pool) (value : ℕ) :
    (((policy.amounts value).zip list).map Prod.fst).sum = value := by
  have hlength := (scripts_eq_ok hscripts).2
  have hsum := policy.sum_amounts value
  have hamounts := policy.length_amounts value
  obtain ⟨a, b, c, habc⟩ := List.length_eq_three.mp hamounts
  cases pool with
  | none =>
    have hfee : policy.fee = none := hpolicy.fee
    have hwork : policy.feeWork = false := by
      by_contra h
      have := hpolicy.feeWork (by simpa using h)
      simp [hfee] at this
    have hthird := BchPayout.amounts_two hfee hwork value
    obtain ⟨s, t, rfl⟩ := List.length_eq_two.mp hlength
    rw [habc] at hsum hthird ⊢
    simp at hsum hthird ⊢
    omega
  | some pool =>
    obtain ⟨s, t, u, rfl⟩ := List.length_eq_three.mp hlength
    rw [habc] at hsum ⊢
    simpa using hsum

/-- What a job's coinbase pays: the value, in outputs to distinct scripts in the given order;
none is empty, unless the value is 0 and the one output is the beneficiary's. -/
lemma outputs_spec {network : MiningNetwork} {miner : List Char} {pool : Option PublicPool}
    {list : List Bytes} (hscripts : scripts network miner (pool.map PublicPool.address) = .ok list)
    {policy : BchPayout} (hpolicy : policy.Issued pool) (value : ℕ) :
    ((outputs value list policy).map Prod.fst).sum = value ∧
      ((outputs value list policy).map Prod.snd).Nodup ∧
      ((outputs value list policy).map Prod.snd).Sublist list ∧
      (value ≠ 0 → ∀ o ∈ outputs value list policy, 0 < o.1) ∧
      (value = 0 → outputs value list policy = [(0, beneficiary list policy)]) := by
  by_cases hvalue : value = 0
  · have houtputs : outputs value list policy = [(0, beneficiary list policy)] := if_pos hvalue
    have hmem : beneficiary list policy ∈ list := by
      have hlength := (scripts_eq_ok hscripts).2
      unfold beneficiary
      split_ifs at hlength ⊢ with h1 h2 h3 <;>
        first
        | (obtain ⟨s, t, u, rfl⟩ := List.length_eq_three.mp hlength; simp)
        | (obtain ⟨s, t, rfl⟩ := List.length_eq_two.mp hlength; simp_all)
    rw [houtputs]
    simp [hvalue, hmem]
  · rw [outputs_of_pos hvalue]
    obtain ⟨hsum, hnodup, hsub, hpos⟩ := gather_spec
      (((policy.amounts value).zip list).filter fun p => p.1 ≠ 0)
    refine ⟨?_, hnodup, ?_, fun _ => hpos ?_, fun h => absurd h hvalue⟩
    · rw [hsum, sum_filter_ne_zero, sum_zip_amounts hscripts hpolicy value]
    · have hlength : list.length ≤ (policy.amounts value).length := by
        rw [(scripts_eq_ok hscripts).2, policy.length_amounts]
        split_ifs <;> omega
      refine hsub.trans ?_
      nth_rewrite 2 [← List.map_snd_zip hlength]
      exact List.filter_sublist.map _
    · intro p hp
      have := List.of_mem_filter hp
      simp at this
      omega

end Payout

end Pickaxe
