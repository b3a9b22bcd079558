/-
# Claims at one height

Anyone may put a claim on the baton.  A claim whose locktime is the baton's height leaves the height
as it is, and then the proof of an earlier claim passes again.  A restricted pot pays only a claim
that moves the height and the claim right after it, at the minimum difficulty.

A chain is a run of claims the contract accepts.  If a deployment's minimum difficulty is below its
maximum, a restricted pot pays at most two claims at each height, and no replay.  If the two are
equal, the difficulty never leaves the minimum, and the pot pays every claim at a height.
-/
import Pickaxe.Electric.Pot
import Pickaxe.Lib.Result

namespace Pickaxe.Electric

open Lib Script

/-- A claim on the baton: its locktime, and the recipient and the nonce of its proof. -/
structure Mine where
  locktime : UInt32
  pkh : ByteVec 20
  nonce : Bytes

/-- A claim with the state it spends. -/
structure Link where
  state : State
  mine : Mine

namespace Link

/-- The bytes that were hashed for the proof. -/
def proof (l : Link) : Bytes := preimage l.state.lastHeight l.mine.pkh l.mine.nonce

/-- A restricted pot pays for the claim. -/
def Paid (d : Deployment) (l : Link) : Prop :=
  claimLocktime l.state l.mine.locktime d = some l.mine.locktime

instance (d : Deployment) (l : Link) : Decidable (l.Paid d) :=
  inferInstanceAs (Decidable (claimLocktime l.state l.mine.locktime d = some l.mine.locktime))

lemma paid_iff {d : Deployment} {l : Link} : l.Paid d ↔ l.state.lastHeight < l.mine.locktime ∨
    l.mine.locktime = l.state.lastHeight ∧ l.state.difficulty = d.minDifficulty := by
  unfold Paid claimLocktime
  split_ifs with h <;> simp [h]

end Link

/-- The links of a run of claims from a state. -/
def chain (d : Deployment) : State → List Mine → Except String (List Link)
  | _, [] => .ok []
  | s, m :: mines => do
    let next ← s.next m.locktime d
    let links ← chain d next mines
    return ⟨s, m⟩ :: links

/-- The first state of a baton: the minimum difficulty at some height. -/
def genesis (d : Deployment) (height : UInt32) : State := ⟨d.minDifficulty, height, 0⟩

/-! ## One claim -/

section Next

variable {d : Deployment} {s next : State} {locktime : UInt32}

/-- What a claim does to the height and the difficulty. -/
lemma next_cases (h : s.next locktime d = .ok next) :
    next.lastHeight = locktime ∧ s.lastHeight ≤ locktime ∧
      (s.lastHeight < locktime ∧ next.difficulty = d.minDifficulty ∨
        s.lastHeight = locktime ∧ next.difficulty.toNat =
          min (min (s.difficulty.toNat + 1) 255) d.maxDifficulty.toNat) := by
  unfold State.next at h
  split_ifs at h with hbelow hmoves
  · cases h
    exact ⟨rfl, UInt32.not_lt.mp hbelow, .inl ⟨hmoves, rfl⟩⟩
  · cases h
    have hle := UInt32.not_lt.mp hbelow
    refine ⟨rfl, hle, .inr ⟨UInt32.le_antisymm hle (UInt32.not_lt.mp hmoves), ?_⟩⟩
    have hmax : d.maxDifficulty.toNat < 256 := d.maxDifficulty.toNat_lt
    rw [UInt8.toNat_ofNat']
    exact Nat.mod_eq_of_lt (by omega)

/-- A claim keeps the difficulty at or above the minimum; one that keeps the height raises it, where
there is room. -/
lemma next_difficulty (hd : d.Valid) (hs : d.minDifficulty.toNat ≤ s.difficulty.toNat)
    (h : s.next locktime d = .ok next) :
    d.minDifficulty.toNat ≤ next.difficulty.toNat ∧
      (d.minDifficulty.toNat < d.maxDifficulty.toNat → s.lastHeight = locktime →
        d.minDifficulty.toNat < next.difficulty.toNat) := by
  have hle := hd.min_le
  have hmax := hd.max_le
  obtain ⟨-, -, ⟨hmoves, hmin⟩ | ⟨-, hraised⟩⟩ := next_cases h
  · rw [hmin]
    refine ⟨le_rfl, fun _ heq => ?_⟩
    rw [heq] at hmoves
    exact absurd hmoves (UInt32.lt_irrefl _)
  · rw [hraised]
    exact ⟨by omega, fun _ _ => by omega⟩

end Next

/-! ## A whole chain -/

section Chain

variable {d : Deployment} {s : State} {mines : List Mine} {links : List Link}

/-- The first claim of a chain and the rest. -/
lemma chain_cons {m : Mine} (h : chain d s (m :: mines) = .ok links) :
    ∃ next rest, s.next m.locktime d = .ok next ∧ chain d next mines = .ok rest ∧
      links = ⟨s, m⟩ :: rest := by
  obtain ⟨next, hnext, h⟩ := Except.bind_eq_ok.mp h
  obtain ⟨rest, hrest, h⟩ := Except.bind_eq_ok.mp h
  cases h
  exact ⟨next, rest, hnext, hrest, rfl⟩

lemma chain_cons_ok {m : Mine} {next : State} (hnext : s.next m.locktime d = .ok next)
    (hrest : chain d next mines = .ok links) : chain d s (m :: mines) = .ok (⟨s, m⟩ :: links) := by
  rw [chain, hnext]
  show (chain d next mines >>= fun links => pure (⟨s, m⟩ :: links)) = _
  rw [hrest]
  rfl

/-- The height never goes back, and while it stays the difficulty stays above the minimum. -/
lemma mem_chain (hd : d.Valid) (hlt : d.minDifficulty.toNat < d.maxDifficulty.toNat)
    (hs : d.minDifficulty.toNat ≤ s.difficulty.toNat) (h : chain d s mines = .ok links) {l : Link}
    (hl : l ∈ links) :
    s.lastHeight ≤ l.state.lastHeight ∧ l.state.lastHeight ≤ l.mine.locktime ∧
      (l.state.lastHeight = s.lastHeight → d.minDifficulty.toNat < s.difficulty.toNat →
        d.minDifficulty.toNat < l.state.difficulty.toNat) := by
  induction mines generalizing s links with
  | nil =>
    cases h
    cases hl
  | cons m mines ih =>
    obtain ⟨next, rest, hnext, hrest, rfl⟩ := chain_cons h
    obtain ⟨hheight, hle, -⟩ := next_cases hnext
    rcases List.mem_cons.mp hl with rfl | hl
    · exact ⟨UInt32.le_refl _, hle, fun _ hgt => hgt⟩
    · obtain ⟨hmin, hraised⟩ := next_difficulty hd hs hnext
      obtain ⟨hfrom, hto, hstays⟩ := ih hmin hrest hl
      rw [hheight] at hfrom hstays
      refine ⟨UInt32.le_trans hle hfrom, hto, fun heq _ => ?_⟩
      -- back at the first height, so this claim did not move it either
      have hsame : s.lastHeight = m.locktime :=
        UInt32.le_antisymm hle (heq ▸ hfrom)
      exact hstays (heq.trans hsame) (hraised hlt hsame)

/-- The claims at one height a restricted pot pays for. -/
def paidAt (d : Deployment) (height : UInt32) (links : List Link) : ℕ :=
  links.countP fun l => l.Paid d ∧ l.mine.locktime = height

/-- What a restricted pot may still pay for at a height: two claims above the baton's, one at the
baton's if it has the minimum difficulty. -/
def budget (d : Deployment) (height : UInt32) (s : State) : ℕ :=
  if s.lastHeight < height then 2
  else if s.lastHeight = height ∧ s.difficulty = d.minDifficulty then 1 else 0

lemma paidAt_le_budget (hd : d.Valid) (hlt : d.minDifficulty.toNat < d.maxDifficulty.toNat)
    (hs : d.minDifficulty.toNat ≤ s.difficulty.toNat) (h : chain d s mines = .ok links)
    (height : UInt32) : paidAt d height links ≤ budget d height s := by
  induction mines generalizing s links with
  | nil =>
    cases h
    exact Nat.zero_le _
  | cons m mines ih =>
    obtain ⟨next, rest, hnext, hrest, rfl⟩ := chain_cons h
    obtain ⟨hmin, hraised⟩ := next_difficulty hd hs hnext
    obtain ⟨hheight, hle, hcases⟩ := next_cases hnext
    have hrest := ih hmin hrest
    rw [paidAt, List.countP_cons]
    refine (Nat.add_le_add_right hrest _).trans ?_
    simp only [Link.paid_iff, budget, hheight, decide_eq_true_eq]
    by_cases hat : m.locktime = height
    · subst hat
      rw [if_neg (UInt32.lt_irrefl _)]
      rcases hcases with ⟨hmoves, hdifficulty⟩ | ⟨hstays, -⟩
      · rw [if_pos ⟨rfl, hdifficulty⟩, if_pos hmoves]
        split_ifs <;> omega
      · have hnot : next.difficulty ≠ d.minDifficulty := by
          intro heq
          have hgt := hraised hlt hstays
          rw [heq] at hgt
          omega
        rw [if_neg (fun h => hnot h.2), hstays, if_neg (UInt32.lt_irrefl _)]
        simp only [UInt32.lt_irrefl, false_or, true_and, and_true, Nat.zero_add, Nat.le_refl]
    · have hother : ¬ ((s.lastHeight < m.locktime ∨
          m.locktime = s.lastHeight ∧ s.difficulty = d.minDifficulty) ∧ m.locktime = height) :=
        fun h => hat h.2
      rw [if_neg hother, Nat.add_zero]
      by_cases habove : m.locktime < height
      · rw [if_pos habove, if_pos (UInt32.lt_of_le_of_lt hle habove)]
      · rw [if_neg habove, if_neg (fun h => hat h.1)]
        exact Nat.zero_le _

/-- No link a restricted pot pays for repeats the proof of an earlier link at its height. -/
lemma chain_fresh (hd : d.Valid) (hlt : d.minDifficulty.toNat < d.maxDifficulty.toNat)
    (hs : d.minDifficulty.toNat ≤ s.difficulty.toNat) (h : chain d s mines = .ok links) :
    links.Pairwise fun a b => a.mine.locktime = b.mine.locktime → b.Paid d → a.proof ≠ b.proof := by
  induction mines generalizing s links with
  | nil =>
    cases h
    exact List.Pairwise.nil
  | cons m mines ih =>
    obtain ⟨next, rest, hnext, hrest, rfl⟩ := chain_cons h
    obtain ⟨hmin, hraised⟩ := next_difficulty hd hs hnext
    obtain ⟨hheight, hle, -⟩ := next_cases hnext
    refine List.Pairwise.cons ?_ (ih hmin hrest)
    intro b hb hsame hpaid
    obtain ⟨hfrom, hto, hstays⟩ := mem_chain hd hlt hmin hrest hb
    rw [hheight] at hfrom hstays
    change m.locktime = b.mine.locktime at hsame
    -- the paid claim keeps the height, so it has the minimum difficulty
    have hat : b.state.lastHeight = m.locktime :=
      UInt32.le_antisymm (hsame ▸ hto) hfrom
    have hdifficulty : b.state.difficulty = d.minDifficulty := by
      rcases Link.paid_iff.mp hpaid with hmoves | ⟨-, hdifficulty⟩
      · rw [hat, hsame] at hmoves
        exact absurd hmoves (UInt32.lt_irrefl _)
      · exact hdifficulty
    -- so the earlier claim moved the height, and its proof is over an older one
    have hmoved : s.lastHeight ≠ m.locktime := by
      intro hkept
      have hgt := hstays hat (hraised hlt hkept)
      rw [hdifficulty] at hgt
      omega
    intro hproof
    have hheights : u32Le s.lastHeight = u32Le b.state.lastHeight := by
      simp only [Link.proof, preimage, List.append_assoc] at hproof
      exact (List.append_inj hproof (by simp)).1
    exact hmoved ((u32Le_injective hheights).trans hat)

end Chain

/-! ## Restricted pots -/

section Restricted

variable [Hasher]

/-- What a restricted pot promises. -/
structure Restricted (d : Deployment) : Prop where
  /-- At most two claims at each height of each chain are paid. -/
  two_per_height : ∀ (start : UInt32) (mines : List Mine) (links : List Link),
    chain d (genesis d start) mines = .ok links → ∀ height, paidAt d height links ≤ 2
  /-- A claim that is paid does not repeat a proof of its height. -/
  fresh : ∀ (start : UInt32) (mines : List Mine) (links : List Link),
    chain d (genesis d start) mines = .ok links →
    links.Pairwise fun a b => a.mine.locktime = b.mine.locktime → b.Paid d → a.proof ≠ b.proof
  /-- The pot's own choice of a locktime is the test of its script, for the heights the contract
  writes: four bytes with a sign. -/
  agrees : ∀ (r : Recipients) (o : PotOptions) (s : State) (locktime : UInt32) (spend : Spend)
    (baton : TxIn), o.authorizedClaims = false → s.lastHeight.toNat < 2 ^ 31 →
    s.lastHeight ≤ locktime → spend.inputs[0]? = some baton →
    baton.spent.tokenCommitment = s.encode → spend.locktime = locktime.toNat →
    ((Pot.make d r o).claimLocktime s locktime d = some locktime ↔
      Accepts spend ((heightOps d.minDifficulty).map .op) ⟨[], []⟩)

lemma claimLocktime_agrees {d : Deployment} (hd : d.Valid) {r : Recipients} {o : PotOptions}
    {s : State} {locktime : UInt32} {spend : Spend} {baton : TxIn} (ho : o.authorizedClaims = false)
    (hheight : s.lastHeight.toNat < 2 ^ 31) (hle : s.lastHeight ≤ locktime)
    (hbaton : spend.inputs[0]? = some baton) (hcommitment : baton.spent.tokenCommitment = s.encode)
    (hlocktime : spend.locktime = locktime.toNat) :
    (Pot.make d r o).claimLocktime s locktime d = some locktime ↔
      Accepts spend ((heightOps d.minDifficulty).map .op) ⟨[], []⟩ := by
  have hsmall : d.minDifficulty.toNat < 128 := by
    have := hd.min_le
    have := hd.max_le
    omega
  have hpot : (Pot.make d r o).claimLocktime s locktime d = claimLocktime s locktime d := by
    rw [Pot.claimLocktime, show (Pot.make d r o).options.authorizedClaims = false from ho]
    rfl
  rw [hpot, accepts_heightOps hd.min_pos hsmall]
  have hpaid := Link.paid_iff (d := d) (l := ⟨s, ⟨locktime, ByteVec.zero 20, []⟩⟩)
  rw [Link.Paid] at hpaid
  rw [hpaid]
  constructor
  · intro h
    refine ⟨rfl, baton, hbaton, ?_⟩
    rw [hcommitment, passes_encode hheight, hlocktime]
    exact h.imp UInt32.lt_iff_toNat_lt.mp fun h => h.2
  · rintro ⟨-, baton', hbaton', hpasses⟩
    cases hbaton.symm.trans hbaton'
    rw [hcommitment, passes_encode hheight, hlocktime] at hpasses
    by_cases hmoves : s.lastHeight < locktime
    · exact .inl hmoves
    · have heq : locktime = s.lastHeight := UInt32.le_antisymm (UInt32.not_lt.mp hmoves) hle
      refine .inr ⟨heq, hpasses.resolve_left fun h => hmoves (UInt32.lt_iff_toNat_lt.mpr h)⟩

omit [Hasher] in
/-- Where the minimum is the maximum, the difficulty never changes, and the pot pays three claims at
the first height. -/
lemma three_paid {d : Deployment} (hd : d.Valid)
    (heq : d.minDifficulty.toNat = d.maxDifficulty.toNat) (m : Mine) (hm : m.locktime = 0) :
    ∃ links, chain d (genesis d 0) [m, m, m] = .ok links ∧ paidAt d 0 links = 3 := by
  have hnext : ∀ count, State.next ⟨d.minDifficulty, 0, count⟩ m.locktime d =
      .ok ⟨d.minDifficulty, 0, count + 1⟩ := by
    intro count
    have hraise : UInt8.ofNat (min (min (d.minDifficulty.toNat + 1) 255) d.maxDifficulty.toNat) =
        d.minDifficulty := by
      have hmax := hd.max_le
      rw [← heq, show min (min (d.minDifficulty.toNat + 1) 255) d.minDifficulty.toNat =
        d.minDifficulty.toNat by omega, UInt8.ofNat_toNat]
    rw [State.next, hm, if_neg (UInt32.lt_irrefl _), if_neg (UInt32.lt_irrefl _), hraise]
  refine ⟨[⟨⟨d.minDifficulty, 0, 0⟩, m⟩, ⟨⟨d.minDifficulty, 0, 1⟩, m⟩, ⟨⟨d.minDifficulty, 0, 2⟩, m⟩],
    ?_, ?_⟩
  · exact chain_cons_ok (hnext 0) (chain_cons_ok (hnext 1) (chain_cons_ok (hnext 2) rfl))
  · simp [paidAt, Link.paid_iff, hm]

/-- A restricted pot keeps its promise exactly where the minimum difficulty is below the maximum. -/
theorem restricted_iff {network : MiningNetwork} {category : Option (List Char)}
    {reward : Option UInt64} {minDifficulty maxDifficulty : Option UInt8} {d : Deployment}
    (hselect : Deployment.select network category reward minDifficulty maxDifficulty = .ok d) :
    Restricted d ↔ d.minDifficulty.toNat < d.maxDifficulty.toNat := by
  have hd := Deployment.valid_of_select hselect
  constructor
  · intro h
    by_contra hnot
    obtain ⟨links, hchain, hthree⟩ := three_paid hd (le_antisymm hd.min_le (Nat.not_lt.mp hnot))
      ⟨0, ByteVec.zero 20, []⟩ rfl
    have htwo := h.two_per_height 0 _ links hchain 0
    omega
  · intro hlt
    refine ⟨fun start mines links h height => ?_, fun start mines links h => ?_, ?_⟩
    · refine (paidAt_le_budget hd hlt le_rfl h height).trans ?_
      unfold budget
      split_ifs <;> decide
    · exact chain_fresh hd hlt le_rfl h
    · intro r o s locktime spend baton ho hheight hle hbaton hcommitment hlocktime
      exact claimLocktime_agrees hd ho hheight hle hbaton hcommitment hlocktime

end Restricted

/-- On the published deployment. -/
theorem restricted_iff_mainnet :
    let _ : Hasher := Hasher.fips
    Restricted Deployment.mainnet := by
  intro _
  have hselect : Deployment.select .mainnet none none none none = .ok Deployment.mainnet := rfl
  exact (restricted_iff hselect).mpr (by decide)

/-- A deployment of one difficulty. -/
def flatDeployment : Deployment := { Deployment.chipnet with minDifficulty := 4 }

/-- Its pot pays for the same proof three times. -/
theorem replay_paid :
    Deployment.select .chipnet
        (some "39629630f3f5ba91c6e656e7b79c2c8de2fc6f776bfe085e1b7eaf70aa8a5e76".toList) none (some 4)
        none = .ok flatDeployment ∧
      ∃ links : List Link, chain flatDeployment (genesis flatDeployment 100)
          (List.replicate 3 ⟨100, ByteVec.zero 20, [7]⟩) = .ok links ∧
        paidAt flatDeployment 100 links = 3 ∧
        ¬ links.Pairwise fun a b =>
          a.mine.locktime = b.mine.locktime → b.Paid flatDeployment → a.proof ≠ b.proof := by
  refine ⟨by decide +kernel, _, rfl, by decide, by decide⟩

end Pickaxe.Electric
