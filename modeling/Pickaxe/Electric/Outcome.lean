/-
# What became of a saved claim

A claim whose reply was lost is settled by the baton that is live now: `claim_outcome` walks back
from it, input by input, over transactions a node gives, each checked against its id.  Whatever the
node says, an answer means a chain of transactions (`walk_eq_accepted`, `walk_eq_conflicted`); an
honest node's answer tells who spent the old baton (`walk_of_lineage`).
-/
import Pickaxe.Electric.Claim
import Pickaxe.Photon.Baton

namespace Pickaxe.Electric

open Lib Photon

/-- `ClaimOutcome`. -/
inductive ClaimOutcome where
  | unchanged
  | accepted
  | conflicted
deriving DecidableEq

/-- An output: a transaction's id, as text, and an index. -/
abbrev Outpoint : Type := List Char × ℕ

/-- The output a baton is. -/
def Baton.outpoint (baton : Baton) : Outpoint := (baton.txid, baton.vout.toNat)

/-- The node's answers: to the request of this number, for the transaction with this id. -/
abbrev Fetch : Type := ℕ → List Char → Except String (List Char)

variable [Hasher]

/-- What the first input of a transaction spends, if the answer is the transaction asked for. -/
def previousOf (txid raw : List Char) : Except String Outpoint :=
  match Text.hexDecode raw with
  | none => .error "invalid baton transaction hex"
  | some bytes =>
    if transactionId bytes ≠ txid then
      .error "baton transaction bytes do not match the requested id"
    else firstInputOutpoint raw

/-- The loop of `claim_outcome`, with the requests made so far. -/
def walk (old : Outpoint) (expected : List Char) (fetch : Fetch) :
    ℕ → ℕ → Outpoint → Except String ClaimOutcome
  | 0, _, _ =>
    .error "ELECTRIC recovery exceeded 256 baton advances; saved claim retained"
  | fuel + 1, requests, cursor =>
    if cursor = (expected, 1) then .ok .accepted
    else if cursor.2 ≠ 1 then .error "live ELECTRIC baton is not on the saved claim's lineage"
    else do
      let raw ← fetch requests cursor.1
      let previous ← previousOf cursor.1 raw
      if previous = old then .ok .conflicted
      else walk old expected fetch fuel (requests + 1) previous

/-- `claim_outcome`. -/
def claimOutcome (current old : Baton) (expected : List Char) (fetch : Fetch) :
    Except String ClaimOutcome :=
  if current.outpoint = old.outpoint then .ok .unchanged
  else walk old.outpoint expected fetch 256 0 current.outpoint

/-! ## Whatever the node says -/

/-- A transaction the node gave under its id, whose first input spends `previous`. -/
def Given (fetch : Fetch) (txid : List Char) (previous : Outpoint) : Prop :=
  ∃ request raw, fetch request txid = .ok raw ∧ previousOf txid raw = .ok previous

/-- `n` transactions lead back from one output to another, each output but the last being output 1
of its transaction. -/
inductive Chain (fetch : Fetch) : ℕ → Outpoint → Outpoint → Prop
  | refl (c : Outpoint) : Chain fetch 0 c c
  | step {n : ℕ} {txid : List Char} {previous c : Outpoint} : Given fetch txid previous →
      Chain fetch n previous c → Chain fetch (n + 1) (txid, 1) c

variable {old : Outpoint} {expected : List Char} {fetch : Fetch} {fuel requests : ℕ}
  {cursor : Outpoint}

/-- What one turn of the walk does. -/
lemma walk_cases {outcome : ClaimOutcome}
    (h : walk old expected fetch fuel requests cursor = .ok outcome) :
    ∃ rest, fuel = rest + 1 ∧ ((cursor = (expected, 1) ∧ outcome = .accepted) ∨
      ∃ txid previous, cursor = (txid, 1) ∧ txid ≠ expected ∧ Given fetch txid previous ∧
        ((previous = old ∧ outcome = .conflicted) ∨
          walk old expected fetch rest (requests + 1) previous = .ok outcome)) := by
  cases fuel with
  | zero => cases h
  | succ rest =>
    refine ⟨rest, rfl, ?_⟩
    unfold walk at h
    split_ifs at h with haccepted hindex
    · cases h
      exact .inl ⟨haccepted, rfl⟩
    · right
      obtain ⟨txid, index⟩ := cursor
      obtain rfl : index = 1 := not_not.mp hindex
      obtain ⟨raw, hraw, h⟩ := Except.bind_eq_ok.mp h
      obtain ⟨previous, hprevious, h⟩ := Except.bind_eq_ok.mp h
      refine ⟨txid, previous, rfl, ?_, ⟨requests, raw, hraw, hprevious⟩, ?_⟩
      · rintro rfl
        exact haccepted rfl
      · split_ifs at h with hold
        · cases h
          exact .inl ⟨hold, rfl⟩
        · exact .inr h

lemma walk_eq_accepted (h : walk old expected fetch fuel requests cursor = .ok .accepted) :
    ∃ n, n < fuel ∧ Chain fetch n cursor (expected, 1) := by
  induction fuel generalizing requests cursor with
  | zero => cases h
  | succ rest ih =>
    obtain ⟨_, hrest, ⟨rfl, -⟩ | ⟨txid, previous, rfl, -, hgiven, ⟨-, hno⟩ | hwalk⟩⟩ := walk_cases h
    · exact ⟨0, Nat.succ_pos _, .refl _⟩
    · cases hno
    · cases hrest
      obtain ⟨n, hn, hchain⟩ := ih hwalk
      exact ⟨n + 1, Nat.succ_lt_succ hn, .step hgiven hchain⟩

lemma walk_eq_conflicted (h : walk old expected fetch fuel requests cursor = .ok .conflicted) :
    ∃ n txid, n < fuel ∧ Chain fetch n cursor (txid, 1) ∧ txid ≠ expected ∧
      Given fetch txid old := by
  induction fuel generalizing requests cursor with
  | zero => cases h
  | succ rest ih =>
    obtain ⟨_, hrest, ⟨-, hno⟩ | ⟨txid, previous, rfl, hne, hgiven, ⟨rfl, -⟩ | hwalk⟩⟩ := walk_cases h
    · cases hno
    · exact ⟨0, txid, Nat.succ_pos _, .refl _, hne, hgiven⟩
    · cases hrest
      obtain ⟨n, last, hn, hchain, hlast⟩ := ih hwalk
      exact ⟨n + 1, last, Nat.succ_lt_succ hn, .step hgiven hchain, hlast⟩

lemma walk_ne_unchanged : walk old expected fetch fuel requests cursor ≠ .ok .unchanged := by
  induction fuel generalizing requests cursor with
  | zero => exact nofun
  | succ rest ih =>
    intro h
    obtain ⟨_, hrest, ⟨-, hno⟩ | ⟨txid, previous, -, -, -, ⟨-, hno⟩ | hwalk⟩⟩ := walk_cases h
    · cases hno
    · cases hno
    · cases hrest
      exact ih hwalk

/-- Each turn makes one request at most. -/
lemma walk_congr {other : Fetch}
    (h : ∀ request, requests ≤ request → request < requests + fuel → fetch request = other request) :
    walk old expected fetch fuel requests cursor = walk old expected other fuel requests cursor := by
  induction fuel generalizing requests cursor with
  | zero => rfl
  | succ rest ih =>
    unfold walk
    rw [h requests le_rfl (by omega)]
    have hrest : ∀ previous, walk old expected fetch rest (requests + 1) previous =
        walk old expected other rest (requests + 1) previous :=
      fun previous => ih fun request hlow hhigh => h request (by omega) (by omega)
    simp only [hrest]

/-! ## What an honest node says -/

/-- The transactions of the network by their ids, as hexadecimal text. -/
abbrev Ledger : Type := List Char → Option (List Char)

/-- A transaction of the network whose first input spends `previous`. -/
def Spends (ledger : Ledger) (txid : List Char) (previous : Outpoint) : Prop :=
  ∃ raw, ledger txid = some raw ∧ previousOf txid raw = .ok previous

omit [Hasher] in
/-- An honest node gives every transaction of the network. -/
def Honest (ledger : Ledger) (fetch : Fetch) : Prop :=
  ∀ request txid raw, ledger txid = some raw → fetch request txid = .ok raw

/-- `n` claims one after the other, from `first`, which spends the old baton, to `last`. -/
inductive Lineage (ledger : Ledger) (old : Outpoint) (first : List Char) : ℕ → List Char → Prop
  | first : Spends ledger first old → Lineage ledger old first 1 first
  | next {n : ℕ} {txid last : List Char} : Lineage ledger old first n txid →
      Spends ledger last (txid, 1) → Lineage ledger old first (n + 1) last

variable {ledger : Ledger} {first last : List Char}

/-- A turn of the walk on a transaction of the network that is not the expected one. -/
lemma walk_of_spends (hhonest : Honest ledger fetch) {txid : List Char} {previous : Outpoint}
    (h : Spends ledger txid previous) (hne : txid ≠ expected) :
    walk old expected fetch (fuel + 1) requests (txid, 1) =
      if previous = old then .ok .conflicted
      else walk old expected fetch fuel (requests + 1) previous := by
  obtain ⟨raw, hraw, hprevious⟩ := h
  have hstart : (txid, 1) ≠ (expected, 1) := fun heq => hne (Prod.mk.inj heq).1
  rw [walk, if_neg hstart, if_neg (not_not.mpr rfl), hhonest requests txid raw hraw]
  show (previousOf txid raw >>= _) = _
  rw [hprevious]
  rfl

/-- Along a lineage the walk comes to the transaction that spent the old baton. -/
lemma walk_of_lineage (hhonest : Honest ledger fetch)
    (honly : ∀ txid, Spends ledger txid old → txid = first)
    (hexpected : ∀ previous, Spends ledger expected previous → expected = first) {n : ℕ}
    (h : Lineage ledger old first n last) (hfuel : n ≤ fuel) :
    walk old expected fetch fuel requests (last, 1) =
      .ok (if expected = first then .accepted else .conflicted) := by
  -- the walk stops at the expected transaction, which is the first one then
  have hstop : ∀ {rest requests}, walk old expected fetch (rest + 1) requests (expected, 1) =
      .ok .accepted := by
    intro rest requests
    unfold walk
    exact if_pos rfl
  induction h generalizing fuel requests with
  | first hspends =>
    obtain ⟨rest, rfl⟩ : ∃ rest, fuel = rest + 1 := ⟨fuel - 1, by omega⟩
    by_cases heq : expected = first
    · subst heq
      rw [hstop, if_pos rfl]
    · rw [walk_of_spends hhonest hspends (Ne.symm heq), if_pos rfl, if_neg heq]
  | @next n txid last hlineage hspends ih =>
    obtain ⟨rest, rfl⟩ : ∃ rest, fuel = rest + 1 := ⟨fuel - 1, by omega⟩
    by_cases heq : last = expected
    · subst heq
      rw [hstop, if_pos (hexpected _ hspends)]
    · rw [walk_of_spends hhonest hspends heq]
      by_cases hold : (txid, 1) = old
      · -- the baton before is the old one, so this is the transaction that spent it
        subst hold
        have hlast := honly last hspends
        rw [if_pos rfl, if_neg (fun hfirst => heq (hlast.trans hfirst.symm))]
      · rw [if_neg hold]
        exact ih (by omega)

/-- What `claim_outcome` answers.  Whatever the node says: unchanged just if the live baton is the old
one; accepted only if fewer than 256 given transactions lead back from the live baton to output 1 of the
expected one; conflicted only if they lead to another one whose first input spends the old baton; and
it makes at most 256 requests.  From an honest node: if at most 256 claims lead from the old baton, which one
transaction spent, to the live one, and the expected transaction spends the old baton if
it is one of the network's, the answer is whether it is the one that did. -/
theorem outcome_follows_lineage (current old : Baton) (expected : List Char) (fetch : Fetch) :
    (claimOutcome current old expected fetch = .ok .unchanged ↔
      current.outpoint = old.outpoint) ∧
    (claimOutcome current old expected fetch = .ok .accepted →
      ∃ n, n < 256 ∧ Chain fetch n current.outpoint (expected, 1)) ∧
    (claimOutcome current old expected fetch = .ok .conflicted →
      ∃ n txid, n < 256 ∧ Chain fetch n current.outpoint (txid, 1) ∧ txid ≠ expected ∧
        Given fetch txid old.outpoint) ∧
    (∀ other : Fetch, (∀ request < 256, fetch request = other request) →
      claimOutcome current old expected fetch = claimOutcome current old expected other) ∧
    ∀ (ledger : Ledger) (first : List Char) (n : ℕ), Honest ledger fetch →
      (∀ txid, Spends ledger txid old.outpoint → txid = first) →
      (∀ previous, Spends ledger expected previous → previous = old.outpoint) →
      Lineage ledger old.outpoint first n current.txid → n ≤ 256 → current.vout = 1 →
      current.outpoint ≠ old.outpoint →
        claimOutcome current old expected fetch =
          .ok (if expected = first then .accepted else .conflicted) := by
  unfold claimOutcome
  by_cases heq : current.outpoint = old.outpoint
  · rw [if_pos heq]
    refine ⟨⟨fun _ => heq, fun _ => rfl⟩, nofun, nofun, fun _ _ => by rw [if_pos heq], ?_⟩
    intro ledger first n _ _ _ _ _ _ hne
    exact absurd heq hne
  · simp only [if_neg heq]
    refine ⟨⟨fun h => absurd h walk_ne_unchanged, fun h => absurd h heq⟩, walk_eq_accepted,
      walk_eq_conflicted, fun other h => walk_congr fun request _ hlt => ?_, ?_⟩
    · exact h request (by omega)
    · intro ledger first n hhonest honly hexpected hlineage hn hvout _
      have hcurrent : current.outpoint = (current.txid, 1) := by rw [Baton.outpoint, hvout]; rfl
      rw [hcurrent]
      refine walk_of_lineage hhonest honly (fun previous hspends => ?_) hlineage hn
      obtain rfl := hexpected previous hspends
      exact honly expected hspends

section Sample

/-- A transaction whose first input spends an output: an input without a script, and one output. -/
def childOf (txid : Bytes) (index : ℕ) : Bytes :=
  leBytes 4 2 ++ [1] ++ txid.reverse ++ leBytes 4 index ++ [0] ++ List.replicate 4 0xff ++ [1] ++
    List.replicate 8 0 ++ [1, 0x51] ++ List.replicate 4 0

/-- The old baton. -/
def oldBaton : Baton :=
  { txid := Text.hexEncode (List.replicate 32 0x42)
    vout := 0
    value := 1000
    tokenAmount := 100
    state := ⟨1, 1, 0⟩ }

/-- The claim that spent it, and the one after. -/
def firstRaw : Bytes := childOf (List.replicate 32 0x42) 0

def firstTxid : List Char := transactionId firstRaw

def nextRaw : Bytes := childOf (doubleSha256 firstRaw).bytes.reverse 1

def nextTxid : List Char := transactionId nextRaw

/-- A network with these two claims, and the baton the second one left. -/
def twoClaims : Ledger := fun txid =>
  if txid = firstTxid then some (Text.hexEncode firstRaw)
  else if txid = nextTxid then some (Text.hexEncode nextRaw)
  else none

def nextBaton : Baton := { oldBaton with txid := nextTxid, vout := 1 }

/-- Its node. -/
def twoClaimsNode : Fetch := fun _ txid =>
  match twoClaims txid with
  | some raw => .ok raw
  | none => .error "No such mempool or blockchain transaction"

lemma twoClaimsNode_honest : Honest twoClaims twoClaimsNode := by
  intro request txid raw h
  simp [twoClaimsNode, h]

omit [Hasher] in
/-- What the two claims spend. -/
lemma previousOf_twoClaims :
    let _ : Hasher := Hasher.fips
    previousOf firstTxid (Text.hexEncode firstRaw) = .ok oldBaton.outpoint ∧
      previousOf nextTxid (Text.hexEncode nextRaw) = .ok (firstTxid, 1) ∧
      nextTxid ≠ firstTxid ∧ firstTxid ≠ oldBaton.txid ∧ nextTxid ≠ oldBaton.txid := by
  decide +kernel

omit [Hasher] in
lemma spends_twoClaims :
    let _ : Hasher := Hasher.fips
    Lineage twoClaims oldBaton.outpoint firstTxid 2 nextBaton.txid ∧
      ∀ txid previous, Spends twoClaims txid previous →
        (txid = firstTxid ∧ previous = oldBaton.outpoint) ∨
          (txid = nextTxid ∧ previous = (firstTxid, 1)) := by
  intro _
  obtain ⟨hfirst, hnext, hne, -, -⟩ := previousOf_twoClaims
  have hfirstRaw : twoClaims firstTxid = some (Text.hexEncode firstRaw) := if_pos rfl
  have hnextRaw : twoClaims nextTxid = some (Text.hexEncode nextRaw) := by
    rw [twoClaims, if_neg hne, if_pos rfl]
  refine ⟨.next (.first ⟨_, hfirstRaw, hfirst⟩) ⟨_, hnextRaw, hnext⟩, ?_⟩
  rintro txid previous ⟨raw, hraw, hprevious⟩
  unfold twoClaims at hraw
  split_ifs at hraw with h1 h2
  · cases hraw
    rw [h1, hfirst] at hprevious
    cases hprevious
    exact .inl ⟨h1, rfl⟩
  · cases hraw
    rw [h2, hnext] at hprevious
    cases hprevious
    exact .inr ⟨h2, rfl⟩

omit [Hasher] in
/-- The first claim is found accepted below the second. -/
theorem outcome_follows_lineage_sample :
    let _ : Hasher := Hasher.fips
    claimOutcome nextBaton oldBaton firstTxid twoClaimsNode = .ok .accepted := by
  intro _
  obtain ⟨-, -, hne, hold, -⟩ := previousOf_twoClaims
  obtain ⟨hlineage, hspends⟩ := spends_twoClaims
  have hvout : (firstTxid, 1) ≠ oldBaton.outpoint := fun heq => hold (Prod.mk.inj heq).1
  have houtcome := (outcome_follows_lineage nextBaton oldBaton firstTxid twoClaimsNode).2.2.2.2
    twoClaims firstTxid 2 twoClaimsNode_honest
    (fun txid h => by
      obtain ⟨rfl, -⟩ | ⟨-, h⟩ := hspends txid _ h
      · rfl
      · exact absurd h.symm hvout)
    (fun previous h => by
      obtain ⟨-, rfl⟩ | ⟨h, -⟩ := hspends _ previous h
      · rfl
      · exact absurd h.symm hne)
    hlineage (by decide) rfl (fun heq => by cases (Prod.mk.inj heq).2)
  rwa [if_pos rfl] at houtcome

omit [Hasher] in
/-- A later claim's id is called accepted, although another transaction spent the old baton. -/
theorem later_claim_accepted :
    let _ : Hasher := Hasher.fips
    ¬ ∀ (current old : Baton) (expected : List Char) (fetch : Fetch) (ledger : Ledger)
      (first : List Char) (n : ℕ), Honest ledger fetch →
      (∀ txid, Spends ledger txid old.outpoint → txid = first) →
      Lineage ledger old.outpoint first n current.txid → n ≤ 256 → current.vout = 1 →
      current.outpoint ≠ old.outpoint →
        claimOutcome current old expected fetch =
          .ok (if expected = first then .accepted else .conflicted) := by
  intro _ hclaim
  obtain ⟨-, -, hne, hold, -⟩ := previousOf_twoClaims
  obtain ⟨hlineage, hspends⟩ := spends_twoClaims
  have hvout : (firstTxid, 1) ≠ oldBaton.outpoint := fun heq => hold (Prod.mk.inj heq).1
  have hcurrent : nextBaton.outpoint ≠ oldBaton.outpoint := fun heq => by
    cases (Prod.mk.inj heq).2
  have houtcome := hclaim nextBaton oldBaton nextTxid twoClaimsNode twoClaims firstTxid 2
    twoClaimsNode_honest
    (fun txid h => by
      obtain ⟨rfl, -⟩ | ⟨-, h⟩ := hspends txid _ h
      · rfl
      · exact absurd h.symm hvout)
    hlineage (by decide) rfl hcurrent
  rw [if_neg hne, claimOutcome, if_neg hcurrent, walk, if_pos (by rfl)] at houtcome
  cases houtcome

end Sample

end Pickaxe.Electric
