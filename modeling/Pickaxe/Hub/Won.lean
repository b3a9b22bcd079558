/-
# States that are won once

The hub remembers the token states it has won lately, so that each is proven once: a win goes to
the claim worker only if it holds a state the hub does not remember, and the worker journals a
row for every entry of the win.  The hub remembers 256 states, and a tSAFA hub that opens takes
the states of its journal's live rows for won.

A run counts, for each state, the rows journaled for it and the times it was forgotten.
-/
import Mathlib.Data.List.Dedup
import Pickaxe.Hub.Row
import Pickaxe.Jd.Plan
import Pickaxe.Payout

namespace Pickaxe.Hub

open Lib Merge Safa

/-- `KEPT_PROOFS`: rows the journal keeps, the oldest dropped first. -/
def keptProofs : ℕ := 256

/-- `RECENT_STATES`: token states recently won. -/
def recentStates : ℕ := 256

/-- A token's category and the hash of its thread's state. -/
abbrev StateKey : Type := Hash × Hash

/-- `TokenWin`: a share that wins merge-mined tokens, with everything their proofs need. -/
structure TokenWin where
  aux : AuxJob
  /-- Indices of the entries won. -/
  entries : List UInt16
  coinbase : Bytes
  merklePath : List Hash
  header : ByteVec 80
  height : UInt32
  payout : BchPayout
  miner : List Char
  operator : Option (List Char)
  /-- A Job Declaration job's plan. -/
  declared : Option Jd.JdPlan
  /-- Every entry is listed once. -/
  entries_nodup : entries.Nodup
  /-- A token set has one entry a category, and at most 16. -/
  categories_nodup : (aux.entries.map fun e => e.token.category).Nodup
  aux_length : aux.entries.length ≤ maxTokens

namespace TokenWin

/-- `states`: the token states a win holds, one for each won entry. -/
def states (win : TokenWin) : List StateKey :=
  win.entries.filterMap fun entry =>
    (win.aux.entries[entry.toNat]?).map fun item => (item.token.category, item.leaf.stateHash)

lemma categories_states (win : TokenWin) : (win.states.map Prod.fst).Nodup := by
  rw [states, List.map_filterMap]
  refine List.Nodup.filterMap ?_ win.entries_nodup
  intro i j c hi hj
  have hcategory : ∀ {k : UInt16}, c ∈ ((win.aux.entries[k.toNat]?).map fun item : AuxEntry =>
      (item.token.category, item.leaf.stateHash)).map Prod.fst →
      (win.aux.entries.map fun e => e.token.category)[k.toNat]? = some c := by
    intro k hk
    rw [List.getElem?_map]
    simpa [Option.map_map, Function.comp_def] using hk
  have hlt := (List.getElem?_eq_some_iff.mp (hcategory hi)).1
  exact UInt16.toNat_inj.mp ((List.getElem?_inj hlt win.categories_nodup).mp
    ((hcategory hi).trans (hcategory hj).symm))

/-- A win holds each state once, and at most 16. -/
lemma states_nodup (win : TokenWin) : win.states.Nodup := List.Nodup.of_map _ win.categories_states

lemma length_states (win : TokenWin) : win.states.length ≤ maxTokens := by
  have hsub : win.states.map Prod.fst ⊆ win.aux.entries.map fun e => e.token.category := by
    intro c hc
    obtain ⟨key, hkey, rfl⟩ := List.mem_map.mp hc
    obtain ⟨entry, -, hget⟩ := List.mem_filterMap.mp hkey
    obtain ⟨item, hitem, rfl⟩ := Option.map_eq_some_iff.mp hget
    exact List.mem_map_of_mem (List.mem_of_getElem? hitem)
  have hle := (List.subperm_of_subset win.categories_states hsub).length_le
  rw [List.length_map, List.length_map] at hle
  exact hle.trans win.aux_length

end TokenWin

/-- The tSAFA side of a hub: its category and the vaults jobs lately carried. -/
structure SafaVaults where
  category : Hash
  mined : List Vault

/-- `TokenHub`: the network, tSAFA's vaults if a deployment file was given, the states won, and why
claims are off. -/
structure TokenHub where
  network : MiningNetwork
  safa : Option SafaVaults
  won : List StateKey
  off : Option String

namespace TokenHub

/-- `turn_off`. -/
def turnOff (hub : TokenHub) (reason : String) : TokenHub := { hub with off := some reason }

/-- One state of `first`: a fresh one is remembered, in place of the oldest when there are 256. -/
def remember (won : List StateKey) (key : StateKey) : List StateKey :=
  if key ∈ won then won
  else (if won.length ≥ recentStates then won.tail else won) ++ [key]

/-- `first`: whether this win holds a token state not won before. -/
def first (hub : TokenHub) (win : TokenWin) : TokenHub × Bool :=
  if hub.off.isSome then (hub, false)
  else ({ hub with won := win.states.foldl remember hub.won },
    (win.states.foldl (fun s key => (remember s.1 key, s.2 || decide (key ∉ s.1)))
      (hub.won, false)).2)

/-- The state of a row, if it is a live row of the category. -/
def liveState (category : Hash) (row : Row) : Option Hash :=
  let live := row.status = .proven ∨ row.status = .broadcast
  if live ∧ row.category = Text.hexEncode category.bytes then
    (Text.hexDecode row.state).bind (ByteVec.ofBytes? 32)
  else none

/-- `won_in_journal`: the states of a category's live rows. -/
def wonInJournal (rows : List Row) (category : Hash) : List StateKey :=
  ((rows.filterMap (liveState category)).map fun state => (category, state)).foldl remember []

/-- A hub as it opens: tSAFA's with the live rows of its journal, the test token's with none. -/
def reopen (network : MiningNetwork) (safa : Option SafaVaults) (rows : List Row) : TokenHub :=
  ⟨network, safa, match safa with
    | none => []
    | some safa => wonInJournal rows safa.category, none⟩

/-! ## Recording a win -/

variable [Hasher]

/-- `claim_payouts`: each won entry with the payout locking bytecode its claim would pay. -/
def claimPayouts (network : MiningNetwork) (win : TokenWin) : List (UInt16 × Bytes) :=
  let payouts : Option (Bytes × Bytes) := match win.declared with
    | some plan => plan.tokenPayout.map fun miner => (miner, miner)
    | none => do
      let scripts ← (Payout.scripts network win.miner win.operator).toOption
      let terms ← (Payout.leafTerms scripts win.payout).toOption
      return (terms.payout, terms.plainPayout)
  match payouts with
  | none => []
  | some (split, plain) => win.entries.filterMap fun entry =>
      (win.aux.entries[entry.toNat]?).map fun item =>
        (entry, if item.token.split then split else plain)

/-- `split_scripts`: the split's donation and fee scripts among the scripts the win's job paid. -/
def splitScripts (network : MiningNetwork) (win : TokenWin) (split : Split) :
    Option Bytes × Option Bytes :=
  let own := match win.declared with
    | some plan => plan.scripts
    | none => (Payout.scripts network win.miner win.operator).toOption.getD []
  let scripts := own ++ (Payout.scripts network win.miner none).toOption.getD []
  let find := fun (slot : Slot) =>
    if slot.isEmpty then none else scripts.find? fun script => doubleSha256 script = slot.scriptHash
  (find split.donation, find split.fee)

/-- The proof of one entry, checked from its bytes as a covenant checks it. -/
def checkedProof (win : TokenWin) (entry : UInt16) (item : AuxEntry) (payout : Bytes) :
    Except ProofError Bytes := do
  let proof ← AuxProof.assemble win.aux entry win.coinbase win.merklePath win.header
  let bytes ← proof.toBytes
  let _ ← verify bytes ⟨item.token.category, item.leaf.lockHash, item.leaf.stateHash, payout,
    item.leaf.targetBits, item.leaf.ext, item.token.maxAuxHeight⟩
  return bytes

/-- The row of a proven entry. -/
def rowOf (hub : TokenHub) (win : TokenWin) (item : AuxEntry) (payout bytes : Bytes)
    (foundAt delay : ℕ) : Row :=
  let safa := hub.safa.filter fun safa => safa.category = item.token.category
  let scripts := splitScripts hub.network win item.split
  let vault := safa.bind fun safa =>
    safa.mined.find? fun vault => vault.stateHash = item.leaf.stateHash
  { category := Text.hexEncode item.token.category.bytes
    state := Text.hexEncode item.leaf.stateHash.bytes
    status := .proven
    height := some win.height.toNat
    broadcastAfter := some (foundAt + delay)
    split := if item.split.isNone then none else some (Text.hexEncode item.split.preimage)
    proof := some (Text.hexEncode bytes)
    commitment := vault.map fun vault => Text.hexEncode vault.commitment.bytes
    payoutScript := safa.map fun _ => Text.hexEncode payout
    donationScript := safa.bind fun _ => scripts.1.map Text.hexEncode
    feeScript := safa.bind fun _ => scripts.2.map Text.hexEncode
    attempts := none
    nextAttempt := none
    txid := none
    vaultOutpoint := none
    claimedAt := none
    feeSats := none
    error := none }

/-- The rows of a win, each with its state; `delay` draws an entry's broadcast delay. -/
def provenRows (hub : TokenHub) (win : TokenWin) (foundAt : ℕ) (delay : UInt16 → ℕ) :
    List (StateKey × Row) :=
  (claimPayouts hub.network win).filterMap fun p => do
    let item ← win.aux.entries[p.1.toNat]?
    let bytes ← (checkedProof win p.1 item p.2).toOption
    return ((item.token.category, item.leaf.stateHash),
      hub.rowOf win item p.2 bytes foundAt (delay p.1))

/-- Whether every entry of a win passed its own check. -/
def allProven (hub : TokenHub) (win : TokenWin) : Bool :=
  (claimPayouts hub.network win).all fun p =>
    match win.aux.entries[p.1.toNat]? with
    | none => true
    | some item => (checkedProof win p.1 item p.2).toOption.isSome

omit [Hasher] in
/-- The journal keeps its newest 256 rows. -/
def trimmed (rows : List Row) : List Row := rows.drop (rows.length - keptProofs)

/-- `record`: each won entry's proof is checked and saved, one row a claim; `saved` is what the
disk answers.  Returns the hub, the journal and the states journaled. -/
def record (hub : TokenHub) (rows : List Row) (win : TokenWin) (foundAt : ℕ) (delay : UInt16 → ℕ)
    (saved : Except String Unit) : TokenHub × List Row × List StateKey :=
  let kept := hub.provenRows win foundAt delay
  let hub := if hub.allProven win then hub else hub.turnOff "a token proof failed its own check"
  if kept.isEmpty then (hub, rows, [])
  else match saved with
    | .error error => (hub.turnOff ("token proofs cannot be saved: " ++ error), rows, [])
    | .ok () => (hub, trimmed (rows ++ kept.map Prod.snd), kept.map Prod.fst)

end TokenHub

/-! ## Runs -/

/-- A hub at work: its journal, the wins on their way to the claim worker, and for the record the
states journaled and those forgotten. -/
structure Work where
  hub : TokenHub
  rows : List Row
  queue : List TokenWin
  journaled : List StateKey
  forgotten : List StateKey

/-- What happens to it. -/
inductive Event where
  /-- A device's win; a full queue drops it. -/
  | win (win : TokenWin) (queued : Bool)
  /-- The claim worker takes the next win. -/
  | record (foundAt : ℕ) (delay : UInt16 → ℕ) (saved : Except String Unit)
  /-- The claimer, or anyone, changes the journal. -/
  | edit (rows : List Row)
  /-- The server starts again; wins on their way are lost. -/
  | restart (network : MiningNetwork) (safa : Option SafaVaults)

namespace Work

/-- The hub changes; what it no longer remembers is forgotten. -/
def setHub (work : Work) (hub : TokenHub) : Work :=
  { work with
    hub := hub
    forgotten := work.forgotten ++ (work.hub.won.filter fun key => key ∉ hub.won).dedup }

variable [Hasher]

/-- One event. -/
def step (work : Work) : Event → Work
  | .win win queued =>
    let (hub, fresh) := work.hub.first win
    let work := work.setHub hub
    if fresh ∧ queued then { work with queue := work.queue ++ [win] } else work
  | .record foundAt delay saved =>
    match work.queue with
    | [] => work
    | win :: queue =>
      let (hub, rows, journaled) := work.hub.record work.rows win foundAt delay saved
      { work.setHub hub with
        rows := rows
        queue := queue
        journaled := work.journaled ++ journaled }
  | .edit rows => { work with rows := rows }
  | .restart network safa =>
    { work.setHub (TokenHub.reopen network safa work.rows) with queue := [] }

/-- A hub that opens on a journal. -/
def start (network : MiningNetwork) (safa : Option SafaVaults) (rows : List Row) : Work :=
  ⟨TokenHub.reopen network safa rows, rows, [], [], []⟩

/-- The work after some events. -/
def run (work : Work) (events : List Event) : Work := events.foldl step work

omit [Hasher] in
/-- An event is plain in a state of the work unless it is a win that holds both remembered states
and others. -/
def Plain (work : Work) : Event → Prop
  | .win win _ => (∀ key ∈ win.states, key ∈ work.hub.won) ∨ ∀ key ∈ win.states, key ∉ work.hub.won
  | _ => True

omit [Hasher] in
/-- The hub's own sets have one entry, so that its wins are plain. -/
lemma plain_of_length_le_one {work : Work} {win : TokenWin} {queued : Bool}
    (h : win.states.length ≤ 1) : work.Plain (.win win queued) := by
  show (∀ key ∈ win.states, key ∈ work.hub.won) ∨ ∀ key ∈ win.states, key ∉ work.hub.won
  rcases hstates : win.states with _ | ⟨key, _ | ⟨key', keys⟩⟩
  · exact .inl (by simp)
  · by_cases hkey : key ∈ work.hub.won
    · exact .inl (by simpa using hkey)
    · exact .inr (by simpa using hkey)
  · rw [hstates] at h
    simp at h

/-- Every event of a run is plain when it comes. -/
def PlainRun (work : Work) : List Event → Prop
  | [] => True
  | event :: events => work.Plain event ∧ PlainRun (work.step event) events

/-! ## What is remembered -/

omit [Hasher] in
/-- Fresh states, each once and not too many, are all remembered. -/
lemma foldl_remember {won keys : List StateKey} (hfresh : ∀ key ∈ keys, key ∉ won)
    (hnodup : keys.Nodup) (hlength : keys.length ≤ recentStates) :
    ∃ kept, kept <:+ won ∧ keys.foldl TokenHub.remember won = kept ++ keys := by
  induction keys using List.reverseRecOn with
  | nil => exact ⟨won, List.suffix_refl won, by simp⟩
  | append_singleton keys key ih =>
    rw [List.nodup_append] at hnodup
    rw [List.length_append, List.length_singleton] at hlength
    obtain ⟨kept, hkept, hfold⟩ := ih (fun k hk => hfresh k (List.mem_append_left _ hk)) hnodup.1
      (by omega)
    have hnew : key ∉ kept ++ keys := by
      rw [List.mem_append]
      rintro (hmem | hmem)
      · exact hfresh key (by simp) (hkept.subset hmem)
      · exact hnodup.2.2 key hmem key (by simp) rfl
    rw [List.foldl_append, List.foldl_cons, List.foldl_nil, hfold, TokenHub.remember, if_neg hnew]
    split_ifs with hfull
    · -- the oldest is one of the states kept so far
      rw [List.length_append] at hfull
      have hne : kept ≠ [] := by
        rintro rfl
        rw [List.length_nil] at hfull
        omega
      refine ⟨kept.tail, (List.tail_suffix kept).trans hkept, ?_⟩
      rw [List.tail_append_of_ne_nil hne, List.append_assoc]
    · exact ⟨kept, hkept, List.append_assoc _ _ _⟩

omit [Hasher] in
lemma foldl_remember_of_mem {won keys : List StateKey} (h : ∀ key ∈ keys, key ∈ won) :
    keys.foldl TokenHub.remember won = won ∧
      (keys.foldl (fun s key => (TokenHub.remember s.1 key, s.2 || decide (key ∉ s.1)))
        (won, false)).2 = false := by
  have hpair : keys.foldl (fun s key => (TokenHub.remember s.1 key, s.2 || decide (key ∉ s.1)))
      (won, false) = (won, false) ∧ keys.foldl TokenHub.remember won = won := by
    induction keys with
    | nil => exact ⟨rfl, rfl⟩
    | cons key keys ih =>
      have hkey : TokenHub.remember won key = won := if_pos (h key (by simp))
      have hold : decide (key ∉ won) = false := by simp [h key (by simp)]
      obtain ⟨hpair, hfold⟩ := ih fun k hk => h k (List.mem_cons_of_mem _ hk)
      rw [List.foldl_cons, List.foldl_cons, hkey]
      refine ⟨?_, hfold⟩
      simp only [hold, Bool.or_false]
      exact hpair
  exact ⟨hpair.2, by rw [hpair.1]⟩

omit [Hasher] in
/-- A plain win is known already, or all of it is new and remembered. -/
lemma first_plain {hub : TokenHub} {win : TokenWin}
    (h : (∀ key ∈ win.states, key ∈ hub.won) ∨ ∀ key ∈ win.states, key ∉ hub.won) :
    (hub.first win).2 = false ∨
      ((∀ key ∈ win.states, key ∉ hub.won) ∧ ∀ key ∈ win.states, key ∈ (hub.first win).1.won) := by
  unfold TokenHub.first
  split_ifs with hoff
  · exact .inl rfl
  · rcases h with hknown | hfresh
    · exact .inl (foldl_remember_of_mem hknown).2
    · refine .inr ⟨hfresh, fun key hkey => ?_⟩
      obtain ⟨kept, -, hfold⟩ := foldl_remember hfresh win.states_nodup
        (win.length_states.trans (by decide))
      simp only [hfold]
      exact List.mem_append_right _ hkey

/-! ## Counting -/

/-- The rows journaled for a state and those still to come are paid for: by each time the state was
forgotten, and by the hub remembering it now.  A state the hub opened with counts as one row. -/
def Paid (opened : List StateKey) (work : Work) (key : StateKey) : Prop :=
  (if key ∈ opened then 1 else 0) + work.journaled.count key +
      (work.queue.flatMap TokenWin.states).count key ≤
    work.forgotten.count key + if key ∈ work.hub.won then 1 else 0

omit [Hasher] in
lemma forget_count_le (work : Work) (hub : TokenHub) (key : StateKey) :
    work.forgotten.count key ≤ (work.setHub hub).forgotten.count key := by
  rw [setHub, List.count_append]
  exact Nat.le_add_right _ _

omit [Hasher] in
/-- Forgetting pays. -/
lemma forget_le (work : Work) (hub : TokenHub) (key : StateKey) :
    (work.forgotten.count key + if key ∈ work.hub.won then 1 else 0) ≤
      (work.setHub hub).forgotten.count key + if key ∈ hub.won then 1 else 0 := by
  rw [setHub, List.count_append]
  by_cases hwon : key ∈ work.hub.won
  · by_cases hkeeps : key ∈ hub.won
    · simp only [if_pos hwon, if_pos hkeeps]
      omega
    · have hmem : key ∈ (work.hub.won.filter fun key => key ∉ hub.won).dedup :=
        List.mem_dedup.mpr (List.mem_filter.mpr ⟨hwon, decide_eq_true hkeeps⟩)
      have hcount := List.count_pos_iff.mpr hmem
      simp only [if_pos hwon, if_neg hkeeps]
      omega
  · simp only [if_neg hwon]
    omega

/-- The states a win journals are among its states, each once. -/
lemma provenRows_sublist (hub : TokenHub) (win : TokenWin) (foundAt : ℕ) (delay : UInt16 → ℕ) :
    ((hub.provenRows win foundAt delay).map Prod.fst).Sublist win.states := by
  have hentries : ∀ (entries : List UInt16) (split plain : Bytes),
      (((entries.filterMap fun entry => (win.aux.entries[entry.toNat]?).map fun item =>
          (entry, if item.token.split then split else plain)).filterMap fun p => (do
        let item ← win.aux.entries[p.1.toNat]?
        let bytes ← (TokenHub.checkedProof win p.1 item p.2).toOption
        return (((item.token.category, item.leaf.stateHash) : StateKey),
          hub.rowOf win item p.2 bytes foundAt (delay p.1)))).map Prod.fst).Sublist
        (entries.filterMap fun entry =>
          (win.aux.entries[entry.toNat]?).map fun item =>
            (item.token.category, item.leaf.stateHash)) := by
    intro entries split plain
    induction entries with
    | nil => exact List.Sublist.refl []
    | cons entry entries ih =>
      cases hitem : win.aux.entries[entry.toNat]? with
      | none => simpa [List.filterMap_cons, hitem] using ih
      | some item =>
        simp only [List.filterMap_cons, hitem, Option.map_some, Option.bind_eq_bind,
          Option.bind_some]
        cases (TokenHub.checkedProof win entry item
            (if item.token.split then split else plain)).toOption with
        | none => exact List.Sublist.cons _ ih
        | some bytes => exact List.Sublist.cons_cons _ ih
  unfold TokenHub.provenRows TokenHub.claimPayouts
  dsimp only
  split
  · exact List.nil_sublist _
  · exact hentries _ _ _

/-- Recording a win leaves what is remembered, and journals only states of the win. -/
lemma record_spec (hub : TokenHub) (rows : List Row) (win : TokenWin) (foundAt : ℕ)
    (delay : UInt16 → ℕ) (saved : Except String Unit) :
    (hub.record rows win foundAt delay saved).1.won = hub.won ∧
      (hub.record rows win foundAt delay saved).2.2.Sublist win.states := by
  have hwon : (if hub.allProven win then hub
      else hub.turnOff "a token proof failed its own check").won = hub.won := by
    split_ifs <;> rfl
  unfold TokenHub.record
  by_cases hempty : (hub.provenRows win foundAt delay).isEmpty
  · simp only [if_pos hempty]
    exact ⟨hwon, List.nil_sublist _⟩
  · simp only [if_neg hempty]
    cases saved with
    | error error => exact ⟨hwon, List.nil_sublist _⟩
    | ok _ => exact ⟨hwon, provenRows_sublist hub win foundAt delay⟩

/-- One event: what is journaled stays paid for. -/
lemma Paid.step {opened : List StateKey} {work : Work} {key : StateKey}
    (h : work.Paid opened key) {event : Event} (hplain : work.Plain event) :
    (work.step event).Paid opened key := by
  unfold Paid at h ⊢
  cases event with
  | win win queued =>
    have hle := forget_le work (work.hub.first win).1 key
    unfold Work.step
    by_cases hqueued : (work.hub.first win).2 ∧ queued
    · -- a win that is queued is all new, and remembered from now on
      simp only [if_pos hqueued]
      obtain hnot | ⟨hfresh, hkeeps⟩ := first_plain hplain
      · rw [hnot] at hqueued
        exact absurd hqueued.1 (by simp)
      · show _ + work.journaled.count key + List.count key
          ((work.queue ++ [win]).flatMap TokenWin.states) ≤ _
        rw [List.flatMap_append, List.count_append, List.flatMap_singleton]
        by_cases hkey : key ∈ win.states
        · rw [if_neg (hfresh key hkey)] at h
          have hone := List.count_eq_one_of_mem win.states_nodup hkey
          have hmore := forget_count_le work (work.hub.first win).1 key
          show _ ≤ (work.setHub (work.hub.first win).1).forgotten.count key +
            if key ∈ (work.hub.first win).1.won then 1 else 0
          rw [if_pos (hkeeps key hkey)]
          omega
        · have hzero := List.count_eq_zero_of_not_mem hkey
          rw [hzero, Nat.add_zero]
          exact h.trans hle
    · simp only [if_neg hqueued]
      exact h.trans hle
  | record foundAt delay saved =>
    cases hqueue : work.queue with
    | nil =>
      unfold Work.step
      simp only [hqueue]
      simpa only [hqueue] using h
    | cons win queue =>
      obtain ⟨hwon, hsub⟩ := record_spec work.hub work.rows win foundAt delay saved
      have hcount := hsub.count_le key
      have hle := forget_le work (work.hub.record work.rows win foundAt delay saved).1 key
      rw [hqueue, List.flatMap_cons, List.count_append] at h
      unfold Work.step
      simp only [hqueue]
      show _ + List.count key
        (work.journaled ++ (work.hub.record work.rows win foundAt delay saved).2.2) + _ ≤ _
      rw [List.count_append]
      refine le_trans ?_ (h.trans hle)
      omega
  | edit rows => exact h
  -- what is queued is lost, and what was won is read from the rows
  | restart network safa =>
    have hle := forget_le work (TokenHub.reopen network safa work.rows) key
    show _ + work.journaled.count key + List.count key (List.flatMap TokenWin.states []) ≤ _
    rw [List.flatMap_nil, List.count_nil]
    exact (by omega : _ ≤ _).trans hle

/-- A whole run. -/
lemma Paid.run {opened : List StateKey} {key : StateKey} {events : List Event} {work : Work}
    (h : work.Paid opened key) (hplain : work.PlainRun events) :
    (work.run events).Paid opened key := by
  induction events generalizing work with
  | nil => exact h
  | cons event events ih => exact ih (h.step hplain.1) hplain.2

/-! ## Forgetting -/

omit [Hasher] in
/-- With room for all of them nothing is forgotten. -/
lemma mem_foldl_remember {key : StateKey} {keys won : List StateKey}
    (hkey : key ∈ won ∨ key ∈ keys) (hroom : won.length + keys.length ≤ recentStates) :
    key ∈ keys.foldl TokenHub.remember won := by
  induction keys generalizing won with
  | nil => exact hkey.resolve_right List.not_mem_nil
  | cons k keys ih =>
    rw [List.length_cons] at hroom
    have hnext : TokenHub.remember won k = won ∨ TokenHub.remember won k = won ++ [k] := by
      unfold TokenHub.remember
      split_ifs with hmem hfull
      · exact .inl rfl
      · omega
      · exact .inr rfl
    have hmem : ∀ k', k' ∈ won ∨ k' = k → k' ∈ TokenHub.remember won k := by
      rintro k' (hk' | rfl)
      · rcases hnext with h | h <;> simp [h, hk']
      · by_cases hold : k' ∈ won
        · rwa [TokenHub.remember, if_pos hold]
        · rw [TokenHub.remember, if_neg hold]
          exact List.mem_append_right _ List.mem_cons_self
    rw [List.foldl_cons]
    refine ih ?_ ?_
    · rcases hkey with hold | hnew
      · exact .inl (hmem key (.inl hold))
      · rcases List.mem_cons.mp hnew with heq | hlater
        · exact .inl (hmem key (.inr heq))
        · exact .inr hlater
    · rcases hnext with h | h
      · rw [h]
        omega
      · rw [h, List.length_append, List.length_singleton]
        omega

omit [Hasher] in
/-- When an event can make the hub forget a state: a win with more states than there is room for,
or a start on a journal of another token, or without a live row for the state. -/
def Forgets (work : Work) (key : StateKey) : Event → Prop
  | .win win _ => recentStates < work.hub.won.length + win.states.length
  | .restart _ safa => work.rows.length ≤ recentStates → ∀ s, safa = some s → key.1 = s.category →
      ∀ row ∈ work.rows, TokenHub.liveState s.category row ≠ some key.2
  | _ => False

/-- Nothing else makes it forget. -/
lemma forgets_of_forgotten {work : Work} {key : StateKey} {event : Event}
    (hwon : key ∈ work.hub.won) (hnot : key ∉ (work.step event).hub.won) :
    work.Forgets key event := by
  cases event with
  | win win queued =>
    by_contra hroom
    refine hnot ?_
    have hhub : ((work.step (.win win queued)).hub) = (work.hub.first win).1 := by
      unfold Work.step
      by_cases hqueued : (work.hub.first win).2 ∧ queued
      · simp only [if_pos hqueued]
        rfl
      · simp only [if_neg hqueued]
        rfl
    rw [hhub, TokenHub.first]
    split_ifs with hoff
    · exact hwon
    · exact mem_foldl_remember (.inl hwon) (Nat.le_of_not_lt hroom)
  | record foundAt delay saved =>
    refine absurd ?_ hnot
    cases hqueue : work.queue with
    | nil =>
      unfold Work.step
      simpa only [hqueue] using hwon
    | cons win queue =>
      have hrecord := (record_spec work.hub work.rows win foundAt delay saved).1
      unfold Work.step
      simp only [hqueue]
      show key ∈ (work.hub.record work.rows win foundAt delay saved).1.won
      rwa [hrecord]
  | edit rows => exact absurd hwon hnot
  | restart network safa =>
    rintro hrows s rfl hcategory row hrow hlive
    refine hnot (mem_foldl_remember (.inr ?_) ?_)
    · refine List.mem_map.mpr ⟨key.2, List.mem_filterMap.mpr ⟨row, hrow, hlive⟩, ?_⟩
      rw [← hcategory]
    · rw [List.length_nil, Nat.zero_add, List.length_map]
      exact (List.length_filterMap_le _ _).trans hrows

/-- Each state is won once for each time the hub learns it.  In a run without a win that mixes
remembered states and others, the rows journaled for a state are at most one, and one more for each
time the hub forgot the state; a live row the hub opened with is the one.  The hub forgets a state
only when newer states need its room, or when it opens on a journal without a live row for it. -/
theorem state_won_once {network : MiningNetwork} {safa : Option SafaVaults} {rows : List Row}
    {events : List Event} (hplain : (start network safa rows).PlainRun events) (key : StateKey) :
    (if key ∈ (start network safa rows).hub.won then 1 else 0) +
        ((start network safa rows).run events).journaled.count key ≤
      1 + ((start network safa rows).run events).forgotten.count key ∧
    ∀ earlier event later, events = earlier ++ event :: later →
      key ∈ ((start network safa rows).run earlier).hub.won →
      key ∉ (((start network safa rows).run earlier).step event).hub.won →
      ((start network safa rows).run earlier).Forgets key event := by
  constructor
  · have hstart : (start network safa rows).Paid (start network safa rows).hub.won key := by
      show _ + List.count key [] + List.count key (List.flatMap TokenWin.states []) ≤
        List.count key [] + _
      rw [List.flatMap_nil, List.count_nil]
      omega
    have hrun := hstart.run hplain
    unfold Paid at hrun
    split_ifs at hrun ⊢ <;> omega
  · rintro earlier event later - hwon hnot
    exact forgets_of_forgotten hwon hnot

section Sample

omit [Hasher]

/-- A plan that pays the script `51`. -/
def samplePayer : Jd.JdPlan :=
  { serial := 1
    upstreamPrefix := []
    pad := []
    compact := false
    scripts := [[0x51]]
    rates := ⟨0, 0, none, none⟩
    poolTarget := ByteVec.zero 32
    p2pool := none
    fullTemplate := true }

/-- A share that wins the second entry of the sample job. -/
def sampleWin : TokenWin :=
  { aux := @AuxJob.build Hasher.fips (sampleSet.addThreads []) (LeafTerms.plain [0x51])
    entries := [1]
    coinbase := sampleHead ++ sampleCommitment.output.bytes ++ [0, 0, 0, 0]
    merklePath := [ByteVec.zero 32]
    header := sampleHeader
    height := 17
    payout := default
    miner := []
    operator := none
    declared := some samplePayer
    entries_nodup := by decide
    categories_nodup := by decide +kernel
    aux_length := by decide +kernel }

/-- The vaults of a hub for that entry's token. -/
def sampleSafa : SafaVaults := ⟨⟨List.replicate 32 7, length_sevens⟩, []⟩

/-- The win comes twice, and the server starts again in between. -/
def sampleEvents (rows : List Row) : List Event :=
  [.win sampleWin true, .record 0 (fun _ => 0) (.ok ()), .edit rows, .restart .chipnet sampleSafa,
    .win sampleWin true, .record 1 (fun _ => 0) (.ok ())]

/-- The journal after the first proof. -/
def sampleRows : List Row :=
  (@run Hasher.fips (start .chipnet sampleSafa []) (sampleEvents [] |>.take 2)).rows

/-- Neither run forgets the state; the one whose first row is stale journals it twice. -/
lemma sample_runs :
    let _ : Hasher := Hasher.fips
    let stale := sampleRows.map fun row => row.finish .stale "another claim moved the thread first"
    (∀ key ∈ sampleWin.states,
      ((start .chipnet sampleSafa []).run (sampleEvents sampleRows)).forgotten.count key = 0) ∧
    ((start .chipnet sampleSafa []).run (sampleEvents stale)).journaled.count
      (⟨List.replicate 32 7, rfl⟩, ByteVec.zero 32) = 2 := by
  rw [sampleRows, Hasher.fips_eq]
  decide +kernel

/-- With the first row still proven, the second win journals nothing. -/
theorem state_won_once_sample :
    let _ : Hasher := Hasher.fips
    let work := (start .chipnet sampleSafa []).run (sampleEvents sampleRows)
    ∀ key ∈ sampleWin.states, work.journaled.count key ≤ 1 := by
  have hruns := sample_runs.1
  intro _ work key hkey
  have hplain : (start .chipnet sampleSafa []).PlainRun (sampleEvents sampleRows) := by
    have hone : sampleWin.states.length ≤ 1 := by decide +kernel
    exact ⟨plain_of_length_le_one hone, trivial, trivial, trivial, plain_of_length_le_one hone,
      trivial, trivial⟩
  have hle := (state_won_once hplain key).1
  rw [hruns key hkey] at hle
  exact (Nat.le_add_left _ _).trans hle

/-- With the first row stale, the restarted hub takes the state for new, and journals it again. -/
theorem state_won_twice :
    let _ : Hasher := Hasher.fips
    let stale := sampleRows.map fun row => row.finish .stale "another claim moved the thread first"
    ∃ key, ((start .chipnet sampleSafa []).run (sampleEvents stale)).journaled.count key = 2 :=
  ⟨(⟨List.replicate 32 7, rfl⟩, ByteVec.zero 32), sample_runs.2⟩

end Sample

end Work

end Pickaxe.Hub
