/-
# Token sets and jobs

A token set is what the server merge-mines: the entries that fit, their layout and the
easiest target.  The layout search runs once per set; each job then builds its own leaves,
because every leaf binds that job's payout.

`TokenSet.Valid` is what a set keeps: its layout holds its categories at a height every
token allows.  It holds of every set the constructors give (`valid_new`,
`valid_withThreads`), also when the whole set does not fit and entries are left out.
-/
import Pickaxe.Lib.Result
import Pickaxe.Merge.Leaf
import Pickaxe.Merge.Registry
import Pickaxe.Merge.Split
import Pickaxe.Target
import Mathlib.Data.List.Sort

namespace Pickaxe.Merge

open Lib

/-! ## States -/

/-- A token's live state: the hashes its next leaf binds and its target. -/
structure TokenState where
  /-- `HASH256` of the baton's locking bytecode. -/
  lockHash : Hash
  /-- The token-defined state hash. -/
  stateHash : Hash
  targetBits : UInt32
  /-- `target_bits` expanded, little-endian, as share hashes compare. -/
  target : Hash
  /-- The target is the one the bits stand for. -/
  expand : expandCompact targetBits = some target
deriving DecidableEq

/-- `TokenState::new`. -/
def TokenState.new (lockHash stateHash : Hash) (targetBits : UInt32) : Except String TokenState :=
  match h : expandCompact targetBits with
  | none => .error "invalid token target"
  | some target => .ok ⟨lockHash, stateHash, targetBits, target, h⟩

/-- One token to merge-mine, in its current state. -/
structure SetEntry where
  token : MergeToken
  state : TokenState
deriving DecidableEq

/-- The minable threads of one token at one height. -/
structure ThreadChoice where
  /-- The coinbase height the states are for. -/
  height : UInt32
  /-- How many threads the token has. -/
  count : UInt32
  /-- The minable threads and their states, in any order. -/
  states : List (UInt32 × TokenState)
deriving DecidableEq

/-- `Iterator::min_by_key`: the first item of the least key. -/
def minByKey {α : Type} (key : α → ℕ) : List α → Option α
  | [] => none
  | a :: as => some (as.foldl (fun best b => if key b < key best then b else best) a)

/-- The easiest (largest) of a list of targets, the first one on a tie. -/
def easiestOf : List Hash → Option Hash
  | [] => none
  | t :: ts => some (ts.foldl (fun best target => if easier target best then target else best) t)

section Threads

variable [Hasher]

/-- `safa_auxpow::thread_start`: the first thread a leaf paying `payoutHash` at coinbase
height `height` tries. -/
def threadStart (payoutHash : Hash) (height threads : UInt32) : UInt32 :=
  u32OfLe ((doubleSha256 (payoutHash.bytes ++ u32Le height)).bytes.take 4) % max threads 1

/-- `ThreadChoice::pick`: the thread a leaf paying `payoutHash` mines, and its state. -/
def ThreadChoice.pick (c : ThreadChoice) (payoutHash : Hash) : Option (UInt32 × TokenState) :=
  if c.count = 0 then none
  else
    let start := threadStart payoutHash c.height c.count
    minByKey (fun s => (s.1.toNat + c.count.toNat - start.toNat) % c.count.toNat)
      (c.states.filter fun s => s.1 < c.count)

end Threads

/-! ## Sets -/

/-- What the server merge-mines: the entries that fit, their layout, the easiest target and
a serial that grows with every change. -/
structure TokenSet where
  entries : List SetEntry
  layout : Layout
  easiest : Hash
  serial : UInt64
  dropped : List SetEntry
  /-- Tokens with threads, by category. -/
  threads : List (Hash × ThreadChoice)
deriving DecidableEq

namespace TokenSet

/-- The entries that `keep` marks, in order. -/
def kept (entries : List SetEntry) (keep : List Bool) : List SetEntry :=
  ((entries.zip keep).filter fun p => p.2).map Prod.fst

/-- The entries that `keep` does not mark, in order. -/
def leftOut (entries : List SetEntry) (keep : List Bool) : List SetEntry :=
  ((entries.zip keep).filter fun p => !p.2).map Prod.fst

/-- The order in which entries join: the highest priority first, the earlier one on a
tie. -/
def joinOrder (entries : List SetEntry) : List ℕ :=
  let priority := fun index => ((entries[index]?).map fun e => e.token.priority.toNat).getD 0
  (List.range entries.length).insertionSort fun i j =>
    priority j < priority i ∨ (priority i = priority j ∧ i ≤ j)

variable [Hasher]

/-- The checks of `TokenSet::new` on each entry, after those already `seen`. -/
def checkEntries (network : MiningNetwork) : List SetEntry → List SetEntry → Except String Unit
  | _, [] => .ok ()
  | seen, entry :: rest => do
    entry.token.verify
    if entry.token.network ≠ network then
      .error s!"{entry.token.name} is a {entry.token.network.asStr} token, not a {network.asStr} one"
    else if seen.any fun other => other.token.category == entry.token.category then
      .error s!"{entry.token.name} is listed twice: one leaf per token per coinbase"
    else checkEntries network (seen ++ [entry]) rest

/-- The layout of a list of entries, at most as tall as the strictest token allows. -/
def search (entries : List SetEntry) : Option Layout :=
  let categories := entries.map fun e => e.token.category
  let maxAuxHeight := ((entries.map fun e => e.token.maxAuxHeight).min?).getD maxHeight
  (Layout.search categories maxAuxHeight).toOption

/-- The state of the loop that lets entries join one by one. -/
structure Trial where
  keep : List Bool
  layout : Option Layout

/-- One turn of that loop: the entry joins if a layout holds it beside those kept so far. -/
def join (entries : List SetEntry) (t : Trial) (index : ℕ) : Trial :=
  let keep := t.keep.set index true
  match search (kept entries keep) with
  | some found => ⟨keep, some found⟩
  | none => ⟨keep.set index false, t.layout⟩

/-- The entries that stay, their layout and those left out. -/
def fit (entries : List SetEntry) :
    Except String (List SetEntry × Layout × List SetEntry) :=
  match search entries with
  | some layout => .ok (entries, layout, [])
  | none =>
    let trial := (joinOrder entries).foldl (join entries)
      ⟨List.replicate entries.length false, none⟩
    match trial.layout with
    | none => .error "no token fits a layout"
    | some layout => .ok (kept entries trial.keep, layout, leftOut entries trial.keep)

/-- `TokenSet::new`. -/
def new (network : MiningNetwork) (entries : List SetEntry) (serial : UInt64) :
    Except String TokenSet :=
  if entries.isEmpty then .error "no token to merge-mine"
  else if entries.length > maxTokens then .error s!"at most {maxTokens} tokens per coinbase"
  else do
    checkEntries network [] entries
    let (entries, layout, dropped) ← fit entries
    match easiestOf (entries.map fun e => e.state.target) with
    | none => .error "no token to merge-mine"
    | some easiest => .ok ⟨entries, layout, easiest, serial, dropped, []⟩

omit [Hasher] in
/-- `TokenSet::with_threads`: the token `category` mines one of `choice`'s threads per
job. -/
def withThreads (set : TokenSet) (category : Hash) (choice : ThreadChoice) : TokenSet :=
  { set with
    easiest := choice.states.foldl
      (fun best s => if easier s.2.target best then s.2.target else best) set.easiest
    threads := (set.threads.filter fun known => known.1 ≠ category) ++ [(category, choice)] }

/-- `TokenSet::threads`: the thread choice of the token `category`. -/
def threadsOf (set : TokenSet) (category : Hash) : Option ThreadChoice :=
  (set.threads.find? fun known => known.1 == category).map Prod.snd

/-! ### What every set keeps -/

/-- The layout holds the categories of the entries, at a height each token allows. -/
structure Valid (set : TokenSet) : Prop where
  holds : set.layout.Holds (set.entries.map fun e => e.token.category)
  height_le : ∀ e ∈ set.entries, set.layout.height ≤ e.token.maxAuxHeight
  height_le_max : set.layout.height ≤ maxHeight
  length_le : set.entries.length ≤ maxTokens

lemma search_eq_some {entries : List SetEntry} {layout : Layout} (h : search entries = some layout) :
    layout.Holds (entries.map fun e => e.token.category) ∧
      (∀ e ∈ entries, layout.height ≤ e.token.maxAuxHeight) ∧
      layout.height ≤ maxHeight ∧ entries.length ≤ maxTokens := by
  unfold search at h
  simp only at h
  cases hsearch : Layout.search (entries.map fun e => e.token.category)
      (((entries.map fun e => e.token.maxAuxHeight).min?).getD maxHeight) with
  | error e =>
    rw [hsearch] at h
    cases h
  | ok found =>
    rw [hsearch] at h
    cases h
    obtain ⟨hholds, hheight, hmax, hlen⟩ := Layout.search_spec hsearch
    refine ⟨hholds, ?_, hmax, by rwa [List.length_map] at hlen⟩
    intro e he
    have hmem : e.token.maxAuxHeight ∈ entries.map fun e => e.token.maxAuxHeight :=
      List.mem_map_of_mem he
    obtain ⟨m, hm⟩ := Option.isSome_iff_exists.mp (List.isSome_min?_of_mem hmem)
    rw [hm, Option.getD_some] at hheight
    have hmin := (List.min?_eq_some_iff.mp hm).2 _ hmem
    rw [UInt8.le_iff_toNat_le] at *
    omega

/-- The invariant of the joining loop: the entries kept so far have the layout found last,
and no entry still to join is kept. -/
structure Trial.Inv (entries : List SetEntry) (rest : List ℕ) (t : Trial) : Prop where
  layout : ∀ l, t.layout = some l → search (kept entries t.keep) = some l
  fresh : ∀ i ∈ rest, t.keep.set i false = t.keep

lemma join_inv {entries : List SetEntry} {index : ℕ} {rest : List ℕ} {t : Trial}
    (h : t.Inv entries (index :: rest)) (hnodup : (index :: rest).Nodup) :
    (join entries t index).Inv entries rest := by
  have hfresh := h.fresh index List.mem_cons_self
  unfold join
  simp only
  split
  · rename_i found hfound
    refine ⟨fun l hl => ?_, fun i hi => ?_⟩
    · cases hl
      exact hfound
    · have hne : i ≠ index := by
        rintro rfl
        exact (List.nodup_cons.mp hnodup).1 hi
      rw [List.set_comm _ _ (Ne.symm hne), h.fresh i (List.mem_cons_of_mem _ hi)]
  · rw [List.set_set, hfresh]
    exact ⟨h.layout, fun i hi => h.fresh i (List.mem_cons_of_mem _ hi)⟩

lemma foldl_join_inv {entries : List SetEntry} {order : List ℕ} {t : Trial}
    (h : t.Inv entries order) (hnodup : order.Nodup) :
    (order.foldl (join entries) t).Inv entries [] := by
  induction order generalizing t with
  | nil => exact h
  | cons index rest ih =>
    exact ih (join_inv h hnodup) (List.nodup_cons.mp hnodup).2

omit [Hasher] in
lemma nodup_joinOrder (entries : List SetEntry) : (joinOrder entries).Nodup :=
  (List.perm_insertionSort _ _).nodup_iff.mpr List.nodup_range

/-- Whichever entries stay, the layout is the one found for them. -/
lemma fit_eq_ok {entries stay dropped : List SetEntry} {layout : Layout}
    (h : fit entries = .ok (stay, layout, dropped)) : search stay = some layout := by
  unfold fit at h
  split at h
  · rename_i found hfound
    cases h
    exact hfound
  · simp only at h
    have hinit : Trial.Inv entries (joinOrder entries)
        ⟨List.replicate entries.length false, none⟩ := by
      refine ⟨(fun l hl => by cases hl), fun i _ => ?_⟩
      apply List.ext_getElem?
      intro j
      by_cases hij : i = j
      · subst hij
        by_cases hi : i < entries.length
        · simp [hi]
        · simp [hi]
      · rw [List.getElem?_set_ne hij]
    have hinv := foldl_join_inv hinit (nodup_joinOrder entries)
    split at h
    · cases h
    · rename_i found hfound
      cases h
      exact hinv.layout _ hfound

/-- What `TokenSet::new` accepts. -/
lemma new_eq_ok {network : MiningNetwork} {entries : List SetEntry} {serial : UInt64}
    {set : TokenSet} (h : new network entries serial = .ok set) :
    search set.entries = some set.layout ∧
      easiestOf (set.entries.map fun e => e.state.target) = some set.easiest ∧
      set.threads = [] := by
  unfold new at h
  rw [Except.ite_error_eq_ok, Except.ite_error_eq_ok, Except.bind_eq_ok] at h
  obtain ⟨-, -, -, -, h⟩ := h
  obtain ⟨⟨stay, layout, dropped⟩, hfit, h⟩ := Except.bind_eq_ok.mp h
  simp only at h
  split at h
  · cases h
  · rename_i easiest heasiest
    cases h
    exact ⟨fit_eq_ok hfit, heasiest, rfl⟩

lemma valid_new {network : MiningNetwork} {entries : List SetEntry} {serial : UInt64}
    {set : TokenSet} (h : new network entries serial = .ok set) : set.Valid := by
  obtain ⟨hholds, hheight, hmax, hlen⟩ := search_eq_some (new_eq_ok h).1
  exact ⟨hholds, hheight, hmax, hlen⟩

lemma valid_withThreads {set : TokenSet} (h : set.Valid) (category : Hash)
    (choice : ThreadChoice) : (set.withThreads category choice).Valid :=
  ⟨h.holds, h.height_le, h.height_le_max, h.length_le⟩

/-- A set with any thread choices added. -/
def addThreads (set : TokenSet) (choices : List (Hash × ThreadChoice)) : TokenSet :=
  choices.foldl (fun s c => s.withThreads c.1 c.2) set

lemma valid_addThreads {set : TokenSet} (h : set.Valid) (choices : List (Hash × ThreadChoice)) :
    (set.addThreads choices).Valid := by
  induction choices generalizing set with
  | nil => exact h
  | cons c choices ih => exact ih (valid_withThreads h c.1 c.2)

end TokenSet

/-! ## Jobs -/

/-- One entry of a job: where its leaf sits, the leaf, the split its ext commits to and its
target. -/
structure AuxEntry where
  token : MergeToken
  slot : UInt32
  leaf : Leaf
  split : Split
  target : Hash
deriving DecidableEq

/-- The payouts and split a job's leaves bind. -/
structure LeafTerms where
  /-- What a split token's leaf pays, with `split` in its ext. -/
  payout : Bytes
  split : Split
  /-- What a token without split support pays, with ext 0. -/
  plainPayout : Bytes

/-- `LeafTerms::plain`: every leaf pays `payout`, with no split. -/
def LeafTerms.plain (payout : Bytes) : LeafTerms := ⟨payout, Split.none, payout⟩

/-- One job's merge-mining: entries in set order, the tree, its commitment and output 0 as
the coinbase carries it. -/
structure AuxJob where
  commitment : AuxCommitment
  entries : List AuxEntry
  tree : AuxTree
  output : ByteVec 53
  /-- The easiest entry target; `none` for the empty commitment. -/
  easiest : Option Hash
  serial : UInt64
deriving DecidableEq

namespace AuxJob

variable [Hasher]

/-- What the leaf of a token pays and the split it commits to. -/
def termsOf (terms : LeafTerms) (token : MergeToken) : Bytes × Split :=
  if token.split then (terms.payout, terms.split) else (terms.plainPayout, Split.none)

/-- The state the leaf of an entry binds: a token with threads mines the thread its payout
hash picks. -/
def stateOf (set : TokenSet) (terms : LeafTerms) (entry : SetEntry) : TokenState :=
  (((set.threadsOf entry.token.category).bind fun choice =>
    choice.pick (doubleSha256 (termsOf terms entry.token).1)).map Prod.snd).getD entry.state

/-- One entry of `AuxJob::build`. -/
def buildEntry (set : TokenSet) (terms : LeafTerms) (entry : SetEntry) (slot : UInt32) :
    AuxEntry :=
  let payout := (termsOf terms entry.token).1
  let split := (termsOf terms entry.token).2
  let state := stateOf set terms entry
  { token := entry.token
    slot := slot
    leaf := Leaf.new entry.token.category state.lockHash state.stateHash payout state.targetBits
      split.ext
    split := split
    target := state.target }

/-- `AuxJob::build`: the leaves for a job on `terms`. -/
def build (set : TokenSet) (terms : LeafTerms) : AuxJob :=
  let entries := (set.entries.zip set.layout.slots).map fun p => buildEntry set terms p.1 p.2
  let tree := AuxTree.build set.layout (entries.map fun e => e.leaf.hash)
  let commitment : AuxCommitment := ⟨tree.root, set.layout.height, set.layout.salt⟩
  { commitment := commitment
    entries := entries
    tree := tree
    output := commitment.output
    easiest := some ((easiestOf (entries.map fun e => e.target)).getD set.easiest)
    serial := set.serial }

/-- `AuxJob::empty`: the empty commitment, which jobs for other people's devices carry. -/
def empty : AuxJob :=
  { commitment := AuxCommitment.empty
    entries := []
    tree := AuxTree.build ⟨0, 0, []⟩ []
    output := AuxCommitment.empty.output
    easiest := none
    serial := 0 }

/-- `AuxJob::is_empty`. -/
def isEmpty (job : AuxJob) : Bool := job.entries.isEmpty

/-- `AuxJob::branch`: the aux branch of entry `index`, from its leaf to the root. -/
def branch (job : AuxJob) (index : ℕ) : Option (List Hash) :=
  (job.entries[index]?).map fun e => job.tree.branch e.slot

/-- `AuxJob::wins`: the entries a share whose header hashes to `hash` wins, as indices in
set order. -/
def wins (job : AuxJob) (hash : Hash) : List UInt16 :=
  (job.entries.zipIdx.filter fun p => meetsTarget hash p.1.target).filterMap fun p =>
    if p.2 < 2 ^ 16 then some (UInt16.ofNat p.2) else none

omit [Hasher] in
/-- A share wins exactly the entries whose target its hash meets (within the indices a
`u16` holds). -/
lemma mem_wins {job : AuxJob} {hash : Hash} {i : UInt16} :
    i ∈ job.wins hash ↔
      ∃ entry, job.entries[i.toNat]? = some entry ∧ meetsTarget hash entry.target = true := by
  unfold wins
  simp only [List.mem_filterMap, List.mem_filter, Prod.exists, Option.ite_none_right_eq_some,
    Option.some.injEq]
  constructor
  · rintro ⟨entry, k, ⟨hmem, hmeets⟩, hk, rfl⟩
    rw [List.mem_zipIdx_iff_getElem?] at hmem
    rw [UInt16.toNat_ofNat_of_lt' hk]
    exact ⟨entry, hmem, hmeets⟩
  · rintro ⟨entry, hget, hmeets⟩
    refine ⟨entry, i.toNat, ⟨?_, hmeets⟩, i.toNat_lt, UInt16.ofNat_toNat⟩
    rwa [List.mem_zipIdx_iff_getElem?]

end AuxJob

end Pickaxe.Merge
