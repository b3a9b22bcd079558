/-
# A journal's state

What a journal holds, what `validate_state` accepts of it, and the blocks the journal is
asked to save.  `Sound` is what the check accepts (`validateState_eq_ok`), and a block that
passed the checks of an operation passes those of an opening journal
(`checkPending_block`).
-/
import Pickaxe.Channel.Check
import Pickaxe.Journal.Block

namespace Pickaxe.Journal

open Lib

/-- What a journal's file holds. -/
structure State where
  version : UInt32
  context : List Char
  pending : List PendingBlock
  completed : List (List Char)
  accepted : UInt64
  rejected : UInt64
deriving DecidableEq

/-! ## Checking a state -/

/-- The saved blocks' digits. -/
def State.total (state : State) : ℕ := (state.pending.map fun p => p.block.length).sum

/-- `validate_limits`. -/
def validateLimits (state : State) : Except String Unit :=
  if state.pending.length > maxPending ∨ state.completed.length > maxReceipts then
    .error "block journal entry limit exceeded"
  else if state.total ≥ 2 ^ 64 then .error "block journal size overflow"
  else if state.total > maxBlockBytes * 2 then
    .error "pending blocks exceed journal storage budget"
  else .ok ()

/-- A receipt: a block's hash in lower-case digits. -/
def IsReceipt (hash : List Char) : Prop := hash.length = 64 ∧ hash.all Text.isHexChar = true

instance (hash : List Char) : Decidable (IsReceipt hash) := inferInstanceAs (Decidable (_ ∧ _))

lemma lawfulBEq_text : LawfulBEq (List Char) := inferInstance

attribute [local instance] lawfulBEq_text

/-- The receipts' part of `validate_state`: the hashes seen. -/
def checkReceipts : List (List Char) → List (List Char) → Except String (List (List Char))
  | [], seen => .ok seen
  | hash :: rest, seen =>
    if ¬ IsReceipt hash ∨ hash ∈ seen then .error "invalid block journal receipt"
    else checkReceipts rest (hash :: seen)

variable [Hasher] [Bitcoin]

/-- The blocks' part of `validate_state`. -/
def checkBlocks (network : MiningNetwork) (binding : JournalBinding) :
    List PendingBlock → ℕ → List (List Char) → Except String Unit
  | [], _, _ => .ok ()
  | p :: rest, total, seen =>
    if total + p.block.length ≥ 2 ^ 64 then .error "block journal size overflow"
    else if total + p.block.length > maxBlockBytes * 2 then
      .error "pending blocks exceed journal storage budget"
    else do
      checkPending network binding p
      if p.hash ∈ seen then .error "invalid or duplicate journal block"
      else checkBlocks network binding rest (total + p.block.length) (p.hash :: seen)

/-- `validate_state`. -/
def validateState (state : State) (network : MiningNetwork) (binding : JournalBinding) :
    Except String Unit := do
  validateLimits state
  let seen ← checkReceipts state.completed []
  checkBlocks network binding state.pending 0 seen

/-- A state `validate_state` accepts. -/
structure Sound (network : MiningNetwork) (binding : JournalBinding) (state : State) : Prop where
  pending_le : state.pending.length ≤ maxPending
  completed_le : state.completed.length ≤ maxReceipts
  total_le : state.total ≤ maxBlockBytes * 2
  receipts : ∀ hash ∈ state.completed, IsReceipt hash
  blocks : ∀ p ∈ state.pending, checkPending network binding p = .ok ()
  /-- No hash is there twice. -/
  nodup : (state.completed ++ state.pending.map PendingBlock.hash).Nodup

omit [Hasher] [Bitcoin] in
lemma validateLimits_eq_ok {state : State} : validateLimits state = .ok () ↔
    state.pending.length ≤ maxPending ∧ state.completed.length ≤ maxReceipts ∧
      state.total ≤ maxBlockBytes * 2 := by
  rw [validateLimits, Except.ite_error_eq_ok, Except.ite_error_eq_ok, Except.ite_error_eq_ok]
  have hbytes : maxBlockBytes * 2 < 2 ^ 64 := by decide
  simp only [not_or, not_lt, and_true]
  constructor
  · rintro ⟨⟨hpending, hcompleted⟩, -, htotal⟩
    exact ⟨hpending, hcompleted, htotal⟩
  · rintro ⟨hpending, hcompleted, htotal⟩
    exact ⟨⟨hpending, hcompleted⟩, by omega, htotal⟩

omit [Hasher] [Bitcoin] in
lemma checkReceipts_eq_ok {hashes seen all : List (List Char)} :
    checkReceipts hashes seen = .ok all ↔
      (∀ hash ∈ hashes, IsReceipt hash) ∧ hashes.Nodup ∧ (∀ hash ∈ hashes, hash ∉ seen) ∧
        all = hashes.reverse ++ seen := by
  induction hashes generalizing seen with
  | nil =>
    simp only [checkReceipts, Except.ok.injEq, List.reverse_nil, List.nil_append]
    constructor
    · rintro rfl
      simp
    · rintro ⟨-, -, -, rfl⟩
      rfl
  | cons hash rest ih =>
    rw [checkReceipts, Except.ite_error_eq_ok, ih]
    simp only [not_or, not_not, List.mem_cons, List.nodup_cons, List.reverse_cons,
      List.append_assoc, List.singleton_append]
    constructor
    · rintro ⟨⟨hreceipt, hseen⟩, hrest, hnodup, hnew, rfl⟩
      refine ⟨?_, ⟨fun h => (hnew hash h).1 rfl, hnodup⟩, ?_, rfl⟩
      · rintro h (rfl | h')
        · exact hreceipt
        · exact hrest h h'
      · rintro h (rfl | h')
        · exact hseen
        · exact (hnew h h').2
    · rintro ⟨hreceipts, ⟨hhash, hnodup⟩, hnew, rfl⟩
      refine ⟨⟨hreceipts hash (Or.inl rfl), hnew hash (Or.inl rfl)⟩,
        fun h h' => hreceipts h (Or.inr h'), hnodup, ?_, rfl⟩
      intro h h'
      refine ⟨?_, hnew h (Or.inr h')⟩
      rintro rfl
      exact hhash h'

lemma checkBlocks_eq_ok {network : MiningNetwork} {binding : JournalBinding}
    {pending : List PendingBlock} {total : ℕ} {seen : List (List Char)}
    (htotal : total + (pending.map fun p => p.block.length).sum ≤ maxBlockBytes * 2) :
    checkBlocks network binding pending total seen = .ok () ↔
      (∀ p ∈ pending, checkPending network binding p = .ok ()) ∧
        (pending.map PendingBlock.hash).Nodup ∧ ∀ p ∈ pending, p.hash ∉ seen := by
  have hbytes : maxBlockBytes * 2 < 2 ^ 64 := by decide
  induction pending generalizing total seen with
  | nil => simp [checkBlocks]
  | cons p rest ih =>
    rw [List.map_cons, List.sum_cons] at htotal
    rw [checkBlocks, if_neg (by omega), if_neg (by omega), Except.bind_eq_ok]
    simp only [Except.ite_error_eq_ok]
    have hrest : total + p.block.length + (rest.map fun p => p.block.length).sum ≤
        maxBlockBytes * 2 := by omega
    simp only [ih hrest]
    rw [List.forall_mem_cons, List.forall_mem_cons]
    simp only [List.map_cons, List.nodup_cons, List.mem_map, List.mem_cons, not_or]
    constructor
    · rintro ⟨u, hp, hseen, hrest, hnodup, hnew⟩
      refine ⟨⟨hp, hrest⟩, ⟨?_, hnodup⟩, hseen, fun q hq => (hnew q hq).2⟩
      rintro ⟨q, hq, heq⟩
      exact (hnew q hq).1 heq
    · rintro ⟨⟨hp, hrest⟩, ⟨hother, hnodup⟩, hseen, hnew⟩
      exact ⟨(), hp, hseen, hrest, hnodup, fun q hq => ⟨fun heq => hother ⟨q, hq, heq⟩, hnew q hq⟩⟩

/-- `validate_state` accepts exactly the sound states. -/
lemma validateState_eq_ok {network : MiningNetwork} {binding : JournalBinding} {state : State} :
    validateState state network binding = .ok () ↔ Sound network binding state := by
  unfold validateState
  rw [Except.bind_eq_ok]
  simp only [Except.bind_eq_ok]
  constructor
  · rintro ⟨u, hlimits, seen, hreceipts, hblocks⟩
    obtain ⟨hpending, hcompleted, htotal⟩ := validateLimits_eq_ok.mp hlimits
    obtain ⟨hreceipt, hnodup, -, rfl⟩ := checkReceipts_eq_ok.mp hreceipts
    obtain ⟨hblocks, hhashes, hnew⟩ :=
      (checkBlocks_eq_ok (by rw [Nat.zero_add]; exact htotal)).mp hblocks
    refine ⟨hpending, hcompleted, htotal, hreceipt, hblocks, ?_⟩
    rw [List.nodup_append']
    refine ⟨hnodup, hhashes, ?_⟩
    intro hash hcompleted hpending
    obtain ⟨p, hp, rfl⟩ := List.mem_map.mp hpending
    exact hnew p hp (by simpa using hcompleted)
  · intro h
    obtain ⟨hnodup, hhashes, hdisjoint⟩ := List.nodup_append'.mp h.nodup
    refine ⟨(), validateLimits_eq_ok.mpr ⟨h.pending_le, h.completed_le, h.total_le⟩,
      _, checkReceipts_eq_ok.mpr ⟨h.receipts, hnodup, by simp, rfl⟩, ?_⟩
    refine (checkBlocks_eq_ok (by rw [Nat.zero_add]; exact h.total_le)).mpr
      ⟨h.blocks, hhashes, ?_⟩
    intro p hp hmem
    exact hdisjoint (by simpa using hmem) (List.mem_map_of_mem hp)

/-! ## The blocks it is asked to save -/

/-- What a journal is opened for. -/
structure Setting where
  network : MiningNetwork
  binding : JournalBinding
  context : List Char
  /-- The contexts of the same journal before it was bound to its payout. -/
  legacy : List (List Char)

/-- What a journal is asked to do. -/
inductive Op where
  | enqueue (share : ValidatedShare)
  | enqueueDeclared (bytes : Bytes)
  | enqueueRelayed (bytes : Bytes)
  | finish (hash : List Char) (accepted : Bool)
  /-- The process ends, and opens the journal again. -/
  | reopen

/-- A block that names no payout. -/
def relayed (bytes : Bytes) : Except String PendingBlock := do
  let hash ← validateBlock bytes none
  .ok ⟨hash, Text.hexEncode bytes, none, none, none⟩

/-- The block `enqueue` saves for a share. -/
def Setting.enqueued (setting : Setting) (share : ValidatedShare) : Except String PendingBlock :=
  if share.block = false then .error "cannot journal a non-block share"
  else do
    let bytes ← share.template.block share.coinbase share.header
    match setting.binding with
    | .declared => relayed bytes
    | .relay => .error "the relay journal takes relayed blocks only"
    | .payout payout scripts => do
      let miner := if share.miner ≠ payout then some share.miner else none
      let scripts ← blockScripts setting.network scripts miner share.operator
      let hash ← validateBlock bytes (some ⟨scripts, some share.payout⟩)
      .ok ⟨hash, Text.hexEncode bytes, some share.payout, miner, share.operator⟩

/-- The block an operation saves, after its checks. -/
def Setting.block (setting : Setting) : Op → Except String PendingBlock
  | .enqueue share => setting.enqueued share
  | .enqueueDeclared bytes =>
    if setting.binding ≠ .declared then .error "declared blocks go to the JD journal"
    else relayed bytes
  | .enqueueRelayed bytes =>
    if setting.binding ≠ .relay then .error "relayed blocks go to the relay journal"
    else relayed bytes
  | .finish _ _ | .reopen => .error "no block"

lemma checkPending_relayed {network : MiningNetwork} {binding : JournalBinding} {bytes : Bytes}
    {block : PendingBlock} (hbinding : binding = .relay ∨ binding = .declared)
    (h : relayed bytes = .ok block) : checkPending network binding block = .ok () := by
  obtain ⟨hash, hhash, h⟩ := Except.bind_eq_ok.mp h
  cases h
  refine checkPending_eq_ok.mpr ⟨bytes, Text.hexDecode_hexEncode bytes, ?_⟩
  rcases hbinding with rfl | rfl <;> simpa [pendingHash] using hhash

/-- What an operation saves passes the checks of an opening journal. -/
lemma Setting.checkPending_block {setting : Setting} {op : Op} {block : PendingBlock}
    (h : setting.block op = .ok block) :
    checkPending setting.network setting.binding block = .ok () := by
  cases op with
  | enqueue share =>
    obtain ⟨-, h⟩ := Except.ite_error_eq_ok.mp h
    obtain ⟨bytes, -, h⟩ := Except.bind_eq_ok.mp h
    cases hbinding : setting.binding with
    | declared =>
      rw [hbinding] at h
      exact checkPending_relayed (.inr rfl) h
    | relay =>
      rw [hbinding] at h
      cases h
    | payout payout scripts =>
      rw [hbinding] at h
      obtain ⟨scripts', hscripts, h⟩ := Except.bind_eq_ok.mp h
      obtain ⟨hash, hhash, h⟩ := Except.bind_eq_ok.mp h
      cases h
      refine checkPending_eq_ok.mpr ⟨bytes, Text.hexDecode_hexEncode bytes, ?_⟩
      exact Except.bind_eq_ok.mpr ⟨scripts', hscripts, hhash⟩
  | enqueueDeclared bytes =>
    obtain ⟨hbinding, h⟩ := Except.ite_error_eq_ok.mp h
    exact checkPending_relayed (.inr (not_not.mp hbinding)) h
  | enqueueRelayed bytes =>
    obtain ⟨hbinding, h⟩ := Except.ite_error_eq_ok.mp h
    exact checkPending_relayed (.inl (not_not.mp hbinding)) h
  | finish hash accepted => cases h
  | reopen => cases h

/-- A saved block's hash is a receipt. -/
lemma isReceipt_of_checkPending {network : MiningNetwork} {binding : JournalBinding}
    {p : PendingBlock} (h : checkPending network binding p = .ok ()) : IsReceipt p.hash := by
  obtain ⟨bytes, -, hhash⟩ := checkPending_eq_ok.mp h
  obtain ⟨expected, hvalid⟩ := validateBlock_of_pendingHash hhash
  obtain ⟨block, hblock⟩ := validateBlock_hash hvalid
  rw [hblock]
  exact ⟨length_hash block, List.all_eq_true.mpr fun c hc => Text.isHexChar_hexEncode hc⟩

end Pickaxe.Journal
