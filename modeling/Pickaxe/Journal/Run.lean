/-
# The block journal

Solved blocks wait in the journal until the node has answered.  Every change is written to
a new file that then replaces the old one, and only then does the memory follow; a write can
fail before or after the replacement, and the process can end and open the file again.

Each operation keeps the memory and the file sound (`Inv.step`), and what a successful
`push` saved stays in both until `finish` is called for it (`Stepped.saved`).
-/
import Pickaxe.Journal.State

namespace Pickaxe.Journal

open Lib

attribute [local instance] lawfulBEq_text

/-! ## Writing the file -/

/-- Where a write of the file fails. -/
inductive Fault where
  | create
  | protect
  | flush
  | install
  /-- From here on the new file is in place. -/
  | sync
  | syncDirectory
deriving DecidableEq

/-- Whether the new file is in place when the write fails. -/
def Fault.renamed : Fault → Bool
  | .create | .protect | .flush | .install => false
  | .sync | .syncDirectory => true

/-- The error of a failed write. -/
def Fault.display : Fault → String
  | .create => "cannot create block journal update"
  | .protect => "cannot protect block journal update"
  | .flush => "cannot flush block journal update"
  | .install => "cannot install block journal update"
  | .sync => "cannot sync block journal"
  | .syncDirectory => "cannot sync block journal directory"

/-- The JSON of a state: what is written reads back. -/
class Codec where
  File : Type
  encode : State → File
  decode : File → Option State
  length : File → ℕ
  decode_encode : ∀ state, decode (encode state) = some state

section Files

variable [Hasher] [Bitcoin] [Codec]

/-- `persist`: its result, and the journal's file after it. -/
def persist (file : Option Codec.File) (state : State) (fault : Option Fault) :
    Except String Unit × Option Codec.File :=
  if Codec.length (Codec.encode state) > maxFileBytes then
    (.error "block journal exceeds storage budget", file)
  else match fault with
    | none => (.ok (), some (Codec.encode state))
    | some fault => (.error fault.display, if fault.renamed then some (Codec.encode state) else file)

omit [Hasher] [Bitcoin] in
/-- A write succeeds with the new file in place, or fails with either. -/
lemma persist_cases (file : Option Codec.File) (state : State) (fault : Option Fault) :
    (∃ e, persist file state fault = (.error e, file)) ∨
      Codec.length (Codec.encode state) ≤ maxFileBytes ∧
        ((∃ e, persist file state fault = (.error e, some (Codec.encode state))) ∨
          persist file state fault = (.ok (), some (Codec.encode state))) := by
  unfold persist
  split_ifs with hlen
  · exact .inl ⟨_, rfl⟩
  cases fault with
  | none => exact .inr ⟨Nat.not_lt.mp hlen, .inr rfl⟩
  | some fault =>
    cases hfault : fault.renamed with
    | false => exact .inl ⟨fault.display, by simp [hfault]⟩
    | true => exact .inr ⟨Nat.not_lt.mp hlen, .inl ⟨fault.display, by simp [hfault]⟩⟩

/-! ## Opening a journal -/

/-- A new journal. -/
def State.fresh (context : List Char) : State := ⟨1, context, [], [], 0, 0⟩

/-- The state a file holds, and whether it is rebound to this context. -/
def Setting.load (setting : Setting) (file : Option Codec.File) : Except String (State × Bool) :=
  match file with
  | none => .ok (.fresh setting.context, false)
  | some file =>
    if Codec.length file > maxFileBytes then .error "block journal exceeds storage budget"
    else match Codec.decode file with
      | none => .error "invalid block journal; refusing to replace it"
      | some state =>
        if state.version ≠ 1 ∨ (state.context ≠ setting.context ∧ state.context ∉ setting.legacy) then
          .error ("block journal belongs to another network or payout, or to a node that is " ++
            "no longer configured")
        else .ok ({ state with context := setting.context }, state.context ≠ setting.context)

/-- `open_bound`: the journal's state, and its file after it. -/
def Setting.openBound (setting : Setting) (file : Option Codec.File) (fault : Option Fault) :
    Except String State × Option Codec.File :=
  match setting.load file with
  | .error e => (.error e, file)
  | .ok (state, rebound) =>
    match validateState state setting.network setting.binding with
    | .error e => (.error e, file)
    | .ok () =>
      if file.isNone ∨ rebound then
        match persist file state fault with
        | (.error e, file) => (.error e, file)
        | (.ok (), file) => (.ok state, file)
      else (.ok state, file)

/-! ## The operations -/

/-- A journal in memory and its file. -/
structure Store where
  state : State
  file : Option Codec.File

/-- Writes the next state; the memory follows once that has succeeded. -/
def Store.write (store : Store) (next : State) (fault : Option Fault) :
    Except String Bool × Store :=
  match persist store.file next fault with
  | (.error e, file) => (.error e, ⟨store.state, file⟩)
  | (.ok (), file) => (.ok true, ⟨next, file⟩)

/-- The state with one more block. -/
def State.pushed (state : State) (block : PendingBlock) : State :=
  { state with pending := state.pending ++ [block] }

/-- `push`: false when the block is already saved. -/
def Store.push (store : Store) (block : PendingBlock) (fault : Option Fault) :
    Except String Bool × Store :=
  if block.hash ∈ store.state.completed ∨ ∃ p ∈ store.state.pending, p.hash = block.hash then
    (.ok false, store)
  else match validateLimits (store.state.pushed block) with
    | .error e => (.error e, store)
    | .ok () => store.write (store.state.pushed block) fault

/-- The state after `finish` of the saved block at `index`. -/
def State.finished (state : State) (index : ℕ) (hash : List Char) (accepted : Bool) : State :=
  let completed := state.completed ++ [hash]
  { state with
    pending := state.pending.eraseIdx index
    completed := if completed.length > maxReceipts then completed.drop 1 else completed
    accepted := if accepted then saturatingSucc state.accepted else state.accepted
    rejected := if accepted then state.rejected else saturatingSucc state.rejected }

/-- `finish`: whether there was such a block. -/
def Store.finish (store : Store) (hash : List Char) (accepted : Bool) (fault : Option Fault) :
    Except String Bool × Store :=
  match store.state.pending.findIdx? fun p => p.hash == hash with
  | none => (.ok false, store)
  | some index => store.write (store.state.finished index hash accepted) fault

/-- One operation, whose write of the file may fail: its result, and what it leaves. -/
def Setting.step (setting : Setting) (store : Store) (op : Op) (fault : Option Fault) :
    Except String Bool × Store :=
  match op with
  | .finish hash accepted => store.finish hash accepted fault
  | .reopen =>
    match setting.openBound store.file fault with
    | (.error e, file) => (.error e, ⟨store.state, file⟩)
    | (.ok state, file) => (.ok true, ⟨state, file⟩)
  | op =>
    match setting.block op with
    | .error e => (.error e, store)
    | .ok block => store.push block fault

/-- Operations one after the other, each with its fault, if any. -/
def Setting.run (setting : Setting) (store : Store) (ops : List (Op × Option Fault)) : Store :=
  ops.foldl (fun store op => (setting.step store op.1 op.2).2) store

/-! ## What every run keeps -/

/-- A state of this journal. -/
structure Setting.Good (setting : Setting) (state : State) : Prop where
  sound : Sound setting.network setting.binding state
  version : state.version = 1
  context : state.context = setting.context

/-- The journal's file holds a state. -/
def Holds (file : Option Codec.File) (state : State) : Prop :=
  ∃ f, file = some f ∧ Codec.decode f = some state ∧ Codec.length f ≤ maxFileBytes

/-- The memory and the file are both good. -/
structure Setting.Inv (setting : Setting) (store : Store) : Prop where
  memory : setting.Good store.state
  file : ∃ state, Holds store.file state ∧ setting.Good state

omit [Hasher] [Bitcoin] in
lemma Holds.unique {file : Option Codec.File} {a b : State} (ha : Holds file a)
    (hb : Holds file b) : a = b := by
  obtain ⟨f, rfl, hf, -⟩ := ha
  obtain ⟨g, hg, hb, -⟩ := hb
  cases hg
  rw [hf] at hb
  exact Option.some.inj hb

omit [Hasher] [Bitcoin] in
lemma holds_encode {state : State} (h : Codec.length (Codec.encode state) ≤ maxFileBytes) :
    Holds (some (Codec.encode state)) state :=
  ⟨_, rfl, Codec.decode_encode state, h⟩

/-- What a write of `next` can leave: nothing, the new file alone, or both. -/
inductive Written (store : Store) (next : State) : Except String Bool → Store → Prop
  | failed (e : String) : Written store next (.error e) store
  | renamed (e : String) {file : Option Codec.File} (hfile : Holds file next) :
    Written store next (.error e) ⟨store.state, file⟩
  | done {file : Option Codec.File} (hfile : Holds file next) :
    Written store next (.ok true) ⟨next, file⟩

omit [Hasher] [Bitcoin] in
lemma Store.write_written (store : Store) (next : State) (fault : Option Fault) :
    Written store next (store.write next fault).1 (store.write next fault).2 := by
  rw [Store.write]
  obtain ⟨e, h⟩ | ⟨hlen, ⟨e, h⟩ | h⟩ := persist_cases store.file next fault
  · rw [h]
    exact .failed e
  · rw [h]
    exact .renamed e (holds_encode hlen)
  · rw [h]
    exact .done (holds_encode hlen)

/-- What an operation can do: leave everything as it is, open the file's state, or write a
state that differs by one block. -/
inductive Setting.Stepped (setting : Setting) (store : Store) (op : Op) :
    Except String Bool → Store → Prop
  | same {r : Except String Bool} (h : r ≠ .ok true) : setting.Stepped store op r store
  | pushed {block : PendingBlock} {r : Except String Bool} {store' : Store}
    (hblock : setting.block op = .ok block)
    (hnew : block.hash ∉ store.state.completed ++ store.state.pending.map PendingBlock.hash)
    (hlimits : validateLimits (store.state.pushed block) = .ok ())
    (hwritten : Written store (store.state.pushed block) r store') :
    setting.Stepped store op r store'
  | finished {index : ℕ} {p : PendingBlock} {accepted : Bool} {r : Except String Bool} {store' : Store}
    (hop : op = .finish p.hash accepted) (hp : store.state.pending[index]? = some p)
    (hwritten : Written store (store.state.finished index p.hash accepted) r store') :
    setting.Stepped store op r store'
  | reopened {state : State} (hop : op = .reopen) (hstate : Holds store.file state) :
    setting.Stepped store op (.ok true) ⟨state, store.file⟩

/-- A good file opens, and stays as it is. -/
lemma Setting.openBound_of_holds {setting : Setting} {file : Option Codec.File} {state : State}
    (hfile : Holds file state) (hgood : setting.Good state) (fault : Option Fault) :
    setting.openBound file fault = (.ok state, file) := by
  obtain ⟨f, rfl, hdecode, hlen⟩ := hfile
  have hload : setting.load (some f) = .ok (state, false) := by
    obtain ⟨version, context, pending, completed, accepted, rejected⟩ := state
    obtain rfl : context = setting.context := hgood.context
    obtain rfl : version = 1 := hgood.version
    simp [Setting.load, Nat.not_lt.mpr hlen, hdecode]
  have hvalid := validateState_eq_ok.mpr hgood.sound
  rw [Setting.openBound, hload]
  simp [hvalid]

omit [Hasher] [Bitcoin] in
lemma Setting.load_eq_ok {setting : Setting} {file : Option Codec.File} {state : State}
    {rebound : Bool} (h : setting.load file = .ok (state, rebound)) :
    state.version = 1 ∧ state.context = setting.context ∧
      (file.isNone ∨ rebound = true ∨ Holds file state) := by
  cases file with
  | none =>
    cases h
    exact ⟨rfl, rfl, .inl rfl⟩
  | some f =>
    obtain ⟨hlen, h⟩ := Except.ite_error_eq_ok.mp h
    cases hdecode : Codec.decode f with
    | none =>
      rw [hdecode] at h
      cases h
    | some old =>
      rw [hdecode] at h
      obtain ⟨hold, h⟩ := Except.ite_error_eq_ok.mp h
      rw [not_or, not_not] at hold
      cases h
      refine ⟨hold.1, rfl, .inr ?_⟩
      by_cases hcontext : old.context = setting.context
      · refine .inr ⟨f, rfl, ?_, Nat.not_lt.mp hlen⟩
        rw [hdecode, ← hcontext]
      · exact .inl (by simpa using hcontext)

/-- A journal that opened is good, in memory and on disk. -/
lemma Setting.inv_openBound {setting : Setting} {file file' : Option Codec.File} {state : State}
    {fault : Option Fault} (h : setting.openBound file fault = (.ok state, file')) :
    setting.Inv ⟨state, file'⟩ := by
  unfold Setting.openBound at h
  cases hload : setting.load file with
  | error e =>
    rw [hload] at h
    cases h
  | ok r =>
    obtain ⟨loaded, rebound⟩ := r
    rw [hload] at h
    obtain ⟨hversion, hcontext, hfile⟩ := Setting.load_eq_ok hload
    cases hvalid : validateState loaded setting.network setting.binding with
    | error e => simp [hvalid] at h
    | ok u =>
      have hgood : setting.Good loaded := ⟨validateState_eq_ok.mp hvalid, hversion, hcontext⟩
      simp only [hvalid] at h
      by_cases hnew : file.isNone ∨ rebound = true
      · rw [if_pos hnew] at h
        obtain ⟨e, hp⟩ | ⟨hlen, ⟨e, hp⟩ | hp⟩ := persist_cases file loaded fault
        · rw [hp] at h
          cases h
        · rw [hp] at h
          cases h
        · rw [hp] at h
          cases h
          exact ⟨hgood, state, holds_encode hlen, hgood⟩
      · rw [if_neg hnew] at h
        cases h
        have hholds : Holds file state := by
          rcases hfile with h | h | h
          · exact absurd (.inl h) hnew
          · exact absurd (.inr h) hnew
          · exact h
        exact ⟨hgood, state, hholds, hgood⟩

lemma Setting.push_stepped {setting : Setting} {store : Store} {op : Op} {block : PendingBlock}
    (hblock : setting.block op = .ok block) (fault : Option Fault) :
    setting.Stepped store op (store.push block fault).1 (store.push block fault).2 := by
  unfold Store.push
  split_ifs with hold
  · exact .same (by simp)
  cases hlimits : validateLimits (store.state.pushed block) with
  | error e => exact .same (by simp)
  | ok u =>
    refine .pushed hblock ?_ hlimits (store.write_written _ fault)
    rw [List.mem_append, List.mem_map]
    exact hold

lemma Setting.step_stepped {setting : Setting} {store : Store} (h : setting.Inv store) (op : Op)
    (fault : Option Fault) :
    setting.Stepped store op (setting.step store op fault).1 (setting.step store op fault).2 := by
  have hpush : ∀ op, setting.step store op fault = (match setting.block op with
        | .error e => (.error e, store)
        | .ok block => store.push block fault) →
      setting.Stepped store op (setting.step store op fault).1 (setting.step store op fault).2 := by
    intro op hop
    rw [hop]
    cases hblock : setting.block op with
    | error e => exact .same (by simp)
    | ok block => exact Setting.push_stepped hblock fault
  cases op with
  | enqueue share => exact hpush _ rfl
  | enqueueDeclared bytes => exact hpush _ rfl
  | enqueueRelayed bytes => exact hpush _ rfl
  | finish hash accepted =>
    rw [Setting.step, Store.finish]
    cases hindex : store.state.pending.findIdx? fun p => p.hash == hash with
    | none => exact .same (by simp)
    | some index =>
      obtain ⟨hlt, hp, -⟩ := List.findIdx?_eq_some_iff_getElem.mp hindex
      obtain rfl := eq_of_beq hp
      exact .finished rfl (List.getElem?_eq_getElem hlt) (store.write_written _ fault)
  | reopen =>
    obtain ⟨state, hfile, hgood⟩ := h.file
    rw [Setting.step, Setting.openBound_of_holds hfile hgood]
    exact .reopened rfl hfile

omit [Codec] in
lemma Setting.Good.pushed {setting : Setting} {state : State} (h : setting.Good state) {op : Op}
    {block : PendingBlock} (hblock : setting.block op = .ok block)
    (hnew : block.hash ∉ state.completed ++ state.pending.map PendingBlock.hash)
    (hlimits : validateLimits (state.pushed block) = .ok ()) : setting.Good (state.pushed block) := by
  obtain ⟨hpending, hcompleted, htotal⟩ := validateLimits_eq_ok.mp hlimits
  refine ⟨⟨hpending, hcompleted, htotal, h.sound.receipts, ?_, ?_⟩, h.version, h.context⟩
  · intro p hp
    rcases List.mem_append.mp hp with hp | hp
    · exact h.sound.blocks p hp
    · rw [List.mem_singleton.mp hp]
      exact Setting.checkPending_block hblock
  · have heq : state.completed ++ (state.pushed block).pending.map PendingBlock.hash =
        (state.completed ++ state.pending.map PendingBlock.hash) ++ [block.hash] := by
      simp [State.pushed]
    show (state.completed ++ (state.pushed block).pending.map PendingBlock.hash).Nodup
    rw [heq, List.nodup_append']
    exact ⟨h.sound.nodup, List.nodup_singleton _, by simpa using hnew⟩

omit [Hasher] [Bitcoin] [Codec] in
/-- `finish` moves a hash from the blocks to the receipts, and drops the oldest receipt when
there are too many. -/
lemma State.finished_spec (state : State) (index : ℕ) (hash : List Char) (accepted : Bool) :
    (state.finished index hash accepted).pending = state.pending.eraseIdx index ∧
      (state.finished index hash accepted).completed.Sublist (state.completed ++ [hash]) ∧
      (state.completed.length ≤ maxReceipts →
        (state.finished index hash accepted).completed.length ≤ maxReceipts) := by
  refine ⟨rfl, ?_, ?_⟩
  · simp only [State.finished]
    split_ifs
    · exact List.drop_sublist 1 _
    · exact List.Sublist.refl _
  · intro hle
    simp only [State.finished]
    split_ifs with hlong
    · rw [List.length_drop, List.length_append, List.length_singleton]
      omega
    · exact Nat.not_lt.mp hlong

omit [Codec] in
lemma Setting.Good.finished {setting : Setting} {state : State} (h : setting.Good state)
    {index : ℕ} {p : PendingBlock} (accepted : Bool) (hp : state.pending[index]? = some p) :
    setting.Good (state.finished index p.hash accepted) := by
  obtain ⟨hpending, hcompleted, hlength⟩ := state.finished_spec index p.hash accepted
  have hmem : p ∈ state.pending := List.mem_of_getElem? hp
  have hsub : (state.pending.eraseIdx index).Sublist state.pending := List.eraseIdx_sublist _ _
  -- the blocks before are the finished one and the others, in some order
  have hperm : state.pending.Perm (p :: state.pending.eraseIdx index) := by
    obtain ⟨hlt, rfl⟩ := List.getElem?_eq_some_iff.mp hp
    exact (List.getElem_cons_eraseIdx_perm hlt).symm
  refine ⟨⟨?_, hlength h.sound.completed_le, ?_, ?_, ?_, ?_⟩, h.version, h.context⟩
  · rw [hpending]
    exact hsub.length_le.trans h.sound.pending_le
  · have htotal := h.sound.total_le
    rw [State.total, (hperm.map _).sum_nat, List.map_cons, List.sum_cons] at htotal
    rw [State.total, hpending]
    omega
  · intro hash hhash
    rcases List.mem_append.mp (hcompleted.subset hhash) with hhash | hhash
    · exact h.sound.receipts hash hhash
    · rw [List.mem_singleton.mp hhash]
      exact isReceipt_of_checkPending (h.sound.blocks p hmem)
  · rw [hpending]
    exact fun q hq => h.sound.blocks q (hsub.subset hq)
  · have hnodup : ((state.completed ++ [p.hash]) ++
        (state.pending.eraseIdx index).map PendingBlock.hash).Nodup := by
      rw [List.append_assoc]
      refine (List.Perm.nodup_iff ?_).mp h.sound.nodup
      exact (hperm.map PendingBlock.hash).append_left _
    rw [hpending]
    exact hnodup.sublist (hcompleted.append_right _)

lemma Setting.Inv.written {setting : Setting} {store : Store} (h : setting.Inv store)
    {next : State} (hnext : setting.Good next) {r : Except String Bool} {store' : Store}
    (hwritten : Written store next r store') : setting.Inv store' := by
  cases hwritten with
  | failed e => exact h
  | renamed e hfile => exact ⟨h.memory, next, hfile, hnext⟩
  | done hfile => exact ⟨hnext, next, hfile, hnext⟩

lemma Setting.Stepped.inv {setting : Setting} {store store' : Store} {op : Op}
    {r : Except String Bool} (hstep : setting.Stepped store op r store') (h : setting.Inv store) :
    setting.Inv store' := by
  cases hstep with
  | same hr => exact h
  | pushed hblock hnew hlimits hwritten =>
    exact h.written (h.memory.pushed hblock hnew hlimits) hwritten
  | finished hop hp hwritten => exact h.written (h.memory.finished _ hp) hwritten
  | reopened hop hstate =>
    obtain ⟨state', hfile, hgood⟩ := h.file
    obtain rfl := hstate.unique hfile
    exact ⟨hgood, _, hfile, hgood⟩

/-- One operation keeps the memory and the file good, whatever fails. -/
lemma Setting.Inv.step {setting : Setting} {store : Store} (h : setting.Inv store) (op : Op)
    (fault : Option Fault) : setting.Inv (setting.step store op fault).2 :=
  (Setting.step_stepped h op fault).inv h

lemma Setting.Inv.run {setting : Setting} {store : Store} (h : setting.Inv store)
    (ops : List (Op × Option Fault)) : setting.Inv (setting.run store ops) := by
  induction ops generalizing store with
  | nil => exact h
  | cons op ops ih => exact ih (h.step op.1 op.2)

/-- A failed operation leaves the memory as it was. -/
lemma Setting.Stepped.state_eq {setting : Setting} {store store' : Store} {op : Op} {e : String}
    (hstep : setting.Stepped store op (.error e) store') : store'.state = store.state := by
  cases hstep with
  | same hr => rfl
  | pushed hblock hnew hlimits hwritten => cases hwritten <;> rfl
  | finished hop hp hwritten => cases hwritten <;> rfl

/-! ## A saved block stays -/

/-- A block that is pending in memory and on disk. -/
def Store.Saved (store : Store) (block : PendingBlock) : Prop :=
  block ∈ store.state.pending ∧ ∃ state, Holds store.file state ∧ block ∈ state.pending

omit [Hasher] [Bitcoin] in
lemma Store.Saved.written {store : Store} {block : PendingBlock} (h : store.Saved block)
    {next : State} (hnext : block ∈ next.pending) {r : Except String Bool} {store' : Store}
    (hwritten : Written store next r store') : store'.Saved block := by
  cases hwritten with
  | failed e => exact h
  | renamed e hfile => exact ⟨h.1, next, hfile, hnext⟩
  | done hfile => exact ⟨hnext, next, hfile, hnext⟩

/-- Whatever is done and whatever fails, a saved block stays until it is finished. -/
lemma Setting.Stepped.saved {setting : Setting} {store store' : Store} {op : Op}
    {r : Except String Bool} (hstep : setting.Stepped store op r store') {block : PendingBlock}
    (h : store.Saved block) (hop : ∀ accepted, op ≠ .finish block.hash accepted) :
    store'.Saved block := by
  cases hstep with
  | same hr => exact h
  | pushed hblock hnew hlimits hwritten => exact h.written (List.mem_append_left _ h.1) hwritten
  | @finished index p accepted _ _ hfinish hp hwritten =>
    refine h.written ?_ hwritten
    obtain ⟨hlt, hget⟩ := List.getElem?_eq_some_iff.mp hp
    have hne : block ≠ p := by
      rintro rfl
      exact hop accepted hfinish
    have hmem : block ∈ p :: store.state.pending.eraseIdx index := by
      rw [← hget]
      exact (List.getElem_cons_eraseIdx_perm hlt).mem_iff.mpr h.1
    exact (List.mem_cons.mp hmem).resolve_left hne
  | reopened hreopen hstate =>
    obtain ⟨state', hfile, hmem⟩ := h.2
    obtain rfl := hstate.unique hfile
    exact ⟨hmem, _, hfile, hmem⟩

lemma Setting.saved_run {setting : Setting} {store : Store} (hinv : setting.Inv store)
    {block : PendingBlock} (h : store.Saved block) {ops : List (Op × Option Fault)}
    (hops : ∀ op ∈ ops, ∀ accepted, op.1 ≠ .finish block.hash accepted) :
    (setting.run store ops).Saved block := by
  induction ops generalizing store with
  | nil => exact h
  | cons op ops ih =>
    have hstep := Setting.step_stepped hinv op.1 op.2
    exact ih (hinv.step op.1 op.2) (hstep.saved h (hops op (by simp)))
      fun o ho => hops o (by simp [ho])

/-- A block whose `push` succeeded is saved. -/
lemma Setting.Stepped.saved_pushed {setting : Setting} {store store' : Store} {op : Op}
    {block : PendingBlock} (hstep : setting.Stepped store op (.ok true) store')
    (hblock : setting.block op = .ok block) : store'.Saved block := by
  cases hstep with
  | same hr => exact absurd rfl hr
  | pushed hblock' hnew hlimits hwritten =>
    rw [hblock] at hblock'
    cases hblock'
    cases hwritten with
    | done hfile =>
      have hmem : block ∈ (store.state.pushed block).pending := by simp [State.pushed]
      exact ⟨hmem, _, hfile, hmem⟩
  | finished hop hp hwritten =>
    rw [hop] at hblock
    cases hblock
  | reopened hop hstate =>
    rw [hop] at hblock
    cases hblock

/-- What holds of a journal at every point of a run. -/
structure Setting.Durable (setting : Setting) (store : Store) : Prop where
  /-- No hash is pending twice, completed twice, or both. -/
  nodup : (store.state.completed ++ store.state.pending.map PendingBlock.hash).Nodup
  limits : validateLimits store.state = .ok ()
  /-- An operation that returns an error leaves the memory as it was. -/
  error : ∀ op fault e, (setting.step store op fault).1 = .error e →
    (setting.step store op fault).2.state = store.state
  /-- What is on disk is valid, and opens to just what was written. -/
  reopens : ∃ state, Holds store.file state ∧
    validateState state setting.network setting.binding = .ok () ∧
    ∀ fault, setting.openBound store.file fault = (.ok state, store.file)
  /-- A block whose `push` returns true is on disk from then on, until it is finished. -/
  saved : ∀ op fault block, setting.block op = .ok block →
    (setting.step store op fault).1 = .ok true →
    ∀ later : List (Op × Option Fault),
      (∀ o ∈ later, ∀ accepted, o.1 ≠ .finish block.hash accepted) →
      ∃ state, Holds (setting.run (setting.step store op fault).2 later).file state ∧
        block ∈ state.pending

/-- Along every run of a journal that opened, whichever writes fail before or after the new
file is in place and however often the process ends: the memory is free of duplicates and
within the limits, a failed operation does not change it, every file written opens again,
and a saved block is in every later file until it is finished. -/
theorem Setting.durable {setting : Setting} {file file' : Option Codec.File} {state : State}
    {fault : Option Fault} (hopen : setting.openBound file fault = (.ok state, file'))
    (ops : List (Op × Option Fault)) : setting.Durable (setting.run ⟨state, file'⟩ ops) := by
  have hinv := (Setting.inv_openBound hopen).run ops
  generalize setting.run ⟨state, file'⟩ ops = store at hinv
  refine ⟨hinv.memory.sound.nodup, ?_, ?_, ?_, ?_⟩
  · have hsound := hinv.memory.sound
    exact validateLimits_eq_ok.mpr ⟨hsound.pending_le, hsound.completed_le, hsound.total_le⟩
  · intro op fault e herror
    have hstep := Setting.step_stepped hinv op fault
    rw [herror] at hstep
    exact hstep.state_eq
  · obtain ⟨onDisk, hfile, hgood⟩ := hinv.file
    exact ⟨onDisk, hfile, validateState_eq_ok.mpr hgood.sound,
      Setting.openBound_of_holds hfile hgood⟩
  · intro op fault block hblock hok later hlater
    have hstep := Setting.step_stepped hinv op fault
    rw [hok] at hstep
    exact (Setting.saved_run (hinv.step op fault) (hstep.saved_pushed hblock) hlater).2

end Files

/-! ## The first block in a relay journal -/

/-- The first block of the chain, with its one transaction. -/
def genesis : Bytes := (Text.hexDecode
  ("0100000000000000000000000000000000000000000000000000000000000000000000003ba3edfd7a7b12b27ac7" ++
    "2c3e67768f617fc81bc3888a51323a9fb8aa4b1e5e4a29ab5f49ffff001d1dac2b7c01010000000100000000000000" ++
    "00000000000000000000000000000000000000000000000000ffffffff4d04ffff001d010445546865205469" ++
    "6d65732030332f4a616e2f32303039204368616e63656c6c6f72206f6e206272696e6b206f66207365636f6e" ++
    "64206261696c6f757420666f722062616e6b73ffffffff0100f2052a01000000434104678afdb0fe55482719" ++
    "67f1a67130b7105cd6a828e03909a67962e0ea1f61deb649f6bc3f4cef38c4f35504e51ec112de5c384df7ba" ++
    "0b8d578a4c702b6bf11d5fac00000000").toList).getD []

/-- What the Bitcoin library reads of the first block, and of nothing else. -/
abbrev genesisLibrary : Bitcoin where
  deserialize bytes :=
    if bytes = genesis then
      some ⟨⟨genesis.take 80 ++ List.replicate (80 - genesis.length) 0, by simp; omega⟩,
        [⟨1, [⟨ByteVec.zero 32, 0xffffffff, slice genesis 123 200, 0xffffffff, []⟩],
          [(5000000000, slice genesis 214 281)], 0⟩]⟩
    else none
  deserializeTransaction _ := none
  checkMerkleRoot block := block.header.bytes == genesis.take 80
  validatePow header := header.bytes == genesis.take 80

/-- Files that are states, as long as their blocks and receipts. -/
abbrev plainCodec : Codec where
  File := State
  encode state := state
  decode file := some file
  length file := 100 + file.total + 70 * (file.pending.length + file.completed.length)
  decode_encode _ := rfl

/-- A relay journal. -/
def relaySetting : Setting := ⟨.chipnet, .relay, "relay".toList, []⟩

theorem durable_genesis :
    let : Hasher := Hasher.fips
    let : Bitcoin := genesisLibrary
    let : Codec := plainCodec
    ∃ state file, relaySetting.openBound none none = (.ok state, file) ∧
      (relaySetting.step ⟨state, file⟩ (.enqueueRelayed genesis) none).1 = .ok true ∧
      relaySetting.Durable (relaySetting.run ⟨state, file⟩ [(.enqueueRelayed genesis, none)]) := by
  -- the digits of the text are read off its literals
  simp -zeta only [Hasher.fips_eq, genesisLibrary, genesis, String.toList_append,
    -String.reduceAppend]
  intro _ _ _
  have hopen : relaySetting.openBound none none =
      (.ok (.fresh "relay".toList), some (State.fresh "relay".toList)) := rfl
  refine ⟨_, _, hopen, ?_, Setting.durable hopen _⟩
  decide +kernel

end Pickaxe.Journal
