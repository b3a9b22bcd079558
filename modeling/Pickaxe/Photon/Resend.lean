/-
# An unaccepted claim is sent again

A claim that no server has accepted is worth sending again as long as its baton is unspent: the
decision table says so, and the legacy path does it.  The path of a direct claim does not, once an
attempt is noted: it waits for an acceptance that a broadcast lost on the way never brings.
`claim_resent_iff` says exactly when an attempt sends the parent.
-/
import Pickaxe.Photon.Files

namespace Pickaxe.Photon

open Lib Program

/-! ## What a valid journal says -/

section Valid

variable [Hasher] {pending : PendingSubmission}

/-- A journaled transaction and its id. -/
structure HasId (txid rawHex : List Char) (raw : Bytes) : Prop where
  isTxid : IsTxid txid
  decode : Text.hexDecode rawHex = some raw
  nonempty : raw ≠ []
  id : Text.eqIgnoreCase (transactionId raw) txid = true

lemma checkBytes_ok {label : String} {txid rawHex : List Char} {raw : Bytes}
    (h : PendingSubmission.checkBytes label txid rawHex = .ok raw) : HasId txid rawHex raw := by
  rw [PendingSubmission.checkBytes, Except.ite_error_eq_ok, not_not] at h
  obtain ⟨htxid, h⟩ := h
  cases hdecode : Text.hexDecode rawHex with
  | none =>
    rw [hdecode] at h
    cases h
  | some bytes =>
    simp only [hdecode] at h
    rw [Except.ite_error_eq_ok, Except.ite_error_eq_ok, Bool.not_eq_false] at h
    obtain ⟨hne, hid, hraw⟩ := h
    obtain rfl := Except.ok.inj hraw
    exact ⟨htxid, hdecode, hne, hid⟩

/-- The two transactions of a valid journal. -/
lemma PendingSubmission.transactions_of_validate (h : pending.validate = .ok ()) :
    (∃ raw, HasId pending.parentTxid pending.parentHex raw) ∧
      ∃ raw, HasId pending.settlementTxid pending.settlementHex raw := by
  rw [validate, Except.ite_error_eq_ok, Except.ite_error_eq_ok, Except.ite_error_eq_ok,
    Except.ite_error_eq_ok, Except.ite_error_eq_ok, Except.ite_error_eq_ok] at h
  obtain ⟨-, -, -, -, -, -, h⟩ := h
  rw [Except.bind_eq_ok] at h
  obtain ⟨_, -, h⟩ := h
  rw [Except.bind_eq_ok] at h
  obtain ⟨amount, -, h⟩ := h
  rw [Except.bind_eq_ok] at h
  obtain ⟨parent, hparent, h⟩ := h
  rw [Except.bind_eq_ok] at h
  obtain ⟨settlement, hsettlement, -⟩ := h
  exact ⟨⟨parent, checkBytes_ok hparent⟩, settlement, checkBytes_ok hsettlement⟩

/-- The baton a valid claim leaves is a first output. -/
lemma PendingSubmission.resultingBatonVout_of_validate (h : pending.validate = .ok ()) :
    pending.resultingBatonVout = 0 := by
  rw [validate, Except.ite_error_eq_ok, Except.ite_error_eq_ok, Except.ite_error_eq_ok,
    Except.ite_error_eq_ok, Except.ite_error_eq_ok] at h
  exact not_not.mp h.2.2.2.2.1

/-- The bytes of a valid journal are sent as they stand. -/
lemma HasId.checkRawHex {txid rawHex : List Char} {raw : Bytes}
    (h : HasId txid rawHex raw) : checkRawHex rawHex = .ok rawHex := by
  obtain ⟨hall, hlen⟩ := Text.isHexDigit_of_hexDecode h.decode
  have htrim := Text.trim_of_hexDecode h.decode
  have hne : rawHex ≠ [] := by
    rintro rfl
    exact h.nonempty (List.length_eq_zero_iff.mp (by simpa using hlen))
  have hno : ¬ (rawHex = [] ∨ rawHex.length % 2 ≠ 0) := by
    rintro (h | h)
    · exact hne h
    · omega
  rw [Photon.checkRawHex]
  simp only [htrim, if_neg hno]
  rw [if_neg (by simp [hall])]

end Valid

/-! ## Calls in which nothing fails -/

/-- No operation fails, the node's check of a transaction included; the server does not know the
claim's parent, and the baton it reports is the one the claim spends.  A broadcast may be refused
or lost. -/
def Smooth [Hasher] (pending : PendingSubmission) : (q : Op) → Answer q → Prop
  | .getTransaction txid, a =>
    ∃ known, knownAnswer a = .ok known ∧ (txid = pending.parentTxid → known = false)
  | .fetchLiveJob, a => ∃ live, a = .ok live ∧ pending.expectedBatonIsCurrent live = true
  | .testMempoolAccept rawTxHex, a => ∃ endpoint acceptance, a = .ok (endpoint, acceptance) ∧
    acceptance.allowed = true ∧ ∀ raw, Text.hexDecode rawTxHex = some raw →
      Text.eqIgnoreCase acceptance.txid (transactionId raw) = true
  | .broadcast _ _, _ | .relay _, _ | .now, _ => True
  | q, a => ¬ FileFailed q a

instance [Hasher] (pending : PendingSubmission) :
    (q : Op) → (a : Answer q) → Decidable (Smooth pending q a)
  | .getTransaction txid, a => inferInstanceAs (Decidable (∃ known, knownAnswer a = .ok known ∧
      (txid = pending.parentTxid → known = false)))
  | .fetchLiveJob, a =>
    inferInstanceAs (Decidable (∃ live, a = .ok live ∧ pending.expectedBatonIsCurrent live = true))
  | .testMempoolAccept _, .error _ => isFalse fun h => nomatch h
  | .testMempoolAccept rawTxHex, .ok (endpoint, acceptance) =>
    decidable_of_iff (acceptance.allowed = true ∧ ∀ raw ∈ Text.hexDecode rawTxHex,
        Text.eqIgnoreCase acceptance.txid (transactionId raw) = true)
      ⟨fun h => ⟨endpoint, acceptance, rfl, h⟩, fun h => match h with | ⟨_, _, rfl, h⟩ => h⟩
  | .broadcast _ _, _ | .relay _, _ | .now, _ => inferInstanceAs (Decidable True)
  | .present path, a => inferInstanceAs (Decidable (¬ FileFailed (.present path) a))
  | .read path, a => inferInstanceAs (Decidable (¬ FileFailed (.read path) a))
  | .create path, a => inferInstanceAs (Decidable (¬ FileFailed (.create path) a))
  | .write path content, a => inferInstanceAs (Decidable (¬ FileFailed (.write path content) a))
  | .sync path, a => inferInstanceAs (Decidable (¬ FileFailed (.sync path) a))
  | .rename source target, a => inferInstanceAs (Decidable (¬ FileFailed (.rename source target) a))
  | .remove path, a => inferInstanceAs (Decidable (¬ FileFailed (.remove path) a))
  | .makeDirectory, a => inferInstanceAs (Decidable (¬ FileFailed .makeDirectory a))

/-- The parent's bytes are broadcast. -/
def Sent (pending : PendingSubmission) (heard : List ((q : Op) × Answer q)) : Prop :=
  ∃ via a, (⟨.broadcast via pending.parentHex, a⟩ : (q : Op) × Answer q) ∈ heard

/-- The server knows the claim's settlement, which is the first thing a legacy claim asks. -/
def SettlementKnown (pending : PendingSubmission) (heard : List ((q : Op) × Answer q)) : Prop :=
  ∃ a, heard.head? = some ⟨.getTransaction pending.settlementTxid, a⟩ ∧ knownAnswer a = .ok true

/-- The claim spends its own first output, which no transaction does. -/
def PendingSubmission.SpendsItself (pending : PendingSubmission) : Prop :=
  Text.eqIgnoreCase pending.expectedBatonTxid pending.parentTxid = true ∧
    pending.expectedBatonVout = 0

section Smooth

variable [Hasher] {pending : PendingSubmission} {w w' : World} {journal : String}
  {cfg : RuntimeConfig} {α β : Type}

lemma sure_smooth : Sure (Smooth pending) := by
  intro q a h hfailed
  cases q
  case read => exact h hfailed
  case create => exact h hfailed
  case write => exact h hfailed
  case sync => exact h hfailed
  case rename => exact h hfailed
  case remove => exact h hfailed
  case makeDirectory => exact h hfailed
  all_goals exact hfailed

/-- Conditions for a call in which nothing fails. -/
abbrev Smoothly (pending : PendingSubmission) (p : Task α)
    (post : Except String α → World → Prop) (w : World) : Prop :=
  Holds (Smooth pending) (fun _ => True) p post w

omit [Hasher] in
lemma stable_true : Stable fun _ => True := fun _ _ _ _ _ _ _ => trivial

omit [Hasher] in
/-- What was heard stays heard. -/
lemma holds_heard (kind : (q : Op) → Answer q → Prop) (p : Task α) (w : World) :
    Holds kind (fun w' => w.heard <+: w'.heard) p (fun _ w' => w.heard <+: w'.heard) w := by
  have hasks : p.Asks fun _ => True := by
    induction p with
    | ok a => trivial
    | error e => trivial
    | ask q next ih => exact ⟨trivial, ih⟩
  refine hasks.wp (List.prefix_refl _) fun w₁ q a w₂ h₁ _ hans => ?_
  rw [hans.1.heard]
  exact h₁.trans (List.prefix_append _ _)

omit [Hasher] in
lemma Sent.mono {heard heard' : List ((q : Op) × Answer q)} (h : Sent pending heard)
    (hpre : heard <+: heard') : Sent pending heard' := by
  obtain ⟨via, a, hmem⟩ := h
  exact ⟨via, a, hpre.subset hmem⟩

/-- What is sent stays sent. -/
lemma smoothly_of_sent (p : Task α) (h : Sent pending w.heard) :
    Smoothly pending p (fun _ w' => Sent pending w'.heard) w :=
  ((holds_heard (Smooth pending) p w).mono fun _ _ hpre => h.mono hpre).weaken fun _ _ => trivial

/-- A program that does not broadcast the parent. -/
abbrev Silent (pending : PendingSubmission) (p : Task α) : Prop :=
  p.Asks fun q => ∀ via, q ≠ .broadcast via pending.parentHex

lemma smoothly_of_silent {p : Task α} (hp : Silent pending p) (h : ¬ Sent pending w.heard) :
    Smoothly pending p (fun _ w' => ¬ Sent pending w'.heard) w := by
  have hwp : Holds (Smooth pending) (fun w' => ¬ Sent pending w'.heard) p
      (fun _ w' => ¬ Sent pending w'.heard) w := by
    refine hp.wp h fun w₁ q a w₂ h₁ hq hans => ?_
    rw [hans.1.heard]
    rintro ⟨via, b, hmem⟩
    rcases List.mem_append.mp hmem with hmem | hmem
    · exact h₁ ⟨via, b, hmem⟩
    · have heq := congrArg Sigma.fst (List.mem_singleton.mp hmem)
      exact hq via heq.symm
  exact hwp.weaken fun _ _ => trivial

lemma smoothly_bind_sent {p : Task α} {f : α → Task β}
    (hp : Smoothly pending p (fun _ w' => Sent pending w'.heard) w) :
    Smoothly pending (p >>= f) (fun _ w' => Sent pending w'.heard) w := by
  rw [Smoothly, Holds, wp_bind]
  refine hp.mono fun x w' hsent => ?_
  cases x with
  | ok a => exact smoothly_of_sent (f a) hsent
  | error e => exact hsent

/-! ## Broadcasts -/

lemma smoothly_broadcastRaw {raw : Bytes} (hid : HasId pending.parentTxid pending.parentHex raw)
    (via : JobSource) :
    Smoothly pending (broadcastRaw via pending.parentHex) (fun _ w' => Sent pending w'.heard) w := by
  rw [broadcastRaw, hid.checkRawHex]
  intro a w' hans
  have hsent : Sent pending w'.heard := by
    rw [hans.1.heard]
    exact ⟨via, a, List.mem_append_right _ (List.mem_singleton.mpr rfl)⟩
  exact ⟨trivial, smoothly_of_sent _ hsent⟩

lemma smoothly_broadcast {raw : Bytes} (hid : HasId pending.parentTxid pending.parentHex raw) :
    Smoothly pending (broadcastPendingTransaction cfg pending.parentHex)
      (fun _ w' => Sent pending w'.heard) w := by
  have hor : ∀ first second firstFailed secondFailed, Smoothly pending
      (broadcastOr first second firstFailed secondFailed pending.parentHex)
      (fun _ w' => Sent pending w'.heard) w := by
    intro first second _ _
    exact smoothly_bind_sent (wp_attempt.mpr (smoothly_broadcastRaw hid first))
  unfold broadcastPendingTransaction
  split
  · exact hor _ _ _ _
  · exact hor _ _ _ _
  · exact smoothly_broadcastRaw hid .fulcrum

/-- The node's check of a journaled transaction passes. -/
lemma smoothly_preflight {txid rawHex : List Char} {raw : Bytes} (hid : HasId txid rawHex raw)
    {label : String} :
    Smoothly pending (preflightPendingTransaction cfg label txid rawHex)
      (upon (fun _ w' => w'.disk = w.disk) (fun _ => False)) w := by
  unfold preflightPendingTransaction
  split
  · exact rfl
  rw [hid.checkRawHex]
  refine holds_query stable_true trivial (q := .testMempoolAccept rawHex) trivial
    fun a w' _ _ hacts hkind => ?_
  obtain ⟨endpoint, acceptance, rfl, hallowed, htxid⟩ := hkind
  have hsame := Text.eqIgnoreCase_trans (htxid raw hid.decode) hid.id
  show Holds _ _ (.lift (validateNodeMempoolAcceptance label txid endpoint acceptance)) _ w'
  rw [validateNodeMempoolAcceptance, if_neg (by simp [hsame]), if_pos hallowed]
  exact hacts

/-- An operation on files succeeds. -/
lemma upon_sure {q : α → World → Prop} {b : World → Prop} {x : Except String α}
    (h : upon q (fun w' => b w' ∧ ¬ Sure (Smooth pending)) x w) : upon q (fun _ => False) x w := by
  cases x with
  | ok a => exact h
  | error e => exact h.2 sure_smooth

lemma smoothly_markerPresent {path : Path} {txid : List Char} (hnamed : Named w.disk path txid) :
    Smoothly pending (markerPresent journal path txid)
      (upon (fun present w' => w'.disk = w.disk ∧ present = (w.disk path).isSome)
        (fun _ => False)) w :=
  (holds_markerPresent stable_true trivial hnamed).mono fun _ _ => upon_sure

/-- Noting an attempt or an acceptance succeeds. -/
lemma smoothly_mark {path : Path} (hpath : path.temporary = false) (htxid : IsTxid pending.parentTxid)
    (hnamed : Named w.disk path pending.parentTxid) :
    Smoothly pending (persistMarker journal path pending.parentTxid)
      (upon (fun _ w' => Agrees (· = path) w.disk w'.disk) (fun _ => False)) w := by
  refine (holds_persistMarker stable_true trivial hpath htxid hnamed
    fun _ _ _ _ _ _ _ => trivial).mono fun x w' hx => ?_
  cases x with
  | ok _ => exact hx.2
  | error e => exact (hx.2.2 sure_smooth).elim

lemma smoothly_preflightAndMark {raw : Bytes} (hid : HasId pending.parentTxid pending.parentHex raw)
    (hnamed : Named w.disk .attempted pending.parentTxid) :
    Smoothly pending (preflightAndMark cfg pending journal) (upon (fun _ _ => True) (fun _ => False))
      w := by
  rw [preflightAndMark]
  refine wp.seq (smoothly_preflight hid) trivial (fun _ w' _ hd => ?_) fun e w' _ h => h
  have hnamed' : Named w'.disk .attempted pending.parentTxid := by
    rw [hd]
    exact hnamed
  refine (smoothly_mark rfl hid.isTxid hnamed').mono fun x w'' hx => ?_
  cases x with
  | ok _ => exact trivial
  | error e => exact hx

/-- Once the attempt is noted, the parent is sent. -/
lemma smoothly_broadcastParent {raw : Bytes} (hid : HasId pending.parentTxid pending.parentHex raw)
    {f : Unit → Task β} :
    Smoothly pending (broadcastParent cfg pending journal >>= f)
      (fun _ w' => Sent pending w'.heard) w :=
  smoothly_bind_sent (smoothly_bind_sent (smoothly_broadcast hid))

/-! ## What the server says -/

lemma smoothly_transactionKnown {txid : List Char} (htxid : IsTxid txid) :
    Smoothly pending (transactionKnown txid)
      (upon (fun known w' => w'.disk = w.disk ∧ (txid = pending.parentTxid → known = false) ∧
        ∃ a, knownAnswer a = .ok known ∧ w'.heard = w.heard ++ [⟨.getTransaction txid, a⟩])
        (fun _ => False)) w := by
  rw [transactionKnown, if_neg (not_not.mpr htxid)]
  refine holds_query stable_true trivial (q := .getTransaction txid) trivial
    fun a w' hans _ hacts hkind => ?_
  obtain ⟨known, hknown, hparent⟩ := hkind
  rw [hknown]
  exact ⟨hacts, hparent, a, hknown, hans.heard⟩

lemma smoothly_fetchLiveJob :
    Smoothly pending fetchLiveJob
      (upon (fun live w' => w'.disk = w.disk ∧ pending.expectedBatonIsCurrent live = true ∧
        ∃ a, w'.heard = w.heard ++ [⟨.fetchLiveJob, a⟩]) (fun _ => False)) w := by
  rw [fetchLiveJob]
  refine holds_query stable_true trivial (q := .fetchLiveJob) trivial
    fun a w' hans _ hacts hkind => ?_
  obtain ⟨live, rfl, hcurrent⟩ := hkind
  exact ⟨hacts, hcurrent, _, hans.heard⟩

lemma smoothly_claimLags {claim : Option ClaimContext} {fresh : LiveJob} :
    Smoothly pending (claimLags claim fresh)
      (upon (fun _ w' => w'.disk = w.disk) (fun _ => False)) w := by
  cases claim with
  | none => exact rfl
  | some context =>
    refine holds_query stable_true trivial (q := .now) trivial fun a w' _ _ hacts _ => ?_
    exact hacts

omit [Hasher] in
/-- The parent's own output is the live baton, when the live baton is the one the claim spends,
only if the claim spends itself. -/
lemma PendingSubmission.parentBatonIsLive_iff {live : LiveJob}
    (hcurrent : pending.expectedBatonIsCurrent live = true) :
    pending.parentBatonIsLive live = true ↔ pending.SpendsItself := by
  rw [expectedBatonIsCurrent, Bool.and_eq_true, beq_iff_eq] at hcurrent
  obtain ⟨htxid, hvout⟩ := hcurrent
  rw [parentBatonIsLive, Bool.and_eq_true, beq_iff_eq, SpendsItself, hvout]
  refine and_congr_left fun _ => ⟨fun h => ?_, fun h => ?_⟩
  · exact Text.eqIgnoreCase_trans htxid h
  · exact Text.eqIgnoreCase_trans (Text.eqIgnoreCase_symm htxid) h

/-! ## Programs that do not broadcast the parent -/

section Silent

omit [Hasher]

lemma silent_onPath {what : String} {path : Path} (x : Except String α) :
    Silent pending (onPath journal what path x) := asks_lift _

lemma silent_markerPresent {path : Path} {txid : List Char} :
    Silent pending (markerPresent journal path txid) := by
  rw [markerPresent]
  refine Asks.query (by rintro _ ⟨⟩) fun a => (silent_onPath a).bind fun marker => ?_
  cases marker with
  | none => trivial
  | some marker =>
    show Silent pending (if _ then _ else _)
    split <;> trivial

lemma silent_removePresent {what : String} {path : Path} :
    Silent pending (removePresent journal what path) := by
  rw [removePresent]
  refine Asks.query (by rintro _ ⟨⟩) fun present => ?_
  split
  · rw [removeFile]
    refine Asks.query (by rintro _ ⟨⟩) fun a => (silent_onPath a).bind fun removed => ?_
    split <;> trivial
  · trivial

lemma silent_orRemove {what : String} {shown temporary : Path} (x : Except String Unit) :
    Silent pending (orRemove journal what shown temporary x) := by
  cases x with
  | ok _ => trivial
  | error e =>
    rw [orRemove]
    exact Asks.query (by rintro _ ⟨⟩) fun _ => trivial

lemma silent_persistMarker {path : Path} {txid : List Char} :
    Silent pending (persistMarker journal path txid) := by
  have hsync : Silent pending (syncCommitted journal path) := by
    rw [syncCommitted]
    exact Asks.query (by rintro _ ⟨⟩) fun a => silent_onPath a
  have hmake : ∀ what, Silent pending (makeDirectory journal what) := by
    intro what
    rw [makeDirectory]
    exact Asks.query (by rintro _ ⟨⟩) fun a => asks_lift _
  have hwrite : ∀ stem noun content, Silent pending (writeTemporary journal stem noun path content) := by
    intro stem noun content
    rw [writeTemporary]
    exact silent_removePresent.bind fun _ => Asks.query (by rintro _ ⟨⟩) fun a => (silent_onPath a).bind fun _ =>
      Asks.query (by rintro _ ⟨⟩) fun a => silent_orRemove a
  have hcommit : ∀ noun, Silent pending (commitTemporary journal noun path) := by
    intro noun
    rw [commitTemporary]
    exact Asks.query (by rintro _ ⟨⟩) fun a => silent_orRemove a
  refine (hmake _).bind fun _ => silent_markerPresent.bind fun present => ?_
  split
  · exact hsync
  · exact (hwrite _ _ _).bind fun _ => (hcommit _).bind fun _ => hsync

lemma silent_markParentAccepted : Silent pending (pending.markParentAccepted journal) :=
  silent_persistMarker.bind fun _ => silent_persistMarker

lemma silent_fetchLiveJob : Silent pending fetchLiveJob := by
  rw [fetchLiveJob]
  exact Asks.query (by rintro _ ⟨⟩) fun _ => asks_lift _

lemma silent_preflight {label : String} {txid rawHex : List Char} :
    Silent pending (preflightPendingTransaction cfg label txid rawHex) := by
  unfold preflightPendingTransaction
  split
  · trivial
  · exact (asks_lift _).bind fun hex => Asks.query (by rintro _ ⟨⟩) fun a => (asks_lift _).bind fun _ =>
      asks_lift _

/-- Another transaction's broadcast. -/
lemma silent_broadcast {rawHex : List Char} (hcheck : checkRawHex rawHex = .ok rawHex)
    (hne : rawHex ≠ pending.parentHex) : Silent pending (broadcastPendingTransaction cfg rawHex) := by
  have hraw : ∀ via, Silent pending (broadcastRaw via rawHex) := by
    intro via
    rw [broadcastRaw, hcheck]
    refine Asks.query (fun via' h => hne ?_) fun _ => asks_lift _
    cases h
    rfl
  have hor : ∀ first second firstFailed secondFailed,
      Silent pending (broadcastOr first second firstFailed secondFailed rawHex) := by
    intro first second _ _
    refine (hraw first).attempt.bind fun a => ?_
    cases a with
    | ok _ => trivial
    | error e =>
      refine (hraw second).attempt.bind fun a => ?_
      cases a <;> trivial
  unfold broadcastPendingTransaction
  split
  · exact hor _ _ _ _
  · exact hor _ _ _ _
  · exact hraw .fulcrum

end Silent

lemma silent_resultingBaton {fresh : LiveJob} :
    Silent pending (resultingBatonIsAuthoritativeOrDescendant pending fresh) := by
  have hwalk : ∀ ancestor vout boundaries exceeded steps cursor,
      Silent pending (walkLineage ancestor vout boundaries exceeded steps cursor) := by
    intro ancestor vout boundaries exceeded steps
    induction steps with
    | zero => exact fun _ => trivial
    | succ steps ih =>
      intro cursor
      have hfetch : Silent pending (fetchRaw cursor) := by
        rw [fetchRaw]
        refine Asks.query (by rintro _ ⟨⟩) fun a => ?_
        cases a with
        | error e => trivial
        | ok value => cases value <;> trivial
      refine hfetch.bind fun raw => (asks_lift _).bind fun previous => ?_
      show Silent pending (if _ then _ else _)
      split_ifs
      · trivial
      · trivial
      · trivial
      · trivial
      · exact ih _
  unfold resultingBatonIsAuthoritativeOrDescendant proveBatonDescendsFrom
  split_ifs
  · trivial
  · trivial
  · trivial
  · exact hwalk _ _ _ _ _ _

lemma silent_resolvePostBroadcastBaton {fresh : LiveJob} {waiting unproven : String} :
    Silent pending (resolvePostBroadcastBaton pending fresh waiting unproven) := by
  unfold resolvePostBroadcastBaton
  split_ifs
  · trivial
  · trivial
  · refine silent_resultingBaton.bind fun proven => ?_
    split <;> trivial

/-- A settlement's broadcast sends the parent only if it is the same transaction. -/
lemma smoothly_broadcastSettlement {raw : Bytes} (hid : HasId pending.parentTxid pending.parentHex raw)
    {raw' : Bytes} (hid' : HasId pending.settlementTxid pending.settlementHex raw')
    (hsent : ¬ Sent pending w.heard) :
    Smoothly pending (broadcastSettlement cfg pending)
      (fun _ w' => Sent pending w'.heard ↔ pending.settlementHex = pending.parentHex) w := by
  by_cases heq : pending.settlementHex = pending.parentHex
  · rw [broadcastSettlement]
    refine wp.seq (smoothly_preflight hid') trivial (fun _ w' _ _ => ?_) fun e w' _ h => h.elim
    have hbroadcast : Smoothly pending (broadcastPendingTransaction cfg pending.settlementHex)
        (fun _ w' => Sent pending w'.heard) w' := by
      rw [heq]
      exact smoothly_broadcast hid
    exact (smoothly_bind_sent hbroadcast).mono fun _ w' h => iff_of_true h heq
  · have hsilent : Silent pending (broadcastSettlement cfg pending) :=
      silent_preflight.bind fun _ => (silent_broadcast hid'.checkRawHex heq).bind fun returned =>
        (asks_lift _).bind fun _ => silent_fetchLiveJob.bind fun fresh =>
          silent_resolvePostBroadcastBaton
    exact (smoothly_of_silent hsilent hsent).mono fun _ w' h => iff_of_false h heq

/-- A silent program that succeeds, and what follows it. -/
lemma Silent.seq {p : Task α} {f : α → Task β} (hp : Silent pending p) {q : α → World → Prop}
    (hq : Smoothly pending p (upon q (fun _ => False)) w) (h : ¬ Sent pending w.heard)
    {post : Except String β → World → Prop}
    (hf : ∀ a w', q a w' → ¬ Sent pending w'.heard → Smoothly pending (f a) post w') :
    Smoothly pending (p >>= f) post w := by
  have hboth := (hq.and (smoothly_of_silent hp h)).weaken fun _ _ => trivial
  rw [Smoothly, Holds, wp_bind]
  refine hboth.mono fun x w' hx => ?_
  cases x with
  | ok a => exact hf a w' hx.1 hx.2
  | error e => exact hx.1.elim

/-! ## The two paths -/

omit [Hasher] in
lemma silent_transactionKnown {txid : List Char} : Silent pending (transactionKnown txid) := by
  unfold transactionKnown
  split
  · trivial
  · exact Asks.query (by rintro _ ⟨⟩) fun _ => asks_lift _

omit [Hasher] in
lemma silent_claimLags {claim : Option ClaimContext} {fresh : LiveJob} :
    Silent pending (claimLags claim fresh) := by
  cases claim with
  | none => trivial
  | some context => exact Asks.query (by rintro _ ⟨⟩) fun _ => trivial

/-- A direct claim leaves its baton on its own transaction. -/
lemma PendingSubmission.resulting_of_direct (h : pending.validate = .ok ())
    (hdirect : pending.isDirect = true) (live : LiveJob) :
    pending.resultingBatonIsAuthoritative live = pending.parentBatonIsLive live := by
  rw [validate, Except.ite_error_eq_ok, Except.ite_error_eq_ok, Except.ite_error_eq_ok,
    Except.ite_error_eq_ok, Except.ite_error_eq_ok, Except.ite_error_eq_ok] at h
  obtain ⟨-, -, -, -, hvout, -, h⟩ := h
  rw [Except.bind_eq_ok] at h
  obtain ⟨_, hversion, -⟩ := h
  have hfive : pending.version = directSubmissionJournalVersion := by
    rw [isDirect, Bool.and_eq_true, Bool.and_eq_true, beq_iff_eq] at hdirect
    exact hdirect.1.1
  rw [checkVersion, if_pos hfive, Except.ite_error_eq_ok] at hversion
  have htxid : pending.resultingBatonTxid = pending.parentTxid := by
    by_contra hne
    exact hversion.1 (.inr (.inr (.inl hne)))
  rw [resultingBatonIsAuthoritative, parentBatonIsLive, htxid, not_not.mp hvout]

/-- What a direct claim does once its state is looked up. -/
lemma smoothly_checkParentOnly (hvalid : pending.validate = .ok ()) (hdirect : pending.isDirect = true)
    (hnamed : Named w.disk .attempted pending.parentTxid) (hsent : ¬ Sent pending w.heard)
    {claim : Option ClaimContext} {broadcastError : Option String} :
    Smoothly pending (checkParentOnly cfg pending journal claim broadcastError)
      (fun _ w' => Sent pending w'.heard ↔ w.disk .attempted = none ∧ ¬ pending.SpendsItself) w := by
  obtain ⟨⟨raw, hid⟩, -⟩ := pending.transactions_of_validate hvalid
  unfold checkParentOnly
  refine silent_transactionKnown.seq (smoothly_transactionKnown hid.isTxid) hsent
    fun known w₁ h₁ hsent₁ => ?_
  obtain ⟨hd₁, hknown, -⟩ := h₁
  obtain rfl := hknown rfl
  refine silent_fetchLiveJob.seq smoothly_fetchLiveJob hsent₁ fun fresh w₂ h₂ hsent₂ => ?_
  obtain ⟨hd₂, hcurrent, -⟩ := h₂
  refine silent_claimLags.seq smoothly_claimLags hsent₂ fun lags w₃ hd₃ hsent₃ => ?_
  have hd : w₃.disk = w.disk := hd₃.trans (hd₂.trans hd₁)
  rw [Bool.false_or, pending.resulting_of_direct hvalid hdirect]
  cases hself : pending.parentBatonIsLive fresh with
  | true =>
    -- the claim would be its own baton, and nothing is sent
    have hspends := (PendingSubmission.parentBatonIsLive_iff hcurrent).mp hself
    rw [if_pos rfl]
    refine (smoothly_of_silent ?_ hsent₃).mono fun _ w' h => iff_of_false h fun h => h.2 hspends
    refine silent_markParentAccepted.bind fun _ => ?_
    rw [hcurrent, Bool.true_or, if_pos rfl]
    split
    · exact (asks_lift _).bind fun _ => trivial
    · trivial
  | false =>
    have hspends : ¬ pending.SpendsItself := fun h => by
      rw [(PendingSubmission.parentBatonIsLive_iff hcurrent).mpr h] at hself
      cases hself
    rw [if_neg Bool.false_ne_true]
    have hnamed₃ : Named w₃.disk .attempted pending.parentTxid := by rw [hd]; exact hnamed
    refine silent_markerPresent.seq (smoothly_markerPresent hnamed₃) hsent₃
      fun attempted w₄ h₄ hsent₄ => ?_
    obtain ⟨hd₄, rfl⟩ := h₄
    rw [hd]
    cases hattempted : w.disk .attempted with
    | some marker =>
      rw [Option.isSome_some, if_pos rfl, hcurrent]
      have hnot : ¬ (some marker = none ∧ ¬ pending.SpendsItself) := fun h => Option.some_ne_none _ h.1
      rw [Bool.not_true, Bool.and_false, Bool.false_and, if_neg Bool.false_ne_true]
      exact iff_of_false hsent₄ hnot
    | none =>
      rw [Option.isSome_none, if_neg Bool.false_ne_true, hcurrent, Bool.not_true, Bool.false_and, if_neg Bool.false_ne_true]
      have hnamed₄ : Named w₄.disk .attempted pending.parentTxid := by rw [hd₄, hd]; exact hnamed
      refine wp.seq (smoothly_preflightAndMark hid hnamed₄) trivial (fun _ w₅ _ _ => ?_)
        fun e w₅ _ h => h.elim
      exact (smoothly_broadcastParent hid).mono fun _ w' h => iff_of_true h ⟨rfl, hspends⟩

/-- A direct claim is sent when no attempt is noted; then a claim of the running search is sent in
any case. -/
lemma smoothly_direct (hvalid : pending.validate = .ok ()) (hdirect : pending.isDirect = true)
    (hnamed : Named w.disk .attempted pending.parentTxid) (hsent : ¬ Sent pending w.heard)
    {claim : Option ClaimContext} :
    Smoothly pending (attemptParentOnlySubmission cfg pending journal claim)
      (fun _ w' => Sent pending w'.heard ↔
        w.disk .attempted = none ∧ (claim.isSome = true ∨ ¬ pending.SpendsItself)) w := by
  obtain ⟨⟨raw, hid⟩, -⟩ := pending.transactions_of_validate hvalid
  unfold attemptParentOnlySubmission
  rw [if_neg (by rw [hdirect]; rintro ⟨⟩)]
  cases claim with
  | none =>
    refine (smoothly_checkParentOnly hvalid hdirect hnamed hsent).mono fun _ w' h => h.trans ?_
    simp
  | some context =>
    refine silent_markerPresent.seq (smoothly_markerPresent hnamed) hsent
      fun attempted w₁ h₁ hsent₁ => ?_
    obtain ⟨hd₁, rfl⟩ := h₁
    have hnamed₁ : Named w₁.disk .attempted pending.parentTxid := by rw [hd₁]; exact hnamed
    cases hattempted : w.disk .attempted with
    | some marker =>
      rw [Option.isSome_some, if_pos rfl]
      refine (smoothly_checkParentOnly hvalid hdirect hnamed₁ hsent₁).mono fun _ w' h => h.trans ?_
      rw [hd₁, hattempted]
      simp
    | none =>
      rw [Option.isSome_none, if_neg Bool.false_ne_true]
      have hfirst : Smoothly pending (broadcastFirst cfg pending journal context)
          (fun _ w' => Sent pending w'.heard) w₁ := by
        rw [broadcastFirst]
        refine wp.seq (smoothly_preflightAndMark hid hnamed₁) trivial (fun _ w₂ _ _ => ?_)
          fun e w₂ _ h => h.elim
        split
        · refine wp_query_bind.mpr fun a w₃ _ => ⟨trivial, ?_⟩
          exact smoothly_bind_sent (wp_attempt.mpr (smoothly_broadcast hid))
        · refine wp_ok_bind.mpr ?_
          exact smoothly_bind_sent (wp_attempt.mpr (smoothly_broadcast hid))
      exact (smoothly_bind_sent hfirst).mono fun _ w' h => iff_of_true h ⟨rfl, .inl rfl⟩

/-- What a legacy claim does once its state is looked up. -/
lemma smoothly_attemptLegacyParent {raw raw' : Bytes}
    (hid : HasId pending.parentTxid pending.parentHex raw)
    (hid' : HasId pending.settlementTxid pending.settlementHex raw')
    (hnamed : Named w.disk .attempted pending.parentTxid)
    (hunaccepted : w.disk .accepted = none) (hsent : ¬ Sent pending w.heard) :
    Smoothly pending (attemptLegacyParent cfg pending journal)
      (fun _ w' => Sent pending w'.heard ↔
        (pending.SpendsItself → pending.settlementHex = pending.parentHex)) w := by
  unfold attemptLegacyParent
  refine silent_markerPresent.seq (smoothly_markerPresent hnamed) hsent
    fun attempted w₁ h₁ hsent₁ => ?_
  obtain ⟨hd₁, -⟩ := h₁
  refine silent_fetchLiveJob.seq smoothly_fetchLiveJob hsent₁ fun fresh w₂ h₂ hsent₂ => ?_
  obtain ⟨hd₂, hcurrent, -⟩ := h₂
  have hd : w₂.disk = w.disk := hd₂.trans hd₁
  -- if the parent's own output is live it was accepted, and only the settlement is sent
  cases hself : pending.parentBatonIsLive fresh with
  | true =>
    have hspends := (PendingSubmission.parentBatonIsLive_iff hcurrent).mp hself
    rw [if_pos rfl]
    have hnamed₂ : Named w₂.disk .attempted pending.parentTxid := by rw [hd]; exact hnamed
    have haccept : Smoothly pending (pending.markParentAccepted journal)
        (upon (fun _ _ => True) (fun _ => False)) w₂ := by
      rw [PendingSubmission.markParentAccepted]
      refine wp.seq (smoothly_mark rfl hid.isTxid hnamed₂) trivial (fun _ w₃ _ h₃ => ?_)
        fun e w₃ _ h => h
      have hnamed₃ : Named w₃.disk .accepted pending.parentTxid := by
        intro marker hmarker
        rw [h₃ .accepted rfl (by rintro ⟨⟩), hd, hunaccepted] at hmarker
        cases hmarker
      refine (smoothly_mark rfl hid.isTxid hnamed₃).mono fun x w₄ hx => ?_
      cases x with
      | ok _ => exact trivial
      | error e => exact hx
    refine silent_markParentAccepted.seq haccept hsent₂ fun _ w₃ _ hsent₃ => ?_
    refine (smoothly_broadcastSettlement hid hid' hsent₃).mono fun _ w' h => h.trans ?_
    exact ⟨fun h _ => h, fun h => h hspends⟩
  | false =>
    have hspends : ¬ pending.SpendsItself := fun h => by
      rw [(PendingSubmission.parentBatonIsLive_iff hcurrent).mpr h] at hself
      cases hself
    rw [if_neg Bool.false_ne_true, hcurrent]
    have hnamed₂ : Named w₂.disk .attempted pending.parentTxid := by rw [hd]; exact hnamed
    -- otherwise the parent goes first, and then the settlement
    have hrest : ∀ w₃, Smoothly pending
        (broadcastParent cfg pending journal >>= fun _ => broadcastSettlement cfg pending)
        (fun _ w' => Sent pending w'.heard ↔
          (pending.SpendsItself → pending.settlementHex = pending.parentHex)) w₃ := fun w₃ =>
      (smoothly_broadcastParent hid).mono fun _ w' h => iff_of_true h fun h' => absurd h' hspends
    cases attempted with
    | true => exact hrest w₂
    | false =>
      exact wp.seq (smoothly_preflightAndMark hid hnamed₂) trivial (fun _ w₃ _ _ => hrest w₃)
        fun e w₃ _ h => h.elim

/-- A legacy claim is sent unless the server knows its settlement. -/
lemma smoothly_legacy (hvalid : pending.validate = .ok ())
    (hnamed : Named w.disk .attempted pending.parentTxid)
    (hunaccepted : w.disk .accepted = none) (hheard : w.heard = []) :
    Smoothly pending (attemptLegacySubmission cfg pending journal)
      (fun _ w' => Sent pending w'.heard ↔ ¬ SettlementKnown pending w'.heard ∧
        (pending.SpendsItself → pending.settlementHex = pending.parentHex)) w := by
  obtain ⟨⟨raw, hid⟩, raw', hid'⟩ := pending.transactions_of_validate hvalid
  have hsent : ¬ Sent pending w.heard := by
    rw [hheard]
    rintro ⟨via, a, hmem⟩
    cases hmem
  unfold attemptLegacySubmission
  refine silent_transactionKnown.seq (smoothly_transactionKnown hid'.isTxid) hsent
    fun known w₁ h₁ hsent₁ => ?_
  obtain ⟨hd₁, -, a, hknown, hheard₁⟩ := h₁
  rw [hheard, List.nil_append] at hheard₁
  -- the first answer stays the first
  have hfirst : ∀ {p : Task SubmissionAttempt} {r : World → Prop},
      Smoothly pending p (fun _ w' => r w') w₁ → Smoothly pending p (fun _ w' => r w' ∧
        (SettlementKnown pending w'.heard ↔ known = true)) w₁ := by
    intro p r hp
    refine ((hp.and (holds_heard (Smooth pending) p w₁)).weaken fun _ _ => trivial).mono ?_
    rintro x w' ⟨hx, hpre⟩
    refine ⟨hx, ?_⟩
    obtain ⟨rest, hrest⟩ := hpre
    rw [hheard₁] at hrest
    rw [SettlementKnown, ← hrest]
    constructor
    · rintro ⟨b, hb, hbknown⟩
      obtain rfl : a = b := by
        have hpair := Option.some.inj hb
        cases hpair
        rfl
      rw [hknown] at hbknown
      exact Except.ok.inj hbknown
    · rintro rfl
      exact ⟨a, rfl, hknown⟩
  cases known with
  | true =>
    rw [if_pos rfl]
    refine (hfirst (smoothly_of_silent ?_ hsent₁)).mono
      fun _ w' h => iff_of_false h.1 fun h' => h'.1 (h.2.mpr rfl)
    refine silent_fetchLiveJob.bind fun fresh => ?_
    split
    · trivial
    · refine silent_resultingBaton.bind fun proven => ?_
      split <;> trivial
  | false =>
    rw [if_neg Bool.false_ne_true]
    refine (hfirst (r := fun w' => Sent pending w'.heard ↔
      (pending.SpendsItself → pending.settlementHex = pending.parentHex)) ?_).mono fun _ w' h =>
      h.1.trans ⟨fun hsends => ⟨fun hknown => absurd (h.2.mp hknown) Bool.false_ne_true, hsends⟩, And.right⟩
    have hunnamed : Named w₁.disk .accepted pending.parentTxid := by
      intro marker hmarker
      rw [hd₁, hunaccepted] at hmarker
      cases hmarker
    refine silent_markerPresent.seq (smoothly_markerPresent hunnamed) hsent₁
      fun accepted w₂ h₂ hsent₂ => ?_
    obtain ⟨hd₂, rfl⟩ := h₂
    rw [hd₁, hunaccepted, Option.isSome_none, if_neg Bool.false_ne_true]
    refine silent_transactionKnown.seq (smoothly_transactionKnown hid.isTxid) hsent₂
      fun known w₃ h₃ hsent₃ => ?_
    obtain ⟨hd₃, hparent, -⟩ := h₃
    obtain rfl := hparent rfl
    rw [if_neg Bool.false_ne_true]
    have hd : w₃.disk = w.disk := hd₃.trans (hd₂.trans hd₁)
    have hnamed₃ : Named w₃.disk .attempted pending.parentTxid := by rw [hd]; exact hnamed
    exact smoothly_attemptLegacyParent hid hid' hnamed₃ (by rw [hd]; exact hunaccepted) hsent₃

/-- In a call in which nothing fails and the server still reports the claim's baton, an unaccepted
direct claim's parent is sent exactly when no attempt was noted before, and a legacy claim's always,
unless the server knows its settlement.  (A claim that spends its own output is told apart, since no
hash is assumed to be without fixed points.) -/
theorem claim_resent_iff {claim : Option ClaimContext} {x : Except String SubmissionAttempt}
    (hvalid : pending.validate = .ok ()) (hnetwork : pending.requireNetwork cfg.network = .ok ())
    (hnamed : Named w.disk .attempted pending.parentTxid) (hunaccepted : w.disk .accepted = none)
    (hlog : w.log = [])
    (hrun : Runs World.Answers (attemptPendingSubmission cfg pending journal claim) w (some x) w')
    (hsmooth : ∀ q a, (⟨q, a⟩ : (q : Op) × Answer q) ∈ w'.heard → Smooth pending q a) :
    Sent pending w'.heard ↔
      (pending.isDirect = true →
        w.disk .attempted = none ∧ (claim.isSome = true ∨ ¬ pending.SpendsItself)) ∧
      (pending.isDirect = false → ¬ SettlementKnown pending w'.heard ∧
        (pending.SpendsItself → pending.settlementHex = pending.parentHex)) := by
  have hheard : w.heard = [] := by rw [World.heard, hlog]; rfl
  have hsent : ¬ Sent pending w.heard := by
    rw [hheard]
    rintro ⟨via, a, hmem⟩
    cases hmem
  obtain ⟨hruns, -⟩ := runs_of_kind hrun hsmooth
  rw [attemptPendingSubmission, hvalid, hnetwork] at hruns
  cases hdirect : pending.isDirect with
  | true =>
    have hwp : Smoothly pending (attemptParentOnlySubmission cfg pending journal claim) _ w :=
      smoothly_direct hvalid hdirect hnamed hsent
    rw [hdirect] at hruns
    rw [(hwp.sound trivial hruns).2 x rfl]
    simp
  | false =>
    have hwp : Smoothly pending (attemptLegacySubmission cfg pending journal) _ w :=
      smoothly_legacy hvalid hnamed hunaccepted hheard
    rw [hdirect] at hruns
    rw [(hwp.sound trivial hruns).2 x rfl]
    simp

end Smooth

/-! ## The claim that waits -/

/-- An operation without the relay. -/
lemma World.answers_doing (w : World) {q : Op} {a : Answer q} {d : Disk} (h : Acts w.disk q a d) :
    w.Answers q a (w.doing q a d) := by
  refine ⟨[], d, fun _ hmem => absurd hmem List.not_mem_nil, h, ?_⟩
  rw [relaying, List.map_nil, List.append_nil]

/-- Files that never fail, and a server that reports one job and accepts one parent. -/
def calm (live : LiveJob) (txid : List Char) (d : Disk) : (q : Op) → Answer q × Disk
  | .present path => ((d path).isSome, d)
  | .read path => (.ok (d path), d)
  | .create path => if d path = none then (.ok (), d.set path (some [])) else (.error "exists", d)
  | .write path content => (.ok (), d.set path (some content))
  | .rename source target =>
    if (d source).isSome then (.ok (), (d.set source none).set target (d source))
    else (.error "not found", d)
  | .remove path => (.ok (d path).isSome, d.set path none)
  | .sync _ => (.ok (), d)
  | .makeDirectory => (.ok (), d)
  | .getTransaction _ => (.ok .null, d)
  | .fetchLiveJob => (.ok live, d)
  | .testMempoolAccept _ => (.error "no node", d)
  | .broadcast _ _ => (.ok txid, d)
  | .relay _ => ((), d)
  | .now => (0, d)

lemma acts_calm (live : LiveJob) (txid : List Char) (d : Disk) (q : Op) :
    Acts d q (calm live txid d q).1 (calm live txid d q).2 := by
  cases q with
  | create path =>
    rw [calm]
    split_ifs with h
    · exact .inr ⟨rfl, h, rfl⟩
    · exact .inl ⟨_, rfl, rfl⟩
  | rename source target =>
    rw [calm]
    split_ifs with h
    · exact .inr ⟨rfl, h, rfl⟩
    · exact .inl ⟨_, rfl, rfl⟩
  | read path => exact ⟨rfl, .inr rfl⟩
  | present path => exact ⟨rfl, rfl⟩
  | write path content => exact .inr ⟨rfl, rfl⟩
  | remove path => exact .inr ⟨rfl, rfl⟩
  | _ => rfl

def calmWorld (live : LiveJob) (txid : List Char) (w : World) (q : Op) : Answer q × World :=
  ((calm live txid w.disk q).1,
    w.doing q (calm live txid w.disk q).1 (calm live txid w.disk q).2)

section Calm

variable {live : LiveJob} {txid : List Char}

lemma runs_calm {α : Type} (p : Task α) (w : World) :
    Runs World.Answers p w (some (play (calmWorld live txid) p w).1)
      (play (calmWorld live txid) p w).2 :=
  runs_play (fun w q => w.answers_doing (acts_calm live txid w.disk q)) p w

lemma runs_calm_of_eq {α : Type} {p : Task α} {x : Except String α} {w : World}
    (h : (play (calmWorld live txid) p w).1 = x) :
    Runs World.Answers p w (some x) (play (calmWorld live txid) p w).2 :=
  h ▸ runs_calm p w

end Calm

/-- After a restart, a direct claim that was once attempted waits, whatever else may happen. -/
lemma attempted_claim_waits [Hasher] {pending : PendingSubmission} {cfg : RuntimeConfig}
    {live : LiveJob} {marker : List Char} (journal : String) (w : World)
    (hvalid : pending.validate = .ok ()) (hnetwork : pending.requireNetwork cfg.network = .ok ())
    (hdirect : pending.isDirect = true) (hcurrent : pending.expectedBatonIsCurrent live = true)
    (hspends : pending.parentBatonIsLive live = false) (hmarker : w.disk .attempted = some marker)
    (hnamed : Text.eqIgnoreCase (Text.trim marker) pending.parentTxid = true) :
    ∃ w', Runs World.Answers (attemptPendingSubmission cfg pending journal none) w
        (some (.error "PHOTON parent broadcast was attempted; awaiting authoritative acceptance")) w' ∧
      w'.heard = w.heard ++ [⟨.getTransaction pending.parentTxid, .ok .null⟩, ⟨.fetchLiveJob, .ok live⟩,
        ⟨.read .attempted, .ok (some marker)⟩] := by
  obtain ⟨⟨raw, hid⟩, -⟩ := pending.transactions_of_validate hvalid
  let w₁ := w.doing (.getTransaction pending.parentTxid) (.ok .null) w.disk
  let w₂ := w₁.doing .fetchLiveJob (.ok live) w.disk
  let w₃ := w₂.doing (.read .attempted) (.ok (some marker)) w.disk
  refine ⟨w₃, ?_, ?_⟩
  · rw [attemptPendingSubmission, hvalid, hnetwork, hdirect]
    show Runs World.Answers (attemptParentOnlySubmission cfg pending journal none) w _ w₃
    rw [attemptParentOnlySubmission, if_neg (by rw [hdirect]; rintro ⟨⟩)]
    have hknown : Runs World.Answers (transactionKnown pending.parentTxid) w (some (.ok false)) w₁ := by
      rw [transactionKnown, if_neg (not_not.mpr hid.isTxid)]
      exact .query (a := .ok .null) (w.answers_doing rfl) (.ok _ _)
    have hfetch : Runs World.Answers fetchLiveJob w₁ (some (.ok live)) w₂ := by
      rw [fetchLiveJob]
      exact .query (a := .ok live) (w₁.answers_doing rfl) (.ok _ _)
    have hread : Runs World.Answers (pending.parentAttempted journal) w₂ (some (.ok true)) w₃ := by
      rw [PendingSubmission.parentAttempted, markerPresent]
      refine .query (w₂.answers_doing ⟨rfl, .inr (congrArg Except.ok hmarker.symm)⟩) ?_
      show Runs World.Answers (if Text.eqIgnoreCase (Text.trim marker) pending.parentTxid then
        Program.ok true else .error _) w₃ _ w₃
      rw [hnamed, if_pos rfl]
      exact .ok _ _
    unfold checkParentOnly
    refine hknown.bind (hfetch.bind (Runs.bind (.ok false w₂) ?_))
    rw [pending.resulting_of_direct hvalid hdirect, hspends, Bool.or_false, if_neg Bool.false_ne_true]
    refine hread.bind ?_
    rw [if_pos rfl, hcurrent, Bool.not_true, Bool.and_false, Bool.false_and, if_neg Bool.false_ne_true]
    exact .error _ _
  · rw [World.heard_doing, World.heard_doing, World.heard_doing]
    simp only [List.append_assoc, List.cons_append, List.nil_append]

/-- A small claim on Chipnet. -/
def sampleParent : Bytes :=
  let category := (Text.hexDecode PhotonDeployment.chipnet.categoryHex.toList).getD []
  let lock := (Text.hexDecode covenantLockingBytecodeHex.toList).getD []
  let baton := 0xef :: category.reverse ++ [0x71, 36] ++ List.replicate 36 0 ++
    0xfe :: leBytes 4 1000000 ++ lock
  let reward := 0xef :: category.reverse ++ [0x10, 1, 0x76, 0xa9, 0x14] ++ List.replicate 20 0 ++
    [0x88, 0xac]
  leBytes 4 2 ++ 1 :: List.replicate 32 0x11 ++ leBytes 4 0 ++ 0 :: leBytes 4 0 ++
    2 :: leBytes 8 1000 ++ compactUint baton.length ++ baton ++
    leBytes 8 700 ++ compactUint reward.length ++ reward ++ leBytes 4 0

/-- The journal of `sampleParent`. -/
def samplePending [Hasher] : PendingSubmission where
  version := 5
  network := some "chipnet"
  mode := some "direct_miner"
  fundingOutpoint := none
  generationId := 1
  expectedHeight := 1
  expectedBatonTxid := Text.hexEncode (List.replicate 32 0x11)
  expectedBatonVout := 0
  parentTxid := transactionId sampleParent
  parentHex := Text.hexEncode sampleParent
  settlementTxid := transactionId sampleParent
  settlementHex := Text.hexEncode sampleParent
  resultingBatonTxid := transactionId sampleParent
  resultingBatonVout := 0
  resultingBatonValueSats := 1000
  minerTokenAmount := 1
  donationTokenAmount := 0

/-- The baton that `samplePending` spends, as a server reports it. -/
def sampleLive : LiveJob where
  url := "sample"
  serverVersion := "1"
  height := 1
  tipHash := []
  batonTxid := Text.hexEncode (List.replicate 32 0x11)
  batonVout := 0
  batonHeight := 0
  batonValueSats := 1000
  relayFeeSatsPerKb := 1000
  commitmentHex := []
  tokenAmount := 1
  age := 0
  targetLeHex := []
  rewardRaw := 1

/-- The sample's attempt is noted; an attempt does not read the journal again. -/
def sampleWorld [Hasher] : World where
  disk := fun path => if path = .attempted then some (samplePending.parentTxid ++ ['\n']) else none
  handed := []
  log := []

/-- No attempt is noted. -/
def sampleFresh : World := ⟨fun _ => none, [], []⟩

def sampleConfig : RuntimeConfig := ⟨.chipnet, none, [], .fulcrum⟩

section Sample

/-- The facts about the sample that its run rests on. -/
lemma sample_facts :
    let _ : Hasher := Hasher.fips
    samplePending.validate = .ok () ∧ samplePending.requireNetwork sampleConfig.network = .ok () ∧
      samplePending.isDirect = true ∧ samplePending.expectedBatonIsCurrent sampleLive = true ∧
      samplePending.parentBatonIsLive sampleLive = false ∧
      Text.eqIgnoreCase (Text.trim (samplePending.parentTxid ++ ['\n'])) samplePending.parentTxid =
        true := by
  rw [Hasher.fips_eq]
  decide +kernel

lemma named_sampleWorld [Hasher] (h : Text.eqIgnoreCase (Text.trim (samplePending.parentTxid ++ ['\n']))
    samplePending.parentTxid = true) :
    Named sampleWorld.disk .attempted samplePending.parentTxid := by
  intro marker hmarker
  have heq : samplePending.parentTxid ++ ['\n'] = marker := Option.some.inj hmarker
  rw [← heq]
  exact h

/-- The sample's call after a restart: the server does not know the parent and reports its baton. -/
lemma sample_run :
    let _ : Hasher := Hasher.fips
    ∃ x w', Runs World.Answers (attemptPendingSubmission sampleConfig samplePending "journal" none)
        sampleWorld (some x) w' ∧
      (∀ q a, (⟨q, a⟩ : (q : Op) × Answer q) ∈ w'.heard → Smooth samplePending q a) ∧
      ¬ Sent samplePending w'.heard := by
  intro _
  obtain ⟨hvalid, hnetwork, hdirect, hcurrent, hspends, hnamed⟩ := sample_facts
  obtain ⟨w', hrun, hheard⟩ := attempted_claim_waits "journal" sampleWorld hvalid hnetwork
    hdirect hcurrent hspends rfl hnamed
  refine ⟨_, w', hrun, ?_, ?_⟩
  · intro q a hmem
    rw [hheard] at hmem
    simp only [sampleWorld, World.heard, List.filterMap_nil, List.nil_append, List.mem_cons,
      List.not_mem_nil, or_false] at hmem
    rcases hmem with hmem | hmem | hmem
    · cases hmem
      exact ⟨false, rfl, fun _ => rfl⟩
    · cases hmem
      exact ⟨sampleLive, rfl, hcurrent⟩
    · cases hmem
      rintro ⟨e, he⟩
      cases he
  · rintro ⟨via, a, hmem⟩
    rw [hheard] at hmem
    simp only [sampleWorld, World.heard, List.filterMap_nil, List.nil_append, List.mem_cons,
      List.not_mem_nil, or_false] at hmem
    rcases hmem with hmem | hmem | hmem <;> cases hmem

/-- In the same call where no attempt is noted nothing fails. -/
lemma sampleFresh_smooth :
    let _ : Hasher := Hasher.fips
    ∀ e ∈ (play (calmWorld sampleLive samplePending.parentTxid)
      (attemptPendingSubmission sampleConfig samplePending "journal" none) sampleFresh).2.heard,
      Smooth samplePending e.1 e.2 := by
  rw [Hasher.fips_eq]
  decide +kernel

/-- The sample's call with its attempt noted and without: it does not send the claim, and sends it. -/
theorem claim_resent_sample :
    let _ : Hasher := Hasher.fips
    (∃ x w', Runs World.Answers (attemptPendingSubmission sampleConfig samplePending "journal" none)
        sampleWorld (some x) w' ∧ ¬ Sent samplePending w'.heard) ∧
      ∃ x w', Runs World.Answers (attemptPendingSubmission sampleConfig samplePending "journal" none)
        sampleFresh (some x) w' ∧ Sent samplePending w'.heard := by
  intro _
  obtain ⟨hvalid, hnetwork, hdirect, hcurrent, hlive, hnamed⟩ := sample_facts
  obtain ⟨x, w', hrun, hsmooth, -⟩ := sample_run
  have hrun' := @runs_calm sampleLive samplePending.parentTxid _
    (attemptPendingSubmission sampleConfig samplePending "journal" none) sampleFresh
  have hsmooth' := sampleFresh_smooth
  have hmarker := named_sampleWorld hnamed
  have hmarker' : Named sampleFresh.disk .attempted samplePending.parentTxid := by
    rintro marker ⟨⟩
  have hspends : ¬ samplePending.SpendsItself := fun h => by
    rw [(PendingSubmission.parentBatonIsLive_iff hcurrent).mpr h] at hlive
    cases hlive
  refine ⟨⟨x, w', hrun, fun hsent => ?_⟩, _, _, hrun', ?_⟩
  · have hnone := ((claim_resent_iff hvalid hnetwork hmarker rfl rfl hrun hsmooth).mp hsent).1 hdirect
    cases hnone.1
  · refine (claim_resent_iff hvalid hnetwork hmarker' rfl rfl hrun'
      fun q a hmem => hsmooth' ⟨q, a⟩ hmem).mpr ⟨fun _ => ⟨rfl, .inr hspends⟩, fun hlegacy => ?_⟩
    cases hdirect.symm.trans hlegacy

/-- A claim that was attempted once, and lost on the way, is not sent again while its baton is
unspent, though the decision table says to broadcast it. -/
theorem attempted_claim_unsent :
    let _ : Hasher := Hasher.fips
    submissionDecision false true true = .broadcastParentThenSettlement ∧
      ¬ ∀ (pending : PendingSubmission) (cfg : RuntimeConfig) (journal : String)
        (claim : Option ClaimContext) (w w' : World) (x : Except String SubmissionAttempt),
        pending.validate = .ok () → pending.requireNetwork cfg.network = .ok () →
        Named w.disk .attempted pending.parentTxid → w.disk .accepted = none → w.log = [] →
        Runs World.Answers (attemptPendingSubmission cfg pending journal claim) w (some x) w' →
        (∀ q a, (⟨q, a⟩ : (q : Op) × Answer q) ∈ w'.heard → Smooth pending q a) →
        Sent pending w'.heard := by
  intro _
  refine ⟨rfl, fun hall => ?_⟩
  obtain ⟨hvalid, hnetwork, -, -, -, hnamed⟩ := sample_facts
  obtain ⟨x, w', hrun, hsmooth, hunsent⟩ := sample_run
  have hmarker := named_sampleWorld hnamed
  exact hunsent (hall _ _ _ _ _ w' x hvalid hnetwork hmarker rfl rfl hrun hsmooth)

end Sample

end Pickaxe.Photon
