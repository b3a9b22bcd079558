/-
# One attempt at a claim

What an attempt keeps while its claim is in hand, and what its outcome rests on: a claim is complete
by evidence, and a direct claim is stale in the light of one answer about its parent and the live
baton reported next.
-/
import Pickaxe.Photon.Ordering

namespace Pickaxe.Photon

open Lib Program

/-- What was heard from one state to a later one. -/
def World.since (w w' : World) : List ((q : Op) × Answer q) := w'.heard.drop w.heard.length

lemma World.infix_since {w₀ w w' : World} {l : List ((q : Op) × Answer q)}
    (hpre : w₀.heard <+: w.heard) (hl : w.heard ++ l <+: w'.heard) : l <:+: w₀.since w' := by
  obtain ⟨x, hx⟩ := hpre
  obtain ⟨y, hy⟩ := hl
  refine ⟨x, y, ?_⟩
  rw [since, ← hy, ← hx, List.append_assoc, List.append_assoc, List.append_assoc, List.drop_left]

/-- What a direct claim is called stale by: the server does not know the parent, and then reports
another baton, which the memory of recent spends, if there is one, does not list. -/
def Seen (claim : Option ClaimContext) (pending : PendingSubmission)
    (heard : List ((q : Op) × Answer q)) (fresh : LiveJob) : Prop :=
  pending.resultingBatonIsAuthoritative fresh = false ∧
    pending.expectedBatonIsCurrent fresh = false ∧
    ∃ a, knownAnswer a = .ok false ∧
      match claim with
      | none => [⟨.getTransaction pending.parentTxid, a⟩, ⟨.fetchLiveJob, .ok fresh⟩] <:+: heard
      | some context => ∃ now, context.unindexed.indexerLags fresh now = false ∧
        [⟨.getTransaction pending.parentTxid, a⟩, ⟨.fetchLiveJob, .ok fresh⟩, ⟨.now, now⟩] <:+: heard

/-- What the outcome of an attempt rests on. -/
def Verdict [Hasher] (w : World) (claim : Option ClaimContext) (pending : PendingSubmission) :
    Except String SubmissionAttempt → World → Prop
  | .ok (.complete _), w' => Evidence w'.heard pending
  | .ok (.staleUnbroadcast fresh), w' =>
    pending.isDirect = true → Seen claim pending (w.since w') fresh
  | _, _ => True

variable [Hasher] [Records] {ground : Ground} {old : Option (List Char)}
  {pending : PendingSubmission} {claim : Option ClaimContext} {w₀ w w' : World} {journal : String}
  {cfg : RuntimeConfig}

/-! ## Sending -/

/-- The claim's bytes are given away. -/
lemma Inv.sending (h : Inv ground old pending w) {q : Op} {a : Answer q} (hans : w.Answers q a w')
    (hsent : SentInOrder w.disk q) (hsame : ∀ d', Acts w.disk q a d' → d' = w.disk)
    (hpresent : ∀ path, q ≠ .present path) : Inv ground old pending w' ∧ w'.disk = w.disk := by
  have hdisk := hsame _ hans.acts
  refine ⟨⟨?_, h.2.answers hans hsent ?_ ?_ ?_⟩, hdisk⟩
  · rw [hdisk]
    exact h.1
  · exact fun path _ hq => absurd hq (hpresent path)
  · exact fun d' hd' => .inl (congrFun (hsame d' hd') _)
  · intro text htext
    rw [hdisk] at htext
    exact .inl htext

/-- What a broadcast says of its transaction, by a server's own words. -/
def Told (rawHex : List Char) (heard : List ((q : Op) × Answer q)) :
    Except String (List Char) → Prop
  | .ok txid => ∃ via, (⟨.broadcast via rawHex, .ok txid⟩ : (q : Op) × Answer q) ∈ heard
  | .error e => broadcastReportsKnown e = true →
    ∃ via e, (⟨.broadcast via rawHex, .error e⟩ : (q : Op) × Answer q) ∈ heard ∧
      broadcastReportsKnown e = true

/-- A broadcast leaves the files alone. -/
structure Broadcasted (rawHex : List Char) (w : World) (x : Except String (List Char))
    (w' : World) : Prop where
  disk : w'.disk = w.disk
  heard : w.heard <+: w'.heard
  told : Told rawHex w'.heard x

omit [Hasher] [Records] in
lemma Told.mono {rawHex : List Char} {heard heard' : List ((q : Op) × Answer q)}
    {x : Except String (List Char)} (h : Told rawHex heard x) (hsub : heard ⊆ heard') :
    Told rawHex heard' x := by
  cases x with
  | ok txid =>
    obtain ⟨via, hmem⟩ := h
    exact ⟨via, hsub hmem⟩
  | error error =>
    intro hknown
    obtain ⟨via, error, hmem, h⟩ := h hknown
    exact ⟨via, error, hsub hmem, h⟩

lemma always_broadcastRaw (hinv : Inv ground old pending w) {rawHex : List Char}
    (hraw : checkRawHex rawHex = .ok rawHex) (via : JobSource)
    (hsent : SentInOrder w.disk (.broadcast via rawHex)) :
    Always (Inv ground old pending) (broadcastRaw via rawHex) (Broadcasted rawHex w) w := by
  rw [broadcastRaw, hraw]
  intro a w' hans
  obtain ⟨hinv', hdisk⟩ := hinv.sending hans.1 hsent (fun _ h => h) (by rintro _ ⟨⟩)
  refine ⟨hinv', ?_⟩
  show Always _ (.lift a) _ w'
  refine wp_lift.mpr ⟨hdisk, hans.1.heard_grows, ?_⟩
  cases a with
  | ok txid => exact ⟨via, hans.1.mem_heard⟩
  | error error => exact fun hknown => ⟨via, error, hans.1.mem_heard, hknown⟩

lemma always_broadcastOr (hinv : Inv ground old pending w) {rawHex : List Char}
    (hraw : checkRawHex rawHex = .ok rawHex) {first second : JobSource}
    {firstFailed secondFailed : String} (hfirst : broadcastReportsKnown firstFailed = false)
    (hsecond : broadcastReportsKnown secondFailed = false)
    (hsent : ∀ via, SentInOrder w.disk (.broadcast via rawHex)) :
    Always (Inv ground old pending) (broadcastOr first second firstFailed secondFailed rawHex)
      (Broadcasted rawHex w) w := by
  unfold broadcastOr
  rw [Always, Holds, wp_bind, wp_attempt]
  refine (always_broadcastRaw hinv hraw first (hsent first)).mono_inv hinv fun x w₁ hinv₁ hx => ?_
  cases x with
  | ok txid => exact hx
  | error firstError =>
    show Always _ (Program.attempt _ >>= _) _ w₁
    rw [Always, Holds, wp_bind, wp_attempt]
    have hsent₁ : SentInOrder w₁.disk (.broadcast second rawHex) := by
      rw [hx.disk]
      exact hsent second
    refine (always_broadcastRaw hinv₁ hraw second hsent₁).mono fun y w₂ hy => ?_
    have hdisk := hy.disk.trans hx.disk
    have hheard := hx.heard.trans hy.heard
    cases y with
    | ok txid => exact ⟨hdisk, hheard, hy.told⟩
    | error secondError =>
      refine ⟨hdisk, hheard, fun hknown => ?_⟩
      rcases reportsKnown_or hfirst hsecond hknown with h | h
      · exact (hx.told.mono hy.heard.subset) h
      · exact hy.told h

lemma always_broadcast (hinv : Inv ground old pending w) {rawHex : List Char}
    (hraw : checkRawHex rawHex = .ok rawHex)
    (hsent : ∀ via, SentInOrder w.disk (.broadcast via rawHex)) :
    Always (Inv ground old pending) (broadcastPendingTransaction cfg rawHex) (Broadcasted rawHex w)
      w := by
  unfold broadcastPendingTransaction
  split
  · exact always_broadcastOr hinv hraw (by decide) (by decide) hsent
  · exact always_broadcastOr hinv hraw (by decide) (by decide) hsent
  · exact always_broadcastRaw hinv hraw _ (hsent _)

/-! ## Markers -/

/-- A marker of the claim comes into place. -/
lemma always_persistMarker (hinv : Inv ground old pending w) {path : Path} (hpath : path.IsMarker) :
    Always (Inv ground old pending) (persistMarker journal path pending.parentTxid)
      (upon (fun _ w' => Marked w'.disk path pending.parentTxid ∧
        Agrees (· = path) w.disk w'.disk ∧ w.heard <+: w'.heard) (fun _ => True)) w := by
  obtain ⟨⟨raw, hid⟩, -⟩ := pending.transactions_of_validate hinv.1.valid
  have hnamed : Named w.disk path pending.parentTxid := by
    rcases hpath with rfl | rfl
    · exact hinv.1.attempted
    · exact hinv.1.accepted
  have htemporary : path.temporary = false := by rcases hpath with rfl | rfl <;> rfl
  have hjournal : Path.journal ≠ path := by rcases hpath with rfl | rfl <;> decide
  have hresolved : Path.resolved ≠ path := by rcases hpath with rfl | rfl <;> decide
  have hrename : ∀ {w₁ w₂ : World} {a}, Inv ground old pending w₁ →
      w₁.Answers (.rename path.temp path) a w₂ → (w₂.disk = w₁.disk ∨ w₂.disk =
        (w₁.disk.set path.temp none).set path (some (pending.parentTxid ++ ['\n']))) →
      Inv ground old pending w₂ := by
    intro w₁ w₂ a h hans hdisk
    have hother : ∀ d' p, p ≠ path → p.temporary = false →
        Acts w₁.disk (.rename path.temp path) a d' → d' p = w₁.disk p := by
      rintro d' p hp htemp (⟨e, -, rfl⟩ | ⟨-, -, rfl⟩)
      · rfl
      · rw [Disk.set_of_ne hp, Disk.set_of_ne]
        rintro rfl
        cases htemp
    refine ⟨?_, h.2.answers hans trivial (fun _ _ => by rintro ⟨⟩) (fun d' hacts => ?_) fun text htext => ?_⟩
    · rcases hdisk with hdisk | hdisk
      · rw [hdisk]
        exact h.1
      · rw [hdisk]
        exact (h.1.same (same_set _ rfl _)).mark hpath
    · exact .inl (hother d' .journal hjournal rfl hacts)
    · rw [hother _ .resolved hresolved rfl hans.acts] at htext
      exact .inl htext
  refine (holds_persistMarker stable_inv hinv htemporary hid.isTxid hnamed
    fun w₁ a w₂ h _ hans hdisk => hrename h hans hdisk).heard.mono fun x w' hx => ?_
  cases x with
  | ok _ => exact ⟨hx.1.1, hx.1.2, hx.2⟩
  | error e => trivial

/-- A noted attempt is read from its marker. -/
lemma always_parentAttempted (hinv : Inv ground old pending w) :
    Always (Inv ground old pending) (pending.parentAttempted journal)
      (upon (fun attempted w' => w.heard <+: w'.heard ∧
        (attempted = true → Marked w'.disk .attempted pending.parentTxid)) (fun _ => True)) w := by
  have hread : Always (Inv ground old pending) (pending.parentAttempted journal) _ w :=
    (holds_markerPresent stable_inv hinv hinv.1.attempted).heard
  refine hread.mono fun x w' hx => ?_
  cases x with
  | ok attempted =>
    obtain ⟨⟨hdisk, rfl⟩, hheard⟩ := hx
    refine ⟨hheard, fun h => ⟨?_, ?_⟩⟩
    · rw [hdisk]
      exact h
    · rw [hdisk]
      exact hinv.1.attempted
  | error e => trivial

lemma always_markParentAccepted (hinv : Inv ground old pending w) :
    Always (Inv ground old pending) (pending.markParentAccepted journal)
      (upon (fun _ w' => w.heard <+: w'.heard) (fun _ => True)) w := by
  refine wp.seq (always_persistMarker hinv (.inl rfl)) hinv (fun _ w₁ hinv₁ h₁ => ?_)
    fun _ _ _ _ => trivial
  refine (always_persistMarker hinv₁ (.inr rfl)).mono fun x w₂ h₂ => ?_
  cases x with
  | ok _ => exact h₁.2.2.trans h₂.2.2
  | error e => trivial

/-- The parent may be given to servers, once the attempt is noted. -/
lemma Inv.sentInOrder (hinv : Inv ground old pending w)
    (hmarked : Marked w.disk .attempted pending.parentTxid) (via : JobSource) :
    SentInOrder w.disk (.broadcast via pending.parentHex) :=
  ⟨pending, hinv.1, .inl ⟨rfl, hmarked⟩⟩

lemma always_preflightAndMark (hinv : Inv ground old pending w) :
    Always (Inv ground old pending) (preflightAndMark cfg pending journal)
      (upon (fun _ w' => Marked w'.disk .attempted pending.parentTxid ∧ w.heard <+: w'.heard)
        (fun _ => True)) w := by
  refine Always.quiet stable_inv hinv quiet_preflight (fun _ w₁ hinv₁ h₁ => ?_) fun _ _ _ _ => trivial
  refine (always_persistMarker hinv₁ (.inl rfl)).mono fun x w₂ h₂ => ?_
  cases x with
  | ok _ => exact ⟨h₂.1, h₁.heard.trans h₂.2.2⟩
  | error e => trivial

omit [Records] in
/-- A returned id is the claim's. -/
lemma evidence_of_returned {returned : List Char} {label : String}
    (htold : Told pending.parentHex w.heard (.ok returned))
    (hensured : ensureBroadcastTxid label pending.parentTxid returned = .ok ()) :
    Evidence w.heard pending := by
  obtain ⟨via, hmem⟩ := htold
  refine .inl ⟨via, returned, hmem, ?_⟩
  by_contra hne
  rw [ensureBroadcastTxid, if_neg hne] at hensured
  cases hensured

/-- Once the attempt is noted, the parent is broadcast, and its acceptance noted. -/
lemma always_broadcastParent (hinv : Inv ground old pending w)
    (hmarked : Marked w.disk .attempted pending.parentTxid) :
    Always (Inv ground old pending) (broadcastParent cfg pending journal)
      (upon (fun _ w' => Evidence w'.heard pending ∧ w.heard <+: w'.heard) (fun _ => True)) w := by
  obtain ⟨⟨raw, hid⟩, -⟩ := pending.transactions_of_validate hinv.1.valid
  unfold broadcastParent
  rw [Always, Holds, wp_bind]
  refine (always_broadcast hinv hid.checkRawHex (hinv.sentInOrder hmarked)).mono_inv hinv
    fun x w₁ hinv₁ hx => ?_
  cases x with
  | error e => trivial
  | ok returned =>
    refine holds_lift (fun _ hensured => ?_) fun _ _ => trivial
    have hevidence := evidence_of_returned hx.told hensured
    refine (always_markParentAccepted hinv₁).mono fun y w₂ hy => ?_
    cases y with
    | ok _ => exact ⟨hevidence.mono hy.subset, hx.heard.trans hy⟩
    | error e => trivial

/-! ## What a live baton shows -/

lemma always_resolvePostBroadcastBaton (hinv : Inv ground old pending w) {fresh : LiveJob}
    (hfresh : (⟨.fetchLiveJob, .ok fresh⟩ : (q : Op) × Answer q) ∈ w.heard)
    {waiting unproven : String} :
    Always (Inv ground old pending) (resolvePostBroadcastBaton pending fresh waiting unproven)
      (Verdict w₀ claim pending) w := by
  have hevidence : ∀ {w' : World}, w.heard <+: w'.heard → FromClaim pending fresh →
      Evidence w'.heard pending := fun hpre h => .inr (.inr (.inr ⟨fresh, hpre.subset hfresh, h⟩))
  unfold resolvePostBroadcastBaton
  split_ifs with hauth
  · exact hevidence (List.prefix_refl _) (.inl hauth)
  · trivial
  · refine wp.seq (always_resultingBaton stable_inv hinv
      (pending.resultingBatonVout_of_validate hinv.1.valid)) hinv (fun proven w₁ _ h₁ => ?_)
      fun _ _ _ _ => trivial
    cases proven with
    | true => exact hevidence h₁.1.heard (h₁.2 rfl)
    | false => trivial

/-- A legacy claim's settlement. -/
lemma always_broadcastSettlement (hinv : Inv ground old pending w) (hlegacy : pending.isDirect = false) :
    Always (Inv ground old pending) (broadcastSettlement cfg pending) (Verdict w₀ claim pending) w := by
  obtain ⟨-, raw, hid⟩ := pending.transactions_of_validate hinv.1.valid
  unfold broadcastSettlement
  refine Always.quiet stable_inv hinv quiet_preflight (fun _ w₁ hinv₁ _ => ?_) fun _ _ _ _ => trivial
  rw [Always, Holds, wp_bind]
  refine (always_broadcast hinv₁ hid.checkRawHex
    fun via => ⟨pending, hinv₁.1, .inr ⟨hlegacy, rfl⟩⟩).mono_inv hinv₁ fun x w₂ hinv₂ _ => ?_
  cases x with
  | error e => trivial
  | ok returned =>
    refine holds_lift (fun _ _ => ?_) fun _ _ => trivial
    refine wp.seq (always_fetchLiveJob stable_inv hinv₂) hinv₂ (fun fresh w₃ hinv₃ h₃ => ?_)
      fun _ _ _ _ => trivial
    refine always_resolvePostBroadcastBaton hinv₃ ?_
    rw [h₃.2]
    exact List.mem_append_right _ (List.mem_singleton.mpr rfl)

/-! ## Direct claims -/

lemma always_broadcastFirst (hinv : Inv ground old pending w) {context : ClaimContext} :
    Always (Inv ground old pending) (broadcastFirst cfg pending journal context)
      (upon (fun first w' => w.heard <+: w'.heard ∧
        (first = .accepted → Evidence w'.heard pending)) (fun _ => True)) w := by
  obtain ⟨⟨raw, hid⟩, -⟩ := pending.transactions_of_validate hinv.1.valid
  unfold broadcastFirst
  refine wp.seq (always_preflightAndMark hinv) hinv (fun _ w₁ hinv₁ h₁ => ?_) fun _ _ _ _ => trivial
  have hrelay : Always (Inv ground old pending)
      (if context.relay then .query (.relay pending.parentHex) else .ok ())
      (upon (fun _ w' => Marked w'.disk .attempted pending.parentTxid ∧ w.heard <+: w'.heard)
        (fun _ => True)) w₁ := by
    split_ifs
    · intro a w₂ hans
      obtain ⟨hinv₂, hdisk⟩ := hinv₁.sending hans.1 ⟨pending, hinv₁.1, rfl, h₁.1⟩ (fun _ h => h)
        (by rintro _ ⟨⟩)
      refine ⟨hinv₂, ?_, h₁.2.trans hans.1.heard_grows⟩
      rw [hdisk]
      exact h₁.1
    · exact h₁
  refine wp_ite_bind.mpr (wp.seq hrelay hinv₁ (fun _ w₂ hinv₂ h₂ => ?_) fun _ _ _ _ => trivial)
  refine wp_bind.mpr (wp_attempt.mpr ?_)
  refine (always_broadcast hinv₂ hid.checkRawHex (hinv₂.sentInOrder h₂.1)).mono fun x w₃ hx => ?_
  have hpre := h₂.2.trans hx.heard
  cases x with
  | ok returned =>
    exact holds_lift (fun _ hensured => ⟨hpre, fun _ => evidence_of_returned hx.told hensured⟩)
      fun _ _ => trivial
  | error e =>
    show Always _ (if _ then _ else _) _ w₃
    split_ifs with hknown
    · exact ⟨hpre, fun _ => .inr (.inl (hx.told hknown))⟩
    · exact ⟨hpre, by rintro ⟨⟩⟩

lemma always_checkParentOnly (hinv : Inv ground old pending w) (hpre : w₀.heard <+: w.heard)
    {broadcastError : Option String} :
    Always (Inv ground old pending) (checkParentOnly cfg pending journal claim broadcastError)
      (Verdict w₀ claim pending) w := by
  unfold checkParentOnly
  refine wp.seq (always_transactionKnown stable_inv hinv) hinv (fun known w₁ hinv₁ h₁ => ?_)
    fun _ _ _ _ => trivial
  obtain ⟨-, a, hknown, hheard₁⟩ := h₁
  refine wp.seq (always_fetchLiveJob stable_inv hinv₁) hinv₁ (fun fresh w₂ hinv₂ h₂ => ?_)
    fun _ _ _ _ => trivial
  obtain ⟨-, hheard₂⟩ := h₂
  refine wp.seq (always_claimLags stable_inv hinv₂) hinv₂ (fun lags w₃ hinv₃ h₃ => ?_)
    fun _ _ _ _ => trivial
  obtain ⟨hasked₃, hlags⟩ := h₃
  cases hfound : known || pending.resultingBatonIsAuthoritative fresh with
  | true =>
    have hevidence : Evidence w₃.heard pending := by
      have hsub := hasked₃.heard.subset
      rw [hheard₂, hheard₁] at hsub
      rcases Bool.or_eq_true_iff.mp hfound with rfl | hauth
      · exact .inr (.inr (.inl ⟨a, hsub (by simp), hknown⟩))
      · exact .inr (.inr (.inr ⟨fresh, hsub (by simp), .inl hauth⟩))
    rw [if_pos rfl]
    refine wp.seq (always_markParentAccepted hinv₃) hinv₃ (fun _ w₄ hinv₄ h₄ => ?_)
      fun _ _ _ _ => trivial
    have hevidence₄ := hevidence.mono h₄.subset
    split_ifs with hcurrent hclaim
    · exact holds_lift (fun _ _ => hevidence₄) fun _ _ => trivial
    · trivial
    · refine wp.seq (always_resultingBaton stable_inv hinv₄
        (pending.resultingBatonVout_of_validate hinv₄.1.valid)) hinv₄ (fun proven w₅ _ h₅ => ?_)
        fun _ _ _ _ => trivial
      cases proven with
      | true => exact hevidence₄.mono h₅.1.heard.subset
      | false => trivial
  | false =>
    rw [if_neg Bool.false_ne_true]
    obtain ⟨rfl, hauth⟩ := Bool.or_eq_false_iff.mp hfound
    have hseen : ∀ {w₄ : World}, w₃.heard <+: w₄.heard →
        pending.expectedBatonIsCurrent fresh = false → lags = false →
        Seen claim pending (w₀.since w₄) fresh := by
      intro w₄ hpre₄ hcurrent hlag
      refine ⟨hauth, hcurrent, a, hknown, ?_⟩
      have hheard : w₂.heard = w.heard ++ [⟨.getTransaction pending.parentTxid, a⟩,
          ⟨.fetchLiveJob, .ok fresh⟩] := by
        rw [hheard₂, hheard₁, List.append_assoc]
        rfl
      cases claim with
      | none => exact World.infix_since hpre (hheard ▸ hasked₃.heard.trans hpre₄)
      | some context =>
        obtain ⟨now, hheard₃, hlag'⟩ := hlags context rfl
        refine ⟨now, hlag'.symm.trans hlag, World.infix_since hpre ?_⟩
        rw [hheard₃, hheard, List.append_assoc] at hpre₄
        exact hpre₄
    refine wp.seq (always_parentAttempted hinv₃) hinv₃ (fun attempted w₄ hinv₄ h₄ => ?_)
      fun _ _ _ _ => trivial
    -- a stale outcome, where the conditions of the code say so
    have hstale : (!pending.expectedBatonIsCurrent fresh && !lags) = true →
        Seen claim pending (w₀.since w₄) fresh := by
      intro h
      rw [Bool.and_eq_true, Bool.not_eq_true', Bool.not_eq_true'] at h
      exact hseen h₄.1 h.1 h.2
    cases attempted with
    | true =>
      rw [if_pos rfl]
      split_ifs with h
      · intro _
        rw [Bool.and_assoc, Bool.and_eq_true] at h
        exact hstale h.2
      · trivial
    | false =>
      rw [if_neg Bool.false_ne_true]
      by_cases h : (!pending.expectedBatonIsCurrent fresh && !lags) = true
      · rw [if_pos h]
        exact fun _ => hstale h
      · rw [if_neg h]
        refine wp.seq (always_preflightAndMark hinv₄) hinv₄ (fun _ w₅ hinv₅ h₅ => ?_)
          fun _ _ _ _ => trivial
        refine wp.seq (always_broadcastParent hinv₅ h₅.1) hinv₅ (fun _ w₆ hinv₆ h₆ => ?_)
          fun _ _ _ _ => trivial
        split_ifs
        · exact holds_lift (fun _ _ => h₆.1) fun _ _ => trivial
        · refine wp.seq (always_fetchLiveJob stable_inv hinv₆) hinv₆ (fun next w₇ hinv₇ h₇ => ?_)
            fun _ _ _ _ => trivial
          refine always_resolvePostBroadcastBaton hinv₇ ?_
          rw [h₇.2]
          exact List.mem_append_right _ (List.mem_singleton.mpr rfl)

lemma always_attemptParentOnly (hinv : Inv ground old pending w) :
    Always (Inv ground old pending) (attemptParentOnlySubmission cfg pending journal claim)
      (Verdict w claim pending) w := by
  unfold attemptParentOnlySubmission
  split_ifs
  · trivial
  cases claim with
  | none => exact always_checkParentOnly hinv (List.prefix_refl _)
  | some context =>
    refine wp.seq (always_parentAttempted hinv) hinv (fun attempted w₁ hinv₁ h₁ => ?_)
      fun _ _ _ _ => trivial
    cases attempted with
    | true =>
      rw [if_pos rfl]
      exact always_checkParentOnly hinv₁ h₁.1
    | false =>
      rw [if_neg Bool.false_ne_true]
      refine wp.seq (always_broadcastFirst hinv₁) hinv₁ (fun first w₂ hinv₂ h₂ => ?_)
        fun _ _ _ _ => trivial
      cases first with
      | accepted =>
        refine wp.seq (always_markParentAccepted hinv₂) hinv₂ (fun _ w₃ hinv₃ h₃ => ?_)
          fun _ _ _ _ => trivial
        exact holds_lift (fun _ _ => (h₂.2 rfl).mono h₃.subset) fun _ _ => trivial
      | refused e => exact always_checkParentOnly hinv₂ (h₁.1.trans h₂.1)

/-! ## Legacy claims -/

lemma always_attemptLegacyParent (hinv : Inv ground old pending w)
    (hlegacy : pending.isDirect = false) :
    Always (Inv ground old pending) (attemptLegacyParent cfg pending journal)
      (Verdict w₀ claim pending) w := by
  unfold attemptLegacyParent
  refine wp.seq (always_parentAttempted hinv) hinv (fun attempted w₁ hinv₁ h₁ => ?_)
    fun _ _ _ _ => trivial
  refine wp.seq (always_fetchLiveJob stable_inv hinv₁) hinv₁ (fun fresh w₂ hinv₂ h₂ => ?_)
    fun _ _ _ _ => trivial
  by_cases hlive : pending.parentBatonIsLive fresh = true
  · rw [if_pos hlive]
    refine wp.seq (always_markParentAccepted hinv₂) hinv₂ (fun _ w₃ hinv₃ _ => ?_)
      fun _ _ _ _ => trivial
    exact always_broadcastSettlement hinv₃ hlegacy
  rw [if_neg hlive]
  cases submissionDecision false attempted (pending.expectedBatonIsCurrent fresh) with
  | staleUnbroadcast =>
    intro hdirect
    rw [hlegacy] at hdirect
    cases hdirect
  | awaitParentResolution => trivial
  | broadcastSettlement => trivial
  | broadcastParentThenSettlement =>
    have hmark : Always (Inv ground old pending)
        (if attempted then .ok () else preflightAndMark cfg pending journal)
        (upon (fun _ w' => Marked w'.disk .attempted pending.parentTxid) (fun _ => True)) w₂ := by
      split_ifs with hattempted
      · exact (h₁.2 hattempted).of_eq (h₂.1.same .attempted rfl (by rintro ⟨⟩))
      · refine (always_preflightAndMark hinv₂).mono fun x w₃ h₃ => ?_
        cases x with
        | ok _ => exact h₃.1
        | error e => trivial
    refine wp_ite_bind.mpr (wp.seq hmark hinv₂ (fun _ w₃ hinv₃ h₃ => ?_) fun _ _ _ _ => trivial)
    refine wp.seq (always_broadcastParent hinv₃ h₃) hinv₃ (fun _ w₄ hinv₄ _ => ?_)
      fun _ _ _ _ => trivial
    exact always_broadcastSettlement hinv₄ hlegacy

lemma always_attemptLegacy (hinv : Inv ground old pending w) (hlegacy : pending.isDirect = false) :
    Always (Inv ground old pending) (attemptLegacySubmission cfg pending journal)
      (Verdict w₀ claim pending) w := by
  unfold attemptLegacySubmission
  refine Always.quiet stable_inv hinv quiet_transactionKnown (fun known w₁ hinv₁ _ => ?_)
    fun _ _ _ _ => trivial
  split_ifs
  · refine wp.seq (always_fetchLiveJob stable_inv hinv₁) hinv₁ (fun fresh w₂ hinv₂ h₂ => ?_)
      fun _ _ _ _ => trivial
    split_ifs
    · trivial
    · refine wp.seq (always_resultingBaton stable_inv hinv₂
        (pending.resultingBatonVout_of_validate hinv₂.1.valid)) hinv₂ (fun proven w₃ _ h₃ => ?_)
        fun _ _ _ _ => trivial
      cases proven with
      | true =>
        refine .inr (.inr (.inr ⟨fresh, h₃.1.heard.subset ?_, h₃.2 rfl⟩))
        rw [h₂.2]
        exact List.mem_append_right _ (List.mem_singleton.mpr rfl)
      | false => trivial
  · refine Always.quiet stable_inv hinv₁ quiet_markerPresent (fun accepted w₂ hinv₂ _ => ?_)
      fun _ _ _ _ => trivial
    split_ifs
    · exact always_broadcastSettlement hinv₂ hlegacy
    · refine Always.quiet stable_inv hinv₂ quiet_transactionKnown (fun known w₃ hinv₃ _ => ?_)
        fun _ _ _ _ => trivial
      split_ifs
      · refine wp.seq (always_markParentAccepted hinv₃) hinv₃ (fun _ w₄ hinv₄ _ => ?_)
          fun _ _ _ _ => trivial
        exact always_broadcastSettlement hinv₄ hlegacy
      · exact always_attemptLegacyParent hinv₃ hlegacy

/-- An attempt keeps the claim in hand, and its outcome rests on what was heard. -/
theorem always_attempt (hinv : Inv ground old pending w) :
    Always (Inv ground old pending) (attemptPendingSubmission cfg pending journal claim)
      (Verdict w claim pending) w := by
  unfold attemptPendingSubmission
  refine holds_lift (fun _ _ => ?_) fun _ _ => trivial
  refine holds_lift (fun _ _ => ?_) fun _ _ => trivial
  cases hdirect : pending.isDirect with
  | true => exact always_attemptParentOnly hinv
  | false => exact always_attemptLegacy hinv hdirect

end Pickaxe.Photon
