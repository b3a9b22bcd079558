/-
# The outcome of a claim on disk

The record of a claim's outcome takes its place before the markers and the journal go.  A process
that starts finds the files of one claim or of none, whatever the operation at which the one before
was stopped.
-/
import Pickaxe.Photon.Attempt

namespace Pickaxe.Photon

open Lib Program

variable [Hasher] [Records] {ground : Ground} {old : Option (List Char)}
  {pending : PendingSubmission} {claim : Option ClaimContext} {w₀ w w' : World} {journal : String}
  {cfg : RuntimeConfig}

/-! ## The record -/

omit [Hasher] in
lemma Disk.Recorded.of_eq {d d' : Disk} {parentTxid : List Char} (h : d.Recorded parentTxid)
    (heq : d' .resolved = d .resolved) : d'.Recorded parentTxid := by
  obtain ⟨text, resolved, htext, hdecode⟩ := h
  exact ⟨text, resolved, heq.trans htext, hdecode⟩

omit [Hasher] [Records] in
/-- A marker that is not there was read so. -/
lemma always_markerRead {inv : World → Prop} (hst : Stable inv) (hw : inv w) {path : Path}
    {txid : List Char} :
    Always inv (markerPresent journal path txid) (upon (fun present w' => Asked w w' ∧
      (present = false → (⟨.read path, .ok none⟩ : (q : Op) × Answer q) ∈ w'.heard))
      (fun _ => True)) w := by
  rw [markerPresent]
  refine holds_query hst hw (q := .read path) trivial fun a w₁ hans _ _ _ => ?_
  refine holds_onPath (fun marker hmarker => ?_) (fun _ _ _ => trivial)
  subst hmarker
  cases marker with
  | none => exact ⟨hans.asked trivial, fun _ => hans.mem_heard⟩
  | some marker =>
    show Always inv (if _ then _ else _) _ w₁
    split_ifs
    · exact ⟨hans.asked trivial, by rintro ⟨⟩⟩
    · trivial

omit [Hasher] [Records] in
/-- What `from_stale` decides. -/
lemma staleRecord_ok {fresh : LiveJob} {attempted accepted : Bool} {resolved : ResolvedSubmission}
    (h : staleRecord pending fresh attempted accepted = .ok resolved) :
    pending.expectedBatonIsCurrent fresh = false ∧ pending.parentBatonIsLive fresh = false ∧
      ((attempted = false ∧ resolved = pending.resolved fresh false false "stale-unbroadcast") ∨
        (pending.isDirect = true ∧ resolved = pending.resolved fresh true accepted "conflicted")) := by
  unfold staleRecord at h
  simp only [Except.ite_error_eq_ok, Bool.not_eq_true] at h
  obtain ⟨haccepted, hattempted, hparent, hcurrent, hresolved⟩ := h
  refine ⟨hcurrent, hparent, ?_⟩
  have heq := (Except.ok.inj hresolved).symm
  cases hconflicted : pending.isDirect && attempted with
  | true =>
    rw [hconflicted] at heq
    obtain ⟨hdirect, rfl⟩ := Bool.and_eq_true_iff.mp hconflicted
    exact .inr ⟨hdirect, heq⟩
  | false =>
    rw [hconflicted] at heq haccepted hattempted
    have hattempted' : attempted = false := by simpa using hattempted
    have haccepted' : accepted = false := by simpa using haccepted
    subst hattempted' haccepted'
    exact .inl ⟨rfl, heq⟩

omit [Hasher] in
lemma always_loadResolved {inv : World → Prop} (hst : Stable inv) (hw : inv w) :
    Always inv (ResolvedSubmission.load journal) (upon (fun loaded w' => Asked w w' ∧
      ∀ resolved, loaded = some resolved → w'.disk.Recorded resolved.parentTxid)
      (fun _ => True)) w := by
  rw [ResolvedSubmission.load]
  refine holds_query hst hw (q := .read .resolved) trivial fun a w₁ hans _ hacts _ => ?_
  refine holds_onPath (fun bytes hbytes => ?_) (fun _ _ _ => trivial)
  subst hbytes
  cases bytes with
  | none => exact ⟨hans.asked trivial, by rintro _ ⟨⟩⟩
  | some bytes =>
    refine holds_onPath (fun resolved hdecode => ?_) (fun _ _ _ => trivial)
    refine holds_lift (fun _ _ => ?_) (fun _ _ => trivial)
    refine ⟨hans.asked trivial, ?_⟩
    rintro _ ⟨⟩
    obtain ⟨hdisk, ⟨e, he⟩ | hread⟩ := hacts
    · cases he
    · refine ⟨bytes, resolved, ?_, hdecode, rfl⟩
      rw [hdisk]
      exact (Except.ok.inj hread).symm

/-- An operation on the record leaves the claim in hand. -/
lemma Inv.recording (h : Inv ground old pending w) {q : Op} {a : Answer q} (hans : w.Answers q a w')
    (hsent : SentInOrder w.disk q) (horphan : FindsNoOrphan w.disk q)
    (hagrees : ∀ d', Acts w.disk q a d' → Agrees (· = .resolved) w.disk d')
    (hrecord : ∀ text, w'.disk .resolved = some text → w.disk .resolved = some text ∨
      ∃ resolved, Records.decodeResolved text = .ok resolved ∧
        Justified ground w.heard resolved) : Inv ground old pending w' := by
  have hw := hagrees _ hans.acts
  refine ⟨?_, h.2.answers hans hsent horphan (fun d' hacts => ?_) hrecord⟩
  · obtain ⟨hjournal, hvalid, hattempted, haccepted⟩ := h.1
    refine ⟨?_, hvalid, hattempted.of_eq ?_, haccepted.of_eq ?_⟩
    · rw [hw .journal rfl (by decide)]
      exact hjournal
    · exact hw .attempted rfl (by decide)
    · exact hw .accepted rfl (by decide)
  · exact .inl (hagrees d' hacts .journal rfl (by decide))

/-- A justified record comes into place while the claim is in hand. -/
lemma always_persistLatest (hinv : Inv ground old pending w) {resolved : ResolvedSubmission}
    (hjust : Justified ground w.heard resolved) :
    Always (Inv ground old pending) (resolved.persistLatest journal)
      (upon (fun _ w' => w'.disk.Recorded resolved.parentTxid) (fun _ => True)) w := by
  rw [ResolvedSubmission.persistLatest]
  refine holds_lift (fun _ _ => ?_) fun _ _ => trivial
  refine Always.quiet stable_inv hinv quiet_makeDirectory (fun _ w₁ hinv₁ h₁ => ?_)
    fun _ _ _ _ => trivial
  refine wp.seq (always_loadResolved stable_inv hinv₁) hinv₁ (fun loaded w₂ hinv₂ h₂ => ?_)
    fun _ _ _ _ => trivial
  -- both ways end with a sync, which changes nothing
  have hsync : ∀ {w₃ : World}, Inv ground old pending w₃ → w₃.disk.Recorded resolved.parentTxid →
      Always (Inv ground old pending) (syncCommitted journal .resolved)
        (upon (fun _ w' => w'.disk.Recorded resolved.parentTxid) (fun _ => True)) w₃ := by
    intro w₃ hinv₃ hrecorded
    refine (always_quiet stable_inv hinv₃ quiet_syncCommitted).mono fun x w₄ hx => ?_
    cases x with
    | ok _ => exact hrecorded.of_eq (hx.same .resolved rfl (by rintro ⟨⟩))
    | error e => trivial
  split_ifs with hloaded
  · exact hsync hinv₂ (h₂.2 resolved hloaded)
  refine wp.seq (holds_writeTemporary stable_inv hinv₂).heard hinv₂ (fun _ w₃ hinv₃ h₃ => ?_)
    fun _ _ _ _ => trivial
  obtain ⟨⟨htemp, honly⟩, hheard₃⟩ := h₃
  have hmarker : ¬ Path.resolved.IsMarker := by
    rintro (h | h) <;> cases h
  -- the old record goes, and until the rename there is none
  have hremove : ∀ (w₄ : World) a w₅, Inv ground old pending w₄ → w₄.disk = w₃.disk →
      w₄.Answers (.remove .resolved) a w₅ → Inv ground old pending w₅ := by
    intro w₄ a w₅ hinv₄ _ hans
    have hagrees : ∀ d', Acts w₄.disk (.remove .resolved) a d' → d' = w₄.disk ∨
        d' = w₄.disk.set .resolved none := by
      rintro d' (⟨e, -, h⟩ | ⟨-, h⟩)
      · exact .inl h
      · exact .inr h
    refine hinv₄.recording hans trivial (fun _ _ => by rintro ⟨⟩) (fun d' hacts => ?_) fun text htext => ?_
    · rcases hagrees d' hacts with rfl | rfl
      · exact Agrees.refl _
      · exact (OnlyAt.set _ _).agrees_self
    · rcases hagrees _ hans.acts with h | h
      · exact .inl (h ▸ htext)
      · rw [h, Disk.set_self] at htext
        cases htext
  refine wp.seq (holds_removePresent stable_inv hinv₃ hmarker hremove).heard hinv₃
    (fun _ w₄ hinv₄ h₄ => ?_) fun _ _ _ _ => trivial
  obtain ⟨⟨-, honly₄⟩, hheard₄⟩ := h₄
  have htemp₄ : w₄.disk Path.resolved.temp = some (Records.encodeResolved resolved) := by
    rw [honly₄ _ (ne_temp rfl).symm, htemp]
  have hjust₄ : Justified ground w₄.heard resolved :=
    hjust.mono (h₁.heard.trans (h₂.1.heard.trans (hheard₃.trans hheard₄)))
  -- the new one comes, justified by what was heard
  have hrename : ∀ a w₅, w₄.Answers (.rename Path.resolved.temp .resolved) a w₅ →
      (w₅.disk = w₄.disk ∨ w₅.disk = (w₄.disk.set Path.resolved.temp none).set .resolved
        (some (Records.encodeResolved resolved))) → Inv ground old pending w₅ := by
    intro a w₅ hans hdisk
    refine hinv₄.recording hans trivial (fun _ _ => by rintro ⟨⟩) (fun d' hacts => ?_) fun text htext => ?_
    · rcases hacts with ⟨e, -, rfl⟩ | ⟨-, -, rfl⟩
      · exact Agrees.refl _
      · have hsame : Same w₄.disk (w₄.disk.set Path.resolved.temp none) := same_set _ rfl _
        exact hsame.agrees.trans (OnlyAt.set _ _).agrees_self
    · rcases hdisk with hdisk | hdisk
      · exact .inl (hdisk ▸ htext)
      · rw [hdisk, Disk.set_self] at htext
        obtain rfl := Option.some.inj htext
        exact .inr ⟨resolved, Records.decodeResolved_encodeResolved resolved, hjust₄⟩
  refine wp.seq (holds_commitTemporary stable_inv htemp₄ hrename) hinv₄ (fun _ w₅ hinv₅ h₅ => ?_)
    fun _ _ _ _ => trivial
  refine hsync hinv₅ ⟨_, resolved, ?_, Records.decodeResolved_encodeResolved resolved, rfl⟩
  rw [h₅, Disk.set_self]

/-! ## The removal -/

/-- A marker goes, or the operation fails. -/
lemma Base.removing (h : Base ground old w) {path : Path} (hresolved : path ≠ .resolved)
    {a : Answer (.remove path)} (hans : w.Answers (.remove path) a w')
    (hkeeps : KeepsJournal w.disk (w.disk.set path none)) :
    Base ground old w' ∧ w'.disk .resolved = w.disk .resolved ∧
      ((∃ e, a = .error e ∧ w'.disk = w.disk) ∨
        (∃ b, a = .ok b) ∧ w'.disk = w.disk.set path none) := by
  have hcases : ∀ {d' : Disk}, Acts w.disk (.remove path) a d' →
      (∃ e, a = .error e ∧ d' = w.disk) ∨ (∃ b, a = .ok b) ∧ d' = w.disk.set path none := by
    rintro d' (⟨e, ha, hd⟩ | ⟨ha, hd⟩)
    · exact .inl ⟨e, ha, hd⟩
    · exact .inr ⟨⟨_, ha⟩, hd⟩
  have hrecord : w'.disk .resolved = w.disk .resolved := by
    rcases hcases hans.acts with ⟨e, -, hd⟩ | ⟨-, hd⟩
    · rw [hd]
    · rw [hd, Disk.set_of_ne hresolved.symm]
  refine ⟨h.answers hans trivial (fun _ _ => by rintro ⟨⟩) (fun d' hacts => ?_) fun text htext => ?_,
    hrecord, hcases hans.acts⟩
  · rcases hcases hacts with ⟨e, -, rfl⟩ | ⟨-, rfl⟩
    · exact .inl rfl
    · exact hkeeps
  · exact .inl (hrecord ▸ htext)

/-- A resolved claim's markers and then its journal go. -/
lemma always_remove (hcarries : w.disk.Carries pending) (hbase : Base ground old w)
    (hrecorded : w.disk.Recorded pending.parentTxid) :
    Always (SettlingInv ground old pending) (PendingSubmission.remove journal)
      (upon (fun _ w' => w'.disk.Free) (fun w' => w'.disk.Carries pending)) w := by
  have hmarker : ∀ {w₁ w₂ : World} {path : Path} {a}, path.IsMarker → w₁.disk.Carries pending →
      Base ground old w₁ → w₁.disk.Recorded pending.parentTxid →
      w₁.Answers (.remove path) a w₂ →
      w₂.disk.Carries pending ∧ Base ground old w₂ ∧ w₂.disk.Recorded pending.parentTxid ∧
        ∀ b, a = .ok b → w₂.disk = w₁.disk.set path none := by
    intro w₁ w₂ path a hpath hcarries hbase hrecorded hans
    have hjournal : Path.journal ≠ path := by rcases hpath with rfl | rfl <;> decide
    have hresolved : path ≠ Path.resolved := by rcases hpath with rfl | rfl <;> decide
    obtain ⟨hbase₂, hrecord, hdisk⟩ := hbase.removing hresolved hans
      (.inl (Disk.set_of_ne hjournal))
    rcases hdisk with ⟨e, rfl, hdisk⟩ | ⟨-, hdisk⟩
    · exact ⟨hdisk ▸ hcarries, hbase₂, hrecorded.of_eq hrecord, by rintro _ ⟨⟩⟩
    · exact ⟨hdisk ▸ hcarries.unmark hpath, hbase₂, hrecorded.of_eq hrecord, fun _ _ => hdisk⟩
  rw [PendingSubmission.remove]
  intro a w₁ hans₁
  obtain ⟨hcarries₁, hbase₁, hrecorded₁, hdisk₁⟩ :=
    hmarker (.inr rfl) hcarries hbase hrecorded hans₁.1
  refine ⟨⟨.inl hcarries₁, hbase₁⟩, holds_onPath (fun _ ha => ?_) (fun _ _ _ => hcarries₁)⟩
  replace hdisk₁ := hdisk₁ _ ha
  intro a w₂ hans₂
  obtain ⟨hcarries₂, hbase₂, hrecorded₂, hdisk₂⟩ :=
    hmarker (.inl rfl) hcarries₁ hbase₁ hrecorded₁ hans₂.1
  refine ⟨⟨.inl hcarries₂, hbase₂⟩, holds_onPath (fun _ ha => ?_) (fun _ _ _ => hcarries₂)⟩
  replace hdisk₂ := hdisk₂ _ ha
  intro a w₃ hans₃
  have hkeeps : KeepsJournal w₂.disk (w₂.disk.set .journal none) := by
    refine .inr (.inr ⟨Disk.set_self, fun other hother => ?_⟩)
    rw [hcarries₂.unique hother]
    exact hrecorded₂
  obtain ⟨hbase₃, -, hdisk₃⟩ := hbase₂.removing (by decide) hans₃.1 hkeeps
  rcases hdisk₃ with ⟨e, rfl, hdisk₃⟩ | ⟨⟨b, rfl⟩, hdisk₃⟩
  · have hcarries₃ : w₃.disk.Carries pending := hdisk₃ ▸ hcarries₂
    exact ⟨⟨.inl hcarries₃, hbase₃⟩, hcarries₃⟩
  · have hfree : w₃.disk.Free := by
      rw [hdisk₃, hdisk₂, hdisk₁]
      exact ⟨rfl, rfl, rfl⟩
    exact ⟨⟨.inr hfree, hbase₃⟩, hfree⟩

/-! ## The outcome -/

/-- The claim is resolved with a justified record, or stays in hand. -/
lemma always_resolve (hinv : Inv ground old pending w) {resolved : ResolvedSubmission}
    (hparent : resolved.parentTxid = pending.parentTxid)
    (hjust : Justified ground w.heard resolved) :
    Always (SettlingInv ground old pending)
      (resolved.persistLatest journal >>= fun _ => PendingSubmission.remove journal)
      (upon (fun _ w' => w'.disk.Free) (fun w' => w'.disk.Carries pending)) w := by
  refine wp.seq_of_le (fun _ h => ⟨.inl h.1, h.2⟩) (always_persistLatest hinv hjust) hinv
    (fun _ w₁ hinv₁ h₁ => ?_) fun _ w₁ hinv₁ _ => hinv₁.1
  rw [hparent] at h₁
  exact always_remove hinv₁.1 hinv₁.2 h₁

/-- The outcome of an attempt that rests on what was heard. -/
lemma always_settle (hinv : Inv ground old pending w) {attempt : SubmissionAttempt}
    (hverdict : Verdict w₀ claim pending (.ok attempt) w)
    (hground : ∀ fresh, Seen claim pending (w₀.since w) fresh →
      ground.holds w.heard pending fresh) :
    Always (SettlingInv ground old pending) (settleAttempt pending journal attempt)
      (upon (fun resolved w' => if resolved then w'.disk.Free else w'.disk.Carries pending)
        (fun w' => w'.disk.Carries pending)) w := by
  have hle : ∀ w, Inv ground old pending w → SettlingInv ground old pending w :=
    fun _ h => ⟨.inl h.1, h.2⟩
  have hsettling := hle w hinv
  cases attempt with
  | awaitingBaton message => exact hinv.1
  | complete fresh =>
    have hconfirmed : Always (SettlingInv ground old pending)
        (resolveConfirmedSubmission pending fresh journal)
        (upon (fun _ w' => w'.disk.Free) (fun w' => w'.disk.Carries pending)) w := by
      refine holds_lift (fun resolved hresolved => ?_) fun _ _ => hinv.1
      rw [ResolvedSubmission.fromConfirmed, Except.bind_eq_ok] at hresolved
      obtain ⟨_, hvalid, hresolved⟩ := hresolved
      obtain rfl := Except.ok.inj hresolved
      exact always_resolve hinv rfl ⟨pending, fresh, hvalid, .inl ⟨rfl, hverdict⟩⟩
    exact wp.seq hconfirmed hsettling (fun _ _ _ h => h) fun _ _ _ h => h
  | staleUnbroadcast fresh =>
    have hstale : Always (Inv ground old pending) (ResolvedSubmission.fromStale pending fresh journal)
        (upon (fun resolved w' => resolved.parentTxid = pending.parentTxid ∧
          Justified ground w'.heard resolved) (fun _ => True)) w := by
      rw [ResolvedSubmission.fromStale]
      refine holds_lift (fun _ _ => ?_) fun _ _ => trivial
      refine wp.seq (always_markerRead stable_inv hinv) hinv (fun attempted w₁ hinv₁ h₁ => ?_)
        fun _ _ _ _ => trivial
      refine Always.quiet stable_inv hinv₁ quiet_markerPresent (fun accepted w₂ _ h₂ => ?_)
        fun _ _ _ _ => trivial
      refine wp_lift.mpr ?_
      cases hrecord : staleRecord pending fresh attempted accepted with
      | error e => trivial
      | ok resolved =>
        obtain ⟨hexpected, hparent, hresolved⟩ := staleRecord_ok hrecord
        have hholds : pending.isDirect = true → ground.holds w₂.heard pending fresh :=
          fun hdirect => ground.grows (h₁.1.heard.trans h₂.heard) (hground fresh (hverdict hdirect))
        rcases hresolved with ⟨rfl, rfl⟩ | ⟨hdirect, rfl⟩
        · exact ⟨rfl, pending, fresh, hinv.1.valid, .inr ⟨hexpected, hparent, hholds,
            .inl ⟨rfl, h₂.heard.subset (h₁.2 rfl)⟩⟩⟩
        · exact ⟨rfl, pending, fresh, hinv.1.valid, .inr ⟨hexpected, hparent, hholds,
            .inr ⟨hdirect, accepted, rfl⟩⟩⟩
    have hresolved : Always (SettlingInv ground old pending)
        (resolveStaleSubmission pending fresh journal)
        (upon (fun _ w' => w'.disk.Free) (fun w' => w'.disk.Carries pending)) w :=
      wp.seq_of_le hle hstale hinv (fun resolved w₁ hinv₁ h₁ => always_resolve hinv₁ h₁.1 h₁.2)
        fun _ w₁ hinv₁ _ => hinv₁.1
    exact wp.seq hresolved hsettling (fun _ _ _ h => h) fun _ _ _ h => h

end Pickaxe.Photon
