/-
# What the file programs do

One lemma for each program on the files: what it leaves, when it succeeds and when it fails.  The
answers may be restricted, and the condition that holds after every operation is a parameter; all
it must bear are operations that leave the files in place alone.
-/
import Pickaxe.Photon.World

namespace Pickaxe.Photon

open Lib Program

/-- The answers of a kind. -/
def World.AnswersOf (kind : (q : Op) → Answer q → Prop) (w : World) (q : Op) (a : Answer q)
    (w' : World) : Prop := w.Answers q a w' ∧ kind q a

/-- A condition that operations on temporary files and questions to servers keep. -/
def Stable (inv : World → Prop) : Prop :=
  ∀ w q a w', inv w → q.Quiet → w.Answers q a w' → inv w'

/-- A failed operation on a file. -/
def FileFailed : (q : Op) → Answer q → Prop
  | .read _, a => ∃ e, a = .error e
  | .create _, a | .write _ _, a | .sync _, a | .rename _ _, a | .makeDirectory, a =>
    ∃ e, a = .error e
  | .remove _, a => ∃ e, a = .error e
  | _, _ => False

instance : (q : Op) → (a : Answer q) → Decidable (FileFailed q a)
  | .read _, a | .remove _, a => inferInstanceAs (Decidable (∃ e, a = .error e))
  | .create _, a | .write _ _, a | .sync _, a | .rename _ _, a | .makeDirectory, a =>
    inferInstanceAs (Decidable (∃ e, a = .error e))
  | .present _, _ | .getTransaction _, _ | .fetchLiveJob, _ | .testMempoolAccept _, _
  | .broadcast _ _, _ | .relay _, _ | .now, _ => inferInstanceAs (Decidable False)

/-- No operation on a file fails. -/
def Sure (kind : (q : Op) → Answer q → Prop) : Prop := ∀ q a, kind q a → ¬ FileFailed q a

/-- A marker, where there is one, names the parent. -/
def Named (d : Disk) (path : Path) (txid : List Char) : Prop :=
  ∀ marker, d path = some marker → Text.eqIgnoreCase (Text.trim marker) txid = true

lemma World.Answers.acts {w w' : World} {q : Op} {a : Answer q} (h : w.Answers q a w') :
    Acts w.disk q a w'.disk := by
  obtain ⟨sends, d, -, hacts, rfl⟩ := h
  exact hacts

lemma World.Answers.heard {w w' : World} {q : Op} {a : Answer q} (h : w.Answers q a w') :
    w'.heard = w.heard ++ [⟨q, a⟩] := by
  obtain ⟨sends, d, -, -, rfl⟩ := h
  rw [World.heard_doing, World.heard_relaying]

/-- A run whose answers are all of a kind. -/
lemma runs_of_kind {α : Type} {kind : (q : Op) → Answer q → Prop} {p : Task α} {w w' : World}
    {r : Option (Except String α)} (hrun : Runs World.Answers p w r w')
    (h : ∀ q a, (⟨q, a⟩ : (q : Op) × Answer q) ∈ w'.heard → kind q a) :
    Runs (World.AnswersOf kind) p w r w' ∧ w.heard <+: w'.heard := by
  induction hrun with
  | stopped p w => exact ⟨.stopped p w, List.prefix_refl _⟩
  | ok a w => exact ⟨.ok a w, List.prefix_refl _⟩
  | error e w => exact ⟨.error e w, List.prefix_refl _⟩
  | ask hans _ ih =>
    obtain ⟨hruns, hpre⟩ := ih h
    have hheard := hans.heard
    refine ⟨.ask ⟨hans, h _ _ (hpre.subset ?_)⟩ hruns, List.IsPrefix.trans ?_ hpre⟩
    · rw [hheard]
      simp
    · rw [hheard]
      exact List.prefix_append _ _

section Programs

variable {kind : (q : Op) → Answer q → Prop} {inv : World → Prop} {w : World} {α β : Type}
  {journal : String} {path : Path} {txid : List Char}

/-- A program with its conditions, for answers of a kind. -/
abbrev Holds (kind : (q : Op) → Answer q → Prop) (inv : World → Prop) (p : Task α)
    (post : Except String α → World → Prop) (w : World) : Prop := p.wp (World.AnswersOf kind) inv post w

/-- A quiet operation, by what it does to the files. -/
lemma holds_query (hst : Stable inv) (hw : inv w) {q : Op} (hq : q.Quiet) {f : Answer q → Task β}
    {post : Except String β → World → Prop}
    (h : ∀ a w', w.Answers q a w' → inv w' → Acts w.disk q a w'.disk → kind q a →
      Holds kind inv (f a) post w') :
    Holds kind inv (.query q >>= f) post w := by
  intro a w' hans
  have hw' := hst w q a w' hw hq hans.1
  exact ⟨hw', h a w' hans.1 hw' hans.1.acts hans.2⟩

/-- A result told with its path, and what follows it. -/
lemma holds_onPath {what : String} {x : Except String α} {f : α → Task β}
    {post : Except String β → World → Prop}
    (hok : ∀ a, x = .ok a → Holds kind inv (f a) post w)
    (herr : ∀ e, x = .error e → ∀ e', post (.error e') w) :
    Holds kind inv (onPath journal what path x >>= f) post w := by
  cases x with
  | ok a => exact hok a rfl
  | error e => exact herr e rfl _

lemma holds_lift {x : Except String α} {f : α → Task β} {post : Except String β → World → Prop}
    (hok : ∀ a, x = .ok a → Holds kind inv (f a) post w)
    (herr : ∀ e, x = .error e → post (.error e) w) :
    Holds kind inv (.lift x >>= f) post w :=
  wp_lift_bind.mpr ⟨hok, herr⟩

/-! ## Reading -/

lemma holds_markerPresent (hst : Stable inv) (hw : inv w) (hnamed : Named w.disk path txid) :
    Holds kind inv (markerPresent journal path txid)
      (upon (fun present w' => w'.disk = w.disk ∧ present = (w.disk path).isSome)
        (fun w' => w'.disk = w.disk ∧ ¬ Sure kind)) w := by
  rw [markerPresent]
  refine holds_query hst hw (q := .read path) trivial fun a w' _ _ hacts hkind => ?_
  obtain ⟨hdisk, hread⟩ := hacts
  refine holds_onPath (fun marker hmarker => ?_) (fun e he _ => ?_)
  · obtain rfl : marker = w.disk path := by
      rcases hread with ⟨e, he⟩ | hread
      · rw [he] at hmarker
        cases hmarker
      · rw [hread] at hmarker
        exact (Except.ok.inj hmarker).symm
    cases hd : w.disk path with
    | none => exact ⟨hdisk, rfl⟩
    | some marker =>
      simp only [hnamed marker hd, if_true]
      exact ⟨hdisk, rfl⟩
  · exact ⟨hdisk, fun hsure => hsure _ _ hkind ⟨e, he⟩⟩

lemma holds_makeDirectory (hst : Stable inv) (hw : inv w) {what : String} :
    Holds kind inv (makeDirectory journal what)
      (upon (fun _ w' => w'.disk = w.disk) (fun w' => w'.disk = w.disk ∧ ¬ Sure kind)) w := by
  rw [makeDirectory]
  refine holds_query hst hw (q := .makeDirectory) trivial fun a w' _ _ hacts hkind => ?_
  have hdisk : w'.disk = w.disk := hacts
  cases a with
  | ok _ => exact hdisk
  | error e => exact ⟨hdisk, fun hsure => hsure _ _ hkind ⟨e, rfl⟩⟩

lemma holds_syncCommitted (hst : Stable inv) (hw : inv w) :
    Holds kind inv (syncCommitted journal path)
      (upon (fun _ w' => w'.disk = w.disk) (fun w' => w'.disk = w.disk ∧ ¬ Sure kind)) w := by
  rw [syncCommitted]
  refine holds_query hst hw (q := .sync path) trivial fun a w' _ _ hacts hkind => ?_
  have hdisk : w'.disk = w.disk := hacts
  cases a with
  | ok _ => exact hdisk
  | error e => exact ⟨hdisk, fun hsure => hsure _ _ hkind ⟨e, rfl⟩⟩

/-! ## Writing -/

/-- Only one file differs. -/
def OnlyAt (path : Path) (d d' : Disk) : Prop := ∀ p, p ≠ path → d' p = d p

lemma OnlyAt.of_eq {d d' : Disk} (h : d' = d) : OnlyAt path d d' := fun p _ => congrFun h p

lemma OnlyAt.set (d : Disk) (content : Option (List Char)) : OnlyAt path d (d.set path content) :=
  fun _ hp => Disk.set_of_ne hp

lemma OnlyAt.trans {d d' d'' : Disk} (h : OnlyAt path d d') (h' : OnlyAt path d' d'') :
    OnlyAt path d d'' := fun p hp => (h' p hp).trans (h p hp)

lemma OnlyAt.agrees {d d' : Disk} {changed : Path → Prop} (h : OnlyAt path.temp d d') :
    Agrees changed d d' := fun p hp _ => h p (by rintro rfl; cases hp)

lemma Path.temp_not_isMarker (path : Path) : ¬ path.temp.IsMarker := by
  rintro (h | h)
  · exact absurd (congrArg Path.temporary h) (by rintro ⟨⟩)
  · exact absurd (congrArg Path.temporary h) (by rintro ⟨⟩)

/-- Removing a file that is there, where the condition bears it. -/
lemma holds_removePresent (hst : Stable inv) (hw : inv w) {what : String}
    (hmarker : ¬ path.IsMarker) (hremove : ∀ w₁ a w₂, inv w₁ → w₁.disk = w.disk → w₁.Answers (.remove path) a w₂ → inv w₂) :
    Holds kind inv (removePresent journal what path)
      (upon (fun _ w' => w'.disk path = none ∧ OnlyAt path w.disk w'.disk)
        (fun w' => (w'.disk = w.disk) ∧ ¬ Sure kind)) w := by
  rw [removePresent]
  refine holds_query hst hw (q := .present path) hmarker fun a w₁ _ hw₁ hacts _ => ?_
  obtain ⟨rfl, hdisk⟩ := hacts
  cases hpresent : (w.disk path).isSome with
  | false =>
    rw [if_neg Bool.false_ne_true]
    refine ⟨?_, OnlyAt.of_eq hdisk⟩
    rw [hdisk]
    exact Option.isNone_iff_eq_none.mp (by simpa using hpresent)
  | true =>
    rw [if_pos rfl, removeFile]
    intro a w₂ hans
    have hw₂ := hremove w₁ a w₂ hw₁ hdisk hans.1
    refine ⟨hw₂, ?_⟩
    have hacts₂ : Acts w₁.disk (.remove path) a w₂.disk := hans.1.acts
    rw [hdisk] at hacts₂
    rcases hacts₂ with ⟨e, rfl, hd⟩ | ⟨rfl, hd⟩
    · exact ⟨hd, fun hsure => hsure _ _ hans.2 ⟨e, rfl⟩⟩
    · rw [hpresent]
      refine ⟨?_, ?_⟩
      · rw [hd, Disk.set_self]
      · rw [hd]
        exact OnlyAt.set _ _

/-- The same for a temporary file. -/
lemma holds_removePresent_temp (hst : Stable inv) (hw : inv w) {what : String} :
    Holds kind inv (removePresent journal what path.temp)
      (upon (fun _ w' => w'.disk path.temp = none ∧ OnlyAt path.temp w.disk w'.disk)
        (fun w' => (w'.disk = w.disk) ∧ ¬ Sure kind)) w :=
  holds_removePresent hst hw path.temp_not_isMarker fun w₁ a w₂ hw₁ _ hans =>
    hst w₁ _ a w₂ hw₁ rfl hans

/-- What is left of a failed attempt. -/
lemma holds_orRemove (hst : Stable inv) (hw : inv w) {what : String} {shown : Path}
    {x : Except String Unit} {d : Disk} (hd : OnlyAt path.temp d w.disk) {q : Unit → World → Prop}
    (hok : x = .ok () → q () w) (herr : ∀ e, x = .error e → ¬ Sure kind) :
    Holds kind inv (orRemove journal what shown path.temp x)
      (upon q (fun w' => OnlyAt path.temp d w'.disk ∧ ¬ Sure kind)) w := by
  cases x with
  | ok u => exact hok rfl
  | error e =>
    rw [orRemove]
    refine holds_query hst hw (q := .remove path.temp) rfl fun a w' _ _ hacts _ => ?_
    refine ⟨hd.trans ?_, herr e rfl⟩
    rcases hacts with ⟨e, -, hd⟩ | ⟨-, hd⟩
    · exact OnlyAt.of_eq hd
    · rw [hd]
      exact OnlyAt.set _ _

lemma holds_writeTemporary (hst : Stable inv) (hw : inv w) {stem noun : String}
    {content : List Char} :
    Holds kind inv (writeTemporary journal stem noun path content)
      (upon (fun _ w' => w'.disk path.temp = some content ∧ OnlyAt path.temp w.disk w'.disk)
        (fun w' => OnlyAt path.temp w.disk w'.disk ∧ ¬ Sure kind)) w := by
  rw [writeTemporary]
  refine wp.seq (holds_removePresent_temp hst hw) hw (fun _ w₁ hw₁ h₁ => ?_) fun e w₁ _ h₁ =>
    ⟨OnlyAt.of_eq h₁.1, h₁.2⟩
  obtain ⟨hnone, hd₁⟩ := h₁
  refine holds_query hst hw₁ (q := .create path.temp) rfl fun a w₂ _ hw₂ hacts hkind => ?_
  refine holds_onPath (fun _ ha => ?_) (fun e he _ => ?_)
  · subst ha
    have hd₂ : OnlyAt path.temp w.disk w₂.disk := by
      rcases hacts with ⟨e, he, -⟩ | ⟨-, -, hd⟩
      · cases he
      · rw [hd]
        exact hd₁.trans (OnlyAt.set _ _)
    refine holds_query hst hw₂ (q := .write path.temp content) rfl fun a w₃ _ hw₃ hacts hkind => ?_
    rcases hacts with ⟨e, torn, rfl, hd⟩ | ⟨rfl, hd⟩
    · refine holds_orRemove hst hw₃ (d := w.disk) ?_ (by rintro ⟨⟩) ?_
      · rw [hd]
        exact hd₂.trans (OnlyAt.set _ _)
      · exact fun e' he' hsure => hsure _ _ hkind ⟨e', he'⟩
    · refine holds_orRemove hst hw₃ (d := w.disk) ?_ (fun _ => ⟨?_, ?_⟩) (by rintro _ ⟨⟩)
      · rw [hd]
        exact hd₂.trans (OnlyAt.set _ _)
      · rw [hd, Disk.set_self]
      · rw [hd]
        exact hd₂.trans (OnlyAt.set _ _)
  · refine ⟨?_, fun hsure => hsure _ _ hkind ⟨e, he⟩⟩
    rcases hacts with ⟨e, -, hd⟩ | ⟨rfl, -, -⟩
    · rw [hd]
      exact hd₁
    · cases he

/-- Putting the temporary file in its place, where the condition bears it. -/
lemma holds_commitTemporary (hst : Stable inv) {noun : String} {content : List Char}
    (htemp : w.disk path.temp = some content)
    (hrename : ∀ a w', w.Answers (.rename path.temp path) a w' →
      (w'.disk = w.disk ∨ w'.disk = (w.disk.set path.temp none).set path (some content)) → inv w') :
    Holds kind inv (commitTemporary journal noun path)
      (upon (fun _ w' => w'.disk = (w.disk.set path.temp none).set path (some content))
        (fun w' => OnlyAt path.temp w.disk w'.disk ∧ ¬ Sure kind)) w := by
  rw [commitTemporary]
  intro a w' hans
  have hacts : Acts w.disk (.rename path.temp path) a w'.disk := hans.1.acts
  rcases hacts with ⟨e, rfl, hd⟩ | ⟨rfl, -, hd⟩
  · have hw' := hrename _ w' hans.1 (.inl hd)
    refine ⟨hw', ?_⟩
    show Holds kind inv (orRemove journal _ path path.temp (.error e)) _ w'
    refine holds_orRemove hst hw' (OnlyAt.of_eq hd) (by rintro ⟨⟩) ?_
    exact fun e' he' hsure => hsure _ _ hans.2 ⟨e', he'⟩
  · rw [htemp] at hd
    exact ⟨hrename _ w' hans.1 (.inr hd), hd⟩

/-! ## Markers -/

lemma OnlyAt.agrees_self {d d' : Disk} (h : OnlyAt path d d') : Agrees (· = path) d d' :=
  fun p _ hne => h p hne

lemma ne_temp (hpath : path.temporary = false) : path ≠ path.temp := by
  intro h
  have htemporary := congrArg Path.temporary h
  rw [hpath] at htemporary
  cases htemporary

/-- The marker a claim writes names its parent. -/
lemma trim_marker (htxid : IsTxid txid) : Text.trim (txid ++ ['\n']) = txid := by
  have hdigit : ∀ c ∈ txid, Text.isWhitespace c = false := fun c hc =>
    Text.not_isWhitespace_of_isHexDigit (List.all_eq_true.mp htxid.2 c hc)
  have hhead : txid.dropWhile Text.isWhitespace = txid := by
    refine List.dropWhile_eq_self_iff.mpr fun hlen => ?_
    exact Bool.not_eq_true _ ▸ hdigit _ (List.getElem_mem hlen)
  have hlast : txid.reverse.dropWhile Text.isWhitespace = txid.reverse := by
    refine List.dropWhile_eq_self_iff.mpr fun hlen => ?_
    exact Bool.not_eq_true _ ▸ hdigit _ (List.mem_reverse.mp (List.getElem_mem hlen))
  have hne : txid ≠ [] := by
    rintro rfl
    cases htxid.1
  rw [Text.trim, List.dropWhile_append, hhead, if_neg (by simpa using hne), List.reverse_append]
  show (((List.dropWhile Text.isWhitespace ('\n' :: txid.reverse))).reverse) = txid
  rw [List.dropWhile_cons_of_pos (by decide), hlast, List.reverse_reverse]

lemma named_set {d : Disk} (htxid : IsTxid txid) : Named (d.set path (some (txid ++ ['\n']))) path txid := by
  intro marker hmarker
  rw [Disk.set_self] at hmarker
  obtain rfl := Option.some.inj hmarker
  rw [trim_marker htxid]
  exact Text.eqIgnoreCase_refl _

/-- A marker is in place and names the parent. -/
def Marked (d : Disk) (path : Path) (txid : List Char) : Prop :=
  (d path).isSome = true ∧ Named d path txid

lemma Named.of_eq {d d' : Disk} (h : Named d path txid) (heq : d' path = d path) :
    Named d' path txid := by
  intro marker hmarker
  rw [heq] at hmarker
  exact h marker hmarker

lemma Marked.of_eq {d d' : Disk} (h : Marked d path txid) (heq : d' path = d path) :
    Marked d' path txid := by
  refine ⟨?_, h.2.of_eq heq⟩
  rw [heq]
  exact h.1

lemma holds_persistMarker (hst : Stable inv) (hw : inv w) (hpath : path.temporary = false)
    (htxid : IsTxid txid) (hnamed : Named w.disk path txid)
    (hmark : ∀ w₁ a w₂, inv w₁ → Same w.disk w₁.disk → w₁.Answers (.rename path.temp path) a w₂ →
      (w₂.disk = w₁.disk ∨
        w₂.disk = (w₁.disk.set path.temp none).set path (some (txid ++ ['\n']))) → inv w₂) :
    Holds kind inv (persistMarker journal path txid)
      (upon (fun _ w' => Marked w'.disk path txid ∧ Agrees (· = path) w.disk w'.disk)
        (fun w' => Named w'.disk path txid ∧ Agrees (· = path) w.disk w'.disk ∧ ¬ Sure kind)) w := by
  rw [persistMarker]
  refine wp.seq (holds_makeDirectory hst hw) hw (fun _ w₁ hw₁ hd₁ => ?_) fun e w₁ _ h₁ =>
    ⟨h₁.1 ▸ hnamed, Agrees.of_eq h₁.1, h₁.2⟩
  have hnamed₁ : Named w₁.disk path txid := by rw [hd₁]; exact hnamed
  refine wp.seq (holds_markerPresent hst hw₁ hnamed₁) hw₁ (fun present w₂ hw₂ h₂ => ?_)
    fun e w₂ _ h₂ => ?_
  · obtain ⟨hd₂, rfl⟩ := h₂
    rw [hd₁] at hd₂
    have hnamed₂ : Named w₂.disk path txid := by rw [hd₂]; exact hnamed
    -- a marker that is there is only synced
    cases hpresent : (w₁.disk path).isSome with
    | true =>
      rw [if_pos rfl]
      refine (holds_syncCommitted hst hw₂).mono fun x w₃ h₃ => ?_
      cases x with
      | ok _ =>
        obtain h₃ : w₃.disk = w₂.disk := h₃
        refine ⟨⟨?_, ?_⟩, Agrees.of_eq (h₃.trans hd₂)⟩
        · rw [h₃, hd₂, ← hd₁]
          exact hpresent
        · rw [h₃]
          exact hnamed₂
      | error e =>
        refine ⟨?_, Agrees.of_eq (h₃.1.trans hd₂), h₃.2⟩
        rw [h₃.1]
        exact hnamed₂
    | false =>
      rw [if_neg Bool.false_ne_true]
      refine wp.seq (holds_writeTemporary hst hw₂) hw₂ (fun _ w₃ hw₃ h₃ => ?_) fun e w₃ _ h₃ => ?_
      · obtain ⟨htemp, hd₃⟩ := h₃
        rw [hd₂] at hd₃
        have hagrees : Agrees (· = path) w.disk w₃.disk := hd₃.agrees
        refine wp.seq (holds_commitTemporary hst htemp
          fun a w₄ hans hdisk => hmark w₃ a w₄ hw₃ hd₃.agrees hans hdisk) hw₃
          (fun _ w₄ hw₄ hd₄ => ?_) fun e w₄ _ h₄ => ?_
        · refine (holds_syncCommitted hst hw₄).mono fun x w₅ h₅ => ?_
          -- the rename took place, whether or not the directory could be synced
          have hd₅ : w₅.disk = (w₃.disk.set path.temp none).set path (some (txid ++ ['\n'])) := by
            cases x with
            | ok _ => exact Eq.trans h₅ hd₄
            | error e => exact h₅.1.trans hd₄
          have hmarked : Marked w₅.disk path txid := by
            rw [hd₅]
            refine ⟨?_, named_set htxid⟩
            rw [Disk.set_self]
            rfl
          have hagrees₅ : Agrees (· = path) w.disk w₅.disk := by
            rw [hd₅]
            refine hagrees.trans ?_
            have hsame : Same w₃.disk (w₃.disk.set path.temp none) := same_set _ rfl _
            exact hsame.agrees.trans (OnlyAt.set _ _).agrees_self
          cases x with
          | ok _ => exact ⟨hmarked, hagrees₅⟩
          | error e => exact ⟨hmarked.2, hagrees₅, h₅.2⟩
        · have hpathEq : w₄.disk path = w₂.disk path := by
            rw [h₄.1 path (ne_temp hpath), hd₃ path (ne_temp hpath), hd₂]
          exact ⟨hnamed₂.of_eq hpathEq, hagrees.trans h₄.1.agrees, h₄.2⟩
      · rw [hd₂] at h₃
        refine ⟨?_, h₃.1.agrees, h₃.2⟩
        exact hnamed.of_eq (h₃.1 path (ne_temp hpath))
  · have hd : w₂.disk = w.disk := h₂.1.trans hd₁
    refine ⟨?_, Agrees.of_eq hd, h₂.2⟩
    rw [hd]
    exact hnamed

end Programs

end Pickaxe.Photon
