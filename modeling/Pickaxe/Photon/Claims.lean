/-
# Claims over the life of a miner

Processes follow one another: each resolves the claim it finds before it searches, journals a claim
of its own, attempts it until it is resolved, and may be stopped at any operation.  `claims_ordered`
is what every such life keeps.
-/
import Pickaxe.Photon.Settle
import Pickaxe.Photon.Verified
import Mathlib.Data.Countable.Basic
import Mathlib.Logic.Equiv.List

namespace Pickaxe.Photon

open Lib Program
open Electric (Schnorr)

variable [Hasher] [Records] {ground : Ground} {old : Option (List Char)}
  {pending : PendingSubmission} {claim : Option ClaimContext} {w₀ w w' : World} {journal : String}
  {cfg : RuntimeConfig}

/-! ## A process starts -/

/-- The files of the claim in hand, or of none. -/
def Disk.Holding (d : Disk) : Option PendingSubmission → Prop
  | none => d.Free
  | some pending => d.Carries pending

lemma Disk.OneClaim.free {d : Disk} (h : d.OneClaim) (hjournal : d .journal = none) : d.Free := by
  rcases h with h | ⟨pending, h⟩
  · exact h
  · obtain ⟨text, htext, -⟩ := h.journal
    rw [hjournal] at htext
    cases htext

/-- What is loaded is what the files hold. -/
lemma always_load (hinv : RestInv ground old w) :
    Always (RestInv ground old) (PendingSubmission.load journal)
      (upon (fun loaded w' => w'.disk.Holding loaded ∧ w.heard <+: w'.heard) (fun _ => True)) w := by
  rw [PendingSubmission.load]
  refine holds_query stable_restInv hinv (q := .read .journal) trivial fun a w₁ hans hinv₁ hacts _ => ?_
  refine holds_onPath (fun bytes hbytes => ?_) (fun _ _ _ => trivial)
  subst hbytes
  obtain rfl : bytes = w.disk .journal := by
    rcases hacts.2 with ⟨e, he⟩ | hread
    · cases he
    · exact Except.ok.inj hread
  have hheard := hans.heard_grows
  rw [← hacts.1] at *
  cases hjournal : w₁.disk .journal with
  | none => exact ⟨hinv₁.1.free hjournal, hheard⟩
  | some bytes =>
    refine holds_onPath (fun loaded hdecode => ?_) (fun _ _ _ => trivial)
    refine holds_lift (fun _ hvalid => ?_) (fun _ _ => trivial)
    refine ⟨?_, hheard⟩
    rcases hinv₁.1 with hfree | ⟨pending, hcarries⟩
    · rw [hfree.journal] at hjournal
      cases hjournal
    · obtain ⟨text, htext, hdecode'⟩ := hcarries.journal
      rw [hjournal] at htext
      obtain rfl := Option.some.inj htext
      rw [hdecode] at hdecode'
      obtain rfl := Except.ok.inj hdecode'
      exact hcarries

/-- Where there is no journal, no orphan is found. -/
lemma always_refuseOrphan (hinv : RestInv ground old w) (hfree : w.disk.Free) {path : Path}
    (hpath : path.IsMarker) :
    Always (RestInv ground old) (PendingSubmission.refuseOrphan journal path)
      (upon (fun _ w' => w'.disk.Free) (fun _ => False)) w := by
  have hnone : w.disk path = none := by
    rcases hpath with rfl | rfl
    · exact hfree.attempted
    · exact hfree.accepted
  rw [PendingSubmission.refuseOrphan]
  intro a w₁ hans
  have hdisk : w₁.disk = w.disk := hans.1.acts.2
  have hbase := hinv.2.answers hans.1 trivial
    (fun p _ hq => by cases hq; exact hnone)
    (fun d' hacts => .inl (congrFun hacts.2 _)) (fun text htext => .inl (hdisk ▸ htext))
  obtain rfl : a = (w.disk path).isSome := hans.1.acts.1
  have hfree₁ : w₁.disk.Free := hdisk ▸ hfree
  rw [hnone]
  exact ⟨⟨.inl hfree₁, hbase⟩, hfree₁⟩

lemma Disk.Free.journaled {d : Disk} (h : d.Free) (hvalid : pending.validate = .ok ()) :
    ((d.set Path.journal.temp none).set .journal (some (Records.encode pending))).Carries pending where
  journal := ⟨_, Disk.set_self, Records.decode_encode pending⟩
  valid := hvalid
  attempted := by
    intro marker hmarker
    rw [Disk.set_of_ne (by decide), Disk.set_of_ne (by decide), h.attempted] at hmarker
    cases hmarker
  accepted := by
    intro marker hmarker
    rw [Disk.set_of_ne (by decide), Disk.set_of_ne (by decide), h.accepted] at hmarker
    cases hmarker

/-- A new claim is journaled where there is none. -/
lemma always_persistNew (hinv : RestInv ground old w) :
    Always (RestInv ground old) (pending.persistNew journal)
      (upon (fun _ w' => w'.disk.Carries pending) (fun _ => True)) w := by
  rw [PendingSubmission.persistNew]
  refine holds_lift (fun _ hvalid => ?_) fun _ _ => trivial
  refine Always.quiet stable_restInv hinv quiet_makeDirectory (fun _ w₁ hinv₁ _ => ?_)
    fun _ _ _ _ => trivial
  have hsync : ∀ {w₂ : World}, RestInv ground old w₂ → w₂.disk.Carries pending →
      Always (RestInv ground old) (syncCommitted journal .journal)
        (upon (fun _ w' => w'.disk.Carries pending) (fun _ => True)) w₂ := by
    intro w₂ hinv₂ hcarries
    refine (always_quiet stable_restInv hinv₂ quiet_syncCommitted).mono fun x w₃ h => ?_
    cases x with
    | ok _ => exact hcarries.same h.same
    | error e => trivial
  have hmarker : ¬ Path.journal.IsMarker := by
    rintro (h | h) <;> cases h
  refine holds_query stable_restInv hinv₁ (q := .present .journal) hmarker
    fun present w₂ hans hinv₂ hacts _ => ?_
  obtain ⟨rfl, hdisk⟩ := hacts
  rw [← hdisk]
  -- a journal of this claim is only synced; one of another is refused
  cases hjournal : w₂.disk .journal with
  | some text =>
    rw [Option.isSome_some, if_pos rfl]
    refine wp.seq (always_load hinv₂) hinv₂ (fun loaded w₃ hinv₃ h₃ => ?_) fun _ _ _ _ => trivial
    split_ifs with hloaded
    · rw [hloaded] at h₃
      exact hsync hinv₃ h₃.1
    · trivial
  | none =>
    rw [Option.isSome_none, if_neg Bool.false_ne_true]
    -- without one, no file of a claim may be left over
    have hfree := hinv₂.1.free hjournal
    refine wp.seq (always_refuseOrphan hinv₂ hfree (.inl rfl)) hinv₂ (fun _ w₃ hinv₃ hfree₃ => ?_)
      fun _ _ _ _ => trivial
    refine wp.seq (always_refuseOrphan hinv₃ hfree₃ (.inr rfl)) hinv₃ (fun _ w₄ hinv₄ hfree₄ => ?_)
      fun _ _ _ _ => trivial
    refine wp.seq (holds_writeTemporary stable_restInv hinv₄) hinv₄ (fun _ w₅ hinv₅ h₅ => ?_)
      fun _ _ _ _ => trivial
    obtain ⟨htemp, honly⟩ := h₅
    have hfree₅ : w₅.disk.Free := hfree₄.same honly.agrees
    refine wp.seq (holds_commitTemporary stable_restInv htemp fun a w₆ hans hdisk => ?_) hinv₅
      (fun _ w₆ hinv₆ h₆ => ?_) fun _ _ _ _ => trivial
    · refine ⟨?_, hinv₅.2.answers hans trivial (fun _ _ => by rintro ⟨⟩)
        (fun d' _ => .inr (.inl hfree₅.journal)) fun text htext => ?_⟩
      · rcases hdisk with hdisk | hdisk
        · exact hdisk ▸ .inl hfree₅
        · exact hdisk ▸ .inr ⟨pending, hfree₅.journaled hvalid⟩
      · rcases hdisk with hdisk | hdisk
        · exact .inl (hdisk ▸ htext)
        · rw [hdisk, Disk.set_of_ne (by decide), Disk.set_of_ne (by decide)] at htext
          exact .inl htext
    · exact hsync hinv₆ (h₆ ▸ hfree₅.journaled hvalid)

/-- The probe finds the files of one claim or of none as they were. -/
lemma always_probe (hinv : RestInv ground old w) {claim : Option PendingSubmission}
    (hholding : w.disk.Holding claim) :
    Always (RestInv ground old) (PendingSubmission.probe journal)
      (fun _ w' => w'.disk.Holding claim) w := by
  have hmarker : ¬ Path.journal.IsMarker := by
    rintro (h | h) <;> cases h
  rw [PendingSubmission.probe]
  refine holds_query stable_restInv hinv (q := .present .journal) hmarker
    fun present w₁ hans hinv₁ hacts _ => ?_
  obtain ⟨rfl, hdisk⟩ := hacts
  rw [← hdisk] at hholding ⊢
  cases claim with
  | some pending =>
    obtain ⟨text, htext, -⟩ := Disk.Carries.journal hholding
    rw [htext]
    exact hholding
  | none =>
    have hfree : w₁.disk.Free := hholding
    rw [hfree.journal, Option.isSome_none, if_neg Bool.false_ne_true]
    refine wp.seq (always_refuseOrphan hinv₁ hfree (.inl rfl)) hinv₁ (fun _ w₂ hinv₂ hfree₂ => ?_)
      fun _ _ _ h => h.elim
    refine wp.seq (always_refuseOrphan hinv₂ hfree₂ (.inr rfl)) hinv₂ (fun _ w₃ hinv₃ hfree₃ => ?_)
      fun _ _ _ h => h.elim
    exact (always_quiet stable_restInv hinv₃ quiet_makeDirectory).mono
      fun _ _ h => hfree₃.same h.same

lemma always_prepare (hinv : RestInv ground old w) {winner : VerifiedWinner} {generationId : ℕ}
    {live : LiveJob} {authorized : Except String (Recipient × ℕ)} :
    Always (RestInv ground old)
      (prepareSubmissionForNetwork winner cfg generationId live authorized journal)
      (upon (fun pending w' => w'.disk.Carries pending) (fun _ => True)) w := by
  unfold prepareSubmissionForNetwork
  split_ifs
  · trivial
  · refine holds_lift (fun payout _ => ?_) fun _ _ => trivial
    refine holds_lift (fun pending _ => ?_) fun _ _ => trivial
    exact wp.seq (always_persistNew hinv) hinv (fun _ _ _ h => h) fun _ _ _ _ => trivial

/-! ## Attempts until the claim is resolved -/

omit [Hasher] [Records] in
lemma Seen.mono {heard heard' : List ((q : Op) × Answer q)} {fresh : LiveJob}
    (h : Seen claim pending heard fresh) (hwithin : heard <:+: heard') :
    Seen claim pending heard' fresh := by
  obtain ⟨hauth, hcurrent, a, hknown, h⟩ := h
  refine ⟨hauth, hcurrent, a, hknown, ?_⟩
  cases claim with
  | none => exact h.trans hwithin
  | some context =>
    obtain ⟨now, hlags, h⟩ := h
    exact ⟨now, hlags, h.trans hwithin⟩

/-- What holds of a claim, or is seen in the call that began at a state. -/
def Ground.during (gone : PendingSubmission → LiveJob → Prop) (w : World)
    (claim : Option ClaimContext) : Ground where
  holds heard pending live :=
    gone pending live ∨ Seen claim pending (heard.drop w.heard.length) live
  grows hpre h := h.imp_right fun h => h.mono (hpre.drop _).isInfix

/-- One attempt and its outcome. -/
lemma always_attemptAndSettle {gone : PendingSubmission → LiveJob → Prop}
    (hinv : Inv (.during gone w₀ claim) old pending w) (hpre : w₀.heard <+: w.heard) :
    Always (RestInv (.during gone w₀ claim) old)
      (attemptPendingSubmission cfg pending journal claim >>= settleAttempt pending journal)
      (upon (fun resolved w' => if resolved then w'.disk.Free else
          w'.disk.Carries pending ∧ w₀.heard <+: w'.heard)
        (fun w' => w'.disk.Carries pending)) w := by
  have hattempt : Always (Inv (.during gone w₀ claim) old pending)
      (attemptPendingSubmission cfg pending journal claim)
      (upon (fun attempt w' => Verdict w claim pending (.ok attempt) w' ∧ w.heard <+: w'.heard)
        (fun _ => True)) w := by
    refine Holds.heard ((always_attempt hinv).mono fun x w' hx => ?_)
    cases x with
    | ok attempt => exact hx
    | error e => trivial
  refine wp.seq_of_le (fun _ h => ⟨.inr ⟨pending, h.1⟩, h.2⟩) hattempt hinv
    (fun attempt w₁ hinv₁ h₁ => ?_) fun _ _ hinv₁ _ => hinv₁.1
  have hpre₁ := hpre.trans h₁.2
  have hsettle : Always (SettlingInv (.during gone w₀ claim) old pending)
      (settleAttempt pending journal attempt) _ w₁ :=
    (always_settle hinv₁ h₁.1 fun fresh hseen => .inr (hseen.mono ?_)).heard
  · refine (hsettle.mono fun x w₂ hx => ?_).weaken
      fun _ h => ⟨h.1.elim (fun h => .inr ⟨pending, h⟩) .inl, h.2⟩
    cases x with
    | error e => exact hx
    | ok resolved =>
      obtain ⟨hx, hpre₂⟩ := hx
      cases resolved with
      | true => exact hx
      | false => exact ⟨hx, hpre₁.trans hpre₂⟩
  · obtain ⟨x, hx⟩ := hpre
    rw [World.since, ← hx, List.length_append, ← List.drop_drop]
    exact (List.drop_suffix _ _).isInfix

/-- Attempts, round by round. -/
lemma always_resolveRounds {gone : PendingSubmission → LiveJob → Prop} {rounds : ℕ}
    (hinv : Inv (.during gone w₀ none) old pending w) (hpre : w₀.heard <+: w.heard) :
    Always (RestInv (.during gone w₀ none) old) (resolveRounds cfg journal pending rounds)
      (upon (fun resolved w' => resolved = true → w'.disk.Free) (fun _ => True)) w := by
  have hle : ∀ {w}, Inv (.during gone w₀ none) old pending w → RestInv (.during gone w₀ none) old w :=
    fun h => ⟨.inr ⟨pending, h.1⟩, h.2⟩
  induction rounds generalizing w with
  | zero => rintro ⟨⟩
  | succ rounds ih =>
    have hround : Always (RestInv (.during gone w₀ none) old)
        ((attemptPendingSubmission cfg pending journal none >>= settleAttempt pending journal) >>=
          fun resolved => if resolved then .ok true else resolveRounds cfg journal pending rounds)
        (upon (fun resolved w' => resolved = true → w'.disk.Free) (fun _ => True)) w := by
      refine wp.seq (always_attemptAndSettle hinv hpre) (hle hinv) (fun resolved w₁ hinv₁ h₁ => ?_)
        fun _ _ _ _ => trivial
      cases resolved with
      | true => exact fun _ => h₁
      | false => exact ih ⟨h₁.1, hinv₁.2⟩ h₁.2
    rw [Program.bind_assoc] at hround
    exact hround

/-- A process that starts: it resolves the claim it finds, and checks that none is left. -/
def startMining (cfg : RuntimeConfig) (journal : String) (rounds : ℕ) : Task Bool := do
  let resolved ← resolvePendingBeforeSearch cfg journal rounds
  if resolved then do
    PendingSubmission.probe journal
    return true
  else .ok false

lemma always_startMining {gone : PendingSubmission → LiveJob → Prop} {rounds : ℕ}
    (hinv : RestInv (.during gone w none) old w) :
    Always (RestInv (.during gone w none) old) (startMining cfg journal rounds)
      (upon (fun ready w' => ready = true → w'.disk.Free) (fun _ => True)) w := by
  have hresolve : Always (RestInv (.during gone w none) old)
      (resolvePendingBeforeSearch cfg journal rounds)
      (upon (fun ready w' => ready = true → w'.disk.Free) (fun _ => True)) w := by
    refine wp.seq (always_load hinv) hinv (fun loaded w₁ hinv₁ h₁ => ?_) fun _ _ _ _ => trivial
    cases loaded with
    | none => exact fun _ => h₁.1
    | some pending =>
      exact holds_lift (fun _ _ => always_resolveRounds ⟨h₁.1, hinv₁.2⟩ h₁.2) fun _ _ => trivial
  refine wp.seq hresolve hinv (fun ready w₁ hinv₁ h₁ => ?_) fun _ _ _ _ => trivial
  cases ready with
  | false => rintro ⟨⟩
  | true =>
    have hprobe : Always (RestInv (.during gone w none) old) (PendingSubmission.probe journal)
        (upon (fun _ w' => w'.disk.Free) (fun _ => True)) w₁ := by
      have hfree : w₁.disk.Holding none := h₁ rfl
      refine (always_probe hinv₁ hfree).mono fun x w₂ h₂ => ?_
      cases x with
      | ok _ => exact h₂
      | error e => trivial
    exact wp.seq hprobe hinv₁ (fun _ _ _ h _ => h) fun _ _ _ _ => trivial

/-! ## The life of a miner -/

/-- No process runs, or one that has a claim in hand or none. -/
inductive Phase where
  | down
  | searching (claim : Option PendingSubmission)

structure System where
  phase : Phase
  world : World

/-- The process has ended, and with it the relay. -/
def World.ended (w : World) : World := { w with handed := [] }

/-- The process after a call, or after it was stopped in the call. -/
def System.after {α : Type} (r : Option (Except String α))
    (claim : Except String α → Option PendingSubmission) (w : World) : System :=
  match r with
  | some x => ⟨.searching (claim x), w⟩
  | none => ⟨.down, w.ended⟩

/-- What is noted of a step: the attempts of a call share the memory of recent spends, and what was
heard in it. -/
inductive Call where
  | attempt (claim : Option ClaimContext) (heard : List ((q : Op) × Answer q))
  | other

/-- One call of a process on the claim's files, or the start of one. -/
inductive Step : System → Call → System → Prop
  | failed {cfg : RuntimeConfig} {journal : String} {rounds : ℕ} {w w' : World}
    {r : Option (Except String Bool)}
    (hrun : Runs World.Answers (startMining cfg journal rounds) w r w') (hr : r ≠ some (.ok true)) :
    Step ⟨.down, w⟩ (.attempt none (w.since w')) ⟨.down, w'.ended⟩
  | started {cfg : RuntimeConfig} {journal : String} {rounds : ℕ} {w w' : World}
    (hrun : Runs World.Answers (startMining cfg journal rounds) w (some (.ok true)) w') :
    Step ⟨.down, w⟩ (.attempt none (w.since w')) ⟨.searching none, w'⟩
  | prepared {cfg : RuntimeConfig} {journal : String} {winner : VerifiedWinner} {generationId : ℕ}
    {live : LiveJob} {authorized : Except String (Recipient × ℕ)} {w w' : World}
    {r : Option (Except String PendingSubmission)}
    (hrun : Runs World.Answers
      (prepareSubmissionForNetwork winner cfg generationId live authorized journal) w r w') :
    Step ⟨.searching none, w⟩ .other (.after r (fun x => x.toOption) w')
  | attempted {cfg : RuntimeConfig} {journal : String} {pending : PendingSubmission}
    {claim : Option ClaimContext} {w w' : World} {r : Option (Except String Bool)}
    (hrun : Runs World.Answers
      (attemptPendingSubmission cfg pending journal claim >>= settleAttempt pending journal) w r w') :
    Step ⟨.searching (some pending), w⟩ (.attempt claim (w.since w'))
      (.after r (fun
        | .ok true => none
        | _ => some pending) w')
  | probed {journal : String} {claim : Option PendingSubmission} {w w' : World}
    {r : Option (Except String Unit)}
    (hrun : Runs World.Answers (PendingSubmission.probe journal) w r w') :
    Step ⟨.searching claim, w⟩ .other (.after r (fun _ => claim) w')
  | relayed {claim : Option PendingSubmission} {w : World} {sends : List (List Char)}
    (hsends : ∀ rawTxHex ∈ sends, rawTxHex ∈ w.handed) :
    Step ⟨.searching claim, w⟩ .other ⟨.searching claim, w.relaying sends⟩

/-- A life whose calls are all of a kind. -/
inductive Reaches (allowed : Call → Prop) (s : System) : System → Prop
  | refl : Reaches allowed s s
  | step {s' s'' : System} {call : Call} (h : Reaches allowed s s') (hstep : Step s' call s'')
    (hcall : allowed call) : Reaches allowed s s''

/-! ## What every life keeps -/

/-- The files are those of the claim that the process has in hand. -/
def System.Sound (ground : Ground) (old : Option (List Char)) (s : System) : Prop :=
  RestInv ground old s.world ∧
    ∀ pending, s.phase = .searching (some pending) → s.world.disk.Carries pending

/-- A call's attempts see nothing but claims that are gone. -/
def Call.Sees (gone : PendingSubmission → LiveJob → Prop) : Call → Prop
  | .attempt claim heard => ∀ pending fresh, pending.isDirect = true →
    Seen claim pending heard fresh → gone pending fresh
  | .other => True

lemma Base.reground {ground' : Ground} (h : Base ground old w)
    (himp : ∀ pending live, pending.isDirect = true → ground.holds w.heard pending live →
      ground'.holds w.heard pending live) : Base ground' old w := by
  refine ⟨h.orderly, h.handed, fun text htext => (h.record text htext).imp_right ?_⟩
  rintro ⟨resolved, hdecode, pending, live, hvalid, hconfirmed | ⟨hexpected, hparent, hholds, hstale⟩⟩
  · exact ⟨resolved, hdecode, pending, live, hvalid, .inl hconfirmed⟩
  · exact ⟨resolved, hdecode, pending, live, hvalid, .inr ⟨hexpected, hparent,
      fun hdirect => himp pending live hdirect (hholds hdirect), hstale⟩⟩

lemma Base.ended (h : Base ground old w) : Base ground old w.ended :=
  ⟨h.orderly, fun _ hmem => absurd hmem List.not_mem_nil, h.record⟩

omit [Hasher] [Records] in
/-- The end of a run, whose conditions were for all answers. -/
lemma Always.sound {α : Type} {inv : World → Prop} {p : Task α}
    {post : Except String α → World → Prop} {r : Option (Except String α)}
    (h : Always inv p post w) (hinv : inv w) (hrun : Runs World.Answers p w r w') :
    inv w' ∧ ∀ x, r = some x → post x w' :=
  wp.sound h hinv (runs_of_kind hrun fun _ _ _ => trivial).1

section Sound

variable {gone : PendingSubmission → LiveJob → Prop} {s s' : System} {call : Call}

lemma RestInv.during (h : RestInv (.of gone) old w) (claim : Option ClaimContext) :
    RestInv (.during gone w claim) old w :=
  ⟨h.1, h.2.reground fun _ _ _ => .inl⟩

/-- What was seen in a call that has ended is gone. -/
lemma RestInv.of_during (h : RestInv (.during gone w claim) old w')
    (hsees : (Call.attempt claim (w.since w')).Sees gone) : RestInv (.of gone) old w' := by
  refine ⟨h.1, h.2.reground fun pending live hdirect hholds => ?_⟩
  rcases hholds with hgone | hseen
  · exact hgone
  · exact hsees pending live hdirect hseen

lemma System.sound_after {α : Type} {r : Option (Except String α)}
    {next : Except String α → Option PendingSubmission} (hinv : RestInv ground old w)
    (hnext : ∀ x pending, r = some x → next x = some pending → w.disk.Carries pending) :
    (System.after r next w).Sound ground old := by
  cases r with
  | none => exact ⟨⟨hinv.1, hinv.2.ended⟩, by rintro _ ⟨⟩⟩
  | some x =>
    refine ⟨hinv, fun pending hphase => hnext x pending rfl ?_⟩
    exact Phase.searching.inj hphase

/-- One step of a miner's life keeps its files in order. -/
theorem System.Sound.step (h : s.Sound (.of gone) old) (hstep : Step s call s')
    (hsees : call.Sees gone) : s'.Sound (.of gone) old := by
  cases hstep with
  | failed hrun hr =>
    obtain ⟨hinv, -⟩ := (always_startMining (h.1.during none)).sound (h.1.during none) hrun
    obtain ⟨hone, hbase⟩ := hinv.of_during hsees
    exact ⟨⟨hone, hbase.ended⟩, by rintro _ ⟨⟩⟩
  | started hrun =>
    obtain ⟨hinv, hfree⟩ := (always_startMining (h.1.during none)).sound (h.1.during none) hrun
    exact ⟨hinv.of_during hsees, by rintro _ ⟨⟩⟩
  | prepared hrun =>
    obtain ⟨hinv, hpost⟩ := (always_prepare h.1).sound h.1 hrun
    refine sound_after hinv fun x pending hx hnext => ?_
    cases x with
    | ok loaded =>
      obtain rfl := Option.some.inj hnext
      exact hpost _ hx
    | error e => cases hnext
  | @attempted _ _ pending claim w w' r hrun =>
    have hduring : Inv (.during gone w claim) old pending w := ⟨h.2 pending rfl, (h.1.during claim).2⟩
    obtain ⟨hinv, hpost⟩ :=
      (always_attemptAndSettle hduring (List.prefix_refl _)).sound (h.1.during claim) hrun
    refine sound_after (hinv.of_during hsees) fun x other hx hnext => ?_
    have hx' := hpost x hx
    cases x with
    | error e =>
      obtain rfl := Option.some.inj hnext
      exact hx'
    | ok resolved =>
      cases resolved with
      | true => cases hnext
      | false =>
        obtain rfl := Option.some.inj hnext
        exact hx'.1
  | @probed _ claim w w' r hrun =>
    have hholding : ∃ held, w.disk.Holding held ∧ ∀ pending, claim = some pending → held = claim := by
      cases claim with
      | some pending => exact ⟨some pending, h.2 pending rfl, fun _ _ => rfl⟩
      | none =>
        rcases h.1.1 with hfree | ⟨pending, hcarries⟩
        · exact ⟨none, hfree, by rintro _ ⟨⟩⟩
        · exact ⟨some pending, hcarries, by rintro _ ⟨⟩⟩
    obtain ⟨held, hheld, hclaim⟩ := hholding
    obtain ⟨hinv, hpost⟩ := (always_probe h.1 hheld).sound h.1 hrun
    refine sound_after hinv fun x pending hx hnext => ?_
    have hholds := hpost x hx
    rw [hclaim pending hnext, hnext] at hholds
    exact hholds
  | relayed hsends => exact ⟨⟨h.1.1, h.1.2.relaying hsends⟩, h.2⟩

lemma System.Sound.reaches {s₀ : System} (h : s₀.Sound (.of gone) old)
    (hreaches : Reaches (Call.Sees gone) s₀ s) : s.Sound (.of gone) old := by
  induction hreaches with
  | refl => exact h
  | step _ hstep hcall ih => exact ih.step hstep hcall

end Sound

/-- Over every life of a miner that begins without a log, with the files of at most one claim: there
is at most one claim on disk at any time; the log is in order; and a new record on disk is
justified. -/
theorem claims_ordered {s₀ s : System} (hphase : s₀.phase = .down) (hone : s₀.world.disk.OneClaim)
    (hlog : s₀.world.log = []) (hhanded : s₀.world.handed = [])
    (hreaches : Reaches (fun _ => True) s₀ s) :
    s.world.disk.OneClaim ∧ Orderly s.world.log ∧
      ∀ text, s.world.disk .resolved = some text → s₀.world.disk .resolved ≠ some text →
        ∃ resolved, Records.decodeResolved text = .ok resolved ∧
          Justified (.of fun _ _ => True) s.world.heard resolved := by
  have hstart : s₀.Sound (.of fun _ _ => True) (s₀.world.disk .resolved) := by
    refine ⟨⟨hone, ?_, ?_, fun text htext => .inl htext.symm⟩, ?_⟩
    · rw [hlog]
      exact .nil
    · rw [hhanded]
      exact fun _ hmem => absurd hmem List.not_mem_nil
    · rw [hphase]
      rintro _ ⟨⟩
  have hreaches' : Reaches (Call.Sees fun _ _ => True) s₀ s := by
    induction hreaches with
    | refl => exact .refl
    | @step _ _ call _ hstep _ ih =>
      refine .step ih hstep ?_
      cases call with
      | attempt claim heard => exact fun _ _ _ _ => trivial
      | other => trivial
  obtain ⟨⟨hone, hbase⟩, -⟩ := hstart.reaches hreaches'
  refine ⟨hone, hbase.orderly, fun text htext hnew => ?_⟩
  exact (hbase.record text htext).resolve_left fun h => hnew h.symm

/-! ## A claim that is accepted at once -/

section Sample

instance instCountableChar : Countable Char := Function.Injective.countable fun _ _ h => Char.toNat_inj.mp h

instance instCountableString : Countable String := Function.Injective.countable fun _ _ h => String.toList_injective h

instance : Countable PendingSubmission := by
  refine Function.Injective.countable (f := fun p : PendingSubmission => (p.version, p.network,
    p.mode, p.fundingOutpoint, p.generationId, p.expectedHeight, p.expectedBatonTxid,
    p.expectedBatonVout, p.parentTxid, p.parentHex, p.settlementTxid, p.settlementHex,
    p.resultingBatonTxid, p.resultingBatonVout, p.resultingBatonValueSats, p.minerTokenAmount,
    p.donationTokenAmount)) ?_
  rintro ⟨⟩ ⟨⟩ h
  simpa only [Prod.mk.injEq, PendingSubmission.mk.injEq] using h

instance : Countable ResolvedSubmission := by
  refine Function.Injective.countable (f := fun r : ResolvedSubmission => (r.version,
    r.journalVersion, r.network, r.mode, r.fundingOutpoint, r.generationId, r.expectedHeight,
    r.expectedBatonTxid, r.expectedBatonVout, r.parentTxid, r.settlementTxid, r.parentAttempted,
    r.parentAccepted, r.observedHeight, r.observedBatonTxid, r.observedBatonVout, r.reason)) ?_
  rintro ⟨⟩ ⟨⟩ h
  simpa only [Prod.mk.injEq, ResolvedSubmission.mk.injEq] using h

/-- A text for each value of a countable type. -/
noncomputable def countText {α : Type} [Countable α] (a : α) : List Char :=
  List.replicate ((exists_injective_nat α).choose a) '1'

open Classical in
/-- The value of a text. -/
noncomputable def countRead {α : Type} [Countable α] (text : List Char) : Except String α :=
  if h : ∃ a : α, countText a = text then .ok h.choose else .error "no value"

omit [Hasher] [Records] in
lemma countRead_countText {α : Type} [Countable α] (a : α) : countRead (countText a) = .ok a := by
  have h : ∃ b : α, countText b = countText a := ⟨a, rfl⟩
  rw [countRead, dif_pos h]
  have heq := congrArg List.length h.choose_spec
  simp only [countText, List.length_replicate] at heq
  exact congrArg _ ((exists_injective_nat α).choose_spec heq)

/-- One way to write journals and records. -/
@[reducible] noncomputable def sampleRecords : Records where
  encode := countText
  decode := countRead
  decode_encode := countRead_countText
  encodeResolved := countText
  decodeResolved := countRead
  decodeResolved_encodeResolved := countRead_countText

/-- A miner whose files are those of no claim. -/
def sampleStart : World := ⟨fun _ => none, [], []⟩

/-- The memory of recent spends is empty, and the relay is there. -/
def sampleContext : ClaimContext := ⟨⟨[]⟩, sampleJob, true⟩

/-- The three calls for the sample's claim, whose reward is authorized as `sample_authorized` says: it
is journaled, accepted and resolved. -/
def sampleCalls (tx : Bytes) (pending : PendingSubmission) : Prop :=
  let calm := calmWorld sampleJob pending.parentTxid
  let x := play calm (startMining sampleNetwork "journal" 0) sampleStart
  let y := play calm (prepareSubmissionForNetwork (sampleWinnerOf tx).toVerifiedWinner sampleNetwork
    1 sampleJob (.ok (.miner, 2 ^ 33)) "journal") x.2
  let z := play calm (attemptPendingSubmission sampleNetwork pending "journal"
    (some sampleContext) >>= settleAttempt pending "journal") y.2
  x.1 = .ok true ∧ y.1 = .ok pending ∧ z.1 = .ok true ∧
    z.2.handed = [pending.parentHex] ∧ z.2.disk .journal = none
deriving Decidable

/-- The calls for the claim, as it is journaled. -/
def samplePlays (tx : Bytes) : Bool :=
  (PendingSubmission.fromDirect (sampleWinnerOf tx).toVerifiedWinner sampleNetwork .miner
    (2 ^ 33)).toOption.any fun pending => decide (sampleCalls tx pending)

/-- A claim that is journaled and resolved, and then sent once more by the relay. -/
lemma relayed_life {rounds generationId : ℕ} {winner : VerifiedWinner} {live : LiveJob}
    {authorized : Except String (Recipient × ℕ)} {w₁ w₂ w₃ : World} {rawTxHex : List Char}
    (hstart : Runs World.Answers (startMining cfg journal rounds) w (some (.ok true)) w₁)
    (hprepare : Runs World.Answers
      (prepareSubmissionForNetwork winner cfg generationId live authorized journal) w₁
      (some (.ok pending)) w₂)
    (hattempt : Runs World.Answers
      (attemptPendingSubmission cfg pending journal claim >>= settleAttempt pending journal) w₂
      (some (.ok true)) w₃) (hhanded : w₃.handed = [rawTxHex]) (hjournal : w₃.disk .journal = none) :
    ∃ s, Reaches (fun _ => True) ⟨.down, w⟩ s ∧ s.world.disk .journal = none ∧
      (⟨s.world.disk, .relayed rawTxHex⟩ : Entry) ∈ s.world.log := by
  have hready : Reaches (fun _ => True) ⟨.down, w⟩ ⟨.searching none, w₁⟩ :=
    .step .refl (.started hstart) trivial
  have hjournaled : Reaches (fun _ => True) ⟨.down, w⟩ ⟨.searching (some pending), w₂⟩ :=
    .step hready (.prepared hprepare) trivial
  have hresolved : Reaches (fun _ => True) ⟨.down, w⟩ ⟨.searching none, w₃⟩ :=
    .step hjournaled (.attempted hattempt) trivial
  have hsends : ∀ hex ∈ [rawTxHex], hex ∈ w₃.handed := by
    rw [hhanded]
    exact fun _ h => h
  refine ⟨_, .step hresolved (.relayed hsends) trivial, hjournal, ?_⟩
  exact World.mem_log_relaying.mpr (.inr ⟨_, List.mem_singleton.mpr rfl, rfl⟩)

omit [Hasher] [Records] in
lemma sampleClaim_plays :
    let _ : Hasher := Hasher.fips
    let _ : Records := sampleRecords
    (buildPhotonTemplateBytesForDeployment sampleClaim .mainnet).toOption.any
      (fun tx => sampleChecks tx && samplePlays tx) = true := by
  rw [Hasher.fips_eq]
  intro _ _
  unfold buildPhotonTemplateBytesForDeployment buildParts batonDecreaseSats
    PhotonLayout.forAgeWithDeployment PhotonLayout.shifted
    Deployment.singleInputMaxBatonDecreaseSats
  simp -zeta only [length_mainnetV0]
  unfold Deployment.verify Deployment.mainnet PhotonDeployment.mainnet photonV32RedeemHex
    covenantLockingBytecodeHex expectedScriptHashHex
  simp -zeta only [String.toList_append, -String.reduceAppend]
  repeat rewrite [String.toList_ofList]
  decide +kernel

omit [Hasher] [Records] in
/-- The sample's winner is authorized, and its claim is journaled, accepted and resolved. -/
lemma exists_sampleCalls :
    let _ : Hasher := Hasher.fips
    let _ : Records := sampleRecords
    let _ : Schnorr := sampleSchnorr
    ∃ tx pending w₁ w₂ w₃,
      authorizedReward (sampleWinnerOf tx) 1 sampleJob sampleSettlement samplePolicy
        (deployment .mainnet) = .ok (.miner, 2 ^ 33) ∧
      Runs World.Answers (startMining sampleNetwork "journal" 0) sampleStart (some (.ok true)) w₁ ∧
      Runs World.Answers (prepareSubmissionForNetwork (sampleWinnerOf tx).toVerifiedWinner
        sampleNetwork 1 sampleJob (authorizedReward (sampleWinnerOf tx) 1 sampleJob sampleSettlement
          samplePolicy (deployment .mainnet)) "journal") w₁ (some (.ok pending)) w₂ ∧
      Runs World.Answers (attemptPendingSubmission sampleNetwork pending "journal"
        (some sampleContext) >>= settleAttempt pending "journal") w₂ (some (.ok true)) w₃ ∧
      w₃.handed = [pending.parentHex] ∧ w₃.disk .journal = none := by
  intro _ _ _
  obtain ⟨tx, htx, hchecks⟩ := Except.exists_of_any sampleClaim_plays
  obtain ⟨hchecks, hplays⟩ := Bool.and_eq_true_iff.mp hchecks
  obtain ⟨pending, -, hcalls⟩ := Except.exists_of_any hplays
  obtain ⟨hx, hy, hz, hhanded, hjournal⟩ := of_decide_eq_true hcalls
  have hauthorized := sample_authorized htx hchecks sampleMessage_eq
  refine ⟨tx, pending, _, _, _, hauthorized, runs_calm_of_eq hx, ?_, runs_calm_of_eq hz, hhanded,
    hjournal⟩
  rw [hauthorized]
  exact runs_calm_of_eq hy

omit [Hasher] [Records] in
lemma sample_life :
    let _ : Hasher := Hasher.fips
    let _ : Records := sampleRecords
    ∃ s rawTxHex, Reaches (fun _ => True) ⟨.down, sampleStart⟩ s ∧ s.world.disk .journal = none ∧
      (⟨s.world.disk, .relayed rawTxHex⟩ : Entry) ∈ s.world.log := by
  intro _ _
  obtain ⟨_, _, _, _, _, -, hstart, hprepare, hattempt, hhanded, hjournal⟩ := exists_sampleCalls
  obtain ⟨s, hlife⟩ := relayed_life hstart hprepare hattempt hhanded hjournal
  exact ⟨s, _, hlife⟩

omit [Hasher] [Records] in
theorem claims_ordered_sample :
    let _ : Hasher := Hasher.fips
    let _ : Records := sampleRecords
    ∃ s : System, s.world.disk .journal = none ∧ s.world.disk.OneClaim ∧ Orderly s.world.log ∧
      ∀ text, s.world.disk .resolved = some text → sampleStart.disk .resolved ≠ some text →
        ∃ resolved, Records.decodeResolved text = .ok resolved ∧
          Justified (.of fun _ _ => True) s.world.heard resolved := by
  intro _ _
  obtain ⟨s, -, hreaches, hjournal, -⟩ := sample_life
  exact ⟨s, hjournal, claims_ordered rfl (.inl ⟨rfl, rfl, rfl⟩) rfl rfl hreaches⟩

omit [Hasher] [Records] in
/-- The relay may send a parent after its claim is resolved and its journal gone. -/
theorem relayed_after_journal :
    let _ : Hasher := Hasher.fips
    let _ : Records := sampleRecords
    ¬ ∀ s₀ s : System, s₀.phase = .down → s₀.world.disk.OneClaim → s₀.world.log = [] →
      s₀.world.handed = [] → Reaches (fun _ => True) s₀ s →
      ∀ e ∈ s.world.log, ∀ rawTxHex, e.event = .relayed rawTxHex →
        ∃ pending, e.disk.Carries pending ∧ rawTxHex = pending.parentHex ∧
          Marked e.disk .attempted pending.parentTxid := by
  intro _ _ hall
  obtain ⟨s, _, hreaches, hjournal, hmem⟩ := sample_life
  obtain ⟨pending, hcarries, -⟩ :=
    hall _ s rfl (.inl ⟨rfl, rfl, rfl⟩) rfl rfl hreaches _ hmem _ rfl
  obtain ⟨text, htext, -⟩ := hcarries.journal
  cases hjournal.symm.trans htext

end Sample

end Pickaxe.Photon
