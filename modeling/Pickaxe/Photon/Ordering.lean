/-
# The order of a claim's files and broadcasts

A claim's parent is given to servers only while its journal and the note of the attempt are on
disk; the journal makes way only after a record of the claim's outcome is there.  `Inv` is what
every operation of the claim path keeps while a claim is in hand, wherever the process is stopped;
`claims_ordered` is what follows for every run of processes one after the other.
-/
import Pickaxe.Photon.Answered

namespace Pickaxe.Photon

open Lib Program

variable [Hasher] [Records]

/-! ## One claim at a time -/

/-- A valid journal is on disk, and the markers that are there name its parent. -/
structure Disk.Carries (d : Disk) (pending : PendingSubmission) : Prop where
  journal : ∃ text, d .journal = some text ∧ Records.decode text = .ok pending
  valid : pending.validate = .ok ()
  attempted : Named d .attempted pending.parentTxid
  accepted : Named d .accepted pending.parentTxid

/-- Neither a journal nor a marker is on disk. -/
structure Disk.Free (d : Disk) : Prop where
  journal : d .journal = none
  attempted : d .attempted = none
  accepted : d .accepted = none

/-- The files are those of at most one claim. -/
def Disk.OneClaim (d : Disk) : Prop := d.Free ∨ ∃ pending, d.Carries pending

/-- A record of a parent's outcome is on disk. -/
def Disk.Recorded (d : Disk) (parentTxid : List Char) : Prop :=
  ∃ text resolved, d .resolved = some text ∧ Records.decodeResolved text = .ok resolved ∧
    resolved.parentTxid = parentTxid

section Disk

variable {d d' : Disk} {pending pending' : PendingSubmission}

lemma Disk.Carries.same (h : d.Carries pending) (hsame : Same d d') : d'.Carries pending := by
  refine ⟨?_, h.valid, ?_, ?_⟩
  · rw [hsame .journal rfl nofun]
    exact h.journal
  · exact h.attempted.of_eq (hsame .attempted rfl nofun)
  · exact h.accepted.of_eq (hsame .accepted rfl nofun)

omit [Hasher] [Records] in
lemma Disk.Free.same (h : d.Free) (hsame : Same d d') : d'.Free := by
  refine ⟨?_, ?_, ?_⟩
  · rw [hsame .journal rfl nofun, h.journal]
  · rw [hsame .attempted rfl nofun, h.attempted]
  · rw [hsame .accepted rfl nofun, h.accepted]

lemma Disk.OneClaim.same (h : d.OneClaim) (hsame : Same d d') : d'.OneClaim := by
  rcases h with h | ⟨pending, h⟩
  · exact .inl (h.same hsame)
  · exact .inr ⟨pending, h.same hsame⟩

lemma Disk.Carries.unique (h : d.Carries pending) (h' : d.Carries pending') : pending' = pending := by
  obtain ⟨text, htext, hdecode⟩ := h.journal
  obtain ⟨text', htext', hdecode'⟩ := h'.journal
  rw [htext] at htext'
  obtain rfl := Option.some.inj htext'
  rw [hdecode] at hdecode'
  exact (Except.ok.inj hdecode').symm

/-- A marker that comes into place names the parent. -/
lemma Disk.Carries.mark (h : d.Carries pending) {path : Path}
    (hpath : path = .attempted ∨ path = .accepted) :
    (d.set path (some (pending.parentTxid ++ ['\n']))).Carries pending := by
  obtain ⟨⟨raw, hid⟩, -⟩ := pending.transactions_of_validate h.valid
  have hnamed : Named (d.set path (some (pending.parentTxid ++ ['\n']))) path pending.parentTxid :=
    named_set hid.isTxid
  rcases hpath with rfl | rfl
  · refine ⟨h.journal, h.valid, hnamed, h.accepted⟩
  · refine ⟨h.journal, h.valid, h.attempted, hnamed⟩

/-- A marker that is removed leaves the claim in place. -/
lemma Disk.Carries.unmark (h : d.Carries pending) {path : Path}
    (hpath : path = .attempted ∨ path = .accepted) : (d.set path none).Carries pending := by
  rcases hpath with rfl | rfl
  · exact ⟨h.journal, h.valid, nofun, h.accepted⟩
  · exact ⟨h.journal, h.valid, h.attempted, nofun⟩

end Disk

/-! ## What the log says -/

/-- A claim's bytes are given away while its journal is on disk: its parent's with the attempt
noted, and a legacy claim's settlement. -/
def SentInOrder (d : Disk) : Op → Prop
  | .broadcast _ rawTxHex => ∃ pending, d.Carries pending ∧
    ((rawTxHex = pending.parentHex ∧ Marked d .attempted pending.parentTxid) ∨
      (pending.isDirect = false ∧ rawTxHex = pending.settlementHex))
  | .relay rawTxHex => ∃ pending, d.Carries pending ∧ rawTxHex = pending.parentHex ∧
    Marked d .attempted pending.parentTxid
  | _ => True

/-- The journal stays as it is, or comes where there was none, or goes when its claim's outcome is
recorded. -/
def KeepsJournal (d d' : Disk) : Prop :=
  d' .journal = d .journal ∨ d .journal = none ∨
    (d' .journal = none ∧ ∀ pending, d.Carries pending → d.Recorded pending.parentTxid)

/-- A marker that is looked for, when there is no journal, is not there. -/
def FindsNoOrphan (d : Disk) (q : Op) : Prop :=
  ∀ path : Path, path.IsMarker → q = .present path → d path = none

/-- What is asked of an entry, given the entries before it. -/
def InOrder (log : List Entry) (e : Entry) : Prop :=
  match e.event with
  | .did q a => SentInOrder e.disk q ∧ FindsNoOrphan e.disk q ∧
    ∀ d', Acts e.disk q a d' → KeepsJournal e.disk d'
  | .relayed rawTxHex => ∃ e' ∈ log, e'.event = .did (.relay rawTxHex) ()

/-- A log that grew entry by entry, each in order. -/
inductive Orderly : List Entry → Prop
  | nil : Orderly []
  | snoc {log : List Entry} {e : Entry} (hlog : Orderly log) (he : InOrder log e) :
    Orderly (log ++ [e])

/-! ## What a record rests on -/

/-- What a confirmed claim is known by: a server accepted the parent or had it, or the live baton is
the claim's own or descends from it. -/
def Evidence (heard : List ((q : Op) × Answer q)) (pending : PendingSubmission) : Prop :=
  (∃ via txid, (⟨.broadcast via pending.parentHex, .ok txid⟩ : (q : Op) × Answer q) ∈ heard ∧
      Text.eqIgnoreCase txid pending.parentTxid = true) ∨
    (∃ via error, (⟨.broadcast via pending.parentHex, .error error⟩ : (q : Op) × Answer q) ∈ heard ∧
      broadcastReportsKnown error = true) ∨
    (∃ a, (⟨.getTransaction pending.parentTxid, a⟩ : (q : Op) × Answer q) ∈ heard ∧
      knownAnswer a = .ok true) ∨
    ∃ live, (⟨.fetchLiveJob, .ok live⟩ : (q : Op) × Answer q) ∈ heard ∧ FromClaim pending live

/-- What is asked of a direct claim's end that is not a confirmation, by what was heard and the live
baton. -/
structure Ground where
  holds : List ((q : Op) × Answer q) → PendingSubmission → LiveJob → Prop
  grows : ∀ {heard heard' pending live}, heard <+: heard' → holds heard pending live →
    holds heard' pending live

/-- A condition on the claim and the live baton alone. -/
def Ground.of (gone : PendingSubmission → LiveJob → Prop) : Ground := ⟨fun _ => gone, fun _ h => h⟩

/-- A record says of a valid claim what was found: it is confirmed by evidence, or stale, its
attempt not noted, or conflicted; in the last two the live baton is neither the one it spends nor
its parent's. -/
def Justified (ground : Ground) (heard : List ((q : Op) × Answer q))
    (resolved : ResolvedSubmission) : Prop :=
  ∃ pending live, pending.validate = .ok () ∧
    ((resolved = pending.resolved live true true "confirmed" ∧ Evidence heard pending) ∨
      (pending.expectedBatonIsCurrent live = false ∧ pending.parentBatonIsLive live = false ∧
        (pending.isDirect = true → ground.holds heard pending live) ∧
        ((resolved = pending.resolved live false false "stale-unbroadcast" ∧
            (⟨.read .attempted, .ok none⟩ : (q : Op) × Answer q) ∈ heard) ∨
          (pending.isDirect = true ∧
            ∃ accepted, resolved = pending.resolved live true accepted "conflicted"))))

section Justified

variable {ground : Ground} {heard heard' : List ((q : Op) × Answer q)}
  {pending : PendingSubmission} {resolved : ResolvedSubmission}

omit [Records] in
lemma Evidence.mono (h : Evidence heard pending) (hsub : heard ⊆ heard') : Evidence heard' pending := by
  rcases h with ⟨via, txid, hmem, h⟩ | ⟨via, error, hmem, h⟩ | ⟨a, hmem, h⟩ | ⟨live, hmem, h⟩
  · exact .inl ⟨via, txid, hsub hmem, h⟩
  · exact .inr (.inl ⟨via, error, hsub hmem, h⟩)
  · exact .inr (.inr (.inl ⟨a, hsub hmem, h⟩))
  · exact .inr (.inr (.inr ⟨live, hsub hmem, h⟩))

omit [Records] in
lemma Justified.mono (h : Justified ground heard resolved) (hpre : heard <+: heard') :
    Justified ground heard' resolved := by
  have hsub := hpre.subset
  obtain ⟨pending, live, hvalid, ⟨hres, hevidence⟩ | ⟨hexpected, hparent, hground, h⟩⟩ := h
  · exact ⟨pending, live, hvalid, .inl ⟨hres, hevidence.mono hsub⟩⟩
  · refine ⟨pending, live, hvalid, .inr ⟨hexpected, hparent,
      fun hdirect => ground.grows hpre (hground hdirect), ?_⟩⟩
    rcases h with ⟨hres, hmem⟩ | h
    · exact .inl ⟨hres, hsub hmem⟩
    · exact .inr h

end Justified

/-! ## The invariant -/

section Invariant

variable (ground : Ground)

/-- The log is in order; what the relay was handed is in it; and the record on disk, if it is not
the one from before, is justified. -/
structure Base (old : Option (List Char)) (w : World) : Prop where
  orderly : Orderly w.log
  handed : ∀ rawTxHex ∈ w.handed, ∃ e ∈ w.log, e.event = .did (.relay rawTxHex) ()
  record : ∀ text, w.disk .resolved = some text → some text = old ∨
    ∃ resolved, Records.decodeResolved text = .ok resolved ∧ Justified ground w.heard resolved

/-- The invariant while a claim is in hand. -/
def Inv (old : Option (List Char)) (pending : PendingSubmission) (w : World) : Prop :=
  w.disk.Carries pending ∧ Base ground old w

/-- The invariant while a claim may be resolved. -/
def SettlingInv (old : Option (List Char)) (pending : PendingSubmission) (w : World) : Prop :=
  (w.disk.Carries pending ∨ w.disk.Free) ∧ Base ground old w

/-- The invariant between processes. -/
def RestInv (old : Option (List Char)) (w : World) : Prop := w.disk.OneClaim ∧ Base ground old w

end Invariant

section Base

variable {ground : Ground} {old : Option (List Char)} {w w' : World} {q : Op} {a : Answer q}
  {pending : PendingSubmission}

/-- What the relay sends was handed to it. -/
lemma Base.relaying (h : Base ground old w) {sends : List (List Char)}
    (hsends : ∀ rawTxHex ∈ sends, rawTxHex ∈ w.handed) : Base ground old (w.relaying sends) := by
  have hlog : Orderly (w.relaying sends).log := by
    rw [World.relaying]
    induction sends using List.reverseRecOn with
    | nil =>
      rw [List.map_nil, List.append_nil]
      exact h.orderly
    | append_singleton sends hex ih =>
      rw [List.map_append, ← List.append_assoc]
      refine .snoc (ih fun x hx => hsends x (List.mem_append_left _ hx)) ?_
      obtain ⟨e, he, hevent⟩ := h.handed hex (hsends hex (by simp))
      exact ⟨e, List.mem_append_left _ he, hevent⟩
  refine ⟨hlog, ?_, ?_⟩
  · intro hex hhex
    obtain ⟨e, he, hevent⟩ := h.handed hex hhex
    exact ⟨e, World.mem_log_relaying.mpr (.inl he), hevent⟩
  · intro text htext
    rw [World.heard_relaying]
    exact h.record text htext

/-- One operation keeps the log in order when it is, and the record justified when it leaves it
alone, removes it or writes a justified one. -/
lemma Base.answers (h : Base ground old w) (hans : w.Answers q a w') (hsent : SentInOrder w.disk q)
    (horphan : FindsNoOrphan w.disk q) (hkeeps : ∀ d', Acts w.disk q a d' → KeepsJournal w.disk d')
    (hrecord : ∀ text, w'.disk .resolved = some text → w.disk .resolved = some text ∨
      ∃ resolved, Records.decodeResolved text = .ok resolved ∧ Justified ground w.heard resolved) :
    Base ground old w' := by
  have hheard := hans.heard
  obtain ⟨sends, d, hsends, hacts, rfl⟩ := hans
  have hrelay := h.relaying hsends
  refine ⟨hrelay.orderly.snoc ⟨hsent, horphan, hkeeps⟩, ?_, ?_⟩
  · intro hex hhex
    have hold : hex ∈ w.handed → ∃ e ∈ ((w.relaying sends).doing q a d).log,
        e.event = .did (.relay hex) () := by
      intro hmem
      obtain ⟨e, he, hevent⟩ := hrelay.handed hex hmem
      exact ⟨e, World.mem_log_doing.mpr (.inl he), hevent⟩
    cases q
    case relay hex' =>
      rcases List.mem_cons.mp hhex with rfl | hmem
      · exact ⟨_, World.mem_log_doing.mpr (.inr rfl), rfl⟩
      · exact hold hmem
    all_goals exact hold hhex
  · intro text htext
    have hpre : w.heard <+: ((w.relaying sends).doing q a d).heard := by
      rw [hheard]
      exact List.prefix_append _ _
    rcases hrecord text htext with hsame | ⟨resolved, hdecode, hjust⟩
    · rcases h.record text hsame with hold | ⟨resolved, hdecode, hjust⟩
      · exact .inl hold
      · exact .inr ⟨resolved, hdecode, hjust.mono hpre⟩
    · exact .inr ⟨resolved, hdecode, hjust.mono hpre⟩

/-- A quiet operation. -/
lemma Base.quiet (h : Base ground old w) (hans : w.Answers q a w') (hq : q.Quiet) :
    Base ground old w' ∧ Same w.disk w'.disk := by
  have hsame := hans.acts.same hq
  refine ⟨h.answers hans ?_ ?_ (fun d' hacts => .inl ((hacts.same hq) .journal rfl nofun)) ?_,
    hsame⟩
  · cases q
    case broadcast => exact hq.elim
    case relay => exact hq.elim
    all_goals trivial
  · rintro path hpath rfl
    exact absurd hpath hq
  · intro text htext
    rw [hsame .resolved rfl nofun] at htext
    exact .inl htext

lemma stable_inv : Stable (Inv ground old pending) := by
  intro w q a w' h hq hans
  obtain ⟨hbase, hsame⟩ := h.2.quiet hans hq
  exact ⟨h.1.same hsame, hbase⟩

lemma stable_restInv : Stable (RestInv ground old) := by
  intro w q a w' h hq hans
  obtain ⟨hbase, hsame⟩ := h.2.quiet hans hq
  exact ⟨h.1.same hsame, hbase⟩

end Base

end Pickaxe.Photon
