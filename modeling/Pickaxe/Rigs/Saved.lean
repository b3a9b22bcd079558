/-
# Proofs that a rig has saved

A rig keeps the proofs it has completed until its coordinator's baton moves on, in a file that
every change replaces as a whole.  Each call works on the list it has in memory and comes to one
list to save (`Call.next`); it ends with that list both in memory and in the file, or fails with the
memory as it was and the file either way.
-/
import Pickaxe.Lib.Effect
import Pickaxe.Rigs.Wire

namespace Pickaxe.Rigs

open Lib Photon
open Electric (Schnorr)

/-! ## Proofs -/

/-- `MAX_WINNERS`. -/
def maxWinners : ℕ := 16

/-- `MAX_BYTES`. -/
def maxBytes : ℕ := 1024 * 1024

/-- `same_work`. -/
def sameWork (previous current : WireJob) : Bool :=
  { previous with
    generationId := current.generationId
    sourceIdentity := current.sourceIdentity } == current

/-- What `sameWork` compares. -/
def WireJob.work (job : WireJob) : WireJob := { job with generationId := 0, sourceIdentity := [] }

lemma sameWork_iff {previous current : WireJob} :
    sameWork previous current = true ↔ previous.work = current.work := by
  rw [sameWork, beq_iff_eq]
  obtain ⟨⟩ := previous
  obtain ⟨⟩ := current
  simp [WireJob.work]

/-- `SavedWinner`. -/
structure SavedWinner where
  job : WireJob
  winner : WireWinner
deriving DecidableEq

/-- `SavedWinner::claimed_by`. -/
def SavedWinner.claimedBy (entry : SavedWinner) (job : MiningJob) : Bool :=
  match Text.hexDecode entry.winner.digest with
  | none => false
  | some digest => Text.eqIgnoreCase (Text.hexEncode digest.reverse) job.batonTxid

/-- The list of a file, as JSON. -/
class SavedJson where
  encode : List SavedWinner → Bytes
  decode : Bytes → Option (List SavedWinner)
  decode_encode : ∀ saved, decode (encode saved) = some saved

/-! ## Calls -/

section Calls

variable [Hasher] [Schnorr] [Ripemd]

/-- One turn of the last loop of `PendingWinners::open`. -/
def SavedWinner.check (entry : SavedWinner) : Except String Unit := do
  let winner ← entry.winner.toWinner
  let job ← entry.job.toJob
  verifyRigWinner winner job

/-- One turn of the loop of `PendingWinners::record`; the second part is `added`. -/
def recordStep (job : MiningJob) (state : List SavedWinner × Bool) (winner : CompleteWinner) :
    Except String (List SavedWinner × Bool) :=
  if winner.generationId ≠ job.generationId then .ok state
  else if state.1.any fun entry => sameWork entry.job (.ofJob job) then .ok state
  else (verifyRigWinner winner job).map fun _ =>
    (state.1 ++ [⟨.ofJob job, .ofWinner winner⟩], true)

/-- What a call of `PendingWinners::record` comes to: the list, and whether a proof was added. -/
def recorded (saved : List SavedWinner) (job : MiningJob) (winners : List CompleteWinner) :
    Except String (List SavedWinner × Bool) :=
  (winners.foldlM (recordStep job) (saved, false)).map fun (next, added) =>
    (next.drop (next.length - maxWinners), added)

/-- Whether a job lets a proof stay. -/
def SavedWinner.stays (job : MiningJob) (entry : SavedWinner) : Bool :=
  entry.job.network != job.network.asStr ||
    (!entry.claimedBy job && (decide (job.height ≤ entry.job.height) ||
      (entry.job.batonTxid == job.batonTxid && entry.job.batonVout == job.batonVout)))

/-- A saved winner under the generation of a job. -/
def SavedWinner.rebind (job : MiningJob) (entry : SavedWinner) : Except String CompleteWinner := do
  let saved ← entry.winner.toWinner
  let winner := { saved with generationId := job.generationId }
  verifyRigWinner winner job
  return winner

/-- The calls on an open journal. -/
inductive Call where
  | record (job : MiningJob) (winners : List CompleteWinner)
  | forJob (job : MiningJob)

/-- The list a call comes to saving, if it does. -/
def Call.next (saved : List SavedWinner) : Call → Option (List SavedWinner)
  | .record job winners =>
    match recorded saved job winners with
    | .ok (next, true) => some next
    | _ => none
  | .forJob job =>
    let next := saved.filter (SavedWinner.stays job)
    if (validateJob job).toOption.isSome ∧ next.length ≠ saved.length then some next else none

/-! ### What a call comes to -/

/-- The proofs in memory: few, each right for its own job, and for different work. -/
structure Kept (saved : List SavedWinner) : Prop where
  length_le : saved.length ≤ 16
  verified : ∀ entry ∈ saved, entry.check = .ok ()
  distinct : saved.Pairwise fun entry entry' => sameWork entry.job entry'.job = false

lemma Kept.sublist {saved next : List SavedWinner} (h : Kept saved) (hsub : next.Sublist saved) :
    Kept next where
  length_le := hsub.length_le.trans h.length_le
  verified := fun entry hentry => h.verified entry (hsub.subset hentry)
  distinct := h.distinct.sublist hsub

/-- The proof of a winner for a job. -/
def SavedWinner.of (job : MiningJob) (winner : CompleteWinner) : SavedWinner :=
  ⟨.ofJob job, .ofWinner winner⟩

/-- A winner that is believed is saved as a proof that is. -/
lemma check_of {job : MiningJob} {winner : CompleteWinner}
    (h : verifyRigWinner winner job = .ok ()) : (SavedWinner.of job winner).check = .ok () :=
  Except.bind_eq_ok.mpr ⟨_, toWinner_of_verified h, Except.bind_eq_ok.mpr
    ⟨_, toJob_ofJob job, (verifyRigWinner_payout none).trans h⟩⟩

/-- Once the work has a proof, nothing more is added. -/
lemma foldlM_recordStep_of_any {job : MiningJob} {saved : List SavedWinner} {added : Bool}
    (h : saved.any (fun entry => sameWork entry.job (.ofJob job)) = true)
    (winners : List CompleteWinner) :
    winners.foldlM (recordStep job) (saved, added) = .ok (saved, added) := by
  induction winners with
  | nil => rfl
  | cons winner winners ih =>
    have hstep : recordStep job (saved, added) winner = .ok (saved, added) := by
      rw [recordStep, if_pos h, ite_self]
    rw [List.foldlM_cons, hstep]
    exact ih

/-- A call of `record` adds the first winner that is for the job's work, if that has no proof. -/
lemma foldlM_recordStep {job : MiningJob} {saved next : List SavedWinner} {added : Bool}
    {winners : List CompleteWinner}
    (h : winners.foldlM (recordStep job) (saved, false) = .ok (next, added)) :
    (next = saved ∧ added = false) ∨
      (added = true ∧ (∀ entry ∈ saved, sameWork entry.job (.ofJob job) = false) ∧
        ∃ winner ∈ winners, winner.generationId = job.generationId ∧
          verifyRigWinner winner job = .ok () ∧ next = saved ++ [.of job winner]) := by
  induction winners with
  | nil =>
    cases h
    exact .inl ⟨rfl, rfl⟩
  | cons winner winners ih =>
    obtain ⟨state, hstep, hrest⟩ := Except.bind_eq_ok.mp (List.foldlM_cons.symm.trans h)
    by_cases hgeneration : winner.generationId ≠ job.generationId
    · rw [recordStep, if_pos hgeneration] at hstep
      cases hstep
      obtain hnone | ⟨hadded, hnew, w, hw, hverified⟩ := ih hrest
      · exact .inl hnone
      · exact .inr ⟨hadded, hnew, w, List.mem_cons_of_mem _ hw, hverified⟩
    rw [recordStep, if_neg hgeneration] at hstep
    by_cases hany : saved.any (fun entry => sameWork entry.job (.ofJob job)) = true
    · rw [foldlM_recordStep_of_any hany] at h
      cases h
      exact .inl ⟨rfl, rfl⟩
    · rw [if_neg hany] at hstep
      obtain ⟨_, hverified, rfl⟩ := Except.map_eq_ok.mp hstep
      -- the proof just added is for this work
      have hfound : (saved ++ [SavedWinner.of job winner]).any
          (fun entry => sameWork entry.job (.ofJob job)) = true := by
        simp [SavedWinner.of, sameWork_iff]
      have hnext := (foldlM_recordStep_of_any hfound winners).symm.trans hrest
      cases hnext
      refine .inr ⟨rfl, ?_, winner, List.mem_cons_self, not_not.mp hgeneration, hverified, rfl⟩
      intro entry hentry
      by_contra hsame
      exact hany (List.any_eq_true.mpr ⟨entry, hentry, Bool.eq_true_of_not_eq_false hsame⟩)

/-- The list that a call of `record` saves. -/
lemma next_record {saved next : List SavedWinner} {job : MiningJob} {winners : List CompleteWinner}
    (h : (Call.record job winners).next saved = some next) :
    (∀ entry ∈ saved, sameWork entry.job (.ofJob job) = false) ∧
      ∃ winner ∈ winners, winner.generationId = job.generationId ∧
        verifyRigWinner winner job = .ok () ∧
        next = (saved ++ [SavedWinner.of job winner]).drop (saved.length + 1 - 16) := by
  rw [Call.next] at h
  split at h
  · rename_i next' hrecorded
    obtain rfl := Option.some.inj h
    obtain ⟨⟨all, added⟩, hfold, heq⟩ := Except.map_eq_ok.mp hrecorded
    obtain ⟨rfl, rfl⟩ := Prod.mk.inj heq
    obtain ⟨-, hadded⟩ | ⟨-, hnew, winner, hw, hgeneration, hverified, rfl⟩ := foldlM_recordStep hfold
    · cases hadded
    · refine ⟨hnew, winner, hw, hgeneration, hverified, ?_⟩
      simp [maxWinners]
  · cases h

/-- The list that a call of `forJob` saves. -/
lemma next_forJob {saved next : List SavedWinner} {job : MiningJob}
    (h : (Call.forJob job).next saved = some next) : next = saved.filter (SavedWinner.stays job) := by
  rw [Call.next] at h
  split at h
  · exact (Option.some.inj h).symm
  · cases h

lemma Kept.append {saved : List SavedWinner} {job : MiningJob} {winner : CompleteWinner}
    (h : Kept saved) (hnew : ∀ entry ∈ saved, sameWork entry.job (.ofJob job) = false)
    (hverified : verifyRigWinner winner job = .ok ()) :
    Kept ((saved ++ [SavedWinner.of job winner]).drop (saved.length + 1 - 16)) where
  length_le := by
    rw [List.length_drop, List.length_append, List.length_singleton]
    omega
  verified := by
    intro entry hentry
    obtain hentry | hentry := List.mem_append.mp (List.mem_of_mem_drop hentry)
    · exact h.verified entry hentry
    · obtain rfl := List.mem_singleton.mp hentry
      exact check_of hverified
  distinct := by
    refine List.Pairwise.sublist (List.drop_sublist _ _) (List.pairwise_append.mpr
      ⟨h.distinct, List.pairwise_singleton _ _, ?_⟩)
    intro entry hentry entry' hentry'
    obtain rfl := List.mem_singleton.mp hentry'
    exact hnew entry hentry

/-- What a call saves is kept as what it found was. -/
lemma Kept.next {saved next : List SavedWinner} {call : Call} (h : Kept saved)
    (hnext : call.next saved = some next) : Kept next := by
  cases call with
  | record job winners =>
    obtain ⟨hnew, winner, -, -, hverified, rfl⟩ := next_record hnext
    exact h.append hnew hverified
  | forJob job =>
    obtain rfl := next_forJob hnext
    exact h.sublist List.filter_sublist

lemma forM_check_eq_ok {entries : List SavedWinner} :
    entries.forM SavedWinner.check = .ok () ↔ ∀ entry ∈ entries, entry.check = .ok () := by
  induction entries with
  | nil => simp [pure, Except.pure]
  | cons entry entries ih =>
    rw [List.forM_eq_forM, List.forM_cons, Except.bind_eq_ok, List.forall_mem_cons]
    constructor
    · rintro ⟨⟨⟩, hentry, hrest⟩
      exact ⟨hentry, ih.mp hrest⟩
    · rintro ⟨hentry, hrest⟩
      exact ⟨(), hentry, ih.mpr hrest⟩

end Calls

/-! ## The file -/

/-- The file, and the temporary one that is to replace it. -/
structure Disk where
  file : Option Bytes
  temp : Option Bytes
deriving DecidableEq

/-- What `symlink_metadata` says of the path. -/
inductive Metadata where
  | notFound
  | file (len : ℕ)
  | other

/-- The operations on the two; `writeTemp` is `write_private_config` on the temporary file. -/
inductive Op where
  | metadata
  | restrict
  | read
  | createDirectory
  | writeTemp (bytes : Bytes)
  | rename
  | removeTemp
  | syncFile
  | syncDirectory

/-- The answers to them. -/
abbrev Answer : Op → Type
  | .metadata => Metadata
  | .read => Except Unit Bytes
  | .createDirectory => Except Unit Unit
  | .syncFile => Except Unit Unit
  | .syncDirectory => Except Unit Unit
  | .restrict => Except String Unit
  | .writeTemp _ => Except String Unit
  | .rename => Except String Unit
  | .removeTemp => Unit

/-- A function of the journal. -/
abbrev Task := Program String Op Answer

/-- How a disk answers.  Any operation may fail, and the removal of the temporary file too; only
`rename` changes the file, and only when it succeeds. -/
def Answers (disk : Disk) : (q : Op) → Answer q → Disk → Prop
  | .metadata, .notFound, disk' => disk.file = none ∧ disk' = disk
  | .metadata, .file len, disk' =>
    (∃ bytes, disk.file = some bytes ∧ bytes.length = len) ∧ disk' = disk
  | .read, .ok bytes, disk' => disk.file = some bytes ∧ disk' = disk
  | .writeTemp bytes, .ok (), disk' => disk' = { disk with temp := some bytes }
  | .writeTemp _, .error _, disk' => disk'.file = disk.file
  | .rename, .ok (), disk' => (∃ bytes, disk.temp = some bytes ∧ disk' = ⟨some bytes, none⟩)
  | .removeTemp, (), disk' => disk'.file = disk.file
  | _, _, disk' => disk' = disk

/-- `write_private_atomic`. -/
def writePrivateAtomic (bytes : Bytes) : Task Unit := do
  let replace : Task Unit := do
    let prepared : Except String Unit ← .query (Op.writeTemp bytes)
    Program.lift prepared
    let renamed : Except String Unit ← .query Op.rename
    Program.lift renamed
  match ← replace.attempt with
  | .ok () => .ok ()
  | .error e => do
    let _ : Unit ← .query Op.removeTemp
    .error e

section Tasks

variable [Hasher] [Schnorr] [Ripemd] [SavedJson]

/-- The list of a file that has an acceptable size. -/
def readSaved (len : ℕ) : Task (List SavedWinner) :=
  if maxBytes < len then .error "pending rig winners must be a regular file within storage limit"
  else do
    let restricted : Except String Unit ← .query Op.restrict
    Program.lift restricted
    let found : Except Unit Bytes ← .query Op.read
    let bytes ← Program.lift (found.mapError fun _ => "cannot read pending rig winners")
    if maxBytes < bytes.length then .error "pending rig winners exceed storage limit"
    else match SavedJson.decode bytes with
      | none => .error "invalid pending rig winners; refusing to replace them"
      | some saved => .ok saved

/-- `PendingWinners::open`. -/
def openSaved : Task (List SavedWinner) := do
  let metadata : Metadata ← .query Op.metadata
  let saved ← match metadata with
    | .notFound => .ok []
    | .file len => readSaved len
    | .other => .error "pending rig winners must be a regular file within storage limit"
  if maxWinners < saved.length then .error "too many pending rig winners"
  else do
    Program.lift (saved.forM SavedWinner.check)
    return saved

/-- `PendingWinners::commit`. -/
def commit (next : List SavedWinner) : Task (List SavedWinner) := do
  let bytes := SavedJson.encode next
  if maxWinners < next.length ∨ maxBytes < bytes.length then
    .error "pending rig winners exceed storage limit; mining stopped"
  else do
    let created : Except Unit Unit ← .query Op.createDirectory
    Program.lift (created.mapError fun _ => "cannot create rig journal directory")
    writePrivateAtomic bytes
    let synced : Except Unit Unit ← .query Op.syncFile
    Program.lift (synced.mapError fun _ => "cannot sync installed rig journal")
    let entered : Except Unit Unit ← .query Op.syncDirectory
    Program.lift (entered.mapError fun _ => "cannot sync rig journal directory")
    return next

/-- `PendingWinners::record`; the result is what is in memory afterwards. -/
def record (saved : List SavedWinner) (job : MiningJob) (winners : List CompleteWinner) :
    Task (List SavedWinner) := do
  let (next, added) ← Program.lift (recorded saved job winners)
  if added then commit next else .ok saved

/-- `PendingWinners::for_job`: what is in memory afterwards, and the winners for the job or why there
are none. -/
def forJob (saved : List SavedWinner) (job : MiningJob) :
    Task (List SavedWinner × Except String (List CompleteWinner)) := do
  let _ ← Program.lift (validateJob job)
  let next := saved.filter (SavedWinner.stays job)
  let saved ← if next.length ≠ saved.length then commit next else .ok saved
  return (saved, (saved.filter fun entry => sameWork entry.job (.ofJob job)).mapM
    (SavedWinner.rebind job))

/-- A call, for what it leaves in memory. -/
def Call.task (saved : List SavedWinner) : Call → Task (List SavedWinner)
  | .record job winners => Rigs.record saved job winners
  | .forJob job => do
    let (saved, _) ← Rigs.forJob saved job
    return saved


/-! ## Runs -/

/-- The list in memory, while the journal is open, and the disk. -/
structure System where
  memory : Option (List SavedWinner)
  disk : Disk

/-- What happened in a step: a start of the process, or a call with the list it was made on. -/
inductive Event where
  | opened
  | called (saved : List SavedWinner) (call : Call)

/-- The memory after a call: a failure leaves it, and a process that is killed loses it. -/
def after (saved : List SavedWinner) :
    Option (Except String (List SavedWinner)) → Option (List SavedWinner)
  | none => none
  | some (.error _) => some saved
  | some (.ok next) => some next

/-- The journal is opened, or called. -/
inductive Step : System → Event → System → Prop
  | opened {memory : Option (List SavedWinner)} {disk disk' : Disk}
    {r : Option (Except String (List SavedWinner))}
    (hrun : Program.Runs Answers openSaved disk r disk') :
    Step ⟨memory, disk⟩ .opened ⟨r.bind Except.toOption, disk'⟩
  | called {saved : List SavedWinner} {call : Call} {disk disk' : Disk}
    {r : Option (Except String (List SavedWinner))}
    (hrun : Program.Runs Answers (call.task saved) disk r disk') :
    Step ⟨some saved, disk⟩ (.called saved call) ⟨after saved r, disk'⟩

/-- A run, with what happened in it. -/
inductive Reaches (s : System) : List Event → System → Prop
  | refl : Reaches s [] s
  | step {history : List Event} {event : Event} {s' s'' : System} (h : Reaches s history s')
    (hstep : Step s' event s'') : Reaches s (history ++ [event]) s''

end Tasks

end Pickaxe.Rigs
