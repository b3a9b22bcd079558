/-
# What the calls leave

The file is replaced as a whole.  A call that returns has its list in memory and in the file; one
that fails leaves the memory, and the file too unless the list was already in its place.
-/
import Pickaxe.Rigs.Saved

namespace Pickaxe.Rigs

open Lib Program Photon
open Electric (Schnorr)

/-! ## The disk -/

section Disk

variable {disk : Disk} {file : Option Bytes} {bytes : Bytes}

/-- The file is replaced as a whole, or stays. -/
lemma wp_writePrivateAtomic (hfile : disk.file = file) :
    wp Answers (fun d => d.file = file ∨ d.file = some bytes) (writePrivateAtomic bytes)
      (upon (fun _ d => d.file = some bytes) fun d => d.file = file) disk := by
  have hremoved : ∀ (e : String) (d : Disk), d.file = file →
      wp Answers (fun d => d.file = file ∨ d.file = some bytes)
        (do
          let _ : Unit ← (query Op.removeTemp : Task Unit)
          (.error e : Task Unit))
        (upon (fun _ d => d.file = some bytes) fun d => d.file = file) d := by
    intro e d hd
    refine wp_query_bind.mpr ?_
    rintro ⟨⟩ d' hd'
    have hd' : d'.file = d.file := hd'
    exact ⟨.inl (hd'.trans hd), hd'.trans hd⟩
  rw [writePrivateAtomic, wp_bind, wp_attempt]
  refine wp_query_bind.mpr ?_
  rintro (e | ⟨⟩) d hd
  · have hd : d.file = disk.file := hd
    exact ⟨.inl (hd.trans hfile), hremoved e d (hd.trans hfile)⟩
  · have hd : d = { disk with temp := some bytes } := hd
    subst hd
    refine ⟨.inl hfile, wp_query_bind.mpr ?_⟩
    rintro (e | ⟨⟩) d' hd'
    · have hd' : d' = { disk with temp := some bytes } := hd'
      subst hd'
      exact ⟨.inl hfile, hremoved e _ hfile⟩
    · obtain ⟨_, ⟨⟩, rfl⟩ := hd'
      exact ⟨.inr rfl, rfl⟩

end Disk

/-! ## Calls -/

section Calls

variable [SavedJson] {disk : Disk} {next saved : List SavedWinner}

/-- Whether a proof is in the file. -/
def Disk.Stores (disk : Disk) (entry : SavedWinner) : Prop :=
  ∃ bytes saved, disk.file = some bytes ∧ SavedJson.decode bytes = some saved ∧ entry ∈ saved

/-- The failures of a call that has replaced the file. -/
def SyncFailed (e : String) : Prop :=
  e = "cannot sync installed rig journal" ∨ e = "cannot sync rig journal directory"

/-- What a commit leaves. -/
def Committed (next : List SavedWinner) (file : Option Bytes) :
    Except String (List SavedWinner) → Disk → Prop
  | .ok saved, d => saved = next ∧ d.file = some (SavedJson.encode next)
  | .error e, d => d.file = file ∨ (SyncFailed e ∧ d.file = some (SavedJson.encode next))

lemma wp_commit {file : Option Bytes} (hfile : disk.file = file) :
    wp Answers (fun d => d.file = file ∨ d.file = some (SavedJson.encode next)) (commit next)
      (Committed next file) disk := by
  rw [commit]
  split
  · exact .inl hfile
  refine wp_query_bind.mpr ?_
  rintro created d hd
  have hd : d = disk := by cases created <;> exact hd
  subst hd
  refine ⟨.inl hfile, wp_lift_bind.mpr ⟨?_, fun _ _ => .inl hfile⟩⟩
  rintro ⟨⟩ -
  refine wp.seq (wp_writePrivateAtomic hfile) (.inl hfile) ?_ fun _ _ _ h => .inl h
  rintro ⟨⟩ installed - hinstalled
  -- from here on the file is the new one
  refine wp_query_bind.mpr ?_
  rintro synced d hd
  have hd : d = installed := by cases synced <;> exact hd
  subst hd
  refine ⟨.inr hinstalled, wp_lift_bind.mpr ⟨?_, ?_⟩⟩
  · rintro ⟨⟩ -
    refine wp_query_bind.mpr ?_
    rintro entered d' hd'
    have hd' : d' = d := by cases entered <;> exact hd'
    subst hd'
    refine ⟨.inr hinstalled, wp_lift_bind.mpr ⟨?_, ?_⟩⟩
    · rintro ⟨⟩ -
      exact ⟨rfl, hinstalled⟩
    · rintro e he
      cases entered with
      | ok => cases he
      | error =>
        cases he
        exact .inr ⟨.inr rfl, hinstalled⟩
  · rintro e he
    cases synced with
    | ok => cases he
    | error =>
      cases he
      exact .inr ⟨.inl rfl, hinstalled⟩

/-- What has been read: the list of the file, or none without a file. -/
def Disk.Reads (disk : Disk) (saved : List SavedWinner) : Prop :=
  (disk.file = none ∧ saved = []) ∨
    ∃ bytes, disk.file = some bytes ∧ SavedJson.decode bytes = some saved

lemma wp_readSaved {len : ℕ} {d : Disk} (hd : d = disk) :
    wp Answers (· = disk) (readSaved len) (upon (fun saved _ => disk.Reads saved) fun _ => True) d := by
  rw [readSaved]
  split
  · trivial
  refine wp_query_bind.mpr ?_
  rintro restricted d' hd'
  have hd' : d' = d := by cases restricted <;> exact hd'
  refine ⟨hd'.trans hd, wp_lift_bind.mpr ⟨?_, fun _ _ => trivial⟩⟩
  rintro ⟨⟩ -
  refine wp_query_bind.mpr ?_
  rintro (_ | bytes) d'' hd''
  · have hd'' : d'' = d' := hd''
    exact ⟨hd''.trans (hd'.trans hd), trivial⟩
  obtain ⟨hread, hd''⟩ := hd''
  refine ⟨hd''.trans (hd'.trans hd), ?_⟩
  rw [hd', hd] at hread
  change wp Answers _ (if maxBytes < bytes.length then _ else _) _ _
  split
  · trivial
  split
  · trivial
  · rename_i saved hdecode
    exact .inr ⟨bytes, hread, hdecode⟩

variable [Hasher] [Schnorr] [Ripemd] {call : Call}

/-- What a call may leave of the file, whenever it stops. -/
def Call.Leaves (saved : List SavedWinner) (call : Call) (file : Option Bytes) (disk : Disk) : Prop :=
  disk.file = file ∨ ∃ next, call.next saved = some next ∧ disk.file = some (SavedJson.encode next)

/-- What a call has left in memory and in the file when it ends. -/
def Call.Ends (saved : List SavedWinner) (call : Call) (file : Option Bytes) :
    Except String (List SavedWinner) → Disk → Prop
  | .ok saved', disk => (saved' = saved ∧ disk.file = file) ∨
      (call.next saved = some saved' ∧ disk.file = some (SavedJson.encode saved'))
  | .error e, disk => disk.file = file ∨
      (SyncFailed e ∧ ∃ next, call.next saved = some next ∧ disk.file = some (SavedJson.encode next))

/-- A commit of what the call comes to ends as the call may. -/
lemma wp_commit_next {file : Option Bytes} (hfile : disk.file = file)
    (hnext : call.next saved = some next) :
    wp Answers (call.Leaves saved file) (commit next) (call.Ends saved file) disk := by
  refine ((wp_commit hfile).weaken ?_).mono ?_
  · rintro d (hd | hd)
    · exact .inl hd
    · exact .inr ⟨next, hnext, hd⟩
  · rintro (e | saved') d h
    · obtain hd | ⟨he, hd⟩ := h
      · exact .inl hd
      · exact .inr ⟨he, next, hnext, hd⟩
    · obtain ⟨rfl, hd⟩ := h
      exact .inr ⟨hnext, hd⟩

lemma record_of_added {saved next : List SavedWinner} {job : MiningJob}
    {winners : List CompleteWinner} (h : recorded saved job winners = .ok (next, true)) :
    record saved job winners = commit next := by
  rw [record, h]
  rfl

lemma wp_record {file : Option Bytes} (hfile : disk.file = file) (job : MiningJob)
    (winners : List CompleteWinner) :
    wp Answers ((Call.record job winners).Leaves saved file) (record saved job winners)
      ((Call.record job winners).Ends saved file) disk := by
  refine wp_lift_bind.mpr ⟨?_, fun _ _ => .inl hfile⟩
  rintro ⟨next, added⟩ hrecorded
  cases added with
  | false => exact .inl ⟨rfl, hfile⟩
  | true =>
    refine wp_commit_next hfile ?_
    rw [Call.next, hrecorded]

lemma forJob_of_retired {saved : List SavedWinner} {job : MiningJob} {target : Hash}
    (hvalid : validateJob job = .ok target)
    (hshorter : (saved.filter (SavedWinner.stays job)).length ≠ saved.length) :
    forJob saved job = (commit (saved.filter (SavedWinner.stays job)) >>= fun saved =>
      pure (saved, (saved.filter fun entry => sameWork entry.job (.ofJob job)).mapM
        (SavedWinner.rebind job))) := by
  rw [forJob, hvalid]
  exact if_pos hshorter
/-- What `forJob` ends with: the list, and the winners that are for the job. -/
def Found (saved : List SavedWinner) (job : MiningJob) (file : Option Bytes) :
    Except String (List SavedWinner × Except String (List CompleteWinner)) → Disk → Prop
  | .ok (saved', winners), d => (Call.forJob job).Ends saved file (.ok saved') d ∧
      winners = (saved'.filter fun entry => sameWork entry.job (.ofJob job)).mapM
        (SavedWinner.rebind job)
  | .error e, d => (Call.forJob job).Ends saved file (.error e) d

lemma wp_forJob {file : Option Bytes} (hfile : disk.file = file) (job : MiningJob) :
    wp Answers ((Call.forJob job).Leaves saved file) (forJob saved job) (Found saved job file)
      disk := by
  refine wp_lift_bind.mpr ⟨?_, fun _ _ => .inl hfile⟩
  intro target hvalid
  dsimp only
  split
  · rename_i hlength
    have hnext : (Call.forJob job).next saved = some (saved.filter (SavedWinner.stays job)) := by
      rw [Call.next, if_pos ⟨by rw [hvalid]; rfl, hlength⟩]
    refine wp_bind.mpr ((wp_commit_next hfile hnext).mono ?_)
    rintro (e | saved') d h
    · exact h
    · exact ⟨h, rfl⟩
  · exact ⟨.inl ⟨rfl, hfile⟩, rfl⟩

/-- A call works on the file, and ends, in one way. -/
lemma wp_call {file : Option Bytes} (hfile : disk.file = file) (call : Call) :
    wp Answers (call.Leaves saved file) (call.task saved) (call.Ends saved file) disk := by
  cases call with
  | record job winners => exact wp_record hfile job winners
  | forJob job =>
    refine wp_bind.mpr ((wp_forJob hfile job).mono ?_)
    rintro (e | ⟨saved', _⟩) d h
    · exact h
    · exact h.1

lemma runs_call {disk' : Disk} {r : Option (Except String (List SavedWinner))}
    (hrun : Runs Answers (call.task saved) disk r disk') :
    call.Leaves saved disk.file disk' ∧ ∀ x, r = some x → call.Ends saved disk.file x disk' :=
  (wp_call rfl call).sound (.inl rfl) hrun

/-! ### Opening -/

lemma wp_openSaved :
    wp Answers (· = disk) openSaved (upon (fun saved _ => disk.Reads saved ∧ saved.length ≤ 16 ∧
      ∀ entry ∈ saved, entry.check = .ok ()) fun _ => True) disk := by
  have hchecked : ∀ (saved : List SavedWinner) (d : Disk), d = disk → disk.Reads saved →
      wp Answers (· = disk)
        (if maxWinners < saved.length then
          (.error "too many pending rig winners" : Task (List SavedWinner))
        else do
          lift (saved.forM SavedWinner.check)
          return saved)
        (upon (fun saved _ => disk.Reads saved ∧ saved.length ≤ 16 ∧
          ∀ entry ∈ saved, entry.check = .ok ()) fun _ => True) d := by
    intro saved d hd hreads
    split
    · trivial
    rename_i hlength
    refine wp_lift_bind.mpr ⟨?_, fun _ _ => trivial⟩
    rintro ⟨⟩ hall
    exact ⟨hreads, not_lt.mp hlength, forM_check_eq_ok.mp hall⟩
  refine wp_query_bind.mpr ?_
  rintro (_ | len | _) d hd
  · obtain ⟨hnone, rfl⟩ := hd
    exact ⟨rfl, hchecked [] d rfl (.inl ⟨hnone, rfl⟩)⟩
  · obtain ⟨-, rfl⟩ := hd
    refine ⟨rfl, wp.seq (wp_readSaved rfl) rfl ?_ fun _ _ _ _ => trivial⟩
    intro saved d' hd' hreads
    exact hchecked saved d' hd' hreads
  · have hd : d = disk := hd
    exact ⟨hd, trivial⟩

lemma runs_openSaved {disk' : Disk} {r : Option (Except String (List SavedWinner))}
    (hrun : Runs Answers openSaved disk r disk') :
    disk' = disk ∧ ∀ saved, r.bind Except.toOption = some saved →
      disk.Reads saved ∧ saved.length ≤ 16 ∧ ∀ entry ∈ saved, entry.check = .ok () := by
  obtain ⟨hdisk, hend⟩ := wp_openSaved.sound rfl hrun
  refine ⟨hdisk, ?_⟩
  intro saved hsaved
  cases r with
  | none => cases hsaved
  | some x =>
    cases x with
    | error e => cases hsaved
    | ok saved' =>
      cases hsaved
      exact hend _ rfl

end Calls

end Pickaxe.Rigs
