/-
# Saved proofs over runs

Whatever the calls and the failures of the disk, a saved proof stays until a job retires it or newer
proofs take its place; what a job gets is a saved proof for its own work.
-/
import Pickaxe.Photon.Indexed
import Pickaxe.Rigs.Written

namespace Pickaxe.Rigs

open Lib Program Photon Engine.Meets
open Electric (Schnorr)

/-! ## Why a proof leaves -/

section Retirement

variable [Hasher] [Schnorr] [Ripemd] {saved next : List SavedWinner} {entry : SavedWinner}
  {call : Call}

/-- A job's baton is a proof's claim transaction. -/
def SavedWinner.BecameBaton (entry : SavedWinner) (job : MiningJob) : Prop :=
  ∃ winner, entry.winner.toWinner = .ok winner ∧
    Text.eqIgnoreCase (transactionId winner.transaction) job.batonTxid = true

/-- A call that drops a proof: for a job of its network whose baton is the claim, or that is higher
and on another baton; or with a new proof that is the sixteenth behind it. -/
def Call.Retires (saved : List SavedWinner) (entry : SavedWinner) : Call → Prop
  | .forJob job => entry.job.network = job.network.asStr ∧
      (entry.BecameBaton job ∨ (entry.job.height < job.height ∧
        ¬ (entry.job.batonTxid = job.batonTxid ∧ entry.job.batonVout = job.batonVout)))
  | .record job winners => ∃ winner ∈ winners, verifyRigWinner winner job = .ok () ∧
      ∃ newer, newer.length = 16 ∧ saved ++ [SavedWinner.of job winner] = entry :: newer

/-- A call that adds a proof, of a winner for the job it is called with. -/
def Call.Records (entry : SavedWinner) : Call → Prop
  | .forJob _ => False
  | .record job winners => ∃ winner ∈ winners, winner.generationId = job.generationId ∧
      verifyRigWinner winner job = .ok () ∧ entry = SavedWinner.of job winner

/-- A verified proof is claimed by a job exactly when its transaction is the job's baton. -/
lemma claimedBy_iff {job : MiningJob} (h : entry.check = .ok ()) :
    entry.claimedBy job = true ↔ entry.BecameBaton job := by
  obtain ⟨winner, hwinner, h⟩ := Except.bind_eq_ok.mp h
  obtain ⟨own, -, h⟩ := Except.bind_eq_ok.mp h
  have hdigest : (doubleSha256 winner.transaction).bytes = winner.digest := by
    obtain ⟨-, h⟩ := Except.ite_error_eq_ok.mp h
    obtain ⟨_, -, h⟩ := Except.bind_eq_ok.mp h
    obtain ⟨_, -, h⟩ := Except.bind_eq_ok.mp h
    obtain ⟨-, h⟩ := Except.ite_error_eq_ok.mp h
    exact not_not.mp (Except.ite_error_eq_ok.mp h).1
  rw [SavedWinner.claimedBy, hexDecode_digest hwinner, SavedWinner.BecameBaton]
  constructor
  · intro hclaimed
    refine ⟨winner, hwinner, ?_⟩
    rw [transactionId, hdigest]
    exact hclaimed
  · rintro ⟨winner', hwinner', hbaton⟩
    obtain rfl := Except.ok.inj (hwinner.symm.trans hwinner')
    rw [transactionId, hdigest] at hbaton
    exact hbaton

/-- A proof that a call does not retire is in what it saves. -/
lemma mem_next (h : Kept saved) (hentry : entry ∈ saved) (hnext : call.next saved = some next) :
    entry ∈ next ∨ call.Retires saved entry := by
  cases call with
  | record job winners =>
    obtain ⟨-, winner, hwinner, -, hverified, rfl⟩ := next_record hnext
    by_cases hlt : saved.length < 16
    · rw [Nat.sub_eq_zero_of_le hlt, List.drop_zero]
      exact .inl (List.mem_append_left _ hentry)
    -- a full list gives up its first proof
    obtain hlen : saved.length = 16 := le_antisymm h.length_le (not_lt.mp hlt)
    cases saved with
    | nil => cases hentry
    | cons oldest newer =>
      rw [hlen]
      obtain rfl | hentry := List.mem_cons.mp hentry
      · refine .inr ⟨winner, hwinner, hverified, newer ++ [.of job winner], ?_, rfl⟩
        rw [List.length_append, List.length_singleton, ← hlen, List.length_cons]
      · exact .inl (List.mem_append_left _ hentry)
  | forJob job =>
    obtain rfl := next_forJob hnext
    by_cases hstays : SavedWinner.stays job entry = true
    · exact .inl (List.mem_filter.mpr ⟨hentry, hstays⟩)
    · refine .inr ?_
      simp only [SavedWinner.stays, Bool.or_eq_true, bne_iff_ne, Bool.and_eq_true,
        Bool.not_eq_true', decide_eq_true_eq, beq_iff_eq, not_or, not_not, not_and] at hstays
      refine ⟨hstays.1, ?_⟩
      by_cases hclaimed : entry.claimedBy job = true
      · exact .inl ((claimedBy_iff (h.verified entry hentry)).mp hclaimed)
      · obtain ⟨hheight, hbaton⟩ := hstays.2 (Bool.eq_false_of_not_eq_true hclaimed)
        exact .inr ⟨not_le.mp hheight, fun hsame => hbaton hsame.1 hsame.2⟩

/-- A proof in what a call saves was there before, or the call records it. -/
lemma mem_of_mem_next (hnext : call.next saved = some next) (hentry : entry ∈ next) :
    entry ∈ saved ∨ call.Records entry := by
  cases call with
  | record job winners =>
    obtain ⟨-, winner, hwinner, hgeneration, hverified, rfl⟩ := next_record hnext
    obtain hentry | hentry := List.mem_append.mp (List.mem_of_mem_drop hentry)
    · exact .inl hentry
    · exact .inr ⟨winner, hwinner, hgeneration, hverified, List.mem_singleton.mp hentry⟩
  | forJob job =>
    obtain rfl := next_forJob hnext
    exact .inl (List.mem_of_mem_filter hentry)

/-- A proof behind another in what a call saves was behind it before, or the call records it. -/
lemma behind_of_behind_next {older : SavedWinner} (hnext : call.next saved = some next)
    (hbehind : [older, entry].Sublist next) :
    [older, entry].Sublist saved ∨ call.Records entry := by
  cases call with
  | record job winners =>
    obtain ⟨-, winner, hwinner, hgeneration, hverified, rfl⟩ := next_record hnext
    obtain ⟨l₁, l₂, heq, hl₁, hl₂⟩ :=
      List.sublist_append_iff.mp (hbehind.trans (List.drop_sublist _ _))
    obtain rfl | hl₂ := List.sublist_singleton.mp hl₂
    · rw [List.append_nil] at heq
      exact .inl (heq ▸ hl₁)
    · refine .inr ⟨winner, hwinner, hgeneration, hverified, ?_⟩
      have hlast := congrArg List.getLast? heq
      rw [hl₂, List.getLast?_append] at hlast
      simpa using hlast
  | forJob job =>
    obtain rfl := next_forJob hnext
    exact .inl (hbehind.trans List.filter_sublist)

end Retirement

/-! ## Runs -/

section Runs

variable [Hasher] [Schnorr] [Ripemd] [SavedJson] {s s' start : System} {history : List Event}
  {event : Event} {entry : SavedWinner}

def Event.Retires (entry : SavedWinner) : Event → Prop
  | .opened => False
  | .called saved call => call.Retires saved entry

def Event.Records (entry : SavedWinner) : Event → Prop
  | .opened => False
  | .called _ call => call.Records entry

/-- The list in memory after a step: the file's, where it was opened, or what it was before, or what
the call came to. -/
lemma Step.memory (h : Step s event s') {saved' : List SavedWinner}
    (hsaved : s'.memory = some saved') :
    (event = .opened ∧ s.disk.Reads saved' ∧ saved'.length ≤ 16 ∧
      ∀ entry ∈ saved', entry.check = .ok ()) ∨
    ∃ saved call, event = .called saved call ∧ s.memory = some saved ∧
      (saved' = saved ∨ call.next saved = some saved') := by
  cases h with
  | opened hrun => exact .inl ⟨rfl, (runs_openSaved hrun).2 saved' hsaved⟩
  | @called saved call disk disk' r hrun =>
    refine .inr ⟨saved, call, rfl, rfl, ?_⟩
    cases r with
    | none => cases hsaved
    | some x =>
      cases x with
      | error e => exact .inl (Option.some.inj hsaved).symm
      | ok next =>
        cases hsaved
        obtain ⟨hsame, -⟩ | ⟨hnext, -⟩ := (runs_call hrun).2 _ rfl
        · exact .inl hsame
        · exact .inr hnext

/-- The list in the file after a step: what it was before, or what the call came to. -/
lemma Step.file (h : Step s event s') {saved' : List SavedWinner}
    (hsaved : s'.disk.Reads saved') :
    s.disk.Reads saved' ∨ ∃ saved call, event = .called saved call ∧ s.memory = some saved ∧
      call.next saved = some saved' := by
  cases h with
  | opened hrun =>
    obtain ⟨rfl, -⟩ := runs_openSaved hrun
    exact .inl hsaved
  | @called saved call disk disk' r hrun =>
    obtain hsame | ⟨next, hnext, hfile⟩ := (runs_call hrun).1
    · rw [Disk.Reads, hsame] at hsaved
      exact .inl hsaved
    · refine .inr ⟨saved, call, rfl, rfl, ?_⟩
      obtain ⟨hnone, -⟩ | ⟨bytes, hbytes, hdecode⟩ := hsaved
      · cases hnone.symm.trans hfile
      · obtain rfl := Option.some.inj (hbytes.symm.trans hfile)
        rw [SavedJson.decode_encode] at hdecode
        rw [hnext, hdecode]

/-- The lists that count: the one in memory and the one in the file. -/
def System.Has (s : System) (saved : List SavedWinner) : Prop :=
  s.memory = some saved ∨ s.disk.Reads saved

lemma Step.has (h : Step s event s') {saved' : List SavedWinner} (hsaved : s'.Has saved') :
    s.Has saved' ∨ ∃ saved call, event = .called saved call ∧ s.memory = some saved ∧
      call.next saved = some saved' := by
  obtain hmemory | hfile := hsaved
  · obtain ⟨-, hread, -⟩ | ⟨saved, call, rfl, hsaved, rfl | hnext⟩ := h.memory hmemory
    · exact .inl (.inr hread)
    · exact .inl (.inl hsaved)
    · exact .inr ⟨saved, call, rfl, hsaved, hnext⟩
  · obtain hread | hcalled := h.file hfile
    · exact .inl (.inr hread)
    · exact .inr hcalled

/-- The file's proofs are for different work. -/
def Disk.Distinct (disk : Disk) : Prop :=
  ∀ saved, disk.Reads saved → saved.Pairwise fun entry entry' =>
    sameWork entry.job entry'.job = false

structure System.Sound (s : System) : Prop where
  kept : ∀ saved, s.memory = some saved → Kept saved
  distinct : s.disk.Distinct

lemma System.Sound.step (h : s.Sound) (hstep : Step s event s') : s'.Sound := by
  refine ⟨?_, ?_⟩
  · intro saved' hsaved'
    obtain ⟨-, hread, hlength, hverified⟩ | ⟨saved, call, -, hsaved, rfl | hnext⟩ :=
      hstep.memory hsaved'
    · exact ⟨hlength, hverified, h.distinct saved' hread⟩
    · exact h.kept saved' hsaved
    · exact (h.kept saved hsaved).next hnext
  · intro saved' hsaved'
    obtain hread | ⟨saved, call, -, hsaved, hnext⟩ := hstep.file hsaved'
    · exact h.distinct saved' hread
    · exact ((h.kept saved hsaved).next hnext).distinct

lemma Reaches.sound (h : Reaches s history s') (hs : s.Sound) : s'.Sound := by
  induction h with
  | refl => exact hs
  | step _ hstep ih => exact ih.step hstep

/-- Where a call's list has something that its own did not have only by recording a proof, so has
every list of a run. -/
lemma Reaches.traced {P : List SavedWinner → Prop}
    (hP : ∀ {saved next : List SavedWinner} {call : Call}, call.next saved = some next → P next →
      P saved ∨ call.Records entry)
    (h : Reaches s history s') {saved' : List SavedWinner} (hsaved : s'.Has saved') (hp : P saved') :
    (∃ saved, s.Has saved ∧ P saved) ∨ ∃ event ∈ history, event.Records entry := by
  induction h generalizing saved' with
  | refl => exact .inl ⟨saved', hsaved, hp⟩
  | @step history event s' s'' _ hstep ih =>
    have hbefore : ∀ {saved : List SavedWinner}, s'.Has saved → P saved →
        (∃ saved, s.Has saved ∧ P saved) ∨ ∃ event' ∈ history ++ [event], event'.Records entry := by
      intro saved hsaved hp
      obtain hstart | ⟨event', hevent', hrecords⟩ := ih hsaved hp
      · exact .inl hstart
      · exact .inr ⟨event', List.mem_append_left _ hevent', hrecords⟩
    obtain hsaved | ⟨saved, call, rfl, hsaved, hnext⟩ := hstep.has hsaved
    · exact hbefore hsaved hp
    · obtain hp | hrecords := hP hnext hp
      · exact hbefore (.inl hsaved) hp
      · exact .inr ⟨_, List.mem_append_right _ (List.mem_singleton_self _), hrecords⟩

/-- A proof that every list has stays in them all until a call retires it. -/
lemma Reaches.leaves (h : Reaches s history s') (hs : s.Sound)
    (hheld : ∀ saved, s.Has saved → entry ∈ saved) :
    (∀ saved, s'.Has saved → entry ∈ saved) ∨ ∃ event ∈ history, event.Retires entry := by
  induction h with
  | refl => exact .inl hheld
  | @step history event s' s'' hreach hstep ih =>
    obtain hheld' | ⟨event', hevent', hretires⟩ := ih
    · by_cases hretires : event.Retires entry
      · exact .inr ⟨event, List.mem_append_right _ (List.mem_singleton_self _), hretires⟩
      refine .inl ?_
      intro saved' hsaved'
      obtain hsaved | ⟨saved, call, rfl, hsaved, hnext⟩ := hstep.has hsaved'
      · exact hheld' saved' hsaved
      · have hkept := (hreach.sound hs).kept saved hsaved
        exact (mem_next hkept (hheld' saved (.inl hsaved)) hnext).resolve_right hretires
    · exact .inr ⟨event', List.mem_append_left _ hevent', hretires⟩

/-- A proof that comes into memory is in the file. -/
lemma Step.stores (h : Step s event s') {saved' : List SavedWinner}
    (hsaved : s'.memory = some saved') (hentry : entry ∈ saved')
    (hnew : ∀ saved, s.memory = some saved → entry ∉ saved) : s'.disk.Stores entry := by
  cases h with
  | opened hrun =>
    obtain ⟨rfl, hread⟩ := runs_openSaved hrun
    obtain ⟨-, rfl⟩ | ⟨bytes, hbytes, hdecode⟩ := (hread saved' hsaved).1
    · cases hentry
    · exact ⟨bytes, saved', hbytes, hdecode, hentry⟩
  | @called saved call disk disk' r hrun =>
    cases r with
    | none => cases hsaved
    | some x =>
      cases x with
      | error e =>
        cases hsaved
        exact absurd hentry (hnew saved' rfl)
      | ok next =>
        cases hsaved
        obtain ⟨rfl, -⟩ | ⟨-, hfile⟩ := (runs_call hrun).2 _ rfl
        · exact absurd hentry (hnew saved' rfl)
        · exact ⟨_, saved', hfile, SavedJson.decode_encode saved', hentry⟩

/-- The winners a job gets are saved ones for its work, under its generation. -/
lemma runs_forJob {saved saved' : List SavedWinner} {job : MiningJob}
    {winners : List CompleteWinner} {disk disk' : Disk}
    (hrun : Runs Answers (forJob saved job) disk (some (.ok (saved', .ok winners))) disk')
    {winner : CompleteWinner} (hwinner : winner ∈ winners) :
    ∃ entry ∈ saved', entry ∈ saved ∧ sameWork entry.job (.ofJob job) = true ∧
      verifyRigWinner winner job = .ok () ∧
      ∃ own, entry.winner.toWinner = .ok own ∧
        winner = { own with generationId := job.generationId } := by
  obtain ⟨-, hend⟩ := (wp_forJob rfl job).sound (.inl rfl) hrun
  obtain ⟨hends, hmap⟩ := hend _ rfl
  obtain ⟨entry, hentry, hrebind⟩ := Except.exists_of_mem_mapM hmap.symm hwinner
  obtain ⟨hentry, hsame⟩ := List.mem_filter.mp hentry
  obtain ⟨own, hown, h⟩ := Except.bind_eq_ok.mp hrebind
  obtain ⟨⟨⟩, hverified, h⟩ := Except.bind_eq_ok.mp h
  cases h
  refine ⟨entry, hentry, ?_, hsame, hverified, own, hown, rfl⟩
  obtain ⟨rfl, -⟩ | ⟨hnext, -⟩ := hends
  · exact hentry
  · obtain rfl := next_forJob hnext
    exact List.mem_of_mem_filter hentry

/-- Saved proofs over any run from a disk whose proofs are for different work. -/
theorem saved_proofs {disk : Disk} (hdisk : disk.Distinct) (h : Reaches ⟨none, disk⟩ history s) :
    -- the list in memory, and where its proofs come from
    (∀ saved, s.memory = some saved → Kept saved ∧ ∀ entry ∈ saved,
      (∃ old, disk.Reads old ∧ entry ∈ old) ∨ ∃ event ∈ history, event.Records entry) ∧
    -- what a job gets
    (∀ saved job disk' saved' winners, s.memory = some saved →
      Runs Answers (forJob saved job) s.disk (some (.ok (saved', .ok winners))) disk' →
      ∀ winner ∈ winners, ∃ entry ∈ saved', entry ∈ saved ∧
        sameWork entry.job (.ofJob job) = true ∧ verifyRigWinner winner job = .ok () ∧
        ∃ own, entry.winner.toWinner = .ok own ∧
          winner = { own with generationId := job.generationId }) ∧
    -- a proof that comes into memory is in the file
    (∀ event s', Step s event s' → ∀ saved' entry, s'.memory = some saved' → entry ∈ saved' →
      (∀ saved, s.memory = some saved → entry ∉ saved) → s'.disk.Stores entry) ∧
    -- one that is in both leaves memory only if it is retired
    (∀ saved entry, s.memory = some saved → entry ∈ saved → s.disk.Stores entry →
      ∀ later s', Reaches s later s' → ∀ saved', s'.memory = some saved' → entry ∉ saved' →
        ∃ event ∈ later, event.Retires entry) ∧
    -- and what stands behind it, where it was the newest, has been recorded since
    (∀ entry, (∀ saved newer, s.Has saved → ¬ [entry, newer].Sublist saved) →
      ∀ later s', Reaches s later s' → ∀ saved' newer, s'.Has saved' →
        [entry, newer].Sublist saved' → ∃ event ∈ later, event.Records newer) ∧
    -- a call that fails leaves the memory, and the file too unless only synchronisation failed
    (∀ saved call e disk', s.memory = some saved →
      Runs Answers (call.task saved) s.disk (some (.error e)) disk' →
      Step s (.called saved call) ⟨some saved, disk'⟩ ∧
        (disk'.file = s.disk.file ∨ (SyncFailed e ∧ ∃ next, call.next saved = some next ∧
          disk'.file = some (SavedJson.encode next)))) := by
  have hsound : s.Sound := h.sound ⟨by rintro _ ⟨⟩, hdisk⟩
  refine ⟨?_, ?_, ?_, ?_, ?_, ?_⟩
  · intro saved hsaved
    refine ⟨hsound.kept saved hsaved, ?_⟩
    intro entry hentry
    obtain ⟨old, hold, hentry⟩ | hrecorded := h.traced mem_of_mem_next (.inl hsaved) hentry
    · obtain hmemory | hread := hold
      · cases hmemory
      · exact .inl ⟨old, hread, hentry⟩
    · exact .inr hrecorded
  · intro saved job disk' saved' winners hsaved hrun winner hwinner
    exact runs_forJob hrun hwinner
  · intro event s' hstep saved' entry hsaved' hentry hnew
    exact hstep.stores hsaved' hentry hnew
  · intro saved entry hsaved hentry hstores later s' hlater saved' hsaved' hgone
    obtain ⟨bytes, old, hbytes, hdecode, hentry'⟩ := hstores
    refine (hlater.leaves hsound ?_).resolve_left fun hheld => hgone (hheld saved' (.inl hsaved'))
    rintro held (hmemory | ⟨hnone, -⟩ | ⟨bytes', hbytes', hdecode'⟩)
    · obtain rfl := Option.some.inj (hsaved.symm.trans hmemory)
      exact hentry
    · cases hnone.symm.trans hbytes
    · obtain rfl := Option.some.inj (hbytes.symm.trans hbytes')
      obtain rfl := Option.some.inj (hdecode.symm.trans hdecode')
      exact hentry'
  · intro entry hnewest later s' hlater saved' newer hsaved' hbehind
    obtain ⟨saved, hsaved, hbefore⟩ | hrecorded :=
      hlater.traced behind_of_behind_next hsaved' hbehind
    · exact absurd hbefore (hnewest saved newer hsaved)
    · exact hrecorded
  · intro saved call e disk' hsaved hrun
    refine ⟨?_, (runs_call hrun).2 _ rfl⟩
    obtain ⟨memory, disk⟩ := s
    obtain rfl : memory = some saved := hsaved
    exact .called hrun

end Runs

/-! ## A proof that is saved -/

section Sample

/-- A job on a baton, one block after it was created. -/
def sampleMiningJob : MiningJob where
  network := .mainnet
  height := 2
  batonTxid := List.replicate 64 'a'
  batonVout := 0
  batonHeight := 1
  batonValueSats := 10000
  relayFeeSatsPerKb := 1000
  age := 1
  targetLeHex := Text.hexEncode sampleTarget.bytes
  tokenAmount := 420000 * (2 ^ 33 + 1)
  rewardRaw := 2 ^ 33
  payoutAddress := sampleAddress
  sourceIdentity := "node".toList
  generationId := 1
  tokenAmount_lt := by decide
  rewardRaw_lt := by decide

/-- A higher job on another baton. -/
def sampleHigherJob : MiningJob :=
  { sampleMiningJob with height := 3, batonTxid := List.replicate 64 'b', generationId := 2 }

/-- The double hash of the transaction `01`. -/
def sampleDigest : Hash where
  bytes :=
    [0x9c, 0x12, 0xcf, 0xdc, 0x04, 0xc7, 0x45, 0x84, 0xd7, 0x87, 0xac, 0x3d, 0x23, 0x77, 0x21,
     0x32, 0xc1, 0x85, 0x24, 0xbc, 0x7a, 0xb2, 0x8d, 0xec, 0x42, 0x19, 0xb8, 0xfc, 0x5b, 0x42,
     0x5f, 0x70]
  length_eq := rfl

def sampleProof : CompleteWinner where
  generationId := 1
  height := 2
  batonTxid := sampleMiningJob.batonTxid
  batonVout := 0
  digest := sampleDigest.bytes
  transaction := [1]
  payout := none
  jobRewardRaw := 2 ^ 33
  nonce := 1
  publicKey := samplePublicKey
  signature := sampleSignature

/-- The hash of the sample's public key, whatever is hashed. -/
@[reducible] def sampleRipemd : Ripemd where
  ripemd160 _ := {
    bytes := [0x75, 0x1e, 0x76, 0xe8, 0x19, 0x91, 0x96, 0xd4, 0x54, 0x94, 0x1c, 0x45, 0xd1, 0xb3,
      0xa3, 0x23, 0xf1, 0x43, 0x3b, 0xd6]
    length_eq := rfl }

/-- The deployment has a layout for a baton of age one, since a claim of such a one is built. -/
lemma sampleLayout_ok :
    let _ : Hasher := Hasher.fips
    ∃ layout, PhotonLayout.forAgeWithDeployment 1 .mainnet = .ok layout := by
  intro _
  obtain ⟨tx, hbuilt⟩ := Except.exists_eq_ok sampleParams_built
  obtain ⟨_, -, hbuilt⟩ := Except.bind_eq_ok.mp hbuilt
  obtain ⟨layout, hlayout, -⟩ := Except.bind_eq_ok.mp hbuilt
  exact ⟨layout, hlayout⟩

lemma sampleDigest_eq :
    let _ : Hasher := Hasher.fips
    doubleSha256 [1] = sampleDigest := by
  rw [Hasher.fips_eq]
  decide +kernel

/-- Jobs that differ from the sample only in their height, baton and generation are valid. -/
lemma validateJob_sample (height generationId : ℕ) (batonTxid : List Char)
    (hgeneration : generationId ≠ 0) :
    let _ : Hasher := Hasher.fips
    validateJob { sampleMiningJob with height, batonTxid, generationId } = .ok sampleTarget := by
  intro _
  obtain ⟨layout, hlayout⟩ := sampleLayout_ok
  have hreward : requireCovenantHashPreimage sampleMiningJob.tokenAmount sampleMiningJob.rewardRaw =
      .ok () := by decide
  have hpayout : ¬ Text.trim sampleMiningJob.payoutAddress = [] := by decide +kernel
  have htarget : parseHex32 sampleMiningJob.targetLeHex = .ok sampleTarget := by decide +kernel
  have hpositive : ¬ ((deployment .mainnet).proofRule = .positive ∧
      (at' sampleTarget 31 &&& 0x80 ≠ 0 ∨ sampleTarget.bytes.all (· = 0))) := by decide
  refine Except.ite_error_eq_ok.mpr ⟨hgeneration, Except.bind_eq_ok.mpr ⟨layout, hlayout, ?_⟩⟩
  refine Except.bind_eq_ok.mpr ⟨(), hreward, Except.ite_error_eq_ok.mpr ⟨hpayout, ?_⟩⟩
  exact Except.bind_eq_ok.mpr ⟨sampleTarget, htarget, Except.ite_error_eq_ok.mpr ⟨hpositive, rfl⟩⟩

lemma sampleProof_verified :
    let _ : Hasher := Hasher.fips
    let _ : Schnorr := sampleSchnorr
    let _ : Ripemd := sampleRipemd
    verifyRigWinner sampleProof sampleMiningJob = .ok () := by
  intro hasher _ _
  have hpays : Cashaddr.toP2pkhLocking sampleAddress =
      .ok ([0x76, 0xa9, 0x14] ++ List.replicate 20 0 ++ [0x88, 0xac]) := by
    decide +kernel
  have hdigest : doubleSha256 [1] = sampleDigest := sampleDigest_eq
  have hmessage : photonMessageSha256 1 sampleMiningJob.targetLeHex = .ok sampleMessage := by
    refine Except.bind_eq_ok.mpr ⟨sampleTarget.bytes, by decide +kernel, ?_⟩
    exact Except.ite_error_eq_ok.mpr ⟨by decide, congrArg _ sampleMessage_eq⟩
  refine Except.ite_error_eq_ok.mpr ⟨by decide, ?_⟩
  refine Except.bind_eq_ok.mpr ⟨sampleTarget, validateJob_sample 2 1 _ (by decide), ?_⟩
  refine Except.bind_eq_ok.mpr ⟨sampleMessage, hmessage, Except.ite_error_eq_ok.mpr ⟨by decide, ?_⟩⟩
  refine Except.ite_error_eq_ok.mpr ⟨fun h => h (congrArg _ hdigest), ?_⟩
  refine Except.ite_error_eq_ok.mpr ⟨?_, ?_⟩
  · intro h
    have hdigest' : doubleSha256 sampleProof.transaction = sampleDigest := hdigest
    rw [hdigest'] at h
    revert h
    decide
  refine Except.bind_eq_ok.mpr ⟨_, hpays, Except.ite_error_eq_ok.mpr ⟨?_, rfl⟩⟩
  intro h
  have hbyte : (0x00 : UInt8) = 0x75 := congrArg (fun b : Bytes => b.getD 3 0) h
  revert hbyte
  decide

def sampleEntry : SavedWinner := .of sampleMiningJob sampleProof

/-- A JSON object; none of the sample's texts needs an escape. -/
def jsonObject (fields : List (String × List Char)) : List Char :=
  [Char.ofNat 0x7b] ++ [','].intercalate (fields.map fun (name, value) =>
    ['"'] ++ name.toList ++ ['"', ':'] ++ value) ++ [Char.ofNat 0x7d]

def jsonText (text : List Char) : List Char := ['"'] ++ text ++ ['"']

def jsonWinner (winner : WireWinner) : List Char := jsonObject [
  ("generation_id", Nat.toDigits 10 winner.generationId),
  ("height", Nat.toDigits 10 winner.height),
  ("baton_txid", jsonText winner.batonTxid),
  ("baton_vout", Nat.toDigits 10 winner.batonVout),
  ("job_reward_raw", jsonText winner.jobRewardRaw),
  ("nonce", Nat.toDigits 10 winner.nonce),
  ("digest", jsonText winner.digest),
  ("public_key", jsonText winner.publicKey),
  ("signature", jsonText winner.signature),
  ("transaction", jsonText winner.transaction)]

def jsonJob (job : WireJob) : List Char := jsonObject [
  ("network", jsonText job.network.toList),
  ("height", Nat.toDigits 10 job.height),
  ("baton_txid", jsonText job.batonTxid),
  ("baton_vout", Nat.toDigits 10 job.batonVout),
  ("baton_height", Nat.toDigits 10 job.batonHeight),
  ("baton_value_sats", Nat.toDigits 10 job.batonValueSats),
  ("relay_fee_sats_per_kb", Nat.toDigits 10 job.relayFeeSatsPerKb),
  ("age", Nat.toDigits 10 job.age),
  ("target_le_hex", jsonText job.targetLeHex),
  ("token_amount", jsonText job.tokenAmount),
  ("reward_raw", jsonText job.rewardRaw),
  ("payout_address", jsonText job.payoutAddress),
  ("source_identity", jsonText job.sourceIdentity),
  ("generation_id", Nat.toDigits 10 job.generationId),
  ("donation", "null".toList)]

/-- The file of a list. -/
def jsonSaved (saved : List SavedWinner) : Bytes :=
  (['['] ++ [','].intercalate (saved.map fun entry =>
    jsonObject [("job", jsonJob entry.job), ("winner", jsonWinner entry.winner)]) ++ [']']).map
      fun c => UInt8.ofNat c.toNat

instance : Countable WireJob := by
  refine Function.Injective.countable (f := fun j : WireJob => (j.network, j.height, j.batonTxid,
    j.batonVout, j.batonHeight, j.batonValueSats, j.relayFeeSatsPerKb, j.age, j.targetLeHex,
    j.tokenAmount, j.rewardRaw, j.payoutAddress, j.sourceIdentity, j.generationId, j.donation)) ?_
  rintro ⟨⟩ ⟨⟩ h
  simpa only [Prod.mk.injEq, WireJob.mk.injEq] using h

instance : Countable WireWinner := by
  refine Function.Injective.countable (f := fun w : WireWinner => (w.generationId, w.height,
    w.batonTxid, w.batonVout, w.jobRewardRaw, w.nonce, w.digest, w.publicKey, w.signature,
    w.transaction)) ?_
  rintro ⟨⟩ ⟨⟩ h
  simpa only [Prod.mk.injEq, WireWinner.mk.injEq] using h

instance : Countable SavedWinner := by
  refine Function.Injective.countable (f := fun e : SavedWinner => (e.job, e.winner)) ?_
  rintro ⟨⟩ ⟨⟩ h
  simpa only [Prod.mk.injEq, SavedWinner.mk.injEq] using h

/-- The lists that the sample's files hold. -/
def sampleLists : List (List SavedWinner) := [[], [sampleEntry], [sampleEntry, sampleEntry]]

/-- JSON, on the sample's lists; others are counted. -/
noncomputable def sampleEncode (saved : List SavedWinner) : Bytes :=
  if saved ∈ sampleLists then jsonSaved saved
  else List.replicate ((exists_injective_nat (List SavedWinner)).choose saved) 0

lemma sampleEncode_injective : Function.Injective sampleEncode := by
  have hhead : ∀ (saved : List SavedWinner) (n : ℕ), jsonSaved saved ≠ List.replicate n 0 := by
    intro saved n h
    cases n with
    | zero => cases h
    | succ n => cases congrArg List.head? h
  have hlists : ∀ saved ∈ sampleLists, ∀ saved' ∈ sampleLists,
      jsonSaved saved = jsonSaved saved' → saved = saved' := by
    have hall : sampleLists.all (fun saved => sampleLists.all fun saved' =>
        decide (jsonSaved saved = jsonSaved saved' → saved = saved')) = true := by decide +kernel
    intro saved hsaved saved' hsaved'
    exact of_decide_eq_true (List.all_eq_true.mp (List.all_eq_true.mp hall saved hsaved) saved' hsaved')
  intro saved saved' h
  rw [sampleEncode, sampleEncode] at h
  split at h <;> split at h
  · exact hlists saved ‹_› saved' ‹_› h
  · exact absurd h (hhead _ _)
  · exact absurd h.symm (hhead _ _)
  · have hlength := congrArg List.length h
    rw [List.length_replicate, List.length_replicate] at hlength
    exact (exists_injective_nat (List SavedWinner)).choose_spec hlength

open Classical in
@[reducible] noncomputable def sampleSavedJson : SavedJson where
  encode := sampleEncode
  decode bytes := if h : ∃ saved, sampleEncode saved = bytes then some h.choose else none
  decode_encode saved := by
    have h : ∃ saved', sampleEncode saved' = sampleEncode saved := ⟨saved, rfl⟩
    rw [dif_pos h, sampleEncode_injective h.choose_spec]

/-- A disk on which nothing fails, but for the synchronisation of the file, perhaps. -/
def sampleDisk (syncs : Bool) (disk : Disk) : (q : Op) → Answer q × Disk
  | .metadata => (match disk.file with
    | none => .notFound
    | some bytes => .file bytes.length, disk)
  | .restrict => (.ok (), disk)
  | .read => (match disk.file with
    | none => .error ()
    | some bytes => .ok bytes, disk)
  | .createDirectory => (.ok (), disk)
  | .writeTemp bytes => (.ok (), { disk with temp := some bytes })
  | .rename => match disk.temp with
    | none => (.error "not found", disk)
    | some bytes => (.ok (), ⟨some bytes, none⟩)
  | .removeTemp => ((), { disk with temp := none })
  | .syncFile => (if syncs then .ok () else .error (), disk)
  | .syncDirectory => (.ok (), disk)

lemma answers_sampleDisk (syncs : Bool) (disk : Disk) (q : Op) :
    Answers disk q (sampleDisk syncs disk q).1 (sampleDisk syncs disk q).2 := by
  obtain ⟨file, temp⟩ := disk
  cases q with
  | metadata =>
    cases file with
    | none => exact ⟨rfl, rfl⟩
    | some bytes => exact ⟨⟨bytes, rfl, rfl⟩, rfl⟩
  | read =>
    cases file with
    | none => rfl
    | some bytes => exact ⟨rfl, rfl⟩
  | rename =>
    cases temp with
    | none => rfl
    | some bytes => exact ⟨bytes, rfl, rfl⟩
  | syncFile => cases syncs <;> rfl
  | restrict => rfl
  | createDirectory => rfl
  | writeTemp bytes => rfl
  | removeTemp => rfl
  | syncDirectory => rfl

lemma length_sampleEncode {saved : List SavedWinner} (h : saved ∈ sampleLists) :
    ¬ (maxWinners < saved.length ∨ maxBytes < (sampleEncode saved).length) := by
  have hall : sampleLists.all (fun saved =>
      decide (¬ (maxWinners < saved.length ∨ maxBytes < (jsonSaved saved).length))) = true := by
    decide +kernel
  rw [sampleEncode, if_pos h]
  exact of_decide_eq_true (List.all_eq_true.mp hall saved h)

/-- A commit of one of the sample's lists. -/
lemma play_commit (syncs : Bool) {saved : List SavedWinner} (h : saved ∈ sampleLists) (disk : Disk) :
    let _ : SavedJson := sampleSavedJson
    play (sampleDisk syncs) (commit saved) disk =
      (if syncs then .ok saved else .error "cannot sync installed rig journal",
        ⟨some (sampleEncode saved), none⟩) := by
  intro _
  have hsize : ¬ (maxWinners < saved.length ∨ maxBytes < (SavedJson.encode saved).length) :=
    length_sampleEncode h
  rw [commit, if_neg hsize]
  cases syncs <;> rfl

section Opening

variable [Hasher] [Schnorr] [Ripemd] [SavedJson]

lemma play_openSaved {bytes : Bytes} {saved : List SavedWinner} (hsize : ¬ maxBytes < bytes.length)
    (hdecode : SavedJson.decode bytes = some saved) (hlength : ¬ maxWinners < saved.length)
    (hall : saved.forM SavedWinner.check = .ok ()) :
    play (sampleDisk true) openSaved ⟨some bytes, none⟩ = (.ok saved, ⟨some bytes, none⟩) := by
  have hread : play (sampleDisk true) (readSaved bytes.length) ⟨some bytes, none⟩ =
      (.ok saved, ⟨some bytes, none⟩) := by
    rw [readSaved, if_neg hsize]
    change play _ (if maxBytes < bytes.length then .error _ else _) _ = _
    rw [if_neg hsize, hdecode]
    rfl
  rw [openSaved, play_query_bind]
  have hfound : (sampleDisk true ⟨some bytes, none⟩ Op.metadata).2 = ⟨some bytes, none⟩ := rfl
  refine (play_bind _ _ _ _).trans ?_
  rw [hfound, hread]
  change play _ (if maxWinners < saved.length then .error _ else _) _ = _
  rw [if_neg hlength, hall]
  rfl

end Opening

lemma sampleEntry_listed : [sampleEntry] ∈ sampleLists := List.mem_cons_of_mem _ List.mem_cons_self

/-- The disk after the sample's proof has been saved. -/
noncomputable def sampleSavedDisk : Disk := ⟨some (sampleEncode [sampleEntry]), none⟩

lemma sample_reaches :
    let _ : Hasher := Hasher.fips
    let _ : Schnorr := sampleSchnorr
    let _ : Ripemd := sampleRipemd
    let _ : SavedJson := sampleSavedJson
    Reaches ⟨none, ⟨none, none⟩⟩ [.opened, .called [] (.record sampleMiningJob [sampleProof])]
      ⟨some [sampleEntry], sampleSavedDisk⟩ := by
  intro hasher schnorr ripemd json
  have hopened : Step ⟨none, ⟨none, none⟩⟩ .opened ⟨some [], ⟨none, none⟩⟩ :=
    .opened (r := some (.ok [])) (runs_play (answers_sampleDisk true) openSaved ⟨none, none⟩)
  have hrecorded : recorded [] sampleMiningJob [sampleProof] = .ok ([sampleEntry], true) := by
    have hverified : verifyRigWinner sampleProof sampleMiningJob = .ok () := sampleProof_verified
    refine Except.map_eq_ok.mpr ⟨([sampleEntry], true), ?_, rfl⟩
    refine (List.foldlM_cons).trans (Except.bind_eq_ok.mpr ⟨([sampleEntry], true), ?_, rfl⟩)
    rw [recordStep, if_neg (fun h => h rfl), if_neg (by rintro ⟨⟩)]
    exact Except.map_eq_ok.mpr ⟨(), hverified, rfl⟩
  have hplay : play (sampleDisk true) ((Call.record sampleMiningJob [sampleProof]).task [])
      ⟨none, none⟩ = (.ok [sampleEntry], sampleSavedDisk) := by
    have hcommit := play_commit true sampleEntry_listed ⟨none, none⟩
    rw [Call.task, record_of_added hrecorded, hcommit]
    rfl
  have hrun := runs_play (answers_sampleDisk true)
    ((Call.record sampleMiningJob [sampleProof]).task []) ⟨none, none⟩
  rw [hplay] at hrun
  exact .step (.step .refl hopened) (.called hrun)

theorem saved_proofs_sample :
    let _ : Hasher := Hasher.fips
    let _ : Schnorr := sampleSchnorr
    let _ : Ripemd := sampleRipemd
    let _ : SavedJson := sampleSavedJson
    Kept [sampleEntry] ∧ ∀ later s', Reaches ⟨some [sampleEntry], sampleSavedDisk⟩ later s' →
      ∀ saved', s'.memory = some saved' → sampleEntry ∉ saved' →
        ∃ event ∈ later, event.Retires sampleEntry := by
  intro hasher schnorr ripemd json
  have hempty : (⟨none, none⟩ : Disk).Distinct := by
    rintro saved (⟨-, rfl⟩ | ⟨_, ⟨⟩, -⟩)
    exact .nil
  obtain ⟨hlist, -, -, hleaves, -, -⟩ := saved_proofs hempty sample_reaches
  refine ⟨(hlist [sampleEntry] rfl).1, ?_⟩
  exact hleaves [sampleEntry] sampleEntry rfl (List.mem_singleton_self _)
    ⟨_, [sampleEntry], rfl, SavedJson.decode_encode _, List.mem_singleton_self _⟩

/-- A job on the sample's baton, but higher, and with the baton's id in capitals. -/
def sampleCapitalJob : MiningJob :=
  { sampleMiningJob with height := 3, batonTxid := List.replicate 64 'A', generationId := 2 }

/-- A synchronisation that fails after the file was replaced loses the proofs that the call retires
from it; a file may hold two proofs for the same work; and ids are compared as they are written. -/
theorem saved_proofs_fails :
    let _ : Hasher := Hasher.fips
    let _ : Schnorr := sampleSchnorr
    let _ : Ripemd := sampleRipemd
    let _ : SavedJson := sampleSavedJson
    ∃ history s, Reaches ⟨none, ⟨none, none⟩⟩ history s ∧ s.memory = some [sampleEntry] ∧
      -- a call that fails changes the file
      (∃ e disk', Runs Answers ((Call.forJob sampleHigherJob).task [sampleEntry]) s.disk
        (some (.error e)) disk' ∧ s.disk.Stores sampleEntry ∧ ¬ disk'.Stores sampleEntry) ∧
      -- a job on the same baton retires the proof
      ((Call.forJob sampleCapitalJob).next [sampleEntry] = some [] ∧
        Text.eqIgnoreCase sampleCapitalJob.batonTxid sampleEntry.job.batonTxid = true ∧
        ¬ sampleEntry.BecameBaton sampleCapitalJob) ∧
      -- a file is opened that holds the proof twice
      ∃ disk, Reaches ⟨none, disk⟩ [.opened] ⟨some [sampleEntry, sampleEntry], disk⟩ := by
  intro hasher schnorr ripemd json
  have hchecked : sampleEntry.check = .ok () := check_of sampleProof_verified
  refine ⟨_, _, sample_reaches, rfl, ?_, ⟨?_, by decide, ?_⟩, ?_⟩
  · have hvalid : validateJob sampleHigherJob = .ok sampleTarget :=
      validateJob_sample 3 2 _ (by decide)
    have hstays : [sampleEntry].filter (SavedWinner.stays sampleHigherJob) = [] := by
      decide +kernel
    have hplay : play (sampleDisk false) ((Call.forJob sampleHigherJob).task [sampleEntry])
        sampleSavedDisk = (.error "cannot sync installed rig journal",
          ⟨some (sampleEncode []), none⟩) := by
      have hcommit := play_commit false List.mem_cons_self sampleSavedDisk
      have hshorter : ([sampleEntry].filter (SavedWinner.stays sampleHigherJob)).length ≠
          [sampleEntry].length := by
        rw [hstays]
        rintro ⟨⟩
      rw [Call.task, forJob_of_retired hvalid hshorter, play_bind, play_bind, hstays, hcommit]
      rfl
    have hrun := runs_play (answers_sampleDisk false)
      ((Call.forJob sampleHigherJob).task [sampleEntry]) sampleSavedDisk
    rw [hplay] at hrun
    refine ⟨_, _, hrun, ⟨_, [sampleEntry], rfl, SavedJson.decode_encode _,
      List.mem_singleton_self _⟩, ?_⟩
    rintro ⟨bytes, saved, hbytes, hdecode, hentry⟩
    obtain rfl := Option.some.inj hbytes
    cases Option.some.inj (hdecode.symm.trans (SavedJson.decode_encode []))
    cases hentry
  · have hvalid : validateJob sampleCapitalJob = .ok sampleTarget :=
      validateJob_sample 3 2 _ (by decide)
    have hstays : [sampleEntry].filter (SavedWinner.stays sampleCapitalJob) = [] := by
      decide +kernel
    rw [Call.next, hstays, hvalid]
    rfl
  · rw [← claimedBy_iff hchecked]
    decide +kernel
  · refine ⟨⟨some (sampleEncode [sampleEntry, sampleEntry]), none⟩, .step .refl ?_⟩
    have hplay : play (sampleDisk true) openSaved
        ⟨some (sampleEncode [sampleEntry, sampleEntry]), none⟩ =
        (.ok [sampleEntry, sampleEntry], ⟨some (sampleEncode [sampleEntry, sampleEntry]), none⟩) := by
      have hlisted : [sampleEntry, sampleEntry] ∈ sampleLists :=
        List.mem_cons_of_mem _ (List.mem_cons_of_mem _ List.mem_cons_self)
      have hsize : ¬ maxBytes < (sampleEncode [sampleEntry, sampleEntry]).length :=
        fun h => length_sampleEncode hlisted (.inr h)
      have hall : [sampleEntry, sampleEntry].forM SavedWinner.check = .ok () := by
        refine forM_check_eq_ok.mpr ?_
        intro entry hentry
        obtain rfl : entry = sampleEntry := by simpa using hentry
        exact hchecked
      exact play_openSaved hsize (SavedJson.decode_encode _) (by decide) hall
    have hrun := runs_play (answers_sampleDisk true) openSaved
      ⟨some (sampleEncode [sampleEntry, sampleEntry]), none⟩
    rw [hplay] at hrun
    exact .opened hrun

end Sample

end Pickaxe.Rigs
