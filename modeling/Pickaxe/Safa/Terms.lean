/-
# What wins keep

From win to win a token's thread keeps its target, the version bits that do not roll, and the
destinations a win may pay: its `Terms`.  A win on these terms, which names the thread's hash,
passes the covenant's check (`Terms.verify`), and the thread it leaves is on the same terms.  So
`check`'s loop, given such wins, turns proofs off for the journal only, and proves thread states
one after the other (`Kept.checkWins`).
-/
import Pickaxe.Lib.HashChain
import Pickaxe.Safa.Source

namespace Pickaxe.Safa

open Lib

/-- What the thread states of a token and its wins have in common: the bits in a win say the target,
which is the next one too. -/
structure Terms where
  params : SafaParams
  destinations : List Bytes
  /-- The version bits that do not roll. -/
  version : UInt32
  target : ℕ
  bits : ByteVec 4
  own : nextTarget target testAge params.daa = target
  writes : encodeCompact target params.compact = .ok bits
  reads : decodeCompact bits params.compact = .ok target
  age_le : testAge ≤ params.maxAge
  anyPast : params.time = .anyPast

/-- Outside a mask two words agree exactly when their difference has no bit there. -/
lemma xor_and_eq_zero {a b mask : UInt32} : (a ^^^ b) &&& mask = 0 ↔ a &&& mask = b &&& mask := by
  have hsplit : (a ^^^ b) &&& mask = (a &&& mask) ^^^ (b &&& mask) := by
    apply UInt32.toBitVec_inj.mp
    ext i
    simp only [UInt32.toBitVec_and, UInt32.toBitVec_xor, BitVec.getElem_and, BitVec.getElem_xor]
    cases a.toBitVec[i] <;> cases b.toBitVec[i] <;> cases mask.toBitVec[i] <;> rfl
  rw [hsplit, UInt32.xor_eq_zero_iff]

/-- A shorter string is padded. -/
lemma bytes_resize {n : ℕ} {bytes : Bytes} (h : bytes.length ≤ n) :
    (resize n bytes).bytes = bytes ++ List.replicate (n - bytes.length) 0 := by
  show (bytes ++ List.replicate n 0).take n = _
  rw [List.take_append, List.take_of_length_le h, List.take_replicate, Nat.min_eq_left (by omega)]

/-- A target survives `resize`. -/
lemma fromLe_resize {target : ℕ} (h : target < 256 ^ 32) :
    fromLe (resize 32 (toBytesLe target)).bytes = target := by
  rcases Nat.eq_zero_or_pos target with rfl | hpos
  · rfl
  obtain ⟨init, last, hbytes, hlast, hfrom⟩ := toBytesLe_spec hpos
  have hlength : init.length < 32 := by
    -- the last byte counts
    rw [fromLe_append, fromLe_cons, fromLe_nil] at hfrom
    by_contra hlong
    have hpow : 256 ^ 32 ≤ 256 ^ init.length := Nat.pow_le_pow_right (by decide) (by omega)
    have hle : 256 ^ init.length ≤ 256 ^ init.length * (last.toNat + 256 * 0) :=
      Nat.le_mul_of_pos_right _ (by omega)
    omega
  rw [bytes_resize (by rw [hbytes, List.length_append, List.length_singleton]; omega),
    fromLe_append, fromLe_replicate_zero, Nat.mul_zero, Nat.add_zero, hbytes, hfrom]

namespace Terms

variable {terms : Terms}

/-- Whether a script is a forwarder to one of the destinations. -/
def Pays (terms : Terms) (script : Bytes) : Prop :=
  ∃ destination ∈ terms.destinations, ∃ body, forwarderBody destination = .ok body ∧ body <:+ script

/-- A commitment of the thread. -/
structure Holds (terms : Terms) (c : Commitment) : Prop where
  version : c.virtualSlot &&& ~~~terms.params.version.mask = terms.version
  reads : decodeCompact c.bits terms.params.compact = .ok terms.target

variable [Hasher]

/-- A win: a commitment that may follow any of the thread's, as far as it is not for its parent to
say. -/
structure Wins (terms : Terms) (c : Commitment) (script : Bytes) : Prop where
  pays : terms.Pays script
  version : c.virtualSlot &&& ~~~terms.params.version.mask = terms.version
  payout : c.payout = doubleSha256 script
  time : minTime < c.time
  bits : c.bits = terms.bits
  proof : proofPasses (doubleSha256 c.encode.bytes) terms.target .positive = true

/-- A job for a win on these terms. -/
structure Offers (terms : Terms) (t : BchTemplate) : Prop where
  work : ∃ job, t.work = .token job ∧ job.layout = .safa ∧
    job.versionMask = terms.params.version.mask
  version : t.version &&& ~~~terms.params.version.mask = terms.version
  bits : u32Le t.bits = terms.bits.bytes
  target : fromLe t.target.bytes = terms.target
  time : minTime < t.minTime

/-- A win as it is handed on. -/
def Takes (terms : Terms) (win : HeaderShare) : Prop :=
  ∃ c, win.header = c.encode ∧ terms.Wins c win.script

lemma Wins.holds {c : Commitment} {script : Bytes} (h : terms.Wins c script) : terms.Holds c :=
  ⟨h.version, h.bits ▸ terms.reads⟩

/-- A win passes the covenant's check against the thread it names. -/
lemma verify {thread next : Commitment} {script : Bytes} (hthread : terms.Holds thread)
    (hnext : terms.Wins next script) (hprev : next.prev = doubleSha256 thread.encode.bytes) :
    terms.params.verify thread.encode next.encode testAge script = .ok () := by
  refine verify_encode.mpr ⟨terms.target, hthread.reads, ?_⟩
  rw [terms.own]
  exact
    { age_le := terms.age_le
      version := xor_and_eq_zero.mpr (hnext.version.trans hthread.version.symm)
      prev := hprev
      payout := hnext.payout
      time := hnext.time
      after := fun h => absurd (h.symm.trans terms.anyPast) nofun
      bits := hnext.bits ▸ terms.writes
      proof := hnext.proof }

end Terms

/-- The error of a proof that is not saved. -/
def unsaved (error : String) : String := "token proofs cannot be saved: " ++ error

variable [Hasher]

/-! ## One win -/

section Step

variable {work : HeaderWork} {turn : Turn} {win : HeaderShare}

/-- What the loop makes of a win: it is stale, or fails its own check, or cannot be saved, or moves
the thread. -/
lemma checkWin_cases (work : HeaderWork) (turn : Turn) (win : HeaderShare) :
    (work.checkWin turn win = (.stale,
        { work with summary := { work.summary with stale := work.summary.stale + 1 } })) ∨
      (slice win.header.bytes 4 36 = work.anchor.bytes ∧ work.anchor ∉ work.won ∧
        ((work.paysUs win.script = false ∨ work.token.params.verify work.thread.commitment
              win.header testAge win.script ≠ .ok ()) ∧
            work.checkWin turn win = (.off, work.turnOff "a token win failed its own check") ∨
          (∃ error, work.checkWin turn win = (.off, work.turnOff (unsaved error))) ∨
          ∃ entries, work.checkWin turn win = (.proven entries, work.moved win turn.movedAt))) := by
  unfold HeaderWork.checkWin
  split
  · exact .inl rfl
  · rename_i hfresh
    push Not at hfresh
    refine .inr ⟨hfresh.1, hfresh.2, ?_⟩
    split
    · rename_i hbad
      exact .inl ⟨hbad, rfl⟩
    · dsimp only
      split
      · rename_i error _
        exact .inr (.inl ⟨error, rfl⟩)
      · rename_i entries _
        exact .inr (.inr ⟨entries, rfl⟩)

end Step

/-- A token's work on its terms, and the wins that wait; only the journal has turned it off, if it
is. -/
structure Kept (terms : Terms) (work : HeaderWork) : Prop where
  params : work.token.params = terms.params
  destinations : work.destinations = terms.destinations
  thread : ∃ c, work.thread.commitment = c.encode ∧ terms.Holds c
  start : minTime < work.thread.start
  queue : ∀ win ∈ work.queue, terms.Takes win
  off : ∀ reason, work.summary.off = some reason → ∃ error, reason = unsaved error

namespace Kept

variable {terms : Terms} {work : HeaderWork} {turn : Turn} {win : HeaderShare}

lemma pays_iff (h : Kept terms work) {script : Bytes} :
    work.paysUs script = true ↔ terms.Pays script := by
  rw [HeaderWork.paysUs, h.destinations, List.any_eq_true, Terms.Pays]
  refine exists_congr fun destination => and_congr_right fun _ => ?_
  cases forwarderBody destination with
  | error e => simp
  | ok body => simp [List.isSuffixOf_iff_suffix]

/-- A win on the terms that names the thread passes its check. -/
lemma passes (h : Kept terms work) (hwin : terms.Takes win)
    (hnamed : slice win.header.bytes 4 36 = work.anchor.bytes) :
    work.paysUs win.script = true ∧
      work.token.params.verify work.thread.commitment win.header testAge win.script = .ok () := by
  obtain ⟨thread, hthread, hholds⟩ := h.thread
  obtain ⟨next, hnext, hwins⟩ := hwin
  refine ⟨h.pays_iff.mpr hwins.pays, ?_⟩
  rw [hnext, next.slice_encode.2.1, HeaderWork.anchor, hthread] at hnamed
  rw [h.params, hthread, hnext]
  exact Terms.verify hholds hwins (ByteVec.ext hnamed)

/-- The job of a thread on the terms. -/
lemma exists_job (h : Kept terms work) : ∃ t, work.job = .ok t ∧ t.previousHash = work.anchor ∧
    terms.Offers t := by
  obtain ⟨thread, hthread, hholds⟩ := h.thread
  let token : TokenJob := ⟨work.token.name, .safa, terms.params.version.mask, work.anchor,
    work.thread.outpoint, testAge, work.thread.start + startBehind / 2⟩
  refine ⟨.tokenOnly token work.anchor thread.virtualSlot (u32OfLe terms.bits.bytes)
    (resize 32 (toBytesLe terms.target)) work.thread.start 1, ?_, rfl, ?_⟩
  · unfold HeaderWork.job
    rw [h.params, hthread, Commitment.decode_encode]
    refine Except.bind_eq_ok.mpr ⟨thread, rfl, ?_⟩
    refine Except.bind_eq_ok.mpr ⟨terms.target, hholds.reads, ?_⟩
    refine Except.bind_eq_ok.mpr ⟨terms.bits, ?_, ?_⟩
    · rw [terms.own]
      exact terms.writes
    · rw [terms.own]
  · refine ⟨⟨_, rfl, rfl, rfl⟩, hholds.version, ?_, ?_, h.start⟩
    · exact u32Le_u32OfLe terms.bits.length_eq
    · exact fromLe_resize (decodeCompact_lt terms.reads)

end Kept

/-! ## The states proven -/

/-- The record of what was proven: each proof is of the thread state of its time, and the header it
proves is the next one; the work remembers the latest. -/
structure Logged (first : ByteVec 80) (work : HeaderWork) (proofs : List Proof) : Prop where
  states : proofs.map Proof.thread ++ [work.thread.commitment] =
    first :: proofs.map fun proof => proof.win.header
  chain : HashChain (fun c : ByteVec 80 => (doubleSha256 c.bytes).bytes)
    (fun c : ByteVec 80 => slice c.bytes 4 36) (ByteVec.zero 32).bytes
    (proofs.map Proof.thread ++ [work.thread.commitment])
  won : work.won =
    Recent.kept recentStates (proofs.map fun proof => doubleSha256 proof.thread.bytes)
  distinct : Recent.Distinct recentStates
    (proofs.map fun proof => doubleSha256 proof.thread.bytes)

namespace Logged

variable {first : ByteVec 80} {work after : HeaderWork} {proofs : List Proof} {win : HeaderShare}

/-- The record speaks of the thread and of what is remembered. -/
lemma congr (h : Logged first work proofs) (hthread : after.thread = work.thread)
    (hwon : after.won = work.won) : Logged first after proofs := by
  refine ⟨?_, ?_, hwon.trans h.won, h.distinct⟩
  · rw [hthread]
    exact h.states
  · rw [hthread]
    exact h.chain

/-- One more proof. -/
lemma moved (h : Logged first work proofs)
    (hnamed : slice win.header.bytes 4 36 = work.anchor.bytes) (hfresh : work.anchor ∉ work.won)
    (now : UInt32) :
    Logged first (work.moved win now) (proofs ++ [⟨work.thread.commitment, win⟩]) := by
  have hmap : ∀ {β : Type} (f : Proof → β) (proof : Proof),
      (proofs ++ [proof]).map f = proofs.map f ++ [f proof] := fun f proof => List.map_append
  refine ⟨?_, ?_, ?_, ?_⟩
  · rw [hmap, hmap, h.states]
    rfl
  · rw [hmap]
    refine HashChain.append_iff.mpr ⟨h.chain, ?_⟩
    rw [HashChain.tip_append]
    exact hnamed
  · rw [hmap, ← Recent.push_kept (by decide), ← h.won]
    rfl
  · rw [hmap]
    refine h.distinct.append ?_
    rw [← h.won]
    exact hfresh

end Logged

/-! ## The loop -/

/-- Wins on the terms keep the work on them; each either is stale, moves the thread, or meets a
journal that cannot be written. -/
lemma Kept.checkWins {terms : Terms} {first : ByteVec 80} {work : HeaderWork} {proofs : List Proof}
    {turns : ℕ → Turn} {wins : List HeaderShare} (hkept : Kept terms work)
    (hlogged : Logged first work proofs) (hwins : ∀ win ∈ wins, terms.Takes win)
    (hlate : ∀ n, minTime < startAt (turns n).movedAt) :
    Kept terms (work.checkWins turns wins).2 ∧
      Logged first (work.checkWins turns wins).2 (proofs ++ (work.checkWins turns wins).1) := by
  induction wins generalizing work proofs turns with
  | nil => simpa [HeaderWork.checkWins] using ⟨hkept, hlogged⟩
  | cons win wins ih =>
    obtain ⟨hwin, hrest⟩ := List.forall_mem_cons.mp hwins
    rw [HeaderWork.checkWins]
    split
    · simpa using ⟨hkept, hlogged⟩
    rcases checkWin_cases work (turns 0) win with hstale | ⟨hnamed, hfresh, hcases⟩
    · rw [hstale]
      exact ih ⟨hkept.params, hkept.destinations, hkept.thread, hkept.start, hkept.queue, hkept.off⟩
        (hlogged.congr rfl rfl) hrest fun n => hlate (n + 1)
    obtain ⟨hpays, hverify⟩ := hkept.passes hwin hnamed
    rcases hcases with ⟨hfails, -⟩ | ⟨error, hsave⟩ | ⟨entries, hproven⟩
    · -- such a win passes
      rcases hfails with hfails | hfails
      · rw [hpays] at hfails
        cases hfails
      · exact absurd hverify hfails
    · rw [hsave]
      simp only [List.append_nil]
      refine ⟨⟨hkept.params, hkept.destinations, hkept.thread, hkept.start, hkept.queue, ?_⟩,
        hlogged.congr rfl rfl⟩
      rintro _ ⟨⟩
      exact ⟨error, rfl⟩
    · rw [hproven]
      obtain ⟨next, hnext, hnextWins⟩ := hwin
      have hmoved : Kept terms (work.moved win (turns 0).movedAt) :=
        ⟨hkept.params, hkept.destinations, ⟨next, hnext, hnextWins.holds⟩, hlate 0,
          hkept.queue, hkept.off⟩
      have hrun := ih hmoved (hlogged.moved hnamed hfresh (turns 0).movedAt) hrest
        fun n => hlate (n + 1)
      rwa [List.append_assoc] at hrun

end Pickaxe.Safa
