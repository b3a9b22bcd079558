/-
# The search of a job

An engine is given jobs and searches each of them in batches, under a rule and in one of two ways.
In every run the buffers hold the job that was last given, and a batch reports the claims that win
among its candidates.
-/
import Pickaxe.Engine.Batch
import Pickaxe.Lib.Sha256Eval

namespace Pickaxe.Engine

open Lib Photon

/-! ## The first stages -/

section Stages

variable {engine : CudaPhotonEngine} {job : Job} {schedule : Schedule} {fuel : ℕ} {base : UInt32}
  {count : ℕ}

/-- The launch of the first stage finds the message and the scalar of every candidate. -/
lemma stageA_launch (h : engine.Holds job) {order : List ℕ} (horder : ∀ c < count, c ∈ order)
    {buffers buffers' : WalkBuffers}
    (hrun : order.foldlM (Gpu.stageA fuel base engine.target engine.privateKey count) buffers =
      some buffers') {c : ℕ} (hc : c < count) :
    buffers'.messages.readBytes (c * 32) 32 = job.message (base + UInt32.ofNat c) ∧
      bchRfc6979 fuel job.privateKey (job.message (base + UInt32.ofNat c)) =
        some (buffers'.scalars.readBytes (c * 32) 32) := by
  have hmessage (c : ℕ) : Lib.Sha256.digest (u32Le (base + UInt32.ofNat c) ++
      (engine.target.readBytes 0 32).bytes) = job.message (base + UInt32.ofNat c) := by
    rw [h.target]
    rfl
  have hthread : ∀ {c : ℕ} {s s' : WalkBuffers}, c < count →
      Gpu.stageA fuel base engine.target engine.privateKey count s c = some s' →
      ∃ scalar, bchRfc6979 fuel job.privateKey (job.message (base + UInt32.ofNat c)) = some scalar ∧
        s' = { s with
          messages := s.messages.write (c * 32) (job.message (base + UInt32.ofNat c)).bytes
          scalars := s.scalars.write (c * 32) scalar.bytes } := by
    intro c s s' hc hstep
    rw [Gpu.stageA, if_neg hc.not_ge] at hstep
    dsimp only at hstep
    rw [hmessage, h.privateKey, Option.bind_eq_bind, Option.bind_eq_some_iff] at hstep
    obtain ⟨scalar, hscalar, hstep⟩ := hstep
    exact ⟨scalar, hscalar, (Option.some.inj hstep).symm⟩
  refine launchM_establishes (fun c s => c < count →
    s.messages.readBytes (c * 32) 32 = job.message (base + UInt32.ofNat c) ∧
      bchRfc6979 fuel job.privateKey (job.message (base + UInt32.ofNat c)) =
        some (s.scalars.readBytes (c * 32) 32)) ?_ ?_ (horder c hc) hrun hc
  · intro c s s' hstep hc
    obtain ⟨scalar, hscalar, rfl⟩ := hthread hc hstep
    dsimp only
    rw [Memory.readBytes_write_self, Memory.readBytes_write_self]
    exact ⟨rfl, hscalar⟩
  · intro c c' s s' hne hright hstep hc
    rcases Nat.lt_or_ge c' count with hlt | hge
    · obtain ⟨scalar, -, rfl⟩ := hthread hlt hstep
      dsimp only
      rw [Memory.readBytes_write_of_disjoint _ (by rw [ByteVec.length_bytes]; omega),
        Memory.readBytes_write_of_disjoint _ (by rw [ByteVec.length_bytes]; omega)]
      exact hright hc
    · rw [Gpu.stageA, if_pos hge, Option.some.injEq] at hstep
      rw [← hstep]
      exact hright hc

/-- The first two stages make every candidate ready. -/
lemma stages_ready (h : engine.Holds job) (htable : Complete engine.table) (hfair : schedule.Fair)
    {threads : ℕ} (hthreads : count ≤ threads) {threads' : ℕ} (hthreads' : count ≤ threads')
    {buffers buffers' : WalkBuffers}
    (hrun : (schedule.stageA threads).foldlM
      (Gpu.stageA fuel base engine.target engine.privateKey count) buffers = some buffers') {c : ℕ}
    (hc : c < count) :
    Ready job ⟨base + UInt32.ofNat c, none⟩ { buffers' with
      points := stageB buffers'.scalars engine.table count (schedule.stageB 0 threads')
        (schedule.stageB 1 threads') (schedule.stageB 2 threads') (schedule.stageB 3 threads')
        buffers'.points } c := by
  obtain ⟨hmessage, hscalar⟩ :=
    stageA_launch h (fun c hc => hfair.stageA threads c (by omega)) hrun hc
  have hvalid : Sign.Valid (buffers'.scalars.readBytes (c * 32) 32) := by
    obtain ⟨i, hi, -, heq⟩ := bchRfc6979_eq_some.mp hscalar
    rw [← heq]
    exact hi.1
  have hlaunch (part : Fin 4) : Launch (schedule.stageB part threads') count :=
    ⟨(hfair.stageB part threads').nodup, fun c hc => (hfair.stageB part threads').mem c (by omega)⟩
  exact ⟨hmessage, ⟨fuel, _, hscalar, rfl⟩, hvalid.1, hvalid.2,
    stageB_represents htable (hlaunch 0) (hlaunch 1) (hlaunch 2) (hlaunch 3) hc _⟩

/-- The walk makes every candidate ready. -/
lemma walked_ready {nonce : UInt32} {message : ByteVec 32} (hmessage : message = job.message nonce)
    {buffers : WalkBuffers} {first c : ℕ} (hlt : first + c < 2 ^ 32)
    (h : Walked first message buffers c) :
    Ready job ⟨nonce, some (first + c + 1)⟩ buffers c := by
  have hlt_order : first + c + 1 < order := by
    have : 2 ^ 32 < order := by norm_num [order]
    omega
  refine ⟨h.message.trans hmessage, h.scalar, ?_, ?_, ?_⟩
  · rw [h.scalar]
    exact Nat.succ_pos _
  · rw [h.scalar]
    exact hlt_order
  · rw [h.scalar]
    exact h.point

end Stages

/-! ## A batch -/

/-- The place of a candidate. -/
def CudaPhotonEngine.place (engine : CudaPhotonEngine) (base : UInt32) (candidate : ℕ) : Place :=
  if engine.incremental.isSome then
    ⟨engine.commitmentNonce, some (base.toNat + candidate + 1)⟩
  else ⟨base + UInt32.ofNat candidate, none⟩

/-- What holds of an engine that searches a job, or none. -/
structure CudaPhotonEngine.Sound (engine : CudaPhotonEngine) (job : Option Job) : Prop where
  table : Complete engine.table
  maxCandidates : engine.maxCandidates < 2 ^ 32
  incremental : ∀ incremental, engine.incremental = some incremental →
    incremental.Kept ∧ incremental.perLane = 32 ∧ incremental.c1PerThread = 16
  ready : engine.jobReady = job.isSome
  holds : ∀ held, job = some held → engine.Holds held

section Batch

variable {lib : Secp} {engine : CudaPhotonEngine} {schedule : Schedule} {fuel : ℕ} {base : UInt32}
  {count : ℕ}

lemma reports_empty (job : Job) (place : ℕ → Place) (cap : ℕ) : Reports job place 0 cap ⟨0, 0, []⟩ :=
  ⟨rfl, [], List.nodup_nil, fun c => by simp, rfl, by simp⟩

/-- The buffers of a batch do not belong to the job. -/
lemma CudaPhotonEngine.Sound.update {job : Option Job} (h : engine.Sound job) (buffers : WalkBuffers)
    (signed : Gpu.Signatures) (winners : Gpu.Winners) {incremental : Option IncrementalSearch}
    (hincremental : ∀ i, incremental = some i → i.Kept ∧ i.perLane = 32 ∧ i.c1PerThread = 16)
    (hmessage : ∀ held, job = some held → ∀ i, incremental = some i →
      i.message = held.message engine.commitmentNonce) :
    CudaPhotonEngine.Sound { engine with buffers, signed, winners, incremental } job where
  table := h.table
  maxCandidates := h.maxCandidates
  incremental := hincremental
  ready := h.ready
  holds := by
    intro held hheld
    obtain ⟨hlength, hshift, htemplate, hmidstate, htarget, hrule, hprivate, hpublic, hfixed, hnonce, -⟩ :=
      h.holds held hheld
    exact ⟨hlength, hshift, htemplate, hmidstate, htarget, hrule, hprivate, hpublic, hfixed, hnonce,
      hmessage held hheld⟩

lemma toNat_add_ofNat {c : ℕ} (hbase : base.toNat + count ≤ 2 ^ 32) (hc : c < count) :
    (base + UInt32.ofNat c).toNat = base.toNat + c := by
  rw [UInt32.toNat_add, UInt32.toNat_ofNat']
  omega

lemma place_of_incremental {incremental : IncrementalSearch} (h : engine.incremental = some incremental)
    (base : UInt32) (c : ℕ) : engine.place base c = ⟨engine.commitmentNonce, some (base.toNat + c + 1)⟩ := by
  rw [CudaPhotonEngine.place, h]
  rfl

lemma place_of_none (h : engine.incremental = none) (base : UInt32) (c : ℕ) :
    engine.place base c = ⟨base + UInt32.ofNat c, none⟩ := by
  rw [CudaPhotonEngine.place, h]
  rfl

/-- The end of a batch keeps the engine sound. -/
lemma finishBatch_sound {job : Option Job} (hsound : engine.Sound job) {incremental : Bool}
    {perThread : ℕ} {result : CudaPhotonEngine × PhotonCudaBatchResult}
    (h : engine.finishBatch schedule incremental base count perThread = result) :
    result.1.Sound job := by
  rw [CudaPhotonEngine.finishBatch] at h
  rw [← h]
  exact hsound.update engine.buffers _ _ hsound.incremental
    fun held hheld => (hsound.holds held hheld).message

/-- A batch of the incremental search. -/
lemma incremental_reports {job : Job} {incremental : IncrementalSearch}
    (hmode : engine.incremental = some incremental) (hholds : engine.Holds job) (hfair : schedule.Fair)
    (hcount : 0 < count) (hbase : base.toNat + count ≤ 2 ^ 32)
    (hwalked : ∀ c < count, Walked base.toNat incremental.message engine.buffers c)
    {perThread : ℕ} (hpos : 0 < perThread) (hle : perThread ≤ 16)
    {result : CudaPhotonEngine × PhotonCudaBatchResult}
    (h : engine.finishBatch schedule true base count perThread = result) :
    Reports job (engine.place base) count engine.winnerCap { result.2 with
      winners := result.2.winners.map (CudaPhotonEngine.incrementalWinner engine.commitmentNonce) } := by
  have hplace := place_of_incremental hmode base
  have hready : ∀ c < count, Ready job (engine.place base c) engine.buffers c := fun c hc => by
    rw [hplace]
    exact walked_ready (hholds.message incremental hmode) (by omega) (hwalked c hc)
  have hnonce : ∀ c < count, nonceBytes engine.layout.shift true job.template
      (base + UInt32.ofNat c) = u32Le (engine.place base c).nonce := fun c _ => by
    rw [hplace]
    exact hholds.nonce.symm
  obtain ⟨hcandidates, winning, hnodup, hmem, htotal, hwinners⟩ :=
    finishBatch_winners hholds hfair hcount hpos hle hready hnonce h
  refine ⟨hcandidates, winning, hnodup, hmem, htotal, ?_⟩
  rw [List.forall₂_map_right_iff]
  refine hwinners.imp ?_
  rintro c winner ⟨hc, digest, hwins, rfl⟩
  refine ⟨?_, hwins, rfl, rfl⟩
  rw [hplace, PhotonCudaWinner.place, CudaPhotonEngine.incrementalWinner, toNat_add_ofNat hbase hc]

/-- A batch whose nonces are found. -/
lemma nonces_report {job : Job} (hmode : engine.incremental = none) (hholds : engine.Holds job)
    (hfair : schedule.Fair) (hcount : 0 < count)
    (hready : ∀ c < count, Ready job ⟨base + UInt32.ofNat c, none⟩ engine.buffers c)
    {perThread : ℕ} (hpos : 0 < perThread) (hle : perThread ≤ 16)
    {result : CudaPhotonEngine × PhotonCudaBatchResult}
    (h : engine.finishBatch schedule false base count perThread = result) :
    Reports job (engine.place base) count engine.winnerCap result.2 := by
  have hplace := place_of_none hmode base
  have hready' : ∀ c < count, Ready job (engine.place base c) engine.buffers c := fun c hc => by
    rw [hplace]
    exact hready c hc
  obtain ⟨hcandidates, winning, hnodup, hmem, htotal, hwinners⟩ :=
    finishBatch_winners hholds hfair hcount hpos hle hready' (fun c _ => by rw [hplace]; rfl) h
  refine ⟨hcandidates, winning, hnodup, hmem, htotal, hwinners.imp ?_⟩
  rintro c winner ⟨-, digest, hwins, rfl⟩
  exact ⟨(hplace c).symm, hwins, rfl, rfl⟩

/-- The whole of a batch of the incremental search. -/
lemma incrementalBatch_sound (hlib : lib.Lawful) {job : Option Job} (hsound : engine.Sound job)
    {incremental : IncrementalSearch} (hmode : engine.incremental = some incremental)
    (hfair : schedule.Fair) {result : CudaPhotonEngine × Except String PhotonCudaBatchResult}
    (h : engine.incrementalBatch lib schedule incremental base count = result) :
    result.1.Sound job ∧ ∀ batch, result.2 = .ok batch → ∃ held, job = some held ∧
      Reports held (engine.place base) count engine.winnerCap { batch with
        winners := batch.winners.map (CudaPhotonEngine.incrementalWinner engine.commitmentNonce) } := by
  obtain ⟨hkept, hperLane, hperThread⟩ := hsound.incremental incremental hmode
  rw [CudaPhotonEngine.incrementalBatch] at h
  cases hwalk : incremental.batch lib engine.jobReady engine.maxCandidates engine.table
    incremental.message schedule.walk base.toNat count engine.buffers with
  | error error =>
    rw [hwalk] at h
    rw [← h]
    exact ⟨hsound, fun batch hbatch => by cases hbatch⟩
  | ok walked =>
    obtain ⟨kept, buffers⟩ := walked
    rw [hwalk] at h
    dsimp only at h
    have hbounds := (Except.ite_error_eq_ok.mp hwalk).1
    rw [not_or, not_or, Bool.not_eq_false, not_lt, not_lt, hsound.ready,
      Option.isSome_iff_exists] at hbounds
    obtain ⟨⟨held, hheld⟩, -, hbase⟩ := hbounds
    by_cases hzero : count = 0
    · rw [if_pos hzero] at h
      rw [← h]
      refine ⟨hsound, fun batch hbatch => ⟨held, hheld, ?_⟩⟩
      rw [← Except.ok.inj hbatch, hzero]
      exact reports_empty held _ _
    rw [if_neg hzero] at h
    -- the engine that the walk leaves
    have hmax : divCeil engine.maxCandidates incremental.perLane ≤ 2 ^ 32 - 64 := by
      have := hsound.maxCandidates
      rw [hperLane, divCeil]
      omega
    obtain ⟨hkept', hwalked⟩ := Incremental.batch_kept hlib hkept hmax hsound.table hfair.walk hwalk
    obtain ⟨after, hafter⟩ : ∃ after : CudaPhotonEngine, { engine with
      buffers, incremental := some { incremental with toIncremental := kept } } = after := ⟨_, rfl⟩
    have hsound' : after.Sound job := by
      rw [← hafter]
      refine hsound.update buffers engine.signed engine.winners (fun i hi => ?_)
        fun held hheld i hi => ?_
      · rw [← Option.some.inj hi]
        exact ⟨hkept', (Incremental.batch_perLane hwalk).trans hperLane, hperThread⟩
      · rw [← Option.some.inj hi]
        exact (hsound.holds held hheld).message incremental hmode
    have hmode' : after.incremental = some { incremental with toIncremental := kept } := by
      rw [← hafter]
    obtain ⟨result', hfinished⟩ : ∃ result', after.finishBatch schedule true base count
      incremental.c1PerThread = result' := ⟨_, rfl⟩
    have hreports := incremental_reports hmode' (hsound'.holds held hheld) hfair
      (Nat.pos_of_ne_zero hzero) hbase (by rw [← hafter]; exact hwalked) (by omega) (by omega)
      hfinished
    have hplace : after.place base = engine.place base := by
      funext c
      rw [place_of_incremental hmode, place_of_incremental hmode', ← hafter]
    rw [hplace, ← hafter] at hreports
    rw [hafter, hfinished] at h
    rw [← h]
    refine ⟨finishBatch_sound hsound' hfinished, fun batch hbatch => ⟨held, hheld, ?_⟩⟩
    rw [← Except.ok.inj hbatch]
    exact hreports

/-- A batch that returns reports the claims that win, and leaves the engine sound. -/
lemma searchBatch_sound (hlib : lib.Lawful) {job : Option Job} (hsound : engine.Sound job)
    (hfair : schedule.Fair) {engine' : CudaPhotonEngine} {result : Except String PhotonCudaBatchResult}
    (h : engine.searchBatch lib schedule fuel base count = some (engine', result)) :
    engine'.Sound job ∧ ∀ batch, result = .ok batch → ∃ held, job = some held ∧
      Reports held (engine.place base) count engine.winnerCap batch := by
  rw [CudaPhotonEngine.searchBatch] at h
  cases hmode : engine.incremental with
  | some incremental =>
    obtain ⟨result', hresult'⟩ : ∃ result', engine.incrementalBatch lib schedule incremental base count =
      result' := ⟨_, rfl⟩
    obtain ⟨hsound', hreports⟩ := incrementalBatch_sound hlib hsound hmode hfair hresult'
    rw [hmode] at h
    dsimp only at h
    rw [hresult', Option.some.injEq, Prod.mk.injEq] at h
    obtain ⟨rfl, rfl⟩ := h
    refine ⟨hsound', fun batch hbatch => ?_⟩
    obtain ⟨batch', hbatch', rfl⟩ := Except.map_eq_ok.mp hbatch
    exact hreports batch' hbatch'
  | none =>
    rw [hmode] at h
    dsimp only at h
    -- the refusals come before anything is written
    by_cases hready : engine.jobReady = false
    · rw [if_pos hready, Option.some.injEq, Prod.mk.injEq] at h
      rw [← h.1, ← h.2]
      exact ⟨hsound, fun batch hbatch => by cases hbatch⟩
    rw [if_neg hready] at h
    rw [Bool.not_eq_false, hsound.ready, Option.isSome_iff_exists] at hready
    obtain ⟨held, hheld⟩ := hready
    by_cases hzero : count = 0
    · rw [if_pos hzero, Option.some.injEq, Prod.mk.injEq] at h
      rw [← h.1, ← h.2]
      refine ⟨hsound, fun batch hbatch => ⟨held, hheld, ?_⟩⟩
      rw [← Except.ok.inj hbatch, hzero]
      exact reports_empty held _ _
    rw [if_neg hzero] at h
    by_cases hlarge : count > engine.maxCandidates
    · rw [if_pos hlarge, Option.some.injEq, Prod.mk.injEq] at h
      rw [← h.1, ← h.2]
      exact ⟨hsound, fun batch hbatch => by cases hbatch⟩
    rw [if_neg hlarge, Option.bind_eq_bind, Option.bind_eq_some_iff] at h
    obtain ⟨buffers, hbuffers, h⟩ := h
    -- the stages leave each candidate its nonce and its point
    have hready := fun c hc => stages_ready (hsound.holds held hheld) hsound.table hfair
      (le_divCeil_mul count (by norm_num : 0 < 128)) (le_divCeil_mul count (by norm_num : 0 < 64))
      hbuffers (c := c) hc
    obtain ⟨points, hpoints⟩ : ∃ points, stageB buffers.scalars engine.table count
      (schedule.stageB 0 (divCeil count 64 * 64)) (schedule.stageB 1 (divCeil count 64 * 64))
      (schedule.stageB 2 (divCeil count 64 * 64)) (schedule.stageB 3 (divCeil count 64 * 64))
      buffers.points = points := ⟨_, rfl⟩
    rw [hpoints] at h hready
    obtain ⟨after, hafter⟩ : ∃ after : CudaPhotonEngine,
      { engine with buffers := { buffers with points }, incremental := none } = after := ⟨_, rfl⟩
    have hsound' : after.Sound job := by
      rw [← hafter]
      exact hsound.update _ engine.signed engine.winners (fun i hi => by cases hi)
        fun held hheld i hi => by cases hi
    have hmode' : after.incremental = none := by rw [← hafter]
    obtain ⟨result', hfinished⟩ : ∃ result', after.finishBatch schedule false base count
      C1_CANDIDATES_PER_THREAD = result' := ⟨_, rfl⟩
    have hreports := nonces_report hmode' (hsound'.holds held hheld) hfair (Nat.pos_of_ne_zero hzero)
      (by rw [← hafter]; exact hready) (by norm_num [C1_CANDIDATES_PER_THREAD])
      (by norm_num [C1_CANDIDATES_PER_THREAD]) hfinished
    -- the batch keeps the mode, and so the candidates' places
    have hplace : after.place base = engine.place base := by
      funext c
      rw [place_of_none hmode, place_of_none hmode']
    rw [hplace, ← hafter] at hreports
    rw [hafter, hfinished, Option.some.injEq, Prod.mk.injEq] at h
    rw [← h.1, ← h.2]
    refine ⟨finishBatch_sound hsound' hfinished, fun batch hbatch => ⟨held, hheld, ?_⟩⟩
    rw [← Except.ok.inj hbatch]
    exact hreports

/-- The nonces that a batch needs are found, or it needs none. -/
def NoncesFound (fuel : ℕ) (engine : CudaPhotonEngine) (job : Job) (base : UInt32) (count : ℕ) : Prop :=
  engine.incremental = none → ∀ c < count,
    ∃ v, bchRfc6979 fuel job.privateKey (job.message (base + UInt32.ofNat c)) = some v

/-- The nonces of a batch are found with enough fuel where each has a candidate that is a scalar. -/
lemma noncesFound_iff {job : Job} : (∃ enough, ∀ fuel ≥ enough, NoncesFound fuel engine job base count) ↔
    (engine.incremental = none → ∀ c < count,
      ∃ i, Sign.Valid ((nonces job.privateKey (job.message (base + UInt32.ofNat c))).candidate i)) := by
  simp only [NoncesFound, bchRfc6979_ends_iff]
  constructor
  · rintro ⟨enough, h⟩ hmode c hc
    obtain ⟨i, -, hvalid⟩ := h enough le_rfl hmode c hc
    exact ⟨i, hvalid⟩
  · intro h
    by_cases hmode : engine.incremental = none
    · obtain ⟨i, hi⟩ := Classical.axiomOfChoice fun c : Fin count => h hmode c c.isLt
      refine ⟨Finset.univ.sup i + 1, fun fuel hfuel _ c hc => ⟨i ⟨c, hc⟩, ?_, hi ⟨c, hc⟩⟩⟩
      exact (Nat.lt_succ_of_le (Finset.le_sup (Finset.mem_univ _))).trans_le hfuel
    · exact ⟨0, fun _ _ hnone => absurd hnone hmode⟩

/-- A batch of a job that returns has found its nonces. -/
lemma searchBatch_found (hfair : schedule.Fair) {job : Job} (hsound : engine.Sound (some job))
    (hcount : count ≤ engine.maxCandidates)
    (h : (engine.searchBatch lib schedule fuel base count).isSome) :
    NoncesFound fuel engine job base count := by
  intro hmode c hc
  have hready : engine.jobReady = true := hsound.ready
  rw [CudaPhotonEngine.searchBatch, hmode] at h
  dsimp only at h
  rw [if_neg (by rw [hready]; exact Bool.noConfusion), if_neg (by omega), if_neg hcount.not_gt,
    Option.isSome_iff_exists] at h
  obtain ⟨result, h⟩ := h
  rw [Option.bind_eq_bind, Option.bind_eq_some_iff] at h
  obtain ⟨buffers, hbuffers, -⟩ := h
  have horder : ∀ c < count, c ∈ schedule.stageA (divCeil count 128 * 128) := fun c hc =>
    hfair.stageA _ c (hc.trans_le (le_divCeil_mul count (by norm_num)))
  exact ⟨_, (stageA_launch (hsound.holds job rfl) horder hbuffers hc).2⟩

/-- A batch of a job, within its bounds, returns. -/
lemma searchBatch_returns (schedule : Schedule) (hlib : lib.Lawful) {job : Job} (hsound : engine.Sound (some job))
    (hcount : count ≤ engine.maxCandidates)
    (hbase : engine.incremental.isSome → base.toNat + count ≤ 2 ^ 32)
    (hnonces : NoncesFound fuel engine job base count) :
    ∃ engine' batch, engine.searchBatch lib schedule fuel base count = some (engine', .ok batch) := by
  have hready : engine.jobReady = true := hsound.ready
  have hholds := hsound.holds job rfl
  rw [CudaPhotonEngine.searchBatch]
  cases hmode : engine.incremental with
  | some incremental =>
    obtain ⟨hkept, hperLane, -⟩ := hsound.incremental incremental hmode
    have hmax : divCeil engine.maxCandidates incremental.perLane ≤ 2 ^ 32 - 64 := by
      have := hsound.maxCandidates
      rw [hperLane, divCeil]
      omega
    obtain ⟨⟨kept, buffers⟩, hwalk⟩ : ∃ walked, incremental.batch lib true engine.maxCandidates
        engine.table incremental.message schedule.walk base.toNat count engine.buffers = .ok walked :=
      Incremental.batch_ok hlib hkept hmax hcount (hbase (by rw [hmode]; rfl))
    dsimp only
    rw [CudaPhotonEngine.incrementalBatch, hready, hwalk]
    dsimp only
    by_cases hzero : count = 0
    · rw [if_pos hzero]
      exact ⟨_, _, rfl⟩
    · rw [if_neg hzero]
      exact ⟨_, _, rfl⟩
  | none =>
    dsimp only
    rw [if_neg (by rw [hready]; exact Bool.noConfusion)]
    by_cases hzero : count = 0
    · rw [if_pos hzero]
      exact ⟨_, _, rfl⟩
    rw [if_neg hzero, if_neg hcount.not_gt]
    have hthread : ∀ c s, ∃ s', Gpu.stageA fuel base engine.target engine.privateKey count s c =
        some s' := by
      intro c s
      rw [Gpu.stageA]
      by_cases hc : c ≥ count
      · rw [if_pos hc]
        exact ⟨s, rfl⟩
      · obtain ⟨v, hv⟩ := hnonces hmode c (by omega)
        rw [Job.message, ← hholds.target, ← hholds.privateKey] at hv
        rw [if_neg hc]
        dsimp only
        rw [hv]
        exact ⟨_, rfl⟩
    obtain ⟨buffers, hbuffers⟩ :=
      launchM_ends hthread (schedule.stageA (divCeil count 128 * 128)) engine.buffers
    rw [hbuffers]
    exact ⟨_, _, rfl⟩

end Batch

/-! ## Jobs -/

section Jobs

variable {lib : Secp} {engine engine' : CudaPhotonEngine} {template : Bytes} {target : Hash}
  {privateKey : ByteVec 32} {result : Except String Unit}

lemma setMessage_eq (incremental : IncrementalSearch) (target : Hash) (nonce : UInt32) :
    CudaPhotonEngine.setMessage incremental target nonce = .ok { incremental with
      message := Lib.Sha256.digest (u32Le nonce ++ target.bytes) } := by
  have hparse : parseHex (Text.hexEncode target.bytes) = .ok target.bytes := by
    rw [parseHex_eq_ok, Text.trim_hexEncode, Text.hexDecode_hexEncode]
  have hmessage : @photonMessageSha256 .fips nonce.toNat (Text.hexEncode target.bytes) =
      .ok (Lib.Sha256.digest (u32Le nonce ++ target.bytes)) := by
    refine Except.bind_eq_ok.mpr ⟨_, hparse, ?_⟩
    rw [if_neg (not_not.mpr target.length_bytes)]
    rfl
  rw [CudaPhotonEngine.setMessage, hmessage]
  rfl

/-- What `set_job` does: it leaves the engine, or stops its search, or gives it a job. -/
lemma setJob_cases (h : engine.setJob lib template target privateKey = (engine', result)) :
    (engine' = engine ∨ engine' = { engine with jobReady := false }) ∧ (∃ error, result = .error error) ∨
    ∃ layout secret incremental, template.length = 615 + layout.shift ∧
      layout.shift ∈ PhotonLayout.gpuShifts ∧
      slice template (394 + layout.shift) (426 + layout.shift) = target.bytes ∧
      lib.fromSecretBytes privateKey = .ok secret ∧
      (∀ i, incremental = some i → ∃ i₀, engine.incremental = some i₀ ∧ i = { i₀ with
        message := Lib.Sha256.digest (u32Le (u32OfLe (slice template layout.nonceOffset
          (layout.nonceOffset + 4))) ++ target.bytes) }) ∧
      engine' = { engine.upload layout template target privateKey
        (lib.serialize (lib.fromSecretKey secret)) with incremental := incremental, jobReady := true } ∧
      result = .ok () := by
  rw [CudaPhotonEngine.setJob] at h
  cases hlayout : PhotonLayout.forTxLen template.length with
  | error error =>
    rw [hlayout] at h
    rw [Prod.mk.injEq] at h
    exact .inl ⟨.inl h.1.symm, error, h.2.symm⟩
  | ok layout =>
    rw [hlayout] at h
    dsimp only at h
    -- the checks before the upload leave the engine as it was
    by_cases hsplit : layout.nonceOffset < 384 ∨ layout.signatureOffset + 64 > template.length
    · rw [if_pos hsplit, Prod.mk.injEq] at h
      exact .inl ⟨.inl h.1.symm, _, h.2.symm⟩
    rw [if_neg hsplit] at h
    by_cases htarget : slice template layout.targetOffset (layout.targetOffset + 32) ≠ target.bytes
    · rw [if_pos htarget, Prod.mk.injEq] at h
      exact .inl ⟨.inl h.1.symm, _, h.2.symm⟩
    rw [if_neg htarget] at h
    cases hsecret : lib.fromSecretBytes privateKey with
    | error error =>
      rw [hsecret, Prod.mk.injEq] at h
      exact .inl ⟨.inr h.1.symm, _, h.2.symm⟩
    | ok secret =>
      rw [hsecret] at h
      dsimp only at h
      obtain ⟨hbounds, hshift⟩ := Except.ite_error_eq_ok.mp hlayout
      rw [not_or, Bool.not_eq_false, List.contains_iff_mem] at hbounds
      have hshift_eq : template.length - 615 = layout.shift :=
        congrArg PhotonLayout.shift (Except.ok.inj hshift)
      have hlength : template.length = 615 + layout.shift := by omega
      rw [hshift_eq] at hbounds
      rw [not_not, PhotonLayout.targetOffset, show 394 + layout.shift + 32 = 426 + layout.shift by omega]
        at htarget
      right
      -- in the incremental mode the message goes up too
      cases hmode : engine.incremental with
      | none =>
        have hmode' : ({ engine with jobReady := false }.upload layout template target privateKey
            (lib.serialize (lib.fromSecretKey secret))).incremental = none := hmode
        rw [hmode', Prod.mk.injEq] at h
        refine ⟨layout, secret, none, hlength, hbounds.2, htarget, rfl, by simp, ?_, h.2.symm⟩
        rw [← h.1, ← hmode']
        rfl
      | some incremental =>
        have hmode' : ({ engine with jobReady := false }.upload layout template target privateKey
            (lib.serialize (lib.fromSecretKey secret))).incremental = some incremental := hmode
        rw [hmode'] at h
        dsimp only at h
        rw [setMessage_eq] at h
        dsimp only at h
        rw [Prod.mk.injEq] at h
        refine ⟨layout, secret, some _, hlength, hbounds.2, htarget, rfl, ?_, h.1.symm, h.2.symm⟩
        intro i hi
        exact ⟨incremental, rfl, (Option.some.inj hi).symm⟩

/-- A job that fits is taken. -/
lemma setJob_accepts (engine : CudaPhotonEngine) {secret : lib.SecretKey} {layout : PhotonLayout}
    (hlength : template.length = 615 + layout.shift) (hshift : layout.shift ∈ PhotonLayout.gpuShifts)
    (htarget : slice template (394 + layout.shift) (426 + layout.shift) = target.bytes)
    (hsecret : lib.fromSecretBytes privateKey = .ok secret) :
    ∃ engine', engine.setJob lib template target privateKey = (engine', .ok ()) ∧
      engine'.maxCandidates = engine.maxCandidates ∧ engine'.winnerCap = engine.winnerCap ∧
      engine'.incremental.isSome = engine.incremental.isSome := by
  have hlayout : PhotonLayout.forTxLen template.length = .ok layout := by
    have hshift_eq : template.length - 615 = layout.shift := by omega
    rw [PhotonLayout.forTxLen, hshift_eq, List.contains_iff_mem.mpr hshift, if_neg (by simp [hlength])]
  have hsplit : ¬(layout.nonceOffset < 384 ∨ layout.signatureOffset + 64 > template.length) := by
    rw [PhotonLayout.nonceOffset, PhotonLayout.signatureOffset]
    omega
  have hslice : slice template layout.targetOffset (layout.targetOffset + 32) = target.bytes := by
    rw [PhotonLayout.targetOffset, show 394 + layout.shift + 32 = 426 + layout.shift by omega, htarget]
  rw [CudaPhotonEngine.setJob, hlayout]
  dsimp only
  rw [if_neg hsplit, if_neg (not_not.mpr hslice), hsecret]
  dsimp only
  obtain ⟨mode, hmode⟩ : ∃ mode, ({ engine with jobReady := false }.upload layout template target
    privateKey (lib.serialize (lib.fromSecretKey secret))).incremental = mode := ⟨_, rfl⟩
  have hmode' : engine.incremental = mode := hmode
  rw [hmode]
  cases mode with
  | none =>
    refine ⟨_, rfl, rfl, rfl, ?_⟩
    rw [← hmode']
  | some incremental =>
    dsimp only
    rw [setMessage_eq]
    refine ⟨_, rfl, rfl, rfl, ?_⟩
    rw [hmode']
    rfl

/-- The buffers after the uploads of a job. -/
lemma upload_holds (engine : CudaPhotonEngine) {layout : PhotonLayout}
    (hlength : template.length = 615 + layout.shift) (hshift : layout.shift ∈ PhotonLayout.gpuShifts)
    {publicKey : ByteVec 33} {incremental : Option IncrementalSearch}
    (hmessage : ∀ i, incremental = some i → i.message = Lib.Sha256.digest (u32Le (u32OfLe
      (slice template layout.nonceOffset (layout.nonceOffset + 4))) ++ target.bytes)) :
    CudaPhotonEngine.Holds { engine.upload layout template target privateKey publicKey with
        incremental := incremental, jobReady := true }
      ⟨template, target, if engine.positiveTarget then .positive else .absolute, privateKey,
        publicKey⟩ := by
  obtain ⟨rule, hrule⟩ : ∃ rule : Bool, engine.positiveTarget = rule := ⟨_, rfl⟩
  have htemplate : Memory.Holds (engine.template.write 0
      (template ++ List.replicate (631 - template.length) 0)) template := by
    intro i hi
    have hwrite := Memory.write_add engine.template 0
      (template ++ List.replicate (631 - template.length) 0) (i := i)
      (by rw [List.length_append]; omega)
    rw [Nat.zero_add, List.getElem_append_left hi] at hwrite
    rw [hwrite, List.getD_eq_getElem _ _ hi]
  have hmidstate : (engine.midstate.write 0 (Gpu.transactionMidstate template).toList).read 0 8 =
      Gpu.transactionMidstate template := Memory.read_write_self _ _ _
  have htarget : (engine.target.write 0 (target.bytes ++ [if rule then 1 else 0])).readBytes 0 32 =
      target := by
    rw [Memory.write_append, target.length_bytes, Memory.readBytes_write_of_disjoint _ (.inl le_rfl),
      Memory.readBytes_write_self]
  have hflag : engine.target.write 0 (target.bytes ++ [if rule then 1 else 0]) 32 ≠ 0 ↔
      (if rule then ProofRule.positive else .absolute) = .positive := by
    have hwrite := Memory.write_add (engine.target.write 0 target.bytes) 32
      [if rule then (1 : UInt8) else 0] (i := 0) (by simp)
    rw [Nat.add_zero, List.getElem_cons_zero] at hwrite
    rw [Memory.write_append, target.length_bytes, Nat.zero_add, hwrite]
    cases rule with
    | true => simp
    | false => simp
  have hnonce : u32Le (u32OfLe (slice template layout.nonceOffset (layout.nonceOffset + 4))) =
      slice template (390 + layout.shift) (394 + layout.shift) := by
    have hslice : (slice template (390 + layout.shift) (394 + layout.shift)).length = 4 := by
      rw [length_slice (by omega)]
      omega
    rw [PhotonLayout.nonceOffset, show 390 + layout.shift + 4 = 394 + layout.shift by omega,
      u32Le_u32OfLe hslice]
  rw [CudaPhotonEngine.upload, hrule]
  dsimp only
  exact ⟨hlength, hshift, htemplate, hmidstate, htarget, hflag,
    Memory.readBytes_write_self engine.privateKey 0 privateKey,
    Memory.readBytes_write_self engine.publicKey 0 publicKey, by dsimp only, hnonce, hmessage⟩

variable {job : Option Job}

/-- A new job is searched in place of the last one. -/
lemma setJob_ok (hsound : engine.Sound job) {secret : lib.SecretKey}
    (hsecret : lib.fromSecretBytes privateKey = .ok secret)
    (h : engine.setJob lib template target privateKey = (engine', .ok ())) :
    engine'.Sound (some ⟨template, target, if engine.positiveTarget then .positive else .absolute,
      privateKey, lib.serialize (lib.fromSecretKey secret)⟩) := by
  rcases setJob_cases h with ⟨-, error, herror⟩ | ⟨layout, secret', incremental, hlength, hshift, -,
    hsecret', hincremental, rfl, -⟩
  · cases herror
  rw [hsecret, Except.ok.injEq] at hsecret'
  subst hsecret'
  refine ⟨hsound.table, hsound.maxCandidates, fun i hi => ?_, rfl, fun held hheld => ?_⟩
  · obtain ⟨i₀, hi₀, rfl⟩ := hincremental i hi
    exact hsound.incremental i₀ hi₀
  · rw [← Option.some.inj hheld]
    refine upload_holds engine hlength hshift fun i hi => ?_
    obtain ⟨i₀, -, rfl⟩ := hincremental i hi
    rfl

/-- A job that is refused leaves the last one, or none. -/
lemma setJob_error (hsound : engine.Sound job) {error : String}
    (h : engine.setJob lib template target privateKey = (engine', .error error)) :
    engine'.Sound (if engine'.jobReady then job else none) := by
  rcases setJob_cases h with ⟨rfl | rfl, -⟩ | ⟨_, _, _, _, _, _, _, _, _, hresult⟩
  · cases hready : engine'.jobReady with
    | true => exact hsound
    | false =>
      exact ⟨hsound.table, hsound.maxCandidates, hsound.incremental, hready, fun _ h => by cases h⟩
  · exact ⟨hsound.table, hsound.maxCandidates, hsound.incremental, rfl, fun _ h => by cases h⟩
  · cases hresult

end Jobs

/-! ## Runs -/

/-- The engines of a run, each with the job that it searches. -/
inductive Reaches (lib : Secp) (table : Memory UInt32) : CudaPhotonEngine → Option Job → Prop
  | new {maxCandidates winnerCap : ℕ} {engine : CudaPhotonEngine} (hmax : maxCandidates < 2 ^ 32)
    (h : CudaPhotonEngine.new table maxCandidates winnerCap = .ok engine) : Reaches lib table engine none
  | incremental {engine engine' : CudaPhotonEngine} {job : Option Job}
    (hreaches : Reaches lib table engine job) (h : engine.enableIncrementalSearch = .ok engine') :
    Reaches lib table engine' job
  | rule {engine : CudaPhotonEngine} {job : Option Job} (hreaches : Reaches lib table engine job)
    (enabled : Bool) : Reaches lib table (engine.setPositiveTargetRule enabled) none
  | job {engine engine' : CudaPhotonEngine} {job : Option Job} {template : Bytes} {target : Hash}
    {privateKey : ByteVec 32} {secret : lib.SecretKey} (hreaches : Reaches lib table engine job)
    (hsecret : lib.fromSecretBytes privateKey = .ok secret)
    (h : engine.setJob lib template target privateKey = (engine', .ok ())) :
    Reaches lib table engine' (some ⟨template, target,
      if engine.positiveTarget then .positive else .absolute, privateKey,
      lib.serialize (lib.fromSecretKey secret)⟩)
  | refused {engine engine' : CudaPhotonEngine} {job : Option Job} {template : Bytes} {target : Hash}
    {privateKey : ByteVec 32} {error : String} (hreaches : Reaches lib table engine job)
    (h : engine.setJob lib template target privateKey = (engine', .error error)) :
    Reaches lib table engine' (if engine'.jobReady then job else none)
  | batch {engine engine' : CudaPhotonEngine} {job : Option Job} {schedule : Schedule} {fuel : ℕ}
    {base : UInt32} {count : ℕ} {result : Except String PhotonCudaBatchResult}
    (hreaches : Reaches lib table engine job) (hfair : schedule.Fair)
    (h : engine.searchBatch lib schedule fuel base count = some (engine', result)) :
    Reaches lib table engine' job

section Runs

variable {lib : Secp} {table : Memory UInt32} {engine : CudaPhotonEngine}

/-- In every run the buffers hold the job. -/
lemma Reaches.sound (hlib : lib.Lawful) (htable : Complete table) {job : Option Job}
    (h : Reaches lib table engine job) : engine.Sound job := by
  induction h with
  | new hmax h =>
    obtain ⟨-, h⟩ := Except.ite_error_eq_ok.mp h
    obtain ⟨-, h⟩ := Except.ite_error_eq_ok.mp h
    rw [← Except.ok.inj h]
    exact ⟨htable, hmax, by simp, rfl, by simp⟩
  | @incremental engine _ _ _ h ih =>
    obtain ⟨hready, h⟩ := Except.ite_error_eq_ok.mp h
    obtain ⟨incremental, hnew, h⟩ := Except.bind_eq_ok.mp h
    rw [Bool.not_eq_true] at hready
    have hnone := ih.ready.symm.trans hready
    rw [Option.isSome_eq_false_iff, Option.isNone_iff_eq_none] at hnone
    rw [← Except.ok.inj h, hnone]
    refine ⟨ih.table, ih.maxCandidates, fun i hi => ?_, hready, fun _ h => by cases h⟩
    rw [← Option.some.inj hi]
    refine ⟨Incremental.new_kept hnew, ?_, rfl⟩
    rw [← Except.ok.inj (Except.ite_error_eq_ok.mp hnew).2]
  | rule _ enabled ih =>
    exact ⟨ih.table, ih.maxCandidates, ih.incremental, rfl, fun _ h => by cases h⟩
  | job _ hsecret h ih => exact setJob_ok ih hsecret h
  | refused _ h ih => exact setJob_error ih h
  | batch _ hfair h ih => exact (searchBatch_sound hlib ih hfair h).1

/-- A new engine, in either mode, can be given every job that fits. -/
lemma exists_reaches (table : Memory UInt32) (layout : PhotonLayout) {maxCandidates winnerCap : ℕ}
    (hmax_pos : 0 < maxCandidates) (hmax : maxCandidates < 2 ^ 32) (hcap : 0 < winnerCap)
    (incremental positive : Bool) {template : Bytes} {target : Hash} {privateKey : ByteVec 32}
    {secret : lib.SecretKey} (hlength : template.length = 615 + layout.shift)
    (hshift : layout.shift ∈ PhotonLayout.gpuShifts)
    (htarget : slice template (394 + layout.shift) (426 + layout.shift) = target.bytes)
    (hsecret : lib.fromSecretBytes privateKey = .ok secret) :
    ∃ engine, Reaches lib table engine (some ⟨template, target,
        if positive then .positive else .absolute, privateKey,
        lib.serialize (lib.fromSecretKey secret)⟩) ∧
      engine.maxCandidates = maxCandidates ∧ engine.winnerCap = winnerCap ∧
      engine.incremental.isSome = incremental := by
  obtain ⟨engine₀, hnew, hmax₀, hcap₀, hmode₀⟩ : ∃ engine,
      CudaPhotonEngine.new table maxCandidates winnerCap = .ok engine ∧
      engine.maxCandidates = maxCandidates ∧ engine.winnerCap = winnerCap ∧
      engine.incremental = none := by
    rw [CudaPhotonEngine.new, if_neg hmax_pos.ne', if_neg hcap.ne']
    exact ⟨_, rfl, rfl, rfl, rfl⟩
  have hreaches₀ : Reaches lib table (engine₀.setPositiveTargetRule positive) none :=
    (Reaches.new hmax hnew).rule positive
  obtain ⟨engine₁, hreaches₁, hrule₁, hmax₁, hcap₁, hmode₁⟩ : ∃ engine, Reaches lib table engine none ∧
      engine.positiveTarget = positive ∧ engine.maxCandidates = maxCandidates ∧
      engine.winnerCap = winnerCap ∧ engine.incremental.isSome = incremental := by
    cases incremental with
    | false =>
      refine ⟨_, hreaches₀, rfl, hmax₀, hcap₀, ?_⟩
      rw [CudaPhotonEngine.setPositiveTargetRule, hmode₀]
      rfl
    | true =>
      obtain ⟨engine₁, h⟩ : ∃ engine,
          (engine₀.setPositiveTargetRule positive).enableIncrementalSearch = .ok engine ∧
          engine.positiveTarget = positive ∧ engine.maxCandidates = maxCandidates ∧
          engine.winnerCap = winnerCap ∧ engine.incremental.isSome = true :=
        ⟨_, rfl, rfl, hmax₀, hcap₀, rfl⟩
      exact ⟨engine₁, hreaches₀.incremental h.1, h.2⟩
  obtain ⟨engine, hjob, hmax', hcap', hmode'⟩ :=
    setJob_accepts engine₁ hlength hshift htarget hsecret
  have hreaches := hreaches₁.job hsecret hjob
  rw [hrule₁] at hreaches
  exact ⟨engine, hreaches, hmax'.trans hmax₁, hcap'.trans hcap₁, hmode'.trans hmode₁⟩

/-- In every run a batch of the job that the engine searches, within its bounds, reports the claims
that win among its candidates, in any order of the threads, if it returns; and it returns, with enough
fuel, where RFC 6979 has a nonce for each candidate or is not asked for one. -/
theorem searchBatch_reports (hlib : lib.Lawful) (htable : Complete table) {job : Job}
    (hreaches : Reaches lib table engine (some job)) {schedule : Schedule} (hfair : schedule.Fair)
    {base : UInt32} {count : ℕ} (hcount : count ≤ engine.maxCandidates)
    (hbase : engine.incremental.isSome → base.toNat + count ≤ 2 ^ 32) :
    (∀ fuel engine' result, engine.searchBatch lib schedule fuel base count = some (engine', result) →
      Reaches lib table engine' (some job) ∧ ∃ batch, result = .ok batch ∧
        Reports job (engine.place base) count engine.winnerCap batch) ∧
    ((∃ enough, ∀ fuel ≥ enough, (engine.searchBatch lib schedule fuel base count).isSome) ↔
      (engine.incremental = none → ∀ c < count, ∃ i,
        Sign.Valid ((nonces job.privateKey (job.message (base + UInt32.ofNat c))).candidate i))) := by
  have hsound := hreaches.sound hlib htable
  have hreturns (fuel : ℕ) : (engine.searchBatch lib schedule fuel base count).isSome ↔
      NoncesFound fuel engine job base count := by
    refine ⟨searchBatch_found hfair hsound hcount, fun hnonces => ?_⟩
    obtain ⟨engine', batch, h⟩ := searchBatch_returns schedule hlib hsound hcount hbase hnonces
    rw [h]
    rfl
  constructor
  · intro fuel engine' result h
    have hnonces := (hreturns fuel).mp (by rw [h]; rfl)
    obtain ⟨engine₁, batch, h₁⟩ := searchBatch_returns schedule hlib hsound hcount hbase hnonces
    rw [h, Option.some.injEq, Prod.mk.injEq] at h₁
    obtain ⟨-, rfl⟩ := h₁
    obtain ⟨-, hreports⟩ := searchBatch_sound hlib hsound hfair h
    obtain ⟨held, hheld, hreports⟩ := hreports batch rfl
    rw [Option.some.injEq] at hheld
    subst hheld
    exact ⟨hreaches.batch hfair h, batch, rfl, hreports⟩
  · simp only [hreturns]
    exact noncesFound_iff

end Runs

/-! ## A sample -/

lemma length_searchTarget : (List.replicate 31 (0xff : UInt8) ++ [0x7f]).length = 32 := rfl

/-- The greatest positive target. -/
def searchTarget : Hash := ⟨_, length_searchTarget⟩

/-- A template of zeros, but for its first byte and the target. -/
def searchTemplate : Bytes :=
  4 :: List.replicate 393 0 ++ searchTarget.bytes ++ List.replicate 189 0

/-- A job under the key one. -/
def searchJob : Job := ⟨searchTemplate, searchTarget, .positive, oneBytes, generatorKey⟩

/-- The nonce that RFC 6979 has for the first message, and the coordinates of its point. -/
def searchNonce : ByteVec 32 :=
  ⟨Lib.Sha256.beBytes 32 0x9c0a31dc38057ff905a7a7e0706e223ed191dff3170a057aedc8a024003685ee, by simp⟩

def searchX : Field := .ofNat 0x3f9b802a50f4b34ffccc333c8263c9ad734cb80b5419181c8b4bab0b17f97d4

def searchY : Field := .ofNat 0x83581ae2ebb318800044dac3a789436629ff6b18e5c565138a39654e2c97b640

/-- The nonce's point. -/
def searchPoint : Jacobian (ZMod prime) :=
  .ladder Point.generator.x.residue Point.generator.y.residue 256 (fromBe searchNonce.bytes)

lemma coordinates_searchNonce : Coordinates searchX searchY (fromBe searchNonce.bytes • G) := by
  have hz : searchPoint.z ≠ 0 := by decide +kernel
  have hx : searchX.residue * searchPoint.z ^ 2 = searchPoint.x := by decide +kernel
  have hy : searchY.residue * searchPoint.z ^ 3 = searchPoint.y := by decide +kernel
  exact Point.coordinates_of_ladder (by decide +kernel) (by decide +kernel) (by decide +kernel)
    (by rw [searchPoint]) hz hx hy

/-- The first candidate of RFC 6979 is a scalar for the first two messages. -/
lemma searchNonce_found : bchRfc6979 1 oneBytes (searchJob.message 0) = some searchNonce ∧
    (bchRfc6979 1 oneBytes (searchJob.message 1)).isSome = true := by
  simp -zeta only [bchRfc6979, hmac, Job.message, Lib.Sha256.Eval.digest_eq]
  decide +kernel

/-- The second half of a signature of the first message. -/
def searchS (k : ℕ) (x y : Field) : ℕ :=
  (adjusted k (Crypto.yIsQuadraticResidue y.toBeBytes) + fromBe (Crypto.challenge x.toBeBytes
    generatorKey (searchJob.message 0)).bytes * fromBe oneBytes.bytes) % order

/-- The signature. -/
def searchSignature (k : ℕ) (x y : Field) : ByteVec 64 :=
  Crypto.joined x.toBeBytes ⟨Lib.Sha256.beBytes 32 (searchS k x y), by simp⟩

/-- The digest of the first claim, so signed. -/
def searchDigest (k : ℕ) (x y : Field) : Hash :=
  Lib.Sha256.digest (Lib.Sha256.digest (finished searchJob.shift searchTemplate (u32Le 0)
    (searchSignature k x y).bytes)).bytes

lemma searchDigest_wins {place : Place} (hnonce : place.nonce = 0) {k : ℕ}
    (hk : searchJob.SignsWith place k) {x y : Field} (hxy : Coordinates x y (k • G))
    (hmeets : Meets.meets (searchDigest k x y) searchTarget true = true) :
    searchJob.Wins place (searchDigest k x y) := by
  have hsigns : Signs generatorKey (fromBe oneBytes.bytes) (searchJob.message 0) k
      (searchSignature k x y) := by
    refine ⟨x, y, _, hxy, rfl, ?_⟩
    have hlt : searchS k x y < 256 ^ 32 :=
      (Nat.mod_lt _ (by decide)).trans_le (by decide +kernel)
    exact fromBe_beBytes hlt
  have haccepts : Meets.Accepts .positive (searchDigest k x y) searchTarget :=
    Meets.meets_iff.mp hmeets
  refine ⟨_, ⟨k, _, hk, by rw [hnonce]; exact hsigns, ?_⟩, rfl, haccepts⟩
  rw [hnonce]
  rfl

/-- Both the scalar one and the nonce of RFC 6979 win. -/
lemma searchDigest_meets :
    Meets.meets (searchDigest 1 Point.generator.x Point.generator.y) searchTarget true = true ∧
      Meets.meets (searchDigest (fromBe searchNonce.bytes) searchX searchY) searchTarget true =
        true := by
  simp -zeta only [searchDigest, searchSignature, searchS, Crypto.challenge, Job.message,
    Lib.Sha256.Eval.digest_eq]
  decide +kernel

/-- In both modes a new engine reports the first claim of the sample's job. -/
theorem searchBatch_reports_first : ∃ table, Complete table ∧ ∀ incremental : Bool,
    ∃ engine engine' batch fuel, Reaches Secp.standard table engine (some searchJob) ∧
      engine.incremental.isSome = incremental ∧
      engine.searchBatch Secp.standard .inOrder fuel 0 2 = some (engine', .ok batch) ∧
      Reports searchJob (engine.place 0) 2 2 batch ∧
      ∃ winner ∈ batch.winners, winner.place = engine.place 0 0 := by
  obtain ⟨table, htable⟩ := exists_complete
  have hlib := Secp.standard_lawful
  have hvalue : fromBe oneBytes.bytes = 1 := by decide +kernel
  obtain ⟨one, hone, hscalar⟩ := (hlib.fromSecretBytes oneBytes).1
    ⟨by decide +kernel, by decide +kernel⟩
  have hkey := serialize_one hlib (hscalar.trans hvalue)
  have hlength : searchTemplate.length = 615 + (⟨0⟩ : PhotonLayout).shift := by decide +kernel
  have htarget : slice searchTemplate (394 + (⟨0⟩ : PhotonLayout).shift)
      (426 + (⟨0⟩ : PhotonLayout).shift) = searchTarget.bytes := by decide +kernel
  refine ⟨table, htable, fun incremental => ?_⟩
  obtain ⟨engine, hreaches, hmax, hcap, hmode⟩ := exists_reaches table ⟨0⟩ (by decide : 0 < 2)
    (by decide) (by decide : 0 < 2) incremental true hlength (by decide) htarget hone
  rw [hkey, if_pos rfl] at hreaches
  -- the claim of the first candidate
  obtain ⟨digest, hwins⟩ : ∃ digest, searchJob.Wins (engine.place 0 0) digest := by
    cases hincremental : engine.incremental with
    | none =>
      rw [place_of_none hincremental]
      have hsigns : searchJob.SignsWith ⟨0, none⟩ (fromBe searchNonce.bytes) :=
        ⟨1, _, searchNonce_found.1, rfl⟩
      exact ⟨_, searchDigest_wins rfl hsigns coordinates_searchNonce searchDigest_meets.2⟩
    | some _ =>
      have hnonce : engine.commitmentNonce = 0 := by
        apply u32Le_injective
        have hholds := (hreaches.sound hlib htable).holds searchJob rfl
        have hshift : engine.layout.shift = 0 := by
          have := hholds.length
          have : searchJob.template.length = 615 := hlength
          omega
        rw [hholds.nonce, hshift]
        decide +kernel
      rw [place_of_incremental hincremental, hnonce]
      have hsigns : searchJob.SignsWith ⟨0, some 1⟩ 1 := rfl
      have hxy : Coordinates Point.generator.x Point.generator.y (1 • G) := by
        rw [one_nsmul]
        exact Point.coordinates_generator
      exact ⟨_, searchDigest_wins rfl hsigns hxy searchDigest_meets.1⟩
  have hfound : ∀ c < 2, ∃ i, Sign.Valid
      ((nonces oneBytes (searchJob.message (0 + UInt32.ofNat c))).candidate i) := by
    have hends {nonce : UInt32} (h : ∃ v, bchRfc6979 1 oneBytes (searchJob.message nonce) = some v) :
        ∃ i, Sign.Valid ((nonces oneBytes (searchJob.message nonce)).candidate i) := by
      obtain ⟨i, -, hvalid⟩ := bchRfc6979_ends_iff.mp h
      exact ⟨i, hvalid⟩
    intro c hc
    interval_cases c
    · exact hends ⟨_, searchNonce_found.1⟩
    · exact hends (Option.isSome_iff_exists.mp searchNonce_found.2)
  obtain ⟨hreports, hreturns⟩ := searchBatch_reports hlib htable hreaches
    Schedule.inOrder_fair hmax.ge fun _ => (by decide : (0 : UInt32).toNat + 2 ≤ 2 ^ 32)
  obtain ⟨fuel, hfuel⟩ := hreturns.mpr fun _ => hfound
  obtain ⟨⟨engine', result⟩, hresult⟩ := Option.isSome_iff_exists.mp (hfuel fuel le_rfl)
  obtain ⟨-, batch, rfl, hbatch⟩ := hreports fuel engine' result hresult
  rw [hcap] at hbatch
  exact ⟨engine, engine', batch, fuel, hreaches, hmode, hresult, hbatch,
    hbatch.exists_winner le_rfl (by decide) hwins⟩

end Pickaxe.Engine
