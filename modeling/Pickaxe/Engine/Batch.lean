/-
# Batches

The engine of the GPU: it keeps a job in its buffers and searches it in batches.  A batch finds the
nonces of its candidates, or walks from scalar to scalar, then signs, hashes and filters them.  It
reports every candidate that wins, as many times as there are places for it, and no other.
-/
import Pickaxe.Engine.Filter
import Pickaxe.Engine.Walk
import Pickaxe.Photon.Verified

namespace Pickaxe.Engine

open Lib Photon

/-! ## Code -/

namespace Gpu

/-- `pickaxe_stage_a_rfc6979`, of a thread: none where its nonce is not found. -/
def stageA (fuel : ℕ) (base : UInt32) (target secret : Memory UInt8) (count : ℕ)
    (buffers : WalkBuffers) (candidate : ℕ) : Option WalkBuffers :=
  if candidate ≥ count then some buffers
  else do
    let target : ByteVec 32 := target.readBytes 0 32
    let message := Lib.Sha256.digest (u32Le (base + UInt32.ofNat candidate) ++ target.bytes)
    let scalar ← bchRfc6979 fuel (secret.readBytes 0 32) message
    some { buffers with
      messages := buffers.messages.write (candidate * 32) message.bytes
      scalars := buffers.scalars.write (candidate * 32) scalar.bytes }

end Gpu

/-- `PhotonCudaWinner`. -/
structure PhotonCudaWinner where
  nonce : UInt32
  digest : Hash
  schnorrK : Option ℕ
  tailJ : Option ℕ
  tailValueSats : Option ℕ

/-- `PhotonCudaBatchResult`. -/
structure PhotonCudaBatchResult where
  candidates : ℕ
  totalWinners : ℕ
  winners : List PhotonCudaWinner

/-- The orders in which the threads of a batch run, by the number of threads of a launch; the filter's
threads also interleave. -/
structure Schedule where
  stageA : ℕ → List ℕ
  stageB : Fin 4 → ℕ → List ℕ
  walk : (stride : ℕ) → List (Fin stride)
  c1 : (stride : ℕ) → List (Fin stride)
  filter : ℕ → List (Slots.Step ℕ)

/-- `Incremental`, with its message and the number of candidates of a signing lane. -/
structure IncrementalSearch extends Incremental where
  message : ByteVec 32
  c1PerThread : ℕ

/-- `CudaPhotonEngine`. -/
structure CudaPhotonEngine where
  layout : PhotonLayout
  table : Memory UInt32
  target : Memory UInt8
  privateKey : Memory UInt8
  publicKey : Memory UInt8
  fixedD : Memory UInt32
  buffers : WalkBuffers
  signed : Gpu.Signatures
  midstate : Memory UInt32
  template : Memory UInt8
  winners : Gpu.Winners
  maxCandidates : ℕ
  winnerCap : ℕ
  jobReady : Bool
  positiveTarget : Bool
  incremental : Option IncrementalSearch
  commitmentNonce : UInt32

/-- `kernel_index`. -/
def kernelIndex (layout : PhotonLayout) : ℕ := PhotonLayout.gpuShifts.idxOf layout.shift

/-- The shifts that the kernels of `stage_c3` are built for, by their index. -/
def kernelShift (index : ℕ) : ℕ := PhotonLayout.gpuShifts.getD index 0

/-- `C1_CANDIDATES_PER_THREAD`. -/
def C1_CANDIDATES_PER_THREAD : ℕ := 8

namespace CudaPhotonEngine

/-- `CudaPhotonEngine::new`, with the table that it loads. -/
def new (table : Memory UInt32) (maxCandidates winnerCap : ℕ) : Except String CudaPhotonEngine :=
  if maxCandidates = 0 then .error "PHOTON CUDA max_candidates must be greater than zero"
  else if winnerCap = 0 then .error "PHOTON CUDA winner_cap must be greater than zero"
  else .ok {
    layout := ⟨0⟩
    table
    target := fun _ => 0
    privateKey := fun _ => 0
    publicKey := fun _ => 0
    fixedD := fun _ => 0
    buffers := ⟨fun _ => 0, fun _ => 0, fun _ => 0⟩
    signed := ⟨fun _ => 0, fun _ => 0⟩
    midstate := fun _ => 0
    template := fun _ => 0
    winners := ⟨fun _ => 0, fun _ => 0⟩
    maxCandidates
    winnerCap
    jobReady := false
    positiveTarget := false
    incremental := none
    commitmentNonce := 0 }

/-- `enable_incremental_search`. -/
def enableIncrementalSearch (self : CudaPhotonEngine) : Except String CudaPhotonEngine :=
  if self.jobReady then .error "enable incremental search before configuring a job"
  else do
    let incremental ← Incremental.new 32
    .ok { self with incremental := some ⟨incremental, .zero 32, 16⟩ }

/-- `set_positive_target_rule`. -/
def setPositiveTargetRule (self : CudaPhotonEngine) (enabled : Bool) : CudaPhotonEngine :=
  { self with positiveTarget := enabled, jobReady := false }

/-- `Incremental::set_message`. -/
def setMessage (incremental : IncrementalSearch) (target : Hash) (nonce : UInt32) :
    Except String IncrementalSearch := do
  let hash ← @photonMessageSha256 .fips nonce.toNat (Text.hexEncode target.bytes)
  .ok { incremental with message := hash }

variable (lib : Secp)

/-- The uploads of `set_job`. -/
def upload (self : CudaPhotonEngine) (layout : PhotonLayout) (template : Bytes) (target : Hash)
    (privateKey : ByteVec 32) (publicKey : ByteVec 33) : CudaPhotonEngine :=
  { self with
    target := self.target.write 0 (target.bytes ++ [if self.positiveTarget then 1 else 0])
    privateKey := self.privateKey.write 0 privateKey.bytes
    publicKey := self.publicKey.write 0 publicKey.bytes
    fixedD := Gpu.fixedDTable privateKey
    template := self.template.write 0 (template ++ List.replicate (631 - template.length) 0)
    midstate := self.midstate.write 0 (Gpu.transactionMidstate template).toList
    layout
    commitmentNonce := u32OfLe (slice template layout.nonceOffset (layout.nonceOffset + 4)) }

/-- `set_job`: the engine that is left, and the error. -/
def setJob (self : CudaPhotonEngine) (template : Bytes) (target : Hash) (privateKey : ByteVec 32) :
    CudaPhotonEngine × Except String Unit :=
  match PhotonLayout.forTxLen template.length with
  | .error error => (self, .error error)
  | .ok layout =>
    if layout.nonceOffset < 384 ∨ layout.signatureOffset + 64 > template.length then
      (self, .error "PHOTON layout does not fit the CUDA midstate and signature split")
    else if slice template layout.targetOffset (layout.targetOffset + 32) ≠ target.bytes then
      (self, .error s!"PHOTON target must match transaction template bytes {layout.targetOffset}..{layout.targetOffset + 31}")
    else
      let self := { self with jobReady := false }
      match lib.fromSecretBytes privateKey with
      | .error error => (self, .error s!"invalid PHOTON signing key: {error}")
      | .ok secret =>
        let publicKey := lib.serialize (lib.fromSecretKey secret)
        let self := self.upload layout template target privateKey publicKey
        match self.incremental with
        | none => ({ self with jobReady := true }, .ok ())
        | some incremental =>
          match setMessage incremental target self.commitmentNonce with
          | .error error => (self, .error error)
          | .ok incremental =>
            ({ self with incremental := some incremental, jobReady := true }, .ok ())

/-- The inputs of the signing stage. -/
def signingInputs (self : CudaPhotonEngine) : Gpu.SigningInputs where
  messages := self.buffers.messages
  scalars := self.buffers.scalars
  points := self.buffers.points
  publicKey := self.publicKey.readBytes 0 33
  fixedD := self.fixedD

/-- The inputs of the filter, after the signing stage. -/
def filterInputs (self : CudaPhotonEngine) (signed : Gpu.Signatures) (base : UInt32) (count : ℕ) :
    Gpu.FilterInputs where
  template := self.template
  midstate := self.midstate
  signed := signed
  points := self.buffers.points
  base := base
  target := self.target
  count := count

variable (schedule : Schedule)

/-- `finish_batch`, with the filters of the incremental search or the others. -/
def finishBatch (incremental : Bool) (self : CudaPhotonEngine) (nonceBase : UInt32)
    (candidateCount c1PerThread : ℕ) : CudaPhotonEngine × PhotonCudaBatchResult :=
  let stride := divCeil (divCeil candidateCount c1PerThread) 64 * 64
  let signed := (schedule.c1 stride).foldl
    (Gpu.c1SchnorrDualBatched self.signingInputs candidateCount c1PerThread stride) self.signed
  let state := Gpu.filterLaunch (kernelShift (kernelIndex self.layout)) incremental
    (self.filterInputs signed nonceBase candidateCount) self.winnerCap
    (schedule.filter (divCeil candidateCount 128 * 128)) self.winners
  let returned := min state.count self.winnerCap
  let winners := (List.range returned).map fun index =>
    let record := state.records.get index
    ⟨record.1, record.2, none, none, none⟩
  ({ self with signed, winners := state.records }, ⟨candidateCount, state.count, winners⟩)

/-- What `search_batch` makes of a winner of the incremental search. -/
def incrementalWinner (commitmentNonce : UInt32) (winner : PhotonCudaWinner) : PhotonCudaWinner :=
  { winner with schnorrK := some (winner.nonce.toNat + 1), nonce := commitmentNonce }

/-- `Incremental::batch`. -/
def incrementalBatch (self : CudaPhotonEngine) (incremental : IncrementalSearch) (base : UInt32)
    (count : ℕ) : CudaPhotonEngine × Except String PhotonCudaBatchResult :=
  match incremental.batch lib self.jobReady self.maxCandidates self.table incremental.message
      schedule.walk base.toNat count self.buffers with
  | .error error => (self, .error error)
  | .ok (kept, buffers) =>
    if count = 0 then (self, .ok ⟨0, 0, []⟩)
    else
      let self := { self with
        buffers
        incremental := some { incremental with toIncremental := kept } }
      let finished := self.finishBatch schedule true base count incremental.c1PerThread
      (finished.1, .ok finished.2)

/-- `search_batch`: none where a nonce is not found. -/
def searchBatch (fuel : ℕ) (self : CudaPhotonEngine) (nonceBase : UInt32) (candidateCount : ℕ) :
    Option (CudaPhotonEngine × Except String PhotonCudaBatchResult) :=
  match self.incremental with
  | some incremental =>
    let result := self.incrementalBatch lib schedule incremental nonceBase candidateCount
    some (result.1, result.2.map fun batch =>
      { batch with winners := batch.winners.map (incrementalWinner self.commitmentNonce) })
  | none =>
    if self.jobReady = false then some (self, .error "PHOTON CUDA job is not configured")
    else if candidateCount = 0 then some (self, .ok ⟨0, 0, []⟩)
    else if candidateCount > self.maxCandidates then
      some (self, .error s!"PHOTON CUDA batch {candidateCount} exceeds persistent capacity {self.maxCandidates}")
    else do
      let buffers ← (schedule.stageA (divCeil candidateCount 128 * 128)).foldlM
        (Gpu.stageA fuel nonceBase self.target self.privateKey candidateCount) self.buffers
      let threads := divCeil candidateCount 64 * 64
      let points := stageB buffers.scalars self.table candidateCount (schedule.stageB 0 threads)
        (schedule.stageB 1 threads) (schedule.stageB 2 threads) (schedule.stageB 3 threads)
        buffers.points
      let self := { self with buffers := { buffers with points } }
      let finished := self.finishBatch schedule false nonceBase candidateCount
        C1_CANDIDATES_PER_THREAD
      some (finished.1, .ok finished.2)

end CudaPhotonEngine

/-! ## What is searched -/

/-- What the engine searches: a template and a target, under a rule and a key. -/
structure Job where
  template : Bytes
  target : Hash
  rule : ProofRule
  privateKey : ByteVec 32
  publicKey : ByteVec 33

/-- A place of a search: the nonce of a claim, and the scalar that signs it where RFC 6979 does not
give it. -/
structure Place where
  nonce : UInt32
  schnorrK : Option ℕ

namespace Job

variable (job : Job) (place : Place)

/-- The bytes by which the job's layout is longer than the shortest. -/
def shift : ℕ := job.template.length - 615

/-- The message that a claim signs. -/
def message (nonce : UInt32) : ByteVec 32 :=
  Lib.Sha256.digest (u32Le nonce ++ job.target.bytes)

/-- The scalar that signs a claim. -/
def SignsWith (k : ℕ) : Prop :=
  match place.schnorrK with
  | some scalar => k = scalar
  | none => ∃ fuel v, bchRfc6979 fuel job.privateKey (job.message place.nonce) = some v ∧
      fromBe v.bytes = k

/-- The transaction of a claim, signed. -/
def Claims (tx : Bytes) : Prop :=
  ∃ k sig64, job.SignsWith place k ∧
    Signs job.publicKey (fromBe job.privateKey.bytes) (job.message place.nonce) k sig64 ∧
    tx = finished job.shift job.template (u32Le place.nonce) sig64.bytes

/-- A claim whose digest the rule accepts. -/
def Wins (digest : Hash) : Prop :=
  ∃ tx, job.Claims place tx ∧ Lib.Sha256.digest (Lib.Sha256.digest tx).bytes = digest ∧
    Meets.Accepts job.rule digest job.target

variable {job place}

lemma SignsWith.unique {k k' : ℕ} (h : job.SignsWith place k) (h' : job.SignsWith place k') :
    k = k' := by
  rw [SignsWith] at h h'
  cases hk : place.schnorrK with
  | some scalar =>
    rw [hk] at h h'
    exact h.trans h'.symm
  | none =>
    rw [hk] at h h'
    obtain ⟨_, v, hv, hk⟩ := h
    obtain ⟨_, v', hv', hk'⟩ := h'
    obtain ⟨i, hi, -, hvi⟩ := bchRfc6979_eq_some.mp hv
    obtain ⟨i', hi', -, hvi'⟩ := bchRfc6979_eq_some.mp hv'
    obtain rfl := hi.unique hi'
    rw [← hk, ← hk', ← hvi, hvi']

lemma Claims.unique {tx tx' : Bytes} (h : job.Claims place tx) (h' : job.Claims place tx') :
    tx = tx' := by
  obtain ⟨k, sig64, hk, hsig, htx⟩ := h
  obtain ⟨k', sig64', hk', hsig', htx'⟩ := h'
  obtain rfl := hk.unique hk'
  rw [htx, htx', hsig.unique hsig']

end Job

/-- The place of a winner. -/
def PhotonCudaWinner.place (winner : PhotonCudaWinner) : Place := ⟨winner.nonce, winner.schnorrK⟩

/-- What a batch has to report of the places of its candidates: each that wins, and no other, once, in
some order, the first ones with their records. -/
def Reports (job : Job) (place : ℕ → Place) (count cap : ℕ) (result : PhotonCudaBatchResult) : Prop :=
  result.candidates = count ∧ ∃ winning : List ℕ, winning.Nodup ∧
    (∀ c, c ∈ winning ↔ c < count ∧ ∃ digest, job.Wins (place c) digest) ∧
    result.totalWinners = winning.length ∧
    List.Forall₂ (fun c winner => winner.place = place c ∧ job.Wins (place c) winner.digest ∧
      winner.tailJ = none ∧ winner.tailValueSats = none) (winning.take cap) result.winners

/-- A winner that is reported wins at its place. -/
lemma Reports.of_mem {job : Job} {place : ℕ → Place} {count cap : ℕ} {result : PhotonCudaBatchResult}
    (h : Reports job place count cap result) {winner : PhotonCudaWinner}
    (hwinner : winner ∈ result.winners) :
    job.Wins winner.place winner.digest ∧ winner.tailJ = none ∧ winner.tailValueSats = none := by
  obtain ⟨-, winning, -, -, -, hwinners⟩ := h
  obtain ⟨i, hi, rfl⟩ := List.mem_iff_get.mp hwinner
  obtain ⟨hplace, hwins, htail, hvalue⟩ := hwinners.get (by rw [hwinners.length_eq]; exact i.2) i.2
  exact ⟨by rw [hplace]; exact hwins, htail, hvalue⟩

/-- A claim that wins is reported where there is room for every candidate. -/
lemma Reports.exists_winner {job : Job} {place : ℕ → Place} {count cap : ℕ}
    {result : PhotonCudaBatchResult} (h : Reports job place count cap result) (hcap : count ≤ cap)
    {c : ℕ} (hc : c < count) {digest : Hash} (hwins : job.Wins (place c) digest) :
    ∃ winner ∈ result.winners, winner.place = place c := by
  obtain ⟨-, winning, hnodup, hmem, -, hwinners⟩ := h
  have hlength : winning.length ≤ count := by
    have hsub : winning ⊆ List.range count := fun c hc => List.mem_range.mpr ((hmem c).mp hc).1
    have hle := (hnodup.subperm hsub).length_le
    rwa [List.length_range] at hle
  rw [List.take_of_length_le (hlength.trans hcap)] at hwinners
  obtain ⟨i, hi⟩ := List.mem_iff_get.mp ((hmem c).mpr ⟨hc, digest, hwins⟩)
  have hi' : i.1 < result.winners.length := hwinners.length_eq ▸ i.2
  obtain ⟨hplace, -⟩ := hwinners.get i.2 hi'
  exact ⟨_, List.get_mem _ _, hplace.trans (congrArg place hi)⟩

/-- The engine's buffers hold a job. -/
structure CudaPhotonEngine.Holds (engine : CudaPhotonEngine) (job : Job) : Prop where
  length : job.template.length = 615 + engine.layout.shift
  mem_shifts : engine.layout.shift ∈ PhotonLayout.gpuShifts
  template : Memory.Holds engine.template job.template
  midstate : engine.midstate.read 0 8 = Gpu.transactionMidstate job.template
  target : engine.target.readBytes 0 32 = job.target
  rule : engine.target 32 ≠ 0 ↔ job.rule = .positive
  privateKey : engine.privateKey.readBytes 0 32 = job.privateKey
  publicKey : engine.publicKey.readBytes 0 33 = job.publicKey
  fixedD : engine.fixedD = Gpu.fixedDTable job.privateKey
  nonce : u32Le engine.commitmentNonce =
    slice job.template (390 + engine.layout.shift) (394 + engine.layout.shift)
  message : ∀ incremental, engine.incremental = some incremental →
    incremental.message = job.message engine.commitmentNonce

/-- The buffers hold a candidate's message, its scalar and the multiple of the generator by it. -/
structure Ready (job : Job) (place : Place) (buffers : WalkBuffers) (candidate : ℕ) : Prop where
  message : (buffers.part candidate).1 = job.message place.nonce
  scalar : job.SignsWith place (fromBe (buffers.part candidate).2.1.bytes)
  pos : 0 < fromBe (buffers.part candidate).2.1.bytes
  lt : fromBe (buffers.part candidate).2.1.bytes < order
  point : (buffers.part candidate).2.2.Represents (fromBe (buffers.part candidate).2.1.bytes • G)

/-! ## The end of a batch -/

lemma kernelShift_kernelIndex {layout : PhotonLayout} (h : layout.shift ∈ PhotonLayout.gpuShifts) :
    kernelShift (kernelIndex layout) = layout.shift := by
  rw [kernelShift, kernelIndex, List.getD_eq_getElem _ _ (List.idxOf_lt_length_iff.mpr h)]
  exact List.getElem_idxOf _

lemma shift_le_of_mem {shift : ℕ} (h : shift ∈ PhotonLayout.gpuShifts) : shift ≤ 16 := by
  have hall : ∀ s ∈ PhotonLayout.gpuShifts, s ≤ 16 := by decide
  exact hall shift h

/-- The lanes of a signing launch have room for every candidate. -/
lemma le_mul_divCeil (count : ℕ) {perThread : ℕ} (hpos : 0 < perThread) :
    count ≤ perThread * (divCeil (divCeil count perThread) 64 * 64) := by
  have hlanes : count ≤ perThread * divCeil count perThread := by
    have h := Nat.lt_mul_div_succ (count + perThread - 1) hpos
    rw [divCeil]
    rw [Nat.mul_add, Nat.mul_one] at h
    omega
  have hblocks : divCeil count perThread ≤ divCeil (divCeil count perThread) 64 * 64 := by
    generalize divCeil count perThread = lanes
    rw [divCeil]
    omega
  exact hlanes.trans (Nat.mul_le_mul_left _ hblocks)

/-- A launch runs at least as many threads as there are candidates. -/
lemma le_divCeil_mul (count : ℕ) {block : ℕ} (hpos : 0 < block) : count ≤ divCeil count block * block := by
  have h := Nat.lt_mul_div_succ (count + block - 1) hpos
  rw [divCeil]
  rw [Nat.mul_add, Nat.mul_one, mul_comm] at h
  omega

/-- A scalar below the order has a point with coordinates. -/
lemma exists_coordinates {p : Point} {k : ℕ} (hpos : 0 < k) (hlt : k < order)
    (h : p.Represents (k • G)) : ∃ x y, Coordinates x y (k • G) := by
  have hne : k • G ≠ 0 := fun h0 =>
    Nat.not_dvd_of_pos_of_lt hpos hlt (nsmul_G_eq_zero_iff.mp h0)
  obtain ⟨x, y, -, hxy⟩ := h.affine.resolve_left fun h => hne h.2
  exact ⟨x, y, hxy⟩

/-- The orders of a schedule run every thread that a launch has. -/
structure Schedule.Fair (schedule : Schedule) : Prop where
  stageA : ∀ threads, ∀ t < threads, t ∈ schedule.stageA threads
  stageB : ∀ part threads, Launch (schedule.stageB part threads) threads
  walk : ∀ stride lane, lane ∈ schedule.walk stride
  c1 : ∀ stride lane, lane ∈ schedule.c1 stride
  filter : ∀ threads, Slots.Complete (List.range threads) (schedule.filter threads)

/-- Every thread in its turn. -/
def Schedule.inOrder : Schedule where
  stageA := List.range
  stageB _ := List.range
  walk := List.finRange
  c1 := List.finRange
  filter threads := (List.range threads).map .take ++ (List.range threads).map .store

lemma Schedule.inOrder_fair : Schedule.inOrder.Fair where
  stageA threads t ht := List.mem_range.mpr ht
  stageB _ threads := ⟨List.nodup_range, fun _ => List.mem_range.mpr⟩
  walk stride lane := List.mem_finRange lane
  c1 stride lane := List.mem_finRange lane
  filter threads := by
    have htakers : Slots.takers (Schedule.inOrder.filter threads) = List.range threads := by
      rw [Slots.takers, inOrder, List.filterMap_append, List.filterMap_map, List.filterMap_map]
      simp
    refine ⟨?_, ?_, fun t ht => ?_⟩
    · rw [htakers]
      exact List.nodup_range
    · intro t
      rw [htakers]
    · exact ⟨_, _, rfl, List.mem_map_of_mem ht, List.mem_map_of_mem ht⟩

section Finish

variable {engine : CudaPhotonEngine} {job : Job} {place : ℕ → Place} {incremental : Bool}
  {base : UInt32} {count : ℕ} {signed : Gpu.Signatures}

lemma CudaPhotonEngine.Holds.shift_eq (h : engine.Holds job) : job.shift = engine.layout.shift := by
  have hlength : job.template.length - 615 = engine.layout.shift := by
    have := h.length
    omega
  exact hlength

/-- The filter decides the claim of each candidate. -/
lemma filter_eq_wins (base : UInt32) (h : engine.Holds job) {c : ℕ} (hc : c < count)
    (hready : Ready job (place c) engine.buffers c)
    (hsigned : SignedAlone engine.signingInputs signed c)
    (hnonce : nonceBytes engine.layout.shift incremental job.template (base + UInt32.ofNat c) =
      u32Le (place c).nonce) :
    ∃ digest, Gpu.filter engine.layout.shift incremental (engine.filterInputs signed base count) c =
        (if Meets.meets digest job.target (decide (job.rule = .positive)) then
          some (base + UInt32.ofNat c, digest) else none) ∧
      ∃ tx, job.Claims (place c) tx ∧ Lib.Sha256.digest (Lib.Sha256.digest tx).bytes = digest := by
  obtain ⟨hmessage, hscalar, hpos, hlt, hpoint⟩ := hready
  rw [WalkBuffers.part] at hmessage hscalar hpos hlt hpoint
  dsimp only at hmessage hscalar hpos hlt hpoint
  obtain ⟨k, hk⟩ : ∃ k, fromBe (engine.buffers.scalars.readBytes (c * 32) 32).bytes = k := ⟨_, rfl⟩
  rw [hk] at hscalar hpos hlt hpoint
  obtain ⟨x, y, hxy⟩ := exists_coordinates hpos hlt hpoint
  have hz : (pointAt engine.buffers.points c).z ≠ .zero := (hpoint.coordinates hxy).1
  -- the signature that the point asks for
  obtain ⟨parts, hparts⟩ : ∃ parts, Gpu.candidateParts engine.signingInputs c
    (pointAt engine.buffers.points c).z.inverse = parts := ⟨_, rfl⟩
  have hkey : HoldsKey engine.signingInputs job.privateKey := by
    rw [HoldsKey, CudaPhotonEngine.signingInputs, h.fixedD]
  have hsigns := candidateParts_signs hkey hk hlt hpoint hxy hparts
  have hheld : signed.parts c = parts := (hsigned hz).trans hparts
  have htemplate : HoldsTemplate engine.layout.shift (engine.filterInputs signed base count)
      job.template := ⟨shift_le_of_mem h.mem_shifts, h.length, h.template, h.midstate⟩
  have hfilter := filter_eq_some incremental htemplate hc hz hheld rfl
  have hrule : decide (engine.target 32 ≠ 0) = decide (job.rule = .positive) :=
    decide_eq_decide.mpr h.rule
  rw [CudaPhotonEngine.filterInputs] at hfilter
  dsimp only at hfilter
  rw [h.target, hrule] at hfilter
  refine ⟨_, hfilter, _, ⟨k, Crypto.joined parts.1 (chosen (pointAt engine.buffers.points c) parts),
    hscalar, ?_, ?_⟩, rfl⟩
  · have hpublic : engine.signingInputs.publicKey = job.publicKey := h.publicKey
    rw [← hpublic, ← hmessage]
    exact hsigns
  · rw [candidateTx, h.shift_eq]
    exact congrArg (fun nonce => finished engine.layout.shift job.template nonce _) hnonce

/-- A candidate passes the filter when a claim of its place wins, with the claim's digest. -/
lemma filter_eq_some_iff (base : UInt32) (h : engine.Holds job)
    (hready : ∀ c < count, Ready job (place c) engine.buffers c)
    (hsigned : ∀ c < count, SignedAlone engine.signingInputs signed c)
    (hnonce : ∀ c < count, nonceBytes engine.layout.shift incremental job.template
      (base + UInt32.ofNat c) = u32Le (place c).nonce) (c : ℕ) (record : UInt32 × Hash) :
    Gpu.filter engine.layout.shift incremental (engine.filterInputs signed base count) c =
        some record ↔
      c < count ∧ job.Wins (place c) record.2 ∧ record.1 = base + UInt32.ofNat c := by
  rcases Nat.lt_or_ge c count with hc | hge
  · obtain ⟨digest, hfilter, tx, hclaims, hdigest⟩ :=
      filter_eq_wins base h hc (hready c hc) (hsigned c hc) (hnonce c hc)
    rw [hfilter]
    constructor
    · intro hsome
      by_cases hmeets : Meets.meets digest job.target (decide (job.rule = .positive)) = true
      · rw [if_pos hmeets, Option.some.injEq] at hsome
        rw [← hsome]
        exact ⟨hc, ⟨tx, hclaims, hdigest, Meets.meets_iff.mp hmeets⟩, rfl⟩
      · rw [if_neg hmeets] at hsome
        cases hsome
    · rintro ⟨-, ⟨tx', hclaims', hdigest', haccepts⟩, hfirst⟩
      rw [hclaims'.unique hclaims, hdigest] at hdigest'
      rw [← hdigest'] at haccepts
      rw [if_pos (Meets.meets_iff.mpr haccepts), ← hfirst, hdigest']
  · have hnone : Gpu.filter engine.layout.shift incremental (engine.filterInputs signed base count) c =
        none := if_pos hge
    rw [hnone]
    exact iff_of_false (Option.some_ne_none record).symm fun hc => absurd hc.1 hge.not_gt

variable {schedule : Schedule} {perThread : ℕ}

/-- A batch finds every candidate that wins. -/
lemma finishBatch_winners (h : engine.Holds job) (hfair : schedule.Fair) (hcount : 0 < count)
    (hpos : 0 < perThread) (hle : perThread ≤ 16)
    (hready : ∀ c < count, Ready job (place c) engine.buffers c)
    (hnonce : ∀ c < count, nonceBytes engine.layout.shift incremental job.template
      (base + UInt32.ofNat c) = u32Le (place c).nonce)
    {result : CudaPhotonEngine × PhotonCudaBatchResult}
    (hresult : engine.finishBatch schedule incremental base count perThread = result) :
    result.2.candidates = count ∧ ∃ winning : List ℕ, winning.Nodup ∧
      (∀ c, c ∈ winning ↔ c < count ∧ ∃ digest, job.Wins (place c) digest) ∧
      result.2.totalWinners = winning.length ∧
      List.Forall₂ (fun c winner => c < count ∧ ∃ digest, job.Wins (place c) digest ∧
        winner = ⟨base + UInt32.ofNat c, digest, none, none, none⟩)
        (winning.take engine.winnerCap) result.2.winners := by
  have hroom := le_mul_divCeil count hpos
  obtain ⟨stride, hstride⟩ : ∃ stride, divCeil (divCeil count perThread) 64 * 64 = stride := ⟨_, rfl⟩
  obtain ⟨signed, hsigned⟩ : ∃ signed, (schedule.c1 stride).foldl (Gpu.c1SchnorrDualBatched
    engine.signingInputs count perThread stride) engine.signed = signed := ⟨_, rfl⟩
  rw [hstride] at hroom
  have hstride_pos : 0 < stride := by
    rcases Nat.eq_zero_or_pos stride with hzero | hpos
    · rw [hzero] at hroom
      omega
    · exact hpos
  -- each candidate is signed as it would be alone, whatever shares its lane
  have halone : ∀ c < count, SignedAlone engine.signingInputs signed c := by
    intro c hc
    rw [← hsigned]
    refine c1_signedAlone ?_ hstride_pos (fun i hi => ?_) (hfair.c1 stride) engine.signed hc
    · rw [Nat.min_eq_left hle]
      exact hroom
    · obtain ⟨j, hj, -⟩ := (hready i hi).point
      exact hj.z.canonical
  rw [CudaPhotonEngine.finishBatch, hstride, hsigned, kernelShift_kernelIndex h.mem_shifts] at hresult
  obtain ⟨steps, hsteps⟩ : ∃ steps, schedule.filter (divCeil count 128 * 128) = steps := ⟨_, rfl⟩
  have hcomplete : Slots.Complete (List.range (divCeil count 128 * 128)) steps :=
    hsteps ▸ hfair.filter _
  have hthreads := le_divCeil_mul count (by norm_num : 0 < 128)
  rw [hsteps] at hresult
  -- a thread of the filter reports if its candidate's claim wins
  have hfilter := filter_eq_some_iff base h hready halone hnonce
  obtain ⟨report, hreport⟩ : ∃ report, Gpu.filter engine.layout.shift incremental
    (engine.filterInputs signed base count) = report := ⟨_, rfl⟩
  simp only [Gpu.filterLaunch, hreport] at hresult
  rw [hreport] at hfilter
  obtain ⟨state, hstate⟩ : ∃ state, steps.foldl (Slots.step report Gpu.Winners.put engine.winnerCap)
    (Slots.start engine.winners) = state := ⟨_, rfl⟩
  -- the slots hold what the first reporters wrote, in the order of the threads' steps
  have hstored : state.count = (Slots.reporters report steps).length ∧ ∀ i t a,
      (Slots.reporters report steps)[i]? = some t → i < engine.winnerCap → report t = some a →
        state.records.get i = a := by
    rw [← hstate]
    exact Slots.complete_spec hcomplete get_put_self get_put_of_ne engine.winners
  obtain ⟨hcounted, hrecords⟩ := hstored
  rw [hstate] at hresult
  rw [← hresult]
  refine ⟨rfl, Slots.reporters report steps, hcomplete.nodup.filter _, fun c => ?_, hcounted, ?_⟩
  · rw [Slots.reporters, List.mem_filter, hcomplete.mem_iff, List.mem_range, Option.isSome_iff_exists]
    constructor
    · rintro ⟨-, record, hsome⟩
      obtain ⟨hc, hwins, -⟩ := (hfilter c record).mp hsome
      exact ⟨hc, _, hwins⟩
    · rintro ⟨hc, digest, hwins⟩
      exact ⟨by omega, _, (hfilter c (_, digest)).mpr ⟨hc, hwins, rfl⟩⟩
  · rw [List.forall₂_iff_get]
    refine ⟨?_, fun i hi hi' => ?_⟩
    · rw [List.length_take, List.length_map, List.length_range, hcounted, Nat.min_comm]
    · have hi_lt : i < (Slots.reporters report steps).length ∧ i < engine.winnerCap := by
        rw [List.length_take] at hi
        omega
      obtain ⟨c, hc⟩ : ∃ c, (Slots.reporters report steps)[i]? = some c :=
        ⟨_, List.getElem?_eq_getElem hi_lt.1⟩
      have hmem := List.mem_of_getElem? hc
      rw [Slots.reporters, List.mem_filter, Option.isSome_iff_exists] at hmem
      obtain ⟨-, record, hsome⟩ := hmem
      obtain ⟨hc_lt, hwins, hfirst⟩ := (hfilter c record).mp hsome
      have hget := hrecords i c record hc hi_lt.2 hsome
      have hc_eq : (Slots.reporters report steps)[i] = c := Option.some.inj
        ((List.getElem?_eq_getElem hi_lt.1).symm.trans hc)
      simp only [List.get_eq_getElem, List.getElem_take, List.getElem_map, List.getElem_range, hc_eq,
        hget]
      exact ⟨hc_lt, record.2, hwins, by rw [hfirst]⟩

end Finish

end Pickaxe.Engine
