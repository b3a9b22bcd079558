/-
# The walk from scalar to scalar

The incremental search: each lane multiplies the generator by one scalar and then adds the same point
again and again, so that the candidates of a batch are the multiples by the scalars from `base + 1`
on.  The host keeps the point that a lane adds, and computes it anew when its stride changes.
-/
import Pickaxe.Engine.FixedBase

namespace Pickaxe.Engine

open Lib

/-! ## Code -/

/-- The buffers that the walk writes. -/
structure WalkBuffers where
  messages : Memory UInt8
  scalars : Memory UInt8
  points : Memory UInt32

/-- What the walk writes for a candidate. -/
def WalkBuffers.write (buffers : WalkBuffers) (message : ByteVec 32) (candidate k : ℕ)
    (point : Point) : WalkBuffers where
  messages := buffers.messages.write (candidate * 32) message.bytes
  scalars := buffers.scalars.write (candidate * 32)
    (List.replicate 24 0 ++ Lib.Sha256.beBytes 8 k)
  points := writePoint buffers.points candidate point

/-- The digit of a scalar that the walk starts with. -/
def walkDigit (k : ℕ) (window : ℕ) : ℕ := (k >>> (window * 16)) &&& 0xffff

/-- The loop of `pickaxe_photon_incremental_k`. -/
def walkFrom (dx dy : Field) (message : ByteVec 32) (stride count : ℕ) :
    (fuel candidate k : ℕ) → Point → WalkBuffers → WalkBuffers
  | 0, _, _, _, buffers => buffers
  | fuel + 1, candidate, k, point, buffers =>
    if candidate < count then
      let buffers := buffers.write message candidate k point
      let candidate := candidate + stride
      if candidate ≥ count then buffers
      else walkFrom dx dy message stride count fuel candidate (k + stride)
        (point.addAffine dx dy) buffers
    else buffers

/-- `pickaxe_photon_incremental_k`, of a lane.  It takes at most `count` turns. -/
def incrementalK (base count : ℕ) (table step : Memory UInt32) (message : ByteVec 32) (stride : ℕ)
    (buffers : WalkBuffers) (lane : Fin stride) : WalkBuffers :=
  if lane.val ≥ count then buffers
  else
    let k := base + lane.val + 1
    let point := (List.range 4).foldl (addWindow table (walkDigit k)) .infinity
    walkFrom ⟨step.read 0 8⟩ ⟨step.read 8 8⟩ message stride count count lane.val k point buffers

/-- What the host of the incremental search keeps. -/
structure Incremental where
  stride : ℕ
  step : Memory UInt32
  perLane : ℕ

/-- `Incremental::new`. -/
def Incremental.new (perLane : ℕ) : Except String Incremental :=
  if ¬(1 ≤ perLane ∧ perLane ≤ 128) then .error "invalid incremental lane size"
  else .ok ⟨0, fun _ => 0, perLane⟩

/-- `u32::div_ceil`. -/
def divCeil (a b : ℕ) : ℕ := (a + b - 1) / b

/-- The words of a coordinate, as `batch` uploads them. -/
def stepWords (coordinate : Bytes) : List UInt32 :=
  (Sha256.beWords 8 coordinate).toList.reverse

variable (lib : Secp)

lemma length_scalarBytes (k : ℕ) :
    (List.replicate 24 (0 : UInt8) ++ Lib.Sha256.beBytes 8 k).length = 32 := by simp

/-- The host's state for a stride: the first half of `Incremental::batch`. -/
def Incremental.restep (self : Incremental) (stride : ℕ) : Except String Incremental :=
  if self.stride ≠ stride then do
    let secret ← lib.fromSecretBytes ⟨List.replicate 24 0 ++ Lib.Sha256.beBytes 8 stride, length_scalarBytes stride⟩
    let point := (lib.serializeUncompressed (lib.fromSecretKey secret)).bytes
    let words := stepWords (slice point 1 33) ++ stepWords (slice point 33 65)
    .ok { self with step := self.step.write 0 words, stride := stride }
  else .ok self

/-- `Incremental::batch`, up to the walk: the host's state, and the buffers after a launch of the lanes
in some order.  `order` is the order of the lanes of a launch. -/
def Incremental.batch (self : Incremental) (jobReady : Bool) (maxCandidates : ℕ)
    (table : Memory UInt32) (message : ByteVec 32) (order : (stride : ℕ) → List (Fin stride))
    (base count : ℕ) (buffers : WalkBuffers) : Except String (Incremental × WalkBuffers) :=
  if jobReady = false ∨ count > maxCandidates ∨ base + count > 2 ^ 32 then
    .error "incremental batch is unconfigured, oversized, or crosses the 32-bit scalar index boundary"
  else if count = 0 then .ok (self, buffers)
  else do
    let stride := divCeil (divCeil count self.perLane) 64 * 64 % 2 ^ 32
    let self ← self.restep lib stride
    .ok (self, (order stride).foldl
      (incrementalK base count table self.step message stride) buffers)

/-! ## A lane -/

/-- What the buffers hold for a candidate. -/
def WalkBuffers.part (buffers : WalkBuffers) (candidate : ℕ) : ByteVec 32 × ByteVec 32 × Point :=
  (buffers.messages.readBytes (candidate * 32) 32, buffers.scalars.readBytes (candidate * 32) 32,
    pointAt buffers.points candidate)

/-- The buffers hold a candidate's message, its scalar and the multiple of the generator by it. -/
structure Walked (base : ℕ) (message : ByteVec 32) (buffers : WalkBuffers) (candidate : ℕ) :
    Prop where
  message : (buffers.part candidate).1 = message
  scalar : fromBe (buffers.part candidate).2.1.bytes = base + candidate + 1
  point : (buffers.part candidate).2.2.Represents ((base + candidate + 1) • G)

lemma Walked.congr {base candidate : ℕ} {message : ByteVec 32} {buffers buffers' : WalkBuffers}
    (h : Walked base message buffers candidate)
    (hpart : buffers'.part candidate = buffers.part candidate) :
    Walked base message buffers' candidate := by
  obtain ⟨hmessage, hscalar, hpoint⟩ := h
  rw [← hpart] at hmessage hscalar hpoint
  exact ⟨hmessage, hscalar, hpoint⟩

lemma part_write_self (buffers : WalkBuffers) (message : ByteVec 32) (candidate k : ℕ)
    (point : Point) : (buffers.write message candidate k point).part candidate =
      (message, ⟨List.replicate 24 0 ++ Lib.Sha256.beBytes 8 k, length_scalarBytes k⟩, point) := by
  have hscalar := Memory.readBytes_write_self buffers.scalars (candidate * 32)
    ⟨List.replicate 24 0 ++ Lib.Sha256.beBytes 8 k, length_scalarBytes k⟩
  rw [WalkBuffers.part, WalkBuffers.write]
  dsimp only at hscalar ⊢
  rw [Memory.readBytes_write_self, hscalar, pointAt_writePoint]

lemma part_write_of_ne (buffers : WalkBuffers) (message : ByteVec 32) {candidate candidate' : ℕ}
    (k : ℕ) (point : Point) (h : candidate ≠ candidate') :
    (buffers.write message candidate' k point).part candidate = buffers.part candidate := by
  have hscalar := length_scalarBytes k
  rw [WalkBuffers.part, WalkBuffers.part, WalkBuffers.write]
  dsimp only
  rw [Memory.readBytes_write_of_disjoint _ (by rw [ByteVec.length_bytes]; omega),
    Memory.readBytes_write_of_disjoint _ (by rw [hscalar]; omega), pointAt_writePoint_of_ne _ _ h]

section Lane

variable {dx dy : Field} {message : ByteVec 32} {stride count base : ℕ}

lemma walked_write (hle : base + count ≤ 2 ^ 32) {candidate : ℕ} (hcandidate : candidate < count)
    {point : Point} (hpoint : point.Represents ((base + candidate + 1) • G)) (buffers : WalkBuffers) :
    Walked base message (buffers.write message candidate (base + candidate + 1) point) candidate := by
  have hscalar : fromBe (List.replicate 24 0 ++ Lib.Sha256.beBytes 8 (base + candidate + 1)) =
      base + candidate + 1 := by
    rw [fromBe_append, fromBe_replicate_zero, Nat.mul_zero, Nat.zero_add, fromBe_beBytes]
    norm_num
    omega
  have hpart := part_write_self buffers message candidate (base + candidate + 1) point
  refine ⟨?_, ?_, ?_⟩
  · rw [hpart]
  · rw [hpart]
    exact hscalar
  · rw [hpart]
    exact hpoint

/-- A lane writes the candidates a stride apart from its first one on, and no other. -/
lemma walkFrom_spec (hstep : Coordinates dx dy (stride • G)) (hstride : 0 < stride)
    (hle : base + count ≤ 2 ^ 32) {fuel candidate : ℕ} {point : Point} (hfuel : count ≤ candidate + fuel)
    (hpoint : point.Represents ((base + candidate + 1) • G)) (message : ByteVec 32)
    (buffers : WalkBuffers) :
    (∀ i, candidate ≤ i → i < count → i % stride = candidate % stride → Walked base message
      (walkFrom dx dy message stride count fuel candidate (base + candidate + 1) point buffers) i) ∧
    ∀ i, i < candidate ∨ i % stride ≠ candidate % stride →
      (walkFrom dx dy message stride count fuel candidate (base + candidate + 1) point buffers).part i =
        buffers.part i := by
  induction fuel generalizing candidate point buffers with
  | zero => exact ⟨fun i hi hlt => by omega, fun i _ => rfl⟩
  | succ fuel ih =>
    rw [walkFrom]
    by_cases hmore : candidate < count
    · rw [if_pos hmore]
      have hthis : Walked base message (buffers.write message candidate (base + candidate + 1) point)
          candidate := walked_write hle hmore hpoint buffers
      have hother : ∀ i, i < candidate ∨ i % stride ≠ candidate % stride →
          (buffers.write message candidate (base + candidate + 1) point).part i = buffers.part i := by
        intro i hi
        refine part_write_of_ne buffers message _ point ?_
        rintro rfl
        exact hi.elim (Nat.lt_irrefl i) fun h => h rfl
      by_cases hlast : candidate + stride ≥ count
      · rw [if_pos hlast]
        refine ⟨fun i hi hlt hmod => ?_, hother⟩
        -- nothing below `count` is a stride further on
        have hdvd : stride ∣ i - candidate := (Nat.modEq_iff_dvd' hi).mp hmod.symm
        have hzero : i - candidate = 0 := by
          by_contra hne
          have := Nat.le_of_dvd (Nat.pos_of_ne_zero hne) hdvd
          omega
        obtain rfl : i = candidate := by omega
        exact hthis
      · rw [if_neg hlast]
        have hnext : (point.addAffine dx dy).Represents ((base + (candidate + stride) + 1) • G) := by
          rw [show base + (candidate + stride) + 1 = base + candidate + 1 + stride by ring, add_nsmul]
          exact hpoint.addAffine hstep
        have hmod : (candidate + stride) % stride = candidate % stride := Nat.add_mod_right _ _
        obtain ⟨hwalked, hsame⟩ := ih (by omega) hnext
          (buffers.write message candidate (base + candidate + 1) point)
        rw [show base + candidate + 1 + stride = base + (candidate + stride) + 1 by ring]
        rw [hmod] at hwalked hsame
        refine ⟨fun i hi hlt hi_mod => ?_, fun i hi => ?_⟩
        · rcases Nat.lt_or_ge i (candidate + stride) with hbefore | hafter
          · have hdvd : stride ∣ i - candidate := (Nat.modEq_iff_dvd' hi).mp hi_mod.symm
            have hzero : i - candidate = 0 := by
              by_contra hne
              have := Nat.le_of_dvd (Nat.pos_of_ne_zero hne) hdvd
              omega
            obtain rfl : i = candidate := by omega
            exact hthis.congr (hsame i (.inl hbefore))
          · exact hwalked i hafter hlt hi_mod
        · rw [hsame i (hi.imp_left fun h => by omega), hother i hi]
    · rw [if_neg hmore]
      exact ⟨fun i hi hlt => by omega, fun i _ => rfl⟩

lemma isDigits_walkDigit (k : ℕ) : IsDigits (walkDigit k) k := by
  intro window _
  rw [walkDigit, Nat.shiftRight_eq_div_pow, show 65536 = 2 ^ 16 by norm_num, ← pow_mul,
    mul_comm 16]
  exact Nat.and_two_pow_sub_one_eq_mod _ 16

variable {table step : Memory UInt32}

/-- A launch of every lane walks every candidate. -/
lemma incrementalK_launch (htable : Complete table)
    (hstep : Coordinates ⟨step.read 0 8⟩ ⟨step.read 8 8⟩ (stride • G)) (hle : base + count ≤ 2 ^ 32)
    {order : List (Fin stride)} (horder : ∀ lane, lane ∈ order) (buffers : WalkBuffers)
    {candidate : ℕ} (hcandidate : candidate < count) :
    Walked base message
      (order.foldl (incrementalK base count table step message stride) buffers) candidate := by
  have hstride : 0 < stride := by
    rcases Nat.eq_zero_or_pos stride with rfl | hpos
    · rw [zero_nsmul] at hstep
      exact absurd rfl hstep.ne_zero
    · exact hpos
  -- a lane's own walk, and that it leaves the candidates of the others
  have hlane : ∀ (lane : Fin stride) (buffers : WalkBuffers),
      (∀ i < count, i % stride = lane → Walked base message
        (incrementalK base count table step message stride buffers lane) i) ∧
      ∀ i, i % stride ≠ lane →
        (incrementalK base count table step message stride buffers lane).part i =
          buffers.part i := by
    intro lane buffers
    have hmod : lane.val % stride = lane := Nat.mod_eq_of_lt lane.isLt
    rw [incrementalK]
    by_cases hidle : lane.val ≥ count
    · rw [if_pos hidle]
      refine ⟨fun i hi hlane => ?_, fun i _ => rfl⟩
      have := Nat.mod_le i stride
      omega
    · rw [if_neg hidle]
      have hk : base + lane.val + 1 < 65536 ^ (0 + 4) := by
        norm_num
        omega
      have hstart : Point.infinity.Represents (((base + lane.val + 1) % 65536 ^ 0) • G) := by
        rw [pow_zero, Nat.mod_one, zero_nsmul]
        exact .infinity
      have hpoint := foldl_addWindow_represents htable (isDigits_walkDigit (base + lane.val + 1)) 4 0
        (by norm_num) hstart
      rw [Nat.mod_eq_of_lt hk, ← List.range_eq_range'] at hpoint
      obtain ⟨hwalked, hsame⟩ := walkFrom_spec hstep hstride hle (Nat.le_add_left count lane.val)
        hpoint message buffers
      rw [hmod] at hwalked hsame
      refine ⟨fun i hi hi_lane => hwalked i ?_ hi hi_lane, fun i hi => hsame i (.inr hi)⟩
      have := Nat.mod_le i stride
      omega
  have h := launch_establishes (t := ⟨candidate % stride, Nat.mod_lt _ hstride⟩)
    (fun (lane : Fin stride) buffers =>
      ∀ i < count, i % stride = lane → Walked base message buffers i)
    (fun lane buffers => (hlane lane buffers).1)
    (fun lane lane' buffers hne hwalked i hi hi_lane =>
      (hwalked i hi hi_lane).congr ((hlane lane' buffers).2 i fun heq =>
        hne (Fin.ext (hi_lane.symm.trans heq))))
    (horder _) buffers
  exact h candidate hcandidate rfl

end Lane

/-! ## The host -/

variable {lib : Secp} {self : Incremental}

/-- The point that the host keeps is the one of its stride. -/
structure Incremental.Kept (host : Incremental) : Prop where
  perLane_pos : 1 ≤ host.perLane
  perLane_le : host.perLane ≤ 128
  step : host.stride = 0 ∨
    Coordinates ⟨host.step.read 0 8⟩ ⟨host.step.read 8 8⟩ (host.stride • G)

lemma Incremental.new_kept {perLane : ℕ} (h : new perLane = .ok self) : self.Kept := by
  obtain ⟨hbounds, h⟩ := Except.ite_error_eq_ok.mp h
  rw [Except.ok.injEq] at h
  rw [← h]
  rw [not_not] at hbounds
  exact ⟨hbounds.1, hbounds.2, .inl rfl⟩

lemma stepWords_toBeBytes (f : Field) : stepWords f.toBeBytes.bytes = f.words.toList := by
  rw [stepWords, Field.toBeBytes, Sha256.beWords_bytes, reversed, List.Vector.toList_mk,
    List.reverse_reverse]

/-- The point that a stride needs, when the host keeps another. -/
lemma coordinates_step (hlib : lib.Lawful) (step : Memory UInt32) (p : lib.PublicKey) :
    Coordinates
      ⟨(step.write 0 (stepWords (slice (lib.serializeUncompressed p).bytes 1 33) ++
        stepWords (slice (lib.serializeUncompressed p).bytes 33 65))).read 0 8⟩
      ⟨(step.write 0 (stepWords (slice (lib.serializeUncompressed p).bytes 1 33) ++
        stepWords (slice (lib.serializeUncompressed p).bytes 33 65))).read 8 8⟩ (lib.point p) := by
  obtain ⟨x, y, hxy, hx, hy⟩ := slice_uncompressed hlib p
  rw [hx, hy, stepWords_toBeBytes, stepWords_toBeBytes, Memory.write_append,
    List.Vector.toList_length, Nat.zero_add, Memory.read_write_of_disjoint _ (.inl (by norm_num : 0 + 8 ≤ 8)),
    Memory.read_write_self, Memory.read_write_self]
  exact hxy

/-- A stride is neither zero nor past 32 bits. -/
lemma stride_bounds {count maxCandidates perLane : ℕ} (hcount : 0 < count)
    (hle : count ≤ maxCandidates) (hmax : divCeil maxCandidates perLane ≤ 2 ^ 32 - 64)
    (hperLane : 0 < perLane) : 0 < divCeil (divCeil count perLane) 64 * 64 ∧
      divCeil (divCeil count perLane) 64 * 64 < 2 ^ 32 := by
  have hlanes_pos : 0 < divCeil count perLane := Nat.div_pos (by omega) hperLane
  have hlanes_le : divCeil count perLane ≤ divCeil maxCandidates perLane :=
    Nat.div_le_div_right (by omega)
  generalize divCeil count perLane = lanes at hlanes_pos hlanes_le
  rw [divCeil]
  omega

lemma Incremental.restep_kept (hlib : lib.Lawful) (hkept : self.Kept) {stride : ℕ}
    (hpos : 0 < stride) (hlt : stride < 2 ^ 32) {self' : Incremental}
    (h : self.restep lib stride = .ok self') :
    self'.Kept ∧ Coordinates ⟨self'.step.read 0 8⟩ ⟨self'.step.read 8 8⟩ (stride • G) := by
  rw [restep] at h
  by_cases hsame : self.stride = stride
  · rw [if_neg (not_not.mpr hsame)] at h
    obtain rfl := Except.ok.inj h
    exact ⟨hkept, hsame ▸ hkept.step.resolve_left (by omega)⟩
  · rw [if_pos hsame] at h
    obtain ⟨secret, hsecret, h⟩ := Except.bind_eq_ok.mp h
    obtain rfl := Except.ok.inj h
    have hvalue : fromBe (List.replicate 24 0 ++ Lib.Sha256.beBytes 8 stride) = stride := by
      rw [fromBe_append, fromBe_replicate_zero, Nat.mul_zero, Nat.zero_add, fromBe_beBytes]
      norm_num
      omega
    obtain ⟨secret', hsecret', hscalar⟩ :=
      (hlib.fromSecretBytes ⟨_, length_scalarBytes stride⟩).1
        (by rw [hvalue]; exact ⟨hpos, hlt.trans (by norm_num [order])⟩)
    rw [hsecret, Except.ok.injEq] at hsecret'
    subst hsecret'
    have hpoint : lib.point (lib.fromSecretKey secret) = stride • G := by
      rw [hlib.fromSecretKey, hscalar, hvalue]
    have hcoordinates := coordinates_step hlib self.step (lib.fromSecretKey secret)
    rw [hpoint] at hcoordinates
    exact ⟨⟨hkept.perLane_pos, hkept.perLane_le, .inr hcoordinates⟩, hcoordinates⟩

/-- A batch keeps the point of the host's stride, and walks every candidate. -/
lemma Incremental.batch_kept (hlib : lib.Lawful) (hkept : self.Kept) {jobReady : Bool}
    {maxCandidates base count : ℕ} (hmax : divCeil maxCandidates self.perLane ≤ 2 ^ 32 - 64)
    {table : Memory UInt32} (htable : Complete table) {message : ByteVec 32} {order : (stride : ℕ) → List (Fin stride)}
    (horder : ∀ stride lane, lane ∈ order stride) {buffers : WalkBuffers}
    {result : Incremental × WalkBuffers}
    (h : self.batch lib jobReady maxCandidates table message order base count buffers = .ok result) :
    result.1.Kept ∧ ∀ candidate < count, Walked base message result.2 candidate := by
  obtain ⟨hready, h⟩ := Except.ite_error_eq_ok.mp h
  rw [not_or, not_or] at hready
  have hle : base + count ≤ 2 ^ 32 := not_lt.mp hready.2.2
  by_cases hzero : count = 0
  · rw [if_pos hzero, Except.ok.injEq] at h
    subst h
    exact ⟨hkept, fun candidate hlt => by omega⟩
  rw [if_neg hzero] at h
  obtain ⟨hpos, hlt⟩ := stride_bounds (Nat.pos_of_ne_zero hzero) (not_lt.mp hready.2.1) hmax
    hkept.perLane_pos
  dsimp only at h
  rw [Nat.mod_eq_of_lt hlt] at h
  obtain ⟨self', hself', h⟩ := Except.bind_eq_ok.mp h
  rw [Except.ok.injEq] at h
  subst h
  obtain ⟨hkept', hstep⟩ := restep_kept hlib hkept hpos hlt hself'
  exact ⟨hkept', fun candidate hcandidate =>
    incrementalK_launch htable hstep hle (horder _) buffers hcandidate⟩

lemma Incremental.restep_perLane {stride : ℕ} {self' : Incremental}
    (h : self.restep lib stride = .ok self') : self'.perLane = self.perLane := by
  rw [restep] at h
  by_cases hsame : self.stride = stride
  · rw [if_neg (not_not.mpr hsame), Except.ok.injEq] at h
    rw [← h]
  · rw [if_pos hsame] at h
    obtain ⟨secret, -, h⟩ := Except.bind_eq_ok.mp h
    rw [← Except.ok.inj h]

/-- The point of a stride is found. -/
lemma Incremental.restep_ok (hlib : lib.Lawful) (self : Incremental) {stride : ℕ} (hpos : 0 < stride)
    (hlt : stride < 2 ^ 32) : ∃ self', self.restep lib stride = .ok self' := by
  have hvalue : fromBe (List.replicate 24 0 ++ Lib.Sha256.beBytes 8 stride) = stride := by
    rw [fromBe_append, fromBe_replicate_zero, Nat.mul_zero, Nat.zero_add, fromBe_beBytes]
    norm_num
    omega
  obtain ⟨secret, hsecret, -⟩ := (hlib.fromSecretBytes ⟨_, length_scalarBytes stride⟩).1
    (by rw [hvalue]; exact ⟨hpos, hlt.trans (by norm_num [order])⟩)
  rw [restep]
  by_cases hsame : self.stride = stride
  · rw [if_neg (not_not.mpr hsame)]
    exact ⟨_, rfl⟩
  · rw [if_pos hsame]
    exact ⟨_, Except.bind_eq_ok.mpr ⟨secret, hsecret, rfl⟩⟩

section Batch

variable {maxCandidates base count : ℕ} {table : Memory UInt32} {message : ByteVec 32}
  {order : (stride : ℕ) → List (Fin stride)} {buffers : WalkBuffers}

lemma Incremental.batch_perLane {jobReady : Bool} {result : Incremental × WalkBuffers}
    (h : self.batch lib jobReady maxCandidates table message order base count buffers = .ok result) :
    result.1.perLane = self.perLane := by
  obtain ⟨-, h⟩ := Except.ite_error_eq_ok.mp h
  by_cases hzero : count = 0
  · rw [if_pos hzero, Except.ok.injEq] at h
    rw [← h]
  · rw [if_neg hzero] at h
    obtain ⟨self', hself', h⟩ := Except.bind_eq_ok.mp h
    rw [← Except.ok.inj h]
    exact restep_perLane hself'

/-- A batch for a job, within its bounds, is walked. -/
lemma Incremental.batch_ok (hlib : lib.Lawful) (hkept : self.Kept)
    (hmax : divCeil maxCandidates self.perLane ≤ 2 ^ 32 - 64) (hcount : count ≤ maxCandidates)
    (hbase : base + count ≤ 2 ^ 32) : ∃ result,
      self.batch lib true maxCandidates table message order base count buffers = .ok result := by
  rw [batch, if_neg (by simp only [Bool.true_eq_false, false_or]; omega)]
  by_cases hzero : count = 0
  · rw [if_pos hzero]
    exact ⟨_, rfl⟩
  · obtain ⟨hpos, hlt⟩ := stride_bounds (Nat.pos_of_ne_zero hzero) hcount hmax hkept.perLane_pos
    obtain ⟨self', hself'⟩ := restep_ok hlib self hpos hlt
    rw [if_neg hzero]
    dsimp only
    rw [Nat.mod_eq_of_lt hlt]
    exact ⟨_, Except.bind_eq_ok.mpr ⟨self', hself', rfl⟩⟩

end Batch

/-- The states that the host reaches: a fresh one, and what batches leave. -/
inductive Incremental.Reaches (lib : Secp) (table : Memory UInt32) : Incremental → Prop
  | new {perLane : ℕ} {host : Incremental} (h : new perLane = .ok host) : Reaches lib table host
  | batch {host : Incremental} {jobReady : Bool} {maxCandidates base count : ℕ}
    {message : ByteVec 32} {order : (stride : ℕ) → List (Fin stride)} {buffers : WalkBuffers}
    {result : Incremental × WalkBuffers} (hhost : Reaches lib table host)
    (hmax : divCeil maxCandidates host.perLane ≤ 2 ^ 32 - 64)
    (horder : ∀ stride lane, lane ∈ order stride)
    (h : host.batch lib jobReady maxCandidates table message order base count buffers = .ok result) :
    Reaches lib table result.1

lemma Incremental.Reaches.kept (hlib : lib.Lawful) {table : Memory UInt32} (htable : Complete table)
    (h : self.Reaches lib table) : self.Kept := by
  induction h with
  | new h => exact new_kept h
  | batch _ hmax horder h ih => exact (batch_kept hlib ih hmax htable horder h).1

/-- In every run of batches, whatever the order of the lanes, a batch leaves for each candidate its
message, the scalar `base + candidate + 1` and the multiple of the generator by it. -/
theorem incremental_walked (hlib : lib.Lawful) {table : Memory UInt32} (htable : Complete table)
    (hreaches : self.Reaches lib table) {jobReady : Bool} {maxCandidates base count : ℕ}
    (hmax : divCeil maxCandidates self.perLane ≤ 2 ^ 32 - 64) {message : ByteVec 32}
    {order : (stride : ℕ) → List (Fin stride)} (horder : ∀ stride lane, lane ∈ order stride)
    {buffers : WalkBuffers} {result : Incremental × WalkBuffers}
    (h : self.batch lib jobReady maxCandidates table message order base count buffers = .ok result) :
    ∀ candidate < count, Walked base message result.2 candidate :=
  (Incremental.batch_kept hlib (hreaches.kept hlib htable) hmax htable horder h).2

/-- A host that is new walks a batch of a candidate more than its lanes, and then one of twice as many
with the point that it keeps. -/
theorem incremental_walked_first : ∃ table host first second, Complete table ∧
    Incremental.new 8 = .ok host ∧
    host.batch Secp.standard true 130 table (.zero 32) List.finRange 0 65
      ⟨fun _ => 0, fun _ => 0, fun _ => 0⟩ = .ok first ∧
    first.1.batch Secp.standard true 130 table (.zero 32) List.finRange 65 130 first.2 = .ok second ∧
    Walked 0 (.zero 32) first.2 64 ∧ Walked 65 (.zero 32) second.2 129 := by
  obtain ⟨table, htable⟩ := exists_complete
  have hlib := Secp.standard_lawful
  have horder : ∀ stride lane, lane ∈ List.finRange stride := fun _ lane => List.mem_finRange lane
  have hnew : Incremental.new 8 = .ok ⟨0, fun _ => 0, 8⟩ := rfl
  have hmax : divCeil 130 8 ≤ 2 ^ 32 - 64 := by decide
  obtain ⟨first, hfirst⟩ : ∃ first, Incremental.batch Secp.standard ⟨0, fun _ => 0, 8⟩ true 130 table
      (.zero 32) List.finRange 0 65 ⟨fun _ => 0, fun _ => 0, fun _ => 0⟩ = .ok first :=
    Incremental.batch_ok hlib (Incremental.new_kept hnew) hmax (by decide) (by decide)
  have hreaches : first.1.Reaches Secp.standard table := .batch (.new hnew) hmax horder hfirst
  have hmax' : divCeil 130 first.1.perLane ≤ 2 ^ 32 - 64 := by
    rw [Incremental.batch_perLane hfirst]
    exact hmax
  obtain ⟨second, hsecond⟩ : ∃ second, first.1.batch Secp.standard true 130 table (.zero 32)
      List.finRange 65 130 first.2 = .ok second :=
    Incremental.batch_ok hlib (hreaches.kept hlib htable) hmax' le_rfl (by decide)
  exact ⟨table, _, first, second, htable, hnew, hfirst, hsecond,
    incremental_walked hlib htable (.new hnew) hmax horder hfirst 64 (by decide),
    incremental_walked hlib htable hreaches hmax' horder hsecond 129 (by decide)⟩

end Pickaxe.Engine
