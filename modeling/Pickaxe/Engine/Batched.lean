/-
# Signatures in batches

A thread of the native signing stage inverts the product of up to sixteen coordinates and takes each
inverse off it, and signs with the nonce and with its opposite; the key comes from a table of its
multiples.  Every candidate is signed as it would be alone.
-/
import Pickaxe.Engine.Signature
import Mathlib.Data.Nat.Digits.Lemmas

namespace Pickaxe.Engine

open Lib Sha256

/-! ## The table of a key -/

namespace Gpu

/-- `BigUint::to_u32_digits`. -/
def toU32Digits (v : ℕ) : List UInt32 := (Nat.digits (2 ^ 32) v).map UInt32.ofNat

/-- A byte position of `fixed_d_table`. -/
def fixedDRow (state : Memory UInt32 × ℕ) (bytePosition : ℕ) : Memory UInt32 × ℕ :=
  ((List.range' 1 255).foldl (fun table digit =>
      table.write ((bytePosition * 256 + digit) * 8)
        ((toU32Digits (state.2 * digit % order)).take 8)) state.1,
    state.2 * 256 % order)

/-- A buffer of zeros. -/
def zeros : Memory UInt32 := fun _ => 0

/-- `fixed_d_table`. -/
def fixedDTable (privateKey : ByteVec 32) : Memory UInt32 :=
  ((List.range 32).foldl fixedDRow (zeros, fromBe privateKey.bytes)).1

end Gpu

/-- What a write of up to eight words does to the eight words there. -/
def overlay (l : List UInt32) (v : Words 8) : Words 8 := .ofFn 8 fun i => l[i]?.getD (v.word i)

lemma word_read {m : Memory UInt32} {at_ n i : ℕ} (h : i < n) :
    Words.word (m.read at_ n : Words n) i = m (at_ + i) := by
  have hget := List.Vector.get_eq_get_toList (m.read at_ n) ⟨i, h⟩
  rw [Memory.read, List.Vector.get_ofFn] at hget
  rw [Words.word, List.getD_eq_getElem _ _ (by simpa using h)]
  exact hget.symm

lemma read_write_overlay (m : Memory UInt32) (at_ : ℕ) (l : List UInt32) :
    (m.write at_ l).read at_ 8 = overlay l (m.read at_ 8) := by
  refine Words.ext fun i hi => ?_
  rw [word_read hi, overlay, Words.word_ofFn hi, word_read hi, Memory.write, if_pos (by omega),
    Nat.add_sub_cancel_left]

/-- The digits of a number, over zeros. -/
lemma overlay_digits {v : ℕ} (h : v < 2 ^ 256) (z : Words 8) (hz : ∀ i < 8, z.word i = 0) :
    Words.value (overlay ((Gpu.toU32Digits v).take 8) z) = v := by
  have hwords : overlay ((Gpu.toU32Digits v).take 8) z = Words.ofNat 8 v := by
    refine Words.ext fun i hi => ?_
    have hdigit : ((Gpu.toU32Digits v).take 8)[i]?.getD 0 = UInt32.ofNat (v / (2 ^ 32) ^ i % 2 ^ 32) := by
      rw [List.getElem?_take_of_lt hi, ← Nat.getD_digits v i (by norm_num), Gpu.toU32Digits,
        List.getElem?_map, List.getD_eq_getElem?_getD]
      rcases (Nat.digits (2 ^ 32) v)[i]? with _ | d
      · rfl
      · rfl
    apply UInt32.toNat_inj.mp
    rw [overlay, Words.word_ofFn hi, hz i hi, hdigit, word_eq _ hi, Words.value_ofNat,
      UInt32.toNat_ofNat', Nat.mod_mod, Nat.mod_eq_of_lt h, pow_mul]
  rw [hwords, Words.value_ofNat, Nat.mod_eq_of_lt h]

/-- The entries of the first rows. -/
def fixedEntries (rows : ℕ) : List ℕ :=
  (List.range rows).flatMap fun row => (List.range' 1 255).map (row * 256 + ·)

lemma nodup_fixedEntries (rows : ℕ) : (fixedEntries rows).Nodup := by
  rw [fixedEntries, List.nodup_flatMap]
  refine ⟨fun row _ => (List.nodup_range').map fun a b h => Nat.add_left_cancel h, ?_⟩
  refine List.pairwise_lt_range.imp fun {a b} hlt e ha hb => ?_
  obtain ⟨i, hi, rfl⟩ := List.mem_map.mp ha
  obtain ⟨j, hj, hij⟩ := List.mem_map.mp hb
  have hi' := List.mem_range'_1.mp hi
  have hj' := List.mem_range'_1.mp hj
  omega

lemma fixedEntries_succ (rows : ℕ) : fixedEntries (rows + 1) =
    fixedEntries rows ++ (List.range' 1 255).map (rows * 256 + ·) := by
  rw [fixedEntries, List.range_succ, List.flatMap_append, List.flatMap_cons, List.flatMap_nil,
    List.append_nil, ← fixedEntries]

/-- An entry of the table written. -/
def writeMultiple (d : ℕ) (table : Memory UInt32) (e : ℕ) : Memory UInt32 :=
  table.write (e * 8) ((Gpu.toU32Digits (256 ^ (e / 256) * d * (e % 256) % order)).take 8)

/-- The rows of the table, one after another. -/
lemma fixedRows_eq (d rows : ℕ) :
    ∃ factor, (List.range rows).foldl Gpu.fixedDRow (Gpu.zeros, d) =
        ((fixedEntries rows).foldl (writeMultiple d) Gpu.zeros, factor) ∧
      factor % order = 256 ^ rows * d % order := by
  induction rows with
  | zero => exact ⟨d, rfl, by rw [pow_zero, one_mul]⟩
  | succ rows ih =>
    obtain ⟨factor, hfold, hfactor⟩ := ih
    refine ⟨factor * 256 % order, ?_, ?_⟩
    · rw [List.range_succ, List.foldl_append, hfold, List.foldl_cons, List.foldl_nil, Gpu.fixedDRow,
        fixedEntries_succ, List.foldl_append, List.foldl_map]
      refine congrArg (·, _) (List.foldl_ext _ _ _ fun table digit hdigit => ?_)
      have hmem := List.mem_range'_1.mp hdigit
      rw [writeMultiple, show (rows * 256 + digit) / 256 = rows by omega,
        show (rows * 256 + digit) % 256 = digit by omega, Nat.mul_mod, hfactor, ← Nat.mul_mod]
    · rw [Nat.mod_mod, Nat.mul_mod, hfactor, ← Nat.mul_mod, pow_succ]
      ring_nf

/-- The entries of the table are the multiples of the key. -/
lemma fixedDTable_read (privateKey : ByteVec 32) {row digit : ℕ} (hrow : row < 32) (hpos : 0 < digit)
    (hdigit : digit < 256) :
    Words.value ((Gpu.fixedDTable privateKey).read ((row * 256 + digit) * 8) 8 : Words 8) =
      256 ^ row * fromBe privateKey.bytes * digit % order := by
  obtain ⟨factor, hfold, -⟩ := fixedRows_eq (fromBe privateKey.bytes) 32
  have hmem : row * 256 + digit ∈ fixedEntries 32 := by
    refine List.mem_flatMap.mpr ⟨row, List.mem_range.mpr hrow, List.mem_map.mpr ⟨digit, ?_, rfl⟩⟩
    exact List.mem_range'_1.mpr (by omega)
  have hother (e e' : ℕ) (table : Memory UInt32) (hne : e ≠ e') :
      ((writeMultiple (fromBe privateKey.bytes) table e').read (e * 8) 8 : Words 8) =
        table.read (e * 8) 8 := by
    refine Memory.read_write_of_disjoint _ ?_
    rw [List.length_take]
    omega
  have hself (e : ℕ) (table : Memory UInt32) :
      ((writeMultiple (fromBe privateKey.bytes) table e).read (e * 8) 8 : Words 8) =
        overlay ((Gpu.toU32Digits
          (256 ^ (e / 256) * fromBe privateKey.bytes * (e % 256) % order)).take 8)
          (table.read (e * 8) 8) := read_write_overlay _ _ _
  have hread := view_launch (fun e (table : Memory UInt32) => (table.read (e * 8) 8 : Words 8)) _
    hother hself (nodup_fixedEntries 32) hmem Gpu.zeros
  rw [Gpu.fixedDTable, hfold]
  dsimp only at hread ⊢
  rw [hread, show (row * 256 + digit) / 256 = row by omega,
    show (row * 256 + digit) % 256 = digit by omega]
  refine overlay_digits ((Nat.mod_lt _ order_prime.pos).trans (by norm_num [order])) _ fun i hi => ?_
  rw [word_read hi]
  rfl

/-! ## Code -/

namespace Gpu

/-- The outputs of the signing stage. -/
structure Signatures where
  signatures : Memory UInt8
  negatedS : Memory UInt8

/-- The first loop of `pickaxe_photon_c1_schnorr_dual_batched`, from the candidate `j` of a lane on:
the products before each of its candidates, and the product of all. -/
def prefixes (points : Memory UInt32) (lane stride candidateCount : ℕ) :
    ℕ → ℕ → Field → List Field × Field
  | 0, _, product => ([], product)
  | n + 1, j, product =>
    let candidate := lane + j * stride
    if candidate ≥ candidateCount then ([], product)
    else
      let z := (pointAt points candidate).z
      let rest := prefixes points lane stride candidateCount n (j + 1)
        (if z ≠ .zero then product.mulMod z else product)
      (product :: rest.1, rest.2)

/-- What the signing stage reads. -/
structure SigningInputs where
  messages : Memory UInt8
  scalars : Memory UInt8
  points : Memory UInt32
  publicKey : ByteVec 33
  fixedD : Memory UInt32

variable (inputs : SigningInputs)

/-- The key in Montgomery form. -/
def dMontgomery : Scalar :=
  let half : Scalar := ⟨inputs.fixedD.read ((31 * 256 + 128) * 8) 8⟩
  half.addMod half

/-- The halves of a candidate's signatures, given the inverse of its coordinate. -/
def candidateParts (candidate : ℕ) (zInverse : Field) : ByteVec 32 × ByteVec 32 × ByteVec 32 :=
  let point := pointAt inputs.points candidate
  let r := (point.x.mulMod zInverse.square).toBeBytes
  let message := inputs.messages.readBytes (candidate * 32) 32
  let e := Scalar.fromBeBytes (Sha256.challenge r inputs.publicKey message)
  let ed := e.montgomeryMul (dMontgomery inputs)
  let k := Scalar.fromBeBytes (inputs.scalars.readBytes (candidate * 32) 32)
  (r, (k.addMod ed).toBeBytes, (k.negate.addMod ed).toBeBytes)

/-- The three writes of a candidate. -/
def writeParts (out : Signatures) (candidate : ℕ) (parts : ByteVec 32 × ByteVec 32 × ByteVec 32) :
    Signatures where
  signatures := (out.signatures.write (candidate * 64) parts.1.bytes).write (candidate * 64 + 32)
    parts.2.1.bytes
  negatedS := out.negatedS.write (candidate * 32) parts.2.2.bytes

/-- A pass of the second loop. -/
def signStep (lane stride : ℕ) (products : List Field) (state : Signatures × Field) (j : ℕ) :
    Signatures × Field :=
  let candidate := lane + j * stride
  let z := (pointAt inputs.points candidate).z
  if z = .zero then state
  else
    let zInverse := state.2.mulMod (products.getD j .one)
    (writeParts state.1 candidate (candidateParts inputs candidate zInverse), state.2.mulMod z)

/-- `pickaxe_photon_c1_schnorr_dual_batched`, of a lane. -/
def c1SchnorrDualBatched (candidateCount perThread stride : ℕ) (out : Signatures)
    (lane : Fin stride) : Signatures :=
  let first := prefixes inputs.points lane stride candidateCount (min perThread 16) 0 .one
  if first.1.length = 0 then out
  else
    ((List.range first.1.length).reverse.foldl (signStep inputs lane stride first.1)
      (out, first.2.inverse)).1

end Gpu

/-! ## One inverse for many -/

/-- The product of the coordinates other than zero before a candidate of a lane. -/
noncomputable def productBefore (z : ℕ → ZMod prime) (n : ℕ) : ZMod prime :=
  ∏ i ∈ Finset.range n, if z i = 0 then 1 else z i

lemma productBefore_ne_zero (z : ℕ → ZMod prime) (n : ℕ) : productBefore z n ≠ 0 := by
  rw [productBefore, Finset.prod_ne_zero_iff]
  intro i _
  split_ifs with h
  · exact one_ne_zero
  · exact h

lemma productBefore_succ (z : ℕ → ZMod prime) (n : ℕ) :
    productBefore z (n + 1) = productBefore z n * if z n = 0 then 1 else z n :=
  Finset.prod_range_succ _ _

section Lane

variable {points : Memory UInt32} {lane stride count : ℕ}

/-- The coordinate of a candidate of a lane. -/
def laneZ (points : Memory UInt32) (lane stride j : ℕ) : Field :=
  (pointAt points (lane + j * stride)).z

/-- The product before a candidate of a lane. -/
noncomputable def laneProduct (points : Memory UInt32) (lane stride j : ℕ) : ZMod prime :=
  productBefore (fun i => (laneZ points lane stride i).residue) j

/-- A product with one coordinate more. -/
lemma laneProduct_step {j : ℕ} {product : Field} (hcanonical : (laneZ points lane stride j).Canonical)
    (hproduct : product.Denotes (laneProduct points lane stride j)) :
    (if laneZ points lane stride j ≠ .zero then product.mulMod (laneZ points lane stride j)
      else product).Denotes (laneProduct points lane stride (j + 1)) := by
  rw [laneProduct, productBefore_succ]
  by_cases hz : laneZ points lane stride j = .zero
  · rw [if_neg (not_not.mpr hz), if_pos ((Field.residue_eq_zero hcanonical).mpr hz), mul_one]
    exact hproduct
  · rw [if_pos hz, if_neg ((Field.residue_eq_zero hcanonical).not.mpr hz)]
    exact hproduct.mul ⟨hcanonical, rfl⟩

/-- The first loop: a list of products, one for each candidate that the lane has. -/
lemma prefixes_spec (n j : ℕ) {product : Field}
    (hcanonical : ∀ i, lane + i * stride < count → (laneZ points lane stride i).Canonical)
    (hproduct : product.Denotes (laneProduct points lane stride j)) {l : List Field} {total : Field}
    (h : Gpu.prefixes points lane stride count n j product = (l, total)) :
    (∀ i < n, i < l.length ↔ lane + (j + i) * stride < count) ∧
      (∀ i < l.length, lane + (j + i) * stride < count) ∧
      (∀ i < l.length, (l.getD i .one).Denotes (laneProduct points lane stride (j + i))) ∧
      total.Denotes (laneProduct points lane stride (j + l.length)) := by
  induction n generalizing j product l total with
  | zero =>
    obtain ⟨rfl, rfl⟩ := Prod.mk.inj h
    exact ⟨by simp, by simp, by simp, hproduct⟩
  | succ n ih =>
    rw [Gpu.prefixes] at h
    dsimp only at h
    by_cases hc : lane + j * stride ≥ count
    · rw [if_pos hc] at h
      obtain ⟨rfl, rfl⟩ := Prod.mk.inj h
      refine ⟨fun i _ => ?_, by simp, by simp, hproduct⟩
      have hmul : j * stride ≤ (j + i) * stride := Nat.mul_le_mul_right _ (by omega)
      simp only [List.length_nil]
      omega
    · obtain ⟨⟨rest, _⟩, hrest⟩ : ∃ rest, Gpu.prefixes points lane stride count n (j + 1)
        (if laneZ points lane stride j ≠ .zero then product.mulMod (laneZ points lane stride j)
          else product) = rest := ⟨_, rfl⟩
      rw [if_neg hc] at h
      obtain ⟨rfl, rfl⟩ := Prod.mk.inj (h.symm.trans (congrArg (fun r => (product :: r.1, r.2)) hrest))
      obtain ⟨hiff, hlt, hprefix, htotal⟩ :=
        ih (j + 1) (laneProduct_step (hcanonical j (by omega)) hproduct) hrest
      have hadd (i : ℕ) : j + 1 + i = j + (i + 1) := by omega
      simp only [hadd] at hiff hlt hprefix htotal
      refine ⟨fun i hi => ?_, fun i hi => ?_, fun i hi => ?_, htotal⟩
      · cases i with
        | zero => simpa using hc
        | succ i => simpa using hiff i (by omega)
      · cases i with
        | zero => simpa using hc
        | succ i => exact hlt i (by simpa using hi)
      · cases i with
        | zero => exact hproduct
        | succ i => exact hprefix i (by simpa using hi)

/-- With the inverse of a product, the inverse of its last coordinate and of the product before. -/
lemma laneProduct_inverse {j : ℕ} {before inverse : Field}
    (hcanonical : (laneZ points lane stride j).Canonical) (hz : laneZ points lane stride j ≠ .zero)
    (hbefore : before.Denotes (laneProduct points lane stride j))
    (hinverse : inverse.Denotes (laneProduct points lane stride (j + 1))⁻¹) :
    inverse.mulMod before = (laneZ points lane stride j).inverse ∧
      (inverse.mulMod (laneZ points lane stride j)).Denotes (laneProduct points lane stride j)⁻¹ := by
  have hne := (Field.residue_eq_zero hcanonical).not.mpr hz
  have hproduct := productBefore_ne_zero (fun i => (laneZ points lane stride i).residue) j
  rw [laneProduct, productBefore_succ, if_neg hne, ← laneProduct] at hinverse
  rw [← laneProduct] at hproduct
  constructor
  · refine Field.eq_of_residue_eq (Field.canonical_mulMod _ _) (Field.canonical_inverse _) ?_
    rw [Field.residue_mulMod, Field.residue_inverse, hinverse.residue_eq, hbefore.residue_eq]
    field_simp
  · refine (hinverse.mul ⟨hcanonical, rfl⟩).congr ?_
    field_simp

end Lane

/-! ## A lane's signatures -/

/-- What the outputs hold for a candidate. -/
def Gpu.Signatures.parts (out : Gpu.Signatures) (candidate : ℕ) :
    ByteVec 32 × ByteVec 32 × ByteVec 32 :=
  (out.signatures.readBytes (candidate * 64) 32, out.signatures.readBytes (candidate * 64 + 32) 32,
    out.negatedS.readBytes (candidate * 32) 32)

lemma parts_writeParts_self (out : Gpu.Signatures) (candidate : ℕ)
    (parts : ByteVec 32 × ByteVec 32 × ByteVec 32) :
    (Gpu.writeParts out candidate parts).parts candidate = parts := by
  rw [Gpu.Signatures.parts, Gpu.writeParts]
  dsimp only
  rw [Memory.readBytes_write_of_disjoint, Memory.readBytes_write_self, Memory.readBytes_write_self,
    Memory.readBytes_write_self]
  exact .inl le_rfl

lemma parts_writeParts_of_ne (out : Gpu.Signatures) {candidate candidate' : ℕ}
    (parts : ByteVec 32 × ByteVec 32 × ByteVec 32) (h : candidate ≠ candidate') :
    (Gpu.writeParts out candidate' parts).parts candidate = out.parts candidate := by
  rw [Gpu.Signatures.parts, Gpu.Signatures.parts, Gpu.writeParts]
  dsimp only
  rw [Memory.readBytes_write_of_disjoint, Memory.readBytes_write_of_disjoint,
    Memory.readBytes_write_of_disjoint, Memory.readBytes_write_of_disjoint,
    Memory.readBytes_write_of_disjoint]
  all_goals
    rw [ByteVec.length_bytes]
    omega

section Lane

variable {inputs : Gpu.SigningInputs} {lane stride count : ℕ} {products : List Field}

/-- A candidate is signed as it would be alone. -/
def SignedAlone (inputs : Gpu.SigningInputs) (out : Gpu.Signatures) (candidate : ℕ) : Prop :=
  (pointAt inputs.points candidate).z ≠ .zero →
    out.parts candidate =
      Gpu.candidateParts inputs candidate (pointAt inputs.points candidate).z.inverse

/-- The second loop, over the first `n` candidates of a lane. -/
lemma signSteps_spec (hstride : 0 < stride) (n : ℕ)
    (hcanonical : ∀ j < n, (laneZ inputs.points lane stride j).Canonical)
    (hproducts : ∀ j < n, (products.getD j .one).Denotes (laneProduct inputs.points lane stride j))
    (state : Gpu.Signatures × Field)
    (hinverse : state.2.Denotes (laneProduct inputs.points lane stride n)⁻¹) :
    (∀ j < n, SignedAlone inputs ((List.range n).reverse.foldl
      (Gpu.signStep inputs lane stride products) state).1 (lane + j * stride)) ∧
    ∀ candidate, (∀ j < n, candidate ≠ lane + j * stride) →
      ((List.range n).reverse.foldl (Gpu.signStep inputs lane stride products) state).1.parts
        candidate = state.1.parts candidate := by
  induction n generalizing state with
  | zero => exact ⟨by simp, fun _ _ => rfl⟩
  | succ n ih =>
    rw [List.range_succ, List.reverse_append, List.reverse_singleton, List.singleton_append,
      List.foldl_cons]
    have hz_canonical := hcanonical n (by omega)
    -- the places of the lane's candidates differ
    have hplaces : ∀ j < n, lane + n * stride ≠ lane + j * stride := by
      intro j hj heq
      exact absurd (Nat.eq_of_mul_eq_mul_right hstride (Nat.add_left_cancel heq)) hj.ne'
    by_cases hz : laneZ inputs.points lane stride n = .zero
    · have hstep : Gpu.signStep inputs lane stride products state n = state := if_pos hz
      have hsame : state.2.Denotes (laneProduct inputs.points lane stride n)⁻¹ := by
        rwa [laneProduct, productBefore_succ, if_pos ((Field.residue_eq_zero hz_canonical).mpr hz),
          mul_one] at hinverse
      rw [hstep]
      obtain ⟨hsigned, hframe⟩ := ih (fun j hj => hcanonical j (by omega))
        (fun j hj => hproducts j (by omega)) state hsame
      refine ⟨fun j hj => ?_, fun candidate hne => hframe candidate fun j hj => hne j (by omega)⟩
      rcases Nat.lt_succ_iff_lt_or_eq.mp hj with hlt | rfl
      · exact hsigned j hlt
      · exact fun hne => absurd hz hne
    · obtain ⟨hzInverse, hnext⟩ := laneProduct_inverse hz_canonical hz (hproducts n (by omega)) hinverse
      obtain ⟨out, hout⟩ : ∃ out, Gpu.writeParts state.1 (lane + n * stride)
        (Gpu.candidateParts inputs (lane + n * stride) (laneZ inputs.points lane stride n).inverse) =
        out := ⟨_, rfl⟩
      obtain ⟨inverse, hinverse'⟩ : ∃ inverse,
        state.2.mulMod (laneZ inputs.points lane stride n) = inverse := ⟨_, rfl⟩
      have hstep : Gpu.signStep inputs lane stride products state n = (out, inverse) := by
        rw [← hout, ← hzInverse, ← hinverse']
        exact if_neg hz
      rw [hinverse'] at hnext
      rw [hstep]
      obtain ⟨hsigned, hframe⟩ := ih (fun j hj => hcanonical j (by omega))
        (fun j hj => hproducts j (by omega)) (out, inverse) hnext
      refine ⟨fun j hj => ?_, fun candidate hne => ?_⟩
      · rcases Nat.lt_succ_iff_lt_or_eq.mp hj with hlt | rfl
        · exact hsigned j hlt
        · intro _
          rw [hframe _ hplaces, ← hout]
          exact parts_writeParts_self _ _ _
      · rw [hframe candidate fun j hj => hne j (by omega), ← hout]
        exact parts_writeParts_of_ne _ _ (hne n (by omega))

variable {perThread : ℕ}

/-- A lane signs its own candidates, and leaves those of the others. -/
lemma c1_lane (hcount : count ≤ min perThread 16 * stride)
    (hcanonical : ∀ candidate < count, (pointAt inputs.points candidate).z.Canonical)
    (out : Gpu.Signatures) (lane : Fin stride) :
    (∀ candidate < count, candidate % stride = lane →
      SignedAlone inputs (Gpu.c1SchnorrDualBatched inputs count perThread stride out lane) candidate) ∧
    ∀ candidate, candidate % stride ≠ lane →
      (Gpu.c1SchnorrDualBatched inputs count perThread stride out lane).parts candidate =
        out.parts candidate := by
  have hstride := lane.pos
  obtain ⟨⟨products, total⟩, hfirst⟩ : ∃ first, Gpu.prefixes inputs.points lane stride count
    (min perThread 16) 0 .one = first := ⟨_, rfl⟩
  have hone : Field.one.Denotes (laneProduct inputs.points lane stride 0) := .one
  obtain ⟨hiff, hlt, hprefix, htotal⟩ :=
    prefixes_spec _ 0 (fun i hi => hcanonical _ hi) hone hfirst
  simp only [Nat.zero_add] at hiff hlt hprefix htotal
  obtain ⟨hsigned, hframe⟩ := signSteps_spec hstride products.length
    (fun j hj => hcanonical _ (hlt j hj)) hprefix (out, total.inverse) htotal.inverse
  have hresult : Gpu.c1SchnorrDualBatched inputs count perThread stride out lane =
      ((List.range products.length).reverse.foldl (Gpu.signStep inputs lane stride products)
        (out, total.inverse)).1 := by
    rw [Gpu.c1SchnorrDualBatched, hfirst]
    by_cases hzero : products.length = 0
    · rw [if_pos hzero, hzero]
      rfl
    · exact if_neg hzero
  rw [hresult]
  refine ⟨fun candidate hcandidate hmod => ?_, fun candidate hmod => hframe candidate fun j _ heq => ?_⟩
  · have hplace : lane + candidate / stride * stride = candidate := by
      rw [← hmod, mul_comm]
      exact Nat.mod_add_div _ _
    have hj : candidate / stride < min perThread 16 :=
      Nat.div_lt_of_lt_mul ((mul_comm stride _).symm ▸ hcandidate.trans_le hcount)
    have h := hsigned (candidate / stride) ((hiff _ hj).mpr (by rwa [hplace]))
    rwa [hplace] at h
  · rw [heq, Nat.add_mul_mod_self_right, Nat.mod_eq_of_lt lane.isLt] at hmod
    exact hmod rfl

/-- Every candidate of a launch is signed as it would be alone, in any order of the lanes. -/
theorem c1_signedAlone (hcount : count ≤ min perThread 16 * stride) (hstride : 0 < stride)
    (hcanonical : ∀ candidate < count, (pointAt inputs.points candidate).z.Canonical)
    {order : List (Fin stride)} (horder : ∀ lane, lane ∈ order) (out : Gpu.Signatures) {candidate : ℕ}
    (hcandidate : candidate < count) :
    SignedAlone inputs (order.foldl (Gpu.c1SchnorrDualBatched inputs count perThread stride) out)
      candidate := by
  have h := launch_establishes (t := ⟨candidate % stride, Nat.mod_lt _ hstride⟩)
    (fun (lane : Fin stride) out => ∀ i < count, i % stride = lane → SignedAlone inputs out i)
    (fun lane out => (c1_lane hcount hcanonical out lane).1)
    (fun lane lane' out hne hsigned i hi hi_lane hz =>
      ((c1_lane hcount hcanonical out lane').2 i fun heq => hne (Fin.ext (hi_lane.symm.trans heq))).trans
        (hsigned i hi hi_lane hz))
    (horder _) out
  exact h candidate hcandidate rfl

end Lane

/-! ## What is signed -/

section Signs

variable {inputs : Gpu.SigningInputs} {privateKey : ByteVec 32} {candidate k : ℕ} {x y : Field}

/-- The stage's inputs hold the table of a key. -/
def HoldsKey (inputs : Gpu.SigningInputs) (privateKey : ByteVec 32) : Prop :=
  (inputs.fixedD.read ((31 * 256 + 128) * 8) 8 : Words 8) =
    (Gpu.fixedDTable privateKey).read ((31 * 256 + 128) * 8) 8

/-- The key in Montgomery form. -/
lemma dMontgomery_modEq (hkey : HoldsKey inputs privateKey) :
    (Gpu.dMontgomery inputs).value ≡ 2 ^ 256 * fromBe privateKey.bytes [MOD order] := by
  have hvalue : Words.value ((Gpu.fixedDTable privateKey).read ((31 * 256 + 128) * 8) 8 : Words 8) =
      256 ^ 31 * fromBe privateKey.bytes * 128 % order :=
    fixedDTable_read privateKey (by norm_num) (by norm_num) (by norm_num)
  rw [← hkey] at hvalue
  obtain ⟨half, hhalf⟩ : ∃ half : Scalar, (⟨inputs.fixedD.read ((31 * 256 + 128) * 8) 8⟩ : Scalar) =
    half := ⟨_, rfl⟩
  have hhalf_value : half.value = 256 ^ 31 * fromBe privateKey.bytes * 128 % order := by
    rw [← hhalf]
    exact hvalue
  have hcanonical : half.Canonical := by
    rw [Scalar.Canonical, hhalf_value]
    exact Nat.mod_lt _ order_prime.pos
  rw [Gpu.dMontgomery, hhalf, Scalar.addMod_eq hcanonical hcanonical, Scalar.value_ofNat, hhalf_value, Nat.ModEq, Nat.mod_mod,
    ← Nat.add_mod]
  congr 1
  ring

/-- A product with the key, out of Montgomery form. -/
lemma montgomeryMul_dMontgomery (hkey : HoldsKey inputs privateKey) {e : Scalar} (he : e.Canonical) :
    e.montgomeryMul (Gpu.dMontgomery inputs) = .ofNat (e.value * fromBe privateKey.bytes) := by
  obtain ⟨hcanonical, hmod⟩ := Scalar.montgomeryMul_spec he (Gpu.dMontgomery inputs)
  refine Scalar.eq_of_modEq hcanonical (Scalar.canonical_ofNat _) hmod ?_
  calc
    (Scalar.ofNat (e.value * fromBe privateKey.bytes)).value * 2 ^ 256 ≡
        e.value * fromBe privateKey.bytes * 2 ^ 256 [MOD order] := by
      rw [Scalar.value_ofNat]
      exact (Nat.mod_modEq _ _).mul_right _
    _ = e.value * (2 ^ 256 * fromBe privateKey.bytes) := by ring
    _ ≡ e.value * (Gpu.dMontgomery inputs).value [MOD order] := (dMontgomery_modEq hkey).symm.mul_left _

/-- Of the two signatures of a candidate, one is the signature under its nonce. -/
lemma candidateParts_signs (hkey : HoldsKey inputs privateKey)
    (hk : fromBe (inputs.scalars.readBytes (candidate * 32) 32).bytes = k) (hlt : k < order)
    (h : (pointAt inputs.points candidate).Represents (k • G)) (hxy : Coordinates x y (k • G))
    {parts : ByteVec 32 × ByteVec 32 × ByteVec 32}
    (hparts : Gpu.candidateParts inputs candidate (pointAt inputs.points candidate).z.inverse = parts) :
    Signs inputs.publicKey (fromBe privateKey.bytes) (inputs.messages.readBytes (candidate * 32) 32) k
      (Crypto.joined parts.1 (if (pointAt inputs.points candidate).y.mulMod
        (pointAt inputs.points candidate).z |>.isSquare then parts.2.1 else parts.2.2)) := by
  obtain ⟨-, -, hx, -, hsquare⟩ := h.coordinates hxy
  obtain ⟨square, hsq⟩ : ∃ square, ((pointAt inputs.points candidate).y.mulMod
    (pointAt inputs.points candidate).z).isSquare = square := ⟨_, rfl⟩
  have hres : square = Crypto.yIsQuadraticResidue y.toBeBytes := by
    rw [Bool.eq_iff_iff, yIsQuadraticResidue_iff hxy.canonical_y, ← hsquare, ← hsq]
    exact Field.isSquare_iff (Field.canonical_mulMod _ _)
  have hk_value := Scalar.value_fromBeBytes (hk.symm ▸ hlt)
  have hk_canonical := Scalar.canonical_fromBeBytes (inputs.scalars.readBytes (candidate * 32) 32)
  rw [hk] at hk_value
  obtain ⟨c, hc⟩ : ∃ c, fromBe (Crypto.challenge x.toBeBytes inputs.publicKey
    (inputs.messages.readBytes (candidate * 32) 32)).bytes = c := ⟨_, rfl⟩
  have he : Scalar.fromBeBytes (Sha256.challenge x.toBeBytes inputs.publicKey
      (inputs.messages.readBytes (candidate * 32) 32)) = .ofNat c := by
    rw [challenge_eq, Scalar.fromBeBytes_eq, hc]
  have hvalue := Sign.value_addMod_product hk_canonical c (fromBe privateKey.bytes) square
  rw [hk_value] at hvalue
  rw [Gpu.candidateParts, hx, he, montgomeryMul_dMontgomery hkey (Scalar.canonical_ofNat c),
    Scalar.value_ofNat] at hparts
  rw [hsq, ← hparts]
  refine ⟨x, y, _, hxy, rfl, ?_⟩
  rw [hc, ← hres, ← hvalue]
  split_ifs
  · exact Scalar.fromBe_toBeBytes _
  · exact Scalar.fromBe_toBeBytes _

end Signs

end Pickaxe.Engine
