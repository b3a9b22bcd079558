/-
# The transaction of a candidate

No engine writes a candidate's transaction out.  It goes on from the hash of the bytes that a job
fixes, and reads every later byte, and the padding, off the template, the nonce and the signature.
What it hashes is the transaction with the nonce and the signature in their places.
-/
import Pickaxe.Engine.Hmac
import Pickaxe.Engine.Meets
import Pickaxe.Lib.Memory

namespace Pickaxe.Engine

open Lib Sha256

/-! ## Code -/

namespace Gpu

/-- The byte of `tx_block` at a place. -/
def txByte (shift : ℕ) (incremental : Bool) (template : Memory UInt8) (r s : ByteVec 32)
    (nonce : UInt32) (pos : ℕ) : UInt8 :=
  let signature := 426 + shift
  let length := 615 + shift
  if incremental = false ∧ 390 + shift ≤ pos ∧ pos < 394 + shift then
    (u32Le nonce).getD (pos - 390 - shift) 0
  else if signature ≤ pos ∧ pos < signature + 32 then r.bytes.getD (pos - signature) 0
  else if signature + 32 ≤ pos ∧ pos < signature + 64 then s.bytes.getD (pos - signature - 32) 0
  else if pos < length then template pos
  else if pos = length then 0x80
  else if 632 ≤ pos then UInt8.ofNat ((length * 8) >>> ((639 - pos) * 8))
  else 0

/-- `tx_block`. -/
def txBlock (shift : ℕ) (incremental : Bool) (block : ℕ) (template : Memory UInt8)
    (r s : ByteVec 32) (nonce : UInt32) : Words 16 :=
  let byte := txByte shift incremental template r s nonce
  .ofFn 16 fun i => fromBeBytes (byte (block * 64 + i * 4)) (byte (block * 64 + i * 4 + 1))
    (byte (block * 64 + i * 4 + 2)) (byte (block * 64 + i * 4 + 3))

/-- `finish_hash`. -/
def finishHash (shift : ℕ) (incremental : Bool) (state : Words 8) (template : Memory UInt8)
    (r s : ByteVec 32) (nonce : UInt32) : Hash :=
  hashState ((List.range' 7 3).foldl
    (fun state block => compress state (txBlock shift incremental block template r s nonce)) state)

/-- `transaction_midstate`. -/
def transactionMidstate (template : Bytes) : Words 8 :=
  (List.range 6).foldl
    (fun state i => compress state (beWords 16 (slice template (i * 64) (i * 64 + 64)))) INITIAL

end Gpu

namespace Window

open Meets

/-- The value of a place in `tx_word`. -/
def txValue (template : List UInt32) (shift length : ℕ) (nonce : UInt32) (r s : Words 8)
    (offset : ℕ) : UInt32 :=
  if offset < length then
    if 390 + shift ≤ offset ∧ offset < 394 + shift then
      (nonce >>> UInt32.ofNat (8 * (offset - 390 - shift))) &&& 0xff
    else if 426 + shift ≤ offset ∧ offset < 458 + shift then byte32 r (offset - 426 - shift)
    else if 458 + shift ≤ offset ∧ offset < 490 + shift then byte32 s (offset - 458 - shift)
    else byte template offset
  else if offset = length then 0x80
  else if 636 ≤ offset then
    ((UInt32.ofNat length * 8) >>> UInt32.ofNat ((639 - offset) * 8)) &&& 0xff
  else 0

/-- `tx_word`. -/
def txWord (template : List UInt32) (shift length : ℕ) (nonce : UInt32) (r s : Words 8) (w : ℕ) :
    UInt32 :=
  (List.range 4).foldl
    (fun word b => (word <<< 8) ||| txValue template shift length nonce r s (384 + w * 4 + b)) 0

end Window

/-! ## Bytes put into others -/

/-- A byte string with bytes put in from a place on. -/
def splice (b : Bytes) (at_ : ℕ) (p : Bytes) : Bytes := b.take at_ ++ p ++ b.drop (at_ + p.length)

section Splice

variable {b p : Bytes} {at_ : ℕ}

lemma length_splice (h : at_ + p.length ≤ b.length) : (splice b at_ p).length = b.length := by
  rw [splice, List.length_append, List.length_append, List.length_take, List.length_drop]
  omega

lemma getD_splice (h : at_ + p.length ≤ b.length) (i : ℕ) :
    (splice b at_ p).getD i 0 =
      if at_ ≤ i ∧ i < at_ + p.length then p.getD (i - at_) 0 else b.getD i 0 := by
  have hhead : (b.take at_).length = at_ := by
    rw [List.length_take]
    omega
  have hprefix : (b.take at_ ++ p).length = at_ + p.length := by rw [List.length_append, hhead]
  rw [splice]
  rcases Nat.lt_or_ge i at_ with hlt | hge
  · rw [if_neg (by omega), List.append_assoc, List.getD_append _ _ _ _ (by omega),
      List.getD_eq_getElem?_getD, List.getElem?_take_of_lt hlt, List.getD_eq_getElem?_getD]
  rcases Nat.lt_or_ge i (at_ + p.length) with hin | hout
  · rw [if_pos ⟨hge, hin⟩, List.getD_append _ _ _ _ (by omega),
      List.getD_append_right _ _ _ _ (by omega), hhead]
  · rw [if_neg (by omega), List.getD_append_right _ _ _ _ (by omega), hprefix,
      List.getD_eq_getElem?_getD, List.getElem?_drop, List.getD_eq_getElem?_getD,
      Nat.add_sub_cancel' hout]

lemma take_splice {n : ℕ} (h : at_ + p.length ≤ b.length) (hn : n ≤ at_) :
    (splice b at_ p).take n = b.take n := by
  have hhead : n ≤ (b.take at_).length := by
    rw [List.length_take]
    omega
  rw [splice, List.append_assoc, List.take_append_of_le_length hhead, List.take_take,
    Nat.min_eq_left hn]

end Splice

/-! ## The finished transaction -/

/-- A template with a nonce and a signature in their places. -/
def finished (shift : ℕ) (template nonce sig : Bytes) : Bytes :=
  splice (splice template (390 + shift) nonce) (426 + shift) sig

section Finished

variable {shift : ℕ} {template nonce sig : Bytes}

/-- What a layout says of the lengths. -/
structure Fits (shift : ℕ) (template nonce sig : Bytes) : Prop where
  shift_le : shift ≤ 16
  template : template.length = 615 + shift
  nonce : nonce.length = 4
  sig : sig.length = 64

namespace Fits

lemma nonce_fits (h : Fits shift template nonce sig) :
    390 + shift + nonce.length ≤ template.length := by
  rw [h.nonce, h.template]
  omega

lemma sig_fits (h : Fits shift template nonce sig) :
    426 + shift + sig.length ≤ (splice template (390 + shift) nonce).length := by
  rw [length_splice h.nonce_fits, h.sig, h.template]
  omega

lemma length_finished (h : Fits shift template nonce sig) :
    (finished shift template nonce sig).length = 615 + shift := by
  rw [finished, length_splice h.sig_fits, length_splice h.nonce_fits, h.template]

lemma getD_finished (h : Fits shift template nonce sig) (i : ℕ) :
    (finished shift template nonce sig).getD i 0 =
      if 426 + shift ≤ i ∧ i < 490 + shift then sig.getD (i - (426 + shift)) 0
      else if 390 + shift ≤ i ∧ i < 394 + shift then nonce.getD (i - (390 + shift)) 0
      else template.getD i 0 := by
  rw [finished, getD_splice h.sig_fits, getD_splice h.nonce_fits, h.sig, h.nonce,
    show 426 + shift + 64 = 490 + shift by omega, show 390 + shift + 4 = 394 + shift by omega]

lemma take_finished (h : Fits shift template nonce sig) :
    (finished shift template nonce sig).take 384 = template.take 384 := by
  rw [finished, take_splice h.sig_fits (by omega), take_splice h.nonce_fits (by omega)]

end Fits

end Finished

/-! ## Padding -/

lemma getD_leBytes {n i v : ℕ} (h : i < n) : (leBytes n v).getD i 0 = UInt8.ofNat (v / 256 ^ i) := by
  induction n generalizing i v with
  | zero => exact absurd h (Nat.not_lt_zero i)
  | succ n ih =>
    cases i with
    | zero => simp [leBytes]
    | succ i =>
      rw [leBytes, List.getD_cons_succ, ih (by omega), Nat.div_div_eq_div_mul, ← pow_succ']

lemma getD_beBytes {n i v : ℕ} (h : i < n) :
    (Lib.Sha256.beBytes n v).getD i 0 = UInt8.ofNat (v / 256 ^ (n - 1 - i)) := by
  have hlen : (leBytes n v).length = n := length_leBytes n v
  have hget := getD_leBytes (v := v) (show n - 1 - i < n by omega)
  rw [List.getD_eq_getElem _ _ (by omega)] at hget
  rw [Lib.Sha256.beBytes, ← hget, List.getD_eq_getElem _ _ (by simp [h]), List.getElem_reverse]
  simp only [hlen]

/-- The bytes of a padded message, ten blocks long. -/
lemma getD_pad {m : Bytes} {shift pos : ℕ} (hshift : shift ≤ 16) (hm : m.length = 615 + shift)
    (hpos : pos < 640) : (Lib.Sha256.pad m).getD pos 0 =
      if pos < 615 + shift then m.getD pos 0
      else if pos = 615 + shift then 0x80
      else if 632 ≤ pos then UInt8.ofNat (((615 + shift) * 8) >>> ((639 - pos) * 8))
      else 0 := by
  have hzeros : (119 - (615 + shift) % 64) % 64 = 16 - shift := by omega
  rw [Lib.Sha256.pad, hm, hzeros]
  rcases Nat.lt_or_ge pos (615 + shift) with hlt | hge
  · rw [if_pos hlt, List.append_assoc, List.append_assoc, List.getD_append _ _ _ _ (by omega)]
  rw [if_neg (by omega), List.append_assoc, List.append_assoc,
    List.getD_append_right _ _ _ _ (by omega), hm]
  rcases Nat.eq_or_lt_of_le hge with heq | hgt
  · rw [← heq, if_pos rfl, Nat.sub_self]
    rfl
  obtain ⟨k, rfl⟩ := Nat.exists_eq_add_of_lt hgt
  rw [if_neg (by omega), show 615 + shift + k + 1 - (615 + shift) = k + 1 by omega,
    List.singleton_append, List.getD_cons_succ]
  by_cases hlast : 632 ≤ 615 + shift + k + 1
  · rw [if_pos hlast, List.getD_append_right _ _ _ _ (by simp; omega), List.length_replicate,
      getD_beBytes (by omega), Nat.shiftRight_eq_div_pow, mul_comm 8,
      show 639 - (615 + shift + k + 1) = 8 - 1 - (k - (16 - shift)) by omega, pow_mul']
    rfl
  · rw [if_neg hlast, List.getD_append _ _ _ _ (by simp; omega), List.getD_eq_getElem _ _ (by simp; omega),
      List.getElem_replicate]

/-- A padded message of whole blocks hashes block by block. -/
lemma words_chunks {n : ℕ} {b : Bytes} (h : b.length = 64 * n) :
    Lib.Sha256.words b = ((List.range n).map fun i =>
      beWords 16 (slice b (i * 64) (i * 64 + 64))).flatMap fun block =>
        block.toList.map UInt32.toNat := by
  induction n generalizing b with
  | zero =>
    rw [List.length_eq_zero_iff.mp (by omega : b.length = 0)]
    rfl
  | succ n ih =>
    have htake : (b.take 64).length = 4 * 16 := by
      rw [List.length_take]
      omega
    have hdrop : (b.drop 64).length = 64 * n := by
      rw [List.length_drop]
      omega
    have hslice (i : ℕ) : slice (b.drop 64) (i * 64) (i * 64 + 64) =
        slice b ((i + 1) * 64) ((i + 1) * 64 + 64) := by
      rw [slice, slice, List.drop_drop, Nat.add_sub_cancel_left, Nat.add_sub_cancel_left,
        show 64 + i * 64 = (i + 1) * 64 by ring]
    conv_lhs => rw [← List.take_append_drop 64 b]
    rw [Lib.Sha256.words_append (by omega), ih hdrop, ← toNat_beWords htake, List.range_succ_eq_map,
      List.map_cons, List.flatMap_cons, List.map_map]
    simp only [hslice]
    rfl

/-! ## Blocks -/

/-- A buffer that begins with a byte string. -/
def Memory.Holds (m : Memory UInt8) (b : Bytes) : Prop := ∀ i < b.length, m i = b.getD i 0

/-- The nonce of a candidate: its own, or the template's where the signature varies instead. -/
def nonceBytes (shift : ℕ) (incremental : Bool) (template : Bytes) (nonce : UInt32) : Bytes :=
  if incremental then slice template (390 + shift) (394 + shift) else u32Le nonce

/-- What a candidate's transaction is. -/
def candidateTx (shift : ℕ) (incremental : Bool) (template : Bytes) (nonce : UInt32)
    (r s : ByteVec 32) : Bytes :=
  finished shift template (nonceBytes shift incremental template nonce) (r.bytes ++ s.bytes)

section Blocks

variable {shift : ℕ} {template : Bytes} (incremental : Bool) (nonce : UInt32) (r s : ByteVec 32)

lemma fits_candidate (hshift : shift ≤ 16) (hlen : template.length = 615 + shift) :
    Fits shift template (nonceBytes shift incremental template nonce) (r.bytes ++ s.bytes) where
  shift_le := hshift
  template := hlen
  nonce := by
    rw [nonceBytes]
    split_ifs
    · rw [length_slice (by omega)]
      omega
    · exact length_u32Le nonce
  sig := by simp

/-- The bytes that the engine makes up are those of the padded transaction. -/
lemma txByte_eq (hshift : shift ≤ 16) (hlen : template.length = 615 + shift) {memory : Memory UInt8}
    (hmemory : Memory.Holds memory template) {pos : ℕ} (hpos : pos < 640) :
    Gpu.txByte shift incremental memory r s nonce pos =
      (Lib.Sha256.pad (candidateTx shift incremental template nonce r s)).getD pos 0 := by
  have hfits := fits_candidate incremental nonce r s hshift hlen
  have hpad := getD_pad hshift hfits.length_finished hpos
  rw [candidateTx, Gpu.txByte]
  by_cases hnonce : 390 + shift ≤ pos ∧ pos < 394 + shift
  · have hlt : pos < 615 + shift := by omega
    have hsig : ¬(426 + shift ≤ pos ∧ pos < 490 + shift) := by omega
    rw [if_pos hlt] at hpad
    rw [hpad, hfits.getD_finished, if_neg hsig, if_pos hnonce, nonceBytes]
    cases incremental with
    | false =>
      rw [if_pos ⟨rfl, hnonce⟩, Nat.sub_sub]
      rfl
    | true =>
      have hr : ¬(426 + shift ≤ pos ∧ pos < 426 + shift + 32) := by omega
      have hs : ¬(426 + shift + 32 ≤ pos ∧ pos < 426 + shift + 64) := by omega
      rw [if_neg (fun h => Bool.true_eq_false_eq_False h.1), if_neg hr, if_neg hs, if_pos hlt,
        if_pos rfl, hmemory pos (by omega), slice, List.getD_eq_getElem?_getD,
        List.getD_eq_getElem?_getD, List.getElem?_take_of_lt (by omega), List.getElem?_drop,
        Nat.add_sub_cancel' hnonce.1]
  rw [if_neg (fun h => hnonce h.2)]
  rcases Nat.lt_or_ge pos (615 + shift) with hlt | hge
  · rw [if_pos hlt] at hpad
    rw [hpad, hfits.getD_finished, if_neg hnonce]
    by_cases hr : 426 + shift ≤ pos ∧ pos < 426 + shift + 32
    · have hsig : 426 + shift ≤ pos ∧ pos < 490 + shift := by omega
      rw [if_pos hr, if_pos hsig, List.getD_append _ _ _ _ (by simp; omega)]
    by_cases hs : 426 + shift + 32 ≤ pos ∧ pos < 426 + shift + 64
    · have hsig : 426 + shift ≤ pos ∧ pos < 490 + shift := by omega
      rw [if_neg hr, if_pos hs, if_pos hsig, List.getD_append_right _ _ _ _ (by simp; omega),
        ByteVec.length_bytes]
    · have hsig : ¬(426 + shift ≤ pos ∧ pos < 490 + shift) := by omega
      rw [if_neg hr, if_neg hs, if_neg hsig, if_pos hlt, hmemory pos (by omega)]
  · have hr : ¬(426 + shift ≤ pos ∧ pos < 426 + shift + 32) := by omega
    have hs : ¬(426 + shift + 32 ≤ pos ∧ pos < 426 + shift + 64) := by omega
    rw [hpad, if_neg hr, if_neg hs, if_neg hge.not_gt, if_neg hge.not_gt]

/-- A block of the padded transaction. -/
lemma txBlock_eq (hshift : shift ≤ 16) (hlen : template.length = 615 + shift) {memory : Memory UInt8}
    (hmemory : Memory.Holds memory template) {block : ℕ} (hblock : block < 10) :
    Gpu.txBlock shift incremental block memory r s nonce =
      beWords 16 (slice (Lib.Sha256.pad (candidateTx shift incremental template nonce r s))
        (block * 64) (block * 64 + 64)) := by
  have hslice (k : ℕ) (hk : k < 64) : (slice (Lib.Sha256.pad
      (candidateTx shift incremental template nonce r s)) (block * 64) (block * 64 + 64)).getD k 0 =
      Gpu.txByte shift incremental memory r s nonce (block * 64 + k) := by
    rw [txByte_eq incremental nonce r s hshift hlen hmemory (by omega), slice,
      List.getD_eq_getElem?_getD, List.getElem?_take_of_lt (by omega), List.getElem?_drop,
      List.getD_eq_getElem?_getD]
  refine Words.ext fun i hi => ?_
  rw [Gpu.txBlock, beWords, Words.word_ofFn hi, Words.word_ofFn hi, hslice _ (by omega),
    hslice _ (by omega), hslice _ (by omega), hslice _ (by omega)]
  rfl

/-- The engine hashes the candidate's transaction, from the state of the bytes that do not change. -/
theorem finishHash_eq (hshift : shift ≤ 16) (hlen : template.length = 615 + shift)
    {memory : Memory UInt8} (hmemory : Memory.Holds memory template) :
    Gpu.finishHash shift incremental (compress (Gpu.transactionMidstate template)
        (Gpu.txBlock shift incremental 6 memory r s nonce)) memory r s nonce =
      Lib.Sha256.digest (Lib.Sha256.digest
        (candidateTx shift incremental template nonce r s)).bytes := by
  have hfits := fits_candidate incremental nonce r s hshift hlen
  obtain ⟨m, hm⟩ : ∃ m, candidateTx shift incremental template nonce r s = m := ⟨_, rfl⟩
  have hlen_m : m.length = 615 + shift := by rw [← hm, candidateTx, hfits.length_finished]
  have htake : m.take 384 = template.take 384 := by rw [← hm, candidateTx, hfits.take_finished]
  have hlen_pad : (Lib.Sha256.pad m).length = 64 * 10 := by
    simp only [Lib.Sha256.pad, List.length_append, List.length_singleton, List.length_replicate,
      Lib.Sha256.length_beBytes, hlen_m]
    omega
  -- the first six blocks of the padding are the template's
  have hblock (i : ℕ) (hi : i < 6) : slice (Lib.Sha256.pad m) (i * 64) (i * 64 + 64) =
      slice template (i * 64) (i * 64 + 64) := by
    have hcut (b : Bytes) : slice b (i * 64) (i * 64 + 64) =
        slice (b.take 384) (i * 64) (i * 64 + 64) := by
      rw [slice, slice, List.drop_take, List.take_take, Nat.min_eq_left (by omega)]
    have hpad : (Lib.Sha256.pad m).take 384 = m.take 384 := by
      rw [Lib.Sha256.pad, List.append_assoc, List.append_assoc,
        List.take_append_of_le_length (by omega)]
    rw [hcut, hpad, htake, ← hcut]
  have hmidstate : (List.range 6).foldl (fun state i => compress state
      (beWords 16 (slice (Lib.Sha256.pad m) (i * 64) (i * 64 + 64)))) INITIAL =
      Gpu.transactionMidstate template := by
    rw [Gpu.transactionMidstate]
    refine List.foldl_ext _ _ _ fun state i hi => ?_
    rw [hblock i (List.mem_range.mp hi)]
  have hrange : List.range 10 = List.range 6 ++ 6 :: List.range' 7 3 := rfl
  have hblock (block : ℕ) (hblock : block < 10) :
      beWords 16 (slice (Lib.Sha256.pad m) (block * 64) (block * 64 + 64)) =
        Gpu.txBlock shift incremental block memory r s nonce := by
    rw [← hm, txBlock_eq incremental nonce r s hshift hlen hmemory hblock]
  have hlast (state : Words 8) : (List.range' 7 3).foldl (fun state i => compress state
      (beWords 16 (slice (Lib.Sha256.pad m) (i * 64) (i * 64 + 64)))) state =
      (List.range' 7 3).foldl
        (fun state block => compress state (Gpu.txBlock shift incremental block memory r s nonce))
        state := by
    refine List.foldl_ext _ _ _ fun state block hmem => ?_
    rw [hblock block (by simp only [List.mem_range'_1] at hmem; omega)]
  have hfirst : Lib.Sha256.digest m = bytes ((List.range' 7 3).foldl
      (fun state block => compress state (Gpu.txBlock shift incremental block memory r s nonce))
      (compress (Gpu.transactionMidstate template)
        (Gpu.txBlock shift incremental 6 memory r s nonce))) := by
    rw [digest_of_blocks _ (words_chunks hlen_pad), List.foldl_map, hrange, List.foldl_append,
      List.foldl_cons, hmidstate, hblock 6 (by omega), hlast]
  rw [hm, hfirst, Gpu.finishHash, hashState, digest_eq (ByteVec.length_bytes _) (words_bytes _)]

end Blocks

end Pickaxe.Engine
