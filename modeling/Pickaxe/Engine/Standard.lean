/-
# The standard's SHA-256

The plain rounds on machine words are the rounds of FIPS 180-4 on numbers.  A message of 32 bytes
fits one block, so its digest is one compression of its words (`digest_eq`), and its double
hash is `hash_state` of that.
-/
import Pickaxe.Basic
import Pickaxe.Engine.Compress
import Pickaxe.Lib.Sha256Block
import Mathlib.Data.List.GetD

namespace Pickaxe.Engine.Sha256

open Lib Lib.Rounds

/-- A state as the standard's numbers. -/
def toState (s : Words 8) : Lib.Sha256.State :=
  ⟨(s.word 0).toNat, (s.word 1).toNat, (s.word 2).toNat, (s.word 3).toNat, (s.word 4).toNat,
   (s.word 5).toNat, (s.word 6).toNat, (s.word 7).toNat⟩

lemma toState_initial : toState INITIAL = Lib.Sha256.initial := rfl

lemma roundConstants_eq :
    Lib.Sha256.roundConstants = (List.range 64).map fun i => (K.word i).toNat := rfl

/-! ## One round -/

lemma toNat_rotateRight (x : UInt32) {n : UInt32} (hpos : 0 < n.toNat) (hlt : n.toNat < 32) :
    (rotateRight x n).toNat = Lib.Sha256.rotr n.toNat x.toNat := by
  have hright : x.toNat >>> n.toNat < 2 ^ 32 := (Nat.shiftRight_le _ _).trans_lt x.toNat_lt
  have hsub : (32 - n).toNat = 32 - n.toNat :=
    UInt32.toNat_sub_of_le _ _ (UInt32.le_iff_toNat_le.mpr hlt.le)
  rw [rotateRight, UInt32.toNat_or, UInt32.toNat_shiftRight, UInt32.toNat_shiftLeft, hsub,
    Nat.mod_eq_of_lt hlt, Nat.mod_eq_of_lt (by omega : 32 - n.toNat < 32), Lib.Sha256.rotr,
    Nat.or_mod_two_pow, Nat.mod_eq_of_lt hright]

lemma toNat_choose (a b c : UInt32) :
    (choose a b c).toNat =
      (a.toNat &&& b.toNat) ^^^ ((2 ^ 32 - 1 - a.toNat) &&& c.toNat) := by
  rw [choose, UInt32.toNat_xor, UInt32.toNat_and, UInt32.toNat_and, UInt32.toNat_not]
  rfl

lemma toNat_maj (a b c : UInt32) :
    (maj a b c).toNat =
      (a.toNat &&& b.toNat) ^^^ (a.toNat &&& c.toNat) ^^^ (b.toNat &&& c.toNat) := by
  simp only [maj, UInt32.toNat_xor, UInt32.toNat_and]

/-- Three rotations of a word. -/
lemma toNat_rotations (x : UInt32) {k l m : UInt32} (hk : 0 < k.toNat ∧ k.toNat < 32)
    (hl : 0 < l.toNat ∧ l.toNat < 32) (hm : 0 < m.toNat ∧ m.toNat < 32) :
    (rotateRight x k ^^^ rotateRight x l ^^^ rotateRight x m).toNat =
      Lib.Sha256.rotr k.toNat x.toNat ^^^ Lib.Sha256.rotr l.toNat x.toNat ^^^
        Lib.Sha256.rotr m.toNat x.toNat := by
  rw [UInt32.toNat_xor, UInt32.toNat_xor, toNat_rotateRight x hk.1 hk.2,
    toNat_rotateRight x hl.1 hl.2, toNat_rotateRight x hm.1 hm.2]

/-- Two rotations and a shift. -/
lemma toNat_shifted (x : UInt32) {k l m : UInt32} (hk : 0 < k.toNat ∧ k.toNat < 32)
    (hl : 0 < l.toNat ∧ l.toNat < 32) (hm : m.toNat < 32) :
    (rotateRight x k ^^^ rotateRight x l ^^^ (x >>> m)).toNat =
      Lib.Sha256.rotr k.toNat x.toNat ^^^ Lib.Sha256.rotr l.toNat x.toNat ^^^
        (x.toNat >>> m.toNat) := by
  rw [UInt32.toNat_xor, UInt32.toNat_xor, toNat_rotateRight x hk.1 hk.2,
    toNat_rotateRight x hl.1 hl.2, UInt32.toNat_shiftRight, Nat.mod_eq_of_lt hm]

/-- A round adds modulo `2 ^ 32` after every term, the standard's once. -/
lemma toState_headRound (s : Words 8) (k w : UInt32) :
    toState (headRound s k w) = Lib.Sha256.round (toState s) (k.toNat + w.toNat) := by
  have hsum1 := toNat_rotations (s.word 4) (k := 6) (l := 11) (m := 25) (by decide) (by decide)
    (by decide)
  have hsum0 := toNat_rotations (s.word 0) (k := 2) (l := 13) (m := 22) (by decide) (by decide)
    (by decide)
  obtain ⟨t, ht⟩ : ∃ t, s.word 7 + sum1 (s.word 4) +
    choose (s.word 4) (s.word 5) (s.word 6) + k + w = t := ⟨_, rfl⟩
  have ht1 : t.toNat = ((s.word 7).toNat + (sum1 (s.word 4)).toNat +
      (choose (s.word 4) (s.word 5) (s.word 6)).toNat + (k.toNat + w.toNat)) % 2 ^ 32 := by
    rw [← ht]
    simp only [UInt32.toNat_add, Nat.mod_add_mod, Nat.add_assoc]
  have ha : ((headRound s k w).word 0).toNat =
      (Lib.Sha256.round (toState s) (k.toNat + w.toNat)).a := by
    have hword : (headRound s k w).word 0 =
        t + (sum0 (s.word 0) + maj (s.word 0) (s.word 1) (s.word 2)) := by
      rw [← ht]
      rfl
    rw [hword, UInt32.toNat_add, UInt32.toNat_add, ht1, Nat.mod_add_mod, Nat.add_mod_mod,
      ← Nat.add_assoc, sum0, sum1, hsum0, hsum1, toNat_choose, toNat_maj]
    rfl
  have he : ((headRound s k w).word 4).toNat =
      (Lib.Sha256.round (toState s) (k.toNat + w.toNat)).e := by
    have hword : (headRound s k w).word 4 = s.word 3 + t := by
      rw [← ht]
      rfl
    rw [hword, UInt32.toNat_add, ht1, Nat.add_mod_mod, sum1, hsum1, toNat_choose]
    rfl
  unfold toState at ha he ⊢
  rw [ha, he]
  rfl

/-- The rounds one after another. -/
lemma toState_plain (s : Words 8) (w : ℕ → UInt32) (n : ℕ) :
    toState (plain s w n) =
      (List.range n).foldl (fun s i => Lib.Sha256.round s ((K.word i).toNat + (w i).toNat))
        (toState s) := by
  induction n with
  | zero => rfl
  | succ n ih => rw [plain, toState_headRound, ih, List.range_succ, List.foldl_concat]

/-! ## The schedule -/

/-- The standard's window of sixteen words slides over the schedule. -/
lemma schedule_eq (block : Words 16) (n k : ℕ) :
    Lib.Sha256.schedule n ((List.range 16).map fun i => (words block (k + i)).toNat) =
      (List.range (n + 16)).map fun i => (words block (k + i)).toNat := by
  induction n generalizing k with
  | zero => rw [Lib.Sha256.schedule, Nat.zero_add]
  | succ n ih =>
    have hs0 := toNat_shifted (words block (k + 1)) (k := 7) (l := 18) (m := 3) (by decide)
      (by decide) (by decide)
    have hs1 := toNat_shifted (words block (k + 14)) (k := 17) (l := 19) (m := 10) (by decide)
      (by decide) (by decide)
    have hnext : (words block (k + 16)).toNat = ((words block k).toNat +
        (s0 (words block (k + 1))).toNat + (words block (k + 9)).toNat +
        (s1 (words block (k + 14))).toNat) % 2 ^ 32 := by
      rw [words, expand_add, next]
      simp only [UInt32.toNat_add, Nat.mod_add_mod]
    rw [s0, s1, hs0, hs1] at hnext
    -- the window after this one
    have htail : ((List.range 16).map fun i => (words block (k + i)).toNat).tail ++
        [(words block (k + 16)).toNat] =
        (List.range 16).map fun i => (words block (k + 1 + i)).toNat := by
      simp only [List.range_succ, List.range_zero, List.map_cons, List.map_nil, List.nil_append,
        List.cons_append, List.tail_cons, Nat.add_assoc, Nat.reduceAdd]
    have hcons : ((List.range (n + 1 + 16)).map fun i => (words block (k + i)).toNat) =
        (words block k).toNat ::
          (List.range (n + 16)).map fun i => (words block (k + 1 + i)).toNat := by
      rw [Nat.add_right_comm, List.range_succ_eq_map, List.map_cons, List.map_map]
      refine congrArg₂ _ rfl (List.map_congr_left fun i _ => ?_)
      change (words block (k + (i + 1))).toNat = _
      rw [Nat.add_comm i 1, Nat.add_assoc]
    rw [hcons, ← ih (k + 1), ← htail, hnext]
    rfl

/-! ## One block -/

lemma toNat_words (block : Words 16) :
    block.toList.map UInt32.toNat = (List.range 16).map fun i => (words block (0 + i)).toNat := by
  refine List.ext_getElem (by simp) fun i hi _ => ?_
  have hlt : i < 16 := by simpa using hi
  simp only [List.getElem_map, List.getElem_range, Nat.zero_add]
  rw [words, expand_of_lt hlt, Words.word, List.getD_eq_getElem _ _ (by simpa using hi)]

lemma toState_feedForward (state s : Words 8) :
    toState (feedForward state (load () s)) =
      ⟨((toState state).a + (toState s).a) % 2 ^ 32, ((toState state).b + (toState s).b) % 2 ^ 32,
       ((toState state).c + (toState s).c) % 2 ^ 32, ((toState state).d + (toState s).d) % 2 ^ 32,
       ((toState state).e + (toState s).e) % 2 ^ 32, ((toState state).f + (toState s).f) % 2 ^ 32,
       ((toState state).g + (toState s).g) % 2 ^ 32,
       ((toState state).h + (toState s).h) % 2 ^ 32⟩ := by
  have h (i : ℕ) (hi : i < 8) : ((feedForward state (load () s)).word i).toNat =
      ((state.word i).toNat + (s.word i).toNat) % 2 ^ 32 := by
    rw [feedForward, Words.word_ofFn hi, registers_load, UInt32.toNat_add]
  unfold toState
  rw [h 0 (by decide), h 1 (by decide), h 2 (by decide), h 3 (by decide), h 4 (by decide),
    h 5 (by decide), h 6 (by decide), h 7 (by decide)]

/-- The engine's compression is the standard's. -/
theorem toState_compress (s : Words 8) (block : Words 16) :
    toState (compress s block) =
      Lib.Sha256.compress (toState s) (block.toList.map UInt32.toNat) := by
  have hrounds : (List.zipWith (· + ·) Lib.Sha256.roundConstants
      (Lib.Sha256.schedule 48 (block.toList.map UInt32.toNat))).foldl Lib.Sha256.round (toState s) =
      toState (plain s (words block) 64) := by
    rw [toNat_words, schedule_eq, roundConstants_eq, toState_plain, List.zipWith_map,
      List.zipWith_self, List.foldl_map]
    simp only [Nat.zero_add]
  rw [compress_eq, compressed, Lib.Sha256.compress, hrounds, toState_feedForward]

/-! ## Bytes -/

/-- The words of a byte string are the standard's. -/
lemma toNat_beWords {n : ℕ} {b : Bytes} (h : b.length = 4 * n) :
    (beWords n b).toList.map UInt32.toNat = Lib.Sha256.words b := by
  have hlen : (Lib.Sha256.words b).length = n := by
    rw [Lib.Sha256.length_words, h, Nat.mul_div_cancel_left _ (by decide)]
  refine List.ext_getElem (by simp [hlen]) fun i _ hi => ?_
  rw [Lib.Sha256.getElem_words hi]
  simp only [beWords, Words.ofFn, List.Vector.toList_mk, List.map_map, List.getElem_map,
    List.getElem_range, Function.comp_apply, toNat_fromBeBytes]

lemma beBytes_toNat (x : UInt32) :
    Lib.Sha256.beBytes 4 x.toNat =
      [(x >>> 24).toUInt8, (x >>> 16).toUInt8, (x >>> 8).toUInt8, (x >>> 0).toUInt8] := by
  have hbyte (k : UInt32) (n : ℕ) (hk : k.toNat < 32) (hn : n = x.toNat / 2 ^ k.toNat) :
      UInt8.ofNat n = (x >>> k).toUInt8 := by
    apply UInt8.toNat_inj.mp
    rw [UInt8.toNat_ofNat', UInt32.toNat_toUInt8, UInt32.toNat_shiftRight, Nat.mod_eq_of_lt hk,
      Nat.shiftRight_eq_div_pow, hn]
  rw [Lib.Sha256.beBytes_four, hbyte 24 _ (by decide) (by simp [Nat.div_div_eq_div_mul]),
    hbyte 16 _ (by decide) (by simp [Nat.div_div_eq_div_mul]), hbyte 8 (x.toNat / 256) (by decide) rfl,
    hbyte 0 _ (by decide) (by simp)]

lemma bytes_eq (s : Words 8) : (bytes s).bytes = (toState s).bytes := by
  simp only [Lib.Sha256.State.bytes, toState, beBytes_toNat]
  rfl

/-- A digest is the bytes of its words. -/
lemma bytes_eq_flatMap (s : Words 8) :
    (bytes s).bytes = s.toList.flatMap fun x => Lib.Sha256.beBytes 4 x.toNat := by
  conv_rhs => rw [← registers_load () s]
  simp only [bytes_eq, Lib.Sha256.State.bytes, List.append_assoc]
  rfl

lemma toNat_toList (s : Words 8) : s.toList.map UInt32.toNat =
    [(toState s).a, (toState s).b, (toState s).c, (toState s).d, (toState s).e, (toState s).f,
     (toState s).g, (toState s).h] := by
  conv_lhs => rw [← registers_load () s]
  rfl

lemma words_bytes (s : Words 8) :
    Lib.Sha256.words (bytes s).bytes = s.toList.map UInt32.toNat := by
  rw [bytes_eq, Lib.Sha256.words_bytes, toNat_toList]
  all_goals exact UInt32.toNat_lt _

/-! ## Digests of 32 bytes -/

/-- The digest of 32 bytes is one compression of their words. -/
theorem digest_eq {m : Bytes} {w : Words 8} (h : m.length = 32)
    (hw : Lib.Sha256.words m = w.toList.map UInt32.toNat) :
    Lib.Sha256.digest m = bytes (compress INITIAL (secondBlock w)) := by
  have hblock : Lib.Sha256.words (Lib.Sha256.pad m) =
      (secondBlock w).toList.map UInt32.toNat := by
    rw [Lib.Sha256.words_pad h, hw, secondBlock, List.Vector.toList_mk, List.map_append]
    rfl
  apply ByteVec.ext
  rw [Lib.Sha256.digest_of_le (by omega), bytes_eq, toState_compress, toState_initial, hblock]

/-- Their double hash is `hash_state` of it. -/
theorem doubleDigest_eq {m : Bytes} {w : Words 8} (h : m.length = 32)
    (hw : Lib.Sha256.words m = w.toList.map UInt32.toNat) :
    Lib.Sha256.digest (Lib.Sha256.digest m).bytes =
      hashState (compress INITIAL (secondBlock w)) := by
  rw [digest_eq h hw, digest_eq (ByteVec.length_bytes _) (words_bytes _), hashState]

end Pickaxe.Engine.Sha256
