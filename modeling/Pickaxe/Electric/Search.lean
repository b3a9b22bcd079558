/-
# The search for a proof

The miner looks for the nonce of an ELECTRIC claim on the CPU, which rewrites two padded blocks in
place, and on GPUs, which are given the message's words and a range.  Both find the first nonce of
the range whose double hash has as many leading zero bytes as the difficulty (`searches_agree`).
-/
import Pickaxe.Electric.Deployment
import Pickaxe.Engine.Electric
import Pickaxe.Lib.Result

namespace Pickaxe.Electric

open Lib

/-! ## The CPU -/

/-- `SHA256_IV`. -/
def sha256Iv : Words 8 :=
  ⟨[0x6a09e667, 0xbb67ae85, 0x3c6ef372, 0xa54ff53a, 0x510e527f, 0x9b05688c, 0x1f83d9ab, 0x5be0cd19],
   by decide⟩

/-- Bytes written over those of an array from `i` on. -/
def overwrite {n k : ℕ} (block : ByteVec n) (i : ℕ) (v : ByteVec k) (h : i + k ≤ n) : ByteVec n :=
  ⟨block.bytes.take i ++ v.bytes ++ block.bytes.drop (i + k), by
    simp only [List.length_append, List.length_take, List.length_drop, ByteVec.length_bytes]
    omega⟩

/-- What follows 32 bytes in their block: `0x80`, zeros and the length in bits. -/
def padding : Bytes := 0x80 :: (List.replicate 29 0 ++ [0x01, 0])

/-- The block of 32 bytes. -/
def paddedBlock (m : Bytes) (h : m.length = 32) : ByteVec 64 :=
  ⟨m ++ padding, by simp [h, padding]⟩

lemma length_preimage (lastHeight : UInt32) (pkh : ByteVec 20) (nonce : UInt64) :
    (preimage lastHeight pkh (u64Le nonce)).length = 32 := by
  simp [preimage]

section
variable (compress256 : Words 8 → List (ByteVec 64) → Words 8)

/-- The loop of `search`, over the last `n` offsets. -/
def searchFrom (start : UInt64) (words : ℕ) (bits : UInt32) :
    ℕ → UInt64 → ByteVec 64 → ByteVec 64 → Option UInt64
  | 0, _, _, _ => none
  | n + 1, offset, first, second =>
    let nonce := start + offset
    let first := overwrite first 24 ⟨u64Le nonce, length_u64Le nonce⟩ (by decide)
    let state := compress256 sha256Iv [first]
    let second := overwrite second 0 (Engine.Sha256.bytes state) (by decide)
    let digest := compress256 sha256Iv [second]
    if (digest.toList.take words).all (· == 0) &&
        (bits == 0 || digest.word words >>> (32 - bits) == 0) then some nonce
    else searchFrom start words bits n (offset + 1) first second

/-- `search`: the first nonce in `start..start + count` whose proof meets the difficulty. -/
def search (lastHeight : UInt32) (pkh : ByteVec 20) (difficulty : UInt8) (start count : UInt64) :
    Option UInt64 :=
  if 32 < difficulty then none
  else
    searchFrom compress256 start (difficulty / 4).toNat ((difficulty % 4).toUInt32 * 8)
      count.toNat 0 (paddedBlock (preimage lastHeight pkh (u64Le 0)) (length_preimage _ _ _))
      (paddedBlock (List.replicate 32 0) List.length_replicate)

end

/-! ## The GPU's host -/

/-- `MAX_BATCH`. -/
def maxBatch : UInt32 := (1 : UInt32) <<< 20

/-- `control`: the words the kernel is given. -/
def control (height : UInt32) (pkh : ByteVec 20) (difficulty : UInt8) (base : UInt64)
    (count : UInt32) : Except String (Words 10) :=
  if count = 0 ∨ maxBatch < count ∨ 32 < difficulty then
    .error "invalid ELECTRIC GPU work range or difficulty"
  else
    let bytes := preimage height pkh (u64Le base)
    .ok ⟨(Engine.Sha256.beWords 6 (bytes.take 24)).toList ++
      [base.toUInt32, (base >>> 32).toUInt32, count, difficulty.toUInt32], by simp⟩

variable [Hasher]

/-- `Engine::search`, on a device that runs the kernel by `dispatch`. -/
def gpuSearch (dispatch : Words 10 → Except String (List UInt32)) (height : UInt32)
    (pkh : ByteVec 20) (difficulty : UInt8) (base : UInt64) (count : UInt32) :
    Except String (Option UInt64) := do
  let control ← control height pkh difficulty base count
  let result ← dispatch control
  if result.length ≠ 2 ∨ result.getD 1 0 ≠ count then
    .error "ELECTRIC GPU did not complete the allocated work"
  else if result.getD 0 0 = 0xffffffff then .ok none
  else
    let nonce := base + (result.getD 0 0).toUInt64
    if count ≤ result.getD 0 0 ∨
        ¬ meets (doubleSha256 (preimage height pkh (u64Le nonce))) difficulty then
      .error "ELECTRIC GPU returned an invalid proof"
    else .ok (some nonce)

/-! ## What is looked for -/

/-- A nonce proves work at a difficulty: its double hash has as many leading zero bytes. -/
def Proves (lastHeight : UInt32) (pkh : ByteVec 20) (difficulty : UInt8) (nonce : UInt64) : Prop :=
  List.replicate difficulty.toNat 0 <+:
    (doubleSha256 (preimage lastHeight pkh (u64Le nonce))).bytes

instance (lastHeight : UInt32) (pkh : ByteVec 20) (difficulty : UInt8) (nonce : UInt64) :
    Decidable (Proves lastHeight pkh difficulty nonce) :=
  inferInstanceAs (Decidable (_ <+: _))

/-- What `sha2` documents: its hash and its compression function are the standard's. -/
structure Standard (compress256 : Words 8 → List (ByteVec 64) → Words 8) : Prop where
  sha256_eq : ∀ m, sha256 m = Lib.Sha256.digest m
  compress256_eq : ∀ (state : Words 8) (blocks : List (ByteVec 64)),
    Engine.Sha256.toState (compress256 state blocks) =
      blocks.foldl (fun s block => Lib.Sha256.compress s (Lib.Sha256.words block.bytes))
        (Engine.Sha256.toState state)

/-! ## The tests -/

omit [Hasher] in
/-- The host's test counts leading zero bytes. -/
lemma meets_iff_zeros (hash : Hash) (difficulty : UInt8) :
    meets hash difficulty = true ↔ List.replicate difficulty.toNat 0 <+: hash.bytes := by
  rw [meets, Bool.and_eq_true, decide_eq_true_eq, List.all_eq_true]
  constructor
  · rintro ⟨hle, hall⟩
    have htake : hash.bytes.take difficulty.toNat = List.replicate difficulty.toNat 0 :=
      List.eq_replicate_iff.mpr ⟨by simpa using hle, fun b hb => by simpa using hall b hb⟩
    rw [← htake]
    exact List.take_prefix _ _
  · intro hpre
    have hle := hpre.length_le
    rw [List.length_replicate] at hle
    refine ⟨hle, fun b hb => ?_⟩
    have htake := List.prefix_iff_eq_take.mp hpre
    rw [List.length_replicate] at htake
    rw [← htake] at hb
    simpa using List.eq_of_mem_replicate hb

omit [Hasher] in
/-- The device's test is the host's. -/
lemma meets_bytes (digest : Words 8) (difficulty : UInt8) :
    Engine.Electric.meets digest difficulty.toUInt32 =
      meets (Engine.Sha256.bytes digest) difficulty := by
  rw [Bool.eq_iff_iff, Engine.Electric.meets_iff, meets_iff_zeros, UInt8.toNat_toUInt32]

omit [Hasher] in
/-- The search's test, on the words that are left: whole words, then the bytes of one more. -/
lemma take_all_iff {words : List UInt32} {n : ℕ} (h : n ≤ 4 * words.length) :
    (∀ x ∈ words.take (n / 4), x = 0) ∧
        (n % 4 = 0 ∨ (words.getD (n / 4) 0).toNat < 2 ^ (32 - 8 * (n % 4))) ↔
      List.replicate n 0 <+: words.flatMap fun x => Lib.Sha256.beBytes 4 x.toNat := by
  induction words generalizing n with
  | nil =>
    obtain rfl : n = 0 := by simpa using h
    simp
  | cons x words ih =>
    have hx := x.toNat_lt
    rw [List.flatMap_cons, Engine.Electric.replicate_prefix_beBytes]
    rcases Nat.lt_or_ge n 4 with hlt | hge
    · rw [Nat.div_eq_of_lt hlt, Nat.mod_eq_of_lt hlt, Nat.min_eq_left hlt.le,
        Nat.sub_eq_zero_of_le hlt.le]
      rcases Nat.eq_zero_or_pos n with rfl | hpos
      · simpa using hx
      · simp [hpos.ne']
    · obtain ⟨n, rfl⟩ := Nat.exists_eq_add_of_le' hge
      have hrest := ih (n := n) (by rw [List.length_cons] at h; omega)
      have hzero : x.toNat < 1 ↔ x = 0 := by
        rw [Nat.lt_one_iff, ← UInt32.toNat_inj]
        rfl
      rw [Nat.add_div_right n (by decide), Nat.add_mod_right, Nat.min_eq_right (by omega),
        Nat.add_sub_cancel, ← hrest]
      simp only [List.take_succ_cons, List.forall_mem_cons,
        List.getD_cons_succ, Nat.reduceMul, Nat.sub_self, pow_zero, hzero, and_assoc]

omit [Hasher] in
lemma searchTest_iff (digest : Words 8) {difficulty : UInt8} (h : difficulty.toNat ≤ 32) :
    ((digest.toList.take (difficulty / 4).toNat).all (· == 0) &&
        ((difficulty % 4).toUInt32 * 8 == 0 ||
          digest.word (difficulty / 4).toNat >>> (32 - (difficulty % 4).toUInt32 * 8) == 0)) = true ↔
      List.replicate difficulty.toNat 0 <+: (Engine.Sha256.bytes digest).bytes := by
  have hwords : (difficulty / 4).toNat = difficulty.toNat / 4 := UInt8.toNat_div _ _
  have hbytes : (difficulty % 4).toUInt32.toNat = difficulty.toNat % 4 := by
    rw [UInt8.toNat_toUInt32, UInt8.toNat_mod]
    rfl
  obtain ⟨bytes, hb⟩ : ∃ bytes, (difficulty % 4).toUInt32 = bytes := ⟨_, rfl⟩
  rw [hb] at hbytes ⊢
  have hnone : bytes * 8 = 0 ↔ difficulty.toNat % 4 = 0 := by
    rw [← UInt32.toNat_inj, UInt32.toNat_mul, hbytes]
    change difficulty.toNat % 4 * 8 % 2 ^ 32 = 0 ↔ _
    omega
  have hshift : difficulty.toNat % 4 = 0 ∨
        digest.word (difficulty / 4).toNat >>> (32 - bytes * 8) = 0 ↔
      difficulty.toNat % 4 = 0 ∨ (digest.toList.getD (difficulty.toNat / 4) 0).toNat <
        2 ^ (32 - 8 * (difficulty.toNat % 4)) := by
    refine or_congr_right' fun hne => ?_
    rw [Engine.Electric.shiftRight_eq_zero_iff _ (by omega) (by omega), hbytes, hwords]
    rfl
  rw [Engine.Sha256.bytes_eq_flatMap, ← take_all_iff (by rw [digest.toList_length]; omega),
    Bool.and_eq_true, Bool.or_eq_true, beq_iff_eq, beq_iff_eq, hnone, hshift, List.all_eq_true,
    hwords]
  simp only [beq_iff_eq]

/-! ## The loop of the search -/

section
variable {compress256 : Words 8 → List (ByteVec 64) → Words 8}

omit [Hasher] in
lemma padding_eq {m : Bytes} (h : m.length = 32) : m ++ padding = Lib.Sha256.pad m :=
  (Lib.Sha256.pad_of_length h).symm

/-- A compressed block of 32 bytes is their hash. -/
lemma Standard.bytes_compress256 (h : Standard compress256) {block : ByteVec 64} {m : Bytes}
    (hlen : m.length = 32) (hblock : block.bytes = m ++ padding) :
    Engine.Sha256.bytes (compress256 sha256Iv [block]) = sha256 m := by
  apply ByteVec.ext
  rw [Engine.Sha256.bytes_eq, h.compress256_eq, h.sha256_eq, List.foldl_cons, List.foldl_nil,
    hblock, padding_eq hlen, Lib.Sha256.digest_of_le (by omega)]
  rfl

/-- The blocks between the turns: the message's with any nonce, and any digest's. -/
structure Ready (lastHeight : UInt32) (pkh : ByteVec 20) (first second : ByteVec 64) : Prop where
  take_first : first.bytes.take 24 = u32Le lastHeight ++ pkh.bytes
  drop_first : first.bytes.drop 32 = padding
  drop_second : second.bytes.drop 32 = padding

variable {lastHeight : UInt32} {pkh : ByteVec 20} {first second : ByteVec 64}

omit [Hasher] in
lemma Ready.bytes_first (hready : Ready lastHeight pkh first second) (nonce : UInt64) :
    (overwrite first 24 ⟨u64Le nonce, length_u64Le nonce⟩ (by decide)).bytes =
      preimage lastHeight pkh (u64Le nonce) ++ padding := by
  change first.bytes.take 24 ++ u64Le nonce ++ first.bytes.drop 32 = _
  rw [hready.take_first, hready.drop_first, preimage]

omit [Hasher] in
lemma Ready.bytes_second (hready : Ready lastHeight pkh first second) (v : Hash) :
    (overwrite second 0 v (by decide)).bytes = v.bytes ++ padding := by
  change second.bytes.take 0 ++ v.bytes ++ second.bytes.drop 32 = _
  rw [hready.drop_second]
  rfl

omit [Hasher] in
/-- A turn leaves the blocks ready for the next. -/
lemma Ready.step (hready : Ready lastHeight pkh first second) (nonce : UInt64) (v : Hash) :
    Ready lastHeight pkh (overwrite first 24 ⟨u64Le nonce, length_u64Le nonce⟩ (by decide))
      (overwrite second 0 v (by decide)) := by
  have hlen : (u32Le lastHeight ++ pkh.bytes).length = 24 := by simp
  have hfirst := hready.bytes_first nonce
  refine ⟨?_, ?_, ?_⟩
  · rw [hfirst, preimage, List.append_assoc, List.take_left' hlen]
  · rw [hfirst, List.drop_left' (length_preimage _ _ _)]
  · rw [hready.bytes_second v, List.drop_left' v.length_bytes]

/-- The loop tests every offset that is left, and stops at the first that proves work. -/
lemma searchFrom_eq (h : Standard compress256) {difficulty : UInt8} (hle : difficulty.toNat ≤ 32)
    (start : UInt64) (n : ℕ) (offset : UInt64) (hready : Ready lastHeight pkh first second) :
    searchFrom compress256 start (difficulty / 4).toNat ((difficulty % 4).toUInt32 * 8) n offset
        first second =
      ((List.range n).map fun i => start + (offset + UInt64.ofNat i)).find? fun nonce =>
        Proves lastHeight pkh difficulty nonce := by
  induction n generalizing offset first second with
  | zero => rfl
  | succ n ih =>
    obtain ⟨nonce, hnonce⟩ : ∃ nonce, start + offset = nonce := ⟨_, rfl⟩
    have hstate := h.bytes_compress256 (length_preimage _ _ _) (hready.bytes_first nonce)
    have hdigest := h.bytes_compress256 (ByteVec.length_bytes _) (hready.bytes_second
      (sha256 (preimage lastHeight pkh (u64Le nonce))))
    have hnext : (List.range (n + 1)).map (fun i => start + (offset + UInt64.ofNat i)) =
        nonce :: (List.range n).map fun i => start + (offset + 1 + UInt64.ofNat i) := by
      rw [List.range_succ_eq_map, List.map_cons, List.map_map]
      refine congrArg₂ _ ?_ (List.map_congr_left fun i _ => ?_)
      · rw [← hnonce]
        simp
      · change start + (offset + UInt64.ofNat (i + 1)) = _
        rw [UInt64.ofNat_add, UInt64.add_comm (UInt64.ofNat i), ← UInt64.add_assoc offset]
        rfl
    have htest := searchTest_iff (compress256 sha256Iv [overwrite second 0
      (sha256 (preimage lastHeight pkh (u64Le nonce))) (by decide)]) hle
    rw [hdigest] at htest
    rw [searchFrom, hnext, hnonce, List.find?_cons, hstate]
    by_cases hproves : Proves lastHeight pkh difficulty nonce
    · rw [if_pos (htest.mpr hproves), decide_eq_true hproves]
    · rw [if_neg (mt htest.mp hproves), decide_eq_false hproves, ih _ (hready.step _ _)]

/-- The search finds the first nonce of its range that proves work. -/
lemma search_eq (h : Standard compress256) (lastHeight : UInt32) (pkh : ByteVec 20)
    (difficulty : UInt8) (start count : UInt64) :
    search compress256 lastHeight pkh difficulty start count =
      ((List.range count.toNat).map fun i => start + UInt64.ofNat i).find? fun nonce =>
        Proves lastHeight pkh difficulty nonce := by
  have hlimit : 32 < difficulty ↔ 32 < difficulty.toNat := UInt8.lt_iff_toNat_lt
  rw [search]
  by_cases hover : 32 < difficulty
  · rw [if_pos hover, eq_comm, List.find?_eq_none]
    intro nonce _ hproves
    have hle := (of_decide_eq_true hproves).length_le
    rw [List.length_replicate, ByteVec.length_bytes] at hle
    exact absurd (hlimit.mp hover) (not_lt.mpr hle)
  · have hready : Ready lastHeight pkh
        (paddedBlock (preimage lastHeight pkh (u64Le 0)) (length_preimage _ _ _))
        (paddedBlock (List.replicate 32 0) List.length_replicate) := by
      have hlen : (u32Le lastHeight ++ pkh.bytes).length = 24 := by simp
      refine ⟨?_, List.drop_left' (length_preimage _ _ _), List.drop_left' List.length_replicate⟩
      change (u32Le lastHeight ++ pkh.bytes ++ u64Le 0 ++ padding).take 24 = _
      rw [List.append_assoc, List.take_left' hlen]
    rw [if_neg hover, searchFrom_eq h (not_lt.mp (mt hlimit.mpr hover)) _ _ _ hready]
    simp only [UInt64.zero_add]

lemma search_eq_none (h : Standard compress256) {difficulty : UInt8} {start count : UInt64} :
    search compress256 lastHeight pkh difficulty start count = none ↔
      ∀ i < count.toNat, ¬ Proves lastHeight pkh difficulty (start + UInt64.ofNat i) := by
  rw [search_eq h, List.find?_eq_none, List.forall_mem_map]
  simp only [List.mem_range, decide_eq_true_eq]

lemma search_eq_some (h : Standard compress256) {difficulty : UInt8} {start count nonce : UInt64} :
    search compress256 lastHeight pkh difficulty start count = some nonce ↔
      ∃ offset < count.toNat, nonce = start + UInt64.ofNat offset ∧
        Proves lastHeight pkh difficulty nonce ∧
          ∀ i < offset, ¬ Proves lastHeight pkh difficulty (start + UInt64.ofNat i) := by
  rw [search_eq h, List.find?_eq_some_iff_getElem]
  simp only [List.getElem_map, List.getElem_range, List.length_map, List.length_range,
    decide_eq_true_eq]
  constructor
  · rintro ⟨hproves, offset, hlt, rfl, hbefore⟩
    exact ⟨offset, hlt, rfl, hproves, fun i hi => by simpa using hbefore i hi⟩
  · rintro ⟨offset, hlt, rfl, hproves, hbefore⟩
    exact ⟨hproves, offset, hlt, rfl, fun i hi => by simpa using hbefore i hi⟩

end

/-! ## The kernel's work -/

section
variable {height : UInt32} {pkh : ByteVec 20} {difficulty : UInt8} {base : UInt64} {count : UInt32}
  {c : Words 10}

omit [Hasher] in
/-- What an admitted range is given to the kernel as. -/
lemma control_eq_ok (h : control height pkh difficulty base count = .ok c) :
    count.toNat ≤ 2 ^ 20 ∧
      c.toList = (Engine.Sha256.beWords 6 (u32Le height ++ pkh.bytes)).toList ++
        [base.toUInt32, (base >>> 32).toUInt32, count, difficulty.toUInt32] := by
  have hlen : (u32Le height ++ pkh.bytes).length = 24 := by simp
  obtain ⟨hok, h⟩ := Except.ite_error_eq_ok.mp h
  push Not at hok
  cases h
  have hle : count ≤ maxBatch := by simpa using hok.2.1
  refine ⟨UInt32.le_iff_toNat_le.mp hle, ?_⟩
  rw [List.Vector.toList_mk, preimage, List.take_left' hlen]

omit [Hasher] in
lemma control_words (h : control height pkh difficulty base count = .ok c) :
    c.word 6 = base.toUInt32 ∧ c.word 7 = (base >>> 32).toUInt32 ∧ c.word 8 = count ∧
      c.word 9 = difficulty.toUInt32 := by
  obtain ⟨-, hc⟩ := control_eq_ok h
  have hword (k : ℕ) : c.word (6 + k) =
      [base.toUInt32, (base >>> 32).toUInt32, count, difficulty.toUInt32].getD k 0 := by
    rw [Words.word, hc, List.getD_append_right _ _ _ _ (by simp)]
    simp
  exact ⟨hword 0, hword 1, hword 2, hword 3⟩

/-- A thread's candidate is the double hash of its nonce's preimage. -/
lemma bytes_candidate {compress256 : Words 8 → List (ByteVec 64) → Words 8}
    (hsha : Standard compress256) (h : control height pkh difficulty base count = .ok c)
    (index : UInt32) :
    Engine.Sha256.bytes (Engine.Electric.candidate c index) =
      doubleSha256 (preimage height pkh (u64Le (base + index.toUInt64))) := by
  obtain ⟨-, hc⟩ := control_eq_ok h
  obtain ⟨h6, h7, -, -⟩ := control_words h
  have hlen : (u32Le height ++ pkh.bytes).length = 4 * 6 := by simp
  have hwords : Lib.Sha256.words (preimage height pkh (u64Le (base + index.toUInt64))) =
      (Engine.Electric.message c index).toList.map UInt32.toNat := by
    rw [preimage, Lib.Sha256.words_append (by rw [hlen]), ← Engine.Sha256.toNat_beWords hlen,
      Engine.Electric.words_nonce h6 h7, Engine.Electric.message, List.Vector.toList_mk,
      List.map_append, hc, List.take_left' (by simp)]
    rfl
  rw [Engine.Electric.bytes_candidate (length_preimage _ _ _) hwords, doubleSha256, hsha.sha256_eq,
    hsha.sha256_eq]

variable {compress256 : Words 8 → List (ByteVec 64) → Words 8}

lemma meets_candidate_iff (hsha : Standard compress256)
    (h : control height pkh difficulty base count = .ok c) (index : UInt32) :
    Engine.Electric.meets (Engine.Electric.candidate c index) difficulty.toUInt32 = true ↔
      Proves height pkh difficulty (base + index.toUInt64) := by
  rw [meets_bytes, meets_iff_zeros, bytes_candidate hsha h]
  rfl

omit [Hasher] in
lemma ofNat_toNat_index (index : UInt32) : UInt64.ofNat index.toNat = index.toUInt64 := by
  have hlt := index.toNat_lt
  apply UInt64.toNat_inj.mp
  rw [UInt64.toNat_ofNat_of_lt' (show index.toNat < 2 ^ 64 by omega), UInt32.toNat_toUInt64]

/-- The least index of a range that meets the difficulty is the offset the CPU finds. -/
lemma isLeast_iff (hsha : Standard compress256)
    (h : control height pkh difficulty base count = .ok c) (index : UInt32) :
    IsLeast {index | index < count ∧
        Engine.Electric.meets (Engine.Electric.candidate c index) difficulty.toUInt32 = true} index ↔
      index < count ∧ search compress256 height pkh difficulty base count.toUInt64 =
        some (base + index.toUInt64) := by
  have hcount : count.toUInt64.toNat = count.toNat := UInt32.toNat_toUInt64 _
  rw [search_eq_some hsha, hcount]
  constructor
  · rintro ⟨⟨hlt, hmeets⟩, hleast⟩
    refine ⟨hlt, index.toNat, UInt32.lt_iff_toNat_lt.mp hlt, by rw [ofNat_toNat_index],
      (meets_candidate_iff hsha h index).mp hmeets, fun i hi hproves => ?_⟩
    -- an earlier offset is a lower index
    obtain ⟨j, rfl⟩ : ∃ j : UInt32, j.toNat = i :=
      ⟨UInt32.ofNat i, UInt32.toNat_ofNat_of_lt' (hi.trans index.toNat_lt)⟩
    rw [ofNat_toNat_index] at hproves
    have hj : j < index := UInt32.lt_iff_toNat_lt.mpr hi
    have hle := hleast ⟨UInt32.lt_trans hj hlt, (meets_candidate_iff hsha h j).mpr hproves⟩
    exact absurd hj (UInt32.not_lt.mpr hle)
  · rintro ⟨hlt, offset, hoffset, hnonce, hproves, hbefore⟩
    obtain ⟨j, rfl⟩ : ∃ j : UInt32, j.toNat = offset :=
      ⟨UInt32.ofNat offset, UInt32.toNat_ofNat_of_lt' (hoffset.trans count.toNat_lt)⟩
    rw [ofNat_toNat_index] at hnonce
    obtain rfl : index = j := by
      have hsame := congrArg UInt64.toNat (UInt64.add_right_inj base |>.mp hnonce)
      rw [UInt32.toNat_toUInt64, UInt32.toNat_toUInt64] at hsame
      exact UInt32.toNat_inj.mp hsame
    refine ⟨⟨hlt, (meets_candidate_iff hsha h index).mpr hproves⟩, fun i hi => ?_⟩
    refine UInt32.not_lt.mp fun hless => ?_
    have hfalse := hbefore i.toNat (UInt32.lt_iff_toNat_lt.mp hless)
    rw [ofNat_toNat_index] at hfalse
    exact hfalse ((meets_candidate_iff hsha h i).mp hi.2)

/-- After any launch on an admitted range the host returns what the CPU finds. -/
lemma gpuSearch_eq (hsha : Standard compress256)
    (h : control height pkh difficulty base count = .ok c) {result : Words 2}
    (hlaunch : Engine.Electric.Launch c result) :
    gpuSearch (fun _ => .ok result.toList) height pkh difficulty base count =
      .ok (search compress256 height pkh difficulty base count.toUInt64) := by
  obtain ⟨hlimit, -⟩ := control_eq_ok h
  obtain ⟨-, -, h8, h9⟩ := control_words h
  obtain ⟨hdone, hleast⟩ := hlaunch.result_eq (by rw [h8]; omega)
  rw [h8, h9] at hleast
  rw [h8] at hdone
  have hlen : ¬ (result.toList.length ≠ 2 ∨ result.toList.getD 1 0 ≠ count) := by
    rw [not_or, not_not, not_not]
    exact ⟨result.toList_length, hdone⟩
  rw [gpuSearch, h]
  change (if result.toList.length ≠ 2 ∨ result.toList.getD 1 0 ≠ count then _ else _) = _
  rw [if_neg hlen]
  rcases hleast with ⟨hnone, hall⟩ | hleast
  · -- no index met the difficulty
    have hsearch : search compress256 height pkh difficulty base count.toUInt64 = none := by
      rw [search_eq_none hsha, UInt32.toNat_toUInt64]
      intro i hi hproves
      obtain ⟨j, rfl⟩ : ∃ j : UInt32, j.toNat = i :=
        ⟨UInt32.ofNat i, UInt32.toNat_ofNat_of_lt' (hi.trans count.toNat_lt)⟩
      rw [ofNat_toNat_index] at hproves
      exact hall j (UInt32.lt_iff_toNat_lt.mpr hi) ((meets_candidate_iff hsha h j).mpr hproves)
    change (if result.word 0 = 0xffffffff then _ else _) = _
    rw [if_pos hnone, hsearch]
  · obtain ⟨hlt, hsearch⟩ := (isLeast_iff hsha h _).mp hleast
    have hmeets : meets (doubleSha256 (preimage height pkh
        (u64Le (base + (result.word 0).toUInt64)))) difficulty = true := by
      rw [meets_iff_zeros]
      exact (meets_candidate_iff hsha h _).mp hleast.1.2
    have hne : result.word 0 ≠ 0xffffffff := by
      intro hmax
      rw [hmax, UInt32.lt_iff_toNat_lt] at hlt
      have hhigh : (0xffffffff : UInt32).toNat = 2 ^ 32 - 1 := rfl
      omega
    change (if result.word 0 = 0xffffffff then _ else
      if count ≤ result.word 0 ∨ ¬ meets (doubleSha256 (preimage height pkh
        (u64Le (base + (result.word 0).toUInt64)))) difficulty = true then _ else _) = _
    rw [if_neg hne, if_neg (not_or.mpr ⟨UInt32.not_le.mpr hlt, not_not.mpr hmeets⟩), hsearch]
    rfl

end

/-- The CPU's search returns the first nonce of its range that proves work, wherever the range wraps.
On every range the host admits, a thread's candidate is the double hash of its nonce's preimage,
the device's test is the host's, the least index that meets the difficulty is the offset the CPU
finds, and in whatever order the threads of a launch report, the host returns what the CPU does. -/
theorem searches_agree {compress256 : Words 8 → List (ByteVec 64) → Words 8}
    (hsha : Standard compress256) :
    (∀ (lastHeight : UInt32) (pkh : ByteVec 20) (difficulty : UInt8) (start count : UInt64),
      (∀ nonce, search compress256 lastHeight pkh difficulty start count = some nonce ↔
        ∃ offset < count.toNat, nonce = start + UInt64.ofNat offset ∧
          Proves lastHeight pkh difficulty nonce ∧
            ∀ i < offset, ¬ Proves lastHeight pkh difficulty (start + UInt64.ofNat i)) ∧
      (search compress256 lastHeight pkh difficulty start count = none ↔
        ∀ i < count.toNat, ¬ Proves lastHeight pkh difficulty (start + UInt64.ofNat i))) ∧
    (∀ (digest : Words 8) (difficulty : UInt8),
      Engine.Electric.meets digest difficulty.toUInt32 =
        meets (Engine.Sha256.bytes digest) difficulty) ∧
    ∀ (height : UInt32) (pkh : ByteVec 20) (difficulty : UInt8) (base : UInt64) (count : UInt32)
      (c : Words 10), control height pkh difficulty base count = .ok c →
      (∀ index, Engine.Sha256.bytes (Engine.Electric.candidate c index) =
        doubleSha256 (preimage height pkh (u64Le (base + index.toUInt64)))) ∧
      (∀ index, IsLeast {index | index < count ∧
          Engine.Electric.meets (Engine.Electric.candidate c index) difficulty.toUInt32 = true}
          index ↔
        index < count ∧ search compress256 height pkh difficulty base count.toUInt64 =
          some (base + index.toUInt64)) ∧
      ∀ result, Engine.Electric.Launch c result →
        gpuSearch (fun _ => .ok result.toList) height pkh difficulty base count =
          .ok (search compress256 height pkh difficulty base count.toUInt64) :=
  ⟨fun _ _ _ _ _ => ⟨fun _ => search_eq_some hsha, search_eq_none hsha⟩, meets_bytes,
    fun _ _ _ _ _ _ h => ⟨bytes_candidate hsha h, isLeast_iff hsha h,
      fun _ hlaunch => gpuSearch_eq hsha h hlaunch⟩⟩

omit [Hasher]

/-- The engine's compression over several blocks. -/
def compressAll (state : Words 8) (blocks : List (ByteVec 64)) : Words 8 :=
  blocks.foldl Engine.Sha256.compressBytes state

lemma standard_compressAll :
    let _ : Hasher := Hasher.fips
    Standard compressAll := by
  refine @Standard.mk Hasher.fips _ (fun _ => rfl) fun state blocks => ?_
  induction blocks generalizing state with
  | nil => rfl
  | cons block blocks ih =>
    have hwords := Engine.Sha256.toNat_beWords (n := 16) block.length_bytes
    rw [compressAll, List.foldl_cons, ← compressAll, ih, List.foldl_cons,
      Engine.Sha256.compressBytes, Engine.Sha256.toState_compress, hwords]

lemma sample_proves :
    let _ : Hasher := Hasher.fips
    Proves 840057 (ByteVec.zero 20) 1 0 ∧
      ¬ Proves 840057 (ByteVec.zero 20) 1 0xffffffffffffffff := by
  rw [Hasher.fips_eq]
  decide +kernel

/-- A range that wraps: its second nonce is 0. -/
theorem searches_agree_sample :
    let _ : Hasher := Hasher.fips
    search compressAll 840057 (ByteVec.zero 20) 1 0xffffffffffffffff 3 = some 0 ∧
      ∃ c, control 840057 (ByteVec.zero 20) 1 0xffffffffffffffff 3 = .ok c ∧
        Engine.Sha256.bytes (Engine.Electric.candidate c 1) =
          doubleSha256 (preimage 840057 (ByteVec.zero 20) (u64Le 0)) := by
  intro _
  have hagree := searches_agree standard_compressAll
  have hfirst : Proves 840057 (ByteVec.zero 20) 1 0 ∧
      ¬ Proves 840057 (ByteVec.zero 20) 1 0xffffffffffffffff := sample_proves
  refine ⟨((hagree.1 _ _ _ _ _).1 0).mpr ⟨1, by decide, by decide, hfirst.1, fun i hi => ?_⟩, ?_⟩
  · obtain rfl : i = 0 := by omega
    exact hfirst.2
  · cases h : control 840057 (ByteVec.zero 20) 1 0xffffffffffffffff 3 with
    | error e => cases h
    | ok c => exact ⟨c, rfl, (hagree.2.2 _ _ _ _ _ c h).1 1⟩

end Pickaxe.Electric
