/-
# The ELECTRIC engine

A GPU looks for the proof of an ELECTRIC claim with one thread a nonce.  A thread hashes words in
registers, tests the digest a word at a time, and reports by atomic operations on two words that
all threads share.  Here the candidate of a thread is the double hash of its message
(`bytes_candidate`), the test counts leading zero bytes (`meets_iff`), and in whatever order the
operations of a launch take place they leave the least index that meets the difficulty
(`Launch.result_eq`).
-/
import Pickaxe.Engine.Standard

namespace Pickaxe.Engine.Electric

open Lib Sha256

/-! ## `electric.rs` -/

/-- `u32::swap_bytes`. -/
def swapBytes (x : UInt32) : UInt32 := u32OfLe (u32Le x).reverse

/-- `digest`. -/
def digest (first : Words 6) (nonceLo nonceHi : UInt32) : Words 8 :=
  let block : Words 16 :=
    ⟨first.toList ++
      [swapBytes nonceLo, swapBytes nonceHi, 0x80000000, 0, 0, 0, 0, 0, 0, 256], by simp⟩
  let state := compress INITIAL block
  -- the block keeps its padding
  let block : Words 16 := ⟨state.toList ++ block.toList.drop 8, by simp⟩
  compress INITIAL block

/-- `candidate`. -/
def candidate (control : Words 10) (index : UInt32) : Words 8 :=
  let lo := control.word 6 + index
  let hi := control.word 7 + if lo < control.word 6 then 1 else 0
  digest ⟨control.toList.take 6, by simp⟩ lo hi

/-- The loop of `meets`, over the words of these indices. -/
def meetsFrom (digest : Words 8) (difficulty : UInt32) : List ℕ → Bool
  | [] => true
  | i :: rest =>
    if difficulty ≤ UInt32.ofNat i * 4 then true
    else
      let bytes := min (difficulty - UInt32.ofNat i * 4) 4
      if bytes = 4 then
        if digest.word i ≠ 0 then false else meetsFrom digest difficulty rest
      else if bytes ≠ 0 ∧ digest.word i >>> (32 - bytes * 8) ≠ 0 then false
      else meetsFrom digest difficulty rest

/-- `meets`. -/
def meets (digest : Words 8) (difficulty : UInt32) : Bool :=
  if 32 < difficulty then false else meetsFrom digest difficulty (List.range 8)

/-! ## The kernel -/

/-- The atomic operations on the two words of the result. -/
inductive Atomic where
  /-- `fetch_min` on the first. -/
  | fetchMin (index : UInt32)
  /-- `fetch_add` on the second. -/
  | fetchAdd (done : UInt32)

/-- What an operation leaves. -/
def Atomic.apply (result : Words 2) : Atomic → Words 2
  | fetchMin index => result.set 0 (min (result.word 0) index)
  | fetchAdd done => result.set 1 (result.word 1 + done)

/-- `pickaxe_electric_filter`: the operations of the thread of an index. -/
def pickaxeElectricFilter (control : Words 10) (index : UInt32) : List Atomic :=
  if control.word 8 ≤ index then []
  else
    (if index % 128 = 0 then [.fetchAdd (min (control.word 8 - index) 128)] else []) ++
      if meets (candidate control index) (control.word 9) then [.fetchMin index] else []

/-- The threads of a launch: blocks of 128 that cover the count. -/
def threads (control : Words 10) : List UInt32 :=
  (List.range (((control.word 8).toNat + 127) / 128 * 128)).map UInt32.ofNat

/-- The result before a launch. -/
def cleared : Words 2 := ⟨[0xffffffff, 0], rfl⟩

/-- The result a launch leaves: its threads' operations took place in some order. -/
def Launch (control : Words 10) (result : Words 2) : Prop :=
  ∃ operations : List Atomic,
    operations.Perm ((threads control).flatMap (pickaxeElectricFilter control)) ∧
      result = operations.foldl Atomic.apply cleared

/-! ## Candidates -/

/-- The words a thread hashes. -/
def message (control : Words 10) (index : UInt32) : Words 8 :=
  let lo := control.word 6 + index
  let hi := control.word 7 + if lo < control.word 6 then 1 else 0
  ⟨control.toList.take 6 ++ [swapBytes lo, swapBytes hi], by simp⟩

lemma candidate_eq (control : Words 10) (index : UInt32) :
    candidate control index =
      compress INITIAL (secondBlock (compress INITIAL (secondBlock (message control index)))) := by
  have hfirst : ∀ lo hi : UInt32, control.toList.take 6 ++
      [swapBytes lo, swapBytes hi, 0x80000000, 0, 0, 0, 0, 0, 0, 256] =
        control.toList.take 6 ++ [swapBytes lo, swapBytes hi] ++
          [0x80000000, 0, 0, 0, 0, 0, 0, 256] := fun lo hi => by
    rw [List.append_assoc]
    rfl
  have hpad : ∀ words : Words 8,
      (words.toList ++ [0x80000000, 0, 0, 0, 0, 0, 0, (256 : UInt32)]).drop 8 =
        [0x80000000, 0, 0, 0, 0, 0, 0, 256] :=
    fun words => List.drop_left' words.toList_length
  simp only [candidate, digest, message, secondBlock, List.Vector.toList_mk, hfirst]
  congr 3
  exact hpad (message control index)

/-- The candidate of a thread is the double hash of a message with the words it hashes. -/
theorem bytes_candidate {control : Words 10} {index : UInt32} {m : Bytes} (h : m.length = 32)
    (hwords : Lib.Sha256.words m = (message control index).toList.map UInt32.toNat) :
    bytes (candidate control index) = Lib.Sha256.digest (Lib.Sha256.digest m).bytes := by
  rw [candidate_eq, doubleDigest_eq h hwords, hashState]

lemma toNat_swapBytes (x : UInt32) : (swapBytes x).toNat = fromLe (u32Le x).reverse := by
  rw [swapBytes, u32OfLe, UInt32.toNat_ofNat_of_lt']
  simpa using fromLe_lt (u32Le x).reverse

lemma words_u32Le (x : UInt32) : Lib.Sha256.words (u32Le x) = [(swapBytes x).toNat] := by
  rw [toNat_swapBytes, u32Le, Lib.Sha256.words_leBytes]

/-- The two halves of a nonce. -/
lemma u64Le_eq {n : UInt64} {lo hi : UInt32} (h : n.toNat = lo.toNat + 2 ^ 32 * hi.toNat) :
    u64Le n = u32Le lo ++ u32Le hi := by
  have hlo : fromLe (u32Le lo) = lo.toNat := fromLe_leBytes_of_lt lo.toNat_lt
  have hhi : fromLe (u32Le hi) = hi.toNat := fromLe_leBytes_of_lt hi.toNat_lt
  refine fromLe_inj (by simp) ?_
  rw [u64Le, fromLe_leBytes_of_lt n.toNat_lt, fromLe_append, hlo, hhi, length_u32Le, h]
  rfl

/-- The carry of the low half is added to the high one. -/
lemma words_nonce {base : UInt64} {c6 c7 : UInt32} (hlo : c6 = base.toUInt32)
    (hhi : c7 = (base >>> 32).toUInt32) (index : UInt32) :
    Lib.Sha256.words (u64Le (base + index.toUInt64)) =
      [(swapBytes (c6 + index)).toNat,
        (swapBytes (c7 + if c6 + index < c6 then 1 else 0)).toNat] := by
  have hbase := base.toNat_lt
  have hindex := index.toNat_lt
  have h6 : c6.toNat = base.toNat % 2 ^ 32 := by rw [hlo, UInt64.toNat_toUInt32]
  have h7 : c7.toNat = base.toNat / 2 ^ 32 := by
    rw [hhi, UInt64.toNat_toUInt32, UInt64.toNat_shiftRight]
    change base.toNat >>> 32 % 2 ^ 32 = _
    rw [Nat.shiftRight_eq_div_pow]
    omega
  have hsum : (base + index.toUInt64).toNat = (base.toNat + index.toNat) % 2 ^ 64 := by
    rw [UInt64.toNat_add, UInt32.toNat_toUInt64]
  have hadd : (c6 + index).toNat = (c6.toNat + index.toNat) % 2 ^ 32 := UInt32.toNat_add ..
  have hhalves : (base + index.toUInt64).toNat = (c6 + index).toNat +
      2 ^ 32 * (c7 + if c6 + index < c6 then 1 else 0).toNat := by
    rw [UInt32.toNat_add c7, hsum, hadd]
    split_ifs with hcarry
    · rw [UInt32.lt_iff_toNat_lt, hadd] at hcarry
      rw [UInt32.toNat_one]
      omega
    · rw [UInt32.lt_iff_toNat_lt, hadd] at hcarry
      rw [UInt32.toNat_zero]
      omega
  rw [u64Le_eq hhalves, Lib.Sha256.words_append (by simp), words_u32Le, words_u32Le]
  rfl

/-! ## Leading zero bytes -/

/-- The bytes of a word among leading zero bytes bound it. -/
lemma replicate_prefix_beBytes (n : ℕ) (x : UInt32) (rest : Bytes) :
    List.replicate n 0 <+: Lib.Sha256.beBytes 4 x.toNat ++ rest ↔
      x.toNat < 2 ^ (32 - 8 * min n 4) ∧ List.replicate (n - 4) 0 <+: rest := by
  have hx := x.toNat_lt
  have hzero (v : ℕ) : 0 = UInt8.ofNat v ↔ v % 256 = 0 := by
    rw [eq_comm, ← UInt8.toNat_inj, UInt8.toNat_ofNat']
    rfl
  rw [Lib.Sha256.beBytes_four]
  rcases n with _ | _ | _ | _ | n
  · simpa using hx
  · simp [List.replicate_succ, List.cons_prefix_cons, hzero]
    omega
  · simp [List.replicate_succ, List.cons_prefix_cons, hzero]
    omega
  · simp [List.replicate_succ, List.cons_prefix_cons, hzero]
    omega
  · rw [Nat.min_eq_right (by omega : 4 ≤ n + 1 + 1 + 1 + 1)]
    simp only [List.replicate_succ, List.cons_append, List.cons_prefix_cons, hzero]
    constructor
    · rintro ⟨h3, h2, h1, h0, hrest⟩
      exact ⟨by omega, hrest⟩
    · rintro ⟨hlt, hrest⟩
      exact ⟨by omega, by omega, by omega, by omega, hrest⟩

lemma shiftRight_eq_zero_iff (x : UInt32) {bytes : UInt32} (hpos : 0 < bytes.toNat)
    (hlt : bytes.toNat < 4) :
    x >>> (32 - bytes * 8) = 0 ↔ x.toNat < 2 ^ (32 - 8 * bytes.toNat) := by
  have hmul : (bytes * 8).toNat = 8 * bytes.toNat := by
    rw [UInt32.toNat_mul]
    change bytes.toNat * 8 % 2 ^ 32 = _
    omega
  have hsub : (32 - bytes * 8).toNat = 32 - 8 * bytes.toNat := by
    have hle : bytes * 8 ≤ 32 := by
      rw [UInt32.le_iff_toNat_le, hmul]
      change _ ≤ 32
      omega
    rw [UInt32.toNat_sub_of_le _ _ hle, hmul]
    rfl
  rw [← UInt32.toNat_inj, UInt32.toNat_shiftRight, hsub, Nat.mod_eq_of_lt (by omega),
    Nat.shiftRight_eq_div_pow, UInt32.toNat_zero, Nat.div_eq_zero_iff_lt (by positivity)]

/-- One turn of the test: the difficulty ends before the word, or bounds it. -/
lemma meetsFrom_cons {digest : Words 8} {difficulty : UInt32} {i : ℕ} (hi : i < 8)
    (rest : List ℕ) :
    meetsFrom digest difficulty (i :: rest) = true ↔
      difficulty.toNat ≤ 4 * i ∨
        (digest.word i).toNat < 2 ^ (32 - 8 * min (difficulty.toNat - 4 * i) 4) ∧
          meetsFrom digest difficulty rest = true := by
  have hstart : (UInt32.ofNat i * 4).toNat = 4 * i := by
    rw [UInt32.toNat_mul, UInt32.toNat_ofNat_of_lt' (show i < 2 ^ 32 by omega)]
    change i * 4 % 2 ^ 32 = _
    omega
  rw [meetsFrom]
  by_cases hdone : difficulty ≤ UInt32.ofNat i * 4
  · rw [if_pos hdone]
    rw [UInt32.le_iff_toNat_le, hstart] at hdone
    exact iff_of_true rfl (.inl hdone)
  · rw [if_neg hdone]
    rw [UInt32.le_iff_toNat_le, hstart] at hdone
    obtain ⟨bytes, hbytes⟩ : ∃ bytes, min (difficulty - UInt32.ofNat i * 4) 4 = bytes := ⟨_, rfl⟩
    have hmin : bytes.toNat = min (difficulty.toNat - 4 * i) 4 := by
      have hle : UInt32.ofNat i * 4 ≤ difficulty := by
        rw [UInt32.le_iff_toNat_le, hstart]
        omega
      rw [← hbytes, UInt32.toNat_min, UInt32.toNat_sub_of_le _ _ hle, hstart]
      rfl
    have hfour : bytes = 4 ↔ bytes.toNat = 4 := UInt32.toNat_inj.symm
    have hpos : 0 < bytes.toNat := by omega
    rw [hbytes, ← hmin]
    dsimp only
    by_cases hwhole : bytes.toNat = 4
    · -- a whole word
      have hone : (digest.word i).toNat < 2 ^ (32 - 8 * bytes.toNat) ↔ digest.word i = 0 := by
        rw [hwhole, ← UInt32.toNat_inj]
        exact Nat.lt_one_iff
      rw [if_pos (hfour.mpr hwhole), hone]
      by_cases hzero : digest.word i = 0
      · simp [hzero, hdone]
      · simp [hzero, hdone]
    · -- the bytes of the last word
      have hne : bytes ≠ 0 := fun h => by simp [h] at hpos
      rw [if_neg (mt hfour.mp hwhole), ← shiftRight_eq_zero_iff _ hpos (by omega)]
      by_cases hzero : digest.word i >>> (32 - bytes * 8) = 0
      · simp [hzero, hdone]
      · simp [hzero, hdone, hne]

/-- The test of the words from `i` on: those before were zero. -/
lemma meetsFrom_iff {digest : Words 8} {difficulty : UInt32} (h : difficulty.toNat ≤ 32) {i n : ℕ}
    (hi : i + n = 8) :
    meetsFrom digest difficulty (List.range' i n) = true ↔
      List.replicate (difficulty.toNat - 4 * i) 0 <+:
        (digest.toList.drop i).flatMap fun x => Lib.Sha256.beBytes 4 x.toNat := by
  induction n generalizing i with
  | zero =>
    rw [Nat.sub_eq_zero_of_le (by omega)]
    exact iff_of_true rfl List.nil_prefix
  | succ n ih =>
    have hlt : i < digest.toList.length := by
      rw [digest.toList_length]
      omega
    have hword : digest.word i = digest.toList[i] := List.getD_eq_getElem _ _ hlt
    rw [List.range'_succ, meetsFrom_cons (by omega), ih (by omega),
      List.drop_eq_getElem_cons hlt, List.flatMap_cons, replicate_prefix_beBytes, ← hword,
      Nat.mul_succ, Nat.sub_sub]
    constructor
    · rintro (hdone | hboth)
      · rw [Nat.sub_eq_zero_of_le hdone, Nat.sub_eq_zero_of_le (Nat.le_add_right_of_le hdone)]
        exact ⟨(digest.word i).toNat_lt, List.nil_prefix⟩
      · exact hboth
    · exact .inr

/-- The test is met by the digests with as many leading zero bytes. -/
theorem meets_iff (digest : Words 8) (difficulty : UInt32) :
    meets digest difficulty = true ↔
      List.replicate difficulty.toNat 0 <+: (bytes digest).bytes := by
  rw [meets]
  by_cases h : 32 < difficulty
  · rw [if_pos h]
    refine iff_of_false Bool.false_ne_true fun hpre => ?_
    have hle := hpre.length_le
    rw [List.length_replicate, ByteVec.length_bytes] at hle
    exact absurd h (UInt32.not_lt.mpr (UInt32.le_iff_toNat_le.mpr hle))
  · rw [if_neg h, bytes_eq_flatMap, List.range_eq_range',
      meetsFrom_iff (UInt32.le_iff_toNat_le.mp (UInt32.not_lt.mp h)) rfl]
    rfl

/-! ## What a launch leaves -/

/-- The first word ends as the least of its start and the reported indices. -/
lemma foldl_min (operations : List Atomic) (result : Words 2) :
    let last := (operations.foldl Atomic.apply result).word 0
    (last = result.word 0 ∨ .fetchMin last ∈ operations) ∧ last ≤ result.word 0 ∧
      ∀ index, .fetchMin index ∈ operations → last ≤ index := by
  induction operations generalizing result with
  | nil => exact ⟨.inl rfl, UInt32.le_refl _, fun _ h => by cases h⟩
  | cons operation rest ih =>
    obtain ⟨hfrom, hstart, hrest⟩ := ih (operation.apply result)
    cases operation with
    | fetchMin index =>
      have hword : (Atomic.apply result (.fetchMin index)).word 0 = min (result.word 0) index :=
        Words.word_set_self _ _ (by decide)
      have hleft : min (result.word 0) index ≤ result.word 0 := by
        rw [UInt32.le_iff_toNat_le, UInt32.toNat_min]
        exact min_le_left _ _
      have hright : min (result.word 0) index ≤ index := by
        rw [UInt32.le_iff_toNat_le, UInt32.toNat_min]
        exact min_le_right _ _
      rw [hword] at hfrom hstart
      refine ⟨?_, UInt32.le_trans hstart hleft, ?_⟩
      · rcases hfrom with hfrom | hfrom
        · by_cases hle : result.word 0 ≤ index
          · exact .inl (hfrom.trans (if_pos hle))
          · exact .inr (List.mem_cons.mpr (.inl (congrArg _ (hfrom.trans (if_neg hle)))))
        · exact .inr (List.mem_cons_of_mem _ hfrom)
      · rintro i (_ | ⟨_, hi⟩)
        · exact UInt32.le_trans hstart hright
        · exact hrest i hi
    | fetchAdd done =>
      have hword : (Atomic.apply result (.fetchAdd done)).word 0 = result.word 0 :=
        Words.word_set_ne _ _ (by decide)
      rw [hword] at hfrom hstart
      refine ⟨hfrom.imp_right (List.mem_cons_of_mem _), hstart, ?_⟩
      rintro i (_ | ⟨_, hi⟩)
      exact hrest i hi

/-- The threads an operation counts. -/
def counted : Atomic → ℕ
  | .fetchMin _ => 0
  | .fetchAdd done => done.toNat

/-- The second word ends as its start and the counted threads. -/
lemma foldl_add (operations : List Atomic) (result : Words 2) :
    ((operations.foldl Atomic.apply result).word 1).toNat =
      ((result.word 1).toNat + (operations.map counted).sum) % 2 ^ 32 := by
  induction operations generalizing result with
  | nil => exact (Nat.mod_eq_of_lt (UInt32.toNat_lt _)).symm
  | cons operation rest ih =>
    have hword : ((operation.apply result).word 1).toNat =
        ((result.word 1).toNat + counted operation) % 2 ^ 32 := by
      cases operation with
      | fetchMin index =>
        rw [Atomic.apply, Words.word_set_ne _ _ (by decide), counted, Nat.add_zero,
          Nat.mod_eq_of_lt (UInt32.toNat_lt _)]
      | fetchAdd done =>
        rw [Atomic.apply, Words.word_set_self _ _ (by decide), UInt32.toNat_add, counted]
    rw [List.foldl_cons, ih, hword, Nat.mod_add_mod, List.map_cons, List.sum_cons, Nat.add_assoc]

variable {control : Words 10}

/-- The threads that meet the difficulty report their indices. -/
lemma fetchMin_mem_filter {index i : UInt32} :
    .fetchMin i ∈ pickaxeElectricFilter control index ↔
      i = index ∧ index < control.word 8 ∧
        meets (candidate control index) (control.word 9) = true := by
  rw [pickaxeElectricFilter]
  by_cases hover : control.word 8 ≤ index
  · rw [if_pos hover]
    exact iff_of_false List.not_mem_nil fun h => absurd h.2.1 (UInt32.not_lt.mpr hover)
  · have hlt := UInt32.not_le.mp hover
    rw [if_neg hover]
    by_cases hmeets : meets (candidate control index) (control.word 9) = true
    · split_ifs <;> simp [hmeets, hlt]
    · split_ifs <;> simp [hmeets]

/-- One thread of a block counts all of them, up to the count. -/
lemma sum_counted {index : UInt32} :
    ((pickaxeElectricFilter control index).map counted).sum =
      if index.toNat % 128 = 0 then min ((control.word 8).toNat - index.toNat) 128 else 0 := by
  have hfirst : index % 128 = 0 ↔ index.toNat % 128 = 0 := by
    rw [← UInt32.toNat_inj, UInt32.toNat_mod]
    rfl
  rw [pickaxeElectricFilter]
  by_cases hover : control.word 8 ≤ index
  · rw [if_pos hover, Nat.sub_eq_zero_of_le (UInt32.le_iff_toNat_le.mp hover)]
    simp
  · have hle := UInt32.le_of_lt (UInt32.not_le.mp hover)
    have hmin : (min (control.word 8 - index) 128).toNat =
        min ((control.word 8).toNat - index.toNat) 128 := by
      rw [UInt32.toNat_min, UInt32.toNat_sub_of_le _ _ hle]
      rfl
    rw [if_neg hover, List.map_append, List.sum_append, apply_ite (List.map counted),
      apply_ite (List.map counted), apply_ite List.sum, apply_ite List.sum]
    simp [counted, hfirst, hmin]

/-- The first `n` threads count those below the next block. -/
lemma sum_threads (count n : ℕ) :
    ((List.range n).map fun i => if i % 128 = 0 then min (count - i) 128 else 0).sum =
      min count ((n + 127) / 128 * 128) := by
  induction n with
  | zero => simp
  | succ n ih =>
    rw [List.range_succ, List.map_append, List.sum_append, ih]
    simp only [List.map_cons, List.map_nil, List.sum_cons, List.sum_nil]
    split_ifs with hblock
    · omega
    · omega

/-- A launch of up to `2 ^ 31` threads leaves their number, and the least index whose candidate
meets the difficulty, or the highest word if there is none. -/
theorem Launch.result_eq {result : Words 2} (h : Launch control result)
    (hcount : (control.word 8).toNat ≤ 2 ^ 31) :
    result.word 1 = control.word 8 ∧
      (result.word 0 = 0xffffffff ∧
          (∀ index < control.word 8, ¬ meets (candidate control index) (control.word 9)) ∨
        IsLeast {index | index < control.word 8 ∧
          meets (candidate control index) (control.word 9) = true} (result.word 0)) := by
  obtain ⟨operations, hperm, rfl⟩ := h
  have hmem (index : UInt32) : .fetchMin index ∈ operations ↔ index < control.word 8 ∧
      meets (candidate control index) (control.word 9) = true := by
    rw [hperm.mem_iff, List.mem_flatMap]
    constructor
    · rintro ⟨thread, -, hthread⟩
      obtain ⟨rfl, hboth⟩ := fetchMin_mem_filter.mp hthread
      exact hboth
    · intro hboth
      refine ⟨index, List.mem_map.mpr ⟨index.toNat, List.mem_range.mpr ?_, UInt32.ofNat_toNat⟩,
        fetchMin_mem_filter.mpr ⟨rfl, hboth⟩⟩
      have hlt := UInt32.lt_iff_toNat_lt.mp hboth.1
      omega
  constructor
  · apply UInt32.toNat_inj.mp
    have hsum : (operations.map counted).sum = (control.word 8).toNat := by
      rw [(hperm.map counted).sum_eq, List.map_flatMap, List.flatMap_def, List.sum_flatten,
        List.map_map, threads, List.map_map]
      have hthreads := sum_threads (control.word 8).toNat
        (((control.word 8).toNat + 127) / 128 * 128)
      rw [Nat.min_eq_left (by omega)] at hthreads
      refine (congrArg _ (List.map_congr_left fun i hi => ?_)).trans hthreads
      have hlt := List.mem_range.mp hi
      change ((pickaxeElectricFilter control (UInt32.ofNat i)).map counted).sum = _
      rw [sum_counted, UInt32.toNat_ofNat_of_lt' (show i < 2 ^ 32 by omega)]
    have hzero : (cleared.word 1).toNat = 0 := rfl
    rw [foldl_add, hsum, hzero, Nat.zero_add, Nat.mod_eq_of_lt (UInt32.toNat_lt _)]
  · obtain ⟨hfrom, -, hleast⟩ := foldl_min operations cleared
    rcases hfrom with hnone | hsome
    · -- every index is below the start
      refine .inl ⟨hnone, fun index hlt hmeets => ?_⟩
      have hle := hleast index ((hmem index).mpr ⟨hlt, hmeets⟩)
      have hstart : (cleared.word 0).toNat = 2 ^ 32 - 1 := rfl
      rw [hnone, UInt32.le_iff_toNat_le, hstart] at hle
      rw [UInt32.lt_iff_toNat_lt] at hlt
      omega
    · exact .inr ⟨(hmem _).mp hsome, fun index hindex => hleast index ((hmem index).mpr hindex)⟩

end Pickaxe.Engine.Electric
