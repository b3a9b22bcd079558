/-
# Multiples of the generator

The kernels that multiply the generator by a scalar, a 16-bit window of it after another: the four
launches that share the windows, the portable loop, and the walk from one scalar to the next.  With
the generator table each leaves a point that stands for the multiple, whatever the order of the
threads.
-/
import Pickaxe.Engine.Table

namespace Pickaxe.Engine

open Lib

/-! ## Code -/

/-- `point_at`. -/
def pointAt (points : Memory UInt32) (candidate : ℕ) : Point where
  x := ⟨points.read (candidate * 24) 8⟩
  y := ⟨points.read (candidate * 24 + 8) 8⟩
  z := ⟨points.read (candidate * 24 + 16) 8⟩

/-- The three writes of a point. -/
def writePoint (points : Memory UInt32) (candidate : ℕ) (point : Point) : Memory UInt32 :=
  let points := points.write (candidate * 24) point.x.words.toList
  let points := points.write (candidate * 24 + 8) point.y.words.toList
  points.write (candidate * 24 + 16) point.z.words.toList

/-- A window of a scalar: the body of every loop over windows. -/
def addWindow (table : Memory UInt32) (digit : ℕ → ℕ) (point : Point) (window : ℕ) : Point :=
  if digit window = 0 then point
  else point.addAffine (tableEntry table window (digit window)).1
    (tableEntry table window (digit window)).2

/-- The digit that `fixed_base_part` reads. -/
def byteDigit (scalar : ByteVec 32) (window : ℕ) : ℕ :=
  (scalar.bytes.getD (30 - window * 2) 0).toNat * 256 +
    (scalar.bytes.getD (31 - window * 2) 0).toNat

/-- `fixed_base_part`, of a thread. -/
def fixedBasePart (first : ℕ) (scalars : Memory UInt8) (table : Memory UInt32) (count : ℕ)
    (points : Memory UInt32) (candidate : ℕ) : Memory UInt32 :=
  if candidate ≥ count then points
  else
    let scalar := scalars.readBytes (candidate * 32) 32
    let point := if first = 0 then Point.infinity else pointAt points candidate
    let point := (List.range' first 4).foldl (addWindow table (byteDigit scalar)) point
    writePoint points candidate point

/-- The four launches, each with its threads in some order. -/
def stageB (scalars : Memory UInt8) (table : Memory UInt32) (count : ℕ)
    (order0 order1 order2 order3 : List ℕ) (points : Memory UInt32) : Memory UInt32 :=
  let points := order0.foldl (fixedBasePart 0 scalars table count) points
  let points := order1.foldl (fixedBasePart 4 scalars table count) points
  let points := order2.foldl (fixedBasePart 8 scalars table count) points
  order3.foldl (fixedBasePart 12 scalars table count) points

/-- `window_digit`. -/
def windowDigit (k : Scalar) (window : ℕ) : ℕ :=
  ((k.words.word (window / 2) >>> UInt32.ofNat (window % 2 * 16)) &&& 0xffff).toNat

/-- The loop of `pickaxe_shared_stage_b`. -/
def sharedStageB (table : Memory UInt32) (k : Scalar) : Point :=
  (List.range 16).foldl (addWindow table (windowDigit k)) .infinity

/-! ## Digits -/

/-- The digits of a number, sixteen bits each. -/
def IsDigits (digit : ℕ → ℕ) (v : ℕ) : Prop :=
  ∀ window < 16, digit window = v / 65536 ^ window % 65536

lemma isDigits_byteDigit (scalar : ByteVec 32) : IsDigits (byteDigit scalar) (fromBe scalar.bytes) := by
  intro window hwindow
  obtain ⟨b, hb⟩ := scalar
  dsimp only
  have hdrop : b.drop (30 - window * 2) = b.getD (30 - window * 2) 0 ::
      b.getD (31 - window * 2) 0 :: b.drop (32 - window * 2) := by
    rw [drop_eq_getD_cons (by omega), show 30 - window * 2 + 1 = 31 - window * 2 by omega,
      drop_eq_getD_cons (by omega), show 31 - window * 2 + 1 = 32 - window * 2 by omega]
  have hlow : (b.drop (32 - window * 2)).length = 2 * window := by
    rw [List.length_drop, hb]
    omega
  have hlt := fromBe_lt (b.drop (32 - window * 2))
  rw [hlow, pow_mul, show 256 ^ 2 = 65536 by norm_num] at hlt
  have hx := (b.getD (30 - window * 2) 0).toNat_lt
  have hy := (b.getD (31 - window * 2) 0).toNat_lt
  have hvalue : fromBe b = 65536 ^ window * (65536 * fromBe (b.take (30 - window * 2)) +
      ((b.getD (30 - window * 2) 0).toNat * 256 + (b.getD (31 - window * 2) 0).toNat)) +
        fromBe (b.drop (32 - window * 2)) := by
    conv_lhs => rw [← List.take_append_drop (30 - window * 2) b, hdrop]
    rw [fromBe_append, fromBe_cons, fromBe_cons, List.length_cons, List.length_cons, hlow, pow_succ,
      pow_succ, pow_mul, show 256 ^ 2 = 65536 by norm_num]
    ring
  have hpos : 0 < 65536 ^ window := by positivity
  rw [byteDigit, hvalue, Nat.mul_add_div hpos, Nat.div_eq_of_lt hlt, Nat.add_zero]
  dsimp only
  omega

lemma word_eq {n : ℕ} (a : Words n) {i : ℕ} (h : i < n) :
    (a.word i).toNat = Words.value a / 2 ^ (32 * i) % 2 ^ 32 := by
  induction n generalizing i with
  | zero => exact absurd h (Nat.not_lt_zero i)
  | succ n ih =>
    have hhead := a.head.toNat_lt
    rw [Words.value_eq_head_tail]
    cases i with
    | zero =>
      rw [Words.word_zero, Nat.mul_zero, pow_zero, Nat.div_one, Nat.add_mul_mod_self_left,
        Nat.mod_eq_of_lt hhead]
    | succ i =>
      rw [Words.word_succ, ih a.tail (by omega), Nat.mul_succ, Nat.add_comm (32 * i), pow_add,
        ← Nat.div_div_eq_div_mul, Nat.add_mul_div_left _ _ (by norm_num), Nat.div_eq_of_lt hhead,
        Nat.zero_add]

lemma isDigits_windowDigit (k : Scalar) : IsDigits (windowDigit k) k.value := by
  intro window hwindow
  have hshift : (UInt32.ofNat (window % 2 * 16)).toNat = window % 2 * 16 := by
    rw [UInt32.toNat_ofNat', Nat.mod_eq_of_lt]
    omega
  have hmask : ((k.words.word (window / 2) >>> UInt32.ofNat (window % 2 * 16)) &&& 0xffff).toNat =
      (k.words.word (window / 2)).toNat / 2 ^ (window % 2 * 16) % 65536 := by
    rw [UInt32.toNat_and, UInt32.toNat_shiftRight, hshift, Nat.mod_eq_of_lt (by omega),
      Nat.shiftRight_eq_div_pow]
    exact Nat.and_two_pow_sub_one_eq_mod _ 16
  rw [windowDigit, hmask, word_eq _ (by omega), ← Scalar.value, show 65536 = 2 ^ 16 by norm_num,
    ← pow_mul]
  rcases Nat.mod_two_eq_zero_or_one window with heven | hodd
  · rw [heven, Nat.zero_mul, pow_zero, Nat.div_one, show 32 * (window / 2) = 16 * window by omega]
    exact Nat.mod_mod_of_dvd _ (by norm_num)
  · rw [hodd, Nat.one_mul, show 16 * window = 32 * (window / 2) + 16 by omega, pow_add,
      ← Nat.div_div_eq_div_mul]
    generalize k.value / 2 ^ (32 * (window / 2)) = v
    omega

/-! ## Windows -/

section Windows

variable {table : Memory UInt32} {digit : ℕ → ℕ} {v : ℕ} {point : Point}

/-- A window more: with the lower windows added, its digit is. -/
lemma addWindow_represents (htable : Complete table) (hdigit : IsDigits digit v) {window : ℕ}
    (hwindow : window < 16) (h : point.Represents ((v % 65536 ^ window) • G)) :
    (addWindow table digit point window).Represents ((v % 65536 ^ (window + 1)) • G) := by
  have hmod : v % 65536 ^ (window + 1) = v % 65536 ^ window + digit window * 65536 ^ window := by
    rw [pow_succ, Nat.mod_mul, hdigit window hwindow, mul_comm (65536 ^ window)]
  have hlt : digit window < 65536 := by
    rw [hdigit window hwindow]
    exact Nat.mod_lt _ (by norm_num)
  rw [addWindow, hmod]
  by_cases hzero : digit window = 0
  · rw [if_pos hzero, hzero, Nat.zero_mul, Nat.add_zero]
    exact h
  · rw [if_neg hzero, add_nsmul]
    exact h.addAffine (htable window (digit window) hwindow (Nat.pos_of_ne_zero hzero) hlt)

lemma foldl_addWindow_represents (htable : Complete table) (hdigit : IsDigits digit v)
    (count first : ℕ) (hcount : first + count ≤ 16)
    (h : point.Represents ((v % 65536 ^ first) • G)) :
    ((List.range' first count).foldl (addWindow table digit) point).Represents
      ((v % 65536 ^ (first + count)) • G) := by
  induction count generalizing first point with
  | zero => exact h
  | succ count ih =>
    rw [List.range'_succ, List.foldl_cons, show first + (count + 1) = first + 1 + count by ring]
    exact ih _ (by omega) (addWindow_represents htable hdigit (by omega) h)

/-- The portable loop multiplies the generator by every scalar. -/
theorem sharedStageB_represents (htable : Complete table) (k : Scalar) :
    (sharedStageB table k).Represents (k.value • G) := by
  have hstart : Point.infinity.Represents ((k.value % 65536 ^ 0) • G) := by
    rw [pow_zero, Nat.mod_one, zero_nsmul]
    exact .infinity
  have h := foldl_addWindow_represents htable (isDigits_windowDigit k) 16 0 le_rfl hstart
  have hlt : k.value < 65536 ^ (0 + 16) := Words.value_lt k.words
  rw [Nat.mod_eq_of_lt hlt] at h
  rw [sharedStageB, List.range_eq_range']
  exact h

end Windows

/-- The greatest scalar, which is past the order. -/
theorem sharedStageB_represents_greatest : ∃ table, Complete table ∧
    (sharedStageB table ⟨⟨List.replicate 8 0xffffffff, rfl⟩⟩).Represents
      ((⟨⟨List.replicate 8 0xffffffff, rfl⟩⟩ : Scalar).value • G) := by
  obtain ⟨table, htable⟩ := exists_complete
  exact ⟨table, htable, sharedStageB_represents htable _⟩

/-! ## Launches -/

lemma pointAt_writePoint (points : Memory UInt32) (candidate : ℕ) (point : Point) :
    pointAt (writePoint points candidate point) candidate = point := by
  rw [pointAt, writePoint]
  rw [Memory.read_write_self, Memory.read_write_of_disjoint, Memory.read_write_of_disjoint,
    Memory.read_write_self, Memory.read_write_of_disjoint, Memory.read_write_self]
  all_goals
    simp only [List.Vector.toList_length]
    omega

lemma pointAt_writePoint_of_ne (points : Memory UInt32) {candidate candidate' : ℕ} (point : Point)
    (h : candidate ≠ candidate') :
    pointAt (writePoint points candidate' point) candidate = pointAt points candidate := by
  rw [pointAt, pointAt, writePoint]
  rw [Memory.read_write_of_disjoint, Memory.read_write_of_disjoint, Memory.read_write_of_disjoint,
    Memory.read_write_of_disjoint, Memory.read_write_of_disjoint, Memory.read_write_of_disjoint,
    Memory.read_write_of_disjoint, Memory.read_write_of_disjoint, Memory.read_write_of_disjoint]
  all_goals
    simp only [List.Vector.toList_length]
    omega

/-- A launch over every candidate. -/
structure Launch (order : List ℕ) (count : ℕ) : Prop where
  nodup : order.Nodup
  mem : ∀ candidate < count, candidate ∈ order

section Launch

variable {scalars : Memory UInt8} {table : Memory UInt32} {count candidate : ℕ}

/-- A launch does to the point of a candidate what its thread does. -/
lemma pointAt_launch {first : ℕ} {order : List ℕ} (horder : Launch order count)
    (hcandidate : candidate < count) (points : Memory UInt32) :
    pointAt (order.foldl (fixedBasePart first scalars table count) points) candidate =
      (List.range' first 4).foldl
        (addWindow table (byteDigit (scalars.readBytes (candidate * 32) 32)))
        (if first = 0 then .infinity else pointAt points candidate) := by
  refine (view_launch (fun candidate points => pointAt points candidate)
    (fun t p => if t ≥ count then p else
      (List.range' first 4).foldl (addWindow table (byteDigit (scalars.readBytes (t * 32) 32)))
        (if first = 0 then .infinity else p)) ?_ ?_ horder.nodup (horder.mem _ hcandidate)
    points).trans (if_neg (by omega))
  · intro t t' points hne
    rw [fixedBasePart]
    by_cases ht : t' ≥ count
    · rw [if_pos ht]
    · rw [if_neg ht]
      exact pointAt_writePoint_of_ne points _ hne
  · intro t points
    rw [fixedBasePart]
    by_cases ht : t ≥ count
    · rw [if_pos ht, if_pos ht]
    · rw [if_neg ht, if_neg ht]
      exact pointAt_writePoint points t _

/-- The four launches multiply the generator by the scalar of each candidate. -/
theorem stageB_represents (htable : Complete table) {order0 order1 order2 order3 : List ℕ}
    (h0 : Launch order0 count) (h1 : Launch order1 count) (h2 : Launch order2 count)
    (h3 : Launch order3 count) (hcandidate : candidate < count) (points : Memory UInt32) :
    (pointAt (stageB scalars table count order0 order1 order2 order3 points) candidate).Represents
      (fromBe (scalars.readBytes (candidate * 32) 32).bytes • G) := by
  have hdigits := isDigits_byteDigit (scalars.readBytes (candidate * 32) 32)
  have hlt := fromBe_lt (scalars.readBytes (candidate * 32) 32).bytes
  rw [ByteVec.length_bytes] at hlt
  generalize fromBe (scalars.readBytes (candidate * 32) 32).bytes = v at hdigits hlt ⊢
  have hrest : ∀ {first : ℕ} {point : Point}, first + 4 ≤ 16 →
      point.Represents ((v % 65536 ^ first) • G) →
      ((List.range' first 4).foldl
        (addWindow table (byteDigit (scalars.readBytes (candidate * 32) 32))) point).Represents
        ((v % 65536 ^ (first + 4)) • G) :=
    fun hle h => foldl_addWindow_represents htable hdigits 4 _ hle h
  have hstart : Point.infinity.Represents ((v % 65536 ^ 0) • G) := by
    rw [pow_zero, Nat.mod_one, zero_nsmul]
    exact .infinity
  have h := hrest (by norm_num) (hrest (by norm_num) (hrest (by norm_num)
    (hrest (by norm_num) hstart)))
  rw [Nat.mod_eq_of_lt (by norm_num at hlt ⊢; exact hlt)] at h
  rw [stageB]
  rw [pointAt_launch h3 hcandidate, pointAt_launch h2 hcandidate, pointAt_launch h1 hcandidate,
    pointAt_launch h0 hcandidate]
  exact h

end Launch

end Pickaxe.Engine
