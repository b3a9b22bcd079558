/-
# Numbers as words

A number below `2 ^ (32 * n)` as `n` words of 32 bits, the least significant first: the value of
words, the words of a value, and how the value is put together from parts.
-/
import Mathlib.Data.Nat.Digits.Defs
import Mathlib.Data.Vector.Basic
import Mathlib.Tactic.Ring

namespace Pickaxe.Lib

/-- Words of 32 bits, the least significant first. -/
abbrev Words (n : ℕ) := List.Vector UInt32 n

namespace Words

/-- The value of a list of words. -/
def listValue : List UInt32 → ℕ
  | [] => 0
  | w :: ws => w.toNat + 2 ^ 32 * listValue ws

/-- The value of words. -/
def value {n : ℕ} (a : Words n) : ℕ := listValue a.toList

/-- The words of a value. -/
def ofNat : (n : ℕ) → ℕ → Words n
  | 0, _ => .nil
  | n + 1, v => UInt32.ofNat v ::ᵥ ofNat n (v / 2 ^ 32)

/-- A word by its index. -/
def word {n : ℕ} (a : Words n) (i : ℕ) : UInt32 := a.toList.getD i 0

variable {n : ℕ}

@[simp] lemma value_nil (a : Words 0) : value a = 0 := by
  rw [List.Vector.eq_nil a]
  rfl

@[simp] lemma value_cons (w : UInt32) (a : Words n) :
    value (w ::ᵥ a) = w.toNat + 2 ^ 32 * value a := by
  rw [value, List.Vector.toList_cons]
  rfl

lemma value_eq_head_tail (a : Words (n + 1)) :
    value a = a.head.toNat + 2 ^ 32 * value a.tail := by
  conv_lhs => rw [← List.Vector.cons_head_tail a]
  exact value_cons _ _

lemma word_zero (a : Words (n + 1)) : word a 0 = a.head := by
  conv_lhs => rw [← List.Vector.cons_head_tail a]
  rfl

lemma word_succ (a : Words (n + 1)) (i : ℕ) : word a (i + 1) = word a.tail i := by
  conv_lhs => rw [← List.Vector.cons_head_tail a]
  rfl

/-- The words are the digits of the value to the base 2³². -/
lemma listValue_eq_ofDigits (l : List UInt32) :
    listValue l = Nat.ofDigits (2 ^ 32) (l.map UInt32.toNat) := by
  induction l with
  | nil => rfl
  | cons w ws ih => rw [listValue, ih, List.map_cons, Nat.ofDigits_cons]

lemma lt_of_mem_map_toNat {l : List UInt32} {d : ℕ} (h : d ∈ l.map UInt32.toNat) : d < 2 ^ 32 := by
  obtain ⟨w, -, rfl⟩ := List.mem_map.mp h
  exact w.toNat_lt

lemma value_lt (a : Words n) : value a < 2 ^ (32 * n) := by
  have h := Nat.ofDigits_lt_base_pow_length (l := a.toList.map UInt32.toNat)
    (by decide : 1 < 2 ^ 32) fun _ => lt_of_mem_map_toNat
  rwa [List.length_map, List.Vector.toList_length, ← listValue_eq_ofDigits, ← pow_mul] at h

@[simp] lemma value_ofNat (n v : ℕ) : value (ofNat n v) = v % 2 ^ (32 * n) := by
  induction n generalizing v with
  | zero => simp [Nat.mod_one]
  | succ n ih =>
    rw [ofNat, value_cons, ih, Nat.mul_succ, Nat.add_comm (32 * n), pow_add, Nat.mod_mul,
      UInt32.toNat_ofNat']

/-- Words with the same value are the same. -/
lemma value_injective : Function.Injective (value : Words n → ℕ) := by
  intro a b h
  rw [value, value, listValue_eq_ofDigits, listValue_eq_ofDigits] at h
  have hdigits := Nat.ofDigits_inj_of_len_eq (by decide) (by simp)
    (fun _ => lt_of_mem_map_toNat) (fun _ => lt_of_mem_map_toNat) h
  exact List.Vector.toList_injective
    (List.map_injective_iff.mpr (fun _ _ => UInt32.toNat_inj.mp) hdigits)

lemma eq_ofNat {a : Words n} {v : ℕ} (h : value a = v % 2 ^ (32 * n)) : a = ofNat n v :=
  value_injective (h.trans (value_ofNat n v).symm)

@[simp] lemma ofNat_value (a : Words n) : ofNat n (value a) = a :=
  (eq_ofNat (Nat.mod_eq_of_lt (value_lt a)).symm).symm

lemma listValue_append (a b : List UInt32) :
    listValue (a ++ b) = listValue a + 2 ^ (32 * a.length) * listValue b := by
  simp only [listValue_eq_ofDigits, List.map_append, Nat.ofDigits_append, List.length_map, pow_mul]

lemma value_append {k : ℕ} (a : Words n) (b : Words k) :
    value (a ++ b) = value a + 2 ^ (32 * n) * value b := by
  rw [value, List.Vector.toList_append, listValue_append, List.Vector.toList_length]
  rfl

/-! ## By index -/

/-- Words by a function of their index. -/
def ofFn (n : ℕ) (f : ℕ → UInt32) : Words n := ⟨(List.range n).map f, by simp⟩

/-- Words with one of them replaced. -/
def set (a : Words n) (i : ℕ) (v : UInt32) : Words n := ⟨a.toList.set i v, by simp⟩

@[simp] lemma word_ofFn {f : ℕ → UInt32} {i : ℕ} (h : i < n) : word (ofFn n f) i = f i := by
  simp [word, ofFn, List.Vector.toList_mk, h]

lemma word_set_self (a : Words n) {i : ℕ} (v : UInt32) (h : i < n) : word (set a i v) i = v := by
  simp [word, set, List.Vector.toList_mk, h]

lemma word_set_ne (a : Words n) {i j : ℕ} (v : UInt32) (h : j ≠ i) :
    word (set a i v) j = word a j := by
  simp [word, set, List.Vector.toList_mk, List.getElem?_set_ne h.symm]

lemma ext {a b : Words n} (h : ∀ i < n, word a i = word b i) : a = b := by
  apply List.Vector.ext
  intro i
  have hi := h i i.isLt
  simpa [word, List.Vector.get_eq_get_toList] using hi

end Words

end Pickaxe.Lib
