/-
# The last few of a growing list

A bounded memory keeps the last `size` of what was put in.  If only what it does not hold is put in,
then any two of `size + 1` in a row differ.
-/
import Mathlib.Data.List.Basic
import Mathlib.Data.List.TakeDrop

namespace Pickaxe.Lib.Recent

variable {α : Type} {size : ℕ} {all : List α} {a : α}

/-- What is kept of `all`. -/
def kept (size : ℕ) (all : List α) : List α := all.drop (all.length - size)

/-- The oldest gives way when the memory is full. -/
def push (size : ℕ) (memory : List α) (a : α) : List α :=
  (if size ≤ memory.length then memory.tail else memory) ++ [a]

/-- Two that are at most `size` apart differ. -/
def Distinct (size : ℕ) (all : List α) : Prop :=
  ∀ i j x y, i < j → j ≤ i + size → all[i]? = some x → all[j]? = some y → x ≠ y

lemma length_kept : (kept size all).length = min size all.length := by
  rw [kept, List.length_drop]
  omega

lemma push_kept (hsize : 0 < size) : push size (kept size all) a = kept size (all ++ [a]) := by
  have hlength : (all ++ [a]).length = all.length + 1 := by simp
  rw [push, length_kept, kept, kept, hlength]
  by_cases hfull : size ≤ all.length
  · rw [if_pos (by omega), List.tail_drop, List.drop_append_of_le_length (by omega)]
    congr 2
    omega
  · rw [if_neg (by omega), List.drop_append_of_le_length (by omega)]
    congr 2
    omega

lemma Distinct.nil : Distinct size ([] : List α) := nofun

/-- Something new joins. -/
lemma Distinct.append (h : Distinct size all) (hnew : a ∉ kept size all) :
    Distinct size (all ++ [a]) := by
  intro i j x y hij hnear hi hj
  rcases Nat.lt_trichotomy j all.length with hlt | rfl | hgt
  · rw [List.getElem?_append_left (by omega)] at hi hj
    exact h i j x y hij hnear hi hj
  · rw [List.getElem?_append_left hij] at hi
    rw [List.getElem?_concat_length, Option.some.injEq] at hj
    subst hj
    rintro rfl
    refine hnew (List.mem_iff_getElem?.mpr ⟨i - (all.length - size), ?_⟩)
    rw [kept, List.getElem?_drop, ← hi]
    congr 1
    omega
  · rw [List.getElem?_eq_none (by rw [List.length_append, List.length_singleton]; omega)] at hj
    cases hj

end Pickaxe.Lib.Recent
