/-
# Greedy selection

A greedy loop goes through the positions of a mask in some order and marks a position if the mask
with it is still good.  No turn looks back, so the mask a position is tried on is the final mask
cut off before it (`run_of_split`), and with an order that sorts the positions, the final mask is
described position by position (`run_sorted`).
-/
import Mathlib.Data.List.Basic
import Mathlib.Data.List.Range
import Mathlib.Data.List.Nodup

namespace Pickaxe.Lib.Greedy

variable (good : List Bool → Bool)

/-- One turn: position `i` is marked if the mask with it is good. -/
def mark (mask : List Bool) (i : ℕ) : List Bool :=
  if good (mask.set i true) then mask.set i true else mask.set i false

/-- All turns, in the order given. -/
def run (order : List ℕ) (mask : List Bool) : List Bool := order.foldl (mark good) mask

@[simp] lemma length_mark (mask : List Bool) (i : ℕ) : (mark good mask i).length = mask.length := by
  unfold mark
  split_ifs <;> simp

@[simp] lemma length_run (order : List ℕ) (mask : List Bool) :
    (run good order mask).length = mask.length := by
  induction order generalizing mask with
  | nil => rfl
  | cons i order ih => exact (ih (mark good mask i)).trans (length_mark good mask i)

/-- A turn changes its own position only. -/
lemma mark_of_ne {mask : List Bool} {i j : ℕ} (h : j ≠ i) : (mark good mask i)[j]? = mask[j]? := by
  unfold mark
  split_ifs <;> exact List.getElem?_set_ne (Ne.symm h)

lemma mark_self {mask : List Bool} {i : ℕ} (h : i < mask.length) :
    (mark good mask i)[i]? = some (good (mask.set i true)) := by
  unfold mark
  split_ifs with hgood
  · rw [List.getElem?_set_self h, hgood]
  · rw [List.getElem?_set_self h, Bool.eq_false_iff.mpr hgood]

/-- Positions without a turn stay as they are. -/
lemma run_of_notMem {order : List ℕ} {mask : List Bool} {j : ℕ} (h : j ∉ order) :
    (run good order mask)[j]? = mask[j]? := by
  induction order generalizing mask with
  | nil => rfl
  | cons i order ih =>
    rw [List.mem_cons, not_or] at h
    exact (ih h.2).trans (mark_of_ne good h.1)

lemma run_append (done later : List ℕ) (mask : List Bool) :
    run good (done ++ later) mask = run good later (run good done mask) := List.foldl_append

/-- A position is marked if the mask before its turn takes it, and that mask is the final one where
turns were taken. -/
lemma run_of_split {done later : List ℕ} {i : ℕ} (hnodup : (done ++ i :: later).Nodup)
    {mask : List Bool} (hi : i < mask.length) :
    (run good (done ++ i :: later) mask)[i]? = some (good ((run good done mask).set i true)) ∧
      ∀ j ∈ done, (run good done mask)[j]? = (run good (done ++ i :: later) mask)[j]? := by
  obtain ⟨-, hrest, hdisjoint⟩ := List.nodup_append'.mp hnodup
  rw [run_append]
  constructor
  · show (run good later (mark good (run good done mask) i))[i]? = _
    rw [run_of_notMem good (List.nodup_cons.mp hrest).1]
    exact mark_self good (by rwa [length_run])
  · intro j hj
    exact (run_of_notMem good (hdisjoint hj)).symm

/-- The marks of `mask` on the positions ahead of `i`, and on `i` itself. -/
def beside (ahead : ℕ → ℕ → Prop) [DecidableRel ahead] (mask : List Bool) (i : ℕ) : List Bool :=
  (List.range mask.length).map fun j =>
    decide (j = i) || (decide (ahead j i) && mask.getD j false)

/-- A run over all positions in sorted order marks exactly those that are good beside the marked
ones ahead of them. -/
theorem run_sorted {ahead : ℕ → ℕ → Prop} [DecidableRel ahead]
    (hasymm : ∀ i j, ahead i j → ¬ ahead j i) {order : List ℕ} {n : ℕ}
    (hperm : order.Perm (List.range n)) (hsorted : order.Pairwise ahead) {i : ℕ} (hi : i < n) :
    (run good order (List.replicate n false))[i]? =
      some (good (beside ahead (run good order (List.replicate n false)) i)) := by
  have hmem : ∀ j, j ∈ order ↔ j < n := fun j => by rw [hperm.mem_iff, List.mem_range]
  obtain ⟨done, later, rfl⟩ := List.append_of_mem ((hmem i).mpr hi)
  have hnodup := hperm.nodup_iff.mpr List.nodup_range
  obtain ⟨hmark, hdone⟩ := run_of_split good hnodup
    (show i < (List.replicate n false).length by rwa [List.length_replicate])
  obtain ⟨-, hrest, hbefore⟩ := List.pairwise_append.mp hsorted
  have hahead : ∀ j, j < n → j ≠ i → (ahead j i ↔ j ∈ done) := by
    intro j hj hne
    refine ⟨fun h => ?_, fun h => hbefore j h i List.mem_cons_self⟩
    rcases List.mem_append.mp ((hmem j).mpr hj) with hin | hin
    · exact hin
    · rcases List.mem_cons.mp hin with heq | hlater
      · exact absurd heq hne
      · exact absurd h (hasymm _ _ ((List.pairwise_cons.mp hrest).1 j hlater))
  rw [hmark]
  congr 2
  apply List.ext_getElem?
  intro j
  by_cases hj : j < n
  · by_cases hne : j = i
    · subst hne
      rw [List.getElem?_set_self (by simpa using hj)]
      simp [beside, hj]
    · rw [List.getElem?_set_ne (Ne.symm hne)]
      by_cases hin : j ∈ done
      · rw [hdone j hin]
        simp [beside, hj, hne, (hahead j hj hne).mpr hin]
      · rw [run_of_notMem good hin]
        simp [beside, hj, hne, mt (hahead j hj hne).mp hin]
  · simp [beside, hj]

end Pickaxe.Lib.Greedy
