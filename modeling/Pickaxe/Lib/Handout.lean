/-
# Handing out items to claimants

Items of different weights are handed out whole, one after the other, each to a claimant that
still needs at least its weight, or to nobody.  Whatever rule picks the claimant, what was handed
to it and what it still needs are together what it needed, and the weight of the items left over
is what all claimants together still need.
-/
import Mathlib.Algebra.BigOperators.Group.List.Basic
import Mathlib.Algebra.Order.BigOperators.Group.List
import Mathlib.Algebra.Order.Field.Rat
import Mathlib.Tactic.Linarith
import Mathlib.Tactic.Ring

namespace Pickaxe.Lib.Handout

variable {O : Type} [DecidableEq O]

/-- What the claimants still need, and whom each item was handed to. -/
structure State (O : Type) where
  needs : List (O × ℚ)
  given : List (Option O)

/-- What one claimant needs. -/
def need (needs : List (O × ℚ)) (o : O) : ℚ :=
  (needs.map fun entry => if entry.1 = o then entry.2 else 0).sum

/-- What all claimants need. -/
def total (needs : List (O × ℚ)) : ℚ := (needs.map Prod.snd).sum

/-- The weight of the items a claimant holds; of those left over for `none`. -/
def held (weights : List ℚ) (given : List (Option O)) (o : Option O) : ℚ :=
  ((weights.zip given).map fun item => if item.2 = o then item.1 else 0).sum

/-- An entry that needs `weight` less. -/
def less (weight : ℚ) (entry : O × ℚ) : O × ℚ := (entry.1, entry.2 - weight)

/-- One item, to whom `pick` says. -/
def give (pick : List (O × ℚ) → ℚ → Option ℕ) (weights : List ℚ) (s : State O) (item : ℕ) :
    State O :=
  match pick s.needs (weights.getD item 0) with
  | none => s
  | some index =>
    match s.needs[index]? with
    | none => s
    | some entry =>
      ⟨s.needs.modify index (less (weights.getD item 0)), s.given.set item (some entry.1)⟩

/-- A rule that picks only claimants who need at least the item. -/
def Fits (pick : List (O × ℚ) → ℚ → Option ℕ) : Prop :=
  ∀ needs weight index, pick needs weight = some index →
    ∃ entry, needs[index]? = some entry ∧ weight ≤ entry.2

variable {needs : List (O × ℚ)} {weights : List ℚ} {given : List (Option O)} {weight : ℚ}
  {index item : ℕ} {entry : O × ℚ}

lemma need_modify (h : needs[index]? = some entry) (o : O) :
    need (needs.modify index (less weight)) o =
      need needs o - if entry.1 = o then weight else 0 := by
  induction needs generalizing index with
  | nil => cases h
  | cons first rest ih =>
    cases index with
    | zero =>
      cases h
      simp only [List.modify_zero_cons, need, List.map_cons, List.sum_cons, less]
      split_ifs <;> ring
    | succ index =>
      have := ih h
      simp only [List.modify_succ_cons, need, List.map_cons, List.sum_cons] at this ⊢
      linarith

omit [DecidableEq O] in
lemma total_modify (h : needs[index]? = some entry) :
    total (needs.modify index (less weight)) = total needs - weight := by
  induction needs generalizing index with
  | nil => cases h
  | cons first rest ih =>
    cases index with
    | zero =>
      simp only [List.modify_zero_cons, total, List.map_cons, List.sum_cons, less]
      ring
    | succ index =>
      have := ih h
      simp only [List.modify_succ_cons, total, List.map_cons, List.sum_cons] at this ⊢
      linarith

omit [DecidableEq O] in
lemma nonneg_modify (hn : ∀ e ∈ needs, 0 ≤ e.2) (h : needs[index]? = some entry)
    (hle : weight ≤ entry.2) : ∀ e ∈ needs.modify index (less weight), 0 ≤ e.2 := by
  induction needs generalizing index with
  | nil => cases h
  | cons first rest ih =>
    cases index with
    | zero =>
      cases h
      simp only [List.modify_zero_cons, List.forall_mem_cons, less, sub_nonneg] at hn ⊢
      exact ⟨hle, hn.2⟩
    | succ index =>
      simp only [List.modify_succ_cons, List.forall_mem_cons] at hn ⊢
      exact ⟨hn.1, ih hn.2 h⟩

/-- An item that was left over goes to a claimant. -/
lemma held_set (hlen : given.length = weights.length) (h : given[item]? = some none) (a : O)
    (o : Option O) :
    held weights (given.set item (some a)) o =
      held weights given o + (if some a = o then weights.getD item 0 else 0)
        - if none = o then weights.getD item 0 else 0 := by
  induction given generalizing weights item with
  | nil => cases h
  | cons first rest ih =>
    obtain ⟨w, weights, rfl⟩ := List.exists_cons_of_length_eq_add_one hlen.symm
    cases item with
    | zero =>
      cases h
      simp only [List.set_cons_zero, held, List.zip_cons_cons, List.map_cons, List.sum_cons,
        List.getD_cons_zero]
      ring
    | succ item =>
      have := ih (by simpa using hlen) h
      simp only [List.set_cons_succ, held, List.zip_cons_cons, List.map_cons, List.sum_cons,
        List.getD_cons_succ] at this ⊢
      linarith

lemma held_eq_zero {o : Option O} (h : o ∉ given) : held weights given o = 0 := by
  refine List.sum_eq_zero fun q hq => ?_
  obtain ⟨entry, hentry, rfl⟩ := List.mem_map.mp hq
  exact if_neg fun ho : entry.2 = o => h (ho ▸ (List.of_mem_zip hentry).2)

lemma le_held (hpos : ∀ w ∈ weights, 0 < w) {o : Option O} (hw : weights[item]? = some weight)
    (ho : given[item]? = some o) : weight ≤ held weights given o := by
  have hmem : (weight, o) ∈ weights.zip given :=
    List.mem_of_getElem? (List.getElem?_zip_eq_some.mpr ⟨hw, ho⟩)
  refine List.single_le_sum (fun q hq => ?_) _ (List.mem_map.mpr ⟨_, hmem, if_pos rfl⟩)
  obtain ⟨entry, hentry, rfl⟩ := List.mem_map.mp hq
  split_ifs
  · exact (hpos _ (List.of_mem_zip hentry).1).le
  · exact le_rfl

lemma held_pos (hlen : given.length = weights.length) (hpos : ∀ w ∈ weights, 0 < w) {o : Option O}
    (h : o ∈ given) : 0 < held weights given o := by
  obtain ⟨i, hi, rfl⟩ := List.mem_iff_getElem.mp h
  have hw : weights[i]? = some weights[i] := List.getElem?_eq_getElem (hlen ▸ hi)
  exact (hpos _ (List.mem_of_getElem? hw)).trans_le (le_held hpos hw (List.getElem?_eq_getElem hi))

/-! ## What handing out keeps -/

/-- What holds while the items of `todo` are still to be handed out. -/
structure Kept (needs : List (O × ℚ)) (weights : List ℚ) (todo : List ℕ) (s : State O) : Prop where
  length : s.given.length = weights.length
  left : ∀ i ∈ todo, s.given[i]? = some none
  nonneg : ∀ e ∈ s.needs, 0 ≤ e.2
  conserved : ∀ o, need s.needs o + held weights s.given (some o) = need needs o
  total : total s.needs + weights.sum = total needs + held weights s.given none

variable {pick : List (O × ℚ) → ℚ → Option ℕ} {todo : List ℕ} {s : State O}

lemma Kept.give (hpick : Fits pick) (hk : Kept needs weights (item :: todo) s)
    (hnot : item ∉ todo) : Kept needs weights todo (give pick weights s item) := by
  have hrest : Kept needs weights todo s :=
    ⟨hk.length, fun i hi => hk.left i (List.mem_cons_of_mem _ hi), hk.nonneg, hk.conserved,
      hk.total⟩
  have hnone : s.given[item]? = some none := hk.left item List.mem_cons_self
  unfold Handout.give
  split
  · exact hrest
  · rename_i index hindex
    obtain ⟨entry, hentry, hle⟩ := hpick _ _ _ hindex
    simp only [hentry]
    constructor
    · rw [List.length_set]
      exact hk.length
    · intro i hi
      rw [List.getElem?_set_ne (ne_of_mem_of_not_mem hi hnot).symm]
      exact hk.left i (List.mem_cons_of_mem _ hi)
    · exact nonneg_modify hk.nonneg hentry hle
    · intro o
      have := hk.conserved o
      rw [need_modify hentry, held_set hk.length hnone]
      by_cases ho : entry.1 = o
      · simp only [ho, if_true, reduceCtorEq, if_false]
        linarith
      · simp only [ho, if_false, Option.some.injEq, reduceCtorEq]
        linarith
    · have := hk.total
      rw [total_modify hentry, held_set hk.length hnone]
      simp only [reduceCtorEq, if_false, if_true]
      linarith

/-- All items, in any order, each once. -/
lemma Kept.run (hpick : Fits pick) (hnodup : todo.Nodup) (hk : Kept needs weights todo s) :
    Kept needs weights [] (todo.foldl (Handout.give pick weights) s) := by
  induction todo generalizing s with
  | nil => exact hk
  | cons item todo ih =>
    obtain ⟨hnot, hnodup⟩ := List.nodup_cons.mp hnodup
    exact ih hnodup (hk.give hpick hnot)

lemma need_nonneg (hn : ∀ e ∈ needs, 0 ≤ e.2) (o : O) : 0 ≤ need needs o := by
  refine List.sum_nonneg fun q hq => ?_
  obtain ⟨entry, hentry, rfl⟩ := List.mem_map.mp hq
  split_ifs
  · exact hn entry hentry
  · exact le_rfl

/-- Where nothing is needed, nobody needs anything. -/
lemma need_eq_zero (hn : ∀ e ∈ needs, 0 ≤ e.2) (hzero : total needs = 0) (o : O) :
    need needs o = 0 := by
  have hall : ∀ e ∈ needs, e.2 = 0 := by
    intro e he
    have hle : e.2 ≤ total needs := by
      refine List.single_le_sum (fun q hq => ?_) _ (List.mem_map_of_mem he)
      obtain ⟨entry, hentry, rfl⟩ := List.mem_map.mp hq
      exact hn entry hentry
    exact le_antisymm (hzero ▸ hle) (hn e he)
  refine List.sum_eq_zero fun q hq => ?_
  obtain ⟨entry, hentry, rfl⟩ := List.mem_map.mp hq
  simp [hall entry hentry]

lemma held_replicate (o : Option O) :
    held weights (List.replicate weights.length none) o = if none = o then weights.sum else 0 := by
  induction weights with
  | nil => simp [held]
  | cons w weights ih =>
    simp only [List.length_cons, List.replicate_succ, held, List.zip_cons_cons, List.map_cons,
      List.sum_cons] at ih ⊢
    rw [ih]
    split_ifs <;> simp

/-- Before the first item, all of them are left over. -/
lemma kept_start (hn : ∀ e ∈ needs, 0 ≤ e.2) (htodo : ∀ i ∈ todo, i < weights.length) :
    Kept needs weights todo ⟨needs, List.replicate weights.length none⟩ := by
  refine ⟨List.length_replicate, fun i hi => ?_, hn, fun o => ?_, ?_⟩
  · rw [List.getElem?_replicate, if_pos (htodo i hi)]
  · rw [held_replicate, if_neg nofun, add_zero]
  · rw [held_replicate, if_pos rfl]

end Pickaxe.Lib.Handout
