/-
# A limit on what is answered in a window

Requests are answered at once while fewer than `limit` answers lie in the last `width`, and else as
late as keeps that bound: the answer goes `width` behind the one that is `limit` places before it.
Times are kept in a queue, in the order of the answers, and leave it from the front; an answer that
is still to come stays.
-/
import Mathlib.Data.List.Basic
import Mathlib.Data.List.GetD
import Mathlib.Data.List.Pairwise
import Mathlib.Data.List.TakeWhile
import Mathlib.Data.Nat.Basic

namespace Pickaxe.Lib.Window

/-- The times that have not left the window. -/
def recent (width now : ℕ) (queue : List ℕ) : List ℕ := queue.dropWhile fun t => width ≤ now - t

/-- When a request is answered. -/
def answerAt (limit width now : ℕ) (queue : List ℕ) : ℕ :=
  if limit ≤ (recent width now queue).length then
    (recent width now queue).getD ((recent width now queue).length - limit) 0 + width
  else now

/-- The answers so far and the queue: what has left it is past, and an answer is late only for the
one that is `limit` places before it. -/
structure Limited (limit width now : ℕ) (answers queue : List ℕ) : Prop where
  popped : ∃ past, answers = past ++ queue ∧ ∀ t ∈ past, t + width ≤ now
  sorted : answers.Pairwise (· ≤ ·)
  spaced : ∀ i a b, answers[i]? = some a → answers[i + limit]? = some b → a + width ≤ b
  due : ∀ i b, answers[i]? = some b →
    b ≤ now ∨ ∃ j a, i = j + limit ∧ answers[j]? = some a ∧ b = a + width

variable {limit width now now' : ℕ} {answers queue : List ℕ}

lemma Limited.nil : Limited limit width now [] [] where
  popped := ⟨[], rfl, nofun⟩
  sorted := .nil
  spaced := nofun
  due := nofun

lemma Limited.later (h : Limited limit width now answers queue) (hle : now ≤ now') :
    Limited limit width now' answers queue where
  popped := by
    obtain ⟨past, hanswers, hpast⟩ := h.popped
    exact ⟨past, hanswers, fun t ht => Nat.le_trans (hpast t ht) hle⟩
  sorted := h.sorted
  spaced := h.spaced
  due := by
    intro i b hb
    obtain hnow | hlate := h.due i b hb
    · exact .inl (Nat.le_trans hnow hle)
    · exact .inr hlate

/-- What leaves the queue is past, and what stays is not. -/
lemma Limited.recent (hwidth : 0 < width) (h : Limited limit width now answers queue) :
    ∃ past, answers = past ++ recent width now queue ∧ (∀ t ∈ past, t + width ≤ now) ∧
      ∀ t ∈ recent width now queue, now < t + width := by
  obtain ⟨past, rfl, hpast⟩ := h.popped
  refine ⟨past ++ queue.takeWhile fun t => width ≤ now - t, ?_, ?_, ?_⟩
  · rw [List.append_assoc, Window.recent, List.takeWhile_append_dropWhile]
  · intro t ht
    obtain ht | ht := List.mem_append.mp ht
    · exact hpast t ht
    · have hleft := List.mem_takeWhile_imp ht
      have hle : width ≤ now - t := of_decide_eq_true hleft
      omega
  · have hsorted : (Window.recent width now queue).Pairwise (· ≤ ·) :=
      (List.pairwise_append.mp h.sorted).2.1.sublist (List.dropWhile_sublist _)
    have hfirst := List.head?_dropWhile_not (fun t => decide (width ≤ now - t)) queue
    intro t ht
    cases hrecent : Window.recent width now queue with
    | nil =>
      rw [hrecent] at ht
      cases ht
    | cons first rest =>
      have hdrop : (queue.dropWhile fun t => decide (width ≤ now - t)) = first :: rest := hrecent
      rw [hdrop] at hfirst
      rw [hrecent] at hsorted ht
      have hnot : ¬ width ≤ now - first := of_decide_eq_false hfirst
      obtain rfl | ht := List.mem_cons.mp ht
      · omega
      · have hle := List.rel_of_pairwise_cons hsorted ht
        omega

/-- An answer keeps the limit, and does not come before its request. -/
theorem Limited.answer (hlimit : 0 < limit) (hwidth : 0 < width)
    (h : Limited limit width now answers queue) :
    Limited limit width now (answers ++ [answerAt limit width now queue])
      (Window.recent width now queue ++ [answerAt limit width now queue]) ∧
      now ≤ answerAt limit width now queue := by
  obtain ⟨past, hanswers, hpast, hrecent⟩ := h.recent hwidth
  have hlength : answers.length = past.length + (Window.recent width now queue).length := by
    rw [hanswers, List.length_append]
  -- the answer is the request, and what is `limit` places before has left, or it is late for that
  have hcases : (answerAt limit width now queue = now ∧
        ∀ j a, j + limit ≤ answers.length → answers[j]? = some a → a + width ≤ now) ∨
      ∃ j a, answers.length = j + limit ∧ answers[j]? = some a ∧ now < a + width ∧
        answerAt limit width now queue = a + width := by
    by_cases hfull : limit ≤ (Window.recent width now queue).length
    · have hlt : (Window.recent width now queue).length - limit <
          (Window.recent width now queue).length := by omega
      refine .inr ⟨past.length + ((Window.recent width now queue).length - limit),
        (Window.recent width now queue)[(Window.recent width now queue).length - limit], by omega,
        ?_, hrecent _ (List.getElem_mem hlt), ?_⟩
      · rw [hanswers, List.getElem?_append_right (by omega), Nat.add_sub_cancel_left,
          List.getElem?_eq_getElem hlt]
      · rw [answerAt, if_pos hfull, List.getD_eq_getElem _ _ hlt]
    · refine .inl ⟨by rw [answerAt, if_neg hfull], ?_⟩
      intro j a hj ha
      rw [hanswers, List.getElem?_append_left (by omega)] at ha
      exact hpast a (List.mem_of_getElem? ha)
  generalize hanswer : answerAt limit width now queue = answer at hcases
  have hnow : now ≤ answer := by
    obtain ⟨rfl, -⟩ | ⟨_, a, -, -, hlt, rfl⟩ := hcases
    · exact Nat.le_refl _
    · omega
  have hlast : ∀ t ∈ answers, t ≤ answer := by
    intro t ht
    obtain ⟨i, hi, rfl⟩ := List.mem_iff_getElem.mp ht
    obtain hpast | ⟨j, a, rfl, ha, hlate⟩ := h.due i answers[i] (List.getElem?_eq_getElem hi)
    · exact Nat.le_trans hpast hnow
    obtain ⟨rfl, hleft⟩ | ⟨j', a', hj', ha', -, rfl⟩ := hcases
    · rw [hlate]
      exact hleft j a (Nat.le_of_lt hi) ha
    · -- the answers that these two are late for stand in the same order
      obtain ⟨hj, rfl⟩ := List.getElem?_eq_some_iff.mp ha
      obtain ⟨hj'', rfl⟩ := List.getElem?_eq_some_iff.mp ha'
      have hlt : j < j' := by omega
      have hle := List.pairwise_iff_getElem.mp h.sorted j j' hj hj'' hlt
      omega
  have hat : ∀ i b, (answers ++ [answer])[i]? = some b →
      answers[i]? = some b ∨ (i = answers.length ∧ b = answer) := by
    intro i b hb
    by_cases hi : i < answers.length
    · rw [List.getElem?_append_left hi] at hb
      exact .inl hb
    · obtain ⟨hlt, rfl⟩ := List.getElem?_eq_some_iff.mp hb
      rw [List.length_append, List.length_singleton] at hlt
      obtain rfl : i = answers.length := by omega
      exact .inr ⟨rfl, List.getElem_concat_length rfl _⟩
  refine ⟨⟨⟨past, ?_, hpast⟩, ?_, ?_, ?_⟩, hnow⟩
  · rw [← List.append_assoc, ← hanswers]
  · refine List.pairwise_append.mpr ⟨h.sorted, List.pairwise_singleton _ _, ?_⟩
    intro t ht t' ht'
    obtain rfl := List.mem_singleton.mp ht'
    exact hlast t ht
  · intro i a b ha hb
    obtain hb' | ⟨hi, rfl⟩ := hat _ b hb
    · obtain ha' | ⟨rfl, -⟩ := hat _ a ha
      · exact h.spaced i a b ha' hb'
      · obtain ⟨hlt, -⟩ := List.getElem?_eq_some_iff.mp hb'
        omega
    · obtain ha' | ⟨rfl, -⟩ := hat _ a ha
      · obtain ⟨rfl, hleft⟩ | ⟨j, late, hj, hlate, -, rfl⟩ := hcases
        · exact hleft i a (Nat.le_of_eq hi) ha'
        · obtain rfl : i = j := by omega
          obtain rfl := Option.some.inj (ha'.symm.trans hlate)
          exact Nat.le_refl _
      · omega
  · intro i b hb
    obtain hb | ⟨rfl, rfl⟩ := hat _ b hb
    · obtain hpast | ⟨j, a, hi, ha, hlate⟩ := h.due i b hb
      · exact .inl hpast
      · refine .inr ⟨j, a, hi, ?_, hlate⟩
        exact (List.getElem?_append_left (List.getElem?_eq_some_iff.mp ha).1).trans ha
    · obtain ⟨rfl, -⟩ | ⟨j, a, hj, ha, -, hlate⟩ := hcases
      · exact .inl (Nat.le_refl _)
      · refine .inr ⟨j, a, hj, ?_, hlate⟩
        exact (List.getElem?_append_left (List.getElem?_eq_some_iff.mp ha).1).trans ha

end Pickaxe.Lib.Window
