/-
# Windows of a periodic sequence

A predicate on the natural numbers that comes round every `c` places holds equally often in
every window of that length.  In a window of any length it holds as often as its share of the
window says, up to the number of times it holds in one period.
-/
import Mathlib.Algebra.Order.Field.Rat
import Mathlib.Data.Nat.Periodic
import Mathlib.Tactic.FieldSimp
import Mathlib.Tactic.Linarith
import Mathlib.Tactic.Ring

namespace Pickaxe.Lib.Periodic

open Function

variable (p : ℕ → Prop) [DecidablePred p]

/-- How often `p` holds at the `h` places from `n` on. -/
def hits (n h : ℕ) : ℕ := (List.range' n h).countP p

variable {p} {c n h k : ℕ}

@[simp] lemma hits_zero : hits p n 0 = 0 := rfl

lemma hits_add : hits p n (h + k) = hits p n h + hits p (n + h) k := by
  simp only [hits, ← List.countP_append, List.range'_append_1]

lemma hits_mono (hk : h ≤ k) : hits p n h ≤ hits p n k := by
  obtain ⟨d, rfl⟩ := Nat.exists_eq_add_of_le hk
  rw [hits_add]
  exact Nat.le_add_right _ _

lemma hits_of_forall (hp : ∀ x, n ≤ x → x < n + h → p x) : hits p n h = h := by
  have hall : ∀ x ∈ List.range' n h, decide (p x) = true := by
    intro x hx
    obtain ⟨hle, hlt⟩ := List.mem_range'_1.mp hx
    simpa using hp x hle hlt
  rw [hits, List.countP_eq_length.mpr hall, List.length_range']

lemma hits_of_forall_not (hp : ∀ x, n ≤ x → x < n + h → ¬ p x) : hits p n h = 0 := by
  refine List.countP_eq_zero.mpr fun x hx => ?_
  obtain ⟨hle, hlt⟩ := List.mem_range'_1.mp hx
  simpa using hp x hle hlt

/-- Where `p` holds on one interval only, it holds as often as that is long. -/
lemma hits_interval {a : ℕ} (hle : a + h ≤ c) (hp : ∀ x < c, p x ↔ a ≤ x ∧ x < a + h) :
    hits p 0 c = h := by
  obtain ⟨d, rfl⟩ := Nat.exists_eq_add_of_le hle
  rw [hits_add, hits_add, Nat.zero_add,
    hits_of_forall_not fun x _ hx hpx => absurd ((hp x (by omega)).mp hpx).1 (by omega),
    hits_of_forall fun x hx hlt => (hp x (by omega)).mpr ⟨hx, hlt⟩,
    hits_of_forall_not fun x hx hlt hpx => absurd ((hp x (by omega)).mp hpx).2 (by omega)]
  omega

/-- One whole period, wherever it starts. -/
lemma hits_period (hc : Periodic p c) : hits p n c = hits p 0 c := by
  have hcount : ∀ m, hits p m c = c.count p := by
    intro m
    rw [← Nat.filter_multiset_Ico_card_eq_of_periodic m c p hc, hits,
      List.countP_eq_length_filter]
    simp [Multiset.Ico, Nat.Ico_eq_range']
  rw [hcount, hcount]

/-- A window of any length, up to what one period holds: the whole periods in it are exact, and
what is left over is shorter than a period. -/
lemma hits_window (hc : Periodic p c) (hpos : 0 < c) :
    hits p n h * c ≤ h * hits p 0 c + hits p 0 c * c ∧
      h * hits p 0 c ≤ hits p n h * c + hits p 0 c * c := by
  induction h using Nat.strong_induction_on generalizing n with
  | _ h ih =>
    rcases Nat.lt_or_ge h c with hlt | hge
    · have hle : hits p n h ≤ hits p 0 c := hits_period (n := n) hc ▸ hits_mono hlt.le
      constructor
      · have := Nat.mul_le_mul_right c hle
        omega
      · have := Nat.mul_le_mul_right (hits p 0 c) hlt.le
        rw [Nat.mul_comm (hits p 0 c) c]
        omega
    · obtain ⟨d, rfl⟩ := Nat.exists_eq_add_of_le hge
      obtain ⟨hupper, hlower⟩ := ih d (by omega) (n := n + c)
      rw [hits_add, hits_period hc]
      constructor <;> nlinarith only [hupper, hlower]

/-- How far a window is from its share of a period. -/
lemma abs_hits_sub_le (hc : Periodic p c) (hpos : 0 < c) :
    |(hits p n h : ℚ) - h * (hits p 0 c / c)| ≤ hits p 0 c := by
  obtain ⟨hupper, hlower⟩ := hits_window (n := n) (h := h) hc hpos
  have hcq : (0 : ℚ) < c := by exact_mod_cast hpos
  have hu : (hits p n h : ℚ) * c ≤ h * hits p 0 c + hits p 0 c * c := by exact_mod_cast hupper
  have hl : (h : ℚ) * hits p 0 c ≤ hits p n h * c + hits p 0 c * c := by exact_mod_cast hlower
  have heq : ((hits p n h : ℚ) - h * (hits p 0 c / c)) * c = hits p n h * c - h * hits p 0 c := by
    field_simp
  rw [abs_le]
  constructor
  · refine le_of_mul_le_mul_right ?_ hcq
    rw [heq, neg_mul]
    linarith
  · refine le_of_mul_le_mul_right ?_ hcq
    rw [heq]
    linarith

/-! ## Windows of a list laid out by a periodic function -/

variable {α : Type} {f : ℕ → α}

lemma map_range'_mod (hf : Periodic f c) :
    (List.range' (n % c) h).map f = (List.range' n h).map f := by
  simp only [List.range'_eq_map_range, List.map_map]
  refine List.map_congr_left fun i _ => ?_
  rw [Function.comp_apply, Function.comp_apply, ← hf.map_mod_nat (n % c + i), Nat.mod_add_mod,
    hf.map_mod_nat]

lemma count_window [DecidableEq α] {before window after : List α} (a : α)
    (heq : (List.range' n h).map f = before ++ window ++ after) :
    window.count a = hits (fun k => f k = a) (n + before.length) window.length := by
  rw [List.append_assoc] at heq
  obtain ⟨_, rest, hrange, rfl, hrest⟩ := List.map_eq_append_iff.mp heq
  obtain ⟨i, -, rfl, rfl⟩ := List.range'_eq_append_iff.mp hrange
  obtain ⟨_, _, hrange, rfl, -⟩ := List.map_eq_append_iff.mp hrest
  obtain ⟨j, -, rfl, -⟩ := List.range'_eq_append_iff.mp hrange
  simp only [hits, List.count, List.countP_map, List.length_map, List.length_range', Nat.mul_one]
  refine List.countP_congr fun k _ => ?_
  simp

end Pickaxe.Lib.Periodic
