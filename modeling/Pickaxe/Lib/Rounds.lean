/-
# Rounds on eight variables

How engines unroll the rounds of a compression function.  The eight working variables stay in
their places and take each other's roles from round to round, and the message schedule is a
ring of sixteen words, each overwritten when its successor is due.  Here the unrolled rounds are
brought back to one step after another, and the ring to the schedule.
-/
import Mathlib.Data.Nat.Notation
import Mathlib.Order.Basic

namespace Pickaxe.Lib.Rounds

variable {ρ α σ : Type}

/-! ## Runs of numbered steps -/

/-- The steps `i`, …, `i + n - 1`, unless one of them stops. -/
def runSteps (step : ℕ → σ → Option σ) (i : ℕ) : ℕ → σ → Option σ
  | 0, v => some v
  | n + 1, v => step i v >>= runSteps step (i + 1) n

variable {step : ℕ → σ → Option σ}

lemma runSteps_add (i m n : ℕ) (v : σ) :
    runSteps step i (m + n) v = runSteps step i m v >>= runSteps step (i + m) n := by
  induction m generalizing i v with
  | zero =>
    rw [Nat.zero_add]
    rfl
  | succ m ih =>
    rw [Nat.succ_add]
    cases h : step i v with
    | none => simp [runSteps, h]
    | some v' =>
      simp only [runSteps, h, Option.bind_eq_bind, Option.bind_some]
      rw [ih, Nat.add_right_comm, Nat.add_assoc]
      rfl

/-- What every step establishes for the next, the run establishes. -/
theorem runSteps_spec {R : ℕ → σ → Prop} {i n : ℕ} {v : σ}
    (hstep : ∀ j v, i ≤ j → j < i + n → R j v → ∃ v', step j v = some v' ∧ R (j + 1) v')
    (h : R i v) :
    ∃ v', runSteps step i n v = some v' ∧ R (i + n) v' := by
  induction n generalizing i v with
  | zero => exact ⟨v, rfl, h⟩
  | succ n ih =>
    obtain ⟨v₁, hv₁, h₁⟩ := hstep i v (Nat.le_refl i) (by omega) h
    obtain ⟨v₂, hv₂, h₂⟩ := ih (fun j v hj hlt => hstep j v (by omega) (by omega)) h₁
    refine ⟨v₂, ?_, ?_⟩
    · rw [runSteps, hv₁]
      exact hv₂
    · rw [Nat.add_comm n 1, ← Nat.add_assoc]
      exact h₂

/-! ## Rotating roles -/

/-- Eight working variables, beside what the rounds share. -/
@[ext] structure Work (ρ α : Type) where
  w : ρ
  a : α
  b : α
  c : α
  d : α
  e : α
  f : α
  g : α
  h : α

namespace Work

/-- The variables in the roles of the next round. -/
def turn (v : Work ρ α) : Work ρ α := ⟨v.w, v.h, v.a, v.b, v.c, v.d, v.e, v.f, v.g⟩

/-- Eight unrolled rounds: each is given the variables in its own roles. -/
def eight (round : ℕ → Work ρ α → Option (Work ρ α)) (i : ℕ) : Work ρ α → Option (Work ρ α)
  | ⟨w, a, b, c, d, e, f, g, h⟩ => do
    let ⟨w, a, b, c, d, e, f, g, h⟩ ← round i ⟨w, a, b, c, d, e, f, g, h⟩
    let ⟨w, h, a, b, c, d, e, f, g⟩ ← round (i + 1) ⟨w, h, a, b, c, d, e, f, g⟩
    let ⟨w, g, h, a, b, c, d, e, f⟩ ← round (i + 2) ⟨w, g, h, a, b, c, d, e, f⟩
    let ⟨w, f, g, h, a, b, c, d, e⟩ ← round (i + 3) ⟨w, f, g, h, a, b, c, d, e⟩
    let ⟨w, e, f, g, h, a, b, c, d⟩ ← round (i + 4) ⟨w, e, f, g, h, a, b, c, d⟩
    let ⟨w, d, e, f, g, h, a, b, c⟩ ← round (i + 5) ⟨w, d, e, f, g, h, a, b, c⟩
    let ⟨w, c, d, e, f, g, h, a, b⟩ ← round (i + 6) ⟨w, c, d, e, f, g, h, a, b⟩
    let ⟨w, b, c, d, e, f, g, h, a⟩ ← round (i + 7) ⟨w, b, c, d, e, f, g, h, a⟩
    some ⟨w, a, b, c, d, e, f, g, h⟩

/-- One round, after which the roles move. -/
def turned (round : ℕ → Work ρ α → Option (Work ρ α)) (i : ℕ) (v : Work ρ α) : Option (Work ρ α) :=
  (round i v).map turn

/-- After eight rounds every variable has its first role again. -/
theorem eight_eq (round : ℕ → Work ρ α → Option (Work ρ α)) (i : ℕ) (v : Work ρ α) :
    eight round i v = runSteps (turned round) i 8 v := by
  simp only [eight, runSteps, turned, Option.bind_eq_bind, Option.bind_map]
  rfl

/-- The 64 rounds. -/
def rounds (round : ℕ → Work ρ α → Option (Work ρ α)) (v : Work ρ α) : Option (Work ρ α) := do
  let v ← eight round 0 v
  let v ← eight round 8 v
  let v ← eight round 16 v
  let v ← eight round 24 v
  let v ← eight round 32 v
  let v ← eight round 40 v
  let v ← eight round 48 v
  eight round 56 v

theorem rounds_eq (round : ℕ → Work ρ α → Option (Work ρ α)) (v : Work ρ α) :
    rounds round v = runSteps (turned round) 0 64 v := by
  have h (i m : ℕ) : runSteps (turned round) i (8 + m) =
      fun v => eight round i v >>= runSteps (turned round) (i + 8) m :=
    funext fun v => by rw [runSteps_add, eight_eq]
  change _ = runSteps (turned round) 0 (8 + (8 + (8 + (8 + (8 + (8 + (8 + 8))))))) v
  simp only [h, rounds, eight_eq]

end Work

/-! ## The schedule in a ring -/

/-- A schedule: sixteen words, and each further one from the four words 16, 15, 7 and 2 before
it. -/
def expand (next : α → α → α → α → α) (block : ℕ → α) (k : ℕ) : α :=
  if k < 16 then block k
  else next (expand next block (k - 16)) (expand next block (k - 15)) (expand next block (k - 7))
    (expand next block (k - 2))
termination_by k

variable {next : α → α → α → α → α} {block : ℕ → α}

lemma expand_of_lt {k : ℕ} (h : k < 16) : expand next block k = block k := by
  rw [expand, if_pos h]

lemma expand_add (k : ℕ) :
    expand next block (k + 16) = next (expand next block k) (expand next block (k + 1))
      (expand next block (k + 9)) (expand next block (k + 14)) := by
  rw [expand, if_neg (by omega)]
  rfl

/-- A ring holds the last sixteen words of a schedule before round `i`, each at its index
modulo 16. -/
def Holds (schedule : ℕ → α) (i : ℕ) (ring : ℕ → α) : Prop :=
  ∀ k < i, i ≤ k + 16 → ring (k % 16) = schedule k

lemma Holds.start : Holds (expand next block) 16 block := by
  intro k hk _
  rw [Nat.mod_eq_of_lt hk, expand_of_lt hk]

/-- The word due overwrites the one sixteen before it. -/
lemma Holds.succ {ring ring' : ℕ → α} {i : ℕ} (h : Holds (expand next block) i ring) (hi : 16 ≤ i)
    (hnew : ring' (i % 16) = next (ring (i % 16)) (ring ((i + 1) % 16)) (ring ((i + 9) % 16))
      (ring ((i + 14) % 16)))
    (hold : ∀ j, j ≠ i % 16 → ring' j = ring j) : Holds (expand next block) (i + 1) ring' := by
  obtain ⟨n, rfl⟩ := Nat.exists_eq_add_of_le' hi
  intro k hk hle
  rcases Nat.lt_succ_iff_lt_or_eq.mp hk with hlt | rfl
  · rw [hold _ (by omega)]
    exact h k hlt (by omega)
  · have h0 := h n (by omega) (by omega)
    have h1 := h (n + 1) (by omega) (by omega)
    have h9 := h (n + 9) (by omega) (by omega)
    have h14 := h (n + 14) (by omega) (by omega)
    rw [hnew, expand_add, ← h0, ← h1, ← h9, ← h14]
    congr 2 <;> omega

end Pickaxe.Lib.Rounds
