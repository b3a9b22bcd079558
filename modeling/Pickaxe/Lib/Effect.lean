/-
# Programs that ask their environment

A program asks questions (reading a file, calling a server) and goes on with each answer, until it
returns or fails.  The environment is a relation on its own states, so that it may answer in many
ways; a run may also stop before any question, as a process that is killed does.

`wp` is the weakest precondition of a program for a condition that holds after every answer and one
that holds at the end.  `wp.sound` says that no run breaks them, stopped runs included; the rules
above it follow the constructs a program is written with.
-/
import Mathlib.Logic.Basic

namespace Pickaxe.Lib

/-- A program with errors in `ε` that asks the questions of `Q`. -/
inductive Program (ε Q : Type) (A : Q → Type) (α : Type) : Type where
  | ok (a : α)
  | error (e : ε)
  | ask (q : Q) (next : A q → Program ε Q A α)

namespace Program

variable {ε Q σ α β : Type} {A : Q → Type}

/-- Sequencing: a failure ends the program. -/
def bind : Program ε Q A α → (α → Program ε Q A β) → Program ε Q A β
  | .ok a, f => f a
  | .error e, _ => .error e
  | .ask q next, f => .ask q fun a => bind (next a) f

instance : Monad (Program ε Q A) where
  pure := .ok
  bind := bind

lemma bind_assoc {γ : Type} (p : Program ε Q A α) (f : α → Program ε Q A β)
    (g : β → Program ε Q A γ) : (p >>= f) >>= g = p >>= fun a => f a >>= g := by
  induction p with
  | ok a => rfl
  | error e => rfl
  | ask q next ih => exact congrArg (Program.ask q) (funext ih)

/-- A program's outcome as a value, which ends the failure. -/
def attempt : Program ε Q A α → Program ε Q A (Except ε α)
  | .ok a => .ok (.ok a)
  | .error e => .ok (.error e)
  | .ask q next => .ask q fun a => attempt (next a)

/-- One question. -/
def query (q : Q) : Program ε Q A (A q) := .ask q .ok

/-- A result that is there already. -/
def lift : Except ε α → Program ε Q A α
  | .ok a => .ok a
  | .error e => .error e

/-! ## Runs -/

variable (answers : σ → (q : Q) → A q → σ → Prop)

/-- A run from a state: its outcome, or `none` where it was stopped, and the last state. -/
inductive Runs : Program ε Q A α → σ → Option (Except ε α) → σ → Prop
  | stopped (p : Program ε Q A α) (s : σ) : Runs p s none s
  | ok (a : α) (s : σ) : Runs (.ok a) s (some (.ok a)) s
  | error (e : ε) (s : σ) : Runs (.error e) s (some (.error e)) s
  | ask {q : Q} {next : A q → Program ε Q A α} {s s' s'' : σ} {a : A q}
      {r : Option (Except ε α)} (h : answers s q a s') (hnext : Runs (next a) s' r s'') :
      Runs (.ask q next) s r s''

section Runs

variable {answers} {p : Program ε Q A α} {f : α → Program ε Q A β} {s s' s'' : σ}
  {r : Option (Except ε β)}

/-- A run of one program, and then of what follows it. -/
lemma Runs.bind {a : α} (hp : Runs answers p s (some (.ok a)) s') (hf : Runs answers (f a) s' r s'') :
    Runs answers (p >>= f) s r s'' := by
  generalize hx : (some (.ok a) : Option (Except ε α)) = x at hp
  induction hp with
  | stopped => cases hx
  | ok b s =>
    cases hx
    exact hf
  | error e s => cases hx
  | ask h _ ih => exact .ask h (ih hf hx)

/-- A run of a sequence that returns is a run of its first part, and then of the second. -/
lemma Runs.of_bind {b : β} (h : Runs answers (p >>= f) s (some (.ok b)) s'') :
    ∃ a s', Runs answers p s (some (.ok a)) s' ∧ Runs answers (f a) s' (some (.ok b)) s'' := by
  induction p generalizing s with
  | ok a => exact ⟨a, s, .ok a s, h⟩
  | error e => cases h
  | ask q next ih =>
    cases h with
    | ask hanswer hnext =>
      obtain ⟨a, s', hrun, hrest⟩ := ih _ hnext
      exact ⟨a, s', .ask hanswer hrun, hrest⟩

lemma Runs.of_lift {x : Except ε α} {a : α} (h : Runs answers (lift x) s (some (.ok a)) s') :
    x = .ok a ∧ s' = s := by
  cases x with
  | error e => cases h
  | ok b =>
    cases h
    exact ⟨rfl, rfl⟩

lemma Runs.query {q : Q} {a : A q} {f : A q → Program ε Q A β} (h : answers s q a s')
    (hf : Runs answers (f a) s' r s'') : Runs answers (Program.query q >>= f) s r s'' := .ask h hf

end Runs

/-- A program in an environment that has one answer to each question. -/
def play (env : σ → (q : Q) → A q × σ) : Program ε Q A α → σ → Except ε α × σ
  | .ok a, s => (.ok a, s)
  | .error e, s => (.error e, s)
  | .ask q next, s => play env (next (env s q).1) (env s q).2

lemma play_query_bind (env : σ → (q : Q) → A q × σ) (q : Q) (f : A q → Program ε Q A β) (s : σ) :
    play env (query q >>= f) s = play env (f (env s q).1) (env s q).2 := rfl

lemma play_bind (env : σ → (q : Q) → A q × σ) (p : Program ε Q A α) (f : α → Program ε Q A β)
    (s : σ) : play env (p >>= f) s = match play env p s with
      | (.ok a, s') => play env (f a) s'
      | (.error e, s') => (.error e, s') := by
  induction p generalizing s with
  | ok a => rfl
  | error e => rfl
  | ask q next ih => exact ih _ _

variable {answers} in
lemma runs_play {env : σ → (q : Q) → A q × σ}
    (henv : ∀ s q, answers s q (env s q).1 (env s q).2) (p : Program ε Q A α) (s : σ) :
    Runs answers p s (some (play env p s).1) (play env p s).2 := by
  induction p generalizing s with
  | ok a => exact .ok a s
  | error e => exact .error e s
  | ask q next ih => exact .ask (henv s q) (ih _ _)

/-! ## Questions -/

/-- Every question that the program may ask is one of these. -/
def Asks (allowed : Q → Prop) : Program ε Q A α → Prop
  | .ok _ => True
  | .error _ => True
  | .ask q next => allowed q ∧ ∀ a, Asks allowed (next a)

section Asks

variable {allowed : Q → Prop} {p : Program ε Q A α}

lemma Asks.bind {f : α → Program ε Q A β} (hp : Asks allowed p) (hf : ∀ a, Asks allowed (f a)) :
    Asks allowed (p >>= f) := by
  induction p with
  | ok a => exact hf a
  | error e => trivial
  | ask q next ih => exact ⟨hp.1, fun a => ih a (hp.2 a)⟩

lemma Asks.attempt (hp : Asks allowed p) : Asks allowed p.attempt := by
  induction p with
  | ok a => trivial
  | error e => trivial
  | ask q next ih => exact ⟨hp.1, fun a => ih a (hp.2 a)⟩

lemma Asks.query {q : Q} {f : A q → Program ε Q A β} (h : allowed q)
    (hf : ∀ a, Asks allowed (f a)) : Asks allowed (Program.query q >>= f) := ⟨h, hf⟩

lemma asks_lift (x : Except ε α) : Asks allowed (lift x : Program ε Q A α) := by
  cases x <;> trivial

end Asks

/-! ## Weakest preconditions -/

variable (inv : σ → Prop)

/-- `inv` holds after every answer of every run from the state, and `post` at its end. -/
def wp : Program ε Q A α → (Except ε α → σ → Prop) → σ → Prop
  | .ok a, post, s => post (.ok a) s
  | .error e, post, s => post (.error e) s
  | .ask q next, post, s => ∀ a s', answers s q a s' → inv s' ∧ wp (next a) post s'

variable {answers inv} {p : Program ε Q A α} {f : α → Program ε Q A β}
  {post post' : Except ε α → σ → Prop} {s s' : σ} {r : Option (Except ε α)}

/-- No run breaks the conditions, whether it ends or is stopped. -/
theorem wp.sound (hwp : wp answers inv p post s) (hinv : inv s) (hrun : Runs answers p s r s') :
    inv s' ∧ ∀ x, r = some x → post x s' := by
  induction hrun with
  | stopped => exact ⟨hinv, nofun⟩
  | ok a s =>
    refine ⟨hinv, ?_⟩
    rintro x ⟨⟩
    exact hwp
  | error e s =>
    refine ⟨hinv, ?_⟩
    rintro x ⟨⟩
    exact hwp
  | ask h _ ih =>
    obtain ⟨hinv', hnext⟩ := hwp _ _ h
    exact ih hnext hinv'

lemma wp.mono (hwp : wp answers inv p post s) (h : ∀ x s, post x s → post' x s) :
    wp answers inv p post' s := by
  induction p generalizing s with
  | ok a => exact h _ _ hwp
  | error e => exact h _ _ hwp
  | ask q next ih =>
    intro a s' hs'
    exact ⟨(hwp a s' hs').1, ih a (hwp a s' hs').2⟩

/-- The state's invariant may be used at the end. -/
lemma wp.mono_inv (hwp : wp answers inv p post s) (hinv : inv s)
    (h : ∀ x s, inv s → post x s → post' x s) : wp answers inv p post' s := by
  induction p generalizing s with
  | ok a => exact h _ _ hinv hwp
  | error e => exact h _ _ hinv hwp
  | ask q next ih =>
    intro a s' hs'
    obtain ⟨hinv', hnext⟩ := hwp a s' hs'
    exact ⟨hinv', ih a hnext hinv'⟩

/-- What holds after every answer may be weakened. -/
lemma wp.weaken {inv' : σ → Prop} (hwp : wp answers inv p post s) (h : ∀ s, inv s → inv' s) :
    wp answers inv' p post s := by
  induction p generalizing s with
  | ok a => exact hwp
  | error e => exact hwp
  | ask q next ih =>
    intro a s' hs'
    exact ⟨h s' (hwp a s' hs').1, ih a (hwp a s' hs').2⟩

/-- Two conditions of one program hold together. -/
lemma wp.and {inv' : σ → Prop} (hwp : wp answers inv p post s) (hwp' : wp answers inv' p post' s) :
    wp answers (fun s => inv s ∧ inv' s) p (fun x s => post x s ∧ post' x s) s := by
  induction p generalizing s with
  | ok a => exact ⟨hwp, hwp'⟩
  | error e => exact ⟨hwp, hwp'⟩
  | ask q next ih =>
    intro a s' hs'
    obtain ⟨hinv, hnext⟩ := hwp a s' hs'
    obtain ⟨hinv', hnext'⟩ := hwp' a s' hs'
    exact ⟨⟨hinv, hinv'⟩, ih a hnext hnext'⟩

/-- What follows a program starts where the program succeeds. -/
def andThen (q : α → σ → Prop) (post : Except ε β → σ → Prop) : Except ε α → σ → Prop
  | .ok a, s => q a s
  | .error e, s => post (.error e) s

lemma wp_bind {post : Except ε β → σ → Prop} :
    wp answers inv (p >>= f) post s ↔
      wp answers inv p (andThen (fun a s => wp answers inv (f a) post s) post) s := by
  induction p generalizing s with
  | ok a => exact Iff.rfl
  | error e => exact Iff.rfl
  | ask q next ih =>
    refine forall_congr' fun a => forall_congr' fun s' => imp_congr_right fun _ => ?_
    exact and_congr_right fun _ => ih a

lemma wp_attempt {post : Except ε (Except ε α) → σ → Prop} :
    wp answers inv p.attempt post s ↔ wp answers inv p (fun x s => post (.ok x) s) s := by
  induction p generalizing s with
  | ok a => exact Iff.rfl
  | error e => exact Iff.rfl
  | ask q next ih =>
    refine forall_congr' fun a => forall_congr' fun s' => imp_congr_right fun _ => ?_
    exact and_congr_right fun _ => ih a

/-- A condition that every question of the program keeps. -/
lemma Asks.wp {allowed : Q → Prop} (hp : Asks allowed p) (hs : inv s)
    (h : ∀ s q a s', inv s → allowed q → answers s q a s' → inv s') :
    wp answers inv p (fun _ s => inv s) s := by
  induction p generalizing s with
  | ok a => exact hs
  | error e => exact hs
  | ask q next ih =>
    intro a s' hs'
    have hinv := h s q a s' hs hp.1 hs'
    exact ⟨hinv, ih a (hp.2 a) hinv⟩

/-- What holds at the end, for a result and for a failure. -/
def upon (q : α → σ → Prop) (failed : σ → Prop) : Except ε α → σ → Prop
  | .ok a, s => q a s
  | .error _, s => failed s

/-- One program after the other, by what the first establishes. -/
lemma wp.seq {q : α → σ → Prop} {failed : σ → Prop} {post : Except ε β → σ → Prop}
    (hp : wp answers inv p (upon q failed) s) (hs : inv s)
    (hf : ∀ a s, inv s → q a s → wp answers inv (f a) post s)
    (he : ∀ e s, inv s → failed s → post (.error e) s) : wp answers inv (p >>= f) post s := by
  rw [wp_bind]
  refine hp.mono_inv hs ?_
  intro x s hs hx
  cases x with
  | ok a => exact hf a s hs hx
  | error e => exact he e s hs hx

/-- The same where the first program keeps a stronger condition. -/
lemma wp.seq_of_le {inv' : σ → Prop} {q : α → σ → Prop} {failed : σ → Prop}
    {post : Except ε β → σ → Prop} (hle : ∀ s, inv' s → inv s)
    (hp : wp answers inv' p (upon q failed) s) (hs : inv' s)
    (hf : ∀ a s, inv' s → q a s → wp answers inv (f a) post s)
    (he : ∀ e s, inv' s → failed s → post (.error e) s) : wp answers inv (p >>= f) post s := by
  rw [wp_bind]
  refine (hp.mono_inv hs ?_).weaken hle
  intro x s hs hx
  cases x with
  | ok a => exact hf a s hs hx
  | error e => exact he e s hs hx

@[simp] lemma wp_pure {a : α} : wp answers inv (pure a) post s ↔ post (.ok a) s := Iff.rfl

@[simp] lemma wp_ok {a : α} : wp answers inv (.ok a) post s ↔ post (.ok a) s := Iff.rfl

@[simp] lemma wp_error {e : ε} : wp answers inv (.error e) post s ↔ post (.error e) s := Iff.rfl

lemma wp_lift {x : Except ε α} : wp answers inv (lift x) post s ↔ post x s := by
  cases x <;> exact Iff.rfl

/-- A question, and what follows its answer. -/
lemma wp_query_bind {q : Q} {f : A q → Program ε Q A β} {post : Except ε β → σ → Prop} :
    wp answers inv (query q >>= f) post s ↔
      ∀ a s', answers s q a s' → inv s' ∧ wp answers inv (f a) post s' := Iff.rfl

/-- What follows a choice follows both ways. -/
lemma wp_ite_bind {c : Prop} [Decidable c] {p' : Program ε Q A α} {post : Except ε β → σ → Prop} :
    wp answers inv (if c then p >>= f else p' >>= f) post s ↔
      wp answers inv ((if c then p else p') >>= f) post s := by
  by_cases h : c
  · rw [if_pos h, if_pos h]
  · rw [if_neg h, if_neg h]

/-- A value that is there already, and what follows it. -/
lemma wp_ok_bind {a : α} {post : Except ε β → σ → Prop} :
    wp answers inv (.ok a >>= f) post s ↔ wp answers inv (f a) post s := Iff.rfl

lemma wp_lift_bind {x : Except ε α} {post : Except ε β → σ → Prop} :
    wp answers inv (lift x >>= f) post s ↔
      (∀ a, x = .ok a → wp answers inv (f a) post s) ∧ ∀ e, x = .error e → post (.error e) s := by
  cases x with
  | ok a =>
    constructor
    · intro h
      refine ⟨?_, nofun⟩
      rintro _ ⟨⟩
      exact h
    · intro h
      exact h.1 a rfl
  | error e =>
    constructor
    · intro h
      refine ⟨nofun, ?_⟩
      rintro _ ⟨⟩
      exact h
    · intro h
      exact h.2 e rfl

end Program

end Pickaxe.Lib
