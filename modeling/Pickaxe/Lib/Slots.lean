/-
# Slots from a shared counter

Threads that have something to report take a slot each from a shared counter and write their record
into it; a thread whose slot is past the last one drops its record.  The steps of the threads may
interleave in any order: the counter counts the records, and every slot that was given out holds the
record of the thread that took it.
-/
import Mathlib.Data.List.Induction
import Mathlib.Data.List.Nodup

namespace Pickaxe.Lib.Slots

/-- What a thread does: it takes a slot, and later writes its record there. -/
inductive Step (τ : Type) where
  | take (t : τ)
  | store (t : τ)

/-- The counter, the slot that each thread was given, and the records. -/
structure State (τ σ : Type) where
  count : ℕ
  slot : τ → Option ℕ
  records : σ

section

variable {τ σ α : Type} [DecidableEq τ] (report : τ → Option α) (put : ℕ → α → σ → σ) (cap : ℕ)

/-- A step of a thread.  A thread without a report does nothing. -/
def step (s : State τ σ) : Step τ → State τ σ
  | .take t =>
    match report t with
    | none => s
    | some _ => { s with count := s.count + 1, slot := Function.update s.slot t (some s.count) }
  | .store t =>
    match report t, s.slot t with
    | some a, some i => if i < cap then { s with records := put i a s.records } else s
    | _, _ => s

/-- A counter at zero. -/
def start (records : σ) : State τ σ := ⟨0, fun _ => none, records⟩

/-- The threads in the order in which they take their slots. -/
def takers (steps : List (Step τ)) : List τ :=
  steps.filterMap fun
    | .take t => some t
    | .store _ => none

/-- The threads with a report, in the order of their slots. -/
def reporters (steps : List (Step τ)) : List τ := (takers steps).filter fun t => (report t).isSome

/-- A thread has written after it took its slot. -/
def Stored (steps : List (Step τ)) (t : τ) : Prop :=
  ∃ before after, steps = before ++ after ∧ .take t ∈ before ∧ .store t ∈ after

/-- Every thread takes one slot, and writes after that. -/
structure Complete (threads : List τ) (steps : List (Step τ)) : Prop where
  nodup : (takers steps).Nodup
  mem_iff : ∀ t, t ∈ takers steps ↔ t ∈ threads
  stored : ∀ t ∈ threads, Stored steps t

omit [DecidableEq τ] in
lemma mem_takers {steps : List (Step τ)} {t : τ} : t ∈ takers steps ↔ .take t ∈ steps := by
  rw [takers, List.mem_filterMap]
  constructor
  · rintro ⟨s, hs, h⟩
    cases s with
    | take t' =>
      obtain rfl := Option.some.inj h
      exact hs
    | store t' => cases h
  · exact fun h => ⟨_, h, rfl⟩

omit [DecidableEq τ] in
lemma takers_concat (steps : List (Step τ)) (s : Step τ) :
    takers (steps ++ [s]) = takers steps ++ takers [s] := List.filterMap_append

omit [DecidableEq τ] in
lemma Stored.concat {steps : List (Step τ)} {s : Step τ} {t : τ} (h : Stored (steps ++ [s]) t) :
    Stored steps t ∨ s = .store t ∧ .take t ∈ steps := by
  obtain ⟨before, after, heq, htake, hstore⟩ := h
  rcases List.eq_nil_or_concat after with rfl | ⟨after', s', rfl⟩
  · exact absurd hstore List.not_mem_nil
  · rw [List.concat_eq_append, ← List.append_assoc] at heq
    obtain ⟨rfl, hs⟩ := List.append_inj' heq rfl
    obtain rfl := (List.cons.inj hs).1
    rw [List.concat_eq_append, List.mem_append, List.mem_singleton] at hstore
    rcases hstore with hstore | rfl
    · exact .inl ⟨before, after', rfl, htake, hstore⟩
    · exact .inr ⟨rfl, List.mem_append_left _ htake⟩

omit [DecidableEq τ] in
lemma getElem?_concat_eq_some {l : List τ} {x y : τ} {i : ℕ} :
    (l ++ [x])[i]? = some y ↔ l[i]? = some y ∨ i = l.length ∧ x = y := by
  rcases Nat.lt_trichotomy i l.length with hlt | rfl | hgt
  · rw [List.getElem?_append_left hlt]
    exact ⟨.inl, fun h => h.resolve_right fun h => Nat.ne_of_lt hlt h.1⟩
  · simp
  · rw [List.getElem?_append_right (Nat.le_of_lt hgt), List.getElem?_eq_none (by simp; omega),
      List.getElem?_eq_none (Nat.le_of_lt hgt)]
    simp [Nat.ne_of_gt hgt]

/-- What holds after some steps. -/
structure Sound (get : ℕ → σ → α) (steps : List (Step τ)) (s : State τ σ) : Prop where
  count : s.count = (reporters report steps).length
  slot : ∀ t i, s.slot t = some i ↔ (reporters report steps)[i]? = some t
  records : ∀ t i a, s.slot t = some i → i < cap → report t = some a → Stored steps t →
    get i s.records = a

variable {get : ℕ → σ → α} {report put cap}

/-- A thread takes the next slot. -/
lemma Sound.take {steps : List (Step τ)} {s : State τ σ} (h : Sound report cap get steps s) {t : τ}
    (hnew : t ∉ takers steps) :
    Sound report cap get (steps ++ [.take t]) (step report put cap s (.take t)) := by
  have hstored {t' : τ} (ht' : Stored (steps ++ [.take t]) t') : Stored steps t' := by
    refine ht'.concat.resolve_right fun h => ?_
    cases h.1
  cases hreport : report t with
  | none =>
    have hsame : reporters report (steps ++ [.take t]) = reporters report steps := by
      rw [reporters, takers_concat, List.filter_append, ← reporters]
      simp [takers, hreport]
    have hstep : step report put cap s (.take t) = s := by rw [step, hreport]
    rw [hstep]
    refine ⟨by rw [hsame]; exact h.count, by rw [hsame]; exact h.slot, fun t' i a hi hlt ha ht' => ?_⟩
    exact h.records t' i a hi hlt ha (hstored ht')
  | some a =>
    have hnext : reporters report (steps ++ [.take t]) = reporters report steps ++ [t] := by
      rw [reporters, takers_concat, List.filter_append, ← reporters]
      simp [takers, hreport]
    have hstep : step report put cap s (.take t) =
        { s with count := s.count + 1, slot := Function.update s.slot t (some s.count) } := by
      rw [step, hreport]
    have hnone : t ∉ reporters report steps := fun hmem => hnew (List.mem_filter.mp hmem).1
    rw [hstep]
    refine ⟨?_, fun t' i => ?_, fun t' i a' hi hlt ha' ht' => ?_⟩
    · rw [hnext, List.length_append, List.length_singleton, h.count]
    · rw [hnext]
      dsimp only
      by_cases heq : t' = t
      · subst heq
        have hold : (reporters report steps)[i]? ≠ some t' := fun h =>
          hnone (List.mem_of_getElem? h)
        rw [Function.update_self, Option.some.injEq, h.count, getElem?_concat_eq_some,
          or_iff_right hold, and_iff_left rfl, eq_comm]
      · rw [Function.update_of_ne heq, h.slot, getElem?_concat_eq_some,
          or_iff_left fun h => heq h.2.symm]
    · have hne : t' ≠ t := by
        rintro rfl
        obtain ⟨before, after, rfl, htake, -⟩ := hstored ht'
        exact hnew (mem_takers.mpr (List.mem_append_left _ htake))
      dsimp only at hi
      rw [Function.update_of_ne hne] at hi
      exact h.records t' i a' hi hlt ha' (hstored ht')

/-- A thread writes its record. -/
lemma Sound.store {steps : List (Step τ)} {s : State τ σ} (h : Sound report cap get steps s)
    (hself : ∀ i a r, get i (put i a r) = a)
    (hother : ∀ i j a r, i ≠ j → get i (put j a r) = get i r) (t : τ) :
    Sound report cap get (steps ++ [.store t]) (step report put cap s (.store t)) := by
  have hsame : reporters report (steps ++ [.store t]) = reporters report steps := by
    rw [reporters, takers_concat, List.filter_append, ← reporters]
    exact List.append_nil _
  obtain ⟨hcount, hslot, hrecords⟩ := h
  -- the thread's own slot, if it has one
  have hstep : step report put cap s (.store t) = s ∧
      (∀ a i, report t = some a → s.slot t = some i → ¬i < cap) ∨
      ∃ a i, report t = some a ∧ s.slot t = some i ∧ i < cap ∧
        step report put cap s (.store t) = { s with records := put i a s.records } := by
    rw [step]
    cases hreport : report t with
    | none => exact .inl ⟨rfl, by simp⟩
    | some a =>
      cases hslot_t : s.slot t with
      | none => exact .inl ⟨rfl, by simp⟩
      | some i =>
        by_cases hlt : i < cap
        · exact .inr ⟨a, i, rfl, rfl, hlt, if_pos hlt⟩
        · exact .inl ⟨if_neg hlt, fun _ _ _ h => Option.some.inj h ▸ hlt⟩
  rcases hstep with ⟨hstep, hnone⟩ | ⟨a, i, hreport, hslot_t, hlt, hstep⟩
  · rw [hstep]
    refine ⟨hsame ▸ hcount, hsame ▸ hslot, fun t' i a hi hlt ha ht' => ?_⟩
    rcases ht'.concat with ht' | ⟨heq, -⟩
    · exact hrecords t' i a hi hlt ha ht'
    · obtain rfl := Step.store.inj heq
      exact absurd hlt (hnone a i ha hi)
  · rw [hstep]
    refine ⟨hsame ▸ hcount, hsame ▸ hslot, fun t' j a' hj hlt' ha' ht' => ?_⟩
    dsimp only at hj ⊢
    by_cases hij : j = i
    · subst hij
      have htt : t' = t := Option.some.inj (((hslot t' j).mp hj).symm.trans ((hslot t j).mp hslot_t))
      rw [htt, hreport, Option.some.injEq] at ha'
      rw [hself, ha']
    · rw [hother _ _ _ _ hij]
      rcases ht'.concat with ht' | ⟨heq, -⟩
      · exact hrecords t' j a' hj hlt' ha' ht'
      · obtain rfl := Step.store.inj heq
        exact absurd (Option.some.inj (hj.symm.trans hslot_t)) hij

/-- After any interleaving of the threads' steps the counter counts the reports, and every slot below
the last one that was given out holds the report of the thread that took it. -/
theorem complete_spec {threads : List τ} {steps : List (Step τ)} (h : Complete threads steps)
    (hself : ∀ i a r, get i (put i a r) = a)
    (hother : ∀ i j a r, i ≠ j → get i (put j a r) = get i r) (records : σ) :
    (steps.foldl (step report put cap) (start records)).count = (reporters report steps).length ∧
      ∀ i t a, (reporters report steps)[i]? = some t → i < cap → report t = some a →
        get i (steps.foldl (step report put cap) (start records)).records = a := by
  have hrun : ∀ l : List (Step τ), (takers l).Nodup →
      Sound report cap get l (l.foldl (step report put cap) (start records)) := by
    intro l
    induction l using List.reverseRecOn with
    | nil => exact fun _ => ⟨rfl, by simp [start, reporters, takers], by simp [start]⟩
    | append_singleton l s ih =>
      intro hnodup
      rw [takers_concat] at hnodup
      have hl := ih (List.Nodup.of_append_left hnodup)
      rw [List.foldl_append, List.foldl_cons, List.foldl_nil]
      cases s with
      | take t =>
        refine hl.take fun hmem => ?_
        exact (List.disjoint_of_nodup_append hnodup) hmem (List.mem_singleton.mpr rfl)
      | store t => exact hl.store hself hother t
  have hsound := hrun steps h.nodup
  refine ⟨hsound.count, fun i t a hi hlt ha => ?_⟩
  have hmem : t ∈ takers steps := (List.mem_filter.mp (List.mem_of_getElem? hi)).1
  exact hsound.records t i a ((hsound.slot t i).mpr hi) hlt ha (h.stored t ((h.mem_iff t).mp hmem))

end

end Pickaxe.Lib.Slots
