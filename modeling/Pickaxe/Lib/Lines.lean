/-
# Lines that come in pieces

Messages are sent one after the other, each with a separator behind it, and are received in pieces
that may end anywhere.  A receiver goes through the complete lines that it has (`scan`) until one of
them ends its search, and keeps what is behind that line, or the line that is not complete yet.
-/
import Mathlib.Data.List.Basic
import Mathlib.Data.List.Infix

namespace Pickaxe.Lib.Lines

/-! ## Searches -/

section Search

variable {β γ σ ρ : Type}

/-- Goes through a list up to the element that ends the search; the rest is left. -/
def search (turn : σ → β → ρ ⊕ σ) : σ → List β → (ρ × List β) ⊕ σ
  | s, [] => .inr s
  | s, m :: ms =>
    match turn s m with
    | .inl r => .inl (r, ms)
    | .inr s' => search turn s' ms

variable {turn : σ → β → ρ ⊕ σ}

/-- A search that ends goes through what is before the element it ends at. -/
lemma search_eq_inl {s : σ} {r : ρ} {ms left : List β} (h : search turn s ms = .inl (r, left)) :
    ∃ before m s', ms = before ++ m :: left ∧ search turn s before = .inr s' ∧
      turn s' m = .inl r := by
  induction ms generalizing s with
  | nil => cases h
  | cons m ms ih =>
    rw [search] at h
    cases hturn : turn s m with
    | inl r' =>
      rw [hturn] at h
      cases h
      exact ⟨[], m, s, rfl, rfl, hturn⟩
    | inr s₁ =>
      rw [hturn] at h
      obtain ⟨before, m', s', rfl, hbefore, hm'⟩ := ih h
      refine ⟨m :: before, m', s', rfl, ?_, hm'⟩
      rw [search, hturn]
      exact hbefore

/-- A search goes through a list exactly where each element lets it. -/
lemma exists_search_eq_inr {p : β → Prop} (h : ∀ s m, (∃ s', turn s m = .inr s') ↔ p m) (s : σ)
    (ms : List β) : (∃ s', search turn s ms = .inr s') ↔ ∀ m ∈ ms, p m := by
  induction ms generalizing s with
  | nil => exact ⟨fun _ => nofun, fun _ => ⟨s, rfl⟩⟩
  | cons m ms ih =>
    rw [search, List.forall_mem_cons, ← h s m]
    cases turn s m with
    | inl r => exact iff_of_false nofun fun hall => nomatch hall.1
    | inr s₁ => exact (ih s₁).trans (and_iff_right ⟨s₁, rfl⟩).symm

/-- A search of what stands for a list. -/
lemma search_map {τ : Type} {turn' : σ → γ → τ ⊕ σ} {f : γ → β} {g : τ → ρ} {s : σ} {ms : List γ}
    (h : ∀ s, ∀ m ∈ ms, turn s (f m) = (turn' s m).map g id) :
    search turn s (ms.map f) =
      (search turn' s ms).map (fun found => (g found.1, found.2.map f)) id := by
  induction ms generalizing s with
  | nil => rfl
  | cons m ms ih =>
    rw [List.map_cons, search, search, h s m List.mem_cons_self]
    cases turn' s m with
    | inl r => rfl
    | inr s' => exact ih fun s m hm => h s m (List.mem_cons_of_mem _ hm)

end Search

/-! ## Messages with a separator -/

section Messages

variable {α : Type} {sep : α}

/-- Messages, each with the separator behind it. -/
def lines (sep : α) (messages : List (List α)) : List α := messages.flatMap (· ++ [sep])

@[simp] lemma lines_nil : lines sep [] = [] := rfl

lemma lines_cons (m : List α) (ms : List (List α)) :
    lines sep (m :: ms) = m ++ sep :: lines sep ms := by
  simp [lines]

@[simp] lemma lines_append (ms ms' : List (List α)) :
    lines sep (ms ++ ms') = lines sep ms ++ lines sep ms' := by
  simp [lines]

/-- A piece of a stream ends within its first message, or at its end, or behind its separator. -/
lemma piece_cases {text future m rest : List α} (h : text ++ future = m ++ sep :: rest) :
    (∃ c l, m = text ++ c :: l ∧ future = c :: l ++ sep :: rest) ∨
      (text = m ∧ future = sep :: rest) ∨
      ∃ text', text = m ++ sep :: text' ∧ text' ++ future = rest := by
  obtain ⟨l, rfl, hfuture⟩ | ⟨l, rfl, hrest⟩ := List.append_eq_append_iff.mp h
  · cases l with
    | nil => exact .inr (.inl ⟨(List.append_nil _).symm, hfuture⟩)
    | cons c l => exact .inl ⟨c, l, rfl, hfuture⟩
  · cases l with
    | nil => exact .inr (.inl ⟨List.append_nil _, hrest.symm⟩)
    | cons c l =>
      obtain ⟨rfl, htail⟩ := List.cons_eq_cons.mp hrest
      exact .inr (.inr ⟨l, rfl, htail.symm⟩)

/-- A piece of a stream is its first messages and a part of the next. -/
lemma exists_piece {text future : List α} {ms : List (List α)} (h : text ++ future = lines sep ms)
    (hms : ∀ m ∈ ms, sep ∉ m) :
    ∃ new rest tail, ms = new ++ rest ∧ text = lines sep new ++ tail ∧
      tail ++ future = lines sep rest ∧ sep ∉ tail := by
  induction ms generalizing text with
  | nil =>
    obtain ⟨rfl, rfl⟩ := List.append_eq_nil_iff.mp h
    exact ⟨[], [], [], rfl, rfl, rfl, nofun⟩
  | cons m ms ih =>
    obtain ⟨hm, hms⟩ := List.forall_mem_cons.mp hms
    rw [lines_cons] at h
    obtain ⟨c, l, rfl, -⟩ | ⟨rfl, -⟩ | ⟨text', rfl, hrest⟩ := piece_cases h
    · refine ⟨[], _ :: ms, text, rfl, rfl, h.trans (lines_cons _ _).symm, ?_⟩
      exact mt (List.mem_append_left _) hm
    · exact ⟨[], text :: ms, text, rfl, rfl, h.trans (lines_cons _ _).symm, hm⟩
    · obtain ⟨new, rest, tail, rfl, rfl, hfuture, htail⟩ := ih hrest hms
      refine ⟨m :: new, rest, tail, rfl, ?_, hfuture, htail⟩
      rw [lines_cons, List.append_assoc, List.cons_append]

end Messages

/-! ## Complete lines -/

section Complete

variable {α σ ρ : Type} [DecidableEq α] {sep : α}

/-- Goes through the complete lines of a text: `turn` ends the search at a line or goes on from it.
`line` is what has been seen of the first one. -/
def scan (sep : α) (turn : σ → List α → ρ ⊕ σ) : σ → List α → List α → (ρ × List α) ⊕ (σ × List α)
  | s, line, [] => .inr (s, line)
  | s, line, c :: rest =>
    if c = sep then
      match turn s line with
      | .inl r => .inl (r, rest)
      | .inr s' => scan sep turn s' [] rest
    else scan sep turn s (line ++ [c]) rest

variable {turn : σ → List α → ρ ⊕ σ}

/-- A piece without a separator is part of a line that goes on. -/
lemma scan_of_notMem {s : σ} {line text : List α} (h : sep ∉ text) :
    scan sep turn s line text = .inr (s, line ++ text) := by
  induction text generalizing line with
  | nil => rw [scan, List.append_nil]
  | cons c text ih =>
    obtain ⟨hc, htext⟩ := not_or.mp (mt List.mem_cons.mpr h)
    rw [scan, if_neg (Ne.symm hc), ih htext, List.append_assoc]
    rfl

lemma scan_line {s : σ} {line text rest : List α} (h : sep ∉ text) :
    scan sep turn s line (text ++ sep :: rest) =
      match turn s (line ++ text) with
      | .inl r => .inl (r, rest)
      | .inr s' => scan sep turn s' [] rest := by
  induction text generalizing line with
  | nil => rw [List.nil_append, scan, if_pos rfl, List.append_nil]
  | cons c text ih =>
    obtain ⟨hc, htext⟩ := not_or.mp (mt List.mem_cons.mpr h)
    rw [List.cons_append, scan, if_neg (Ne.symm hc), ih htext, List.append_assoc]
    rfl

/-- Lines that are gone through do not matter for what is behind them. -/
lemma scan_before {s s' : σ} {before : List (List α)} (h : ∀ line ∈ before, sep ∉ line)
    (hsearch : search turn s before = .inr s') (rest : List α) :
    scan sep turn s [] (lines sep before ++ rest) = scan sep turn s' [] rest := by
  induction before generalizing s with
  | nil =>
    cases hsearch
    rfl
  | cons line before ih =>
    obtain ⟨hline, hbefore⟩ := List.forall_mem_cons.mp h
    rw [search] at hsearch
    rw [lines_cons, List.append_assoc, List.cons_append, scan_line hline, List.nil_append]
    cases hturn : turn s line with
    | inl r =>
      rw [hturn] at hsearch
      cases hsearch
    | inr s₁ =>
      rw [hturn] at hsearch
      exact ih hbefore hsearch

/-- The lines of a text are searched in order, and what is behind them is kept. -/
lemma scan_lines {s : σ} {ms : List (List α)} {tail : List α} (h : ∀ m ∈ ms, sep ∉ m)
    (htail : sep ∉ tail) :
    scan sep turn s [] (lines sep ms ++ tail) =
      match search turn s ms with
      | .inl (r, left) => .inl (r, lines sep left ++ tail)
      | .inr s' => .inr (s', tail) := by
  induction ms generalizing s with
  | nil => rw [lines_nil, List.nil_append, scan_of_notMem htail, search, List.nil_append]
  | cons m ms ih =>
    obtain ⟨hm, hms⟩ := List.forall_mem_cons.mp h
    rw [lines_cons, List.append_assoc, List.cons_append, scan_line hm, search, List.nil_append]
    cases turn s m with
    | inl r => rfl
    | inr s' => exact ih hms

/-- Every text is lines and a part without a separator. -/
lemma exists_lines (sep : α) (text : List α) :
    ∃ ms tail, text = lines sep ms ++ tail ∧ (∀ m ∈ ms, sep ∉ m) ∧ sep ∉ tail := by
  induction text with
  | nil => exact ⟨[], [], rfl, nofun, nofun⟩
  | cons c text ih =>
    obtain ⟨ms, tail, rfl, hms, htail⟩ := ih
    by_cases hc : c = sep
    · subst hc
      exact ⟨[] :: ms, tail, by rw [lines_cons]; rfl, List.forall_mem_cons.mpr ⟨nofun, hms⟩, htail⟩
    cases ms with
    | nil =>
      refine ⟨[], c :: tail, rfl, nofun, ?_⟩
      exact mt List.mem_cons.mp (not_or.mpr ⟨Ne.symm hc, htail⟩)
    | cons m ms =>
      obtain ⟨hm, hms⟩ := List.forall_mem_cons.mp hms
      refine ⟨(c :: m) :: ms, tail, by rw [lines_cons, lines_cons]; rfl, ?_, htail⟩
      exact List.forall_mem_cons.mpr ⟨mt List.mem_cons.mp (not_or.mpr ⟨Ne.symm hc, hm⟩), hms⟩

end Complete

end Pickaxe.Lib.Lines
