/-
# Where a text makes the client panic

The message about a line that is no JSON value quotes its first 160 bytes, which is a panic where
they end within a character.
-/
import Pickaxe.Electrum.Reader

namespace Pickaxe.Electrum

open Lib Lines

variable [JsonText] {id : ℕ} {notice notice' : Bool} {line : List Char}

/-- A line that the client passes over: blank, or a value that is no answer. -/
def Passes (id : ℕ) (line : List Char) : Prop :=
  Text.trim line = [] ∨
    ∃ value, JsonText.fromStr (Text.trim line) = .ok value ∧ idMatches value id = false

/-- A line that is no value and whose first 160 bytes, if it has as many, end within a character. -/
def Unquotable (line : List Char) : Prop :=
  Text.trim line ≠ [] ∧ (∃ e, JsonText.fromStr (Text.trim line) = .error e) ∧
    sliceTo (min (utf8 (Text.trim line)).length 160) (Text.trim line) = none

lemma frameTurn_eq_inr : (∃ notice', frameTurn id notice line = .inr notice') ↔ Passes id line := by
  simp only [frameTurn, Passes]
  by_cases hnil : Text.trim line = []
  · simp only [if_pos hnil]
    exact iff_of_true ⟨notice, rfl⟩ (.inl hnil)
  · simp only [if_neg hnil]
    cases hvalue : JsonText.fromStr (Text.trim line) with
    | error e =>
      refine iff_of_false ?_ ?_
      · rintro ⟨notice', h⟩
        dsimp only at h
        split at h <;> cases h
      · rintro (h | ⟨value, hv, -⟩)
        · exact hnil h
        · cases hv
    | ok value =>
      dsimp only
      cases hid : rpcValueForId value id with
      | none => exact iff_of_true ⟨_, rfl⟩ (.inr ⟨value, rfl, rpcValueForId_eq_none.mp hid⟩)
      | some r =>
        refine iff_of_false nofun ?_
        rintro (h | ⟨value', hvalue', hid'⟩)
        · exact hnil h
        · obtain rfl := Except.ok.inj hvalue'
          rw [rpcValueForId_eq_none.mpr hid'] at hid
          cases hid

lemma frameTurn_eq_panicked :
    frameTurn id notice line = .inl (.panicked, notice') ↔ Unquotable line ∧ notice' = notice := by
  simp only [frameTurn, Unquotable]
  by_cases hnil : Text.trim line = []
  · simp only [if_pos hnil]
    exact iff_of_false nofun fun h => h.1.1 hnil
  · simp only [if_neg hnil]
    cases hvalue : JsonText.fromStr (Text.trim line) with
    | error e =>
      dsimp only
      cases hcut : sliceTo (min (utf8 (Text.trim line)).length 160) (Text.trim line) with
      | none =>
        constructor
        · rintro ⟨⟩
          exact ⟨⟨hnil, ⟨e, rfl⟩, rfl⟩, rfl⟩
        · rintro ⟨-, rfl⟩
          rfl
      | some cut => exact iff_of_false nofun fun h => nomatch h.1.2.2
    | ok value =>
      dsimp only
      refine iff_of_false ?_ fun h => nomatch h.1.2.1
      cases rpcValueForId value id <;> exact nofun

/-- What is left of the lines does not make the client panic. -/
lemma outcome_eq_panicked {buf text : List Char} :
    (consumeRpcText buf text id notice).outcome = some .panicked ↔
      ∃ notice' rest, scan '\n' (frameTurn id) notice [] (buf ++ text) =
        .inl ((.panicked, notice'), rest) := by
  rw [consumeRpcText]
  cases hscan : scan '\n' (frameTurn id) notice [] (buf ++ text) with
  | inl found =>
    obtain ⟨⟨outcome, notice'⟩, rest⟩ := found
    constructor
    · intro h
      obtain rfl := Option.some.inj h
      exact ⟨notice', rest, rfl⟩
    · rintro ⟨_, _, ⟨⟩⟩
      rfl
  | inr left =>
    obtain ⟨notice', rest⟩ := left
    refine iff_of_false ?_ nofun
    dsimp only
    split
    · exact nofun
    · split
      · exact nofun
      · split
        · exact nofun
        · exact nofun

/-- A text makes the client panic exactly where, behind lines it passes over, a line that is no
value cannot be quoted. -/
theorem panicked_iff {buf text : List Char} :
    (consumeRpcText buf text id notice).outcome = some .panicked ↔
      ∃ before line rest, buf ++ text = lines '\n' before ++ (line ++ '\n' :: rest) ∧
        (∀ b ∈ before, '\n' ∉ b ∧ Passes id b) ∧ '\n' ∉ line ∧ Unquotable line := by
  have hpasses := exists_search_eq_inr fun notice line =>
    @frameTurn_eq_inr _ id notice line
  rw [outcome_eq_panicked]
  constructor
  · rintro ⟨notice', rest, hscan⟩
    obtain ⟨ms, tail, hsplit, hms, htail⟩ := exists_lines '\n' (buf ++ text)
    rw [hsplit, scan_lines hms htail] at hscan
    cases hsearch : search (frameTurn id) notice ms with
    | inr notice' =>
      rw [hsearch] at hscan
      cases hscan
    | inl found =>
      rw [hsearch] at hscan
      obtain ⟨⟨outcome, notice₁⟩, left⟩ := found
      obtain ⟨⟨rfl, rfl⟩, rfl⟩ : (outcome = .panicked ∧ notice₁ = notice') ∧
          lines '\n' left ++ tail = rest := by simpa using hscan
      obtain ⟨before, line, _, rfl, hbefore, hline⟩ := search_eq_inl hsearch
      refine ⟨before, line, lines '\n' left ++ tail, ?_, fun b hb => ⟨?_, ?_⟩, ?_,
        (frameTurn_eq_panicked.mp hline).1⟩
      · rw [hsplit, lines_append, lines_cons]
        simp
      · exact hms b (List.mem_append_left _ hb)
      · exact (hpasses notice before).mp ⟨_, hbefore⟩ b hb
      · exact hms line (List.mem_append_right _ List.mem_cons_self)
  · rintro ⟨before, line, rest, hsplit, hbefore, hline, hunquotable⟩
    obtain ⟨notice', hsearch⟩ := (hpasses notice before).mpr fun b hb => (hbefore b hb).2
    refine ⟨notice', rest, ?_⟩
    rw [hsplit, scan_before (fun b hb => (hbefore b hb).1) hsearch, scan_line hline,
      List.nil_append, frameTurn_eq_panicked.mpr ⟨hunquotable, rfl⟩]

end Pickaxe.Electrum
