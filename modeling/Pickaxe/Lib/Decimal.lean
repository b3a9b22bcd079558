/-
# Decimal numbers as texts

Unsigned decimal numbers with an optional fraction and an optional exponent of ten: the texts that
spell one, its value, and the digits that count.  The digits before and behind the point, read as
one number, are the value at the scale of the fraction and the exponent.
-/
import Pickaxe.Lib.Checked
import Pickaxe.Lib.Json
import Mathlib.Algebra.Order.Field.Power
import Mathlib.Algebra.Order.Field.Rat
import Mathlib.Data.List.TakeWhile
import Mathlib.Data.Rat.Cast.Defs
import Mathlib.Tactic.FieldSimp
import Mathlib.Tactic.Ring

namespace Pickaxe.Lib.Decimal

/-! ## Spellings -/

/-- Decimal digits and nothing else. -/
def Digits (s : List Char) : Prop := ∀ c ∈ s, c.isDigit = true

/-- The number that digits spell. -/
def number (digits : List Char) : ℕ := Nat.ofDigitChars 10 digits 0

/-- An integer with an optional sign. -/
inductive Signed : List Char → ℤ → Prop
  | bare {digits : List Char} : Digits digits → digits ≠ [] → Signed digits (number digits)
  | plus {digits : List Char} : Digits digits → digits ≠ [] → Signed ('+' :: digits) (number digits)
  | minus {digits : List Char} : Digits digits → digits ≠ [] →
      Signed ('-' :: digits) (-(number digits : ℤ))

/-- An optional exponent. -/
inductive Exponent : List Char → ℤ → Prop
  | absent : Exponent [] 0
  | present {e : Char} {text : List Char} {k : ℤ} : e = 'e' ∨ e = 'E' → Signed text k →
      Exponent (e :: text) k

/-- Digits with an optional point among them. -/
structure Mantissa (text whole fraction : List Char) : Prop where
  pointed : text = whole ∧ fraction = [] ∨ text = whole ++ '.' :: fraction
  wholeDigits : Digits whole
  fractionDigits : Digits fraction
  nonempty : ¬ (whole = [] ∧ fraction = [])

/-- A text that spells a number of some digits, a fraction and an exponent. -/
def Spells (text whole fraction : List Char) (exponent : ℤ) : Prop :=
  ∃ mantissa power, text = mantissa ++ power ∧ Mantissa mantissa whole fraction ∧
    Exponent power exponent

/-- The number that is spelled. -/
def value (whole fraction : List Char) (exponent : ℤ) : ℚ :=
  (number whole + number fraction / 10 ^ fraction.length) * 10 ^ exponent

/-- The digits from the first one that is not zero. -/
def significant (digits : List Char) : List Char := digits.dropWhile (· == '0')

variable {digits whole fraction text : List Char} {exponent k : ℤ} {n w : ℕ}

/-! ## Digits -/

lemma Digits.append (hwhole : Digits whole) (hfraction : Digits fraction) :
    Digits (whole ++ fraction) := by
  intro c hc
  obtain hc | hc := List.mem_append.mp hc
  · exact hwhole c hc
  · exact hfraction c hc

lemma digits_iff_all : Digits digits ↔ digits.all Char.isDigit = true := List.all_eq_true.symm

@[simp] lemma number_nil : number [] = 0 := Nat.ofDigitChars_nil

lemma number_append (s t : List Char) : number (s ++ t) = number s * 10 ^ t.length + number t := by
  rw [number, Nat.ofDigitChars_append, Nat.ofDigitChars_eq_ofDigitChars_zero, number, number,
    mul_comm]

lemma number_cons (c : Char) (s : List Char) :
    number (c :: s) = (c.toNat - 48) * 10 ^ s.length + number s := by
  rw [← List.singleton_append, number_append, number, Nat.ofDigitChars_cons, Nat.ofDigitChars_nil,
    mul_zero, zero_add]
  rfl

/-- A digit as a number. -/
lemma digit_range {c : Char} (h : c.isDigit = true) : 48 ≤ c.toNat ∧ c.toNat ≤ 57 := by
  simp only [Char.isDigit, Bool.and_eq_true, decide_eq_true_eq] at h
  exact ⟨h.1, h.2⟩

lemma Digits.number_lt (h : Digits digits) : number digits < 10 ^ digits.length := by
  induction digits with
  | nil => exact Nat.one_pos
  | cons c s ih =>
    have hs := ih fun d hd => h d (List.mem_cons_of_mem _ hd)
    have hc := digit_range (h c List.mem_cons_self)
    rw [number_cons, List.length_cons, pow_succ]
    have hmul : (c.toNat - 48) * 10 ^ s.length ≤ 9 * 10 ^ s.length :=
      Nat.mul_le_mul_right _ (by omega)
    omega

@[simp] lemma number_significant (digits : List Char) :
    number (significant digits) = number digits := by
  induction digits with
  | nil => rfl
  | cons c s ih =>
    rw [significant]
    by_cases hc : c = '0'
    · subst hc
      rw [List.dropWhile_cons_of_pos rfl, number_cons]
      exact ih.trans (by simp)
    · rw [List.dropWhile_cons_of_neg (by simpa using hc)]

lemma Digits.significant (h : Digits digits) : Digits (significant digits) := fun c hc =>
  h c ((List.dropWhile_suffix _).subset hc)

/-- Digits of which none counts spell zero, and no others do. -/
lemma Digits.significant_eq_nil (h : Digits digits) :
    Decimal.significant digits = [] ↔ number digits = 0 := by
  rw [← number_significant digits]
  cases hs : Decimal.significant digits with
  | nil => simp
  | cons c rest =>
    -- the first digit that is left is not zero
    rw [Decimal.significant] at hs
    have hfirst := List.head?_dropWhile_not (· == '0') digits
    rw [hs] at hfirst
    have hne : c ≠ '0' := by simpa using hfirst
    have hdigit := digit_range (h c ((List.dropWhile_suffix _).subset (hs ▸ List.mem_cons_self)))
    have hpos : c.toNat ≠ 48 := fun h48 => hne (Char.toNat_inj.mp h48)
    have hmul : 0 < (c.toNat - 48) * 10 ^ rest.length :=
      Nat.mul_pos (by omega) (Nat.pow_pos (by decide))
    rw [number_cons]
    simp only [List.cons_ne_nil, false_iff]
    omega

/-! ## The parts of a text -/

/-- A character that stands before an exponent. -/
def isMantissa (c : Char) : Bool := c != 'e' && c != 'E'

lemma isMantissa_of_isDigit {c : Char} (h : c.isDigit = true) : isMantissa c = true := by
  rw [isMantissa, Bool.and_eq_true, bne_iff_ne, bne_iff_ne]
  constructor
  · rintro rfl
    cases h
  · rintro rfl
    cases h

lemma ne_point_of_isDigit {c : Char} (h : c.isDigit = true) : (c != '.') = true := by
  rw [bne_iff_ne]
  rintro rfl
  cases h

/-- The parts of a mantissa stand before and behind its first point. -/
lemma mantissa_iff : Mantissa text whole fraction ↔
    text.takeWhile (· != '.') = whole ∧ (text.dropWhile (· != '.')).tail = fraction ∧
      Digits whole ∧ Digits fraction ∧ ¬ (whole = [] ∧ fraction = []) := by
  constructor
  · rintro ⟨⟨rfl, rfl⟩ | rfl, hwhole, hfraction, hne⟩
    · have hall : ∀ c ∈ text, (c != '.') = true := fun c hc => ne_point_of_isDigit (hwhole c hc)
      rw [List.takeWhile_eq_self_iff.mpr hall, List.dropWhile_eq_nil_iff.mpr hall]
      exact ⟨rfl, rfl, hwhole, hfraction, hne⟩
    · have hall : ∀ c ∈ whole, (c != '.') = true := fun c hc => ne_point_of_isDigit (hwhole c hc)
      rw [List.takeWhile_append_of_pos hall, List.dropWhile_append_of_pos hall,
        List.takeWhile_cons_of_neg (by decide), List.dropWhile_cons_of_neg (by decide),
        List.append_nil]
      exact ⟨rfl, rfl, hwhole, hfraction, hne⟩
  · rintro ⟨rfl, rfl, hwhole, hfraction, hne⟩
    refine ⟨?_, hwhole, hfraction, hne⟩
    cases hdrop : text.dropWhile (· != '.') with
    | nil =>
      exact .inl ⟨(List.takeWhile_eq_self_iff.mpr (List.dropWhile_eq_nil_iff.mp hdrop)).symm, rfl⟩
    | cons c rest =>
      have hpoint := List.head?_dropWhile_not (· != '.') text
      rw [hdrop] at hpoint
      obtain rfl : c = '.' := by simpa using hpoint
      refine .inr ?_
      rw [List.tail_cons, ← hdrop, List.takeWhile_append_dropWhile]

lemma Mantissa.ne_nil (h : Mantissa text whole fraction) : text ≠ [] := by
  rintro rfl
  obtain ⟨rfl, rfl, -, -, hne⟩ := mantissa_iff.mp h
  exact hne ⟨rfl, rfl⟩

/-- A mantissa has digits and a point only. -/
lemma Mantissa.mem (h : Mantissa text whole fraction) {c : Char} (hc : c ∈ text) :
    c.isDigit = true ∨ c = '.' := by
  obtain ⟨rfl, -⟩ | rfl := h.pointed
  · exact .inl (h.wholeDigits c hc)
  · obtain hc | hc := List.mem_append.mp hc
    · exact .inl (h.wholeDigits c hc)
    · obtain rfl | hc := List.mem_cons.mp hc
      · exact .inr rfl
      · exact .inl (h.fractionDigits c hc)

lemma Mantissa.isMantissa (h : Mantissa text whole fraction) :
    ∀ c ∈ text, isMantissa c = true := by
  intro c hc
  obtain hdigit | rfl := h.mem hc
  · exact isMantissa_of_isDigit hdigit
  · rfl

/-- A number begins with a digit or a point. -/
lemma Spells.exists_cons (h : Spells text whole fraction exponent) :
    ∃ c rest, text = c :: rest ∧ (c.isDigit = true ∨ c = '.') := by
  obtain ⟨mantissa, power, rfl, hmantissa, -⟩ := h
  cases mantissa with
  | nil => exact absurd rfl hmantissa.ne_nil
  | cons c rest => exact ⟨c, rest ++ power, rfl, hmantissa.mem List.mem_cons_self⟩

/-- The mantissa of a number ends where its exponent begins. -/
lemma spells_iff : Spells text whole fraction exponent ↔
    Mantissa (text.takeWhile isMantissa) whole fraction ∧
      Exponent (text.dropWhile isMantissa) exponent := by
  constructor
  · rintro ⟨mantissa, power, rfl, hmantissa, hpower⟩
    have hstops : power.takeWhile isMantissa = [] ∧ power.dropWhile isMantissa = power := by
      obtain - | ⟨rfl | rfl, -⟩ := hpower
      · exact ⟨rfl, rfl⟩
      · exact ⟨List.takeWhile_cons_of_neg (by decide), List.dropWhile_cons_of_neg (by decide)⟩
      · exact ⟨List.takeWhile_cons_of_neg (by decide), List.dropWhile_cons_of_neg (by decide)⟩
    rw [List.takeWhile_append_of_pos hmantissa.isMantissa,
      List.dropWhile_append_of_pos hmantissa.isMantissa, hstops.1, hstops.2, List.append_nil]
    exact ⟨hmantissa, hpower⟩
  · rintro ⟨hmantissa, hpower⟩
    exact ⟨_, _, List.takeWhile_append_dropWhile.symm, hmantissa, hpower⟩

/-! ## Values -/

/-- The digits on both sides of the point as one number, at the scale of its last digit. -/
lemma value_eq (whole fraction : List Char) (exponent : ℤ) :
    value whole fraction exponent =
      number (whole ++ fraction) * 10 ^ (exponent - fraction.length) := by
  rw [value, number_append, zpow_sub₀ (by norm_num), zpow_natCast]
  push_cast
  field_simp

/-! ## Signed integers -/

/-- `str::parse` to a signed number of `w` bits. -/
def parseSigned (w : ℕ) : List Char → Option ℤ
  | '-' :: digits =>
    if digits = [] ∨ digits.all Char.isDigit = false then none
    else if number digits ≤ 2 ^ (w - 1) then some (-(number digits : ℤ)) else none
  | text => (parseUnsigned (2 ^ (w - 1)) text).map Int.ofNat

lemma parseUnsigned_eq_some {bound : ℕ} : parseUnsigned bound text = some n ↔
    Digits (dropPlus text) ∧ dropPlus text ≠ [] ∧ number (dropPlus text) = n ∧ n < bound := by
  rw [digits_iff_all, parseUnsigned]
  simp only [number]
  constructor
  · intro h
    split_ifs at h with hbad hlt
    obtain rfl := Option.some.inj h
    rw [not_or, Bool.not_eq_false] at hbad
    exact ⟨hbad.2, hbad.1, rfl, hlt⟩
  · rintro ⟨hall, hne, rfl, hlt⟩
    rw [if_neg (by simp [hall, hne]), if_pos hlt]

lemma signed_minus_iff :
    Signed ('-' :: digits) k ↔ Digits digits ∧ digits ≠ [] ∧ k = -(number digits : ℤ) := by
  constructor
  · rintro (⟨hdigits, -⟩ | - | ⟨hdigits, hne⟩)
    · cases hdigits '-' List.mem_cons_self
    · exact ⟨hdigits, hne, rfl⟩
  · rintro ⟨hdigits, hne, rfl⟩
    exact .minus hdigits hne

lemma signed_iff (h : ∀ rest, text ≠ '-' :: rest) : Signed text k ↔
    Digits (dropPlus text) ∧ dropPlus text ≠ [] ∧ k = (number (dropPlus text) : ℤ) := by
  constructor
  · rintro (⟨hdigits, hne⟩ | ⟨hdigits, hne⟩ | ⟨-, -⟩)
    · rw [dropPlus_of_isDigit hdigits]
      exact ⟨hdigits, hne, rfl⟩
    · exact ⟨hdigits, hne, rfl⟩
    · exact absurd rfl (h _)
  · rintro ⟨hdigits, hne, rfl⟩
    obtain ⟨rest, rfl⟩ | hbare := Classical.em (∃ rest, text = '+' :: rest)
    · exact .plus hdigits hne
    · have hdrop : dropPlus text = text := dropPlus.eq_2 text fun rest h => hbare ⟨rest, h⟩
      rw [hdrop] at hdigits hne ⊢
      exact .bare hdigits hne

/-- A signed number is read exactly where it is in range. -/
lemma parseSigned_eq_some :
    parseSigned w text = some k ↔ Signed text k ∧ Checked.Fits w k := by
  have hcast : ((2 ^ (w - 1) : ℕ) : ℤ) = 2 ^ (w - 1) := by push_cast; rfl
  have hpos : 0 < 2 ^ (w - 1) := Nat.two_pow_pos _
  rw [parseSigned.eq_def, Checked.Fits, ← hcast]
  generalize 2 ^ (w - 1) = bound at hpos
  split
  · rename_i digits
    rw [Option.ite_none_left_eq_some, not_or, Bool.not_eq_false, ← digits_iff_all,
      signed_minus_iff, Option.ite_none_right_eq_some, Option.some_inj]
    constructor
    · rintro ⟨⟨hne, hdigits⟩, hle, rfl⟩
      exact ⟨⟨hdigits, hne, rfl⟩, by omega, by omega⟩
    · rintro ⟨⟨hdigits, hne, rfl⟩, hlo, -⟩
      exact ⟨⟨hne, hdigits⟩, by omega, rfl⟩
  · rename_i hminus
    rw [signed_iff fun rest h => hminus rest h, Option.map_eq_some_iff]
    constructor
    · rintro ⟨n, hn, rfl⟩
      obtain ⟨hdigits, hne, rfl, hlt⟩ := parseUnsigned_eq_some.mp hn
      rw [Int.ofNat_eq_natCast]
      exact ⟨⟨hdigits, hne, rfl⟩, by omega, by omega⟩
    · rintro ⟨⟨hdigits, hne, rfl⟩, -, hlt⟩
      exact ⟨_, parseUnsigned_eq_some.mpr ⟨hdigits, hne, rfl, by omega⟩, rfl⟩

/-- An exponent's sign and digits are behind its letter. -/
lemma exponent_cons_iff {e : Char} (he : isMantissa e = false) :
    Exponent (e :: text) k ↔ Signed text k := by
  have hletter : e = 'e' ∨ e = 'E' := by
    by_contra hnot
    rw [not_or] at hnot
    rw [isMantissa, Bool.and_eq_false_iff, bne_eq_false_iff_eq, bne_eq_false_iff_eq] at he
    exact he.elim hnot.1 hnot.2
  constructor
  · rintro ⟨⟩
    assumption
  · exact .present hletter

/-- A text spells one integer at most. -/
lemma Signed.unique {k' : ℤ} (h : Signed text k) (h' : Signed text k') : k = k' := by
  -- a width in which both are in range
  have hwide : ∀ j : ℤ, j.natAbs ≤ k.natAbs + k'.natAbs →
      Checked.Fits (k.natAbs + k'.natAbs + 1) j := by
    intro j hj
    have hpow : k.natAbs + k'.natAbs < 2 ^ (k.natAbs + k'.natAbs) := Nat.lt_two_pow_self
    have hcast : ((2 ^ (k.natAbs + k'.natAbs) : ℕ) : ℤ) = 2 ^ (k.natAbs + k'.natAbs) := by
      push_cast
      rfl
    rw [Checked.Fits, Nat.add_sub_cancel, ← hcast]
    omega
  have hk := parseSigned_eq_some.mpr ⟨h, hwide k (by omega)⟩
  have hk' := parseSigned_eq_some.mpr ⟨h', hwide k' (by omega)⟩
  exact Option.some.inj (hk.symm.trans hk')

/-- A text spells one number at most. -/
lemma Spells.unique {whole' fraction' : List Char} {exponent' : ℤ}
    (h : Spells text whole fraction exponent) (h' : Spells text whole' fraction' exponent') :
    whole = whole' ∧ fraction = fraction' ∧ exponent = exponent' := by
  obtain ⟨hmantissa, hpower⟩ := spells_iff.mp h
  obtain ⟨hmantissa', hpower'⟩ := spells_iff.mp h'
  obtain ⟨rfl, rfl, -⟩ := mantissa_iff.mp hmantissa
  obtain ⟨rfl, rfl, -⟩ := mantissa_iff.mp hmantissa'
  refine ⟨rfl, rfl, ?_⟩
  generalize text.dropWhile isMantissa = power at hpower hpower'
  cases hpower with
  | absent =>
    cases hpower'
    rfl
  | present _ hsigned =>
    cases hpower' with
    | present _ hsigned' => exact hsigned.unique hsigned'

end Pickaxe.Lib.Decimal
