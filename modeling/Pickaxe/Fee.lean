/-
# Amounts of a coin as texts

A node reports fees and outputs as decimal amounts of the whole coin, which are read to satoshis
without rounding: the digits on both sides of the point as one number, at a scale from the exponent
and the length of the fraction.  The scale is computed on 32 bits.
-/
import Pickaxe.Lib.Decimal
import Pickaxe.Lib.Result
import Pickaxe.Lib.Text

namespace Pickaxe.Fee

open Lib Decimal Checked

/-! ## The amount of a text -/

/-- The mantissa of a text, and its exponent. -/
def splitExponent (text : List Char) : Except String (List Char × ℤ) :=
  match text.dropWhile isMantissa with
  | [] => .ok (text, 0)
  | _ :: exponent =>
    match parseSigned 32 exponent with
    | none => .error "relay fee has an invalid decimal exponent"
    | some exponent => .ok (text.takeWhile isMantissa, exponent)

/-- What is before the point of a mantissa and what is behind it. -/
def splitPoint (mantissa : List Char) : Except String (List Char × List Char) :=
  match mantissa.dropWhile (· != '.') with
  | [] => .ok (mantissa, [])
  | _ :: fractional =>
    if '.' ∈ fractional then .error "BCH amount has more than one decimal point"
    else .ok (mantissa.takeWhile (· != '.'), fractional)

/-- The parts of an amount. -/
structure Amount where
  whole : List Char
  fractional : List Char
  exponent : ℤ

namespace Amount

/-- `decimal_bch_to_sats`, up to the digits. -/
def parse (text : List Char) : Except String Amount :=
  if text = [] ∨ text.head? = some '-' ∨ text.head? = some '+' then
    .error "BCH amount must be non-negative"
  else do
    let (mantissa, exponent) ← splitExponent text
    let (whole, fractional) ← splitPoint mantissa
    if whole = [] ∧ fractional = [] then .error "BCH amount is empty"
    else if ¬ (whole.all Char.isDigit = true ∧ fractional.all Char.isDigit = true) then
      .error "BCH amount contains non-decimal characters"
    else .ok ⟨whole, fractional, exponent⟩

/-- The digits that count. -/
def digits (a : Amount) : List Char := significant (a.whole ++ a.fractional)

/-- A length as an `i32`: the cast keeps its last 32 bits. -/
def asI32 (length : ℕ) : ℤ := (length : ℤ).bmod (2 ^ 32)

/-- `checked_add` and `checked_sub` of an `i32`. -/
def checkedI32 (k : ℤ) : Option ℤ := if Fits 32 k then some k else none

/-- The power of ten that makes the digits satoshis. -/
def scale (a : Amount) : Except String ℤ :=
  match (checkedI32 (8 + a.exponent)).bind fun scale =>
      checkedI32 (scale - asI32 a.fractional.length) with
  | none => .error "BCH amount scale overflow"
  | some scale => .ok scale

/-- `checked_pow` of a ten of 128 bits. -/
def checkedPow (n : ℕ) : Option ℕ := if 10 ^ n < 2 ^ 128 then some (10 ^ n) else none

/-- A number at a scale. -/
def shift (value : ℕ) (scale : ℤ) : Except String ℕ :=
  if 0 ≤ scale then
    match checkedPow scale.toNat with
    | none => .error "BCH amount scale is too large"
    | some multiplier =>
      if value * multiplier < 2 ^ 128 then .ok (value * multiplier)
      else .error "BCH amount satoshi value overflow"
  else
    match checkedPow scale.natAbs with
    | none => .error "BCH amount scale is too small"
    | some divisor =>
      if value % divisor ≠ 0 then .error "BCH amount has precision below one satoshi"
      else .ok (value / divisor)

/-- `decimal_bch_to_sats`, from the digits on. -/
def toSats (a : Amount) : Except String ℕ :=
  if a.digits = [] then .ok 0
  else match parseUnsigned (2 ^ 128) a.digits with
    | none => .error "BCH amount decimal is too large"
    | some value => do
      let scale ← a.scale
      let value ← shift value scale
      if value < 2 ^ 64 then .ok value else .error "BCH amount exceeds u64 satoshis"

end Amount

/-- `decimal_bch_to_sats`. -/
def decimalBchToSats (text : List Char) : Except String ℕ := do
  let amount ← Amount.parse (Text.trim text)
  amount.toSats

/-- `bch_value_to_sats`. -/
def bchValueToSats : Json → Except String ℕ
  | .unsigned n => decimalBchToSats (Nat.toDigits 10 n.toNat)
  | .number text => decimalBchToSats text.toList
  | .string text => decimalBchToSats text
  | _ => .error "BCH amount must be numeric"

/-! ## The parts -/

section Parse

variable {text whole fraction : List Char} {exponent : ℤ} {a : Amount}

lemma splitExponent_eq_ok {mantissa : List Char} :
    splitExponent text = .ok (mantissa, exponent) ↔ text.takeWhile isMantissa = mantissa ∧
      Exponent (text.dropWhile isMantissa) exponent ∧ Fits 32 exponent := by
  have hstop := List.head?_dropWhile_not isMantissa text
  rw [splitExponent]
  cases hdrop : text.dropWhile isMantissa with
  | nil =>
    rw [List.takeWhile_eq_self_iff.mpr (List.dropWhile_eq_nil_iff.mp hdrop)]
    constructor
    · rintro ⟨⟩
      exact ⟨rfl, .absent, by decide⟩
    · rintro ⟨rfl, ⟨⟩, -⟩
      rfl
  | cons e power =>
    rw [hdrop] at hstop
    rw [exponent_cons_iff hstop, ← parseSigned_eq_some]
    cases hparse : parseSigned 32 power with
    | none =>
      simp only [hparse]
      exact iff_of_false (by rintro ⟨⟩) fun h => Option.some_ne_none _ h.2.symm
    | some k => simp only [hparse, Except.ok.injEq, Prod.mk.injEq, Option.some.injEq]

lemma splitPoint_eq_ok {mantissa : List Char} :
    splitPoint mantissa = .ok (whole, fraction) ↔ mantissa.takeWhile (· != '.') = whole ∧
      (mantissa.dropWhile (· != '.')).tail = fraction ∧ '.' ∉ fraction := by
  rw [splitPoint]
  cases hdrop : mantissa.dropWhile (· != '.') with
  | nil =>
    rw [List.takeWhile_eq_self_iff.mpr (List.dropWhile_eq_nil_iff.mp hdrop)]
    constructor
    · rintro ⟨⟩
      exact ⟨rfl, rfl, List.not_mem_nil⟩
    · rintro ⟨rfl, rfl, -⟩
      rfl
  | cons c rest =>
    simp only [Except.ite_error_eq_ok, Except.ok.injEq, Prod.mk.injEq, List.tail_cons]
    constructor
    · rintro ⟨hpoint, rfl, rfl⟩
      exact ⟨rfl, rfl, hpoint⟩
    · rintro ⟨rfl, rfl, hpoint⟩
      exact ⟨hpoint, rfl, rfl⟩

/-- An amount is read exactly from the texts that spell it with an exponent on 32 bits. -/
lemma parse_eq_ok : Amount.parse text = .ok a ↔
    Spells text a.whole a.fractional a.exponent ∧ Fits 32 a.exponent := by
  rw [Amount.parse, Except.ite_error_eq_ok]
  simp only [Except.bind_eq_ok, Except.ite_error_eq_ok, Prod.exists, splitExponent_eq_ok,
    splitPoint_eq_ok, not_not, ← digits_iff_all]
  constructor
  · rintro ⟨-, _, exponent, ⟨rfl, hexponent, hfits⟩, whole, fraction, ⟨hwhole, hfraction, -⟩, hne,
      ⟨hwholeDigits, hfractionDigits⟩, ⟨⟩⟩
    exact ⟨spells_iff.mpr ⟨mantissa_iff.mpr
      ⟨hwhole, hfraction, hwholeDigits, hfractionDigits, hne⟩, hexponent⟩, hfits⟩
  · rintro ⟨hspells, hfits⟩
    obtain ⟨hmantissa, hexponent⟩ := spells_iff.mp hspells
    obtain ⟨hwhole, hfraction, hwholeDigits, hfractionDigits, hne⟩ := mantissa_iff.mp hmantissa
    refine ⟨?_, _, _, ⟨rfl, hexponent, hfits⟩, _, _, ⟨hwhole, hfraction, ?_⟩, hne,
      ⟨hwholeDigits, hfractionDigits⟩, rfl⟩
    · -- the first character is a digit or the point
      obtain ⟨c, rest, rfl, hfirst⟩ := hspells.exists_cons
      simp only [List.cons_ne_nil, List.head?_cons, Option.some.injEq, false_or, not_or]
      constructor
      · rintro rfl
        simp at hfirst
      · rintro rfl
        simp at hfirst
    · intro hpoint
      cases hfractionDigits '.' hpoint

end Parse

/-! ## The scale -/

section Scale

open Amount

variable {a : Amount} {scale : ℤ} {n m v : ℕ}

lemma checkedI32_eq_some {k j : ℤ} : checkedI32 k = some j ↔ Fits 32 k ∧ k = j := by
  rw [checkedI32, Option.ite_none_right_eq_some, Option.some_inj]

/-- The cast keeps a length exactly where it is positive as an `i32`. -/
lemma asI32_eq_self : asI32 n = n ↔ n < 2 ^ 31 := by
  refine ⟨fun h => ?_, fun h => ?_⟩
  · have hlt : (n : ℤ) < ((2 ^ 32 : ℕ) + 1) / 2 :=
      lt_of_eq_of_lt h.symm (Int.bmod_lt (Nat.two_pow_pos 32))
    norm_num at hlt
    omega
  · refine Int.bmod_eq_of_le ?_ ?_
    · omega
    · norm_num
      omega

lemma scale_eq_ok : a.scale = .ok scale ↔ Fits 32 (8 + a.exponent) ∧ Fits 32 scale ∧
    scale = 8 + a.exponent - asI32 a.fractional.length := by
  have hsome : (checkedI32 (8 + a.exponent)).bind (fun scale =>
      checkedI32 (scale - asI32 a.fractional.length)) = some scale ↔ Fits 32 (8 + a.exponent) ∧
        Fits 32 scale ∧ scale = 8 + a.exponent - asI32 a.fractional.length := by
    simp only [Option.bind_eq_some_iff, checkedI32_eq_some]
    constructor
    · rintro ⟨_, ⟨hfits, rfl⟩, hfits', rfl⟩
      exact ⟨hfits, hfits', rfl⟩
    · rintro ⟨hfits, hfits', rfl⟩
      exact ⟨_, ⟨hfits, rfl⟩, hfits', rfl⟩
  rw [← hsome, Amount.scale]
  split
  · rename_i hnone
    rw [hnone]
    exact iff_of_false (by rintro ⟨⟩) (by rintro ⟨⟩)
  · rename_i hscale
    rw [hscale, Except.ok.injEq, Option.some.injEq]

/-- The largest power of ten of 128 bits is the 38th. -/
lemma checkedPow_eq_some : checkedPow n = some m ↔ n ≤ 38 ∧ m = 10 ^ n := by
  have hlt : 10 ^ n < 2 ^ 128 ↔ n ≤ 38 := by
    constructor
    · intro h
      by_contra hn
      have hle : 10 ^ 39 ≤ 10 ^ n := Nat.pow_le_pow_right (by decide) (by omega)
      omega
    · intro h
      have hle : 10 ^ n ≤ 10 ^ 38 := Nat.pow_le_pow_right (by decide) h
      omega
  rw [checkedPow, Option.ite_none_right_eq_some, hlt, Option.some_inj, eq_comm (a := m)]

lemma eq_mul_zpow_iff {k : ℕ} : (v : ℚ) = n * 10 ^ (k : ℤ) ↔ v = n * 10 ^ k := by
  rw [zpow_natCast]
  norm_cast

lemma eq_mul_zpow_neg_iff {k : ℕ} : (v : ℚ) = n * 10 ^ (-(k : ℤ)) ↔ v * 10 ^ k = n := by
  have hpow10 : (10 : ℚ) ^ k ≠ 0 := pow_ne_zero k (by norm_num)
  rw [zpow_neg, zpow_natCast, ← div_eq_mul_inv, eq_div_iff hpow10]
  norm_cast

/-- A number at a scale is exact, where the power of ten and the number fit. -/
lemma shift_eq_ok : shift n scale = .ok v ↔
    |scale| ≤ 38 ∧ (0 ≤ scale → v < 2 ^ 128) ∧ (v : ℚ) = n * 10 ^ scale := by
  obtain hscale | hscale := le_or_gt 0 scale
  · -- the number is multiplied
    obtain ⟨k, rfl⟩ := Int.eq_ofNat_of_zero_le hscale
    rw [eq_mul_zpow_iff, shift, if_pos (Int.natCast_nonneg k), Int.toNat_natCast, Nat.abs_cast]
    cases hpow : checkedPow k with
    | none =>
      refine iff_of_false (by rintro ⟨⟩) ?_
      rintro ⟨hk, -⟩
      have hsome := checkedPow_eq_some.mpr ⟨(by omega : k ≤ 38), rfl⟩
      rw [hpow] at hsome
      cases hsome
    | some multiplier =>
      obtain ⟨hk, rfl⟩ := checkedPow_eq_some.mp hpow
      simp only
      constructor
      · intro h
        split_ifs at h with hlt
        obtain rfl := Except.ok.inj h
        exact ⟨by omega, fun _ => hlt, rfl⟩
      · rintro ⟨-, hlt, rfl⟩
        rw [if_pos (hlt (Int.natCast_nonneg k))]
  · -- the number is divided
    obtain ⟨k, rfl⟩ := Int.exists_eq_neg_ofNat hscale.le
    rw [eq_mul_zpow_neg_iff, shift, if_neg hscale.not_ge, Int.natAbs_neg, Int.natAbs_natCast, abs_neg,
      Nat.abs_cast]
    cases hpow : checkedPow k with
    | none =>
      refine iff_of_false (by rintro ⟨⟩) ?_
      rintro ⟨hk, -⟩
      have hsome := checkedPow_eq_some.mpr ⟨(by omega : k ≤ 38), rfl⟩
      rw [hpow] at hsome
      cases hsome
    | some divisor =>
      obtain ⟨hk, rfl⟩ := checkedPow_eq_some.mp hpow
      have hpos : 0 < 10 ^ k := Nat.pow_pos (by decide)
      simp only [Except.ite_error_eq_ok, not_not, Except.ok.injEq]
      constructor
      · rintro ⟨hmod, rfl⟩
        exact ⟨by omega, fun h => absurd h hscale.not_ge,
          Nat.div_mul_cancel (Nat.dvd_of_mod_eq_zero hmod)⟩
      · rintro ⟨-, -, rfl⟩
        exact ⟨Nat.mul_mod_left v _, Nat.mul_div_cancel v hpos⟩

lemma parse_digits (hdigits : Digits (a.whole ++ a.fractional)) :
    parseUnsigned (2 ^ 128) a.digits = some n ↔
      a.digits ≠ [] ∧ number (a.whole ++ a.fractional) = n ∧ n < 2 ^ 128 := by
  have hcount : Digits a.digits := hdigits.significant
  rw [parseUnsigned_eq_some, dropPlus_of_isDigit hcount, Amount.digits, number_significant]
  exact and_iff_right hcount

lemma toSats_eq_ok (hdigits : Digits (a.whole ++ a.fractional)) : a.toSats = .ok v ↔
    (a.digits = [] ∧ v = 0) ∨ (a.digits ≠ [] ∧ number (a.whole ++ a.fractional) < 2 ^ 128 ∧
      ∃ scale, a.scale = .ok scale ∧ shift (number (a.whole ++ a.fractional)) scale = .ok v ∧
        v < 2 ^ 64) := by
  rw [Amount.toSats]
  by_cases hnil : a.digits = []
  · rw [if_pos hnil, Except.ok.injEq]
    simp [hnil, eq_comm]
  rw [if_neg hnil]
  cases hparse : parseUnsigned (2 ^ 128) a.digits with
  | none =>
    refine iff_of_false (by rintro ⟨⟩) ?_
    rintro (⟨h, -⟩ | ⟨-, hlt, -⟩)
    · exact hnil h
    · rw [(parse_digits hdigits).mpr ⟨hnil, rfl, hlt⟩] at hparse
      cases hparse
  | some value =>
    obtain ⟨-, rfl, hlt⟩ := (parse_digits hdigits).mp hparse
    simp only [Except.bind_eq_ok, hnil, hlt, false_and, false_or, true_and, ne_eq,
      not_false_eq_true]
    constructor
    · rintro ⟨scale, hscale, value, hvalue, h⟩
      split_ifs at h with hsmall
      obtain rfl := Except.ok.inj h
      exact ⟨scale, hscale, hvalue, hsmall⟩
    · rintro ⟨scale, hscale, hvalue, hsmall⟩
      exact ⟨scale, hscale, v, hvalue, if_pos hsmall⟩

/-- The value of an amount in satoshis. -/
lemma value_sats (a : Amount) : value a.whole a.fractional a.exponent * 10 ^ 8 =
    number (a.whole ++ a.fractional) * 10 ^ (8 + a.exponent - a.fractional.length) := by
  have hscale : 8 + a.exponent - (a.fractional.length : ℤ) =
      a.exponent - a.fractional.length + (8 : ℕ) := by
    push_cast
    ring
  rw [value_eq, hscale, zpow_add₀ (by norm_num), zpow_natCast, mul_assoc]

end Scale

/-! ## Exact reading -/

/-- An amount of `v` satoshis that the reader promises to read: its digits from the first that
counts, its exponent and the power of ten between the two are of a bounded size. -/
structure Representable (whole fraction : List Char) (exponent : ℤ) (v : ℕ) : Prop where
  sats : (v : ℚ) = value whole fraction exponent * 10 ^ 8
  lt : v < 2 ^ 64
  digits : (significant (whole ++ fraction)).length ≤ 38
  fits : Fits 32 exponent
  power : significant (whole ++ fraction) ≠ [] → |8 + exponent - fraction.length| ≤ 38

/-- An amount whose fraction's length is cast: its digits are of 128 bits, and not all zero, and its
exponent leaves room for the eight digits of a satoshi. -/
def Amount.Casts (a : Amount) : Prop :=
  a.digits ≠ [] ∧ number a.digits < 2 ^ 128 ∧ Fits 32 (8 + a.exponent)

/-- A text is read exactly: what it is read as is the value it spells, it is read where its amount
is representable, and no length is wrapped. -/
structure ReadsExactly (text : List Char) : Prop where
  sound : ∀ v, decimalBchToSats text = .ok v → v < 2 ^ 64 ∧ ∃ whole fraction exponent,
    Spells (Text.trim text) whole fraction exponent ∧
      (v : ℚ) = value whole fraction exponent * 10 ^ 8
  complete : ∀ whole fraction exponent v, Spells (Text.trim text) whole fraction exponent →
    Representable whole fraction exponent v → decimalBchToSats text = .ok v
  unwrapped : ∀ a, Amount.parse (Text.trim text) = .ok a → a.Casts →
    Amount.asI32 a.fractional.length = a.fractional.length

/-- A number is a whole number of satoshis on 64 bits at a power of ten of at most 38 either way. -/
def WholeSats (n : ℕ) (scale : ℤ) : Prop :=
  |scale| ≤ 38 ∧ 10 ^ (-scale).toNat ∣ n ∧ n * 10 ^ scale.toNat < 2 ^ 64 * 10 ^ (-scale).toNat

/-- The fraction of a text is short enough for its exponent: below 2³¹ digits, and where the
exponent leaves no room for the eight digits of a satoshi, too short or too long for at most 38
digits to be whole satoshis. -/
def Short (text : List Char) : Prop :=
  ∀ whole fraction exponent, Spells (Text.trim text) whole fraction exponent → Fits 32 exponent →
    significant (whole ++ fraction) ≠ [] →
    (exponent < 2 ^ 31 - 8 → number (whole ++ fraction) < 2 ^ 128 → fraction.length < 2 ^ 31) ∧
      (2 ^ 31 - 8 ≤ exponent → (significant (whole ++ fraction)).length ≤ 38 →
        ¬ WholeSats (number (whole ++ fraction)) (8 + exponent - fraction.length))

section Exact

variable {text whole fraction : List Char} {exponent : ℤ} {a : Amount} {v : ℕ}

lemma Spells.digits (h : Spells text whole fraction exponent) : Digits (whole ++ fraction) := by
  obtain ⟨_, _, -, hmantissa, -⟩ := h
  exact hmantissa.wholeDigits.append hmantissa.fractionDigits

/-- An exponent leaves room for the eight digits of a satoshi below the last eight of an `i32`. -/
lemma fits_add_iff (h : Fits 32 exponent) : Fits 32 (8 + exponent) ↔ exponent < 2 ^ 31 - 8 := by
  obtain ⟨hlo, hhi⟩ := h
  norm_num [Fits] at hlo hhi ⊢
  omega

/-- The digits of a representable amount fit in 128 bits. -/
lemma Representable.number_lt (h : Representable whole fraction exponent v)
    (hdigits : Digits (whole ++ fraction)) : number (whole ++ fraction) < 2 ^ 128 := by
  rw [← number_significant]
  calc number (significant (whole ++ fraction))
      < 10 ^ (significant (whole ++ fraction)).length := hdigits.significant.number_lt
    _ ≤ 10 ^ 38 := Nat.pow_le_pow_right (by decide) h.digits
    _ < 2 ^ 128 := by norm_num

/-- The whole satoshis at a power of ten. -/
lemma wholeSats_iff {n : ℕ} {scale : ℤ} :
    WholeSats n scale ↔ |scale| ≤ 38 ∧ ∃ v : ℕ, v < 2 ^ 64 ∧ (v : ℚ) = n * 10 ^ scale := by
  refine and_congr_right fun _ => ?_
  obtain hscale | hscale := le_or_gt 0 scale
  · obtain ⟨k, rfl⟩ := Int.eq_ofNat_of_zero_le hscale
    simp only [eq_mul_zpow_iff, Int.toNat_neg_natCast, Int.toNat_natCast, pow_zero, one_dvd, mul_one,
      true_and]
    constructor
    · intro hlt
      exact ⟨_, hlt, rfl⟩
    · rintro ⟨v, hlt, rfl⟩
      exact hlt
  · obtain ⟨k, rfl⟩ := Int.exists_eq_neg_ofNat hscale.le
    have hpos : 0 < 10 ^ k := Nat.pow_pos (by decide)
    simp only [eq_mul_zpow_neg_iff, neg_neg, Int.toNat_natCast, Int.toNat_neg_natCast, pow_zero,
      mul_one]
    constructor
    · rintro ⟨⟨v, rfl⟩, hlt⟩
      rw [mul_comm] at hlt
      exact ⟨v, Nat.lt_of_mul_lt_mul_right hlt, mul_comm _ _⟩
    · rintro ⟨v, hlt, rfl⟩
      exact ⟨Nat.dvd_mul_left _ _, Nat.mul_lt_mul_of_pos_right hlt hpos⟩

lemma Representable.wholeSats (h : Representable whole fraction exponent v)
    (hne : significant (whole ++ fraction) ≠ []) :
    WholeSats (number (whole ++ fraction)) (8 + exponent - fraction.length) :=
  wholeSats_iff.mpr ⟨h.power hne, v, h.lt, h.sats.trans (value_sats ⟨whole, fraction, exponent⟩)⟩

lemma decimalBchToSats_eq_ok : decimalBchToSats text = .ok v ↔
    ∃ a : Amount, Spells (Text.trim text) a.whole a.fractional a.exponent ∧ Fits 32 a.exponent ∧
      a.toSats = .ok v := by
  simp only [decimalBchToSats, Except.bind_eq_ok, parse_eq_ok, and_assoc]

/-- A short fraction's length is kept by the cast. -/
lemma Short.cast (h : Short text)
    (hspells : Spells (Text.trim text) a.whole a.fractional a.exponent)
    (hfits : Fits 32 a.exponent) (hcasts : a.Casts) :
    Amount.asI32 a.fractional.length = a.fractional.length := by
  obtain ⟨hne, hlt, hroom⟩ := hcasts
  exact asI32_eq_self.mpr ((h _ _ _ hspells hfits hne).1 ((fits_add_iff hfits).mp hroom)
    ((number_significant _).symm.trans_lt hlt))

lemma toSats_sound (hdigits : Digits (a.whole ++ a.fractional))
    (hcast : a.Casts → Amount.asI32 a.fractional.length = a.fractional.length)
    (h : a.toSats = .ok v) :
    v < 2 ^ 64 ∧ (v : ℚ) = value a.whole a.fractional a.exponent * 10 ^ 8 := by
  rw [value_sats]
  obtain ⟨hnil, rfl⟩ | ⟨hne, hlt, scale, hscale, hshift, hsmall⟩ := (toSats_eq_ok hdigits).mp h
  · rw [hdigits.significant_eq_nil.mp hnil]
    exact ⟨by decide, by simp⟩
  · obtain ⟨hfits, -, rfl⟩ := scale_eq_ok.mp hscale
    have hkept := hcast ⟨hne, (number_significant _).trans_lt hlt, hfits⟩
    rw [hkept] at hshift
    exact ⟨hsmall, (shift_eq_ok.mp hshift).2.2⟩

lemma toSats_complete (hdigits : Digits (a.whole ++ a.fractional))
    (hroom : a.digits ≠ [] → Fits 32 (8 + a.exponent) ∧ a.fractional.length < 2 ^ 31)
    (h : Representable a.whole a.fractional a.exponent v) : a.toSats = .ok v := by
  have hsats := h.sats
  rw [value_sats] at hsats
  refine (toSats_eq_ok hdigits).mpr ?_
  by_cases hnil : a.digits = []
  · rw [hdigits.significant_eq_nil.mp hnil, Nat.cast_zero, zero_mul, Nat.cast_eq_zero] at hsats
    exact .inl ⟨hnil, hsats⟩
  · obtain ⟨hfits, hlength⟩ := hroom hnil
    have hpower := h.power hnil
    have hv : v < 2 ^ 128 := h.lt.trans (by norm_num)
    refine .inr ⟨hnil, h.number_lt hdigits, _, scale_eq_ok.mpr ⟨hfits, ?_, rfl⟩, ?_, h.lt⟩
    · rw [asI32_eq_self.mpr hlength]
      have habs := abs_le.mp hpower
      exact ⟨by norm_num; omega, by norm_num; omega⟩
    · rw [asI32_eq_self.mpr hlength]
      exact shift_eq_ok.mpr ⟨hpower, fun _ => hv, hsats⟩

/-- A short enough fraction is read exactly. -/
lemma Short.readsExactly (h : Short text) : ReadsExactly text := by
  refine ⟨fun v hv => ?_, fun whole fraction exponent v hspells hv => ?_, fun a ha hcasts => ?_⟩
  · obtain ⟨a, hspells, hfits, hsats⟩ := decimalBchToSats_eq_ok.mp hv
    obtain ⟨hlt, hvalue⟩ := toSats_sound (Spells.digits hspells) (h.cast hspells hfits) hsats
    exact ⟨hlt, _, _, _, hspells, hvalue⟩
  · refine decimalBchToSats_eq_ok.mpr ⟨⟨whole, fraction, exponent⟩, hspells, hv.fits, ?_⟩
    refine toSats_complete (Spells.digits hspells) (fun hne => ?_) hv
    obtain ⟨hshort, hlong⟩ := h _ _ _ hspells hv.fits hne
    have hexponent : exponent < 2 ^ 31 - 8 := by
      by_contra hge
      exact hlong (not_lt.mp hge) hv.digits (hv.wholeSats hne)
    exact ⟨(fits_add_iff hv.fits).mpr hexponent,
      hshort hexponent (hv.number_lt (Spells.digits hspells))⟩
  · obtain ⟨hspells, hfits⟩ := parse_eq_ok.mp ha
    exact h.cast hspells hfits hcasts

/-- A fraction that is a few digits below the range of an `i32` is short enough for every
exponent. -/
lemma short_of_length (h : ∀ whole fraction exponent,
    Spells (Text.trim text) whole fraction exponent → fraction.length < 2 ^ 31 - 38) :
    Short text := by
  intro whole fraction exponent hspells _ _
  have hlength := h whole fraction exponent hspells
  refine ⟨fun _ _ => by omega, fun hexponent _ hwhole => ?_⟩
  have hpower := abs_le.mp hwhole.1
  norm_num at hexponent hlength
  omega

/-- An amount is read exactly where its fraction is short enough for its exponent, and two texts of
which that holds are read alike where they spell one value. -/
theorem readsExactly_iff (text : List Char) : (ReadsExactly text ↔ Short text) ∧
    ∀ text' v v', Short text → Short text' → decimalBchToSats text = .ok v →
      decimalBchToSats text' = .ok v' →
      ∀ whole fraction exponent whole' fraction' exponent',
        Spells (Text.trim text) whole fraction exponent →
        Spells (Text.trim text') whole' fraction' exponent' →
        value whole fraction exponent = value whole' fraction' exponent' → v = v' := by
  refine ⟨⟨fun h => ?_, Short.readsExactly⟩, ?_⟩
  · intro whole fraction exponent hspells hfits hne
    have hparse : Amount.parse (Text.trim text) = .ok ⟨whole, fraction, exponent⟩ :=
      parse_eq_ok.mpr ⟨hspells, hfits⟩
    constructor
    · intro hexponent hlt
      have hcasts : Amount.Casts ⟨whole, fraction, exponent⟩ :=
        ⟨hne, (number_significant _).trans_lt hlt, (fits_add_iff hfits).mpr hexponent⟩
      have hkept := h.unwrapped _ hparse hcasts
      rwa [asI32_eq_self] at hkept
    · -- the sum of the eight digits and the exponent is refused
      intro hexponent hcount hwhole
      obtain ⟨hpower, v, hlt, hvalue⟩ := wholeSats_iff.mp hwhole
      have hv : Representable whole fraction exponent v :=
        ⟨hvalue.trans (value_sats ⟨whole, fraction, exponent⟩).symm, hlt, hcount, hfits,
          fun _ => hpower⟩
      obtain ⟨a, hspells', -, hsats⟩ :=
        decimalBchToSats_eq_ok.mp (h.complete _ _ _ v hspells hv)
      obtain ⟨rfl, rfl, rfl⟩ := hspells.unique hspells'
      obtain ⟨hnil, -⟩ | ⟨-, -, _, hscale, -⟩ := (toSats_eq_ok (Spells.digits hspells')).mp hsats
      · exact hne hnil
      · exact ((fits_add_iff hfits).mp (scale_eq_ok.mp hscale).1).not_ge hexponent
  · intro text' v v' h h' hv hv' _ _ _ _ _ _ hspells hspells' hvalue
    obtain ⟨-, _, _, _, hread, hsats⟩ := h.readsExactly.sound v hv
    obtain ⟨-, _, _, _, hread', hsats'⟩ := h'.readsExactly.sound v' hv'
    obtain ⟨rfl, rfl, rfl⟩ := hspells.unique hread
    obtain ⟨rfl, rfl, rfl⟩ := hspells'.unique hread'
    rw [hvalue, ← hsats', Nat.cast_inj] at hsats
    exact hsats

/-- A whole number of coins that a node gives as a number is read. -/
theorem bchValueToSats_unsigned {n : UInt64} (h : n.toNat * 10 ^ 8 < 2 ^ 64) :
    bchValueToSats (.unsigned n) = .ok (n.toNat * 10 ^ 8) := by
  have hdigits : Digits (Nat.toDigits 10 n.toNat) := fun c hc =>
    Nat.isDigit_of_mem_toDigits (by decide) (by decide) hc
  have hspace : ∀ c ∈ Nat.toDigits 10 n.toNat, Text.isWhitespace c = false := by
    intro c hc
    have hrange := digit_range (hdigits c hc)
    simp only [Text.isWhitespace, Bool.or_eq_false_iff, Bool.and_eq_false_iff,
      decide_eq_false_iff_not, beq_eq_false_iff_ne]
    omega
  have hspells : Spells (Text.trim (Nat.toDigits 10 n.toNat)) (Nat.toDigits 10 n.toNat) [] 0 := by
    rw [Text.trim_eq_self (fun c hc => hspace c (List.mem_of_head? hc))
      fun c hc => hspace c (List.mem_of_getLast? hc)]
    exact ⟨_, [], (List.append_nil _).symm,
      ⟨.inl ⟨rfl, rfl⟩, hdigits, by rintro _ ⟨⟩, fun hnil => Nat.toDigits_ne_nil hnil.1⟩, .absent⟩
  have hshort : Short (Nat.toDigits 10 n.toNat) := short_of_length fun _ _ _ hspells' => by
    obtain ⟨-, rfl, -⟩ := hspells.unique hspells'
    exact Nat.zero_lt_of_lt (by decide : 0 < 2 ^ 31 - 38)
  refine hshort.readsExactly.complete _ _ _ _ hspells ⟨?_, h, ?_, by decide, fun _ => by norm_num⟩
  · rw [value, number, Nat.ofDigitChars_ten_toDigits]
    norm_num
  · have hlength : (Nat.toDigits 10 n.toNat).length ≤ 38 :=
      (Nat.length_toDigits_le_iff (by decide) (by decide)).mpr (by omega)
    rw [List.append_nil]
    exact (List.dropWhile_suffix _).length_le.trans hlength

end Exact

/-! ## A long fraction -/

/-- A one behind the point and `n` zeros. -/
def longFraction (n : ℕ) : List Char := '0' :: '.' :: (List.replicate n '0' ++ ['1'])

lemma spells_longFraction (n : ℕ) :
    Spells (Text.trim (longFraction n)) ['0'] (List.replicate n '0' ++ ['1']) 0 := by
  have hzeros : Digits (List.replicate n '0' ++ ['1']) := by
    intro c hc
    obtain hc | hc := List.mem_append.mp hc
    · obtain ⟨-, rfl⟩ := List.mem_replicate.mp hc
      rfl
    · obtain rfl := List.mem_singleton.mp hc
      rfl
  have htrim : Text.trim (longFraction n) = longFraction n := by
    apply Text.trim_eq_self
    · rintro _ ⟨⟩
      decide
    · intro c hc
      rw [longFraction, ← List.cons_append, ← List.cons_append, List.getLast?_concat] at hc
      cases hc
      decide
  rw [htrim]
  refine ⟨longFraction n, [], (List.append_nil _).symm, ⟨.inr rfl, ?_, hzeros, ?_⟩, .absent⟩
  · exact digits_iff_all.mpr rfl
  · rintro ⟨hnil, -⟩
    cases hnil

lemma significant_longFraction (n : ℕ) :
    significant (['0'] ++ (List.replicate n '0' ++ ['1'])) = ['1'] := by
  have hzeros : ∀ c ∈ ['0'] ++ List.replicate n '0', (c == '0') = true := by
    intro c hc
    obtain hc | hc := List.mem_append.mp hc
    · obtain rfl := List.mem_singleton.mp hc
      rfl
    · obtain ⟨-, rfl⟩ := List.mem_replicate.mp hc
      rfl
  rw [significant, ← List.append_assoc, List.dropWhile_append_of_pos hzeros]
  rfl

/-- Behind 2³² + 7 zeros a one is read as a satoshi: the length of the fraction wraps to eight. -/
theorem readsExactly_fails : decimalBchToSats (longFraction (2 ^ 32 + 7)) = .ok 1 ∧
    value ['0'] (List.replicate (2 ^ 32 + 7) '0' ++ ['1']) 0 * 10 ^ 8 < 1 ∧
    ¬ ReadsExactly (longFraction (2 ^ 32 + 7)) := by
  have hspells := spells_longFraction (2 ^ 32 + 7)
  generalize hn : 2 ^ 32 + 7 = n at hspells ⊢
  have hdigits := Spells.digits hspells
  have hnumber : number (['0'] ++ (List.replicate n '0' ++ ['1'])) = 1 := by
    rw [← number_significant, significant_longFraction]
    rfl
  have hlength : (List.replicate n '0' ++ ['1']).length = n + 1 := by
    rw [List.length_append, List.length_replicate, List.length_singleton]
  have hwrapped : Amount.asI32 (n + 1) = 8 := by
    rw [← hn]
    decide +kernel
  have hfits : Fits 32 0 := by decide
  have hroom : Fits 32 (8 + 0) := by decide
  have hread : decimalBchToSats (longFraction n) = .ok 1 := by
    refine decimalBchToSats_eq_ok.mpr ⟨⟨_, _, _⟩, hspells, hfits, ?_⟩
    refine (toSats_eq_ok hdigits).mpr (.inr ⟨?_, ?_, 0, scale_eq_ok.mpr ⟨hroom, hfits, ?_⟩,
      shift_eq_ok.mpr ⟨by norm_num, fun _ => by norm_num, ?_⟩, by norm_num⟩)
    · rw [Amount.digits, significant_longFraction]
      decide
    · rw [hnumber]
      norm_num
    · rw [hlength, hwrapped]
      rfl
    · rw [hnumber]
      norm_num
  have hvalue := value_sats ⟨['0'], List.replicate n '0' ++ ['1'], 0⟩
  have hsmall : value ['0'] (List.replicate n '0' ++ ['1']) 0 * 10 ^ 8 < 1 := by
    rw [hvalue, hnumber, hlength, Nat.cast_one, one_mul]
    have hneg : 8 + 0 - ((n + 1 : ℕ) : ℤ) < 0 := by omega
    exact zpow_lt_one_of_neg₀ (by norm_num) hneg
  refine ⟨hread, hsmall, fun h => ?_⟩
  obtain ⟨-, _, _, _, hspells', hsats⟩ := h.sound 1 hread
  obtain ⟨rfl, rfl, rfl⟩ := hspells.unique hspells'
  rw [← hsats, Nat.cast_one] at hsmall
  exact lt_irrefl 1 hsmall

end Pickaxe.Fee
