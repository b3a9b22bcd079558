/-
# Texts

The few operations on texts a configuration needs: white space and control characters as
Unicode classifies them, trimming, and hexadecimal digits.  A text is a list of characters.
-/
import Pickaxe.Lib.Bytes
import Mathlib.Data.List.TakeWhile

namespace Pickaxe.Lib.Text

/-- The Unicode property `White_Space`. -/
def isWhitespace (c : Char) : Bool :=
  let n := c.toNat
  (9 ≤ n && n ≤ 13) || n == 0x20 || n == 0x85 || n == 0xa0 || n == 0x1680 ||
    (0x2000 ≤ n && n ≤ 0x200a) || n == 0x2028 || n == 0x2029 || n == 0x202f || n == 0x205f ||
    n == 0x3000

/-- The Unicode category `Cc`. -/
def isControl (c : Char) : Bool :=
  let n := c.toNat
  n ≤ 0x1f || (0x7f ≤ n && n ≤ 0x9f)

/-- A text without the white space at its two ends. -/
def trim (s : List Char) : List Char :=
  ((s.dropWhile isWhitespace).reverse.dropWhile isWhitespace).reverse

/-- The value of a hexadecimal digit, of either case. -/
def hexDigit? (c : Char) : Option ℕ :=
  if '0' ≤ c ∧ c ≤ '9' then some (c.toNat - 48)
  else if 'a' ≤ c ∧ c ≤ 'f' then some (c.toNat - 87)
  else if 'A' ≤ c ∧ c ≤ 'F' then some (c.toNat - 55)
  else none

/-- Bytes from hexadecimal digits, two for each byte. -/
def hexDecode : List Char → Option Bytes
  | [] => some []
  | [_] => none
  | a :: b :: rest => do
    let high ← hexDigit? a
    let low ← hexDigit? b
    let bytes ← hexDecode rest
    return UInt8.ofNat (16 * high + low) :: bytes

/-- What is wrong with digits that do not decode. -/
def hexFault (s : List Char) : String :=
  if s.length % 2 = 1 then "Odd number of digits"
  else
    let position := s.findIdx fun c => (hexDigit? c).isNone
    let digit := s.getD position ' '
    s!"Invalid character '{digit}' at position {position}"

/-- A lower-case hexadecimal digit. -/
def hexChar (n : ℕ) : Char := if n < 10 then Char.ofNat (48 + n) else Char.ofNat (87 + n)

/-- Lower-case hexadecimal digits, two for each byte. -/
def hexEncode (b : Bytes) : List Char :=
  b.flatMap fun x => [hexChar (x.toNat / 16), hexChar (x.toNat % 16)]

/-! ## Hexadecimal digits -/

/-- A lower-case hexadecimal digit, as a character. -/
def isHexChar (c : Char) : Bool := ('0' ≤ c && c ≤ '9') || ('a' ≤ c && c ≤ 'f')

lemma hexDigit?_hexChar {n : ℕ} (h : n < 16) : hexDigit? (hexChar n) = some n := by
  revert n
  decide

lemma isHexChar_hexChar {n : ℕ} (h : n < 16) : isHexChar (hexChar n) = true := by
  revert n
  decide

@[simp] lemma hexDecode_hexEncode (b : Bytes) : hexDecode (hexEncode b) = some b := by
  induction b with
  | nil => rfl
  | cons x b ih =>
    have hx : x.toNat < 256 := x.toNat_lt
    have hhigh := hexDigit?_hexChar (n := x.toNat / 16) (by omega)
    have hlow := hexDigit?_hexChar (n := x.toNat % 16) (by omega)
    have hbyte : UInt8.ofNat (16 * (x.toNat / 16) + x.toNat % 16) = x := by
      rw [Nat.div_add_mod, UInt8.ofNat_toNat]
    show hexDecode (hexChar (x.toNat / 16) :: hexChar (x.toNat % 16) :: hexEncode b) = _
    simp only [hexDecode, hhigh, hlow, ih, hbyte, Option.bind_eq_bind, Option.bind_some]
    rfl

@[simp] lemma length_hexEncode (b : Bytes) : (hexEncode b).length = 2 * b.length := by
  simp [hexEncode, List.length_flatMap, mul_comm]

lemma isHexChar_hexEncode {b : Bytes} {c : Char} (h : c ∈ hexEncode b) : isHexChar c = true := by
  simp only [hexEncode, List.mem_flatMap, List.mem_cons, List.not_mem_nil, or_false] at h
  obtain ⟨x, -, rfl | rfl⟩ := h
  · exact isHexChar_hexChar (by have := x.toNat_lt; omega)
  · exact isHexChar_hexChar (by omega)

/-! ## Trimming -/

lemma dropWhile_eq_self {s : List Char} (h : ∀ c, s.head? = some c → isWhitespace c = false) :
    s.dropWhile isWhitespace = s := by
  cases s with
  | nil => rfl
  | cons c rest => exact List.dropWhile_cons_of_neg (by simp [h c rfl])

lemma trim_eq_self {s : List Char} (hhead : ∀ c, s.head? = some c → isWhitespace c = false)
    (hlast : ∀ c, s.getLast? = some c → isWhitespace c = false) : trim s = s := by
  rw [trim, dropWhile_eq_self hhead, dropWhile_eq_self (s := s.reverse) (by simpa using hlast),
    List.reverse_reverse]

lemma head?_dropWhile {s : List Char} {c : Char} (h : (s.dropWhile isWhitespace).head? = some c) :
    isWhitespace c = false := by
  have hnot := List.head?_dropWhile_not isWhitespace s
  rw [h] at hnot
  exact hnot

lemma head?_trim {s : List Char} {c : Char} (h : (trim s).head? = some c) :
    isWhitespace c = false := by
  -- what `trim` leaves is the start of what the first pass leaves
  obtain ⟨rest, hrest⟩ := List.dropWhile_suffix (l := (s.dropWhile isWhitespace).reverse)
    isWhitespace
  have hsplit : s.dropWhile isWhitespace = trim s ++ rest.reverse := by
    rw [trim, ← List.reverse_append, hrest, List.reverse_reverse]
  apply head?_dropWhile (s := s)
  rw [hsplit, List.head?_append, h]
  rfl

lemma getLast?_trim {s : List Char} {c : Char} (h : (trim s).getLast? = some c) :
    isWhitespace c = false := by
  rw [trim, List.getLast?_reverse] at h
  exact head?_dropWhile h

/-- A text that does not begin with white space loses only what ends it. -/
lemma trim_isPrefix {s : List Char} (h : ∀ c, s.head? = some c → isWhitespace c = false) :
    trim s <+: s := by
  rw [trim, dropWhile_eq_self h, ← List.reverse_suffix, List.reverse_reverse]
  exact List.dropWhile_suffix _

lemma trim_append_singleton {s : List Char} {c : Char} (hs : trim s = s)
    (hc : isWhitespace c = true) : trim (s ++ [c]) = s := by
  cases s with
  | nil => simp [trim, hc]
  | cons a rest =>
    have hhead : ∀ b, (a :: rest).head? = some b → isWhitespace b = false := fun b hb =>
      head?_trim ((congrArg List.head? hs).trans hb)
    have hhead' : ∀ b, (a :: rest ++ [c]).head? = some b → isWhitespace b = false := hhead
    rw [trim, dropWhile_eq_self hhead', List.reverse_append, List.reverse_singleton,
      List.singleton_append, List.dropWhile_cons_of_pos hc]
    rw [trim, dropWhile_eq_self hhead] at hs
    exact hs

/-- White space is all that `trim` removes. -/
lemma mem_trim {s : List Char} {c : Char} (h : c ∈ s) (hc : isWhitespace c = false) : c ∈ trim s := by
  have hdrop : ∀ l : List Char, c ∈ l → c ∈ l.dropWhile isWhitespace := by
    intro l hl
    rw [← List.takeWhile_append_dropWhile (p := isWhitespace) (l := l), List.mem_append] at hl
    rcases hl with hl | hl
    · rw [List.mem_takeWhile_imp hl] at hc
      cases hc
    · exact hl
  rw [trim, List.mem_reverse]
  exact hdrop _ (List.mem_reverse.mpr (hdrop _ h))

lemma trim_trim (s : List Char) : trim (trim s) = trim s :=
  trim_eq_self (fun _ => head?_trim) (fun _ => getLast?_trim)

/-! ## ASCII letters -/

/-- A character with an ASCII capital letter made small. -/
def asciiLower (c : Char) : Char := if 'A' ≤ c ∧ c ≤ 'Z' then Char.ofNat (c.toNat + 32) else c

/-- A text with its ASCII capital letters made small. -/
def toAsciiLower (s : List Char) : List Char := s.map asciiLower

/-- Whether two texts differ in the case of ASCII letters only. -/
def eqIgnoreCase (s t : List Char) : Bool := toAsciiLower s == toAsciiLower t

/-- An ASCII hexadecimal digit, of either case. -/
def isHexDigit (c : Char) : Bool := (hexDigit? c).isSome

lemma not_isWhitespace_of_isHexDigit {c : Char} (h : isHexDigit c = true) :
    isWhitespace c = false := by
  have hrange : (48 ≤ c.toNat ∧ c.toNat ≤ 57) ∨ (97 ≤ c.toNat ∧ c.toNat ≤ 102) ∨
      (65 ≤ c.toNat ∧ c.toNat ≤ 70) := by
    unfold isHexDigit hexDigit? at h
    split_ifs at h with h1 h2 h3
    · exact .inl h1
    · exact .inr (.inl h2)
    · exact .inr (.inr h3)
    · cases h
  simp only [isWhitespace, Bool.or_eq_false_iff, Bool.and_eq_false_iff, decide_eq_false_iff_not,
    beq_eq_false_iff_ne]
  omega

lemma eqIgnoreCase_iff {s t : List Char} :
    eqIgnoreCase s t = true ↔ toAsciiLower s = toAsciiLower t := beq_iff_eq

@[simp] lemma eqIgnoreCase_refl (s : List Char) : eqIgnoreCase s s = true := beq_self_eq_true _

lemma eqIgnoreCase_symm {s t : List Char} (h : eqIgnoreCase s t = true) :
    eqIgnoreCase t s = true := eqIgnoreCase_iff.mpr (eqIgnoreCase_iff.mp h).symm

lemma eqIgnoreCase_trans {s t u : List Char} (h : eqIgnoreCase s t = true)
    (h' : eqIgnoreCase t u = true) : eqIgnoreCase s u = true :=
  eqIgnoreCase_iff.mpr ((eqIgnoreCase_iff.mp h).trans (eqIgnoreCase_iff.mp h'))

/-! ## Digits and the texts they stand in -/

/-- What decodes has digits only, two for each byte. -/
lemma isHexDigit_of_hexDecode {s : List Char} {b : Bytes} (h : hexDecode s = some b) :
    s.all isHexDigit = true ∧ s.length = 2 * b.length := by
  induction s using hexDecode.induct generalizing b with
  | case1 =>
    obtain rfl := Option.some.inj h
    exact ⟨rfl, rfl⟩
  | case2 => cases h
  | case3 c c' rest ih =>
    simp only [hexDecode, Option.bind_eq_bind, Option.bind_eq_some_iff] at h
    obtain ⟨high, hhigh, low, hlow, bytes, hbytes, hb⟩ := h
    obtain rfl := Option.some.inj hb
    obtain ⟨hall, hlen⟩ := ih hbytes
    refine ⟨?_, ?_⟩
    · rw [List.all_cons, List.all_cons, hall, isHexDigit, isHexDigit, hhigh, hlow]
      rfl
    · rw [List.length_cons, List.length_cons, List.length_cons, hlen]
      omega

/-- Digits have no white space around them. -/
lemma trim_of_hexDecode {s : List Char} {b : Bytes} (h : hexDecode s = some b) : trim s = s := by
  obtain ⟨hall, -⟩ := isHexDigit_of_hexDecode h
  have hspace : ∀ c ∈ s, isWhitespace c = false := fun c hc =>
    not_isWhitespace_of_isHexDigit (List.all_eq_true.mp hall c hc)
  exact trim_eq_self (fun c hc => hspace c (List.mem_of_head? hc))
    fun c hc => hspace c (List.mem_of_getLast? hc)

@[simp] lemma trim_hexEncode (b : Bytes) : trim (hexEncode b) = hexEncode b :=
  trim_of_hexDecode (hexDecode_hexEncode b)

@[simp] lemma all_isHexDigit_hexEncode (b : Bytes) : (hexEncode b).all isHexDigit = true :=
  (isHexDigit_of_hexDecode (hexDecode_hexEncode b)).1

lemma hexEncode_append (a b : Bytes) : hexEncode (a ++ b) = hexEncode a ++ hexEncode b :=
  List.flatMap_append

lemma asciiLower_hexChar {n : ℕ} (h : n < 16) : asciiLower (hexChar n) = hexChar n := by
  revert n
  decide

/-- Written digits are small. -/
@[simp] lemma toAsciiLower_hexEncode (b : Bytes) : toAsciiLower (hexEncode b) = hexEncode b := by
  induction b with
  | nil => rfl
  | cons x b ih =>
    have hx : x.toNat < 256 := x.toNat_lt
    show asciiLower (hexChar (x.toNat / 16)) :: asciiLower (hexChar (x.toNat % 16)) ::
      toAsciiLower (hexEncode b) = _
    rw [asciiLower_hexChar (by omega), asciiLower_hexChar (by omega), ih]
    rfl

end Pickaxe.Lib.Text
