/-
# JSON values

What a program reads of the answers of a server: members of objects, numbers that fit in 64 bits,
texts and arrays, and numbers written as texts.
-/
import Mathlib.Algebra.Group.Nat.Defs
import Mathlib.Data.List.Basic

namespace Pickaxe.Lib

/-- A JSON value.  A number that is not a `u64` is kept as its text. -/
inductive Json where
  | null
  | bool (b : Bool)
  | unsigned (n : UInt64)
  | number (text : String)
  | string (text : List Char)
  | array (items : List Json)
  | object (members : List (String × Json))

namespace Json

/-- `Value::get` of a name. -/
def get? (key : String) : Json → Option Json
  | object members => (members.find? fun member => member.1 == key).map Prod.snd
  | _ => none

/-- `Value::pointer` of a path of names. -/
def pointer? (json : Json) : List String → Option Json
  | [] => some json
  | key :: path => (json.get? key).bind fun inner => inner.pointer? path

/-- `Value::as_u64`. -/
def asU64 : Json → Option ℕ
  | unsigned n => some n.toNat
  | _ => none

/-- `Value::as_u64` and `u32::try_from`. -/
def asU32 (json : Json) : Option ℕ := json.asU64.filter (· < 2 ^ 32)

/-- `Value::as_str`. -/
def asStr : Json → Option (List Char)
  | string text => some text
  | _ => none

/-- `Value::as_array`. -/
def asArray : Json → Option (List Json)
  | array items => some items
  | _ => none

end Json

/-! ## Numbers as texts -/

/-- A text without a plus sign in front. -/
def dropPlus : List Char → List Char
  | '+' :: rest => rest
  | text => text

/-- `str::parse` to an unsigned number below a bound. -/
def parseUnsigned (bound : ℕ) (text : List Char) : Option ℕ :=
  let digits := dropPlus text
  if digits = [] ∨ digits.all Char.isDigit = false then none
  else
    let n := Nat.ofDigitChars 10 digits 0
    if n < bound then some n else none

lemma lt_of_parseUnsigned {bound n : ℕ} {text : List Char} (h : parseUnsigned bound text = some n) :
    n < bound := by
  simp only [parseUnsigned] at h
  split_ifs at h with hbad hlt
  exact Option.some.inj h ▸ hlt

lemma dropPlus_of_isDigit {text : List Char} (h : ∀ c ∈ text, c.isDigit = true) :
    dropPlus text = text := by
  rw [dropPlus.eq_def]
  split
  · rename_i rest
    cases h '+' List.mem_cons_self
  · rfl

/-- A number is read from its digits. -/
lemma parseUnsigned_toDigits {bound n : ℕ} (h : n < bound) :
    parseUnsigned bound (Nat.toDigits 10 n) = some n := by
  have hdigits : ∀ c ∈ Nat.toDigits 10 n, c.isDigit = true := fun c hc =>
    Nat.isDigit_of_mem_toDigits (by decide) (by decide) hc
  have hne : ¬(Nat.toDigits 10 n = [] ∨ (Nat.toDigits 10 n).all Char.isDigit = false) := by
    rintro (hnil | hall)
    · exact Nat.toDigits_ne_nil hnil
    · rw [List.all_eq_true.mpr hdigits] at hall
      cases hall
  rw [parseUnsigned, dropPlus_of_isDigit hdigits]
  simp only [if_neg hne, Nat.ofDigitChars_ten_toDigits, if_pos h]

end Pickaxe.Lib
