/-
# Scripts as bytes

How the machine reads a byte string as a script.  A push carries its length, in one or two bytes
when it is long, and must be written as short as possible; every other instruction is one byte.
-/
import Pickaxe.Lib.Script

namespace Pickaxe.Lib.Script

/-- The instruction of a byte that pushes nothing. -/
def opcode (x : UInt8) : Option Instr :=
  match x with
  | 0x63 => some .if
  | 0x67 => some .else
  | 0x68 => some .endif
  | 0x69 => some (.op .verify)
  | 0x6d => some (.op .drop2)
  | 0x75 => some (.op .drop)
  | 0x76 => some (.op .dup)
  | 0x77 => some (.op .nip)
  | 0x78 => some (.op .over)
  | 0x79 => some (.op .pick)
  | 0x7a => some (.op .roll)
  | 0x7b => some (.op .rot)
  | 0x7c => some (.op .swap)
  | 0x7e => some (.op .cat)
  | 0x7f => some (.op .split)
  | 0x80 => some (.op .num2bin)
  | 0x81 => some (.op .bin2num)
  | 0x82 => some (.op .size)
  | 0x87 => some (.op .equal)
  | 0x88 => some (.op .equalVerify)
  | 0x8b => some (.op .add1)
  | 0x94 => some (.op .sub)
  | 0x9b => some (.op .boolOr)
  | 0x9c => some (.op .numEqual)
  | 0x9d => some (.op .numEqualVerify)
  | 0x9f => some (.op .lessThan)
  | 0xa0 => some (.op .greaterThan)
  | 0xa2 => some (.op .greaterThanOrEqual)
  | 0xaa => some (.op .hash256)
  | 0xad => some (.op .checkSigVerify)
  | 0xb1 => some (.op .checkLockTimeVerify)
  | 0xc0 => some (.op .inputIndex)
  | 0xc3 => some (.op .txInputCount)
  | 0xc4 => some (.op .txOutputCount)
  | 0xc5 => some (.op .txLocktime)
  | 0xc6 => some (.op .utxoValue)
  | 0xc7 => some (.op .utxoBytecode)
  | 0xcc => some (.op .outputValue)
  | 0xcd => some (.op .outputBytecode)
  | 0xce => some (.op .utxoTokenCategory)
  | 0xcf => some (.op .utxoTokenCommitment)
  | 0xd0 => some (.op .utxoTokenAmount)
  | 0xd1 => some (.op .outputTokenCategory)
  | 0xd2 => some (.op .outputTokenCommitment)
  | 0xd3 => some (.op .outputTokenAmount)
  | _ => none

/-- Whether data must be pushed by an opcode of its own. -/
def isSmall : Bytes → Bool
  | [] => true
  | [x] => decide (1 ≤ x.toNat ∧ x.toNat ≤ 16 ∨ x.toNat = 0x81)
  | _ => false

/-- The first `n` bytes, pushed, if there are as many and the push may be this long. -/
def pushOf (n : ℕ) (allowed : Bytes → Bool) (b : Bytes) : Option (Instr × Bytes) :=
  if n ≤ b.length ∧ allowed (b.take n) then some (.op (.push (b.take n)), b.drop n) else none

/-- The first instruction. -/
def parseOne : Bytes → Option (Instr × Bytes)
  | [] => none
  | x :: b =>
    if x.toNat = 0 then some (.op (.push []), b)
    else if x.toNat ≤ 75 then pushOf x.toNat (fun d => !isSmall d) b
    else if x.toNat = 0x4c then match b with
      | [] => none
      | n :: b => pushOf n.toNat (fun d => decide (75 < d.length)) b
    else if x.toNat = 0x4d then match b with
      | low :: high :: b => pushOf (fromLe [low, high]) (fun d => decide (255 < d.length)) b
      | _ => none
    else if x.toNat = 0x4f then some (.op (.push [0x81]), b)
    else if 0x51 ≤ x.toNat ∧ x.toNat ≤ 0x60 then some (.op (.push [x - 0x50]), b)
    else (opcode x).map fun i => (i, b)

/-- The instructions of some bytes, `fuel` at most. -/
def parseFuel : ℕ → Bytes → Option (List Instr)
  | _, [] => some []
  | 0, _ :: _ => none
  | fuel + 1, x :: b => (parseOne (x :: b)).bind fun p => (parseFuel fuel p.2).map (p.1 :: ·)

/-- The script some bytes are. -/
def parse (b : Bytes) : Option (List Instr) := parseFuel b.length b

/-! ## Reading a script piece by piece -/

lemma pushOf_length {n : ℕ} {allowed : Bytes → Bool} {b : Bytes} {p : Instr × Bytes}
    (h : pushOf n allowed b = some p) : p.2.length ≤ b.length := by
  unfold pushOf at h
  split_ifs at h
  cases h
  simp

/-- An instruction takes at least a byte. -/
lemma parseOne_length {x : UInt8} {b : Bytes} {p : Instr × Bytes}
    (h : parseOne (x :: b) = some p) : p.2.length ≤ b.length := by
  unfold parseOne at h
  dsimp only at h
  split_ifs at h
  · cases h
    exact le_rfl
  · exact pushOf_length h
  · cases b with
    | nil => cases h
    | cons n b => exact (pushOf_length h).trans (Nat.le_succ _)
  · match b, h with
    | low :: high :: b, h => exact (pushOf_length h).trans (by simp; omega)
  · cases h
    exact le_rfl
  · cases h
    exact le_rfl
  · obtain ⟨i, -, rfl⟩ := Option.map_eq_some_iff.mp h
    exact le_rfl

/-- More fuel than bytes changes nothing. -/
lemma parseFuel_eq {fuel : ℕ} {b : Bytes} (h : b.length ≤ fuel) : parseFuel fuel b = parse b := by
  induction fuel using Nat.strong_induction_on generalizing b with
  | _ fuel ih =>
    match fuel, b, h with
    | _, [], _ => simp [parse, parseFuel]
    | fuel + 1, x :: b, h =>
      rw [List.length_cons] at h
      rw [parse, List.length_cons, parseFuel, parseFuel]
      cases hone : parseOne (x :: b) with
      | none => rfl
      | some p =>
        have hlen := parseOne_length hone
        rw [Option.bind_some, Option.bind_some, ih fuel (by omega) (by omega)]
        by_cases heq : b.length = fuel
        · rw [heq, ih fuel (by omega) (by omega)]
        · rw [ih b.length (by omega) hlen]

lemma parse_cons {x : UInt8} {b : Bytes} {i : Instr} {rest : Bytes}
    (h : parseOne (x :: b) = some (i, rest)) :
    parse (x :: b) = (parse rest).map (i :: ·) := by
  rw [parse, List.length_cons, parseFuel, h, Option.bind_some, parseFuel_eq (parseOne_length h)]

/-- Some bytes are the start of a script, whatever follows. -/
def Parses (b : Bytes) (code : List Instr) : Prop :=
  ∀ rest, parse (b ++ rest) = (parse rest).map (code ++ ·)

lemma Parses.parse {b : Bytes} {code : List Instr} (h : Parses b code) :
    Script.parse b = some code := by
  have hnil := h []
  rw [List.append_nil] at hnil
  rw [hnil]
  simp [Script.parse, parseFuel]

lemma Parses.append {b c : Bytes} {code code' : List Instr} (h : Parses b code)
    (h' : Parses c code') : Parses (b ++ c) (code ++ code') := by
  intro rest
  rw [List.append_assoc, h, h', Option.map_map]
  congr 1
  funext l
  simp

lemma parses_nil : Parses [] [] := by
  intro rest
  simp

/-- Pieces of operations, one after the other. -/
lemma Parses.flatten {pieces : List Bytes} {ops : List (List Op)}
    (h : List.Forall₂ (fun b ops => Parses b (ops.map .op)) pieces ops) :
    Parses pieces.flatten (ops.flatten.map .op) := by
  induction h with
  | nil => exact parses_nil
  | cons hb _ ih =>
    rw [List.flatten_cons, List.flatten_cons, List.map_append]
    exact hb.append ih

/-- One instruction. -/
lemma parses_one {x : UInt8} {b : Bytes} {i : Instr}
    (h : ∀ rest, parseOne (x :: (b ++ rest)) = some (i, rest)) : Parses (x :: b) [i] := by
  intro rest
  rw [List.cons_append, parse_cons (h rest)]
  rfl

/-- Bytes that push small numbers or nothing. -/
def plain (x : UInt8) : Option Instr :=
  if x.toNat = 0 then some (.op (.push []))
  else if 0x51 ≤ x.toNat ∧ x.toNat ≤ 0x60 then some (.op (.push [x - 0x50]))
  else if x.toNat ≤ 0x4f then none
  else opcode x

lemma parseOne_plain {x : UInt8} {i : Instr} (h : plain x = some i) (rest : Bytes) :
    parseOne (x :: rest) = some (i, rest) := by
  rw [plain] at h
  unfold parseOne
  dsimp only
  by_cases hzero : x.toNat = 0
  · rw [if_pos hzero] at h ⊢
    cases h
    rfl
  · rw [if_neg hzero] at h ⊢
    by_cases hsmall : 0x51 ≤ x.toNat ∧ x.toNat ≤ 0x60
    · rw [if_pos hsmall] at h
      cases h
      rw [if_neg (by omega), if_neg (by omega), if_neg (by omega), if_neg (by omega), if_pos hsmall]
    · rw [if_neg hsmall] at h
      split_ifs at h with hle
      rw [if_neg (by omega), if_neg (by omega), if_neg (by omega), if_neg (by omega),
        if_neg hsmall, h]
      rfl

/-- A run of such bytes. -/
lemma parses_plain {b : Bytes} {code : List Instr} (h : b.mapM plain = some code) :
    Parses b code := by
  induction b generalizing code with
  | nil =>
    cases h
    exact parses_nil
  | cons x b ih =>
    rw [List.mapM_cons] at h
    obtain ⟨i, hi, h⟩ := Option.bind_eq_some_iff.mp h
    obtain ⟨code, hcode, h⟩ := Option.bind_eq_some_iff.mp h
    cases h
    have hone : Parses [x] [i] := parses_one (parseOne_plain hi)
    exact hone.append (ih hcode)

end Pickaxe.Lib.Script
