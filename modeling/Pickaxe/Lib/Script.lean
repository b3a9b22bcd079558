/-
# A stack machine for spending conditions

A script decides whether a transaction may spend an output.  It is a byte string of
pushes and operations that work on a stack of byte strings; some operations read the spending
transaction.  This file has the operations that covenants of tokens use, how bytes are read as a
script, and a rule for each operation that says when a script that starts with it accepts.

The rules are equivalences, so that a script's spending condition is found by rewriting from its
first instruction to its last.
-/
import Pickaxe.Lib.ScriptNum

namespace Pickaxe.Lib.Script

/-! ## The spending transaction -/

/-- The tokens on an output: a category, perhaps an NFT (its capability, 0 to 2, and its
commitment), and an amount of fungible tokens. -/
structure Token where
  category : ByteVec 32
  nft : Option (UInt8 × Bytes)
  amount : ℕ
deriving DecidableEq

/-- An output. -/
structure TxOut where
  value : ℕ
  bytecode : Bytes
  token : Option Token
deriving DecidableEq

namespace TxOut

/-- The category as a script sees it: followed by the capability of a mutable or minting NFT. -/
def tokenCategory (o : TxOut) : Bytes :=
  match o.token with
  | none => []
  | some t => t.category.bytes ++ match t.nft with
    | some (capability, _) => if capability = 0 then [] else [capability]
    | none => []

lemma tokenCategory_eq_nil {o : TxOut} : o.tokenCategory = [] ↔ o.token = none := by
  rcases o with ⟨value, bytecode, _ | token⟩
  · exact iff_of_true rfl rfl
  · refine iff_of_false (fun h => ?_) (by simp)
    have hlen := congrArg List.length (List.append_eq_nil_iff.mp h).1
    simp at hlen

/-- The commitment of the NFT. -/
def tokenCommitment (o : TxOut) : Bytes := ((o.token.bind Token.nft).map Prod.snd).getD []

/-- The amount of fungible tokens. -/
def tokenAmount (o : TxOut) : ℕ := (o.token.map Token.amount).getD 0

end TxOut

/-- An input: the output it spends and its sequence number. -/
structure TxIn where
  spent : TxOut
  sequence : ℕ
deriving DecidableEq

/-- A transaction that spends, seen from one of its inputs.  What a signature covers is left to
`checkSig`. -/
structure Spend where
  inputs : List TxIn
  outputs : List TxOut
  locktime : ℕ
  /-- The input whose script runs. -/
  index : ℕ
  hash256 : Bytes → Bytes
  /-- Whether a signature by a key is valid. -/
  checkSig : Bytes → Bytes → Bool

/-! ## Operations -/

/-- The operations that only work on the stack. -/
inductive Op where
  | push (data : Bytes)
  | verify | drop2 | drop | dup | nip | over | pick | roll | rot | swap
  | cat | split | num2bin | bin2num | size | equal | equalVerify
  | add1 | sub | boolOr | numEqual | numEqualVerify | lessThan | greaterThan | greaterThanOrEqual
  | hash256 | checkSigVerify | checkLockTimeVerify
  | inputIndex | txInputCount | txOutputCount | txLocktime
  | utxoValue | utxoBytecode | utxoTokenCategory | utxoTokenCommitment | utxoTokenAmount
  | outputValue | outputBytecode | outputTokenCategory | outputTokenCommitment | outputTokenAmount
deriving DecidableEq

/-- An instruction: an operation or a branch. -/
inductive Instr where
  | op (o : Op)
  | if
  | else
  | endif
deriving DecidableEq

/-- A number that indexes. -/
def index? (b : Bytes) : Option ℕ := (toNum? b).bind fun n => if 0 ≤ n then some n.toNat else none

/-- An operation on two numbers. -/
def binary (f : ℤ → ℤ → Bytes) (a b : Bytes) (s : List Bytes) : Option (List Bytes) := do
  let a ← toNum? a
  let b ← toNum? b
  return f a b :: s

/-- An operation that reads an output, or the output an input spends. -/
def introspect (l : List TxOut) (f : TxOut → Bytes) (i : Bytes) (s : List Bytes) :
    Option (List Bytes) := do
  let i ← index? i
  let o ← l[i]?
  return f o :: s

variable (spend : Spend)

/-- What an operation does to the stack, whose top comes first. -/
def exec : Op → List Bytes → Option (List Bytes)
  | .push d, s => some (d :: s)
  | .verify, a :: s => if isTrue a then some s else none
  | .drop2, _ :: _ :: s => some s
  | .drop, _ :: s => some s
  | .dup, a :: s => some (a :: a :: s)
  | .nip, a :: _ :: s => some (a :: s)
  | .over, a :: b :: s => some (b :: a :: b :: s)
  | .pick, n :: s => do
    let n ← index? n
    let a ← s[n]?
    return a :: s
  | .roll, n :: s => do
    let n ← index? n
    let a ← s[n]?
    return a :: s.eraseIdx n
  | .rot, a :: b :: c :: s => some (c :: a :: b :: s)
  | .swap, a :: b :: s => some (b :: a :: s)
  | .cat, b :: a :: s => some ((a ++ b) :: s)
  | .split, n :: a :: s => do
    let n ← index? n
    if n ≤ a.length then some (a.drop n :: a.take n :: s) else none
  | .num2bin, n :: a :: s => do
    let n ← index? n
    if width (value a).natAbs ≤ n then some (signed n (value a) :: s) else none
  | .bin2num, a :: s => some (num (value a) :: s)
  | .size, a :: s => some (num a.length :: a :: s)
  | .equal, b :: a :: s => some (ofBool (decide (a = b)) :: s)
  | .equalVerify, b :: a :: s => if a = b then some s else none
  | .add1, a :: s => (toNum? a).map fun a => num (a + 1) :: s
  | .sub, b :: a :: s => binary (fun a b => num (a - b)) a b s
  | .boolOr, b :: a :: s => binary (fun a b => ofBool (decide (a ≠ 0 ∨ b ≠ 0))) a b s
  | .numEqual, b :: a :: s => binary (fun a b => ofBool (decide (a = b))) a b s
  | .numEqualVerify, b :: a :: s => do
    let a ← toNum? a
    let b ← toNum? b
    if a = b then some s else none
  | .lessThan, b :: a :: s => binary (fun a b => ofBool (decide (a < b))) a b s
  | .greaterThan, b :: a :: s => binary (fun a b => ofBool (decide (b < a))) a b s
  | .greaterThanOrEqual, b :: a :: s => binary (fun a b => ofBool (decide (b ≤ a))) a b s
  | .hash256, a :: s => some (spend.hash256 a :: s)
  | .checkSigVerify, key :: sig :: s => if spend.checkSig sig key then some s else none
  | .checkLockTimeVerify, a :: s => do
    let n ← index? a
    let input ← spend.inputs[spend.index]?
    -- heights and times do not compare
    if (n < 500000000 ↔ spend.locktime < 500000000) ∧ n ≤ spend.locktime ∧
      input.sequence ≠ 0xffffffff then some (a :: s) else none
  | .inputIndex, s => some (num spend.index :: s)
  | .txInputCount, s => some (num spend.inputs.length :: s)
  | .txOutputCount, s => some (num spend.outputs.length :: s)
  | .txLocktime, s => some (num spend.locktime :: s)
  | .utxoValue, i :: s => introspect (spend.inputs.map TxIn.spent) (fun o => num o.value) i s
  | .utxoBytecode, i :: s => introspect (spend.inputs.map TxIn.spent) TxOut.bytecode i s
  | .utxoTokenCategory, i :: s => introspect (spend.inputs.map TxIn.spent) TxOut.tokenCategory i s
  | .utxoTokenCommitment, i :: s =>
    introspect (spend.inputs.map TxIn.spent) TxOut.tokenCommitment i s
  | .utxoTokenAmount, i :: s =>
    introspect (spend.inputs.map TxIn.spent) (fun o => num o.tokenAmount) i s
  | .outputValue, i :: s => introspect spend.outputs (fun o => num o.value) i s
  | .outputBytecode, i :: s => introspect spend.outputs TxOut.bytecode i s
  | .outputTokenCategory, i :: s => introspect spend.outputs TxOut.tokenCategory i s
  | .outputTokenCommitment, i :: s => introspect spend.outputs TxOut.tokenCommitment i s
  | .outputTokenAmount, i :: s => introspect spend.outputs (fun o => num o.tokenAmount) i s
  | _, _ => none

/-- The stack and the branches the machine is in: whether each is the one taken. -/
structure State where
  stack : List Bytes
  taken : List Bool
deriving DecidableEq

/-- Every branch the machine is in is taken. -/
def Live (taken : List Bool) : Prop := ∀ t ∈ taken, t = true

instance (taken : List Bool) : Decidable (Live taken) :=
  inferInstanceAs (Decidable (∀ t ∈ taken, t = true))

lemma live_nil : Live [] := by simp [Live]

@[simp] lemma live_cons {t : Bool} {taken : List Bool} :
    Live (t :: taken) ↔ t = true ∧ Live taken := List.forall_mem_cons

/-- One instruction.  In a branch that is not taken only the branches count. -/
def step (s : State) : Instr → Option State
  | .op o =>
    if Live s.taken then (exec spend o s.stack).map fun stack => ⟨stack, s.taken⟩ else some s
  | .if =>
    if Live s.taken then match s.stack with
      | [] => none
      | a :: stack => some ⟨stack, decide (isTrue a) :: s.taken⟩
    else some ⟨s.stack, false :: s.taken⟩
  | .else => match s.taken with
    | [] => none
    | t :: taken => some ⟨s.stack, (!t) :: taken⟩
  | .endif => match s.taken with
    | [] => none
    | _ :: taken => some ⟨s.stack, taken⟩

/-- A script from a state. -/
def run (s : State) : List Instr → Option State
  | [] => some s
  | i :: code => (step spend s i).bind fun s => run s code

/-- A script accepts if it ends outside all branches with one true value on its stack. -/
def Accepts (code : List Instr) (s : State) : Prop :=
  ∃ v, run spend s code = some ⟨[v], []⟩ ∧ isTrue v

/-! ## Rules for instructions -/

section Rules

variable {spend} {code : List Instr} {stack : List Bytes} {taken : List Bool}

lemma accepts_nil : Accepts spend [] ⟨stack, taken⟩ ↔ ∃ v, stack = [v] ∧ taken = [] ∧ isTrue v := by
  constructor
  · rintro ⟨v, hrun, hv⟩
    cases hrun
    exact ⟨v, rfl, rfl, hv⟩
  · rintro ⟨v, rfl, rfl, hv⟩
    exact ⟨v, rfl, hv⟩

lemma accepts_cons {i : Instr} {s s' : State} (h : step spend s i = some s') :
    Accepts spend (i :: code) s ↔ Accepts spend code s' := by
  simp only [Accepts, run, h, Option.bind_some]

lemma not_accepts_cons {i : Instr} {s : State} (h : step spend s i = none) :
    ¬ Accepts spend (i :: code) s := by
  rintro ⟨v, hrun, -⟩
  simp [run, h] at hrun

/-- An operation in a branch that is taken. -/
lemma accepts_op {o : Op} (h : Live taken) :
    Accepts spend (.op o :: code) ⟨stack, taken⟩ ↔
      ∃ stack', exec spend o stack = some stack' ∧ Accepts spend code ⟨stack', taken⟩ := by
  have hstep : step spend ⟨stack, taken⟩ (.op o) =
      (exec spend o stack).map fun stack => ⟨stack, taken⟩ := by
    rw [step, if_pos h]
  cases hexec : exec spend o stack with
  | none =>
    rw [hexec] at hstep
    refine iff_of_false (not_accepts_cons hstep) ?_
    rintro ⟨_, h, -⟩
    cases h
  | some stack' =>
    rw [hexec] at hstep
    rw [accepts_cons hstep]
    simp

/-- Operations in a branch that is not taken. -/
lemma accepts_skip {ops : List Op} (h : ¬ Live taken) :
    Accepts spend (ops.map .op ++ code) ⟨stack, taken⟩ ↔ Accepts spend code ⟨stack, taken⟩ := by
  induction ops with
  | nil => rfl
  | cons o ops ih =>
    have hstep : step spend ⟨stack, taken⟩ (.op o) = some ⟨stack, taken⟩ := by
      rw [step, if_neg h]
    rw [List.map_cons, List.cons_append, accepts_cons hstep, ih]

lemma accepts_if {a : Bytes} (h : Live taken) :
    Accepts spend (.if :: code) ⟨a :: stack, taken⟩ ↔
      Accepts spend code ⟨stack, decide (isTrue a) :: taken⟩ :=
  accepts_cons (by rw [step, if_pos h])

lemma accepts_if_dead (h : ¬ Live taken) :
    Accepts spend (.if :: code) ⟨stack, taken⟩ ↔ Accepts spend code ⟨stack, false :: taken⟩ :=
  accepts_cons (by rw [step, if_neg h])

lemma accepts_else {t : Bool} :
    Accepts spend (.else :: code) ⟨stack, t :: taken⟩ ↔
      Accepts spend code ⟨stack, (!t) :: taken⟩ := accepts_cons rfl

lemma accepts_endif {t : Bool} :
    Accepts spend (.endif :: code) ⟨stack, t :: taken⟩ ↔ Accepts spend code ⟨stack, taken⟩ :=
  accepts_cons rfl

/-- The same operations before two scripts that accept the same stacks. -/
lemma accepts_ops_congr {ops : List Op} {code' : List Instr} {taken' : List Bool}
    (h : Live taken) (h' : Live taken')
    (hcode : ∀ stack, Accepts spend code ⟨stack, taken⟩ ↔ Accepts spend code' ⟨stack, taken'⟩) :
    Accepts spend (ops.map .op ++ code) ⟨stack, taken⟩ ↔
      Accepts spend (ops.map .op ++ code') ⟨stack, taken'⟩ := by
  induction ops generalizing stack with
  | nil => exact hcode stack
  | cons o ops ih =>
    rw [List.map_cons, List.cons_append, List.cons_append, accepts_op h, accepts_op h']
    exact exists_congr fun stack' => and_congr_right fun _ => ih

/-- Two branches of operations. -/
lemma accepts_branches {a : Bytes} {yes no : List Op} (h : Live taken) :
    Accepts spend (.if :: (yes.map .op ++ .else :: (no.map .op ++ .endif :: code)))
        ⟨a :: stack, taken⟩ ↔
      if isTrue a then Accepts spend (yes.map .op ++ code) ⟨stack, taken⟩
      else Accepts spend (no.map .op ++ code) ⟨stack, taken⟩ := by
  rw [accepts_if h]
  by_cases ha : isTrue a
  · rw [if_pos ha, decide_eq_true ha]
    refine accepts_ops_congr (by simpa using h) h fun stack => ?_
    rw [accepts_else, accepts_skip (by simp), accepts_endif]
  · rw [if_neg ha, decide_eq_false ha, accepts_skip (by simp), accepts_else]
    refine accepts_ops_congr (by simpa using h) h fun stack => ?_
    rw [accepts_endif]

/-! ## Rules for operations -/

section Shapes

variable {o : Op} {stack' : List Bytes}

lemma accepts_of_exec (h : Live taken) (hexec : exec spend o stack = some stack') :
    Accepts spend (.op o :: code) ⟨stack, taken⟩ ↔ Accepts spend code ⟨stack', taken⟩ := by
  rw [accepts_op h, hexec]
  simp

lemma accepts_guard {p : Prop} [Decidable p] (h : Live taken)
    (hexec : exec spend o stack = if p then some stack' else none) :
    Accepts spend (.op o :: code) ⟨stack, taken⟩ ↔ p ∧ Accepts spend code ⟨stack', taken⟩ := by
  rw [accepts_op h, hexec]
  by_cases hp : p <;> simp [hp]

lemma accepts_read {α : Type} {x : Option α} {f : α → List Bytes} (h : Live taken)
    (hexec : exec spend o stack = x.map f) :
    Accepts spend (.op o :: code) ⟨stack, taken⟩ ↔
      ∃ a, x = some a ∧ Accepts spend code ⟨f a, taken⟩ := by
  rw [accepts_op h, hexec]
  cases x <;> simp

end Shapes

@[simp] lemma index?_num (n : ℕ) : index? (num n) = some n := by
  simp [index?]

lemma binary_num (f : ℤ → ℤ → Bytes) (a b : ℤ) (s : List Bytes) :
    binary f (num a) (num b) s = some (f a b :: s) := by
  simp [binary]

lemma introspect_num (l : List TxOut) (f : TxOut → Bytes) (i : ℕ) (s : List Bytes) :
    introspect l f (num i) s = (l[i]?).map fun o => f o :: s := by
  cases h : l[i]? <;> simp [introspect, h]

lemma introspect_spent (l : List TxIn) (f : TxOut → Bytes) (i : ℕ) (s : List Bytes) :
    introspect (l.map TxIn.spent) f (num i) s = (l[i]?).map fun o => f o.spent :: s := by
  rw [introspect_num, List.getElem?_map, Option.map_map, Function.comp_def]

section Stack

variable {a b c : Bytes} (h : Live taken)

include h

lemma accepts_push : Accepts spend (.op (.push a) :: code) ⟨stack, taken⟩ ↔
    Accepts spend code ⟨a :: stack, taken⟩ := accepts_of_exec h rfl

lemma accepts_verify : Accepts spend (.op .verify :: code) ⟨a :: stack, taken⟩ ↔
    isTrue a ∧ Accepts spend code ⟨stack, taken⟩ := accepts_guard h rfl

lemma accepts_drop2 : Accepts spend (.op .drop2 :: code) ⟨a :: b :: stack, taken⟩ ↔
    Accepts spend code ⟨stack, taken⟩ := accepts_of_exec h rfl

lemma accepts_drop : Accepts spend (.op .drop :: code) ⟨a :: stack, taken⟩ ↔
    Accepts spend code ⟨stack, taken⟩ := accepts_of_exec h rfl

lemma accepts_dup : Accepts spend (.op .dup :: code) ⟨a :: stack, taken⟩ ↔
    Accepts spend code ⟨a :: a :: stack, taken⟩ := accepts_of_exec h rfl

lemma accepts_nip : Accepts spend (.op .nip :: code) ⟨a :: b :: stack, taken⟩ ↔
    Accepts spend code ⟨a :: stack, taken⟩ := accepts_of_exec h rfl

lemma accepts_over : Accepts spend (.op .over :: code) ⟨a :: b :: stack, taken⟩ ↔
    Accepts spend code ⟨b :: a :: b :: stack, taken⟩ := accepts_of_exec h rfl

lemma accepts_rot : Accepts spend (.op .rot :: code) ⟨a :: b :: c :: stack, taken⟩ ↔
    Accepts spend code ⟨c :: a :: b :: stack, taken⟩ := accepts_of_exec h rfl

lemma accepts_swap : Accepts spend (.op .swap :: code) ⟨a :: b :: stack, taken⟩ ↔
    Accepts spend code ⟨b :: a :: stack, taken⟩ := accepts_of_exec h rfl

lemma accepts_pick {n : ℕ} : Accepts spend (.op .pick :: code) ⟨num n :: stack, taken⟩ ↔
    ∃ a, stack[n]? = some a ∧ Accepts spend code ⟨a :: stack, taken⟩ := by
  refine accepts_read h ?_
  show ((index? (num n)).bind fun n => (stack[n]?).bind fun a => some (a :: stack)) = _
  rw [index?_num, Option.bind_some]
  cases stack[n]? <;> rfl

lemma accepts_roll {n : ℕ} : Accepts spend (.op .roll :: code) ⟨num n :: stack, taken⟩ ↔
    ∃ a, stack[n]? = some a ∧ Accepts spend code ⟨a :: stack.eraseIdx n, taken⟩ := by
  refine accepts_read h ?_
  show ((index? (num n)).bind fun n => (stack[n]?).bind fun a => some (a :: stack.eraseIdx n)) = _
  rw [index?_num, Option.bind_some]
  cases stack[n]? <;> rfl

lemma accepts_cat : Accepts spend (.op .cat :: code) ⟨b :: a :: stack, taken⟩ ↔
    Accepts spend code ⟨(a ++ b) :: stack, taken⟩ := accepts_of_exec h rfl

lemma accepts_split {n : ℕ} : Accepts spend (.op .split :: code) ⟨num n :: a :: stack, taken⟩ ↔
    n ≤ a.length ∧ Accepts spend code ⟨a.drop n :: a.take n :: stack, taken⟩ := by
  refine accepts_guard h ?_
  show ((index? (num n)).bind fun n =>
    if n ≤ a.length then some (a.drop n :: a.take n :: stack) else none) = _
  rw [index?_num, Option.bind_some]

lemma accepts_num2bin {n : ℕ} :
    Accepts spend (.op .num2bin :: code) ⟨num n :: a :: stack, taken⟩ ↔
      width (value a).natAbs ≤ n ∧ Accepts spend code ⟨signed n (value a) :: stack, taken⟩ := by
  refine accepts_guard h ?_
  show ((index? (num n)).bind fun n =>
    if width (value a).natAbs ≤ n then some (signed n (value a) :: stack) else none) = _
  rw [index?_num, Option.bind_some]

lemma accepts_bin2num : Accepts spend (.op .bin2num :: code) ⟨a :: stack, taken⟩ ↔
    Accepts spend code ⟨num (value a) :: stack, taken⟩ := accepts_of_exec h rfl

lemma accepts_size : Accepts spend (.op .size :: code) ⟨a :: stack, taken⟩ ↔
    Accepts spend code ⟨num a.length :: a :: stack, taken⟩ := accepts_of_exec h rfl

lemma accepts_equal : Accepts spend (.op .equal :: code) ⟨b :: a :: stack, taken⟩ ↔
    Accepts spend code ⟨ofBool (decide (a = b)) :: stack, taken⟩ := accepts_of_exec h rfl

lemma accepts_equalVerify : Accepts spend (.op .equalVerify :: code) ⟨b :: a :: stack, taken⟩ ↔
    a = b ∧ Accepts spend code ⟨stack, taken⟩ := accepts_guard h rfl

lemma accepts_hash256 : Accepts spend (.op .hash256 :: code) ⟨a :: stack, taken⟩ ↔
    Accepts spend code ⟨spend.hash256 a :: stack, taken⟩ := accepts_of_exec h rfl

lemma accepts_checkSigVerify :
    Accepts spend (.op .checkSigVerify :: code) ⟨b :: stack, taken⟩ ↔
      ∃ sig rest, stack = sig :: rest ∧ spend.checkSig sig b = true ∧
        Accepts spend code ⟨rest, taken⟩ := by
  cases stack with
  | nil =>
    rw [accepts_op h]
    simp [show exec spend .checkSigVerify [b] = none from rfl]
  | cons sig rest =>
    rw [accepts_guard h rfl]
    simp

end Stack

section Numbers

variable {a b : ℤ} {p q : Bool} (h : Live taken)

include h

lemma accepts_add1 : Accepts spend (.op .add1 :: code) ⟨num a :: stack, taken⟩ ↔
    Accepts spend code ⟨num (a + 1) :: stack, taken⟩ :=
  accepts_of_exec h (show (toNum? (num a)).map (fun a => num (a + 1) :: stack) = _ by simp)

lemma accepts_sub : Accepts spend (.op .sub :: code) ⟨num b :: num a :: stack, taken⟩ ↔
    Accepts spend code ⟨num (a - b) :: stack, taken⟩ := accepts_of_exec h (binary_num _ _ _ _)

lemma accepts_boolOr : Accepts spend (.op .boolOr :: code) ⟨ofBool q :: ofBool p :: stack, taken⟩ ↔
    Accepts spend code ⟨ofBool (p || q) :: stack, taken⟩ := by
  have hor : ∀ p q : Bool, decide ((if p then 1 else 0 : ℤ) ≠ 0 ∨ (if q then 1 else 0 : ℤ) ≠ 0) =
      (p || q) := by decide
  rw [← hor]
  exact accepts_of_exec h (binary_num _ _ _ _)

lemma accepts_numEqual : Accepts spend (.op .numEqual :: code) ⟨num b :: num a :: stack, taken⟩ ↔
    Accepts spend code ⟨ofBool (decide (a = b)) :: stack, taken⟩ :=
  accepts_of_exec h (binary_num _ _ _ _)

lemma accepts_numEqualVerify :
    Accepts spend (.op .numEqualVerify :: code) ⟨num b :: num a :: stack, taken⟩ ↔
      a = b ∧ Accepts spend code ⟨stack, taken⟩ := by
  refine accepts_guard h ?_
  show ((toNum? (num a)).bind fun a => (toNum? (num b)).bind fun b =>
    if a = b then some stack else none) = _
  rw [toNum?_num, toNum?_num, Option.bind_some, Option.bind_some]

lemma accepts_lessThan : Accepts spend (.op .lessThan :: code) ⟨num b :: num a :: stack, taken⟩ ↔
    Accepts spend code ⟨ofBool (decide (a < b)) :: stack, taken⟩ :=
  accepts_of_exec h (binary_num _ _ _ _)

lemma accepts_greaterThan :
    Accepts spend (.op .greaterThan :: code) ⟨num b :: num a :: stack, taken⟩ ↔
      Accepts spend code ⟨ofBool (decide (b < a)) :: stack, taken⟩ :=
  accepts_of_exec h (binary_num _ _ _ _)

lemma accepts_greaterThanOrEqual :
    Accepts spend (.op .greaterThanOrEqual :: code) ⟨num b :: num a :: stack, taken⟩ ↔
      Accepts spend code ⟨ofBool (decide (b ≤ a)) :: stack, taken⟩ :=
  accepts_of_exec h (binary_num _ _ _ _)

end Numbers

section Introspection

variable {i : ℕ} (h : Live taken)

include h

lemma accepts_inputIndex : Accepts spend (.op .inputIndex :: code) ⟨stack, taken⟩ ↔
    Accepts spend code ⟨num spend.index :: stack, taken⟩ := accepts_of_exec h rfl

lemma accepts_txInputCount : Accepts spend (.op .txInputCount :: code) ⟨stack, taken⟩ ↔
    Accepts spend code ⟨num spend.inputs.length :: stack, taken⟩ := accepts_of_exec h rfl

lemma accepts_txOutputCount : Accepts spend (.op .txOutputCount :: code) ⟨stack, taken⟩ ↔
    Accepts spend code ⟨num spend.outputs.length :: stack, taken⟩ := accepts_of_exec h rfl

lemma accepts_txLocktime : Accepts spend (.op .txLocktime :: code) ⟨stack, taken⟩ ↔
    Accepts spend code ⟨num spend.locktime :: stack, taken⟩ := accepts_of_exec h rfl

lemma accepts_utxoValue : Accepts spend (.op .utxoValue :: code) ⟨num i :: stack, taken⟩ ↔
    ∃ o, spend.inputs[i]? = some o ∧ Accepts spend code ⟨num o.spent.value :: stack, taken⟩ :=
  accepts_read h (introspect_spent _ _ _ _)

lemma accepts_utxoBytecode : Accepts spend (.op .utxoBytecode :: code) ⟨num i :: stack, taken⟩ ↔
    ∃ o, spend.inputs[i]? = some o ∧ Accepts spend code ⟨o.spent.bytecode :: stack, taken⟩ :=
  accepts_read h (introspect_spent _ _ _ _)

lemma accepts_utxoTokenCategory :
    Accepts spend (.op .utxoTokenCategory :: code) ⟨num i :: stack, taken⟩ ↔
      ∃ o, spend.inputs[i]? = some o ∧
        Accepts spend code ⟨o.spent.tokenCategory :: stack, taken⟩ :=
  accepts_read h (introspect_spent _ _ _ _)

lemma accepts_utxoTokenCommitment :
    Accepts spend (.op .utxoTokenCommitment :: code) ⟨num i :: stack, taken⟩ ↔
      ∃ o, spend.inputs[i]? = some o ∧
        Accepts spend code ⟨o.spent.tokenCommitment :: stack, taken⟩ :=
  accepts_read h (introspect_spent _ _ _ _)

lemma accepts_utxoTokenAmount :
    Accepts spend (.op .utxoTokenAmount :: code) ⟨num i :: stack, taken⟩ ↔
      ∃ o, spend.inputs[i]? = some o ∧
        Accepts spend code ⟨num o.spent.tokenAmount :: stack, taken⟩ :=
  accepts_read h (introspect_spent _ _ _ _)

lemma accepts_outputValue : Accepts spend (.op .outputValue :: code) ⟨num i :: stack, taken⟩ ↔
    ∃ o, spend.outputs[i]? = some o ∧ Accepts spend code ⟨num o.value :: stack, taken⟩ :=
  accepts_read h (introspect_num _ _ _ _)

lemma accepts_outputBytecode :
    Accepts spend (.op .outputBytecode :: code) ⟨num i :: stack, taken⟩ ↔
      ∃ o, spend.outputs[i]? = some o ∧ Accepts spend code ⟨o.bytecode :: stack, taken⟩ :=
  accepts_read h (introspect_num _ _ _ _)

lemma accepts_outputTokenCategory :
    Accepts spend (.op .outputTokenCategory :: code) ⟨num i :: stack, taken⟩ ↔
      ∃ o, spend.outputs[i]? = some o ∧ Accepts spend code ⟨o.tokenCategory :: stack, taken⟩ :=
  accepts_read h (introspect_num _ _ _ _)

lemma accepts_outputTokenCommitment :
    Accepts spend (.op .outputTokenCommitment :: code) ⟨num i :: stack, taken⟩ ↔
      ∃ o, spend.outputs[i]? = some o ∧ Accepts spend code ⟨o.tokenCommitment :: stack, taken⟩ :=
  accepts_read h (introspect_num _ _ _ _)

lemma accepts_outputTokenAmount :
    Accepts spend (.op .outputTokenAmount :: code) ⟨num i :: stack, taken⟩ ↔
      ∃ o, spend.outputs[i]? = some o ∧ Accepts spend code ⟨num o.tokenAmount :: stack, taken⟩ :=
  accepts_read h (introspect_num _ _ _ _)

lemma accepts_checkLockTimeVerify {n : ℕ} :
    Accepts spend (.op .checkLockTimeVerify :: code) ⟨num n :: stack, taken⟩ ↔
      ∃ input, spend.inputs[spend.index]? = some input ∧
        ((n < 500000000 ↔ spend.locktime < 500000000) ∧ n ≤ spend.locktime ∧
          input.sequence ≠ 0xffffffff) ∧ Accepts spend code ⟨num n :: stack, taken⟩ := by
  rw [accepts_op h]
  have hexec : exec spend .checkLockTimeVerify (num n :: stack) =
      ((index? (num n)).bind fun n' => (spend.inputs[spend.index]?).bind fun input =>
        if (n' < 500000000 ↔ spend.locktime < 500000000) ∧ n' ≤ spend.locktime ∧
          input.sequence ≠ 0xffffffff then some (num n :: stack) else none) := rfl
  rw [hexec, index?_num, Option.bind_some]
  cases spend.inputs[spend.index]? with
  | none => simp
  | some input =>
    rw [Option.bind_some]
    split_ifs with hok <;> simp [hok]

end Introspection

end Rules

end Pickaxe.Lib.Script
