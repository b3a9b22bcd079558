/-
# SHA-256 in registers

The GPU's compression function comes in several forms: unrolled with its schedule in a ring,
resumed after rounds that many candidates share, with the schedule computed beforehand, with
additions issued as multiply-adds, and with an early exit at round 60 on the byte a target
compares first.  All of them compute the plain rounds (`forms_agree`).
-/
import Pickaxe.Lib.Bytes
import Pickaxe.Lib.Rounds
import Pickaxe.Lib.Words
import Mathlib.Tactic.IntervalCases

namespace Pickaxe.Engine.Sha256

open Lib Lib.Rounds

def INITIAL : Words 8 :=
  ⟨[0x6a09e667, 0xbb67ae85, 0x3c6ef372, 0xa54ff53a, 0x510e527f, 0x9b05688c, 0x1f83d9ab, 0x5be0cd19],
   rfl⟩

def K : Words 64 :=
  ⟨[0x428a2f98, 0x71374491, 0xb5c0fbcf, 0xe9b5dba5, 0x3956c25b, 0x59f111f1, 0x923f82a4, 0xab1c5ed5,
    0xd807aa98, 0x12835b01, 0x243185be, 0x550c7dc3, 0x72be5d74, 0x80deb1fe, 0x9bdc06a7, 0xc19bf174,
    0xe49b69c1, 0xefbe4786, 0x0fc19dc6, 0x240ca1cc, 0x2de92c6f, 0x4a7484aa, 0x5cb0a9dc, 0x76f988da,
    0x983e5152, 0xa831c66d, 0xb00327c8, 0xbf597fc7, 0xc6e00bf3, 0xd5a79147, 0x06ca6351, 0x14292967,
    0x27b70a85, 0x2e1b2138, 0x4d2c6dfc, 0x53380d13, 0x650a7354, 0x766a0abb, 0x81c2c92e, 0x92722c85,
    0xa2bfe8a1, 0xa81a664b, 0xc24b8b70, 0xc76c51a3, 0xd192e819, 0xd6990624, 0xf40e3585, 0x106aa070,
    0x19a4c116, 0x1e376c08, 0x2748774c, 0x34b0bcb5, 0x391c0cb3, 0x4ed8aa4a, 0x5b9cca4f, 0x682e6ff3,
    0x748f82ee, 0x78a5636f, 0x84c87814, 0x8cc70208, 0x90befffa, 0xa4506ceb, 0xbef9a3f7, 0xc67178f2],
   rfl⟩

/-! ## The parts of a round -/

/-- `u32::rotate_right`. -/
def rotateRight (x n : UInt32) : UInt32 := (x >>> n) ||| (x <<< (32 - n))

def choose (a b c : UInt32) : UInt32 := (a &&& b) ^^^ (~~~a &&& c)

def maj (a b c : UInt32) : UInt32 := (a &&& b) ^^^ (a &&& c) ^^^ (b &&& c)

/-- The rotations of a round's `a`. -/
def sum0 (a : UInt32) : UInt32 := rotateRight a 2 ^^^ rotateRight a 13 ^^^ rotateRight a 22

/-- The rotations of a round's `e`. -/
def sum1 (e : UInt32) : UInt32 := rotateRight e 6 ^^^ rotateRight e 11 ^^^ rotateRight e 25

/-- The rotations of the schedule word 15 before. -/
def s0 (x : UInt32) : UInt32 := rotateRight x 7 ^^^ rotateRight x 18 ^^^ (x >>> 3)

/-- The rotations of the schedule word 2 before. -/
def s1 (y : UInt32) : UInt32 := rotateRight y 17 ^^^ rotateRight y 19 ^^^ (y >>> 10)

/-- The eight words of a state as working variables. -/
def load {ρ : Type} (w : ρ) (s : Words 8) : Work ρ UInt32 :=
  ⟨w, s.word 0, s.word 1, s.word 2, s.word 3, s.word 4, s.word 5, s.word 6, s.word 7⟩

/-- The working variables as words. -/
def registers {ρ : Type} (v : Work ρ UInt32) : Words 8 :=
  ⟨[v.a, v.b, v.c, v.d, v.e, v.f, v.g, v.h], rfl⟩

/-- The feed-forward: the working variables added to the state. -/
def feedForward {ρ : Type} (state : Words 8) (v : Work ρ UInt32) : Words 8 :=
  .ofFn 8 fun i => state.word i + (registers v).word i

/-! ## `sha256.rs` -/

/-- The byte a target compares first: without its sign bit unless the rule is strict. -/
def comparable (strictPositive : Bool) (high : UInt8) : UInt8 :=
  if strictPositive then high else high &&& 0x7f

/-- The reject of round 60: the limit and the rule, where there are any. -/
def rejects (highByte : Option (UInt8 × Bool)) (final : UInt32) : Bool :=
  match highByte with
  | none => false
  | some (limit, strictPositive) => limit < comparable strictPositive final.toUInt8

/-- `HashLimit`: the same reject in plain words, for devices without bytes. -/
structure HashLimit where
  enabled : UInt32
  limit : UInt32
  strictPositive : UInt32

def HashLimit.rejects (highByte : HashLimit) (final : UInt32) : Bool :=
  if highByte.enabled ≠ 0 then
    let high := final &&& 0xff
    let comparable := if highByte.strictPositive ≠ 0 then high else high &&& 0x7f
    highByte.limit < comparable
  else false

/-- The ring word due in round `i`. -/
def ringWord (w : Words 16) (i : ℕ) : UInt32 :=
  w.word (i % 16) + s0 (w.word ((i + 1) % 16)) + w.word ((i + 9) % 16) + s1 (w.word ((i + 14) % 16))

/-- The macro `round!` of `compress_from_limited`. -/
def limitedRound (start : ℕ) (state : Words 8) (reject : UInt32 → Bool) (i : ℕ) :
    Work (Words 16) UInt32 → Option (Work (Words 16) UInt32)
  | ⟨w, a, b, c, d, e, f, g, h⟩ =>
    let w := if 16 ≤ i then w.set (i % 16) (ringWord w i) else w
    if start ≤ i then
      let t := h + sum1 e + choose e f g + K.word i + w.word (i % 16)
      let d := d + t
      if i = 60 ∧ reject (state.word 7 + d) then none
      else some ⟨w, a, b, c, d, e, f, g, t + sum0 a + maj a b c⟩
    else some ⟨w, a, b, c, d, e, f, g, h⟩

/-- The body of `compress_from_limited`: none is its `false`, which leaves the state as it was. -/
def limited (start : ℕ) (state : Words 8) (w : Words 16) (head : Words 8)
    (reject : UInt32 → Bool) : Option (Words 8) := do
  let head := Words.ofFn 8 fun i => head.word ((i + start) % 8)
  let v ← Work.rounds (limitedRound start state reject) (load w head)
  some (feedForward state v)

/-- `compress_from_limited`. -/
def compressFromLimited (start : ℕ) (state : Words 8) (w : Words 16) (head : Words 8)
    (highByte : Option (UInt8 × Bool)) : Option (Words 8) :=
  limited start state w head (rejects highByte)

/-- `compress_from`. -/
def compressFrom (start : ℕ) (state : Words 8) (w : Words 16) (head : Words 8) : Words 8 :=
  (compressFromLimited start state w head none).getD state

/-- `compress`. -/
def compress (state : Words 8) (w : Words 16) : Words 8 := compressFrom 0 state w state

/-- The macro `round!` of `compress_scheduled`. -/
def scheduledRound (i : ℕ) : Work (Words 64) UInt32 → Option (Work (Words 64) UInt32)
  | ⟨w, a, b, c, d, e, f, g, h⟩ =>
    let t := h + sum1 e + choose e f g + K.word i + w.word i
    let d := d + t
    some ⟨w, a, b, c, d, e, f, g, t + sum0 a + maj a b c⟩

/-- `compress_scheduled`. -/
def compressScheduled (state : Words 8) (w : Words 64) : Words 8 :=
  match Work.rounds scheduledRound (load w state) with
  | some v => feedForward state v
  | none => state

/-- One round of `head10`. -/
def headRound (state : Words 8) (k w : UInt32) : Words 8 :=
  let v := load () state
  let t := v.h + sum1 v.e + choose v.e v.f v.g + k + w
  let t2 := sum0 v.a + maj v.a v.b v.c
  ⟨[t + t2, v.a, v.b, v.c, v.d + t, v.e, v.f, v.g], rfl⟩

/-- The loop of `head10`, over the first `start` rounds. -/
def headRounds (state : Words 8) (w : Words 16) (start : ℕ) : Words 8 :=
  (List.range start).foldl (fun state i => headRound state (K.word i) (w.word i)) state

/-- `head10`. -/
def head10 (state : Words 8) (w : Words 16) : Words 8 := headRounds state w 10

/-- `bytes`: the bytes of a state, big-endian. -/
def bytes (state : Words 8) : ByteVec 32 :=
  ⟨(List.range 32).map fun i => (state.word (i / 4) >>> UInt32.ofNat ((3 - i % 4) * 8)).toUInt8,
   by simp⟩

/-- `u32::from_be_bytes`. -/
def fromBeBytes (a b c d : UInt8) : UInt32 :=
  UInt32.ofNat (((a.toNat * 256 + b.toNat) * 256 + c.toNat) * 256 + d.toNat)

/-- The big-endian words of a byte string. -/
def beWords (n : ℕ) (b : Bytes) : Words n :=
  .ofFn n fun i => fromBeBytes (b.getD (i * 4) 0) (b.getD (i * 4 + 1) 0) (b.getD (i * 4 + 2) 0)
    (b.getD (i * 4 + 3) 0)

/-- `compress_bytes`. -/
def compressBytes (state : Words 8) (b : ByteVec 64) : Words 8 :=
  compress state (beWords 16 b.bytes)

/-- The padded block of a first hash. -/
def secondBlock (firstHash : Words 8) : Words 16 :=
  ⟨firstHash.toList ++ [0x80000000, 0, 0, 0, 0, 0, 0, 256], by simp⟩

/-- `hash_state`. -/
def hashState (firstHash : Words 8) : ByteVec 32 :=
  bytes (compress INITIAL (secondBlock firstHash))

/-- `hash_state_filtered_with_rule`. -/
def hashStateFilteredWithRule (firstHash : Words 8) (highByte : UInt8) (strictPositive : Bool) :
    Option (ByteVec 32) :=
  (compressFromLimited 0 INITIAL (secondBlock firstHash) INITIAL
    (some (highByte, strictPositive))).map bytes

/-- `hash_state_words_filtered`, on a host: none is its `false`. -/
def hashStateWordsFiltered (firstHash : Words 8) (highByte : UInt32) (strictPositive : Bool) :
    Option (Words 8) :=
  compressFromLimited 0 INITIAL (secondBlock firstHash) INITIAL
    (some (highByte.toUInt8, strictPositive))

/-- `hash_state_words_filtered`, on a device without bytes. -/
def hashStateWordsFilteredPortable (firstHash : Words 8) (highByte : UInt32)
    (strictPositive : Bool) : Option (Words 8) :=
  limited 0 INITIAL (secondBlock firstHash) INITIAL
    (HashLimit.rejects ⟨1, highByte &&& 0xff, if strictPositive then 1 else 0⟩)

/-! ## `imad` -/

/-- `lop3.b32`: on every bit, the entry of the table for the three bits. -/
def lop3 (a b c : UInt32) (table : UInt8) : UInt32 :=
  (List.range 8).foldl
    (fun result k =>
      if table.toNat.testBit k then
        result ||| ((if k.testBit 2 then a else ~~~a) &&& (if k.testBit 1 then b else ~~~b) &&&
          (if k.testBit 0 then c else ~~~c))
      else result)
    0

/-- `mad.lo.u32` by a `one`. -/
def madLo (a one b : UInt32) : UInt32 := a * one + b

namespace Imad

section
variable (add : UInt32 → UInt32 → UInt32 → UInt32)

def choose (a b c : UInt32) : UInt32 := lop3 a b c 0xca

/-- The macro `round!` of `imad::compress`. -/
def limitedRound (filter : Bool) (start : ℕ) (state : Words 8) (one : UInt32) (limit : UInt8)
    (strictPositive : Bool) (i : ℕ) : Work (Words 16) UInt32 → Option (Work (Words 16) UInt32)
  | ⟨w, a, b, c, d, e, f, g, h⟩ =>
    let x := w.word ((i + 1) % 16)
    let y := w.word ((i + 14) % 16)
    let w :=
      if 16 ≤ i then
        w.set (i % 16)
          (add (add (add (w.word (i % 16)) one (s0 x)) one (w.word ((i + 9) % 16))) one (s1 y))
      else w
    if start ≤ i then
      let t := add (h + sum1 e) one (choose e f g + K.word i + w.word (i % 16))
      let d := add d one t
      if filter ∧ i = 60 ∧ limit < comparable strictPositive (state.word 7 + d).toUInt8 then none
      else some ⟨w, a, b, c, d, e, f, g, add t one (sum0 a + maj a b c)⟩
    else some ⟨w, a, b, c, d, e, f, g, h⟩

/-- The feed-forward of `imad`. -/
def feedForward {ρ : Type} (state : Words 8) (one : UInt32) (v : Work ρ UInt32) : Words 8 :=
  .ofFn 8 fun i => add (state.word i) one ((registers v).word i)

/-- `imad::compress`: none is its `false`. -/
def compress (filter : Bool) (state : Words 8) (w : Words 16) (head : Words 8) (start : ℕ)
    (one : UInt32) (limit : UInt8) (strictPositive : Bool) : Option (Words 8) := do
  let head := Words.ofFn 8 fun i => head.word ((i + start) % 8)
  let v ← Work.rounds (limitedRound add filter start state one limit strictPositive) (load w head)
  some (feedForward add state one v)

/-- The macro `round!` of `imad::compress_scheduled`. -/
def scheduledRound (one : UInt32) (i : ℕ) :
    Work (Words 64) UInt32 → Option (Work (Words 64) UInt32)
  | ⟨w, a, b, c, d, e, f, g, h⟩ =>
    let t := add (h + sum1 e) one (choose e f g + K.word i + w.word i)
    let d := add d one t
    some ⟨w, a, b, c, d, e, f, g, add t one (sum0 a + maj a b c)⟩

/-- `imad::compress_scheduled`. -/
def compressScheduled (state : Words 8) (w : Words 64) (one : UInt32) : Words 8 :=
  match Work.rounds (scheduledRound add one) (load w state) with
  | some v => feedForward add state one v
  | none => state

end

/-- `imad::head`. -/
def head (state : Words 8) (w : Words 16) (start : ℕ) : Words 8 := headRounds state w start

end Imad

/-! ## `window.rs` -/

/-- `schedule`: the 64 words of a block's schedule. -/
def schedule (block : Words 16) : Words 64 :=
  let w := (List.range 16).foldl (fun w i => w.set i (block.word i)) (Words.ofFn 64 fun _ => 0)
  (List.range' 16 48).foldl
    (fun w i => w.set i
      (w.word (i - 16) + s0 (w.word (i - 15)) + w.word (i - 7) + s1 (w.word (i - 2))))
    w

/-! ## The plain rounds -/

/-- The next word of a schedule, from those 16, 15, 7 and 2 before it. -/
def next (w16 w15 w7 w2 : UInt32) : UInt32 := w16 + s0 w15 + w7 + s1 w2

/-- The schedule of a block. -/
def words (block : Words 16) : ℕ → UInt32 := expand next block.word

/-- The state after the first rounds. -/
def plain (state : Words 8) (w : ℕ → UInt32) : ℕ → Words 8
  | 0 => state
  | i + 1 => headRound (plain state w i) (K.word i) (w i)

/-- The state after the 64 rounds, fed forward. -/
def compressed (state : Words 8) (w : Words 16) : Words 8 :=
  feedForward state (load () (plain state (words w) 64))

variable {ρ : Type}

lemma registers_load (w : ρ) (s : Words 8) : registers (load w s) = s :=
  Words.ext fun i hi => by
    interval_cases i <;> rfl

lemma feedForward_load (w : ρ) (state s : Words 8) :
    feedForward state (load w s) = feedForward state (load () s) := by
  unfold feedForward
  rw [registers_load, registers_load]

/-- Each variable of a round is the next round's in the role after. -/
lemma headRound_word (s : Words 8) (k x : UInt32) {i : ℕ} (h : i < 8) (ha : i ≠ 0) (he : i ≠ 4) :
    (headRound s k x).word i = s.word (i - 1) := by
  interval_cases i
  all_goals first
    | rfl
    | exact absurd rfl ‹_›

/-- A round in its place: it writes two variables, and the roles move. -/
lemma turn_round (w : ρ) (s : Words 8) (k x : UInt32) :
    let v := load w s
    let t := v.h + sum1 v.e + choose v.e v.f v.g + k + x
    Work.turn ⟨w, v.a, v.b, v.c, v.d + t, v.e, v.f, v.g, t + sum0 v.a + maj v.a v.b v.c⟩ =
      load w (headRound s k x) := by
  intro v t
  have ha : t + sum0 v.a + maj v.a v.b v.c = (headRound s k x).word 0 := UInt32.add_assoc ..
  rw [ha]
  rfl

/-- `head10`'s rounds are the plain ones. -/
lemma headRounds_eq (state : Words 8) (w : Words 16) {start : ℕ} (h : start ≤ 16) :
    headRounds state w start = plain state (words w) start := by
  induction start with
  | zero => rfl
  | succ n ih =>
    rw [headRounds, List.range_succ, List.foldl_append, ← headRounds, ih (by omega), plain, words,
      expand_of_lt (by omega)]
    rfl

/-! ## The ring -/

/-- The ring of a round: the word due is in place before it is used. -/
lemma ring_step {block ring : Words 16} {i : ℕ} (h : Holds (words block) (max i 16) ring.word) :
    let ring' := if 16 ≤ i then ring.set (i % 16) (ringWord ring i) else ring
    ring'.word (i % 16) = words block i ∧ Holds (words block) (max (i + 1) 16) ring'.word := by
  intro ring'
  by_cases hi : 16 ≤ i
  · have hring : ring' = ring.set (i % 16) (ringWord ring i) := if_pos hi
    have hmod : i % 16 < 16 := Nat.mod_lt _ (by decide)
    rw [max_eq_left hi] at h
    have hsucc : Holds (words block) (i + 1) ring'.word := by
      refine h.succ hi ?_ fun j hj => ?_
      · rw [hring, Words.word_set_self _ _ hmod]
        rfl
      · rw [hring, Words.word_set_ne _ _ hj]
    rw [max_eq_left (by omega)]
    exact ⟨hsucc i (Nat.lt_succ_self i) (by omega), hsucc⟩
  · have hring : ring' = ring := if_neg hi
    rw [max_eq_right (by omega)] at h ⊢
    rw [hring]
    exact ⟨h i (by omega) (by omega), h⟩

/-! ## The unrolled rounds -/

/-- A resumed state in the places its variables have `n` rounds before. -/
def placed (n : ℕ) (s : Words 8) : Words 8 := .ofFn 8 fun i => s.word ((i + n) % 8)

lemma placed_zero (s : Words 8) : placed 0 s = s :=
  Words.ext fun i hi => by
    rw [placed, Words.word_ofFn hi, Nat.add_zero, Nat.mod_eq_of_lt hi]

/-- The roles move on with every round that is left out. -/
lemma turn_placed (w : ρ) (n : ℕ) (s : Words 8) :
    (load w (placed (n + 1) s)).turn = load w (placed n s) := by
  have h (i j : ℕ) (hi : i < 8) (hj : j < 8) (hij : (i + 1) % 8 = j) :
      (placed (n + 1) s).word i = (placed n s).word j := by
    rw [placed, placed, Words.word_ofFn hi, Words.word_ofFn hj]
    congr 1
    omega
  exact Work.ext rfl (h 7 0 (by decide) (by decide) rfl) (h 0 1 (by decide) (by decide) rfl)
    (h 1 2 (by decide) (by decide) rfl) (h 2 3 (by decide) (by decide) rfl)
    (h 3 4 (by decide) (by decide) rfl) (h 4 5 (by decide) (by decide) rfl)
    (h 5 6 (by decide) (by decide) rfl) (h 6 7 (by decide) (by decide) rfl)

/-- Before round `i` of rounds resumed at `start`: the ring holds the schedule, and the variables
are those of the plain rounds, in the places of round `i`. -/
def Resumed (state : Words 8) (block : Words 16) (start i : ℕ) (v : Work (Words 16) UInt32) :
    Prop :=
  ∃ ring : Words 16, Holds (words block) (max i 16) ring.word ∧
    v = load ring (placed (start - i) (plain state (words block) (max i start)))

variable {state : Words 8} {block : Words 16} {start i : ℕ} {reject : UInt32 → Bool}
  {v : Work (Words 16) UInt32}

variable (reject) in
/-- A round before `start` moves the roles. -/
lemma Resumed.skip (h : Resumed state block start i v) (hi : i < start) :
    ∃ v', Work.turned (limitedRound start state reject) i v = some v' ∧
      Resumed state block start (i + 1) v' := by
  obtain ⟨ring, hring, rfl⟩ := h
  obtain ⟨-, hring'⟩ := ring_step hring
  refine ⟨_, ?_, _, hring', rfl⟩
  have hskip : start - i = start - (i + 1) + 1 := by omega
  have hturn (r : Words 16) (s : Words 8) :
      (load r (placed (start - i) s)).turn = load r (placed (start - (i + 1)) s) := by
    rw [hskip, turn_placed]
  rw [max_eq_right hi.le, max_eq_right hi, ← hturn]
  simp only [Work.turned, limitedRound, load, if_neg (not_le.mpr hi)]
  rfl

variable (reject) in
/-- A round from `start` on is the plain round. -/
lemma Resumed.round (h : Resumed state block start i v) (hi : start ≤ i) :
    ∃ v', Resumed state block start (i + 1) v' ∧
      Work.turned (limitedRound start state reject) i v =
        if i = 60 ∧ reject (state.word 7 + (plain state (words block) (i + 1)).word 4) then none
        else some v' := by
  obtain ⟨ring, hring, rfl⟩ := h
  obtain ⟨hword, hring'⟩ := ring_step hring
  refine ⟨_, ⟨_, hring', rfl⟩, ?_⟩
  rw [Nat.sub_eq_zero_of_le hi, Nat.sub_eq_zero_of_le (by omega), placed_zero, placed_zero,
    max_eq_left hi, max_eq_left (by omega), plain, ← hword, ← turn_round]
  simp only [Work.turned, limitedRound, load, if_pos hi]
  exact apply_ite (Option.map Work.turn) _ none (some _)

/-- The variables of round 60 reach the last word three rounds later. -/
lemma plain_last (state : Words 8) (w : ℕ → UInt32) :
    (plain state w 64).word 7 = (plain state w 61).word 4 := by
  rw [plain, headRound_word _ _ _ (by decide) (by decide) (by decide), plain,
    headRound_word _ _ _ (by decide) (by decide) (by decide), plain,
    headRound_word _ _ _ (by decide) (by decide) (by decide)]

/-- Rounds resumed from the plain ones end as those do, unless round 60 rejects the last word. -/
theorem limited_eq (state : Words 8) (block : Words 16) {start : ℕ} (hstart : start ≤ 60)
    (reject : UInt32 → Bool) :
    limited start state block (plain state (words block) start) reject =
      if reject ((compressed state block).word 7) then none else some (compressed state block) := by
  -- up to round 60 nothing is rejected
  have hbegin : Resumed state block start 0
      (load block (placed start (plain state (words block) start))) :=
    ⟨block, Holds.start, by rw [Nat.zero_max, Nat.sub_zero]⟩
  obtain ⟨v, hv, hresumed⟩ := runSteps_spec (n := 60) (fun j v _ hj hr => by
    rcases lt_or_ge j start with hlt | hge
    · exact hr.skip reject hlt
    · obtain ⟨v', hr', hv'⟩ := hr.round reject hge
      rw [if_neg (by omega)] at hv'
      exact ⟨v', hv', hr'⟩) hbegin
  obtain ⟨v', hresumed', hv'⟩ := hresumed.round reject hstart
  have hlast : (compressed state block).word 7 =
      state.word 7 + (plain state (words block) 61).word 4 := by
    rw [compressed, feedForward, Words.word_ofFn (by decide), registers_load, plain_last]
  have hrun : runSteps (Work.turned (limitedRound start state reject)) 0 64 =
      fun v => runSteps (Work.turned (limitedRound start state reject)) 0 60 v >>= fun v =>
        Work.turned (limitedRound start state reject) 60 v >>=
          runSteps (Work.turned (limitedRound start state reject)) 61 3 :=
    funext fun v => runSteps_add 0 60 4 v
  change (Work.rounds _ (load block (placed start _)) >>= _) = _
  rw [Work.rounds_eq, hrun]
  simp only [hv, Option.bind_eq_bind, Option.bind_some]
  rw [hv', hlast]
  by_cases hreject : reject (state.word 7 + (plain state (words block) 61).word 4)
  · rw [if_pos ⟨rfl, hreject⟩, if_pos hreject]
    rfl
  · rw [if_neg (fun h => hreject h.2), if_neg hreject]
    -- nor afterwards
    obtain ⟨v'', hv'', ring, -, rfl⟩ := runSteps_spec (n := 3) (fun j v hj _ hr => by
      obtain ⟨v', hr', hv'⟩ := hr.round reject (by omega)
      rw [if_neg (by omega)] at hv'
      exact ⟨v', hv', hr'⟩) hresumed'
    simp only [Option.bind_some, hv'']
    rw [feedForward_load, Nat.sub_eq_zero_of_le (by omega), placed_zero, max_eq_left (by omega)]
    rfl

/-- `compress` computes the plain rounds. -/
theorem compress_eq (state : Words 8) (block : Words 16) :
    compress state block = compressed state block := by
  have h := limited_eq state block (Nat.zero_le 60) (rejects none)
  rw [compress, compressFrom, compressFromLimited]
  change (limited 0 state block (plain state (words block) 0) (rejects none)).getD state = _
  rw [h]
  rfl

/-- Resumed after the first rounds, it gives the same state. -/
theorem compressFrom_eq (state : Words 8) (block : Words 16) {start : ℕ} (h : start ≤ 16) :
    compressFrom start state block (headRounds state block start) = compressed state block := by
  rw [compressFrom, compressFromLimited, headRounds_eq _ _ h, limited_eq _ _ (by omega)]
  rfl

/-! ## The schedule beforehand -/

/-- The first loop of `schedule` copies the block. -/
lemma copied_word (block : Words 16) (w : Words 64) {n : ℕ} (hn : n ≤ 16) {i : ℕ} (hi : i < n) :
    ((List.range n).foldl (fun w i => w.set i (block.word i)) w).word i = words block i := by
  induction n with
  | zero => exact absurd hi (Nat.not_lt_zero i)
  | succ n ih =>
    rw [List.range_succ, List.foldl_append, List.foldl_cons, List.foldl_nil]
    rcases Nat.lt_succ_iff_lt_or_eq.mp hi with hlt | rfl
    · rw [Words.word_set_ne _ _ (by omega), ih (by omega) hlt]
    · rw [Words.word_set_self _ _ (by omega), words, expand_of_lt (by omega)]

/-- Its second loop keeps the words it has, and adds the next. -/
lemma grown_word {block : Words 16} {w : Words 64} (hw : ∀ i < 16, w.word i = words block i) {n : ℕ}
    (hn : n ≤ 48) {i : ℕ} (hi : i < 16 + n) :
    ((List.range' 16 n).foldl
      (fun w i => w.set i
        (w.word (i - 16) + s0 (w.word (i - 15)) + w.word (i - 7) + s1 (w.word (i - 2)))) w).word i =
      words block i := by
  induction n generalizing i with
  | zero =>
    rw [List.range'_zero, List.foldl_nil]
    exact hw i hi
  | succ n ih =>
    rw [List.range'_concat, List.foldl_append, List.foldl_cons, List.foldl_nil, Nat.one_mul]
    rcases (by omega : i < 16 + n ∨ i = 16 + n) with hlt | rfl
    · rw [Words.word_set_ne _ _ (by omega), ih (by omega) hlt]
    · rw [Words.word_set_self _ _ (by omega), ih (by omega) (by omega), ih (by omega) (by omega),
        ih (by omega) (by omega), ih (by omega) (by omega), words, Nat.add_comm 16 n, expand_add]
      rfl

lemma schedule_word (block : Words 16) {i : ℕ} (h : i < 64) :
    (schedule block).word i = words block i := by
  rw [schedule]
  exact grown_word (fun i hi => copied_word block _ (Nat.le_refl 16) hi) (Nat.le_refl 48) h

lemma scheduledRound_eq {w : Words 64} (s : Words 8) (i : ℕ) :
    Work.turned scheduledRound i (load w s) =
      some (load w (headRound s (K.word i) (w.word i))) := by
  rw [← turn_round]
  rfl

/-- `compress_scheduled` on the block's schedule computes the plain rounds. -/
theorem compressScheduled_eq (state : Words 8) (block : Words 16) :
    compressScheduled state (schedule block) = compressed state block := by
  have hround (i : ℕ) (v : Work (Words 64) UInt32) (hi : i < 0 + 64)
      (hv : v = load (schedule block) (plain state (words block) i)) :
      ∃ v', Work.turned scheduledRound i v = some v' ∧
        v' = load (schedule block) (plain state (words block) (i + 1)) := by
    refine ⟨_, ?_, rfl⟩
    rw [hv, scheduledRound_eq, schedule_word block (by omega), plain]
  have hbegin : load (schedule block) state = load (schedule block) (plain state (words block) 0) :=
    rfl
  obtain ⟨v, hv, rfl⟩ := runSteps_spec (fun i v _ => hround i v) hbegin
  rw [compressScheduled, Work.rounds_eq, hv]
  exact feedForward_load _ _ _

/-! ## The multiply-adds -/

/-- The table `0xca` is that of `choose`. -/
lemma lop3_choose (a b c : UInt32) : lop3 a b c 0xca = choose a b c := by
  have hminterms : lop3 a b c 0xca = 0 ||| (~~~a &&& ~~~b &&& c) ||| (~~~a &&& b &&& c) |||
      (a &&& b &&& ~~~c) ||| (a &&& b &&& c) := rfl
  rw [hminterms, choose]
  apply UInt32.toBitVec_inj.mp
  ext i hi
  simp only [UInt32.toBitVec_or, UInt32.toBitVec_and, UInt32.toBitVec_xor, UInt32.toBitVec_not,
    BitVec.getElem_or, BitVec.getElem_and, BitVec.getElem_xor, BitVec.getElem_not]
  cases a.toBitVec[i] <;> cases b.toBitVec[i] <;> cases c.toBitVec[i] <;> simp

namespace Imad

variable {add : UInt32 → UInt32 → UInt32 → UInt32} {one : UInt32}

lemma limitedRound_eq (hadd : ∀ a b, add a one b = a + b) (filter : Bool) (start : ℕ)
    (state : Words 8) (limit : UInt8) (strictPositive : Bool) :
    limitedRound add filter start state one limit strictPositive =
      Sha256.limitedRound start state
        (rejects (if filter then some (limit, strictPositive) else none)) := by
  funext i v
  simp only [limitedRound, Sha256.limitedRound, hadd, choose, lop3_choose, ringWord,
    UInt32.add_assoc]
  cases filter
  · simp [rejects]
  · simp [rejects]

lemma scheduledRound_eq (hadd : ∀ a b, add a one b = a + b) :
    scheduledRound add one = Sha256.scheduledRound := by
  funext i v
  simp only [scheduledRound, Sha256.scheduledRound, hadd, choose, lop3_choose, UInt32.add_assoc]

lemma feedForward_eq (hadd : ∀ a b, add a one b = a + b) (state : Words 8) (v : Work ρ UInt32) :
    feedForward add state one v = Sha256.feedForward state v := by
  simp only [feedForward, Sha256.feedForward, hadd]

/-- `imad::compress` is `compress_from_limited`. -/
theorem compress_eq (hadd : ∀ a b, add a one b = a + b) (filter : Bool) (state : Words 8)
    (w : Words 16) (head : Words 8) (start : ℕ) (limit : UInt8) (strictPositive : Bool) :
    compress add filter state w head start one limit strictPositive =
      compressFromLimited start state w head
        (if filter then some (limit, strictPositive) else none) := by
  simp only [compress, compressFromLimited, limited, limitedRound_eq hadd, feedForward_eq hadd]

/-- `imad::compress_scheduled` is `compress_scheduled`. -/
theorem compressScheduled_eq (hadd : ∀ a b, add a one b = a + b) (state : Words 8) (w : Words 64) :
    compressScheduled add state w one = Sha256.compressScheduled state w := by
  simp only [compressScheduled, Sha256.compressScheduled, scheduledRound_eq hadd,
    feedForward_eq hadd]

end Imad

/-! ## The filter -/

lemma toNat_shiftRight_ofNat (w : UInt32) {k : ℕ} (h : k < 32) :
    (w >>> UInt32.ofNat k).toNat = w.toNat / 2 ^ k := by
  rw [UInt32.toNat_shiftRight, UInt32.toNat_ofNat_of_lt' (h.trans (by decide)), Nat.mod_eq_of_lt h,
    Nat.shiftRight_eq_div_pow]

lemma toNat_fromBeBytes (a b c d : UInt8) :
    (fromBeBytes a b c d).toNat = ((a.toNat * 256 + b.toNat) * 256 + c.toNat) * 256 + d.toNat := by
  have ha := a.toNat_lt
  have hb := b.toNat_lt
  have hc := c.toNat_lt
  have hd := d.toNat_lt
  refine UInt32.toNat_ofNat_of_lt' ?_
  show _ < 2 ^ 32
  omega

/-- The bytes of big-endian words, by a shift. -/
lemma beWords_shift {n : ℕ} (b : Bytes) {i : ℕ} (h : i < 4 * n) :
    ((beWords n b).word (i / 4) >>> UInt32.ofNat ((3 - i % 4) * 8)).toNat % 256 =
      (b.getD i 0).toNat := by
  have hi : i = i / 4 * 4 + i % 4 := by omega
  have hr : i % 4 = 0 ∨ i % 4 = 1 ∨ i % 4 = 2 ∨ i % 4 = 3 := by omega
  have h0 := (b.getD (i / 4 * 4) 0).toNat_lt
  have h1 := (b.getD (i / 4 * 4 + 1) 0).toNat_lt
  have h2 := (b.getD (i / 4 * 4 + 2) 0).toNat_lt
  have h3 := (b.getD (i / 4 * 4 + 3) 0).toNat_lt
  rw [beWords, Words.word_ofFn (by omega), toNat_shiftRight_ofNat _ (by omega), toNat_fromBeBytes]
  -- the place of the byte in its word
  rcases hr with hr | hr | hr | hr
  all_goals
    rw [hr] at hi ⊢
    conv_rhs => rw [hi]
    simp only [Nat.reduceSub, Nat.reduceMul, Nat.reducePow, Nat.add_zero, Nat.sub_zero] at *
    omega

/-- The last byte of a digest is the low byte of its last word. -/
lemma bytes_last (state : Words 8) : (bytes state).bytes.getD 31 0 = (state.word 7).toUInt8 := by
  change (state.word 7 >>> 0).toUInt8 = _
  rw [UInt32.shiftRight_zero]

/-- The filter drops exactly the digests whose comparable last byte passes the limit. -/
lemma hashStateFilteredWithRule_eq (firstHash : Words 8) (highByte : UInt8)
    (strictPositive : Bool) :
    hashStateFilteredWithRule firstHash highByte strictPositive =
      if comparable strictPositive ((hashState firstHash).bytes.getD 31 0) ≤ highByte then
        some (hashState firstHash)
      else none := by
  have hlimited := limited_eq INITIAL (secondBlock firstHash) (Nat.zero_le 60)
    (rejects (some (highByte, strictPositive)))
  rw [hashStateFilteredWithRule, compressFromLimited]
  change (limited 0 INITIAL _ (plain INITIAL (words (secondBlock firstHash)) 0) _).map bytes = _
  rw [hlimited, hashState, compress_eq, bytes_last]
  by_cases h : comparable strictPositive
      ((compressed INITIAL (secondBlock firstHash)).word 7).toUInt8 ≤ highByte
  · have hkept : ¬ highByte < comparable strictPositive
        ((compressed INITIAL (secondBlock firstHash)).word 7).toUInt8 := UInt8.not_lt.mpr h
    simp [rejects, h, hkept]
  · have hdropped := UInt8.not_le.mp h
    simp [rejects, h, hdropped]

/-- The reject in words is the reject in bytes. -/
lemma HashLimit.rejects_eq (highByte : UInt32) (strictPositive : Bool) :
    HashLimit.rejects ⟨1, highByte &&& 0xff, if strictPositive then 1 else 0⟩ =
      Sha256.rejects (some (highByte.toUInt8, strictPositive)) := by
  funext final
  have hlow (n : ℕ) : n &&& 255 = n % 256 := Nat.and_two_pow_sub_one_eq_mod n 8
  cases strictPositive
  · simp [HashLimit.rejects, Sha256.rejects, comparable, UInt32.lt_iff_toNat_lt,
      UInt8.lt_iff_toNat_lt, hlow]
  · simp [HashLimit.rejects, Sha256.rejects, comparable, UInt32.lt_iff_toNat_lt,
      UInt8.lt_iff_toNat_lt, hlow]

/-- A device without bytes filters as a host does. -/
theorem hashStateWordsFilteredPortable_eq (firstHash : Words 8) (highByte : UInt32)
    (strictPositive : Bool) :
    hashStateWordsFilteredPortable firstHash highByte strictPositive =
      hashStateWordsFiltered firstHash highByte strictPositive := by
  rw [hashStateWordsFilteredPortable, HashLimit.rejects_eq]
  rfl

/-- Every form of the compression function computes the same state: resumed at any round that the
block's words alone fill, with its schedule beforehand, with additions as multiply-adds; and the
filtered hash is the plain one unless its comparable byte passes the limit. -/
theorem forms_agree (add : UInt32 → UInt32 → UInt32 → UInt32) (one : UInt32)
    (hadd : ∀ a b, add a one b = a + b) :
    (∀ (state : Words 8) (block : Words 16) (start : ℕ), start ≤ 16 →
        compressFrom start state block (headRounds state block start) = compress state block) ∧
      (∀ (state : Words 8) (block : Words 16),
        compressScheduled state (schedule block) = compress state block) ∧
      (∀ (filter : Bool) (state : Words 8) (w : Words 16) (head : Words 8) (start : ℕ)
        (limit : UInt8) (strictPositive : Bool),
        Imad.compress add filter state w head start one limit strictPositive =
          compressFromLimited start state w head
            (if filter then some (limit, strictPositive) else none)) ∧
      (∀ (state : Words 8) (w : Words 64),
        Imad.compressScheduled add state w one = compressScheduled state w) ∧
      ∀ (firstHash : Words 8) (highByte : UInt8) (strictPositive : Bool),
        hashStateFilteredWithRule firstHash highByte strictPositive =
          if comparable strictPositive ((hashState firstHash).bytes.getD 31 0) ≤ highByte then
            some (hashState firstHash)
          else none := by
  refine ⟨fun state block start h => ?_, fun state block => ?_, Imad.compress_eq hadd,
    Imad.compressScheduled_eq hadd, hashStateFilteredWithRule_eq⟩
  · rw [compressFrom_eq state block h, compress_eq]
  · rw [compressScheduled_eq, compress_eq]

/-- The device's multiply-add by one, and a hash resumed after ten rounds. -/
theorem forms_agree_madLo :
    Imad.compressScheduled madLo INITIAL K 1 = compressScheduled INITIAL K ∧
      compressFrom 10 INITIAL (secondBlock INITIAL) (head10 INITIAL (secondBlock INITIAL)) =
        compress INITIAL (secondBlock INITIAL) :=
  have hadd : ∀ a b, madLo a 1 b = a + b := fun a b => by rw [madLo, UInt32.mul_one]
  ⟨(forms_agree madLo 1 hadd).2.2.2.1 INITIAL K,
    (forms_agree madLo 1 hadd).1 INITIAL (secondBlock INITIAL) 10 (by decide)⟩

end Pickaxe.Engine.Sha256
