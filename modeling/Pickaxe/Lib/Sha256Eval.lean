/-
# Evaluating SHA-256

The digest in a form that evaluates faster: the schedule's window and the working variables are
arguments, and every new word is evaluated before it is used.  Concrete runs that hash are
evaluated through it (`digest_eq`).
-/
import Pickaxe.Lib.Sha256

namespace Pickaxe.Lib.Sha256

namespace Eval

/-- A number's value, passed on. -/
def force {α : Type} (n : ℕ) (f : ℕ → α) : α := Nat.casesOn n (f 0) fun m => f (Nat.succ m)

lemma force_eq {α : Type} (n : ℕ) (f : ℕ → α) : force n f = f n := by
  cases n <;> rfl

/-- `rotr`. -/
def rotr (n x : ℕ) : ℕ :=
  Nat.mod (Nat.lor (Nat.shiftRight x n) (Nat.shiftLeft x (Nat.sub 32 n))) 4294967296

/-- `round`, its eight words passed on. -/
def round {α : Type} (next : ℕ → ℕ → ℕ → ℕ → ℕ → ℕ → ℕ → ℕ → α) (kw a b c d e f g h : ℕ) : α :=
  force (Nat.add (Nat.add (Nat.add h (Nat.xor (Nat.xor (rotr 6 e) (rotr 11 e)) (rotr 25 e)))
    (Nat.xor (Nat.land e f) (Nat.land (Nat.sub 4294967295 e) g))) kw) fun t1 =>
  force (Nat.mod (Nat.add (Nat.add t1 (Nat.xor (Nat.xor (rotr 2 a) (rotr 13 a)) (rotr 22 a)))
    (Nat.xor (Nat.xor (Nat.land a b) (Nat.land a c)) (Nat.land b c))) 4294967296) fun a' =>
  force (Nat.mod (Nat.add d t1) 4294967296) fun e' => next a' a b c e' e f g

/-- The last rounds, without further words. -/
def rounds : List ℕ → ℕ → ℕ → ℕ → ℕ → ℕ → ℕ → ℕ → ℕ → State
  | [], a, b, c, d, e, f, g, h => ⟨a, b, c, d, e, f, g, h⟩
  | kw :: l, a, b, c, d, e, f, g, h => round (rounds l) kw a b c d e f g h

/-- The word the schedule derives from its window. -/
def next (w0 w1 w9 w14 : ℕ) : ℕ :=
  Nat.mod (Nat.add (Nat.add (Nat.add w0
    (Nat.xor (Nat.xor (rotr 7 w1) (rotr 18 w1)) (Nat.shiftRight w1 3))) w9)
    (Nat.xor (Nat.xor (rotr 17 w14) (rotr 19 w14)) (Nat.shiftRight w14 10))) 4294967296

/-- The rounds that derive words, on the constants of the others. -/
def deriving' (last : List ℕ) : List ℕ → ℕ → ℕ → ℕ → ℕ → ℕ → ℕ → ℕ → ℕ → ℕ → ℕ → ℕ → ℕ → ℕ → ℕ →
    ℕ → ℕ → ℕ → ℕ → ℕ → ℕ → ℕ → ℕ → ℕ → ℕ → State
  | [], w0, w1, w2, w3, w4, w5, w6, w7, w8, w9, w10, w11, w12, w13, w14, w15, a, b, c, d, e, f, g, h =>
    rounds (List.zipWith Nat.add last
      [w0, w1, w2, w3, w4, w5, w6, w7, w8, w9, w10, w11, w12, w13, w14, w15]) a b c d e f g h
  | k :: ks, w0, w1, w2, w3, w4, w5, w6, w7, w8, w9, w10, w11, w12, w13, w14, w15,
      a, b, c, d, e, f, g, h =>
    force (next w0 w1 w9 w14) fun w16 =>
      round (deriving' last ks w1 w2 w3 w4 w5 w6 w7 w8 w9 w10 w11 w12 w13 w14 w15 w16)
        (Nat.add k w0) a b c d e f g h

/-- `compress`. -/
def compress (s : State) : List ℕ → State
  | [w0, w1, w2, w3, w4, w5, w6, w7, w8, w9, w10, w11, w12, w13, w14, w15] =>
    let r := deriving' (roundConstants.drop 48) (roundConstants.take 48)
      w0 w1 w2 w3 w4 w5 w6 w7 w8 w9 w10 w11 w12 w13 w14 w15 s.a s.b s.c s.d s.e s.f s.g s.h
    ⟨Nat.mod (Nat.add s.a r.a) 4294967296, Nat.mod (Nat.add s.b r.b) 4294967296,
      Nat.mod (Nat.add s.c r.c) 4294967296, Nat.mod (Nat.add s.d r.d) 4294967296,
      Nat.mod (Nat.add s.e r.e) 4294967296, Nat.mod (Nat.add s.f r.f) 4294967296,
      Nat.mod (Nat.add s.g r.g) 4294967296, Nat.mod (Nat.add s.h r.h) 4294967296⟩
  | block => Sha256.compress s block

lemma round_eq {α : Type} (next : ℕ → ℕ → ℕ → ℕ → ℕ → ℕ → ℕ → ℕ → α) (kw : ℕ) (s : State) :
    round next kw s.a s.b s.c s.d s.e s.f s.g s.h =
      (let r := Sha256.round s kw
       next r.a r.b r.c r.d r.e r.f r.g r.h) := by
  unfold round
  rw [force_eq, force_eq, force_eq]
  rfl

lemma rounds_eq (l : List ℕ) (s : State) :
    rounds l s.a s.b s.c s.d s.e s.f s.g s.h = l.foldl Sha256.round s := by
  induction l generalizing s with
  | nil => rfl
  | cons kw l ih => rw [rounds, round_eq, List.foldl_cons, ← ih]

/-- The window and the working variables are those of the schedule and the rounds. -/
lemma deriving_eq (last ks : List ℕ) (s : State)
    (w0 w1 w2 w3 w4 w5 w6 w7 w8 w9 w10 w11 w12 w13 w14 w15 : ℕ) :
    deriving' last ks w0 w1 w2 w3 w4 w5 w6 w7 w8 w9 w10 w11 w12 w13 w14 w15
        s.a s.b s.c s.d s.e s.f s.g s.h =
      (List.zipWith (· + ·) (ks ++ last) (schedule ks.length
        [w0, w1, w2, w3, w4, w5, w6, w7, w8, w9, w10, w11, w12, w13, w14, w15])).foldl
        Sha256.round s := by
  induction ks generalizing s w0 w1 w2 w3 w4 w5 w6 w7 w8 w9 w10 w11 w12 w13 w14 w15 with
  | nil => exact rounds_eq _ s
  | cons k ks ih =>
    rw [deriving', force_eq, round_eq]
    exact ih (Sha256.round s (k + w0)) w1 w2 w3 w4 w5 w6 w7 w8 w9 w10 w11 w12 w13 w14 w15
      (next w0 w1 w9 w14)

theorem compress_eq (s : State) (block : List ℕ) : compress s block = Sha256.compress s block := by
  unfold compress
  split
  · rw [deriving_eq]
    rfl
  · rfl

/-- `blocks`. -/
def blocks : ℕ → List ℕ → State → State
  | 0, _, s => s
  | n + 1, w, s => blocks n (w.drop 16) (compress s (w.take 16))

lemma blocks_eq (n : ℕ) (w : List ℕ) (s : State) : blocks n w s = Sha256.blocks n w s := by
  induction n generalizing w s with
  | zero => rfl
  | succ n ih => rw [blocks, Sha256.blocks, ih, compress_eq]

/-- `digest`. -/
def digest (m : Bytes) : ByteVec 32 :=
  ⟨(blocks ((pad m).length / 64) (words (pad m)) initial).bytes, by simp [State.bytes, beBytes]⟩

theorem digest_eq : Sha256.digest = digest := by
  funext m
  simp only [Sha256.digest, digest, blocks_eq]

end Eval

end Pickaxe.Lib.Sha256
