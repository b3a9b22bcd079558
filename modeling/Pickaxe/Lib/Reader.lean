/-
# Readers

A reader consumes a front part of a byte string and returns a value, or refuses the string.
`Reads p a w` says that `p` reads `a` off the front part `w`, whatever follows it: this is
one half of a round trip, and it composes along `>>=`.  `Exact p` is the other half:
whatever `p` accepts starts with a part that `p` reads.
-/
import Pickaxe.Lib.Bytes
import Mathlib.Data.List.Forall2

namespace Pickaxe.Lib

/-- A reader with errors in `ε`. -/
abbrev Reader (ε : Type) := StateT Bytes (Except ε)

namespace Reader

variable {ε α β : Type}

/-- The reader that refuses every string. -/
def fail (e : ε) : Reader ε α := fun _ => .error e

/-- The next `n` bytes. -/
def take (e : ε) (n : ℕ) : Reader ε Bytes := fun b =>
  if b.length < n then .error e else .ok (b.take n, b.drop n)

/-- The next byte. -/
def byte (e : ε) : Reader ε UInt8
  | [] => .error e
  | b :: bs => .ok (b, bs)

/-- The next `n` bytes as an array. -/
def array (e : ε) (n : ℕ) : Reader ε (ByteVec n) := fun b =>
  if h : n ≤ b.length then .ok (⟨b.take n, by simpa using h⟩, b.drop n) else .error e

/-- `n` values, one after the other. -/
def times (p : Reader ε α) : ℕ → Reader ε (List α)
  | 0 => pure []
  | n + 1 => do
    let a ← p
    let as ← times p n
    pure (a :: as)

/-- The end of the string. -/
def eof (e : ε) : Reader ε Unit := fun b => if b.isEmpty then .ok ((), b) else .error e

/-- Goes on only under a condition. -/
def guard (c : Prop) [Decidable c] (e : ε) : Reader ε Unit :=
  if c then pure () else fail e

/-! ## What a reader reads -/

/-- `p` reads `a` off the front part `w`, whatever follows it. -/
def Reads (p : Reader ε α) (a : α) (w : Bytes) : Prop :=
  ∀ rest, p (w ++ rest) = .ok (a, rest)

variable {p : Reader ε α} {f : α → Reader ε β} {a : α} {b : β} {v w : Bytes}

lemma reads_pure (a : α) : Reads (pure a : Reader ε α) a [] := fun _ => rfl

/-- What comes after a part that `p` reads. -/
lemma Reads.bind_apply (hp : Reads p a w) (rest : Bytes) : (p >>= f) (w ++ rest) = f a rest := by
  change (p (w ++ rest) >>= fun x => f x.1 x.2) = _
  rw [hp]
  rfl

lemma Reads.bind (hp : Reads p a w) (hf : Reads (f a) b v) : Reads (p >>= f) b (w ++ v) := by
  intro rest
  rw [List.append_assoc, hp.bind_apply]
  exact hf rest

lemma Reads.map {g : α → β} (hp : Reads p a w) : Reads (g <$> p) (g a) w := by
  intro rest
  change (p (w ++ rest) >>= fun x => pure (g x.1, x.2)) = _
  rw [hp]
  rfl

/-- Reading on after a part that leaves nothing behind it. -/
lemma Reads.run (hp : Reads p a w) : p w = .ok (a, []) := by
  simpa using hp []

lemma reads_take {e : ε} {n : ℕ} (h : w.length = n) : Reads (take e n) w w := by
  intro rest
  subst h
  have hlen : ¬ (w ++ rest).length < w.length := by simp
  rw [take, if_neg hlen, List.take_left, List.drop_left]

lemma reads_byte {e : ε} (x : UInt8) : Reads (byte e) x [x] := fun _ => rfl

lemma reads_array {e : ε} {n : ℕ} (x : ByteVec n) : Reads (array e n) x x.bytes := by
  intro rest
  have hlen : n ≤ (x.bytes ++ rest).length := by simp
  have htake : (x.bytes ++ rest).take n = x.bytes := List.take_left' x.length_eq
  have hdrop : (x.bytes ++ rest).drop n = rest := List.drop_left' x.length_eq
  simp only [array, hlen, dif_pos, hdrop]
  congr 2
  exact ByteVec.ext htake

/-- Values read off parts that stand one after the other. -/
lemma reads_times_of_forall₂ {as : List α} {ws : List Bytes} (h : List.Forall₂ (Reads p) as ws) :
    Reads (times p as.length) as ws.flatten := by
  induction h with
  | nil => exact reads_pure []
  | @cons a w as ws ha _ ih =>
    have hrest := ih.bind (f := fun as => pure (a :: as)) (reads_pure (a :: as))
    rw [List.append_nil] at hrest
    exact ha.bind hrest

lemma reads_times {enc : α → Bytes} {as : List α} (h : ∀ a ∈ as, Reads p a (enc a)) :
    Reads (times p as.length) as (as.flatMap enc) := by
  rw [List.flatMap_def]
  refine reads_times_of_forall₂ ?_
  rw [List.forall₂_map_right_iff, List.forall₂_same]
  exact h

lemma reads_guard {c : Prop} [Decidable c] {e : ε} (h : c) : Reads (guard c e) () [] := by
  intro rest
  rw [guard, if_pos h]
  rfl

/-- A check that holds reads nothing. -/
lemma Reads.guard_bind {c : Prop} [Decidable c] {e : ε} {g : Unit → Reader ε β} (h : c)
    (hg : Reads (g ()) b v) : Reads (guard c e >>= g) b v :=
  (reads_guard h).bind hg

/-- Reading to the end of the string. -/
lemma Reads.bind_eof {e : ε} (hp : Reads p a w) :
    (do let x ← p; eof e; return x : Reader ε α) w = .ok (a, []) := by
  have h := hp.bind_apply (f := fun x => do eof e; return x) []
  rw [List.append_nil] at h
  rw [h]
  rfl

/-! ## What a reader refuses -/

/-- `p` refuses whatever starts with `w`. -/
def Refuses (p : Reader ε α) (w : Bytes) : Prop := ∀ rest, ∃ e, p (w ++ rest) = .error e

lemma Reads.bind_refuses (hp : Reads p a w) (hf : Refuses (f a) v) : Refuses (p >>= f) (w ++ v) := by
  intro rest
  rw [List.append_assoc, hp.bind_apply]
  exact hf rest

lemma Refuses.bind (hp : Refuses p w) : Refuses (p >>= f) w := by
  intro rest
  obtain ⟨e, he⟩ := hp rest
  refine ⟨e, ?_⟩
  change (p (w ++ rest) >>= fun x => f x.1 x.2) = _
  rw [he]
  rfl

lemma Refuses.append (hp : Refuses p w) : Refuses p (w ++ v) := by
  intro rest
  rw [List.append_assoc]
  exact hp _

lemma refuses_guard {c : Prop} [Decidable c] {e : ε} (h : ¬ c) : Refuses (guard c e) w := by
  intro rest
  rw [guard, if_neg h]
  exact ⟨e, rfl⟩

/-! ## What a reader accepts -/

/-- Whatever `p` accepts starts with a part that `p` reads. -/
def Exact (p : Reader ε α) : Prop :=
  ∀ s a rest, p s = .ok (a, rest) → ∃ w, s = w ++ rest ∧ Reads p a w

/-- Inversion of a sequence. -/
lemma bind_eq_ok {s : Bytes} {r : β × Bytes} (h : (p >>= f) s = .ok r) :
    ∃ a s', p s = .ok (a, s') ∧ f a s' = .ok r := by
  change (p s >>= fun x => f x.1 x.2) = _ at h
  cases hp : p s with
  | error e =>
    rw [hp] at h
    cases h
  | ok x =>
    rw [hp] at h
    exact ⟨x.1, x.2, rfl, h⟩

lemma pure_eq_ok {s : Bytes} {r : α × Bytes} (h : (pure a : Reader ε α) s = .ok r) :
    r = (a, s) := by
  cases h
  rfl

lemma exact_pure (a : α) : Exact (pure a : Reader ε α) := by
  rintro s a' rest h
  cases h
  exact ⟨[], rfl, reads_pure a⟩

lemma Exact.bind (hp : Exact p) (hf : ∀ a, Exact (f a)) : Exact (p >>= f) := by
  intro s b rest h
  obtain ⟨a, s', ha, hb⟩ := bind_eq_ok h
  obtain ⟨w, rfl, hw⟩ := hp _ _ _ ha
  obtain ⟨v, rfl, hv⟩ := hf a _ _ _ hb
  exact ⟨w ++ v, (List.append_assoc w v rest).symm, hw.bind hv⟩

lemma take_eq_ok {e : ε} {n : ℕ} {s t rest : Bytes} (h : take e n s = .ok (t, rest)) :
    s = t ++ rest ∧ t.length = n := by
  unfold take at h
  split at h
  · cases h
  · rename_i hlen
    cases h
    exact ⟨(List.take_append_drop n s).symm, by rw [List.length_take]; omega⟩

lemma exact_take {e : ε} {n : ℕ} : Exact (take e n) := by
  intro s t rest h
  obtain ⟨rfl, hlen⟩ := take_eq_ok h
  exact ⟨t, rfl, reads_take hlen⟩

lemma byte_eq_ok {e : ε} {s rest : Bytes} {x : UInt8} (h : byte e s = .ok (x, rest)) :
    s = x :: rest := by
  cases s with
  | nil => cases h
  | cons y s => cases h; rfl

lemma exact_byte {e : ε} : Exact (byte e) := by
  intro s x rest h
  exact ⟨[x], byte_eq_ok h, reads_byte x⟩

lemma array_eq_ok {e : ε} {n : ℕ} {s rest : Bytes} {x : ByteVec n}
    (h : array e n s = .ok (x, rest)) : s = x.bytes ++ rest := by
  unfold array at h
  split at h
  · cases h
    exact (List.take_append_drop n s).symm
  · cases h

/-- Each of many values was read somewhere. -/
lemma times_eq_ok {n : ℕ} {s : Bytes} {r : List α × Bytes} (h : times p n s = .ok r) :
    ∀ a ∈ r.1, ∃ t rest, p t = .ok (a, rest) := by
  induction n generalizing s r with
  | zero =>
    obtain rfl := pure_eq_ok h
    simp
  | succ n ih =>
    obtain ⟨a, t, ha, h⟩ := bind_eq_ok h
    obtain ⟨as, u, has, h⟩ := bind_eq_ok h
    obtain rfl := pure_eq_ok h
    intro b hb
    rcases List.mem_cons.mp hb with rfl | hb
    · exact ⟨s, t, ha⟩
    · exact ih has b hb

lemma guard_eq_ok {c : Prop} [Decidable c] {e : ε} {s : Bytes} {r : Unit × Bytes}
    (h : guard c e s = .ok r) : c ∧ r = ((), s) := by
  unfold guard at h
  split at h
  · rename_i hc
    cases h
    exact ⟨hc, rfl⟩
  · cases h

lemma eof_eq_ok {e : ε} {s : Bytes} {r : Unit × Bytes} (h : eof e s = .ok r) :
    s = [] ∧ r = ((), []) := by
  unfold eof at h
  split at h
  · rename_i hs
    cases h
    rw [List.isEmpty_iff] at hs
    subst hs
    exact ⟨rfl, rfl⟩
  · cases h

/-- Reading to the end accepts a whole string. -/
lemma bind_eof_eq_ok {e : ε} {s : Bytes} {r : α × Bytes}
    (h : (do let x ← p; eof e; return x : Reader ε α) s = .ok r) : p s = .ok (r.1, []) := by
  obtain ⟨a, s', ha, h⟩ := bind_eq_ok h
  obtain ⟨u, t, heof, h⟩ := bind_eq_ok h
  obtain ⟨rfl, -⟩ := eof_eq_ok heof
  obtain rfl := pure_eq_ok h
  exact ha

/-! ## What was written -/

/-- Whatever `p` accepts starts with what `enc` writes for the value. -/
def Inverts (p : Reader ε α) (enc : α → Bytes) : Prop :=
  ∀ s a rest, p s = .ok (a, rest) → s = enc a ++ rest

lemma inverts_array {e : ε} {n : ℕ} : Inverts (array e n) ByteVec.bytes :=
  fun _ _ _ h => array_eq_ok h

/-- Values read one after the other were written one after the other. -/
lemma Inverts.times {enc : α → Bytes} (hp : Inverts p enc) {n : ℕ} {s rest : Bytes} {as : List α}
    (h : Reader.times p n s = .ok (as, rest)) : as.length = n ∧ s = as.flatMap enc ++ rest := by
  induction n generalizing s as with
  | zero =>
    cases pure_eq_ok h
    exact ⟨rfl, rfl⟩
  | succ n ih =>
    obtain ⟨a, t, ha, h⟩ := bind_eq_ok h
    obtain ⟨bs, u, hbs, h⟩ := bind_eq_ok h
    cases pure_eq_ok h
    obtain ⟨hlength, rfl⟩ := ih hbs
    refine ⟨by rw [List.length_cons, hlength], ?_⟩
    rw [hp _ _ _ ha, List.flatMap_cons, List.append_assoc]

/-! ## Steps that read nothing -/

/-- A computation between two reads. -/
def lift (x : Except ε α) : Reader ε α := fun s => x.map fun a => (a, s)

lemma reads_lift {x : Except ε α} (h : x = .ok a) : Reads (lift x) a [] := by
  subst h
  exact fun _ => rfl

lemma lift_eq_ok {x : Except ε α} {s : Bytes} {r : α × Bytes} (h : lift x s = .ok r) :
    x = .ok r.1 ∧ r.2 = s := by
  cases x with
  | error e => cases h
  | ok a =>
    cases h
    exact ⟨rfl, rfl⟩

end Reader

end Pickaxe.Lib
