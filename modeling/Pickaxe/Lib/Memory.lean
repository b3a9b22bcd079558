/-
# Buffers and launches

A buffer is read and written by offsets.  A launch runs one thread after the other, each on its own
part of a state: where no thread touches the part of another, every order of the threads leaves the
same in each part.
-/
import Pickaxe.Lib.Bytes
import Pickaxe.Lib.Words
import Mathlib.Data.List.GetD

namespace Pickaxe.Lib

/-- A buffer. -/
def Memory (α : Type) := ℕ → α

namespace Memory

variable {α : Type}

/-- Cells of a buffer, from an offset on. -/
def read (m : Memory α) (at_ n : ℕ) : List.Vector α n := .ofFn fun i => m (at_ + i)

/-- A buffer with cells written from an offset on. -/
def write (m : Memory α) (at_ : ℕ) (data : List α) : Memory α := fun i =>
  if at_ ≤ i then data[i - at_]?.getD (m i) else m i

lemma write_of_lt (m : Memory α) (data : List α) {at_ i : ℕ} (h : i < at_) :
    m.write at_ data i = m i := by
  rw [write, if_neg (by omega)]

lemma write_of_le (m : Memory α) (data : List α) {at_ i : ℕ} (h : at_ + data.length ≤ i) :
    m.write at_ data i = m i := by
  rw [write, List.getElem?_eq_none (by omega), Option.getD_none, ite_self]

lemma write_add (m : Memory α) (at_ : ℕ) (data : List α) {i : ℕ} (h : i < data.length) :
    m.write at_ data (at_ + i) = data[i] := by
  rw [write, if_pos (by omega), Nat.add_sub_cancel_left, List.getElem?_eq_getElem h,
    Option.getD_some]

lemma read_congr {m m' : Memory α} {at_ n : ℕ} (h : ∀ i < n, m (at_ + i) = m' (at_ + i)) :
    m.read at_ n = m'.read at_ n := by
  rw [read, read]
  congr 1
  funext i
  exact h i i.isLt

/-- What was written is read. -/
@[simp] lemma read_write_self (m : Memory α) (at_ : ℕ) {n : ℕ} (v : List.Vector α n) :
    (m.write at_ v.toList).read at_ n = v := by
  apply List.Vector.ext
  intro i
  rw [read, List.Vector.get_ofFn, write_add m at_ v.toList (by simp), List.Vector.get_eq_get_toList]
  rfl

/-- What lies before or after a write is read as before. -/
lemma read_write_of_disjoint (m : Memory α) {data : List α} {at_ b n : ℕ}
    (h : b + n ≤ at_ ∨ at_ + data.length ≤ b) : (m.write at_ data).read b n = m.read b n := by
  refine read_congr fun i hi => ?_
  rcases h with h | h
  · exact write_of_lt m data (by omega)
  · exact write_of_le m data (by omega)

/-- A write in two parts. -/
lemma write_append (m : Memory α) (at_ : ℕ) (a b : List α) :
    m.write at_ (a ++ b) = (m.write at_ a).write (at_ + a.length) b := by
  funext i
  rcases Nat.lt_or_ge i at_ with hlt | hge
  · rw [write_of_lt _ _ hlt, write_of_lt _ _ (by omega), write_of_lt _ _ hlt]
  obtain ⟨k, rfl⟩ := Nat.exists_eq_add_of_le hge
  rcases Nat.lt_or_ge k a.length with ha | ha
  · rw [write_add _ _ _ (by rw [List.length_append]; omega), write_of_lt _ _ (by omega),
      write_add _ _ _ ha, List.getElem_append_left ha]
  rcases Nat.lt_or_ge k (a.length + b.length) with hb | hb
  · obtain ⟨j, rfl⟩ := Nat.exists_eq_add_of_le ha
    rw [write_add _ _ _ (by rw [List.length_append]; omega), ← Nat.add_assoc,
      write_add _ _ _ (by omega), List.getElem_append_right ha]
    congr 1
    omega
  · rw [write_of_le _ _ (by rw [List.length_append]; omega), write_of_le _ _ (by omega),
      write_of_le _ _ (by omega)]

/-- A buffer by its first cells. -/
def ofList [Inhabited α] (l : List α) : Memory α := fun i => l.getD i default

lemma ofList_read [Inhabited α] (m : Memory α) {n i : ℕ} (h : i < n) :
    ofList (m.read 0 n).toList i = m i := by
  have hlen : i < (m.read 0 n).toList.length := by simpa using h
  rw [ofList, List.getD_eq_getElem _ _ hlen]
  have hget := List.Vector.get_eq_get_toList (m.read 0 n) ⟨i, h⟩
  rw [read, List.Vector.get_ofFn, Nat.zero_add] at hget
  exact hget.symm

/-- Bytes of a buffer, from an offset on. -/
def readBytes (m : Memory UInt8) (at_ n : ℕ) : ByteVec n :=
  ⟨(m.read at_ n).toList, List.Vector.toList_length _⟩

@[simp] lemma readBytes_write_self (m : Memory UInt8) (at_ : ℕ) {n : ℕ} (v : ByteVec n) :
    (m.write at_ v.bytes).readBytes at_ n = v := by
  have h := read_write_self m at_ (⟨v.bytes, v.length_bytes⟩ : List.Vector UInt8 n)
  exact ByteVec.ext (congrArg List.Vector.toList h)

lemma readBytes_write_of_disjoint (m : Memory UInt8) {data : Bytes} {at_ b n : ℕ}
    (h : b + n ≤ at_ ∨ at_ + data.length ≤ b) :
    (m.write at_ data).readBytes b n = m.readBytes b n :=
  ByteVec.ext (congrArg List.Vector.toList (read_write_of_disjoint m h))

/-- The words of a buffer of bytes, little-endian. -/
def words (m : Memory UInt8) : Memory UInt32 := fun i => u32OfLe (m.read (4 * i) 4).toList

lemma words_congr {m m' : Memory UInt8} {i : ℕ} (h : ∀ k < 4, m (4 * i + k) = m' (4 * i + k)) :
    m.words i = m'.words i := by
  rw [words, words, read_congr h]

lemma words_write_u32Le (m : Memory UInt8) (at_ : ℕ) (x : UInt32) :
    (m.write (4 * at_) (u32Le x)).words = m.words.write at_ [x] := by
  funext i
  rcases Nat.lt_trichotomy i at_ with hlt | rfl | hgt
  · rw [write_of_lt _ _ hlt]
    exact words_congr fun k hk => write_of_lt _ _ (by omega)
  · have hwrite := write_add m.words i [x] (i := 0) (by simp)
    rw [Nat.add_zero] at hwrite
    have hread := read_write_self m (4 * i) (⟨u32Le x, length_u32Le x⟩ : List.Vector UInt8 4)
    rw [List.Vector.toList_mk] at hread
    rw [hwrite, words, hread, List.Vector.toList_mk, u32OfLe_u32Le]
    rfl
  · rw [write_of_le _ _ (by rw [List.length_singleton]; exact hgt)]
    exact words_congr fun k hk => write_of_le _ _ (by rw [length_u32Le]; omega)

/-- Words written as bytes. -/
lemma words_write (m : Memory UInt8) (at_ : ℕ) (l : List UInt32) :
    (m.write (4 * at_) (l.flatMap u32Le)).words = m.words.write at_ l := by
  induction l generalizing m at_ with
  | nil =>
    funext i
    rw [List.flatMap_nil, words_congr fun k _ => by
      rcases Nat.lt_or_ge (4 * i + k) (4 * at_) with h | h
      · exact write_of_lt _ _ h
      · exact write_of_le _ _ (by simpa using h)]
    rcases Nat.lt_or_ge i at_ with h | h
    · rw [write_of_lt _ _ h]
    · rw [write_of_le _ _ (by simpa using h)]
  | cons x l ih =>
    have hword : m.words.write at_ (x :: l) = (m.words.write at_ [x]).write (at_ + 1) l :=
      write_append _ _ [x] l
    rw [List.flatMap_cons, write_append, length_u32Le, show 4 * at_ + 4 = 4 * (at_ + 1) by ring, ih,
      words_write_u32Le, hword]

end Memory

/-! ## Launches -/

section Launch

variable {ι σ β : Type} {step : σ → ι → σ} (view : ι → σ → β)

/-- Threads that are not run leave a part as it was. -/
lemma view_launch_of_notMem (hother : ∀ t t' s, t ≠ t' → view t (step s t') = view t s) {t : ι}
    {order : List ι} (h : t ∉ order) (s : σ) : view t (order.foldl step s) = view t s := by
  induction order generalizing s with
  | nil => rfl
  | cons t' order ih =>
    rw [List.mem_cons, not_or] at h
    rw [List.foldl_cons, ih h.2, hother t t' s h.1]

/-- A thread that is run once does to its part what it does alone. -/
theorem view_launch (effect : ι → β → β)
    (hother : ∀ t t' s, t ≠ t' → view t (step s t') = view t s)
    (hself : ∀ t s, view t (step s t) = effect t (view t s)) {order : List ι}
    (hnodup : order.Nodup) {t : ι} (h : t ∈ order) (s : σ) :
    view t (order.foldl step s) = effect t (view t s) := by
  induction order generalizing s with
  | nil => exact absurd h List.not_mem_nil
  | cons t' order ih =>
    rw [List.nodup_cons] at hnodup
    rw [List.foldl_cons]
    rcases List.mem_cons.mp h with rfl | hmem
    · rw [view_launch_of_notMem view hother hnodup.1, hself]
    · have hne : t ≠ t' := by
        rintro rfl
        exact hnodup.1 hmem
      rw [ih hnodup.2 hmem, hother t t' s hne]

/-- What a thread establishes, whatever it starts from, and the others keep, holds after a launch. -/
theorem launch_establishes (right : ι → σ → Prop) (hself : ∀ t s, right t (step s t))
    (hother : ∀ t t' s, t ≠ t' → right t s → right t (step s t')) {order : List ι} {t : ι}
    (h : t ∈ order) (s : σ) : right t (order.foldl step s) := by
  have hkeep : ∀ (l : List ι) (s : σ), right t s → right t (l.foldl step s) := by
    intro l
    induction l with
    | nil => exact fun s hs => hs
    | cons t' l ih =>
      intro s hs
      refine ih _ ?_
      by_cases heq : t = t'
      · exact heq ▸ hself t s
      · exact hother t t' s heq hs
  obtain ⟨before, after, rfl⟩ := List.append_of_mem h
  rw [List.foldl_append, List.foldl_cons]
  exact hkeep after _ (hself t _)

end Launch

section LaunchM

variable {ι σ : Type} {step : σ → ι → Option σ}

/-- The same of threads that may not end. -/
theorem launchM_establishes (right : ι → σ → Prop) (hself : ∀ t s s', step s t = some s' → right t s')
    (hother : ∀ t t' s s', t ≠ t' → right t s → step s t' = some s' → right t s') {order : List ι}
    {t : ι} (h : t ∈ order) {s s' : σ} (hrun : order.foldlM step s = some s') : right t s' := by
  have hkeep : ∀ (l : List ι) (s : σ), right t s → l.foldlM step s = some s' → right t s' := by
    intro l
    induction l with
    | nil =>
      rintro s hs hrun
      obtain rfl := Option.some.inj hrun
      exact hs
    | cons t' l ih =>
      intro s hs hrun
      rw [List.foldlM_cons, Option.bind_eq_bind, Option.bind_eq_some_iff] at hrun
      obtain ⟨s₁, hstep, hrun⟩ := hrun
      refine ih s₁ ?_ hrun
      by_cases heq : t = t'
      · rw [← heq] at hstep
        exact hself t s s₁ hstep
      · exact hother t t' s s₁ heq hs hstep
  induction order generalizing s with
  | nil => exact absurd h List.not_mem_nil
  | cons t' order ih =>
    rw [List.foldlM_cons, Option.bind_eq_bind, Option.bind_eq_some_iff] at hrun
    obtain ⟨s₁, hstep, hrun⟩ := hrun
    rcases List.mem_cons.mp h with rfl | hmem
    · exact hkeep order s₁ (hself t s s₁ hstep) hrun
    · exact ih hmem hrun

/-- A launch ends when its threads do. -/
lemma launchM_ends (hends : ∀ t s, ∃ s', step s t = some s') (order : List ι) (s : σ) :
    ∃ s', order.foldlM step s = some s' := by
  induction order generalizing s with
  | nil => exact ⟨s, rfl⟩
  | cons t order ih =>
    obtain ⟨s₁, hstep⟩ := hends t s
    obtain ⟨s', hrun⟩ := ih s₁
    rw [List.foldlM_cons, hstep]
    exact ⟨s', hrun⟩

end LaunchM

end Pickaxe.Lib
