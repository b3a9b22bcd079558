/-
# Ordered maps

Finite maps as association lists in the order of their keys; the order is part of the type,
so a key stands in a map at most once.  Everything about a map follows from what it finds
under a key: the lemmas say what each operation does to `find?`.
-/
import Pickaxe.Lib.Result
import Mathlib.Data.List.Basic
import Mathlib.Data.List.Nodup
import Mathlib.Data.List.Pairwise
import Mathlib.Order.Basic
import Mathlib.Order.Defs.LinearOrder
import Mathlib.Order.Lattice

namespace Pickaxe.Lib

/-- Machine words in their own order. -/
instance instLinearOrderUInt32 : LinearOrder UInt32 where
  le_refl := UInt32.le_refl
  le_trans _ _ _ := UInt32.le_trans
  le_antisymm _ _ := UInt32.le_antisymm
  le_total := UInt32.le_total
  lt_iff_le_not_ge a b := by
    simp only [UInt32.lt_iff_toNat_lt, UInt32.le_iff_toNat_le]
    omega
  toDecidableLE := inferInstance
  toDecidableEq := inferInstance
  toDecidableLT := inferInstance
  min_def _ _ := rfl
  max_def _ _ := rfl
  compare_eq_compareOfLessAndEq _ _ := rfl

/-- A finite map with its entries in the order of the keys. -/
@[ext] structure OrdMap (K V : Type) [LinearOrder K] where
  entries : List (K × V)
  /-- The keys are in strict order. -/
  sorted : entries.Pairwise fun a b => a.1 < b.1

/-- Where only the element with one key gives something, that is all there is. -/
lemma flatMap_eq_of_key {α β κ : Type} {l : List α} {f : α → List β} {a : α} (key : α → κ)
    (hnodup : (l.map key).Nodup) (ha : a ∈ l) (h : ∀ b ∈ l, key b ≠ key a → f b = []) :
    l.flatMap f = f a := by
  induction l with
  | nil => cases ha
  | cons b rest ih =>
    rw [List.map_cons, List.nodup_cons] at hnodup
    rw [List.flatMap_cons]
    rcases List.mem_cons.mp ha with rfl | ha
    · have hrest : rest.flatMap f = [] := by
        rw [List.flatMap_eq_nil_iff]
        intro b hb
        apply h b (List.mem_cons_of_mem _ hb)
        intro heq
        exact hnodup.1 (heq ▸ List.mem_map_of_mem hb)
      rw [hrest, List.append_nil]
    · have hb : key b ≠ key a := by
        intro heq
        exact hnodup.1 (heq ▸ List.mem_map_of_mem ha)
      rw [h b List.mem_cons_self hb, List.nil_append]
      exact ih hnodup.2 ha fun b hb => h b (List.mem_cons_of_mem _ hb)

namespace OrdMap

variable {K V W : Type} [LinearOrder K]

instance [DecidableEq V] : DecidableEq (OrdMap K V) := fun m n =>
  decidable_of_iff (m.entries = n.entries) OrdMap.ext_iff.symm

/-- The map without entries. -/
def empty : OrdMap K V := ⟨[], List.Pairwise.nil⟩

instance : Inhabited (OrdMap K V) := ⟨empty⟩

/-- What stands under a key. -/
def find? (m : OrdMap K V) (k : K) : Option V :=
  (m.entries.find? fun e => e.1 = k).map Prod.snd

/-- The keys, in order. -/
def keys (m : OrdMap K V) : List K := m.entries.map Prod.fst

/-- The values, in the order of their keys. -/
def values (m : OrdMap K V) : List V := m.entries.map Prod.snd

/-- How many entries there are. -/
def size (m : OrdMap K V) : ℕ := m.entries.length

/-- Insertion into a list of entries, in place of an entry with the same key. -/
def insertEntry (k : K) (v : V) : List (K × V) → List (K × V)
  | [] => [(k, v)]
  | e :: rest =>
    if k < e.1 then (k, v) :: e :: rest
    else if k = e.1 then (k, v) :: rest
    else e :: insertEntry k v rest

lemma mem_insertEntry {k : K} {v : V} {e : K × V} {l : List (K × V)}
    (h : e ∈ insertEntry k v l) : e = (k, v) ∨ e ∈ l := by
  induction l with
  | nil => exact Or.inl (List.mem_singleton.mp h)
  | cons a rest ih =>
    rw [insertEntry] at h
    split_ifs at h with h1 h2
    · rcases List.mem_cons.mp h with rfl | h
      · exact Or.inl rfl
      · exact Or.inr h
    · rcases List.mem_cons.mp h with rfl | h
      · exact Or.inl rfl
      · exact Or.inr (List.mem_cons_of_mem _ h)
    · rcases List.mem_cons.mp h with rfl | h
      · exact Or.inr List.mem_cons_self
      · rcases ih h with rfl | h
        · exact Or.inl rfl
        · exact Or.inr (List.mem_cons_of_mem _ h)

lemma sorted_insertEntry (k : K) (v : V) {l : List (K × V)}
    (h : l.Pairwise fun a b => a.1 < b.1) :
    (insertEntry k v l).Pairwise fun a b => a.1 < b.1 := by
  induction l with
  | nil => exact List.pairwise_singleton _ _
  | cons a rest ih =>
    rw [List.pairwise_cons] at h
    rw [insertEntry]
    split_ifs with h1 h2
    · -- before the first entry
      refine List.pairwise_cons.mpr ⟨fun e he => ?_, List.pairwise_cons.mpr h⟩
      rcases List.mem_cons.mp he with rfl | he
      · exact h1
      · exact h1.trans (h.1 e he)
    · -- in its place
      exact List.pairwise_cons.mpr ⟨fun e he => h2 ▸ h.1 e he, h.2⟩
    · -- behind it
      refine List.pairwise_cons.mpr ⟨fun e he => ?_, ih h.2⟩
      rcases mem_insertEntry he with rfl | he
      · exact lt_of_le_of_ne (not_lt.mp h1) (Ne.symm h2)
      · exact h.1 e he

/-- Writes a value under a key. -/
def insert (m : OrdMap K V) (k : K) (v : V) : OrdMap K V :=
  ⟨insertEntry k v m.entries, sorted_insertEntry k v m.sorted⟩

/-- Removes a key. -/
def erase (m : OrdMap K V) (k : K) : OrdMap K V :=
  ⟨m.entries.filter fun e => e.1 ≠ k, m.sorted.sublist List.filter_sublist⟩

/-- Keeps the entries that satisfy a condition. -/
def filter (m : OrdMap K V) (p : K → V → Bool) : OrdMap K V :=
  ⟨m.entries.filter fun e => p e.1 e.2, m.sorted.sublist List.filter_sublist⟩

/-- Changes every value. -/
def mapValues (f : K → V → W) (m : OrdMap K V) : OrdMap K W :=
  ⟨m.entries.map fun e => (e.1, f e.1 e.2), List.pairwise_map.mpr m.sorted⟩

/-- Changes every value in the order of the keys, with a state; the first error ends it. -/
def mapEntriesM {ε σ : Type} (f : σ → K → V → Except ε (W × σ)) :
    σ → List (K × V) → Except ε (List (K × W) × σ)
  | s, [] => .ok ([], s)
  | s, e :: rest => do
    let (w, s) ← f s e.1 e.2
    let (rest, s) ← mapEntriesM f s rest
    .ok ((e.1, w) :: rest, s)

omit [LinearOrder K] in
lemma mapEntriesM_keys {ε σ : Type} {f : σ → K → V → Except ε (W × σ)} {s s' : σ}
    {l : List (K × V)} {l' : List (K × W)} (h : mapEntriesM f s l = .ok (l', s')) :
    l'.map Prod.fst = l.map Prod.fst := by
  induction l generalizing s l' with
  | nil =>
    cases h
    rfl
  | cons e rest ih =>
    obtain ⟨⟨w, s1⟩, -, h⟩ := Except.bind_eq_ok.mp h
    obtain ⟨⟨tail, s2⟩, htail, h⟩ := Except.bind_eq_ok.mp h
    cases h
    rw [List.map_cons, List.map_cons, ih htail]

/-- `mapEntriesM` on a map: the keys stay as they are. -/
def mapM {ε σ : Type} (f : σ → K → V → Except ε (W × σ)) (s : σ) (m : OrdMap K V) :
    Except ε (OrdMap K W × σ) :=
  match h : mapEntriesM f s m.entries with
  | .error e => .error e
  | .ok (l, s') => .ok (⟨l, by
      have hkeys := mapEntriesM_keys h
      have hsorted : (l.map Prod.fst).Pairwise (· < ·) := by
        rw [hkeys, List.pairwise_map]
        exact m.sorted
      rwa [List.pairwise_map] at hsorted⟩, s')

/-! ## What an operation does to `find?` -/

lemma mem_entries {m : OrdMap K V} {k : K} {v : V} : (k, v) ∈ m.entries ↔ m.find? k = some v := by
  obtain ⟨l, hl⟩ := m
  unfold find?
  induction l with
  | nil => simp
  | cons e rest ih =>
    rw [List.pairwise_cons] at hl
    obtain ⟨a, w⟩ := e
    by_cases ha : a = k
    · subst ha
      simp only [List.mem_cons, List.find?_cons, decide_true, Option.map_some, Option.some.injEq,
        Prod.mk.injEq, true_and]
      constructor
      · rintro (rfl | hmem)
        · rfl
        · exact absurd (hl.1 _ hmem) (lt_irrefl _)
      · rintro rfl
        exact Or.inl rfl
    · simp only [List.mem_cons, List.find?_cons, ha, decide_false, Prod.mk.injEq]
      rw [← ih hl.2]
      constructor
      · rintro (⟨rfl, -⟩ | hmem)
        · exact absurd rfl ha
        · exact hmem
      · exact Or.inr

@[simp] lemma find?_empty (k : K) : (empty : OrdMap K V).find? k = none := rfl

lemma find?_insert (m : OrdMap K V) (k : K) (v : V) (k' : K) :
    (m.insert k v).find? k' = if k' = k then some v else m.find? k' := by
  obtain ⟨l, hl⟩ := m
  unfold find? insert
  simp only
  induction l with
  | nil =>
    by_cases h : k' = k
    · simp [insertEntry, h]
    · simp [insertEntry, h, Ne.symm h]
  | cons e rest ih =>
    have hrest := ih (List.pairwise_cons.mp hl).2
    rw [insertEntry]
    by_cases h1 : k < e.1
    · -- before the first entry
      rw [if_pos h1, List.find?_cons]
      by_cases hk : k' = k
      · simp [hk]
      · simp [hk, Ne.symm hk]
    · rw [if_neg h1]
      by_cases h2 : k = e.1
      · -- in its place
        rw [if_pos h2, List.find?_cons, List.find?_cons]
        by_cases hk : k' = k
        · simp [hk]
        · simp [hk, Ne.symm hk, ← h2]
      · -- behind it
        rw [if_neg h2, List.find?_cons, List.find?_cons]
        by_cases h4 : e.1 = k'
        · have hne : k' ≠ k := fun h => h2 (h4.trans h).symm
          simp [h4, hne]
        · simpa [h4] using hrest

@[simp] lemma find?_insert_self (m : OrdMap K V) (k : K) (v : V) :
    (m.insert k v).find? k = some v := by
  rw [find?_insert, if_pos rfl]

lemma find?_insert_of_ne (m : OrdMap K V) {k k' : K} (v : V) (h : k' ≠ k) :
    (m.insert k v).find? k' = m.find? k' := by
  rw [find?_insert, if_neg h]

/-- Writing what is there already changes nothing. -/
lemma insert_eq_self {m : OrdMap K V} {k : K} {v : V} (h : m.find? k = some v) :
    m.insert k v = m := by
  obtain ⟨l, hl⟩ := m
  have hmem : (k, v) ∈ l := (mem_entries (m := ⟨l, hl⟩)).mpr h
  apply OrdMap.ext
  change insertEntry k v l = l
  clear h
  induction l with
  | nil => cases hmem
  | cons e rest ih =>
    rw [List.pairwise_cons] at hl
    rw [insertEntry]
    rcases List.mem_cons.mp hmem with rfl | hmem
    · simp
    · have hlt : e.1 < k := hl.1 _ hmem
      rw [if_neg (not_lt.mpr hlt.le), if_neg (ne_of_gt hlt), ih hl.2 hmem]

lemma find?_erase (m : OrdMap K V) (k k' : K) :
    (m.erase k).find? k' = if k' = k then none else m.find? k' := by
  unfold find? erase
  rw [List.find?_filter]
  split_ifs with h
  · subst h
    rw [Option.map_eq_none_iff, List.find?_eq_none]
    intro e _
    simp
  · congr 2
    funext e
    by_cases he : e.1 = k'
    · simp [he, h]
    · simp [he]

lemma find?_mapValues (f : K → V → W) (m : OrdMap K V) (k : K) :
    (m.mapValues f).find? k = (m.find? k).map (f k) := by
  unfold find? mapValues
  rw [List.find?_map, Option.map_map, Option.map_map]
  cases h : m.entries.find? fun e => e.1 = k with
  | none =>
    rw [show ((fun e : K × W => decide (e.1 = k)) ∘ fun e : K × V => (e.1, f e.1 e.2)) =
      fun e => decide (e.1 = k) from rfl, h]
    rfl
  | some e =>
    have hk : e.1 = k := by simpa using List.find?_some h
    rw [show ((fun e : K × W => decide (e.1 = k)) ∘ fun e : K × V => (e.1, f e.1 e.2)) =
      fun e => decide (e.1 = k) from rfl, h]
    simp [hk]

lemma find?_filter (m : OrdMap K V) (p : K → V → Bool) (k : K) :
    (m.filter p).find? k = (m.find? k).filter (p k) := by
  apply Option.ext
  intro v
  rw [← mem_entries, Option.filter_eq_some_iff, ← mem_entries]
  exact List.mem_filter

lemma keys_mapValues (f : K → V → W) (m : OrdMap K V) : (m.mapValues f).keys = m.keys := by
  simp [keys, mapValues]

lemma mapM_eq_ok {ε σ : Type} {f : σ → K → V → Except ε (W × σ)} {s s' : σ} {m : OrdMap K V}
    {m' : OrdMap K W} (h : m.mapM f s = .ok (m', s')) :
    mapEntriesM f s m.entries = .ok (m'.entries, s') := by
  unfold mapM at h
  split at h
  · cases h
  · rename_i l s1 hl
    cases h
    exact hl

lemma keys_mapM {ε σ : Type} {f : σ → K → V → Except ε (W × σ)} {s s' : σ} {m : OrdMap K V}
    {m' : OrdMap K W} (h : m.mapM f s = .ok (m', s')) : m'.keys = m.keys :=
  mapEntriesM_keys (mapM_eq_ok h)

/-- Each value comes from the one under its key, at a state the loop has reached. -/
lemma find?_mapM {ε σ : Type} {f : σ → K → V → Except ε (W × σ)} {s s' : σ} {m : OrdMap K V}
    {m' : OrdMap K W} (P : σ → Prop) (hstart : P s)
    (hstep : ∀ s k v w s', P s → f s k v = .ok (w, s') → P s') (h : m.mapM f s = .ok (m', s')) :
    P s' ∧ ∀ k w, m'.find? k = some w →
      ∃ v s1 s2, m.find? k = some v ∧ P s1 ∧ f s1 k v = .ok (w, s2) := by
  have hlist : ∀ (l : List (K × V)) (l' : List (K × W)) (s s' : σ), P s →
      mapEntriesM f s l = .ok (l', s') → P s' ∧ ∀ k w, (k, w) ∈ l' →
        ∃ v s1 s2, (k, v) ∈ l ∧ P s1 ∧ f s1 k v = .ok (w, s2) := by
    intro l
    induction l with
    | nil =>
      intro l' s s' hs h
      cases h
      exact ⟨hs, fun k w hmem => by cases hmem⟩
    | cons e rest ih =>
      intro l' s s' hs h
      obtain ⟨⟨w, s1⟩, hw, h⟩ := Except.bind_eq_ok.mp h
      obtain ⟨⟨tail, s2⟩, htail, h⟩ := Except.bind_eq_ok.mp h
      cases h
      obtain ⟨hs2, hrest⟩ := ih tail s1 _ (hstep _ _ _ _ _ hs hw) htail
      refine ⟨hs2, fun k u hmem => ?_⟩
      rcases List.mem_cons.mp hmem with heq | hmem
      · obtain ⟨rfl, rfl⟩ := Prod.mk.inj heq
        exact ⟨e.2, s, s1, List.mem_cons_self, hs, hw⟩
      · obtain ⟨v, t1, t2, hv, ht1, hf⟩ := hrest k u hmem
        exact ⟨v, t1, t2, List.mem_cons_of_mem _ hv, ht1, hf⟩
  obtain ⟨hs', hall⟩ := hlist _ _ _ _ hstart (mapM_eq_ok h)
  refine ⟨hs', fun k w hfind => ?_⟩
  obtain ⟨v, s1, s2, hv, hs1, hf⟩ := hall k w (mem_entries.mpr hfind)
  exact ⟨v, s1, s2, mem_entries.mp hv, hs1, hf⟩

lemma mem_keys {m : OrdMap K V} {k : K} : k ∈ m.keys ↔ ∃ v, m.find? k = some v := by
  unfold keys
  rw [List.mem_map]
  constructor
  · rintro ⟨⟨a, v⟩, hmem, rfl⟩
    exact ⟨v, mem_entries.mp hmem⟩
  · rintro ⟨v, hv⟩
    exact ⟨(k, v), mem_entries.mpr hv, rfl⟩

lemma mem_values {m : OrdMap K V} {v : V} : v ∈ m.values ↔ ∃ k, m.find? k = some v := by
  unfold values
  rw [List.mem_map]
  constructor
  · rintro ⟨⟨a, w⟩, hmem, rfl⟩
    exact ⟨a, mem_entries.mp hmem⟩
  · rintro ⟨k, hk⟩
    exact ⟨(k, v), mem_entries.mpr hk, rfl⟩

lemma nodup_keys (m : OrdMap K V) : m.keys.Nodup := by
  unfold keys
  rw [List.Nodup, List.pairwise_map]
  exact m.sorted.imp fun h => ne_of_lt h

/-- Two maps with the same keys have them in the same order. -/
lemma keys_eq_of_mem {m : OrdMap K V} {n : OrdMap K W} (h : ∀ k, k ∈ m.keys ↔ k ∈ n.keys) :
    m.keys = n.keys := by
  have hm : m.keys.Pairwise (· < ·) := List.pairwise_map.mpr m.sorted
  have hn : n.keys.Pairwise (· < ·) := List.pairwise_map.mpr n.sorted
  exact List.Perm.eq_of_pairwise (fun a b _ _ hab hba => absurd hba (lt_asymm hab)) hm hn
    ((List.perm_ext_iff_of_nodup m.nodup_keys n.nodup_keys).mpr h)

lemma mem_keys_insert {m : OrdMap K V} {k k' : K} {v : V} :
    k' ∈ (m.insert k v).keys ↔ k' = k ∨ k' ∈ m.keys := by
  rw [mem_keys, mem_keys]
  by_cases h : k' = k
  · subst h
    simp
  · simp [find?_insert_of_ne m v h, h]

lemma mem_keys_erase {m : OrdMap K V} {k k' : K} :
    k' ∈ (m.erase k).keys ↔ k' ≠ k ∧ k' ∈ m.keys := by
  rw [mem_keys, mem_keys, find?_erase]
  by_cases h : k' = k <;> simp [h]

/-- Some keys removed, one after the other. -/
lemma find?_foldl_erase (m : OrdMap K V) (gone : List K) (k : K) :
    (gone.foldl (fun m k => m.erase k) m).find? k = if k ∈ gone then none else m.find? k := by
  induction gone generalizing m with
  | nil => rfl
  | cons a rest ih =>
    rw [List.foldl_cons, ih, find?_erase]
    by_cases ha : k = a
    · simp [ha]
    · simp [ha]

lemma mem_keys_foldl_erase {m : OrdMap K V} {gone : List K} {k : K} :
    k ∈ (gone.foldl (fun m k => m.erase k) m).keys ↔ k ∉ gone ∧ k ∈ m.keys := by
  rw [mem_keys, mem_keys, find?_foldl_erase]
  by_cases h : k ∈ gone <;> simp [h]

lemma size_ne_zero {m : OrdMap K V} : m.size ≠ 0 ↔ m.keys ≠ [] := by
  simp [size, keys]

lemma size_filter_le (m : OrdMap K V) (p : K → V → Bool) : (m.filter p).size ≤ m.size :=
  List.length_filter_le _ _

lemma size_insert_le (m : OrdMap K V) (k : K) (v : V) : (m.insert k v).size ≤ m.size + 1 := by
  show (insertEntry k v m.entries).length ≤ m.entries.length + 1
  induction m.entries with
  | nil => simp [insertEntry]
  | cons e rest ih =>
    rw [insertEntry]
    split_ifs
    · simp
    · simp
    · simp only [List.length_cons]
      omega

/-- Taking a key out of a map that has it makes the map smaller. -/
lemma size_erase_lt {m : OrdMap K V} {k : K} {v : V} (h : m.find? k = some v) :
    (m.erase k).size < m.size := by
  refine List.length_filter_lt_length_iff_exists.mpr ⟨(k, v), mem_entries.mpr h, ?_⟩
  simp

end OrdMap

end Pickaxe.Lib
