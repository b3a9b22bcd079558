/-
# The aux tree

One slot per token category, domain-separated SHA-256.  The layout search tries heights and
salts until every category has its own slot; the tree puts each leaf at its slot, zero bytes
elsewhere, and hashes every node above.

The two results used later are `search_spec` (what a found layout is) and `fold_branch`
(folding a leaf from its slot with the tree's branch gives the root), an instance of the
general theorem on Merkle trees.
-/
import Mathlib.Data.List.Perm.Subperm
import Pickaxe.Lib.Merkle
import Pickaxe.Merge.Commitment
import Mathlib.Data.List.Nodup

namespace Pickaxe.Merge

open Lib

/-- At most this many leaves (tokens) in one coinbase. -/
def maxLeaves : ℕ := 16

/-- Salts the builder tries at each height. -/
def salts : ℕ := 2 ^ 16

/-- The domain byte of a node. -/
def nodePrefix : UInt8 := 0x01

/-- The domain byte of a slot. -/
def slotPrefix : UInt8 := 0x02

namespace Tree

variable [Hasher]

/-- The bytes a slot is derived from. -/
def slotSeed (category : Hash) (salt : UInt32) : Bytes :=
  [slotPrefix] ++ u32Le salt ++ category.bytes

/-- `1u32 << height.min(MAX_HEIGHT)`. -/
def slotCount (height : UInt8) : UInt32 := 1 <<< (min height maxHeight).toUInt32

/-- `slot`: the slot of `category` in a tree of height `height` (at most 16). -/
def slot (category : Hash) (salt : UInt32) (height : UInt8) : UInt32 :=
  u32OfLe ((sha256 (slotSeed category salt)).bytes.take 4) &&& (slotCount height - 1)

/-- The bytes of a node: the domain byte and its children. -/
def nodeInput (left right : Hash) : Bytes := nodePrefix :: (left.bytes ++ right.bytes)

/-- `node`: `SHA256(0x01 ‖ left ‖ right)`. -/
def node (left right : Hash) : Hash := sha256 (nodeInput left right)

/-- `fold`: from `leaf` at `slot` up `branch`, as a covenant does. -/
def fold (leaf : Hash) (slot : UInt32) (branch : List Hash) : Hash :=
  Merkle.foldAt node leaf slot.toNat branch

/-- Heights above 16 count as 16. -/
def treeHeight (height : UInt8) : ℕ := min height.toNat 16

omit [Hasher] in
lemma toNat_min (a b : UInt8) : (min a b).toNat = min a.toNat b.toNat := by
  change (if a ≤ b then a else b).toNat = _
  split <;> rename_i h <;> rw [UInt8.le_iff_toNat_le] at h <;> omega

omit [Hasher] in
lemma toNat_slotCount (height : UInt8) : (slotCount height).toNat = 2 ^ treeHeight height := by
  have hmin : (min height maxHeight).toUInt32.toNat = treeHeight height := by
    rw [UInt8.toNat_toUInt32, toNat_min]
    rfl
  have hle : treeHeight height ≤ 16 := Nat.min_le_right _ _
  have hlt : 2 ^ treeHeight height < 2 ^ 32 := Nat.pow_lt_pow_right (by omega) (by omega)
  rw [slotCount, UInt32.toNat_shiftLeft, hmin, UInt32.toNat_one, Nat.one_shiftLeft,
    Nat.mod_eq_of_lt (a := treeHeight height) (by omega), Nat.mod_eq_of_lt hlt]

/-- A slot lies in its tree. -/
lemma slot_lt (category : Hash) (salt : UInt32) (height : UInt8) :
    (slot category salt height).toNat < 2 ^ treeHeight height := by
  have hpos : 0 < 2 ^ treeHeight height := Nat.two_pow_pos _
  have hone : (1 : UInt32) ≤ slotCount height := by
    rw [UInt32.le_iff_toNat_le, toNat_slotCount]
    exact hpos
  rw [slot, UInt32.toNat_and, UInt32.toNat_sub_of_le _ _ hone, toNat_slotCount]
  calc _ ≤ 2 ^ treeHeight height - 1 := Nat.and_le_right
    _ < 2 ^ treeHeight height := by omega

omit [Hasher] in
lemma nodeInput_inj {a b c d : Hash} (h : nodeInput a b = nodeInput c d) : a = c ∧ b = d := by
  obtain ⟨hleft, hright⟩ := ByteVec.append_inj (List.cons.inj h).2
  exact ⟨hleft, ByteVec.ext hright⟩

end Tree

/-! ## Layouts -/

/-- Where each leaf sits: the tree's height, the salt and one slot per category, in the
order given. -/
structure Layout where
  height : UInt8
  salt : UInt32
  slots : List UInt32
deriving DecidableEq

/-- Why no layout holds the categories. -/
inductive LayoutError where
  /-- One category twice. -/
  | duplicate
  /-- More than 16 tokens. -/
  | tooMany
  /-- No salt gives every category its own slot at any height up to the limit. -/
  | noSalt
deriving DecidableEq

/-- `LayoutError`'s `Display`. -/
def LayoutError.display : LayoutError → String
  | .duplicate => "a token category is listed twice"
  | .tooMany => "at most 16 tokens per coinbase"
  | .noSalt => "no salt gives every token its own slot"

namespace Layout

variable [Hasher]

/-- `count.max(1).next_power_of_two().trailing_zeros()`. -/
def minHeight (count : ℕ) : ℕ := Nat.log2 (2 * max count 1 - 1)

/-- The slots of the categories after those already `placed`, or `none` at the first
collision. -/
def place (salt : UInt32) (height : UInt8) : List Hash → List UInt32 → Option (List UInt32)
  | [], placed => some placed
  | category :: rest, placed =>
    let slot := Tree.slot category salt height
    if placed.contains slot then none else place salt height rest (placed ++ [slot])

/-- The salts of one height: `count` of them from `salt` on. -/
def searchSalts (categories : List Hash) (height : UInt8) : ℕ → UInt32 → Option Layout
  | 0, _ => none
  | count + 1, salt =>
    match place salt height categories [] with
    | some slots => some ⟨height, salt, slots⟩
    | none => searchSalts categories height count (salt + 1)

/-- The heights: `count` of them from `height` on. -/
def searchHeights (categories : List Hash) : ℕ → UInt8 → Option Layout
  | 0, _ => none
  | count + 1, height =>
    match searchSalts categories height salts 0 with
    | some layout => some layout
    | none => searchHeights categories count (height + 1)

/-- `Layout::search`: the smallest height first, then the smallest salt. -/
def search (categories : List Hash) (maxAuxHeight : UInt8) : Except LayoutError Layout :=
  if categories.length > maxLeaves then .error .tooMany
  else if ¬ categories.Nodup then .error .duplicate
  else
    let first := minHeight categories.length
    match searchHeights categories ((min maxAuxHeight maxHeight).toNat + 1 - first)
        (UInt8.ofNat first) with
    | some layout => .ok layout
    | none => .error .noSalt

/-- What a layout of `categories` is: each has the slot its hash gives, and no two share
one. -/
structure Holds (layout : Layout) (categories : List Hash) : Prop where
  slots_eq : layout.slots = categories.map fun c => Tree.slot c layout.salt layout.height
  nodup : layout.slots.Nodup

lemma place_spec {salt : UInt32} {height : UInt8} {categories : List Hash} {placed slots : List UInt32}
    (h : place salt height categories placed = some slots) (hplaced : placed.Nodup) :
    slots = placed ++ categories.map (fun c => Tree.slot c salt height) ∧ slots.Nodup := by
  induction categories generalizing placed with
  | nil =>
    cases h
    exact ⟨by simp, hplaced⟩
  | cons category rest ih =>
    rw [place] at h
    split at h
    · cases h
    · rename_i hnew
      have hnodup : (placed ++ [Tree.slot category salt height]).Nodup := by
        rw [List.nodup_append]
        refine ⟨hplaced, by simp, ?_⟩
        rintro a ha b hb rfl
        rw [List.mem_singleton] at hb
        exact hnew (by simpa [hb] using ha)
      obtain ⟨hslots, hn⟩ := ih h hnodup
      exact ⟨by simpa using hslots, hn⟩

lemma searchSalts_spec {categories : List Hash} {height : UInt8} {count : ℕ} {salt : UInt32}
    {layout : Layout} (h : searchSalts categories height count salt = some layout) :
    layout.height = height ∧ layout.Holds categories := by
  induction count generalizing salt with
  | zero => cases h
  | succ count ih =>
    rw [searchSalts] at h
    split at h
    · rename_i slots hplace
      cases h
      obtain ⟨hslots, hnodup⟩ := place_spec hplace List.nodup_nil
      exact ⟨rfl, ⟨by simpa using hslots, hnodup⟩⟩
    · exact ih h

lemma searchHeights_spec {categories : List Hash} {count first : ℕ} {layout : Layout}
    (hsum : first + count ≤ 17)
    (h : searchHeights categories count (UInt8.ofNat first) = some layout) :
    layout.height.toNat < first + count ∧ layout.Holds categories := by
  induction count generalizing first with
  | zero => cases h
  | succ count ih =>
    rw [searchHeights] at h
    split at h
    · rename_i found hfound
      cases h
      obtain ⟨hheight, hholds⟩ := searchSalts_spec hfound
      refine ⟨?_, hholds⟩
      rw [hheight, UInt8.toNat_ofNat']
      omega
    · have hnext : UInt8.ofNat first + 1 = UInt8.ofNat (first + 1) := by
        rw [UInt8.ofNat_add]
        rfl
      rw [hnext] at h
      obtain ⟨hheight, hholds⟩ := ih (by omega) h
      exact ⟨by omega, hholds⟩

/-- A found layout holds the categories at a height the limit allows. -/
lemma search_spec {categories : List Hash} {maxAuxHeight : UInt8} {layout : Layout}
    (h : search categories maxAuxHeight = .ok layout) :
    layout.Holds categories ∧ layout.height ≤ maxAuxHeight ∧ layout.height ≤ maxHeight ∧
      categories.length ≤ maxLeaves := by
  simp only [search] at h
  split at h
  · cases h
  rename_i hcount
  split at h
  · cases h
  split at h
  swap
  · cases h
  rename_i found hfound
  cases h
  have hmin := Tree.toNat_min maxAuxHeight maxHeight
  have hsixteen : maxHeight.toNat = 16 := rfl
  by_cases hfirst : minHeight categories.length ≤ (min maxAuxHeight maxHeight).toNat
  · obtain ⟨hheight, hholds⟩ := searchHeights_spec (by omega) hfound
    simp only [UInt8.le_iff_toNat_le]
    exact ⟨hholds, by omega, by omega, by omega⟩
  · -- no height is left to try
    have hnone : (min maxAuxHeight maxHeight).toNat + 1 - minHeight categories.length = 0 := by
      omega
    rw [hnone] at hfound
    cases hfound

end Layout

/-! ## Writing cells -/

section Cells

variable {α : Type}

/-- Writing a list of cells does not change the length. -/
lemma length_foldl_set (cells : List (UInt32 × α)) (level : List α) :
    (cells.foldl (fun level p => level.set p.1.toNat p.2) level).length = level.length := by
  induction cells generalizing level with
  | nil => rfl
  | cons c cells ih => rw [List.foldl_cons, ih, List.length_set]

/-- A cell that is written nowhere keeps its value. -/
lemma getD_foldl_set_of_notMem (cells : List (UInt32 × α)) (level : List α) {slot : UInt32} {d : α}
    (h : slot ∉ cells.map Prod.fst) :
    (cells.foldl (fun level p => level.set p.1.toNat p.2) level).getD slot.toNat d =
      level.getD slot.toNat d := by
  induction cells generalizing level with
  | nil => rfl
  | cons c cells ih =>
    rw [List.map_cons, List.mem_cons, not_or] at h
    have hne : c.1.toNat ≠ slot.toNat := fun heq => h.1 (UInt32.toNat_inj.mp heq).symm
    rw [List.foldl_cons, ih _ h.2, List.getD_eq_getElem?_getD, List.getElem?_set_ne hne,
      List.getD_eq_getElem?_getD]

/-- A cell written once has the value written. -/
lemma getD_foldl_set {cells : List (UInt32 × α)} {level : List α} {slot : UInt32} {a d : α}
    (hmem : (slot, a) ∈ cells) (hnodup : (cells.map Prod.fst).Nodup)
    (hlt : slot.toNat < level.length) :
    (cells.foldl (fun level p => level.set p.1.toNat p.2) level).getD slot.toNat d = a := by
  induction cells generalizing level with
  | nil => cases hmem
  | cons c cells ih =>
    rw [List.map_cons, List.nodup_cons] at hnodup
    rw [List.foldl_cons]
    rcases List.mem_cons.mp hmem with rfl | hmem
    · rw [getD_foldl_set_of_notMem cells _ hnodup.1, List.getD_eq_getElem?_getD,
        List.getElem?_set_self hlt]
      rfl
    · exact ih hmem hnodup.2 (by rwa [List.length_set])

end Cells

/-! ## Trees -/

/-- The whole tree, leaves first, root last. -/
structure AuxTree where
  levels : List (List Hash)
deriving DecidableEq

namespace AuxTree

variable [Hasher]

/-- The leaf level: `leaves[i]` at `layout.slots[i]`, 32 zero bytes elsewhere. -/
def leafLevel (layout : Layout) (leaves : List Hash) : List Hash :=
  (layout.slots.zip leaves).foldl (fun level p => level.set p.1.toNat p.2)
    (List.replicate (Tree.slotCount layout.height).toNat (ByteVec.zero 32))

/-- `AuxTree::build`. -/
def build (layout : Layout) (leaves : List Hash) : AuxTree :=
  let level := leafLevel layout leaves
  ⟨Merkle.levels Tree.node level.length level⟩

/-- `AuxTree::height`. -/
def height (t : AuxTree) : ℕ := t.levels.length - 1

/-- `AuxTree::root`. -/
def root (t : AuxTree) : Hash := Merkle.root t.levels

/-- `AuxTree::branch`: the siblings from the leaf at `slot` up to the root. -/
def branch (t : AuxTree) (slot : UInt32) : List Hash := Merkle.branch t.levels slot.toNat

variable {layout : Layout} {leaves : List Hash}

omit [Hasher] in
lemma length_leafLevel (layout : Layout) (leaves : List Hash) :
    (leafLevel layout leaves).length = 2 ^ Tree.treeHeight layout.height := by
  rw [leafLevel, length_foldl_set, List.length_replicate, Tree.toNat_slotCount]

omit [Hasher] in
/-- A leaf stands at its slot. -/
lemma getD_leafLevel {slot : UInt32} {leaf : Hash} (hnodup : layout.slots.Nodup)
    (hlen : layout.slots.length ≤ leaves.length) (hmem : (slot, leaf) ∈ layout.slots.zip leaves)
    (hlt : slot.toNat < 2 ^ Tree.treeHeight layout.height) :
    (leafLevel layout leaves).getD slot.toNat default = leaf := by
  refine getD_foldl_set hmem ?_ ?_
  · rwa [List.map_fst_zip hlen]
  · rwa [List.length_replicate, Tree.toNat_slotCount]

/-- A branch has one sibling for each level below the root. -/
lemma length_branch (slot : UInt32) :
    ((build layout leaves).branch slot).length = Tree.treeHeight layout.height := by
  refine Merkle.length_branch Tree.node (length_leafLevel layout leaves) ?_ _
  rw [length_leafLevel]
  exact Nat.lt_two_pow_self.le

/-- Folding a leaf from its slot with the tree's branch gives the tree's root. -/
theorem fold_branch {slot : UInt32} {leaf : Hash} (hnodup : layout.slots.Nodup)
    (hlen : layout.slots.length ≤ leaves.length) (hmem : (slot, leaf) ∈ layout.slots.zip leaves)
    (hlt : slot.toNat < 2 ^ Tree.treeHeight layout.height) :
    Tree.fold leaf slot ((build layout leaves).branch slot) = (build layout leaves).root := by
  have hfuel : Tree.treeHeight layout.height ≤ (leafLevel layout leaves).length := by
    rw [length_leafLevel]
    exact Nat.lt_two_pow_self.le
  have hfold := Merkle.foldAt_branch Tree.node (length_leafLevel layout leaves) hfuel hlt
  rw [getD_leafLevel hnodup hlen hmem hlt] at hfold
  exact hfold

end AuxTree

/-! ## What the search finds -/

namespace Layout

variable [Hasher]

/-- The slots of `categories` at a height and a salt. -/
def slotsAt (categories : List Hash) (salt : UInt32) (height : UInt8) : List UInt32 :=
  categories.map fun c => Tree.slot c salt height

/-- Placing fails exactly when two slots are the same. -/
lemma place_eq_none {salt : UInt32} {height : UInt8} {categories : List Hash}
    {placed : List UInt32} (h : place salt height categories placed = none) :
    ¬ (placed ++ slotsAt categories salt height).Nodup := by
  induction categories generalizing placed with
  | nil => cases h
  | cons category rest ih =>
    rw [place] at h
    split at h
    · rename_i hold
      intro hnodup
      have hmem : Tree.slot category salt height ∈ placed := by simpa using hold
      exact (List.nodup_append.mp hnodup).2.2 _ hmem _ List.mem_cons_self rfl
    · have hrest := ih h
      rw [slotsAt, List.map_cons, ← slotsAt]
      rwa [List.append_assoc, List.singleton_append] at hrest

/-- The first salt that works is found, and `none` means that none works. -/
lemma searchSalts_least {categories : List Hash} {height : UInt8} {count : ℕ} {salt : UInt32}
    (hcount : salt.toNat + count ≤ salts) :
    match searchSalts categories height count salt with
    | some layout => ∀ other, salt ≤ other → other < layout.salt →
        ¬ (slotsAt categories other height).Nodup
    | none => ∀ other, salt ≤ other → other.toNat < salt.toNat + count →
        ¬ (slotsAt categories other height).Nodup := by
  induction count generalizing salt with
  | zero =>
    intro other hle hlt
    rw [UInt32.le_iff_toNat_le] at hle
    omega
  | succ count ih =>
    have hnext : (salt + 1).toNat = salt.toNat + 1 := by
      rw [UInt32.toNat_add, UInt32.toNat_one]
      unfold salts at hcount
      omega
    have hrest := @ih (salt + 1) (by omega)
    rw [searchSalts]
    cases hplace : place salt height categories [] with
    | some slots =>
      intro other hle hlt
      rw [UInt32.le_iff_toNat_le] at hle
      rw [UInt32.lt_iff_toNat_lt] at hlt
      dsimp only at hlt
      omega
    | none =>
      -- the salt itself fails, and the later ones by induction
      have hsalt : ¬ (slotsAt categories salt height).Nodup := place_eq_none hplace
      have hcases : ∀ other : UInt32, salt ≤ other → other = salt ∨ salt + 1 ≤ other := by
        intro other hle
        rw [UInt32.le_iff_toNat_le] at hle ⊢
        rw [hnext, ← UInt32.toNat_inj]
        omega
      dsimp only
      cases hfound : searchSalts categories height count (salt + 1) with
      | some layout =>
        rw [hfound] at hrest
        intro other hle hlt
        rcases hcases other hle with rfl | hle
        · exact hsalt
        · exact hrest other hle hlt
      | none =>
        rw [hfound] at hrest
        intro other hle hlt
        rcases hcases other hle with rfl | hle
        · exact hsalt
        · exact hrest other hle (by omega)

/-- Below the first height that is tried, there are fewer slots than categories. -/
lemma not_nodup_of_lt_minHeight {categories : List Hash} {height : UInt8} (salt : UInt32)
    (hlt : height.toNat < minHeight categories.length) :
    ¬ (slotsAt categories salt height).Nodup := by
  intro hnodup
  have hpow : 2 ^ (height.toNat + 1) ≤ 2 * max categories.length 1 - 1 := by
    refine (Nat.le_log2 (by omega)).mp ?_
    exact hlt
  have hsub : (slotsAt categories salt height).map UInt32.toNat ⊆ List.range (2 ^ height.toNat) := by
    intro n hn
    obtain ⟨slot, hslot, rfl⟩ := List.mem_map.mp hn
    obtain ⟨c, -, rfl⟩ := List.mem_map.mp hslot
    refine List.mem_range.mpr (lt_of_lt_of_le (Tree.slot_lt c salt height) ?_)
    exact Nat.pow_le_pow_right (by decide) (Nat.min_le_left _ _)
  have hinj : Function.Injective UInt32.toNat := fun _ _ h => UInt32.toNat_inj.mp h
  have hlength := (List.subperm_of_subset (hnodup.map hinj) hsub).length_le
  rw [List.length_map, slotsAt, List.length_map, List.length_range] at hlength
  have hpos := Nat.two_pow_pos height.toNat
  rw [pow_succ] at hpow
  omega

/-- No height before the one that is found has a salt that works. -/
lemma searchHeights_least {categories : List Hash} {count first : ℕ} {layout : Layout}
    (hsum : first + count ≤ 17)
    (h : searchHeights categories count (UInt8.ofNat first) = some layout) :
    (∀ height : UInt8, first ≤ height.toNat → height < layout.height → ∀ salt : UInt32,
      salt.toNat < salts → ¬ (slotsAt categories salt height).Nodup) ∧
    ∀ salt < layout.salt, ¬ (slotsAt categories salt layout.height).Nodup := by
  induction count generalizing first with
  | zero => cases h
  | succ count ih =>
    have hfirst : (UInt8.ofNat first).toNat = first := UInt8.toNat_ofNat_of_lt' (by
      change first < 256
      omega)
    have hleast := @searchSalts_least _ categories (UInt8.ofNat first) salts 0 (by simp)
    rw [searchHeights] at h
    cases hfound : searchSalts categories (UInt8.ofNat first) salts 0 with
    | some found =>
      rw [hfound] at h hleast
      cases h
      obtain ⟨hheight, -⟩ := searchSalts_spec hfound
      refine ⟨fun height hle hlt => ?_, fun salt hlt => ?_⟩
      · rw [hheight, UInt8.lt_iff_toNat_lt, hfirst] at hlt
        omega
      · rw [hheight]
        exact hleast salt (by rw [UInt32.le_iff_toNat_le]; exact Nat.zero_le _) hlt
    | none =>
      rw [hfound] at h hleast
      have hnext : UInt8.ofNat first + 1 = UInt8.ofNat (first + 1) := by
        rw [UInt8.ofNat_add]
        rfl
      dsimp only at h
      rw [hnext] at h
      obtain ⟨hheights, hsalts⟩ := ih (by omega) h
      refine ⟨fun height hle hlt salt hsalt => ?_, hsalts⟩
      rcases Nat.eq_or_lt_of_le hle with heq | hgt
      · have hsame : height = UInt8.ofNat first := UInt8.toNat_inj.mp (by rw [hfirst, heq])
        rw [hsame]
        refine hleast salt (by rw [UInt32.le_iff_toNat_le]; exact Nat.zero_le _) ?_
        rw [UInt32.toNat_zero, Nat.zero_add]
        exact hsalt
      · exact hheights height hgt hlt salt hsalt

/-- What the search finds: distinct slots of the least height and salt, from which every leaf's branch
folds to the tree's root. -/
theorem search_correct {categories : List Hash} {maxAuxHeight : UInt8} {layout : Layout}
    (h : search categories maxAuxHeight = .ok layout) :
    layout.slots.Nodup ∧ layout.slots = slotsAt categories layout.salt layout.height ∧
    (∀ slot ∈ layout.slots, slot.toNat < 2 ^ layout.height.toNat) ∧
    (∀ height < layout.height, ∀ salt : UInt32, salt.toNat < salts →
      ¬ (slotsAt categories salt height).Nodup) ∧
    (∀ salt < layout.salt, ¬ (slotsAt categories salt layout.height).Nodup) ∧
    ∀ leaves : List Hash, leaves.length = categories.length →
      ∀ slot leaf, (slot, leaf) ∈ layout.slots.zip leaves →
        ((AuxTree.build layout leaves).branch slot).length = layout.height.toNat ∧
        Tree.fold leaf slot ((AuxTree.build layout leaves).branch slot) =
          (AuxTree.build layout leaves).root := by
  obtain ⟨hholds, -, hheight, -⟩ := search_spec h
  have htree : Tree.treeHeight layout.height = layout.height.toNat := by
    rw [UInt8.le_iff_toNat_le] at hheight
    exact Nat.min_eq_left hheight
  have hlt : ∀ slot ∈ layout.slots, slot.toNat < 2 ^ layout.height.toNat := by
    intro slot hslot
    rw [hholds.slots_eq] at hslot
    obtain ⟨c, -, rfl⟩ := List.mem_map.mp hslot
    rw [← htree]
    exact Tree.slot_lt c layout.salt layout.height
  -- the search tries every height from the least that has room, and every salt at each
  have hleast : (∀ height < layout.height, ∀ salt : UInt32, salt.toNat < salts →
      ¬ (slotsAt categories salt height).Nodup) ∧
      ∀ salt < layout.salt, ¬ (slotsAt categories salt layout.height).Nodup := by
    simp only [search] at h
    split at h
    · cases h
    split at h
    · cases h
    split at h
    swap
    · cases h
    rename_i found hfound
    cases h
    have hmin := Tree.toNat_min maxAuxHeight maxHeight
    have hsixteen : maxHeight.toNat = 16 := rfl
    by_cases hfirst : minHeight categories.length ≤ (min maxAuxHeight maxHeight).toNat
    · obtain ⟨hheights, hsalts⟩ := searchHeights_least (by omega) hfound
      refine ⟨fun height hlow salt hsalt => ?_, hsalts⟩
      by_cases htried : minHeight categories.length ≤ height.toNat
      · exact hheights height htried hlow salt hsalt
      · exact not_nodup_of_lt_minHeight salt (by omega)
    · have hnone : (min maxAuxHeight maxHeight).toNat + 1 - minHeight categories.length = 0 := by
        omega
      rw [hnone] at hfound
      cases hfound
  refine ⟨hholds.nodup, hholds.slots_eq, hlt, hleast.1, hleast.2, fun leaves hlen slot leaf hmem => ?_⟩
  have hslots : layout.slots.length ≤ leaves.length := by
    rw [hholds.slots_eq, List.length_map, hlen]
  have hslot := hlt slot (List.of_mem_zip hmem).1
  rw [← htree] at hslot
  exact ⟨(AuxTree.length_branch slot).trans htree, AuxTree.fold_branch hholds.nodup hslots hmem hslot⟩

/-- Two categories that the first four salts of height one do not tell apart. -/
def sampleCategories : List Hash := [ByteVec.zero 32, ⟨List.replicate 32 1, rfl⟩]

omit [Hasher] in
theorem search_correct_sample :
    let _ : Hasher := Hasher.fips
    ∃ layout, search sampleCategories 16 = .ok layout ∧ layout.salt = 4 ∧ layout.slots = [1, 0] ∧
      (∀ height < layout.height, ∀ salt : UInt32, salt.toNat < salts →
        ¬ (slotsAt sampleCategories salt height).Nodup) ∧
      ∀ slot leaf, (slot, leaf) ∈ layout.slots.zip sampleCategories →
        Tree.fold leaf slot ((AuxTree.build layout sampleCategories).branch slot) =
          (AuxTree.build layout sampleCategories).root := by
  intro _
  have hsearch : search sampleCategories 16 = .ok ⟨1, 4, [1, 0]⟩ := by decide +kernel
  obtain ⟨-, -, -, hheight, -, hbranch⟩ := search_correct hsearch
  exact ⟨_, hsearch, rfl, rfl, hheight,
    fun slot leaf hmem => (hbranch sampleCategories rfl slot leaf hmem).2⟩

end Layout

end Pickaxe.Merge
