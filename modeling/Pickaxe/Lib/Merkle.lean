/-
# Merkle trees

Merkle trees over any type of digests, with any combining function `node`.  A tree is kept
as its levels, leaves first; `branch` reads off the siblings on the way from a leaf to the
root, and `foldAt` goes up from a leaf with such siblings.  The two results are

* `foldAt_branch`: going up with the tree's own branch gives the tree's root, and
* `foldAt_inj`, `foldl_eq_cases`: two walks that end in one digest are the same walk, or
  they combine two different pairs to the same digest, or one of them starts inside the
  other.
-/
import Mathlib.Data.List.Basic
import Mathlib.Data.List.Induction
import Mathlib.Data.Nat.Bitwise

namespace Pickaxe.Lib.Merkle

variable {H : Type} (node : H → H → H)

/-! ## Walking up -/

/-- The two children of the next node, when the current one stands at `index`. -/
def children (current sibling : H) (index : ℕ) : H × H :=
  if index % 2 = 1 then (sibling, current) else (current, sibling)

/-- From the digest at `index` of a level up along the siblings. -/
def foldAt : H → ℕ → List H → H
  | current, _, [] => current
  | current, index, sibling :: rest =>
    let pair := children current sibling index
    foldAt (node pair.1 pair.2) (index / 2) rest

/-- The pairs `foldAt` combines, in order. -/
def foldPairs : H → ℕ → List H → List (H × H)
  | _, _, [] => []
  | current, index, sibling :: rest =>
    let pair := children current sibling index
    pair :: foldPairs (node pair.1 pair.2) (index / 2) rest

lemma foldAt_append (a : H) (i : ℕ) (bs cs : List H) :
    foldAt node a i (bs ++ cs) = foldAt node (foldAt node a i bs) (i / 2 ^ bs.length) cs := by
  induction bs generalizing a i with
  | nil => simp [foldAt]
  | cons b bs ih =>
    simp only [List.cons_append, foldAt]
    rw [ih, Nat.div_div_eq_div_mul, List.length_cons, pow_succ, mul_comm 2]

lemma foldPairs_append (a : H) (i : ℕ) (bs cs : List H) :
    foldPairs node a i (bs ++ cs) =
      foldPairs node a i bs ++ foldPairs node (foldAt node a i bs) (i / 2 ^ bs.length) cs := by
  induction bs generalizing a i with
  | nil => simp [foldAt, foldPairs]
  | cons b bs ih =>
    simp only [List.cons_append, foldAt, foldPairs]
    rw [ih, Nat.div_div_eq_div_mul, List.length_cons, pow_succ, mul_comm 2]

/-- The last digest of a walk of at least one step is that of a pair it combines. -/
lemma exists_mem_foldPairs (a : H) (i : ℕ) {bs : List H} (h : bs ≠ []) :
    ∃ p ∈ foldPairs node a i bs, foldAt node a i bs = node p.1 p.2 := by
  induction bs generalizing a i with
  | nil => exact absurd rfl h
  | cons b bs ih =>
    by_cases hbs : bs = []
    · subst hbs
      exact ⟨_, List.mem_cons_self, rfl⟩
    · obtain ⟨p, hp, heq⟩ := ih _ _ hbs
      exact ⟨p, List.mem_cons_of_mem _ hp, heq⟩

lemma children_inj {a b x y : H} {i : ℕ} (h : children a x i = children b y i) :
    a = b ∧ x = y := by
  unfold children at h
  split at h
  · exact ⟨(Prod.mk.inj h).2, (Prod.mk.inj h).1⟩
  · exact ⟨(Prod.mk.inj h).1, (Prod.mk.inj h).2⟩

/-- Two pairs from two lists that are different and combine to one digest. -/
def Collides (ps qs : List (H × H)) : Prop :=
  ∃ p ∈ ps, ∃ q ∈ qs, p ≠ q ∧ node p.1 p.2 = node q.1 q.2

/-- Two walks of the same length from the same index to the same digest are equal, or they
collide. -/
lemma foldAt_inj {a b : H} {i : ℕ} {bs cs : List H} (hlen : bs.length = cs.length)
    (h : foldAt node a i bs = foldAt node b i cs) :
    (a = b ∧ bs = cs) ∨ Collides node (foldPairs node a i bs) (foldPairs node b i cs) := by
  induction bs generalizing a b i cs with
  | nil =>
    obtain rfl : cs = [] := List.length_eq_zero_iff.mp hlen.symm
    exact Or.inl ⟨h, rfl⟩
  | cons x bs ih =>
    obtain _ | ⟨y, cs⟩ := cs
    · simp at hlen
    have hlen' : bs.length = cs.length := by simpa using hlen
    rcases ih hlen' h with ⟨hnode, rfl⟩ | ⟨p, hp, q, hq, hne, heq⟩
    · -- the walks agree from the first node on
      by_cases hpair : children a x i = children b y i
      · obtain ⟨rfl, rfl⟩ := children_inj hpair
        exact Or.inl ⟨rfl, rfl⟩
      · exact Or.inr ⟨_, List.mem_cons_self, _, List.mem_cons_self, hpair, hnode⟩
    · exact Or.inr ⟨p, List.mem_cons_of_mem _ hp, q, List.mem_cons_of_mem _ hq, hne, heq⟩

lemma foldPairs_zero_append (a : H) (bs : List H) (x : H) :
    foldPairs node a 0 (bs ++ [x]) = foldPairs node a 0 bs ++ [(bs.foldl node a, x)] := by
  induction bs generalizing a with
  | nil => rfl
  | cons b bs ih =>
    change (a, b) :: foldPairs node (node a b) 0 (bs ++ [x]) = _
    rw [ih]
    rfl

/-- Two walks up the left edge to one digest, of any two lengths: they are equal, they
collide, or one of them starts at a node of the other. -/
lemma foldl_eq_cases {a b : H} {bs cs : List H} (h : bs.foldl node a = cs.foldl node b) :
    (a = b ∧ bs = cs) ∨ Collides node (foldPairs node a 0 bs) (foldPairs node b 0 cs) ∨
      (∃ p ∈ foldPairs node b 0 cs, a = node p.1 p.2) ∨
      (∃ p ∈ foldPairs node a 0 bs, b = node p.1 p.2) := by
  induction bs using List.reverseRecOn generalizing cs with
  | nil =>
    rcases List.eq_nil_or_concat cs with rfl | ⟨cs, y, rfl⟩
    · exact Or.inl ⟨h, rfl⟩
    · rw [List.concat_eq_append, List.foldl_append] at h
      refine Or.inr (Or.inr (Or.inl ⟨(cs.foldl node b, y), ?_, h⟩))
      rw [List.concat_eq_append, foldPairs_zero_append]
      simp
  | append_singleton bs x ih =>
    rcases List.eq_nil_or_concat cs with rfl | ⟨cs, y, rfl⟩
    · rw [List.foldl_append] at h
      refine Or.inr (Or.inr (Or.inr ⟨(bs.foldl node a, x), ?_, h.symm⟩))
      rw [foldPairs_zero_append]
      simp
    · rw [List.concat_eq_append] at h ⊢
      rw [List.foldl_append, List.foldl_append] at h
      rw [foldPairs_zero_append, foldPairs_zero_append]
      by_cases hpair : (bs.foldl node a, x) = (cs.foldl node b, y)
      · obtain ⟨htop, rfl⟩ := Prod.mk.inj hpair
        -- peel the last node off both walks
        rcases ih htop with ⟨rfl, rfl⟩ | ⟨p, hp, q, hq, hne, heq⟩ | ⟨p, hp, ha⟩ | ⟨p, hp, hb⟩
        · exact Or.inl ⟨rfl, rfl⟩
        · exact Or.inr (Or.inl ⟨p, List.mem_append_left _ hp, q, List.mem_append_left _ hq,
            hne, heq⟩)
        · exact Or.inr (Or.inr (Or.inl ⟨p, List.mem_append_left _ hp, ha⟩))
        · exact Or.inr (Or.inr (Or.inr ⟨p, List.mem_append_left _ hp, hb⟩))
      · exact Or.inr (Or.inl ⟨_, List.mem_append_right _ List.mem_cons_self, _,
          List.mem_append_right _ List.mem_cons_self, hpair, h⟩)

/-! ## Trees -/

/-- The next level: neighbours are combined; a last one without a neighbour is dropped. -/
def pairs : List H → List H
  | a :: b :: rest => node a b :: pairs rest
  | [_] => []
  | [] => []

/-- The levels of a tree, leaves first, until a level has one digest.  `fuel` bounds the
number of levels above the leaves. -/
def levels : ℕ → List H → List (List H)
  | 0, level => [level]
  | fuel + 1, level => if 1 < level.length then level :: levels fuel (pairs node level) else [level]

lemma length_pairs (level : List H) : (pairs node level).length = level.length / 2 := by
  induction level using pairs.induct with
  | case1 a b rest ih =>
    simp only [pairs, List.length_cons, ih]
    omega
  | case2 a => simp [pairs]
  | case3 => simp [pairs]

lemma levels_ne_nil (fuel : ℕ) (level : List H) :
    ∃ l rest, levels node fuel level = l :: rest := by
  cases fuel with
  | zero => exact ⟨level, [], rfl⟩
  | succ fuel =>
    rw [levels]
    split
    · exact ⟨_, _, rfl⟩
    · exact ⟨_, _, rfl⟩

section PowerOfTwo

variable {h fuel : ℕ} {level : List H}

lemma levels_succ (hlen : level.length = 2 ^ (h + 1)) :
    levels node (fuel + 1) level = level :: levels node fuel (pairs node level) := by
  have hlt : 1 < level.length := by
    rw [hlen]
    exact Nat.one_lt_two_pow (Nat.succ_ne_zero h)
  rw [levels, if_pos hlt]

lemma levels_single (hlen : level.length = 1) : levels node fuel level = [level] := by
  cases fuel with
  | zero => rfl
  | succ fuel => rw [levels, if_neg (by omega)]

lemma length_pairs_pow (hlen : level.length = 2 ^ (h + 1)) :
    (pairs node level).length = 2 ^ h := by
  rw [length_pairs, hlen, pow_succ, Nat.mul_div_cancel _ (by omega)]

end PowerOfTwo

/-! ## Branches -/

variable [Inhabited H]

/-- The root: the digest of the last level. -/
def root (tree : List (List H)) : H := (tree.getLast?.getD []).headD default

/-- The siblings on the way up from `index`. -/
def branch : List (List H) → ℕ → List H
  | level :: above :: rest, index =>
    level.getD (min (index ^^^ 1) (level.length - 1)) default :: branch (above :: rest) (index / 2)
  | _, _ => []

lemma branch_cons {level : List H} {tree : List (List H)} (h : ∃ l rest, tree = l :: rest)
    (i : ℕ) : branch (level :: tree) i =
      level.getD (min (i ^^^ 1) (level.length - 1)) default :: branch tree (i / 2) := by
  obtain ⟨l, rest, rfl⟩ := h
  rfl

lemma root_cons {level : List H} {tree : List (List H)} (h : ∃ l rest, tree = l :: rest) :
    root (level :: tree) = root tree := by
  obtain ⟨l, rest, rfl⟩ := h
  rw [root, root, List.getLast?_cons_cons]

lemma getD_pairs (level : List H) {i : ℕ} (h : 2 * i + 1 < level.length) :
    (pairs node level).getD i default =
      node (level.getD (2 * i) default) (level.getD (2 * i + 1) default) := by
  induction level using pairs.induct generalizing i with
  | case1 a b rest ih =>
    cases i with
    | zero => rfl
    | succ i =>
      have hi : 2 * i + 1 < rest.length := by
        simp only [List.length_cons] at h
        omega
      have h0 : 2 * (i + 1) = 2 * i + 1 + 1 := by omega
      rw [pairs, h0]
      simp only [List.getD_cons_succ]
      exact ih hi
  | case2 a => simp at h
  | case3 => simp at h

/-- The neighbours of a level. -/
def levelPairs : List H → List (H × H)
  | a :: b :: rest => (a, b) :: levelPairs rest
  | _ => []

lemma mem_levelPairs (level : List H) {i : ℕ} (h : 2 * i + 1 < level.length) :
    (level.getD (2 * i) default, level.getD (2 * i + 1) default) ∈ levelPairs level := by
  induction level using pairs.induct generalizing i with
  | case1 a b rest ih =>
    cases i with
    | zero => exact List.mem_cons_self
    | succ i =>
      have hi : 2 * i + 1 < rest.length := by
        simp only [List.length_cons] at h
        omega
      have h0 : 2 * (i + 1) = 2 * i + 1 + 1 := by omega
      rw [levelPairs, h0]
      simp only [List.getD_cons_succ]
      exact List.mem_cons_of_mem _ (ih hi)
  | case2 a => simp at h
  | case3 => simp at h

/-- A digest and its sibling are neighbours. -/
lemma children_getD (level : List H) {i : ℕ} (hlen : level.length % 2 = 0) (h : i < level.length) :
    children (level.getD i default) (level.getD (min (i ^^^ 1) (level.length - 1)) default) i =
      (level.getD (2 * (i / 2)) default, level.getD (2 * (i / 2) + 1) default) := by
  by_cases hi : i % 2 = 1
  · -- a right child: its sibling stands before it
    have h1 : min (i - 1) (level.length - 1) = 2 * (i / 2) := by omega
    have h2 : 2 * (i / 2) + 1 = i := by omega
    simp only [children, if_pos hi, Nat.xor_one_of_odd (Nat.odd_iff.mpr hi), h1, h2]
  · -- a left child: its sibling stands after it, inside the level
    have heven : Even i := Nat.even_iff.mpr (by omega)
    have h1 : min (i + 1) (level.length - 1) = 2 * (i / 2) + 1 := by omega
    have h2 : 2 * (i / 2) = i := by omega
    simp only [children, if_neg hi, Nat.xor_one_of_even heven, h1, h2]

/-- One step up: a digest and its sibling are the children of the digest above. -/
lemma node_children (level : List H) {i : ℕ} (hlen : level.length % 2 = 0) (h : i < level.length) :
    let pair := children (level.getD i default)
      (level.getD (min (i ^^^ 1) (level.length - 1)) default) i
    node pair.1 pair.2 = (pairs node level).getD (i / 2) default := by
  rw [children_getD level hlen h, getD_pairs node level (by omega)]

section PowerOfTwo

variable {h fuel : ℕ} {level : List H}

/-- A branch has one sibling for each level below the root. -/
lemma length_branch (hlen : level.length = 2 ^ h) (hfuel : h ≤ fuel) (i : ℕ) :
    (branch (levels node fuel level) i).length = h := by
  induction h generalizing fuel level i with
  | zero =>
    rw [levels_single node (by simpa using hlen)]
    rfl
  | succ h ih =>
    obtain ⟨fuel, rfl⟩ := Nat.exists_eq_succ_of_ne_zero (n := fuel) (by omega)
    rw [levels_succ node hlen, branch_cons (levels_ne_nil node _ _), List.length_cons,
      ih (length_pairs_pow node hlen) (by omega)]

/-- Going up from a leaf with the tree's own branch gives the tree's root. -/
theorem foldAt_branch (hlen : level.length = 2 ^ h) (hfuel : h ≤ fuel) {i : ℕ} (hi : i < 2 ^ h) :
    foldAt node (level.getD i default) i (branch (levels node fuel level) i) =
      root (levels node fuel level) := by
  induction h generalizing fuel level i with
  | zero =>
    obtain ⟨x, rfl⟩ := List.length_eq_one_iff.mp (by simpa using hlen)
    obtain rfl : i = 0 := by simpa using hi
    rw [levels_single node rfl]
    rfl
  | succ h ih =>
    obtain ⟨fuel, rfl⟩ := Nat.exists_eq_succ_of_ne_zero (n := fuel) (by omega)
    have hne := levels_ne_nil node fuel (pairs node level)
    have heven : level.length % 2 = 0 := by
      rw [hlen, pow_succ, Nat.mul_mod_left]
    have hstep := node_children node level heven (i := i) (by omega)
    rw [levels_succ node hlen, branch_cons hne, root_cons hne, foldAt, hstep]
    refine ih (length_pairs_pow node hlen) (by omega) ?_
    rw [pow_succ] at hi
    omega

/-- The walk up the tree's own branch combines neighbours of its levels. -/
lemma foldPairs_branch (hlen : level.length = 2 ^ h) (hfuel : h ≤ fuel) {i : ℕ} (hi : i < 2 ^ h) :
    foldPairs node (level.getD i default) i (branch (levels node fuel level) i) ⊆
      (levels node fuel level).flatMap levelPairs := by
  induction h generalizing fuel level i with
  | zero =>
    rw [levels_single node (by simpa using hlen)]
    exact List.nil_subset _
  | succ h ih =>
    obtain ⟨fuel, rfl⟩ := Nat.exists_eq_succ_of_ne_zero (n := fuel) (by omega)
    have hne := levels_ne_nil node fuel (pairs node level)
    have heven : level.length % 2 = 0 := by
      rw [hlen, pow_succ, Nat.mul_mod_left]
    have hstep := node_children node level heven (i := i) (by omega)
    rw [pow_succ] at hi hlen
    rw [levels_succ node (by rw [hlen, pow_succ]), branch_cons hne, foldPairs, hstep,
      List.flatMap_cons]
    refine List.cons_subset.mpr ⟨List.mem_append_left _ ?_, ?_⟩
    · rw [children_getD level heven (by omega)]
      exact mem_levelPairs level (by omega)
    · exact List.Subset.trans (ih (length_pairs_pow node (by rw [hlen, pow_succ])) (by omega)
        (by omega)) (List.subset_append_right _ _)

end PowerOfTwo

/-! ## Levels of any length -/

/-- A level in which the last digest of an odd number stands twice. -/
def evened (level : List H) : List H :=
  if level.length % 2 = 1 then level ++ level.getLast?.toList else level

omit [Inhabited H] in
lemma length_pairs_evened_lt {a b : H} {rest : List H} :
    (pairs node (evened (a :: b :: rest))).length < (a :: b :: rest).length := by
  rw [length_pairs, evened]
  split_ifs with hodd
  · rw [List.length_append, List.getLast?_cons, Option.toList_some, List.length_singleton]
    simp only [List.length_cons] at hodd ⊢
    omega
  · simp only [List.length_cons]
    omega

/-- The root of a tree whose odd levels are evened. -/
def evenedRoot (level : List H) : H :=
  match level with
  | [] => default
  | [a] => a
  | a :: b :: rest => evenedRoot (pairs node (evened (a :: b :: rest)))
termination_by level.length
decreasing_by exact length_pairs_evened_lt node

omit [Inhabited H] in
/-- The siblings on the way up from the first leaf of such a tree. -/
def evenedPath (level : List H) : List H :=
  match level with
  | [] => []
  | [_] => []
  | a :: b :: rest => b :: evenedPath (pairs node (evened (a :: b :: rest)))
termination_by level.length
decreasing_by exact length_pairs_evened_lt node

omit [Inhabited H] in
/-- Above its first pair, the next level does not depend on the first digest. -/
lemma pairs_evened_cons (b : H) (rest : List H) :
    ∃ above, ∀ a, pairs node (evened (a :: b :: rest)) = node a b :: above := by
  by_cases hodd : (b :: rest).length % 2 = 0
  · refine ⟨pairs node (rest ++ (b :: rest).getLast?.toList), fun a => ?_⟩
    have hlength : (a :: b :: rest).length % 2 = 1 := by
      simp only [List.length_cons] at hodd ⊢
      omega
    rw [evened, if_pos hlength, List.getLast?_cons_cons]
    rfl
  · refine ⟨pairs node rest, fun a => ?_⟩
    have hlength : ¬ (a :: b :: rest).length % 2 = 1 := by
      simp only [List.length_cons] at hodd ⊢
      omega
    rw [evened, if_neg hlength]
    rfl

/-- Going up from any first leaf along the path gives the root over it. -/
theorem foldl_evenedPath (x leaf : H) (rest : List H) :
    (evenedPath node (x :: rest)).foldl node leaf = evenedRoot node (leaf :: rest) := by
  match rest with
  | [] => simp [evenedPath, evenedRoot]
  | b :: rest =>
    obtain ⟨above, habove⟩ := pairs_evened_cons node b rest
    have hlt : above.length < (b :: rest).length := by
      have hpairs : (pairs node (evened (x :: b :: rest))).length < (x :: b :: rest).length :=
        length_pairs_evened_lt node
      rw [habove x] at hpairs
      simpa using hpairs
    rw [evenedPath, evenedRoot, habove x, habove leaf, List.foldl_cons]
    exact foldl_evenedPath (node x b) (node leaf b) above
termination_by rest.length
decreasing_by simpa using hlt

end Pickaxe.Lib.Merkle
