/-
# Disclosures hide no leaf

A disclosure that passes `check_root` shows every leaf its root can pay: whoever folds another
leaf to the same root, at that leaf's own slot, has two strings with one digest, or a string
whose digest is the 32 zero bytes of an empty slot.  The walk up the other leaf's branch is
compared with the walk up the rebuilt tree from the same slot; an empty slot there is a
preimage of the zero bytes.
-/
import Pickaxe.Merge.Disclosure
import Pickaxe.Merge.Verify

namespace Pickaxe.Merge

open Lib

variable [Hasher]

/-- The strings hashed on the way from a leaf at `slot` up `branch`. -/
def Leaf.sha256Inputs (leaf : Leaf) (slot : UInt32) (branch : List Hash) : List Bytes :=
  leaf.hashInput :: (Merkle.foldPairs Tree.node leaf.hash slot.toNat branch).map
    fun pair => Tree.nodeInput pair.1 pair.2

namespace Disclosure

/-- The strings `check_root` hashes: those of the leaves and of the nodes above them. -/
def sha256Inputs (d : Disclosure) (commitment : AuxCommitment) : List Bytes :=
  (d.leaves.map fun disclosed => disclosed.leaf.hashInput) ++
    ((d.tree commitment).levels.flatMap Merkle.levelPairs).map
      fun pair => Tree.nodeInput pair.1 pair.2

variable {d : Disclosure} {c : AuxCommitment}

/-- What `check_root` accepts, with leaves or without. -/
lemma checkRoot_eq_ok (h : d.checkRoot c = .ok ()) :
    (d.layout c).slots.Nodup ∧ (d.tree c).root = c.root := by
  unfold checkRoot at h
  split_ifs at h with hleaves hempty hnodup hroot
  · obtain rfl : c = AuxCommitment.empty := by simpa [AuxCommitment.isEmpty] using hempty
    obtain ⟨leaves⟩ := d
    obtain rfl : leaves = [] := by simpa using hleaves
    exact ⟨List.nodup_nil, rfl⟩
  · exact ⟨hnodup, not_not.mp hroot⟩

/-- The leaf level of the rebuilt tree. -/
def cells (d : Disclosure) (commitment : AuxCommitment) : List Hash :=
  AuxTree.leafLevel (d.layout commitment) (d.leaves.map fun disclosed => disclosed.leaf.hash)

lemma length_cells (d : Disclosure) (c : AuxCommitment) :
    (d.cells c).length = 2 ^ Tree.treeHeight c.height :=
  AuxTree.length_leafLevel _ _

lemma slots_zip : (d.layout c).slots.zip (d.leaves.map fun disclosed => disclosed.leaf.hash) =
    d.leaves.map fun disclosed =>
      (Tree.slot disclosed.leaf.category c.salt c.height, disclosed.leaf.hash) := by
  rw [layout, List.zip_map']

/-- A slot of the rebuilt tree is empty or holds a disclosed leaf. -/
lemma getD_cells (hnodup : (d.layout c).slots.Nodup) {i : ℕ}
    (hi : i < 2 ^ Tree.treeHeight c.height) :
    (d.cells c).getD i default = ByteVec.zero 32 ∨
      ∃ disclosed ∈ d.leaves, (d.cells c).getD i default = disclosed.leaf.hash := by
  have hheight : Tree.treeHeight c.height ≤ 16 := Nat.min_le_right _ _
  have hle : 2 ^ Tree.treeHeight c.height ≤ 2 ^ 16 := Nat.pow_le_pow_right (by omega) hheight
  obtain ⟨slot, rfl⟩ : ∃ slot : UInt32, slot.toNat = i :=
    ⟨UInt32.ofNat i, UInt32.toNat_ofNat_of_lt' (by rw [UInt32.size]; omega)⟩
  by_cases hslot : slot ∈ (d.layout c).slots
  · obtain ⟨disclosed, hmem, rfl⟩ := List.mem_map.mp hslot
    refine .inr ⟨disclosed, hmem, AuxTree.getD_leafLevel hnodup (by simp [layout]) ?_ hi⟩
    rw [slots_zip]
    exact List.mem_map_of_mem hmem
  · left
    have hnot : slot ∉ ((d.layout c).slots.zip
        (d.leaves.map fun disclosed => disclosed.leaf.hash)).map Prod.fst := by
      rwa [List.map_fst_zip (by simp [layout])]
    have hlt : slot.toNat < (Tree.slotCount (d.layout c).height).toNat := by
      rwa [Tree.toNat_slotCount]
    rw [cells, AuxTree.leafLevel, getD_foldl_set_of_notMem _ _ hnot, List.getD_eq_getElem?_getD,
      List.getElem?_replicate_of_lt hlt]
    rfl

/-- The strings of the walk up the rebuilt tree are among those `check_root` hashes. -/
lemma own_subset {i : ℕ} (hi : i < 2 ^ Tree.treeHeight c.height) :
    ((Merkle.foldPairs Tree.node ((d.cells c).getD i default) i
      (Merkle.branch (d.tree c).levels i)).map fun pair => Tree.nodeInput pair.1 pair.2) ⊆
      d.sha256Inputs c := by
  have hfuel : Tree.treeHeight c.height ≤ (d.cells c).length := by
    rw [length_cells]
    exact Nat.lt_two_pow_self.le
  have hsub := Merkle.foldPairs_branch Tree.node (length_cells d c) hfuel hi
  exact List.Subset.trans (List.map_subset _ hsub) (List.subset_append_right _ _)

/-- A walk that ends in the root of the rebuilt tree started, as many levels below it as the
tree has, at what stands there, unless there is a collision. -/
lemma eq_cell_or_collision (h : d.checkRoot c = .ok ()) {digest : Hash} {i : ℕ}
    {branch : List Hash} (hlength : branch.length = Tree.treeHeight c.height)
    (hi : i < 2 ^ Tree.treeHeight c.height)
    (hfold : Merkle.foldAt Tree.node digest i branch = c.root) :
    digest = (d.cells c).getD i default ∨
      Collision sha256 ((Merkle.foldPairs Tree.node digest i branch).map
        fun pair => Tree.nodeInput pair.1 pair.2) (d.sha256Inputs c) := by
  have hfuel : Tree.treeHeight c.height ≤ (d.cells c).length := by
    rw [length_cells]
    exact Nat.lt_two_pow_self.le
  have hown := Merkle.foldAt_branch Tree.node (length_cells d c) hfuel hi
  have hroot : Merkle.root (Merkle.levels Tree.node (d.cells c).length (d.cells c)) = c.root :=
    (checkRoot_eq_ok h).2
  have hbranch := Merkle.length_branch Tree.node (length_cells d c) hfuel i
  rcases Merkle.foldAt_inj Tree.node (hlength.trans hbranch.symm)
    (hfold.trans (hown.trans hroot).symm) with ⟨hdigest, -⟩ | hcollides
  · exact .inl hdigest
  · have hstrings := collision_of_collides sha256 (fun _ _ => rfl) Tree.nodeInput_inj hcollides
    exact .inr (hstrings.mono (List.Subset.refl _) (own_subset hi))

omit [Hasher] in
/-- A node's string is no leaf's. -/
lemma nodeInput_ne (a b : Hash) (leaf : Leaf) : Tree.nodeInput a b ≠ leaf.hashInput := by
  intro h
  have hfirst : nodePrefix = leafPrefix := (List.cons.inj h).1
  exact absurd hfirst (by decide)

/-- A disclosure that passes shows every leaf that folds to its root. -/
lemma mem_of_fold (h : d.checkRoot c = .ok ()) {leaf : Leaf} {branch : List Hash}
    (hlength : branch.length = c.height.toNat)
    (hfold : Tree.fold leaf.hash (Tree.slot leaf.category c.salt c.height) branch = c.root) :
    (∃ disclosed ∈ d.leaves, disclosed.leaf = leaf) ∨
      Collision sha256 (leaf.sha256Inputs (Tree.slot leaf.category c.salt c.height) branch)
        (d.sha256Inputs c) ∨
      ∃ x ∈ leaf.sha256Inputs (Tree.slot leaf.category c.salt c.height) branch,
        sha256 x = ByteVec.zero 32 := by
  have hnodup := (checkRoot_eq_ok h).1
  have hslot := Tree.slot_lt leaf.category c.salt c.height
  generalize Tree.slot leaf.category c.salt c.height = slot at *
  -- a branch taller than the tree is cut where the tree's leaves stand
  obtain ⟨low, high, rfl, hhigh⟩ : ∃ low high : List Hash, branch = low ++ high ∧
      high.length = Tree.treeHeight c.height := by
    refine ⟨branch.take (branch.length - Tree.treeHeight c.height),
      branch.drop (branch.length - Tree.treeHeight c.height), (List.take_append_drop _ _).symm, ?_⟩
    rw [List.length_drop, hlength, Tree.treeHeight]
    omega
  rw [Tree.fold, Merkle.foldAt_append] at hfold
  have hindex : slot.toNat / 2 ^ low.length < 2 ^ Tree.treeHeight c.height :=
    (Nat.div_le_self _ _).trans_lt hslot
  have hsub : ((Merkle.foldPairs Tree.node (Merkle.foldAt Tree.node leaf.hash slot.toNat low)
      (slot.toNat / 2 ^ low.length) high).map fun pair => Tree.nodeInput pair.1 pair.2) ⊆
      leaf.sha256Inputs slot (low ++ high) := by
    rw [Leaf.sha256Inputs, Merkle.foldPairs_append, List.map_append]
    exact List.subset_cons_of_subset _ (List.subset_append_right _ _)
  rcases eq_cell_or_collision h hhigh hindex hfold with hcell | hcollision
  swap
  · exact .inr (.inl (hcollision.mono hsub (List.Subset.refl _)))
  -- the string whose digest stands at the cut
  obtain ⟨x, hx, hdigest, hleaf⟩ : ∃ x ∈ leaf.sha256Inputs slot (low ++ high),
      Merkle.foldAt Tree.node leaf.hash slot.toNat low = sha256 x ∧
        ∀ other : Leaf, x = other.hashInput → leaf = other := by
    by_cases hlow : low = []
    · subst hlow
      exact ⟨leaf.hashInput, List.mem_cons_self, rfl, fun _ hx => Leaf.hashInput_injective hx⟩
    · obtain ⟨p, hp, heq⟩ := Merkle.exists_mem_foldPairs Tree.node leaf.hash slot.toNat hlow
      refine ⟨Tree.nodeInput p.1 p.2, ?_, heq, fun other hx => absurd hx (nodeInput_ne _ _ _)⟩
      rw [Leaf.sha256Inputs, Merkle.foldPairs_append]
      exact List.mem_cons_of_mem _ (List.mem_map_of_mem (List.mem_append_left _ hp))
  rw [hdigest] at hcell
  rcases getD_cells hnodup hindex with hzero | ⟨disclosed, hmem, hhash⟩
  · exact .inr (.inr ⟨x, hx, hcell.trans hzero⟩)
  · by_cases hsame : x = disclosed.leaf.hashInput
    · exact .inl ⟨disclosed, hmem, (hleaf _ hsame).symm⟩
    · refine .inr (.inl ⟨x, hx, disclosed.leaf.hashInput, ?_, hsame, hcell.trans hhash⟩)
      exact List.mem_append_left _ (List.mem_map_of_mem hmem)

/-! ## Jobs -/

section Jobs

variable {set : TokenSet}

/-- A job's leaves stand in the slots of its set's layout. -/
lemma layout_fromJob (hvalid : set.Valid) (terms : LeafTerms) :
    (fromJob (AuxJob.build set terms)).layout (AuxJob.build set terms).commitment = set.layout := by
  have hlength : set.entries.length ≤ set.layout.slots.length := by
    rw [hvalid.holds.slots_eq, List.length_map, List.length_map]
  have hslots : ((set.entries.zip set.layout.slots).map fun p =>
      Tree.slot p.1.token.category set.layout.salt set.layout.height) = set.layout.slots := by
    have hentries := congrArg (List.map fun e : SetEntry =>
      Tree.slot e.token.category set.layout.salt set.layout.height) (List.map_fst_zip hlength)
    rw [List.map_map] at hentries
    rw [hvalid.holds.slots_eq, List.map_map]
    nth_rewrite 1 [hvalid.holds.slots_eq] at hentries
    rw [List.map_map] at hentries
    exact hentries
  simp only [layout, fromJob, AuxJob.build, AuxJob.buildEntry, Leaf.new, List.map_map,
    Function.comp_def]
  rw [hslots]

/-- The disclosure made from a job passes against the job's commitment. -/
lemma checkRoot_fromJob (hvalid : set.Valid) (hne : set.entries ≠ []) (terms : LeafTerms) :
    (fromJob (AuxJob.build set terms)).checkRoot (AuxJob.build set terms).commitment = .ok () := by
  have hlayout := layout_fromJob hvalid terms
  have hleaves : (fromJob (AuxJob.build set terms)).leaves.isEmpty = false := by
    have hlength := AuxJob.length_build hvalid terms
    rw [hvalid.holds.slots_eq, List.length_map, List.length_map] at hlength
    have hpos := List.length_pos_iff.mpr hne
    rw [List.isEmpty_eq_false_iff, ← List.length_pos_iff, fromJob, List.length_map]
    omega
  have hroot : ((fromJob (AuxJob.build set terms)).tree (AuxJob.build set terms).commitment).root =
      (AuxJob.build set terms).commitment.root := by
    rw [tree, hlayout]
    simp only [fromJob, AuxJob.build, List.map_map, Function.comp_def]
  rw [checkRoot, if_neg (by simp [hleaves]), hlayout, if_neg (not_not.mpr hvalid.holds.nodup),
    if_neg (not_not.mpr hroot)]

end Jobs

end Disclosure

omit [Hasher] in
lemma TokenSet.entries_addThreads (set : TokenSet) (choices : List (Hash × ThreadChoice)) :
    (set.addThreads choices).entries = set.entries := by
  induction choices generalizing set with
  | nil => rfl
  | cons choice choices ih => exact ih (set.withThreads choice.1 choice.2)

lemma TokenSet.entries_ne_nil {network : MiningNetwork} {entries : List SetEntry} {serial : UInt64}
    {set : TokenSet} (h : TokenSet.new network entries serial = .ok set) : set.entries ≠ [] := by
  intro hnil
  have heasiest := (TokenSet.new_eq_ok h).2.1
  rw [hnil] at heasiest
  cases heasiest

/-- Disclosures are complete and sound.  A leaf of any category that folds to the root of a
disclosure that passes, at its own slot and with as many siblings as the tree is high, is one
of its leaves, or two strings with one digest are at hand, or one whose digest is 32 zero
bytes.  And the disclosure of every job passes against that job's root. -/
theorem disclosure_complete :
    (∀ (d : Disclosure) (c : AuxCommitment), d.checkRoot c = .ok () →
      ∀ (leaf : Leaf) (branch : List Hash), branch.length = c.height.toNat →
        Tree.fold leaf.hash (Tree.slot leaf.category c.salt c.height) branch = c.root →
        (∃ disclosed ∈ d.leaves, disclosed.leaf = leaf) ∨
          Collision sha256 (leaf.sha256Inputs (Tree.slot leaf.category c.salt c.height) branch)
            (d.sha256Inputs c) ∨
          ∃ x ∈ leaf.sha256Inputs (Tree.slot leaf.category c.salt c.height) branch,
            sha256 x = ByteVec.zero 32) ∧
    ∀ (network : MiningNetwork) (entries : List SetEntry) (serial : UInt64) (base : TokenSet),
      TokenSet.new network entries serial = .ok base →
      ∀ (choices : List (Hash × ThreadChoice)) (terms : LeafTerms),
        (Disclosure.fromJob (AuxJob.build (base.addThreads choices) terms)).checkRoot
          (AuxJob.build (base.addThreads choices) terms).commitment = .ok () := by
  refine ⟨fun d c h leaf branch hlength hfold => Disclosure.mem_of_fold h hlength hfold, ?_⟩
  intro network entries serial base hnew choices terms
  refine Disclosure.checkRoot_fromJob (TokenSet.valid_addThreads (TokenSet.valid_new hnew) choices)
    ?_ terms
  rw [TokenSet.entries_addThreads]
  exact TokenSet.entries_ne_nil hnew

omit [Hasher] in
/-- The leaf of the sample job's second entry, with its branch. -/
theorem disclosure_complete_sample :
    let : Hasher := Hasher.fips
    let job := AuxJob.build (sampleSet.addThreads []) (LeafTerms.plain [0x51])
    TokenSet.new .chipnet sampleEntries 1 = .ok sampleSet ∧
      (Disclosure.fromJob job).checkRoot job.commitment = .ok () ∧
      Tree.fold sampleLeaf.hash (Tree.slot sampleLeaf.category 0 1) sampleProof.auxBranch =
        job.commitment.root ∧
      ((∃ disclosed ∈ (Disclosure.fromJob job).leaves, disclosed.leaf = sampleLeaf) ∨
        Collision sha256 (sampleLeaf.sha256Inputs (Tree.slot sampleLeaf.category 0 1)
            sampleProof.auxBranch) ((Disclosure.fromJob job).sha256Inputs job.commitment) ∨
        ∃ x ∈ sampleLeaf.sha256Inputs (Tree.slot sampleLeaf.category 0 1) sampleProof.auxBranch,
          sha256 x = ByteVec.zero 32) := by
  intro _ job
  have hnew : TokenSet.new .chipnet sampleEntries 1 = .ok sampleSet := by decide +kernel
  have hfold : Tree.fold sampleLeaf.hash (Tree.slot sampleLeaf.category 0 1) sampleProof.auxBranch =
      job.commitment.root := by decide +kernel
  have hroot := disclosure_complete.2 .chipnet sampleEntries 1 sampleSet hnew []
    (LeafTerms.plain [0x51])
  exact ⟨hnew, hroot, hfold, disclosure_complete.1 _ _ hroot sampleLeaf _ rfl hfold⟩

end Pickaxe.Merge
