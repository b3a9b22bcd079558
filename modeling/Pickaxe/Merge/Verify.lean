/-
# The reference verifier

Step for step what a token covenant checks on a proof.  The leaf comes from the claim, never
from the proof; the verifier folds it to the aux root, rebuilds output 0 and the coinbase,
folds the coinbase to the header's merkle root and compares the header's hash with the
token's target.

Two theorems relate the verifier to the rest:

* `verify_assemble`: the proof assembled for a winning entry of a job is accepted, and
* `verifyLeaf_binding`: one header is accepted for one leaf of a category, or the two proofs
  show two different byte strings with one digest.
-/
import Pickaxe.Merge.Proof

namespace Pickaxe.Merge

open Lib

section Verifier

variable [Hasher]

/-- What a claim transaction shows a covenant through introspection. -/
structure ClaimView where
  category : Hash
  /-- `HASH256` of the token baton's locking bytecode. -/
  lockHash : Hash
  stateHash : Hash
  /-- The payout output's locking bytecode: who the claim pays. -/
  payout : Bytes
  targetBits : UInt32
  ext : Hash
  /-- The covenant's largest aux tree height (at most 16). -/
  maxAuxHeight : UInt8

/-- `ClaimView::leaf`: the leaf this claim's covenant builds. -/
def ClaimView.leaf (view : ClaimView) : Leaf :=
  Leaf.new view.category view.lockHash view.stateHash view.payout view.targetBits view.ext

namespace AuxProof

/-- The slot a leaf has in the proof's tree. -/
def slot (p : AuxProof) (leaf : Leaf) : UInt32 := Tree.slot leaf.category p.salt p.height

/-- The commitment the leaf folds to. -/
def commitment (p : AuxProof) (leaf : Leaf) : AuxCommitment :=
  ⟨Tree.fold leaf.hash (p.slot leaf) p.auxBranch, p.height, p.salt⟩

/-- The coinbase with the rebuilt output 0. -/
def coinbase (p : AuxProof) (leaf : Leaf) : Bytes :=
  p.cbHead ++ (p.commitment leaf).output.bytes ++ p.cbTail

/-- The merkle root the rebuilt coinbase reaches. -/
def merkleRoot (p : AuxProof) (leaf : Leaf) : Hash :=
  foldPath (doubleSha256 (p.coinbase leaf)) p.cbBranch

end AuxProof

/-- `verify_leaf`: the checks for a leaf a covenant has rebuilt. -/
def verifyLeaf (proof : AuxProof) (leaf : Leaf) (maxAuxHeight : UInt8) :
    Except ProofError Unit := do
  proof.checkShape
  match expandCompact leaf.targetBits with
  | none => .error .target
  | some target =>
    if proof.height > min maxAuxHeight maxHeight then .error .height
    else
      (checkHead proof.cbHead).mapError fun _ => ProofError.coinbaseHead
      if proof.cbTail.length < 4 then .error .coinbaseTail
      else if slice proof.header.bytes 36 68 ≠ (proof.merkleRoot leaf).bytes then
        .error .merkleRoot
      else if ¬ meetsTarget (doubleSha256 proof.header.bytes) target then .error .work
      else .ok ()

/-- `verify_proof`: the checks on a decoded proof. -/
def verifyProof (proof : AuxProof) (view : ClaimView) : Except ProofError Unit :=
  verifyLeaf proof view.leaf view.maxAuxHeight

/-- `verify`: the decoded proof when it verifies. -/
def verify (bytes : Bytes) (view : ClaimView) : Except ProofError AuxProof := do
  let proof ← AuxProof.fromBytes bytes
  verifyProof proof view
  return proof

/-- What `verify_leaf` accepts, condition by condition. -/
structure Accepts (proof : AuxProof) (leaf : Leaf) (maxAuxHeight : UInt8) : Prop where
  shape : proof.Shape
  height_le : proof.height ≤ min maxAuxHeight maxHeight
  head : checkHead proof.cbHead = .ok ()
  tail : 4 ≤ proof.cbTail.length
  merkle : slice proof.header.bytes 36 68 = (proof.merkleRoot leaf).bytes
  work : ∃ target, expandCompact leaf.targetBits = some target ∧
    meetsTarget (doubleSha256 proof.header.bytes) target = true

lemma verifyLeaf_eq_ok {proof : AuxProof} {leaf : Leaf} {maxAuxHeight : UInt8} :
    verifyLeaf proof leaf maxAuxHeight = .ok () ↔ Accepts proof leaf maxAuxHeight := by
  unfold verifyLeaf
  constructor
  · intro h
    obtain ⟨_, hshape, h⟩ := Except.bind_eq_ok.mp h
    split at h
    · cases h
    rename_i target htarget
    obtain ⟨hheight, h⟩ := Except.ite_error_eq_ok.mp h
    obtain ⟨_, hhead, h⟩ := Except.bind_eq_ok.mp h
    obtain ⟨htail, h⟩ := Except.ite_error_eq_ok.mp h
    obtain ⟨hmerkle, h⟩ := Except.ite_error_eq_ok.mp h
    obtain ⟨hwork, -⟩ := Except.ite_error_eq_ok.mp h
    exact ⟨AuxProof.checkShape_eq_ok.mp hshape, UInt8.not_lt.mp hheight,
      Except.mapError_eq_ok.mp hhead, Nat.not_lt.mp htail, not_not.mp hmerkle, target, htarget,
      not_not.mp hwork⟩
  · rintro ⟨hshape, hheight, hhead, htail, hmerkle, target, htarget, hwork⟩
    refine Except.bind_eq_ok.mpr ⟨(), AuxProof.checkShape_eq_ok.mpr hshape, ?_⟩
    rw [htarget]
    refine Except.ite_error_eq_ok.mpr ⟨UInt8.not_lt.mpr hheight, ?_⟩
    refine Except.bind_eq_ok.mpr ⟨(), Except.mapError_eq_ok.mpr hhead, ?_⟩
    refine Except.ite_error_eq_ok.mpr ⟨Nat.not_lt.mpr htail, ?_⟩
    refine Except.ite_error_eq_ok.mpr ⟨not_not.mpr hmerkle, ?_⟩
    exact Except.ite_error_eq_ok.mpr ⟨not_not.mpr hwork, rfl⟩

/-! ## Completeness -/

/-- The view a claim of this entry shows: its token, the state, target and ext its leaf
binds, and the script the claim pays. -/
def AuxEntry.claimView (item : AuxEntry) (payout : Bytes) : ClaimView :=
  { category := item.token.category
    lockHash := item.leaf.lockHash
    stateHash := item.leaf.stateHash
    payout := payout
    targetBits := item.leaf.targetBits
    ext := item.leaf.ext
    maxAuxHeight := item.token.maxAuxHeight }

namespace AuxJob

variable {set : TokenSet} {terms : LeafTerms} {item : AuxEntry} {k : ℕ}

/-- A job has one entry for each slot of the layout. -/
lemma length_build (hvalid : set.Valid) (terms : LeafTerms) :
    (build set terms).entries.length = set.layout.slots.length := by
  have hlen : set.layout.slots.length = set.entries.length := by
    rw [hvalid.holds.slots_eq, List.length_map, List.length_map]
  simp [build, hlen]

/-- An entry of a job is built from the entry of the set at the same place, at the slot the
layout gives its category. -/
lemma getElem?_build (hvalid : set.Valid) (hget : (build set terms).entries[k]? = some item) :
    ∃ entry ∈ set.entries, item = buildEntry set terms entry
        (Tree.slot entry.token.category set.layout.salt set.layout.height) ∧
      set.layout.slots[k]? = some item.slot := by
  obtain ⟨⟨entry, slot⟩, hzip, rfl⟩ :=
    Option.map_eq_some_iff.mp (List.getElem?_map.symm.trans hget)
  obtain ⟨hentry, hslot⟩ := List.getElem?_zip_eq_some.mp hzip
  refine ⟨entry, List.mem_of_getElem? hentry, ?_, hslot⟩
  have hmap := hvalid.holds.slots_eq
  have hcat : set.layout.slots[k]? =
      some (Tree.slot entry.token.category set.layout.salt set.layout.height) := by
    rw [hmap]
    simp [hentry]
  rw [← Option.some.inj (hslot.symm.trans hcat)]

/-- The leaf of an entry folds to the root of the job's tree. -/
lemma fold_entry (hvalid : set.Valid) (hget : (build set terms).entries[k]? = some item) :
    Tree.fold item.leaf.hash item.slot ((build set terms).tree.branch item.slot) =
      (build set terms).tree.root := by
  obtain ⟨entry, -, hitem, hslot⟩ := getElem?_build hvalid hget
  have hleaf : ((build set terms).entries.map fun e => e.leaf.hash)[k]? = some item.leaf.hash := by
    rw [List.getElem?_map, hget]
    rfl
  refine AuxTree.fold_branch hvalid.holds.nodup ?_ ?_ ?_
  · exact (length_build hvalid terms).symm.le.trans (List.length_map _).symm.le
  · exact List.mem_of_getElem? (List.getElem?_zip_eq_some.mpr ⟨hslot, hleaf⟩)
  · rw [hitem]
    exact Tree.slot_lt _ _ _

end AuxJob

/-- The proof of an entry of `job` over a coinbase cut around output 0. -/
def AuxJob.proofOf (job : AuxJob) (item : AuxEntry) (cbHead cbTail : Bytes) (branch : List Hash)
    (header : ByteVec 80) : AuxProof :=
  { header := header
    height := job.commitment.height
    salt := job.commitment.salt
    auxBranch := job.tree.branch item.slot
    cbHead := cbHead
    cbTail := cbTail
    cbBranch := branch }

omit [Hasher] in
/-- `assemble` cuts the coinbase around output 0. -/
lemma assemble_eq_ok {job : AuxJob} {i : UInt16} {item : AuxEntry} {cbHead cbTail : Bytes}
    {branch : List Hash} {header : ByteVec 80} {length : UInt8}
    (hget : job.entries[i.toNat]? = some item)
    (hlength : (cbHead ++ job.output.bytes ++ cbTail)[41]? = some length)
    (hhead : cbHead.length = 47 + length.toNat)
    (hshape : (job.proofOf item cbHead cbTail branch header).Shape) :
    AuxProof.assemble job i (cbHead ++ job.output.bytes ++ cbTail) branch header =
      .ok (job.proofOf item cbHead cbTail branch header) := by
  have hlen : job.output.bytes.length = outputLen := job.output.length_eq
  have hslice : slice? (cbHead ++ job.output.bytes ++ cbTail) (47 + length.toNat)
      (47 + length.toNat + outputLen) = some job.output.bytes := by
    refine slice?_eq_some.mpr ⟨by omega, ?_, slice_append hhead (by omega)⟩
    simp only [List.length_append]
    omega
  have htake : (cbHead ++ job.output.bytes ++ cbTail).take (47 + length.toNat) = cbHead := by
    rw [List.append_assoc, List.take_left' hhead]
  have hdrop : (cbHead ++ job.output.bytes ++ cbTail).drop (47 + length.toNat + outputLen) =
      cbTail := by
    refine List.drop_left' ?_
    rw [List.length_append]
    omega
  unfold AuxProof.assemble
  simp only [hget, hlength, hslice, htake, hdrop, ne_eq, not_true_eq_false, if_false]
  exact Except.bind_eq_ok.mpr ⟨(), AuxProof.checkShape_eq_ok.mpr hshape, rfl⟩

/-- The verifier rebuilds the coinbase an entry's proof was assembled from. -/
lemma coinbase_proofOf {set : TokenSet} {terms : LeafTerms} {item : AuxEntry} {k : ℕ}
    (hvalid : set.Valid) (hget : (AuxJob.build set terms).entries[k]? = some item)
    (cbHead cbTail : Bytes) (branch : List Hash) (header : ByteVec 80) :
    ((AuxJob.build set terms).proofOf item cbHead cbTail branch header).coinbase item.leaf =
      cbHead ++ (AuxJob.build set terms).output.bytes ++ cbTail := by
  obtain ⟨entry, -, hitem, -⟩ := AuxJob.getElem?_build hvalid hget
  have hslot : item.slot = Tree.slot item.leaf.category set.layout.salt set.layout.height := by
    rw [hitem]
    rfl
  have hfold := AuxJob.fold_entry hvalid hget
  have hcommit : ((AuxJob.build set terms).proofOf item cbHead cbTail branch header).commitment
      item.leaf = (AuxJob.build set terms).commitment := by
    refine AuxCommitment.ext ?_ rfl rfl
    nth_rewrite 1 [hslot] at hfold
    exact hfold
  rw [AuxProof.coinbase, hcommit]
  rfl

/-- The builder and the verifier agree: for every token set, every terms and every job built
from them, a winning entry's proof is assembled, survives its encoding and is accepted with
the view of that entry's claim.  The part of the coinbase after output 0 holds its lock time
and fits its length field, the limits the code itself sets. -/
theorem verify_assemble {network : MiningNetwork} {entries : List SetEntry} {serial : UInt64}
    {base : TokenSet} (hset : TokenSet.new network entries serial = .ok base)
    (choices : List (Hash × ThreadChoice)) (terms : LeafTerms) {job : AuxJob}
    (hjob : job = AuxJob.build (base.addThreads choices) terms) {coinbase : Bytes}
    (hout : outputZero coinbase = some job.output.bytes) {head : ℕ}
    (hhead : headLen coinbase = some head) (hlocktime : head + outputLen + 4 ≤ coinbase.length)
    (hfits : coinbase.length ≤ head + outputLen + maxPartLen) {branch : List Hash}
    (hbranch : branch.length ≤ maxCoinbaseBranch) {header : ByteVec 80}
    (hroot : slice header.bytes 36 68 = (foldPath (doubleSha256 coinbase) branch).bytes)
    {i : UInt16} (hwin : i ∈ job.wins (doubleSha256 header.bytes)) :
    ∃ item proof bytes, job.entries[i.toNat]? = some item ∧
      AuxProof.assemble job i coinbase branch header = .ok proof ∧
      proof.toBytes = .ok bytes ∧ AuxProof.fromBytes bytes = .ok proof ∧
      verify bytes (item.claimView (AuxJob.termsOf terms item.token).1) = .ok proof := by
  subst hjob
  have hvalid := TokenSet.valid_addThreads (TokenSet.valid_new hset) choices
  generalize base.addThreads choices = set at *
  obtain ⟨item, hget, hmeets⟩ := AuxJob.mem_wins.mp hwin
  obtain ⟨entry, hentry, hitem, -⟩ := AuxJob.getElem?_build hvalid hget
  obtain ⟨cbHead, cbTail, length, rfl, hcheck, hlength, hlen, hheadlen, houtlen⟩ :=
    outputZero_eq_some hout
  obtain rfl : cbHead.length = head := Option.some.inj (hheadlen.symm.trans hhead)
  simp only [List.length_append, houtlen] at hlocktime hfits
  have hmax : set.layout.height.toNat ≤ 16 := UInt8.le_iff_toNat_le.mp hvalid.height_le_max
  have hscript : length.toNat < 256 := length.toNat_lt
  -- the proof's parts fit the fields that carry their lengths
  have hshape : ((AuxJob.build set terms).proofOf item cbHead cbTail branch header).Shape := by
    refine ⟨hvalid.height_le_max, ?_, hbranch, ?_, ?_⟩
    · exact (AuxTree.length_branch _).trans (Nat.min_eq_left hmax)
    · show cbHead.length ≤ maxPartLen
      rw [hlen, maxPartLen]
      omega
    · show cbTail.length ≤ maxPartLen
      omega
  have hcoinbase := coinbase_proofOf hvalid hget cbHead cbTail branch header
  have hleaf : (item.claimView (AuxJob.termsOf terms item.token).1).leaf = item.leaf := by
    rw [hitem]
    rfl
  refine ⟨item, _, _, hget, assemble_eq_ok hget hlength hlen hshape,
    AuxProof.toBytes_eq_ok hshape, AuxProof.fromBytes_encode hshape, ?_⟩
  refine Except.bind_eq_ok.mpr ⟨_, AuxProof.fromBytes_encode hshape, ?_⟩
  refine Except.bind_eq_ok.mpr ⟨(), ?_, rfl⟩
  -- the verifier's steps, one after another
  rw [verifyProof, hleaf, verifyLeaf_eq_ok]
  refine ⟨hshape, ?_, hcheck, by show 4 ≤ cbTail.length; omega, ?_, item.target, ?_, hmeets⟩
  · have hallowed : set.layout.height ≤ item.token.maxAuxHeight := by
      rw [hitem]
      exact hvalid.height_le entry hentry
    exact Std.le_min_iff.mpr ⟨hallowed, hvalid.height_le_max⟩
  · rw [AuxProof.merkleRoot, hcoinbase]
    exact hroot
  · rw [hitem]
    exact (AuxJob.stateOf set terms entry).expand

end Verifier

/-! ### A run with SHA-256 -/

section Sample

/-- A state about every second header wins. -/
def sampleState : TokenState :=
  ⟨ByteVec.zero 32, ByteVec.zero 32, 0x207fffff,
    ⟨List.replicate 29 0 ++ [0xff, 0xff, 0x7f], rfl⟩, by decide +kernel⟩

/-- The second token's category. -/
lemma length_sevens : (List.replicate 32 (7 : UInt8)).length = 32 := rfl

/-- The test token and one without split support. -/
def sampleEntries : List SetEntry :=
  [⟨testToken, sampleState⟩,
    ⟨{ testToken with
      name := "Second test token"
      category := ⟨List.replicate 32 7, rfl⟩
      split := false }, sampleState⟩]

/-- Their set: a tree of height 1, each token in its own slot. -/
def sampleSet : TokenSet :=
  ⟨sampleEntries, ⟨1, 0, [0, 1]⟩, sampleState.target, 1, [], []⟩

/-- A coinbase with a script-sig of three bytes. -/
def sampleHead : Bytes := List.replicate 4 0 ++ nullInput ++ [3, 1, 2, 3, 0, 0, 0, 0, 1]

/-- The commitment of the job that pays the script `51`. -/
def sampleCommitment : AuxCommitment :=
  ⟨Hash.ofHex 0x698e4a8fd22f955d6f116d95df12f9ed97a86a38f8ed62fb4d9798f4eea822cc, 1, 0⟩

/-- The header over this coinbase with one more transaction. -/
def sampleHeader : ByteVec 80 :=
  ⟨List.replicate 36 0 ++
    (Hash.ofHex 0x54c4f4c4a4b881ff704da75e3e0d7b8a5436f27a55dfccdf6205e7530695896f).bytes ++
    1 :: List.replicate 11 0, by simp⟩

theorem verify_assemble_sample :
    let job := @AuxJob.build Hasher.fips (sampleSet.addThreads []) (LeafTerms.plain [0x51])
    ∃ item proof bytes, job.entries[1]? = some item ∧
      AuxProof.assemble job 1 (sampleHead ++ sampleCommitment.output.bytes ++ [0, 0, 0, 0])
        [ByteVec.zero 32] sampleHeader = .ok proof ∧
      proof.toBytes = .ok bytes ∧ AuxProof.fromBytes bytes = .ok proof ∧
      @verify Hasher.fips bytes
        (item.claimView (AuxJob.termsOf (LeafTerms.plain [0x51]) item.token).1) = .ok proof :=
  @verify_assemble Hasher.fips .chipnet sampleEntries 1 sampleSet (by decide +kernel) []
    (LeafTerms.plain [0x51]) _ rfl (sampleHead ++ sampleCommitment.output.bytes ++ [0, 0, 0, 0])
    (by decide +kernel) 50 (by decide +kernel) (by decide) (by decide) [ByteVec.zero 32] (by decide)
    sampleHeader (by decide +kernel) 1 (by decide +kernel)

end Sample

/-! ## Binding -/

section Binding

variable [Hasher]

namespace AuxProof

/-- The strings of which the verifier takes the SHA-256 on its way from the leaf to the aux
root. -/
def sha256Inputs (p : AuxProof) (leaf : Leaf) : List Bytes :=
  leaf.hashInput :: (Merkle.foldPairs Tree.node leaf.hash (p.slot leaf).toNat p.auxBranch).map
    fun pair => Tree.nodeInput pair.1 pair.2

/-- The strings of which the verifier takes the double SHA-256 on its way from the coinbase
to the merkle root. -/
def doubleSha256Inputs (p : AuxProof) (leaf : Leaf) : List Bytes :=
  p.coinbase leaf :: (Merkle.foldPairs pairHash (doubleSha256 (p.coinbase leaf)) 0 p.cbBranch).map
    fun pair => pairInput pair.1 pair.2

end AuxProof

omit [Hasher] in
/-- Two different strings, one from each list, with the same digest. -/
def Collision (digest : Bytes → Hash) (xs ys : List Bytes) : Prop :=
  ∃ x ∈ xs, ∃ y ∈ ys, x ≠ y ∧ digest x = digest y

omit [Hasher] in
/-- A collision of combined pairs is one of the strings they are combined from. -/
lemma collision_of_collides {node : Hash → Hash → Hash} {input : Hash → Hash → Bytes}
    (digest : Bytes → Hash) (hnode : ∀ a b, node a b = digest (input a b))
    (hinj : ∀ {a b c d}, input a b = input c d → a = c ∧ b = d) {ps qs : List (Hash × Hash)}
    (h : Merkle.Collides node ps qs) :
    Collision digest (ps.map fun p => input p.1 p.2) (qs.map fun q => input q.1 q.2) := by
  obtain ⟨p, hp, q, hq, hne, heq⟩ := h
  refine ⟨_, List.mem_map_of_mem hp, _, List.mem_map_of_mem hq, ?_, ?_⟩
  · intro h
    obtain ⟨h1, h2⟩ := hinj h
    exact hne (Prod.ext h1 h2)
  · rw [← hnode, ← hnode, heq]

omit [Hasher] in
lemma Collision.mono {digest : Bytes → Hash} {xs xs' ys ys' : List Bytes}
    (h : Collision digest xs ys) (hxs : xs ⊆ xs') (hys : ys ⊆ ys') : Collision digest xs' ys' := by
  obtain ⟨x, hx, y, hy, hne, heq⟩ := h
  exact ⟨x, hxs hx, y, hys hy, hne, heq⟩

variable {p q : AuxProof} {l m : Leaf} {maxP maxQ : UInt8}

/-- A coinbase is longer than a node of the transaction tree. -/
lemma Accepts.coinbase_length (h : Accepts p l maxP) : 100 ≤ (p.coinbase l).length := by
  obtain ⟨length, -, hlen⟩ := checkHead_eq_ok h.head
  have houtput := (p.commitment l).output.length_eq
  simp only [AuxProof.coinbase, List.length_append]
  omega

/-- A coinbase whose digest is that of a node collides with it. -/
lemma Accepts.collision_of_eq_pairHash (h : Accepts p l maxP) {pairs : List (Hash × Hash)}
    {pair : Hash × Hash} (hpair : pair ∈ pairs)
    (heq : doubleSha256 (p.coinbase l) = pairHash pair.1 pair.2) :
    Collision doubleSha256 (p.doubleSha256Inputs l)
      (pairs.map fun pair => pairInput pair.1 pair.2) := by
  refine ⟨_, List.mem_cons_self, _, List.mem_map_of_mem hpair, ?_, heq⟩
  intro hstring
  have hlong := h.coinbase_length
  rw [hstring, length_pairInput] at hlong
  omega

/-- One merkle root, one coinbase: the branches may have any lengths. -/
lemma coinbase_binding (hp : Accepts p l maxP) (hq : Accepts q m maxQ)
    (hheader : p.header = q.header) :
    p.coinbase l = q.coinbase m ∨
      Collision doubleSha256 (p.doubleSha256Inputs l) (q.doubleSha256Inputs m) := by
  have hroot : foldPath (doubleSha256 (p.coinbase l)) p.cbBranch =
      foldPath (doubleSha256 (q.coinbase m)) q.cbBranch := by
    apply ByteVec.ext
    rw [← AuxProof.merkleRoot, ← AuxProof.merkleRoot, ← hp.merkle, ← hq.merkle, hheader]
  rcases Merkle.foldl_eq_cases pairHash hroot with
    ⟨hdigest, -⟩ | hcollides | ⟨pair, hpair, heq⟩ | ⟨pair, hpair, heq⟩
  · -- the two coinbases have one digest
    by_cases hcoinbase : p.coinbase l = q.coinbase m
    · exact Or.inl hcoinbase
    · exact Or.inr ⟨_, List.mem_cons_self, _, List.mem_cons_self, hcoinbase, hdigest⟩
  · -- the two branches combine different pairs to one digest
    have hstrings := collision_of_collides doubleSha256 (fun _ _ => rfl)
      pairInput_inj hcollides
    exact Or.inr (hstrings.mono (List.subset_cons_self _ _) (List.subset_cons_self _ _))
  · -- the first coinbase stands where the second walk has a node
    have hstrings := hp.collision_of_eq_pairHash hpair heq
    exact Or.inr (hstrings.mono (List.Subset.refl _) (List.subset_cons_self _ _))
  · -- the second coinbase stands where the first walk has a node
    obtain ⟨x, hx, y, hy, hne, hxy⟩ := hq.collision_of_eq_pairHash hpair heq
    exact Or.inr ⟨y, List.mem_cons_of_mem _ hy, x, hx, hne.symm, hxy.symm⟩

/-- One coinbase, one commitment. -/
lemma commitment_binding (hp : Accepts p l maxP) (hq : Accepts q m maxQ)
    (h : p.coinbase l = q.coinbase m) : p.commitment l = q.commitment m := by
  simp only [AuxProof.coinbase, List.append_assoc] at h
  obtain ⟨-, hrest⟩ := head_unique hp.head hq.head h
  exact AuxCommitment.output_inj (ByteVec.append_inj hrest).1

/-- One commitment, one leaf of a category. -/
lemma leaf_binding (hp : Accepts p l maxP) (hq : Accepts q m maxQ)
    (hcategory : l.category = m.category) (h : p.commitment l = q.commitment m) :
    l = m ∨ Collision sha256 (p.sha256Inputs l) (q.sha256Inputs m) := by
  have hroot : (p.commitment l).root = (q.commitment m).root := by rw [h]
  have hheight : p.height = q.height := congrArg AuxCommitment.height h
  have hsalt : p.salt = q.salt := congrArg AuxCommitment.salt h
  have hslot : p.slot l = q.slot m := by
    rw [AuxProof.slot, AuxProof.slot, hcategory, hsalt, hheight]
  have hlen : p.auxBranch.length = q.auxBranch.length := by
    rw [hp.shape.2.1, hq.shape.2.1, hheight]
  simp only [AuxProof.commitment, Tree.fold, hslot] at hroot
  rcases Merkle.foldAt_inj Tree.node hlen hroot with ⟨hdigest, -⟩ | hcollides
  · by_cases hleaf : l = m
    · exact Or.inl hleaf
    · refine Or.inr ⟨_, List.mem_cons_self, _, List.mem_cons_self, ?_, hdigest⟩
      exact fun heq => hleaf (Leaf.hashInput_injective heq)
  · have hstrings := collision_of_collides sha256 (fun _ _ => rfl)
      Tree.nodeInput_inj hcollides
    rw [← hslot] at hstrings
    refine Or.inr (hstrings.mono (List.subset_cons_self _ _) ?_)
    rw [hslot]
    exact List.subset_cons_self _ _

/-- One header pays one leaf per category: two accepted proofs with one header and leaves of
one category have the same leaf, or they show two different strings with one digest among
those the verifier hashes. -/
theorem verifyLeaf_binding (hp : verifyLeaf p l maxP = .ok ()) (hq : verifyLeaf q m maxQ = .ok ())
    (hheader : p.header = q.header) (hcategory : l.category = m.category) :
    l = m ∨ Collision sha256 (p.sha256Inputs l) (q.sha256Inputs m) ∨
      Collision doubleSha256 (p.doubleSha256Inputs l) (q.doubleSha256Inputs m) := by
  have hp := verifyLeaf_eq_ok.mp hp
  have hq := verifyLeaf_eq_ok.mp hq
  rcases coinbase_binding hp hq hheader with hcoinbase | hcollision
  · rcases leaf_binding hp hq hcategory (commitment_binding hp hq hcoinbase) with
      hleaf | hcollision
    · exact Or.inl hleaf
    · exact Or.inr (Or.inl hcollision)
  · exact Or.inr (Or.inr hcollision)

end Binding

/-- The proof of the second entry of the sample job. -/
def sampleProof : AuxProof :=
  { header := sampleHeader
    height := 1
    salt := 0
    auxBranch := [Hash.ofHex 0x5cc22d866f0dd19685242dda48048bca7376f136abc096a7ec4dda08156abae9]
    cbHead := sampleHead
    cbTail := [0, 0, 0, 0]
    cbBranch := [ByteVec.zero 32] }

/-- The leaf of that entry. -/
def sampleLeaf : Leaf :=
  @Leaf.new Hasher.fips ⟨List.replicate 32 7, rfl⟩ (ByteVec.zero 32) (ByteVec.zero 32) [0x51]
    0x207fffff (ByteVec.zero 32)

theorem verifyLeaf_binding_sample :
    sampleLeaf = sampleLeaf ∨
      Collision (@sha256 Hasher.fips) (@AuxProof.sha256Inputs Hasher.fips sampleProof sampleLeaf)
        (@AuxProof.sha256Inputs Hasher.fips sampleProof sampleLeaf) ∨
      Collision (@doubleSha256 Hasher.fips)
        (@AuxProof.doubleSha256Inputs Hasher.fips sampleProof sampleLeaf)
        (@AuxProof.doubleSha256Inputs Hasher.fips sampleProof sampleLeaf) :=
  @verifyLeaf_binding Hasher.fips sampleProof sampleProof sampleLeaf sampleLeaf 16 16
    (by decide +kernel) (by decide +kernel) rfl rfl

end Pickaxe.Merge
