/-
# Disclosure to miners

The two messages of the disclosure extension: after each job its leaves, each with the branch
that leads from it to output 0's root (`JobLeaves`), and after a share that wins a token the
win's proof (`WinProof`).

What either reader accepts is what the writer writes (`decode_eq_ok`).  The leaves of every
job are read back, and a win's proof exactly when its length fits the two bytes it is
written in (`WinProof.decode_encode_iff`).
-/
import Mathlib.Algebra.Order.BigOperators.Group.List
import Pickaxe.Lib.CompactSize
import Pickaxe.Merge.Complete

namespace Pickaxe.Merge

open Lib

/-! ## The leaves of a job -/

/-- A job's leaves for a miner, with each leaf's aux branch. -/
@[ext] structure JobLeaves where
  channel : UInt32
  job : UInt32
  output : ByteVec 53
  disclosure : Disclosure
  branches : List (List Hash)
deriving DecidableEq

namespace JobLeaves

/-- `JobLeaves::from_job`. -/
def fromJob (channel job : UInt32) (aux : AuxJob) : JobLeaves :=
  { channel := channel
    job := job
    output := aux.output
    disclosure := Disclosure.fromJob aux
    branches := aux.entries.map fun entry => aux.tree.branch entry.slot }

/-- `JobLeaves::encode`. -/
def encode (x : JobLeaves) : Bytes :=
  u32Le x.channel ++ (u32Le x.job ++ (x.output.bytes ++
    (u16Le (UInt16.ofNat x.disclosure.encode.length) ++ (x.disclosure.encode ++
      x.branches.flatMap AuxProof.branchBytes))))

/-- The refusal of bytes that are no job's leaves. -/
def bad : String := "not a job's merge-mining leaves"

variable [Hasher]

/-- The branches of the leaves: each as long as the tree is high, and leading to its root. -/
def readBranches (commitment : AuxCommitment) : List DisclosedLeaf → Reader String (List (List Hash))
  | [] => pure []
  | disclosed :: leaves => do
    let branch ← Reader.times (Reader.array bad 32) commitment.height.toNat
    Reader.guard (Tree.fold disclosed.leaf.hash
      (Tree.slot disclosed.leaf.category commitment.salt commitment.height) branch = commitment.root)
      "a disclosed branch does not reach output 0's root"
    let branches ← readBranches commitment leaves
    return branch :: branches

/-- The reader of `JobLeaves::decode`, up to the end of the bytes. -/
def read : Reader String JobLeaves := do
  let channel ← Reader.array bad 4
  let job ← Reader.array bad 4
  let output ← Reader.array bad 53
  let commitment ← Reader.lift ((AuxCommitment.parse output.bytes).elim (.error bad) .ok)
  let length ← Reader.array bad 2
  let bytes ← Reader.take bad (u16OfLe length.bytes).toNat
  let disclosure ← Reader.lift (Disclosure.decode bytes)
  Reader.lift (disclosure.checkRoot commitment)
  let branches ← readBranches commitment disclosure.leaves
  return ⟨u32OfLe channel.bytes, u32OfLe job.bytes, output, disclosure, branches⟩

/-- `JobLeaves::decode`: exactly one, whose leaves and branches make output 0's root. -/
def decode (bytes : Bytes) : Except String JobLeaves :=
  Prod.fst <$> (do
    let leaves ← read
    Reader.eof bad
    return leaves : Reader String JobLeaves) bytes

/-- A branch that `readBranches` accepts for a leaf. -/
def Leads (commitment : AuxCommitment) (disclosed : DisclosedLeaf) (branch : List Hash) : Prop :=
  branch.length = commitment.height.toNat ∧
    Tree.fold disclosed.leaf.hash
      (Tree.slot disclosed.leaf.category commitment.salt commitment.height) branch = commitment.root

lemma reads_readBranches {c : AuxCommitment} {leaves : List DisclosedLeaf}
    {branches : List (List Hash)} (h : List.Forall₂ (Leads c) leaves branches) :
    Reader.Reads (readBranches c leaves) branches (branches.flatMap AuxProof.branchBytes) := by
  induction h with
  | nil => exact Reader.reads_pure []
  | @cons disclosed branch leaves branches hleads _ ih =>
    obtain ⟨hlength, hfold⟩ := hleads
    have hbranch : Reader.Reads (Reader.times (Reader.array bad 32) c.height.toNat) branch
        (AuxProof.branchBytes branch) := by
      rw [← hlength]
      exact Reader.reads_times fun a _ => Reader.reads_array a
    have hrest := ih.bind (f := fun branches => pure (branch :: branches))
      (Reader.reads_pure (branch :: branches))
    rw [List.append_nil] at hrest
    exact hbranch.bind (Reader.Reads.guard_bind hfold hrest)

lemma readBranches_eq_ok {c : AuxCommitment} {leaves : List DisclosedLeaf} {s rest : Bytes}
    {branches : List (List Hash)} (h : readBranches c leaves s = .ok (branches, rest)) :
    s = branches.flatMap AuxProof.branchBytes ++ rest := by
  induction leaves generalizing s branches with
  | nil =>
    cases Reader.pure_eq_ok h
    rfl
  | cons disclosed leaves ih =>
    obtain ⟨branch, t, hbranch, h⟩ := Reader.bind_eq_ok h
    obtain ⟨_, _, hguard, h⟩ := Reader.bind_eq_ok h
    obtain ⟨-, hs⟩ := Reader.guard_eq_ok hguard
    cases hs
    obtain ⟨others, u, hothers, h⟩ := Reader.bind_eq_ok h
    cases Reader.pure_eq_ok h
    rw [(Reader.inverts_array.times hbranch).2, ih hothers, List.flatMap_cons, List.append_assoc]
    rfl

/-- Leaves as a job has them. -/
structure Sound (x : JobLeaves) (c : AuxCommitment) : Prop where
  output : x.output = c.output
  count : x.disclosure.leaves.length ≤ maxLeaves
  canonical : ∀ leaf ∈ x.disclosure.leaves, leaf.Canonical
  root : x.disclosure.checkRoot c = .ok ()
  branches : List.Forall₂ (Leads c) x.disclosure.leaves x.branches

omit [Hasher] in
/-- A disclosure of at most 16 leaves fits its length field. -/
lemma length_disclosure {d : Disclosure} (h : d.leaves.length ≤ maxLeaves) :
    d.encode.length < 2 ^ 16 := by
  have hleaf : ∀ leaf : DisclosedLeaf, leaf.encode.length ≤ 239 := by
    intro leaf
    rw [DisclosedLeaf.encode, List.length_append, leaf.leaf.length_preimage]
    split
    · simp
    · rw [List.length_append, leaf.split.length_preimage]
      simp
  have hsum : (d.leaves.flatMap DisclosedLeaf.encode).length ≤ d.leaves.length * 239 := by
    rw [List.length_flatMap]
    refine (List.sum_le_card_nsmul _ 239 fun n hn => ?_).trans (by simp)
    obtain ⟨leaf, -, rfl⟩ := List.mem_map.mp hn
    exact hleaf leaf
  have hmax : d.leaves.length ≤ 16 := h
  rw [Disclosure.encode]
  simp only [List.length_append, disclosureMagic, List.length_cons, List.length_nil]
  omega

/-- Leaves whose commitment is one a reader accepts are read back. -/
lemma decode_encode {x : JobLeaves} {c : AuxCommitment} (h : x.Sound c) (hc : c.Readable) :
    decode x.encode = .ok x := by
  have hlength := length_disclosure h.count
  have hnat : (UInt16.ofNat x.disclosure.encode.length).toNat = x.disclosure.encode.length :=
    UInt16.toNat_ofNat_of_lt' hlength
  have hread : Reader.Reads read x x.encode := by
    unfold read encode
    refine (Reader.reads_array (⟨u32Le x.channel, length_u32Le _⟩ : ByteVec 4)).bind ?_
    refine (Reader.reads_array (⟨u32Le x.job, length_u32Le _⟩ : ByteVec 4)).bind ?_
    refine (Reader.reads_array x.output).bind ?_
    rw [← List.nil_append (u16Le _ ++ _)]
    refine (Reader.reads_lift (a := c) ?_).bind ?_
    · rw [h.output, AuxCommitment.parse_output hc]
      rfl
    refine (Reader.reads_array (⟨u16Le (UInt16.ofNat x.disclosure.encode.length), length_u16Le _⟩ :
      ByteVec 2)).bind ?_
    refine (Reader.reads_take ?_).bind ?_
    · rw [u16OfLe_u16Le, hnat]
    rw [← List.nil_append (x.branches.flatMap _)]
    refine (Reader.reads_lift (Disclosure.decode_encode h.count h.canonical)).bind ?_
    rw [← List.nil_append (x.branches.flatMap _)]
    refine (Reader.reads_lift h.root).bind ?_
    rw [← List.append_nil (x.branches.flatMap _)]
    refine (reads_readBranches h.branches).bind ?_
    simp only [u32OfLe_u32Le]
    exact Reader.reads_pure x
  rw [decode, hread.bind_eof]
  rfl

/-- What is accepted is what these leaves are written as, under a commitment a reader
accepts. -/
lemma decode_eq_ok {bytes : Bytes} {x : JobLeaves} (h : decode bytes = .ok x) :
    bytes = x.encode ∧ ∃ c : AuxCommitment, c.Readable ∧ x.output = c.output := by
  obtain ⟨⟨x', rest⟩, hread, rfl⟩ := Except.map_eq_ok.mp h
  obtain ⟨channel, s1, hchannel, h⟩ := Reader.bind_eq_ok (Reader.bind_eof_eq_ok hread)
  obtain ⟨job, s2, hjob, h⟩ := Reader.bind_eq_ok h
  obtain ⟨output, s3, houtput, h⟩ := Reader.bind_eq_ok h
  obtain ⟨c, s4, hc, h⟩ := Reader.bind_eq_ok h
  obtain ⟨length, s5, hlength, h⟩ := Reader.bind_eq_ok h
  obtain ⟨part, s6, hpart, h⟩ := Reader.bind_eq_ok h
  obtain ⟨disclosure, s7, hdisclosure, h⟩ := Reader.bind_eq_ok h
  obtain ⟨_, s8, hroot, h⟩ := Reader.bind_eq_ok h
  obtain ⟨branches, s9, hbranches, h⟩ := Reader.bind_eq_ok h
  cases Reader.pure_eq_ok h
  obtain ⟨hparse, rfl⟩ := Reader.lift_eq_ok hc
  obtain ⟨hdecode, rfl⟩ := Reader.lift_eq_ok hdisclosure
  obtain ⟨-, rfl⟩ := Reader.lift_eq_ok hroot
  obtain ⟨rfl, hlen⟩ := Reader.take_eq_ok hpart
  have hof : UInt16.ofNat part.length = u16OfLe length.bytes := by rw [hlen, UInt16.ofNat_toNat]
  obtain rfl := Disclosure.decode_eq_ok hdecode
  refine ⟨?_, ?_⟩
  · rw [Reader.array_eq_ok hchannel, Reader.array_eq_ok hjob, Reader.array_eq_ok houtput,
      Reader.array_eq_ok hlength, readBranches_eq_ok hbranches, List.append_nil]
    simp only [encode, hof, u32Le_u32OfLe channel.length_eq, u32Le_u32OfLe job.length_eq,
      u16Le_u16OfLe length.length_eq]
  · cases hcommitment : AuxCommitment.parse output.bytes with
    | none =>
      rw [hcommitment] at hparse
      cases hparse
    | some found =>
      obtain ⟨hreadable, hbytes⟩ := AuxCommitment.parse_eq_some hcommitment
      exact ⟨found, hreadable, ByteVec.ext hbytes⟩

/-- Leaves as a job has them are read back exactly when a reader accepts their commitment. -/
lemma decode_encode_iff {x : JobLeaves} {c : AuxCommitment} (h : x.Sound c) :
    decode x.encode = .ok x ↔ c.Readable := by
  constructor
  · intro hok
    obtain ⟨-, found, hreadable, houtput⟩ := decode_eq_ok hok
    rwa [AuxCommitment.output_inj (h.output.symm.trans houtput)]
  · exact decode_encode h

end JobLeaves

/-! ## The proof of a win -/

/-- A token win's proof for the miner whose share won it. -/
@[ext] structure WinProof where
  channel : UInt32
  job : UInt32
  category : Hash
  proof : Bytes
  split : Split
deriving DecidableEq

namespace WinProof

/-- `WinProof::encode`: the proof's length as a `u16`, whatever it is. -/
def encode (w : WinProof) : Bytes :=
  u32Le w.channel ++ (u32Le w.job ++ (w.category.bytes ++
    (u16Le (UInt16.ofNat w.proof.length) ++ (w.proof ++
      if w.split.isNone then [0] else [69] ++ w.split.preimage))))

/-- The refusal of bytes that are no win proof. -/
def bad : String := "not a merge-mining win proof"

/-- The split that follows its length. -/
def readSplit (length : UInt8) : Reader String Split :=
  if length = 0 then pure Split.none
  else if length = 69 then do
    let preimage ← Reader.take bad 69
    Reader.lift ((Split.parse preimage).mapError fun _ => bad)
  else Reader.fail bad

/-- The reader of `WinProof::decode`, up to the end of the bytes. -/
def read : Reader String WinProof := do
  let channel ← Reader.array bad 4
  let job ← Reader.array bad 4
  let category ← Reader.array bad 32
  let length ← Reader.array bad 2
  let proof ← Reader.take bad (u16OfLe length.bytes).toNat
  let length ← Reader.byte bad
  let split ← readSplit length
  return ⟨u32OfLe channel.bytes, u32OfLe job.bytes, category, proof, split⟩

/-- `WinProof::decode`. -/
def decode (bytes : Bytes) : Except String WinProof :=
  Prod.fst <$> (do
    let proof ← read
    Reader.eof bad
    return proof : Reader String WinProof) bytes

/-- What is read after the proof is what a split is written as. -/
lemma readSplit_eq_ok {length : UInt8} {s rest : Bytes} {split : Split}
    (h : readSplit length s = .ok (split, rest)) :
    length :: s = (if split.isNone then [0] else [69] ++ split.preimage) ++ rest := by
  unfold readSplit at h
  split_ifs at h with h0 h69
  · cases Reader.pure_eq_ok h
    rw [h0]
    rfl
  · obtain ⟨preimage, t, htake, h⟩ := Reader.bind_eq_ok h
    obtain ⟨hsplit, rfl⟩ := Reader.lift_eq_ok h
    obtain ⟨rfl, -⟩ := Reader.take_eq_ok htake
    obtain ⟨rfl, hnone⟩ := Split.parse_eq_ok (Except.mapError_eq_ok.mp hsplit)
    rw [h69, hnone]
    simp
  · cases h

lemma reads_split (w : WinProof) : Reader.Reads (do
      let length ← Reader.byte bad
      let split ← readSplit length
      return ⟨w.channel, w.job, w.category, w.proof, split⟩) w
    (if w.split.isNone then [0] else [69] ++ w.split.preimage) := by
  by_cases hnone : w.split.isNone = true
  · rw [if_pos hnone, ← List.append_nil [0]]
    refine (Reader.reads_byte 0).bind ?_
    rw [← List.append_nil []]
    refine (Reader.reads_pure Split.none).bind ?_
    rw [← Split.eq_none_of_isNone hnone]
    exact Reader.reads_pure w
  · rw [if_neg hnone]
    refine (Reader.reads_byte 69).bind ?_
    rw [← List.append_nil w.split.preimage]
    refine Reader.Reads.bind (a := w.split) ?_ (Reader.reads_pure w)
    rw [← List.append_nil w.split.preimage]
    refine (Reader.reads_take w.split.length_preimage).bind (Reader.reads_lift ?_)
    exact Except.mapError_eq_ok.mpr (Split.parse_preimage (by simpa using hnone))

/-- What is accepted is what this proof is written as, and its length fits its field. -/
lemma decode_eq_ok {bytes : Bytes} {w : WinProof} (h : decode bytes = .ok w) :
    bytes = w.encode ∧ w.proof.length < 2 ^ 16 := by
  obtain ⟨⟨w', rest⟩, hread, rfl⟩ := Except.map_eq_ok.mp h
  obtain ⟨channel, s1, hchannel, h⟩ := Reader.bind_eq_ok (Reader.bind_eof_eq_ok hread)
  obtain ⟨job, s2, hjob, h⟩ := Reader.bind_eq_ok h
  obtain ⟨category, s3, hcategory, h⟩ := Reader.bind_eq_ok h
  obtain ⟨length, s4, hlength, h⟩ := Reader.bind_eq_ok h
  obtain ⟨proof, s5, hproof, h⟩ := Reader.bind_eq_ok h
  obtain ⟨mark, s6, hmark, h⟩ := Reader.bind_eq_ok h
  obtain ⟨split, s7, hsplit, h⟩ := Reader.bind_eq_ok h
  cases Reader.pure_eq_ok h
  obtain ⟨rfl, hlen⟩ := Reader.take_eq_ok hproof
  have hof : UInt16.ofNat proof.length = u16OfLe length.bytes := by rw [hlen, UInt16.ofNat_toNat]
  refine ⟨?_, hlen.trans_lt (u16OfLe length.bytes).toNat_lt⟩
  rw [Reader.array_eq_ok hchannel, Reader.array_eq_ok hjob, Reader.array_eq_ok hcategory,
    Reader.array_eq_ok hlength, Reader.byte_eq_ok hmark, readSplit_eq_ok hsplit, List.append_nil]
  simp only [encode, hof, u32Le_u32OfLe channel.length_eq, u32Le_u32OfLe job.length_eq,
    u16Le_u16OfLe length.length_eq]

/-- A win's proof is read back exactly when its length fits the two bytes it is written in. -/
lemma decode_encode_iff (w : WinProof) : decode w.encode = .ok w ↔ w.proof.length < 2 ^ 16 := by
  constructor
  · exact fun h => (decode_eq_ok h).2
  intro hlt
  have hread : Reader.Reads read w w.encode := by
    unfold read encode
    refine (Reader.reads_array (⟨u32Le w.channel, length_u32Le _⟩ : ByteVec 4)).bind ?_
    refine (Reader.reads_array (⟨u32Le w.job, length_u32Le _⟩ : ByteVec 4)).bind ?_
    refine (Reader.reads_array w.category).bind ?_
    refine (Reader.reads_array (⟨u16Le (UInt16.ofNat w.proof.length), length_u16Le _⟩ :
      ByteVec 2)).bind ?_
    refine (Reader.reads_take ?_).bind ?_
    · rw [u16OfLe_u16Le, UInt16.toNat_ofNat_of_lt' hlt]
    simp only [u32OfLe_u32Le]
    exact reads_split w
  rw [decode, hread.bind_eof]
  rfl

end WinProof

/-! ## What the server sends -/

variable [Hasher]

/-- The jobs the server makes: the empty one, and those of its token sets. -/
inductive AuxJob.Built : AuxJob → Prop
  | empty : Built AuxJob.empty
  | build {network : MiningNetwork} {entries : List SetEntry} {serial : UInt64} {base : TokenSet}
      (hnew : TokenSet.new network entries serial = .ok base)
      (choices : List (Hash × ThreadChoice)) (terms : LeafTerms) :
      Built (AuxJob.build (base.addThreads choices) terms)

section Build

variable {set : TokenSet} {terms : LeafTerms}

lemma canonical_build {leaf : DisclosedLeaf}
    (h : leaf ∈ (Disclosure.fromJob (AuxJob.build set terms)).leaves) : leaf.Canonical := by
  obtain ⟨item, hitem, rfl⟩ := List.mem_map.mp h
  obtain ⟨⟨entry, slot⟩, -, rfl⟩ := List.mem_map.mp hitem
  exact ⟨rfl, Split.eq_none_of_isNone⟩

/-- The branch of an entry leads from its leaf to the job's root. -/
lemma leads_build (hvalid : set.Valid) {item : AuxEntry}
    (h : item ∈ (AuxJob.build set terms).entries) :
    JobLeaves.Leads (AuxJob.build set terms).commitment ⟨item.leaf, item.split⟩
      ((AuxJob.build set terms).tree.branch item.slot) := by
  obtain ⟨k, hget⟩ := List.getElem?_of_mem h
  obtain ⟨entry, -, hitem, -⟩ := AuxJob.getElem?_build hvalid hget
  have hslot : item.slot = Tree.slot item.leaf.category set.layout.salt set.layout.height := by
    rw [hitem]
    rfl
  have hfold := AuxJob.fold_entry hvalid hget
  have hheight := hvalid.height_le_max
  rw [UInt8.le_iff_toNat_le] at hheight
  refine ⟨(AuxTree.length_branch item.slot).trans (Nat.min_eq_left hheight), ?_⟩
  nth_rewrite 1 [hslot] at hfold
  exact hfold

end Build

/-- The leaves of every job the server makes are sound. -/
lemma AuxJob.Built.sound {aux : AuxJob} (h : aux.Built) (channel job : UInt32) :
    (JobLeaves.fromJob channel job aux).Sound aux.commitment := by
  cases h with
  | empty => exact ⟨rfl, Nat.zero_le _, nofun, rfl, .nil⟩
  | @build network entries serial base hnew choices terms =>
    have hvalid := TokenSet.valid_addThreads (TokenSet.valid_new hnew) choices
    have hne : (base.addThreads choices).entries ≠ [] := by
      rw [TokenSet.entries_addThreads]
      exact TokenSet.entries_ne_nil hnew
    refine ⟨rfl, ?_, fun leaf => canonical_build, Disclosure.checkRoot_fromJob hvalid hne terms, ?_⟩
    · have hlength := AuxJob.length_build hvalid terms
      rw [hvalid.holds.slots_eq, List.length_map, List.length_map] at hlength
      change ((AuxJob.build _ terms).entries.map _).length ≤ maxLeaves
      rw [List.length_map, hlength]
      exact hvalid.length_le
    · change List.Forall₂ _ ((AuxJob.build _ terms).entries.map _)
        ((AuxJob.build _ terms).entries.map _)
      rw [List.forall₂_map_left_iff, List.forall₂_map_right_iff, List.forall₂_same]
      exact fun item hitem => leads_build hvalid hitem

/-- A commitment of a job is one a reader accepts unless the digest of its root is all zeros. -/
lemma AuxJob.Built.readable_iff {aux : AuxJob} (h : aux.Built) : aux.commitment.Readable ↔
    (aux.commitment.root = ByteVec.zero 32 → aux.commitment = AuxCommitment.empty) := by
  constructor
  · exact fun hreadable => hreadable.root
  · intro hroot
    refine ⟨?_, hroot⟩
    cases h with
    | empty => exact UInt8.zero_le
    | build hnew choices terms =>
      exact (TokenSet.valid_addThreads (TokenSet.valid_new hnew) choices).height_le_max

/-- The messages and their bytes.  A job's disclosure is read back, its leaves are unless the root is
the digest of zeros under some height or salt, and a win's proof is read back exactly when it is
shorter than 2^16 bytes; what any of the three readers accepts is what its writer writes. -/
theorem message_codecs :
    (∀ aux : AuxJob, aux.Built →
      Disclosure.decode (Disclosure.fromJob aux).encode = .ok (Disclosure.fromJob aux)) ∧
    (∀ aux : AuxJob, aux.Built → ∀ channel job : UInt32,
      (JobLeaves.decode (JobLeaves.fromJob channel job aux).encode =
          .ok (JobLeaves.fromJob channel job aux) ↔
        (aux.commitment.root = ByteVec.zero 32 → aux.commitment = AuxCommitment.empty))) ∧
    (∀ w : WinProof, WinProof.decode w.encode = .ok w ↔ w.proof.length < 2 ^ 16) ∧
    (∀ (bytes : Bytes) (d : Disclosure), Disclosure.decode bytes = .ok d → d.encode = bytes) ∧
    (∀ (bytes : Bytes) (x : JobLeaves), JobLeaves.decode bytes = .ok x → x.encode = bytes) ∧
    ∀ (bytes : Bytes) (w : WinProof), WinProof.decode bytes = .ok w → w.encode = bytes := by
  refine ⟨fun aux haux => ?_, fun aux haux channel job => ?_, WinProof.decode_encode_iff,
    fun bytes d h => (Disclosure.decode_eq_ok h).symm,
    fun bytes x h => (JobLeaves.decode_eq_ok h).1.symm,
    fun bytes w h => (WinProof.decode_eq_ok h).1.symm⟩
  · have hsound := haux.sound 0 0
    exact Disclosure.decode_encode hsound.count hsound.canonical
  · rw [JobLeaves.decode_encode_iff (haux.sound channel job), haux.readable_iff]

omit [Hasher] in
/-- The sample job's leaves, and its second entry's proof over a short coinbase. -/
theorem message_codecs_sample :
    let _ : Hasher := Hasher.fips
    let job := AuxJob.build (sampleSet.addThreads []) (LeafTerms.plain [0x51])
    JobLeaves.decode (JobLeaves.fromJob 3 9 job).encode = .ok (JobLeaves.fromJob 3 9 job) ∧
      WinProof.decode (WinProof.encode ⟨3, 9, ByteVec.zero 32, sampleProof.encode, Split.none⟩) =
        .ok ⟨3, 9, ByteVec.zero 32, sampleProof.encode, Split.none⟩ := by
  intro _ job
  have hnew : TokenSet.new .chipnet sampleEntries 1 = .ok sampleSet := by decide +kernel
  have hroot : job.commitment.root ≠ ByteVec.zero 32 := by decide +kernel
  obtain ⟨-, hleaves, hproof, -⟩ := message_codecs
  refine ⟨(hleaves job (.build hnew [] (LeafTerms.plain [0x51])) 3 9).mpr fun h => absurd h hroot, ?_⟩
  exact (hproof _).mpr (by decide +kernel)

/-- The head of a coinbase with eight outputs. -/
def longHead : Bytes := List.replicate 4 0 ++ nullInput ++ [3, 1, 2, 3, 0, 0, 0, 0, 8]

/-- Seven outputs with scripts of 9,340 bytes, and the lock time. -/
def longTail : Bytes :=
  (List.replicate 7 (u64Le 546 ++ compactSize 9340 ++ List.replicate 9340 0x6a)).flatten ++
    List.replicate 4 0

omit [Hasher] in
lemma length_longTail : longTail.length = 65461 := by
  have hsize : (compactSize 9340).length = 3 := rfl
  simp only [longTail, List.length_append, List.length_flatten, List.map_replicate,
    List.sum_replicate, List.length_replicate, length_u64Le, hsize]
  rfl

omit [Hasher] in
/-- Behind a coinbase of seven long outputs, the proof of the sample job's second entry is assembled
and written, and its message is not read back. -/
theorem win_proof_truncated :
    let _ : Hasher := Hasher.fips
    let job := AuxJob.build (sampleSet.addThreads []) (LeafTerms.plain [0x51])
    ∃ proof bytes, AuxProof.assemble job 1 (longHead ++ job.output.bytes ++ longTail) []
        sampleHeader = .ok proof ∧
      proof.toBytes = .ok bytes ∧
      WinProof.decode (WinProof.encode ⟨3, 9, ByteVec.zero 32, bytes, Split.none⟩) ≠
        .ok ⟨3, 9, ByteVec.zero 32, bytes, Split.none⟩ := by
  intro _ job
  obtain ⟨item, hitem⟩ : ∃ item, job.entries[1]? = some item := ⟨_, rfl⟩
  have hbranch : (job.tree.branch item.slot).length = 1 := AuxTree.length_branch item.slot
  have hshape : (job.proofOf item longHead longTail [] sampleHeader).Shape := by
    refine ⟨show (1 : UInt8) ≤ maxHeight by decide, hbranch, Nat.zero_le _,
      show longHead.length ≤ maxPartLen by decide, ?_⟩
    exact length_longTail.trans_le (by decide)
  have hlength : (longHead ++ job.output.bytes ++ longTail)[41]? = some 3 := rfl
  refine ⟨_, _, assemble_eq_ok hitem hlength rfl hshape, AuxProof.toBytes_eq_ok hshape, ?_⟩
  rw [Ne, WinProof.decode_encode_iff, not_lt, AuxProof.length_encode, AuxProof.encodedLen]
  change 2 ^ 16 ≤ 95 + 32 * (job.tree.branch item.slot).length + longHead.length +
    longTail.length + 32 * ([] : List Hash).length
  rw [hbranch, length_longTail]
  decide

end Pickaxe.Merge
