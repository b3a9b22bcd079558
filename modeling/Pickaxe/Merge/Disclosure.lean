/-
# Disclosed leaves

The leaves behind a coinbase's output 0, as a pool shows them, and the rule a public pool's
jobs keep: every leaf pays its miner, or in a work job the donation or the operator.

The reader rebuilds the tree from the leaves alone, with the height and the salt of output 0,
and accepts the disclosure only when its root is output 0's.
-/
import Pickaxe.Lib.Reader
import Pickaxe.Merge.Set

namespace Pickaxe.Merge

open Lib

/-- One disclosed leaf and the split its ext commits to. -/
structure DisclosedLeaf where
  leaf : Leaf
  split : Split
deriving DecidableEq

/-- The leaves of one coinbase's output 0. -/
structure Disclosure where
  leaves : List DisclosedLeaf
deriving DecidableEq

/-- `Disclosure::from_job`. -/
def Disclosure.fromJob (job : AuxJob) : Disclosure :=
  ⟨job.entries.map fun entry => ⟨entry.leaf, entry.split⟩⟩

/-! ## The format -/

/-- `disclosure::MAGIC`: "CTMD". -/
def disclosureMagic : Bytes := [0x43, 0x54, 0x4d, 0x44]

/-- `disclosure::VERSION`. -/
def disclosureVersion : UInt8 := 2

/-- One leaf of `Disclosure::encode`: its preimage, whether a split follows, and the split's. -/
def DisclosedLeaf.encode (d : DisclosedLeaf) : Bytes :=
  d.leaf.preimage ++ if d.split.isNone then [0] else [1] ++ d.split.preimage

/-- `Disclosure::encode`. -/
def Disclosure.encode (d : Disclosure) : Bytes :=
  disclosureMagic ++ ([disclosureVersion] ++ ([UInt8.ofNat d.leaves.length] ++
    d.leaves.flatMap DisclosedLeaf.encode))

/-- The refusal of bytes that are no disclosure. -/
def badDisclosure : String := "not a merge-mining leaf disclosure"

/-- A value that is there, or the refusal. -/
def Disclosure.orBad {α : Type} : Option α → Reader String α
  | some a => pure a
  | none => Reader.fail badDisclosure

/-- The split that follows a flag. -/
def Disclosure.readSplit (flag : UInt8) : Reader String Split :=
  if flag = 0 then pure Split.none
  else if flag = 1 then do
    let preimage ← Reader.take badDisclosure 69
    Disclosure.orBad (Split.parse preimage).toOption
  else Reader.fail badDisclosure

variable [Hasher]

/-- One leaf of `Disclosure::decode`. -/
def Disclosure.readLeaf : Reader String DisclosedLeaf := do
  let preimage ← Reader.take badDisclosure 169
  let leaf ← Disclosure.orBad (Leaf.parse preimage)
  let flag ← Reader.byte badDisclosure
  let split ← Disclosure.readSplit flag
  Reader.guard (split.ext = leaf.ext) "a disclosed leaf's ext is not its split's"
  return ⟨leaf, split⟩

/-- The reader of `Disclosure::decode`, up to the end of the bytes. -/
def Disclosure.read : Reader String Disclosure := do
  let magic ← Reader.take badDisclosure 4
  Reader.guard (magic = disclosureMagic) badDisclosure
  let version ← Reader.byte badDisclosure
  let count ← Reader.byte badDisclosure
  Reader.guard (version = disclosureVersion ∧ count.toNat ≤ maxLeaves) badDisclosure
  let leaves ← Reader.times Disclosure.readLeaf count.toNat
  return ⟨leaves⟩

/-- `Disclosure::decode`: each leaf canonical, each split canonical and its ext the leaf's,
nothing trailing. -/
def Disclosure.decode (bytes : Bytes) : Except String Disclosure :=
  Prod.fst <$> (do
    let disclosure ← Disclosure.read
    Reader.eof badDisclosure
    return disclosure : Reader String Disclosure) bytes

/-- A leaf as a job makes it: its ext is its split's, and a split that is none is the one
with no slot. -/
structure DisclosedLeaf.Canonical (d : DisclosedLeaf) : Prop where
  ext : d.split.ext = d.leaf.ext
  none : d.split.isNone = true → d.split = Split.none

lemma Disclosure.reads_readLeaf {d : DisclosedLeaf} (h : d.Canonical) :
    Reader.Reads Disclosure.readLeaf d d.encode := by
  have hend : Reader.Reads (do
      Reader.guard (d.split.ext = d.leaf.ext) "a disclosed leaf's ext is not its split's"
      return ⟨d.leaf, d.split⟩ : Reader String DisclosedLeaf) d [] :=
    Reader.Reads.guard_bind h.ext (Reader.reads_pure d)
  have hleaf : Reader.Reads (Disclosure.orBad (Leaf.parse d.leaf.preimage)) d.leaf [] := by
    rw [Leaf.parse_preimage]
    exact Reader.reads_pure d.leaf
  rw [Disclosure.readLeaf, DisclosedLeaf.encode]
  by_cases hnone : d.split.isNone = true
  · rw [if_pos hnone]
    rw [h.none hnone] at hend
    exact (Reader.reads_take d.leaf.length_preimage).bind (hleaf.bind ((Reader.reads_byte 0).bind
      ((Reader.reads_pure Split.none).bind hend)))
  · rw [if_neg hnone]
    have hsplit : Reader.Reads (Disclosure.readSplit 1) d.split d.split.preimage := by
      rw [← List.append_nil d.split.preimage]
      refine (Reader.reads_take d.split.length_preimage).bind ?_
      rw [Split.parse_preimage (by simpa using hnone)]
      exact Reader.reads_pure d.split
    refine (Reader.reads_take d.leaf.length_preimage).bind (hleaf.bind
      ((Reader.reads_byte 1).bind ?_))
    rw [← List.append_nil d.split.preimage]
    exact hsplit.bind hend

/-- A disclosure of a job's leaves survives its encoding. -/
lemma Disclosure.decode_encode {d : Disclosure} (hcount : d.leaves.length ≤ maxLeaves)
    (h : ∀ leaf ∈ d.leaves, leaf.Canonical) : decode d.encode = .ok d := by
  have hbyte : (UInt8.ofNat d.leaves.length).toNat = d.leaves.length :=
    UInt8.toNat_ofNat_of_lt' (by unfold maxLeaves at hcount; simp [UInt8.size]; omega)
  have hread : Reader.Reads read d d.encode := by
    unfold read encode
    refine (Reader.reads_take (show disclosureMagic.length = 4 from rfl)).bind ?_
    refine Reader.Reads.guard_bind rfl ?_
    refine (Reader.reads_byte _).bind ?_
    refine (Reader.reads_byte _).bind ?_
    refine Reader.Reads.guard_bind ⟨rfl, by rwa [hbyte]⟩ ?_
    rw [hbyte, ← List.append_nil (d.leaves.flatMap _)]
    exact (Reader.reads_times fun leaf hleaf => Disclosure.reads_readLeaf (h leaf hleaf)).bind
      (Reader.reads_pure d)
  rw [decode, hread.bind_eof]
  rfl

/-! ### What is accepted -/

omit [Hasher] in
lemma Disclosure.orBad_eq_ok {α : Type} {o : Option α} {s : Bytes} {r : α × Bytes}
    (h : orBad o s = .ok r) : o = some r.1 ∧ r.2 = s := by
  cases o with
  | none => cases h
  | some a =>
    cases h
    exact ⟨rfl, rfl⟩

omit [Hasher] in
/-- A flag and what is read after it are what a leaf writes for its split. -/
lemma Disclosure.readSplit_eq_ok {flag : UInt8} {s rest : Bytes} {split : Split}
    (h : readSplit flag s = .ok (split, rest)) :
    flag :: s = (if split.isNone then [0] else [1] ++ split.preimage) ++ rest := by
  unfold readSplit at h
  split_ifs at h with h0 h1
  · cases Reader.pure_eq_ok h
    rw [h0]
    rfl
  · obtain ⟨preimage, t, htake, h⟩ := Reader.bind_eq_ok h
    obtain ⟨hsplit, rfl⟩ := orBad_eq_ok h
    obtain ⟨rfl, -⟩ := Reader.take_eq_ok htake
    have hparse : Split.parse preimage = .ok split := by
      cases hp : Split.parse preimage with
      | error e =>
        rw [hp] at hsplit
        cases hsplit
      | ok found =>
        rw [hp] at hsplit
        cases hsplit
        rfl
    obtain ⟨rfl, hnone⟩ := Split.parse_eq_ok hparse
    rw [h1, hnone]
    simp
  · cases h

lemma Disclosure.inverts_readLeaf : Reader.Inverts readLeaf DisclosedLeaf.encode := by
  intro s d rest h
  obtain ⟨preimage, s1, hpreimage, h⟩ := Reader.bind_eq_ok h
  obtain ⟨leaf, s2, hleaf, h⟩ := Reader.bind_eq_ok h
  obtain ⟨flag, s3, hflag, h⟩ := Reader.bind_eq_ok h
  obtain ⟨split, s4, hsplit, h⟩ := Reader.bind_eq_ok h
  obtain ⟨_, _, hguard, h⟩ := Reader.bind_eq_ok h
  obtain ⟨-, hs⟩ := Reader.guard_eq_ok hguard
  cases hs
  cases Reader.pure_eq_ok h
  obtain ⟨hparse, rfl⟩ := orBad_eq_ok hleaf
  rw [(Reader.take_eq_ok hpreimage).1, Leaf.parse_eq_some hparse, Reader.byte_eq_ok hflag,
    readSplit_eq_ok hsplit, DisclosedLeaf.encode, List.append_assoc]

/-- What is accepted as a disclosure is what that disclosure is written as. -/
lemma Disclosure.decode_eq_ok {bytes : Bytes} {d : Disclosure} (h : decode bytes = .ok d) :
    bytes = d.encode := by
  obtain ⟨⟨d', rest⟩, hread, rfl⟩ := Except.map_eq_ok.mp h
  obtain ⟨magic, s1, hmagic, h⟩ := Reader.bind_eq_ok (Reader.bind_eof_eq_ok hread)
  obtain ⟨_, _, hguard, h⟩ := Reader.bind_eq_ok h
  obtain ⟨rfl, hs⟩ := Reader.guard_eq_ok hguard
  cases hs
  obtain ⟨version, s2, hversion, h⟩ := Reader.bind_eq_ok h
  obtain ⟨count, s3, hcount, h⟩ := Reader.bind_eq_ok h
  obtain ⟨_, _, hguard, h⟩ := Reader.bind_eq_ok h
  obtain ⟨⟨rfl, -⟩, hs⟩ := Reader.guard_eq_ok hguard
  cases hs
  obtain ⟨leaves, s4, hleaves, h⟩ := Reader.bind_eq_ok h
  cases Reader.pure_eq_ok h
  obtain ⟨hlength, rfl⟩ := inverts_readLeaf.times hleaves
  have hbyte : UInt8.ofNat leaves.length = count := by rw [hlength, UInt8.ofNat_toNat]
  rw [(Reader.take_eq_ok hmagic).1, Reader.byte_eq_ok hversion, Reader.byte_eq_ok hcount]
  simp only [encode, hbyte, List.append_nil, List.cons_append, List.nil_append]

/-! ## The root -/

/-- The layout `check_root` rebuilds: each leaf in its own slot. -/
def Disclosure.layout (d : Disclosure) (commitment : AuxCommitment) : Layout :=
  { height := commitment.height
    salt := commitment.salt
    slots := d.leaves.map fun disclosed =>
      Tree.slot disclosed.leaf.category commitment.salt commitment.height }

/-- The tree `check_root` rebuilds. -/
def Disclosure.tree (d : Disclosure) (commitment : AuxCommitment) : AuxTree :=
  AuxTree.build (d.layout commitment) (d.leaves.map fun disclosed => disclosed.leaf.hash)

/-- `Disclosure::check_root`: whether these leaves, and no others, make `commitment`'s root at
its height and salt. -/
def Disclosure.checkRoot (d : Disclosure) (commitment : AuxCommitment) : Except String Unit :=
  if d.leaves.isEmpty then
    if commitment.isEmpty then .ok ()
    else .error "the disclosure names no leaf for a non-empty root"
  else if ¬ (d.layout commitment).slots.Nodup then .error "two disclosed leaves share a slot"
  else if (d.tree commitment).root ≠ commitment.root then
    .error "the disclosed leaves do not make output 0's root"
  else .ok ()

/-! ## A public pool's leaves -/

/-- Whether one leaf of a public pool's job pays only the hashes `miner`, `donation` and
`operator`. -/
def DisclosedLeaf.paysOnly (d : DisclosedLeaf) (miner donation operator : Hash) : Bool :=
  let pays :=
    if d.split.isNone then [miner, donation, operator].contains d.leaf.payoutHash
    else d.leaf.payoutHash == miner
  pays && (d.split.donation.isEmpty || d.split.donation.scriptHash == donation) &&
    (d.split.fee.isEmpty || d.split.fee.scriptHash == operator)

/-- `audit_public`: checks a public pool job's leaves against the miner's, the donation's and
the operator's script. -/
def auditPublic (disclosure : Disclosure) (miner donation operator : Bytes) : Except String Unit :=
  if disclosure.leaves.all fun d =>
      d.paysOnly (doubleSha256 miner) (doubleSha256 donation) (doubleSha256 operator) then .ok ()
  else .error
    "a public pool leaf pays someone other than its miner, the donation and the operator"

end Pickaxe.Merge
