/-
# A token's leaf

A leaf is a 169-byte preimage, hashed as `SHA256(0x00 ‖ preimage)`.  The preimage has every
field at a fixed offset, so two leaves with one preimage are equal (`preimage_injective`).
-/
import Pickaxe.Basic

namespace Pickaxe.Merge

open Lib

/-- `leaf::TAG`: "CTML". -/
def leafTag : Bytes := [0x43, 0x54, 0x4d, 0x4c]

/-- `leaf::VERSION`. -/
def leafVersion : UInt8 := 2

/-- The domain byte a leaf hash starts with. -/
def leafPrefix : UInt8 := 0x00

/-- What a leaf binds: the token, its baton's lock, its state, who a claim pays, the target
and the split. -/
structure Leaf where
  category : Hash
  lockHash : Hash
  stateHash : Hash
  payoutHash : Hash
  targetBits : UInt32
  ext : Hash
deriving DecidableEq

namespace Leaf

/-- `Leaf::preimage`. -/
def preimage (l : Leaf) : Bytes :=
  leafTag ++ ([leafVersion] ++ (l.category.bytes ++ (l.lockHash.bytes ++ (l.stateHash.bytes ++
    (l.payoutHash.bytes ++ (u32Le l.targetBits ++ l.ext.bytes))))))

/-- `Leaf::parse`: a 169-byte preimage with this tag and version. -/
def parse (bytes : Bytes) : Option Leaf :=
  if bytes.length ≠ 169 ∨ bytes.take 4 ≠ leafTag ∨ bytes.getD 4 0 ≠ leafVersion then none
  else do
    let hash := fun at' => ByteVec.ofBytes? 32 (slice bytes at' (at' + 32))
    return ⟨← hash 5, ← hash 37, ← hash 69, ← hash 101, u32OfLe (slice bytes 133 137), ← hash 137⟩

lemma length_preimage (l : Leaf) : l.preimage.length = 169 := by
  simp [preimage, leafTag]

lemma parse_preimage (l : Leaf) : parse l.preimage = some l := by
  -- reading one hash after the other
  have hnext : ∀ {at' : ℕ} {field : Hash} {post : Bytes}, l.preimage.drop at' = field.bytes ++ post →
      ByteVec.ofBytes? 32 (slice l.preimage at' (at' + 32)) = some field ∧
        l.preimage.drop (at' + 32) = post := by
    intro at' field post h
    constructor
    · rw [slice, h, Nat.add_sub_cancel_left, List.take_left' field.length_eq, ByteVec.ofBytes?_bytes]
    · rw [← List.drop_drop, h, List.drop_left' field.length_eq]
  have htag : l.preimage.drop 5 = l.category.bytes ++ (l.lockHash.bytes ++ (l.stateHash.bytes ++
    (l.payoutHash.bytes ++ (u32Le l.targetBits ++ l.ext.bytes)))) := rfl
  obtain ⟨hcategory, hrest⟩ := hnext htag
  obtain ⟨hlock, hrest⟩ := hnext hrest
  obtain ⟨hstate, hrest⟩ := hnext hrest
  obtain ⟨hpayout, hrest⟩ := hnext hrest
  have hbits : slice l.preimage 133 137 = u32Le l.targetBits := by
    rw [slice, hrest]
    exact List.take_left' (by simp)
  have hlast : l.preimage.drop 137 = l.ext.bytes ++ [] := by
    rw [List.append_nil, ← List.drop_drop (i := 4) (j := 133), hrest, List.drop_left' (by simp)]
  have hext := (hnext hlast).1
  rw [parse, if_neg]
  · simp only [hbits, u32OfLe_u32Le, Option.bind_eq_bind, Option.pure_def, hcategory, hlock, hstate,
      hpayout, hext, Option.bind_some]
  · simp only [length_preimage, not_or, not_not]
    exact ⟨trivial, rfl, rfl⟩

/-- What is read as a leaf is that leaf's preimage. -/
lemma parse_eq_some {bytes : Bytes} {l : Leaf} (h : parse bytes = some l) : bytes = l.preimage := by
  unfold parse at h
  split at h
  · cases h
  rename_i hhead
  obtain ⟨hlength, htag, hversion⟩ := by simpa only [not_or, not_not] using hhead
  simp only [Option.bind_eq_bind, Option.pure_def, Option.bind_eq_some_iff,
    ByteVec.ofBytes?_eq_some, Option.some.injEq] at h
  obtain ⟨category, hcategory, lock, hlock, state, hstate, payout, hpayout, ext, hext, rfl⟩ := h
  have hbyte : bytes.drop 4 = [leafVersion] ++ bytes.drop 5 := by
    rw [drop_eq_getD_cons (by omega), hversion]
    rfl
  have hlast : slice bytes 137 (137 + 32) = bytes.drop 137 := by
    rw [drop_eq_slice_append bytes (show 137 ≤ 137 + 32 by decide), List.drop_eq_nil_of_le hlength.le,
      List.append_nil]
  have hbits : u32Le (u32OfLe (slice bytes 133 137)) = slice bytes 133 137 :=
    u32Le_u32OfLe (length_slice (by omega))
  -- from the last field back to the tag
  rw [preimage]
  dsimp only
  rw [hbits, ← hcategory, ← hlock, ← hstate, ← hpayout, ← hext, hlast,
    ← drop_eq_slice_append bytes (show 133 ≤ 137 by decide),
    ← drop_eq_slice_append bytes (show 101 ≤ 101 + 32 by decide),
    ← drop_eq_slice_append bytes (show 69 ≤ 69 + 32 by decide),
    ← drop_eq_slice_append bytes (show 37 ≤ 37 + 32 by decide),
    ← drop_eq_slice_append bytes (show 5 ≤ 5 + 32 by decide), ← hbyte, ← htag,
    List.take_append_drop]

/-- Every field is bound: one preimage, one leaf. -/
lemma preimage_injective : Function.Injective preimage := by
  intro l m h
  have htail := List.append_cancel_left (List.append_cancel_left h)
  obtain ⟨hcat, htail⟩ := ByteVec.append_inj htail
  obtain ⟨hlock, htail⟩ := ByteVec.append_inj htail
  obtain ⟨hstate, htail⟩ := ByteVec.append_inj htail
  obtain ⟨hpayout, htail⟩ := ByteVec.append_inj htail
  obtain ⟨hbits, hext⟩ := List.append_inj htail (by simp)
  cases l
  cases m
  simp only [mk.injEq]
  exact ⟨hcat, hlock, hstate, hpayout, u32Le_injective hbits, ByteVec.ext hext⟩

variable [Hasher]

/-- `Leaf::new`: the leaf paying the locking bytecode `payout`. -/
def new (category lockHash stateHash : Hash) (payout : Bytes) (targetBits : UInt32) (ext : Hash) :
    Leaf :=
  ⟨category, lockHash, stateHash, doubleSha256 payout, targetBits, ext⟩

/-- The bytes a leaf hash is made of. -/
def hashInput (l : Leaf) : Bytes := leafPrefix :: l.preimage

/-- `Leaf::hash`: the domain byte keeps a leaf from being read as a node. -/
def hash (l : Leaf) : Hash := sha256 l.hashInput

omit [Hasher] in
lemma hashInput_injective : Function.Injective hashInput := by
  intro l m h
  exact preimage_injective (List.cons.inj h).2

end Leaf

end Pickaxe.Merge
