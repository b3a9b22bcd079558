/-
# The commitment

Output 0 of the coinbase: value 0 and an `OP_RETURN` of 42 bytes that carries the aux root,
the tree's height and the salt.  The coinbase head has a fixed shape, so output 0 is found
without a search; `head_unique` and `output_inj` are what a verifier relies on: one coinbase
has one head and one commitment.
-/
import Pickaxe.Basic

namespace Pickaxe.Merge

open Lib

/-- The tallest aux tree: 2^16 slots. -/
def maxHeight : UInt8 := 16

/-- `commitment::MAGIC`: "CTMM". -/
def commitmentMagic : Bytes := [0x43, 0x54, 0x4d, 0x4d]

/-- `commitment::VERSION`. -/
def commitmentVersion : UInt8 := 2

/-- The whole output: value, script length and script. -/
def outputLen : ℕ := 53

/-- The locking script alone. -/
def scriptLen : ℕ := 44

/-- The longest script-sig a coinbase head may carry. -/
def maxScriptSig : ℕ := 100

/-- The coinbase head's bytes 4..41: one input with the null prevout. -/
def nullInput : Bytes := [1] ++ List.replicate 32 0 ++ List.replicate 4 0xff

/-- The root of the aux tree, its height and its salt. -/
@[ext] structure AuxCommitment where
  root : Hash
  height : UInt8
  salt : UInt32
deriving DecidableEq

namespace AuxCommitment

/-- `AuxCommitment::EMPTY`: no token. -/
def empty : AuxCommitment := ⟨ByteVec.zero 32, 0, 0⟩

/-- `AuxCommitment::is_empty`. -/
def isEmpty (c : AuxCommitment) : Bool := c == empty

/-- `AuxCommitment::script`: the 44-byte locking script. -/
def script (c : AuxCommitment) : Bytes :=
  [0x6a, 0x2a] ++ commitmentMagic ++ [commitmentVersion] ++
    (c.root.bytes ++ ([c.height] ++ u32Le c.salt))

lemma length_script (c : AuxCommitment) : c.script.length = scriptLen := by
  simp [script, commitmentMagic, scriptLen]

/-- `AuxCommitment::output`: the 53-byte output as it appears in the coinbase. -/
def output (c : AuxCommitment) : ByteVec 53 :=
  ⟨List.replicate 8 0 ++ [UInt8.ofNat scriptLen] ++ c.script, by
    simp [length_script, scriptLen]⟩

/-- `AuxCommitment::parse_script`. -/
def parseScript (script : Bytes) : Option AuxCommitment :=
  if script.length ≠ scriptLen then none
  else if script.take 2 ≠ [0x6a, 0x2a] ∨ slice script 2 6 ≠ commitmentMagic ∨
      script.getD 6 0 ≠ commitmentVersion ∨ script.getD 39 0 > maxHeight then none
  else do
    let root ← ByteVec.ofBytes? 32 (slice script 7 39)
    let commitment : AuxCommitment := ⟨root, script.getD 39 0, u32OfLe (script.drop 40)⟩
    if commitment.root = ByteVec.zero 32 ∧ ¬ commitment.isEmpty then none else some commitment

/-- `AuxCommitment::parse`: reads a 53-byte output. -/
def parse (output : Bytes) : Option AuxCommitment :=
  if output.length < 8 then none
  else match output.drop 8 with
    | [] => none
    | length :: script =>
      if output.take 8 ≠ List.replicate 8 0 ∨ length.toNat ≠ scriptLen then none
      else parseScript script

/-- An output shows its commitment. -/
lemma output_inj {c d : AuxCommitment} (h : c.output = d.output) : c = d := by
  have hbytes : c.output.bytes = d.output.bytes := by rw [h]
  have hscript := List.append_cancel_left hbytes
  obtain ⟨hroot, htail⟩ := ByteVec.append_inj (List.append_cancel_left hscript)
  obtain ⟨hheight, hsalt⟩ := List.append_inj htail rfl
  exact AuxCommitment.ext hroot (List.cons.inj hheight).1 (u32Le_injective hsalt)

/-- The commitments that read back: the tree is not too tall, and only the empty commitment
has the zero root. -/
structure Readable (c : AuxCommitment) : Prop where
  height_le : c.height ≤ maxHeight
  root : c.root = ByteVec.zero 32 → c = empty

lemma parseScript_script {c : AuxCommitment} (h : c.Readable) : parseScript c.script = some c := by
  have hroot : slice c.script 7 39 = c.root.bytes := by
    rw [script, ← List.append_assoc]
    exact slice_append rfl (by simp)
  have hheight : c.script.getD 39 0 = c.height := by
    rw [script, List.getD_eq_getElem?_getD, List.getElem?_append_right (by simp [commitmentMagic]),
      List.getElem?_append_right (by simp [commitmentMagic])]
    simp [commitmentMagic]
  have hsalt : c.script.drop 40 = u32Le c.salt := by
    have hsplit : c.script = ([0x6a, 0x2a] ++ commitmentMagic ++ [commitmentVersion] ++
        c.root.bytes ++ [c.height]) ++ u32Le c.salt := by simp [script]
    rw [hsplit]
    exact List.drop_left' (by simp [commitmentMagic])
  have hmagic : c.script.take 2 = [0x6a, 0x2a] ∧ slice c.script 2 6 = commitmentMagic ∧
      c.script.getD 6 0 = commitmentVersion := ⟨rfl, rfl, rfl⟩
  rw [parseScript, if_neg (by simp [length_script]), if_neg]
  · simp only [hroot, hheight, hsalt, ByteVec.ofBytes?_bytes, u32OfLe_u32Le, Option.bind_eq_bind,
      Option.bind_some]
    rw [if_neg]
    rintro ⟨hzero, hne⟩
    exact hne (by simp [isEmpty, h.root hzero])
  · simp only [hmagic, hheight, ne_eq, not_true_eq_false, false_or, gt_iff_lt]
    exact UInt8.not_lt.mpr h.height_le

lemma parseScript_eq_some {script : Bytes} {c : AuxCommitment} (h : parseScript script = some c) :
    c.Readable ∧ script = c.script := by
  unfold parseScript at h
  split at h
  · cases h
  rename_i hlength
  split at h
  · cases h
  rename_i hhead
  rw [not_not] at hlength
  have hlen : script.length = 44 := hlength
  obtain ⟨hstart, hmagic, hversion, hheight⟩ := by simpa only [not_or, not_not] using hhead
  simp only [Option.bind_eq_bind, Option.bind_eq_some_iff, ByteVec.ofBytes?_eq_some,
    Option.ite_none_left_eq_some] at h
  obtain ⟨root, hroot, hzero, h⟩ := h
  obtain rfl := Option.some.inj h
  have hbyte : ∀ i, i < 44 → script.drop i = [script.getD i 0] ++ script.drop (i + 1) := by
    intro i hi
    exact drop_eq_getD_cons (by omega)
  refine ⟨⟨UInt8.not_lt.mp hheight, fun hr => ?_⟩, ?_⟩
  · simpa [isEmpty] using fun hne => hzero ⟨hr, hne⟩
  · rw [AuxCommitment.script, ← hroot, u32Le_u32OfLe (by rw [List.length_drop, hlen]), ← hbyte 39 (by decide),
      ← drop_eq_slice_append script (show 7 ≤ 39 by decide), ← hversion, List.append_assoc,
      ← hbyte 6 (by decide), ← hmagic, List.append_assoc,
      ← drop_eq_slice_append script (show 2 ≤ 6 by decide), ← hstart, List.take_append_drop]

lemma parse_output {c : AuxCommitment} (h : c.Readable) : parse c.output.bytes = some c := by
  have houtput : c.output.bytes = List.replicate 8 0 ++ UInt8.ofNat scriptLen :: c.script := by
    simp [output]
  rw [parse, houtput, if_neg (by simp), List.drop_left' (by simp)]
  dsimp only
  rw [List.take_left' (by simp), if_neg (by decide), parseScript_script h]

/-- What is read as a commitment is that commitment's output. -/
lemma parse_eq_some {output : Bytes} {c : AuxCommitment} (h : parse output = some c) :
    c.Readable ∧ output = c.output.bytes := by
  unfold parse at h
  split at h
  · cases h
  split at h
  · cases h
  rename_i length script hdrop
  split at h
  · cases h
  rename_i hhead
  obtain ⟨hvalue, hlength⟩ := by simpa only [not_or, not_not] using hhead
  obtain ⟨hreadable, rfl⟩ := parseScript_eq_some h
  have hsame : UInt8.ofNat scriptLen = length := by rw [← hlength, UInt8.ofNat_toNat]
  refine ⟨hreadable, ?_⟩
  rw [← List.take_append_drop 8 output, hvalue, hdrop, ← hsame]
  simp [AuxCommitment.output]

end AuxCommitment

/-! ## The coinbase head -/

/-- A coinbase head that is not the fixed shape. -/
inductive HeadError where
  | malformed
deriving DecidableEq

/-- `check_head`: the length is `47 + head[41]`, `head[41]` is at most 100, `head[4..41]` is
one input with the null prevout, and the last byte (the output count) is 1..=0xfc. -/
def checkHead (head : Bytes) : Except HeadError Unit :=
  match head[41]? with
  | none => .error .malformed
  | some length =>
    if length.toNat > maxScriptSig ∨ head.length ≠ 47 + length.toNat ∨
        slice head 4 41 ≠ nullInput ∨
        ¬ (1 ≤ head.getD (head.length - 1) 0 ∧ head.getD (head.length - 1) 0 < 0xfd)
    then .error .malformed
    else .ok ()

/-- `head_len`: the length of a coinbase's fixed-shape head. -/
def headLen (coinbase : Bytes) : Option ℕ := do
  let length := 47 + (← coinbase[41]?).toNat
  let head ← slice? coinbase 0 length
  match checkHead head with
  | .error _ => none
  | .ok () => some length

/-- `output_zero`: output 0 of a coinbase, read right after its fixed-shape head. -/
def outputZero (coinbase : Bytes) : Option Bytes := do
  let head ← headLen coinbase
  slice? coinbase head (head + outputLen)

/-- `check_own_root`: the coinbase devices will hash carries exactly `expected`. -/
def checkOwnRoot (coinbase : Bytes) (expected : AuxCommitment) : Except String Unit :=
  match outputZero coinbase with
  | some output =>
    if output = expected.output.bytes then .ok ()
    else .error "output 0 is not this server's token commitment"
  | none => .error "the coinbase head is not the fixed merge-mining shape"

/-- A well-shaped head has its own length at byte 41. -/
lemma checkHead_eq_ok {head : Bytes} (h : checkHead head = .ok ()) :
    ∃ length : UInt8, head[41]? = some length ∧ head.length = 47 + length.toNat := by
  unfold checkHead at h
  split at h
  · cases h
  · rename_i length hlength
    split at h
    · cases h
    · rename_i hshape
      push Not at hshape
      exact ⟨length, hlength, hshape.2.1⟩

/-- Two well-shaped heads at the front of one coinbase are equal. -/
lemma head_unique {h1 h2 r1 r2 : Bytes} (hok1 : checkHead h1 = .ok ()) (hok2 : checkHead h2 = .ok ())
    (h : h1 ++ r1 = h2 ++ r2) : h1 = h2 ∧ r1 = r2 := by
  obtain ⟨l1, hl1, hlen1⟩ := checkHead_eq_ok hok1
  obtain ⟨l2, hl2, hlen2⟩ := checkHead_eq_ok hok2
  -- byte 41 lies in both heads, so both have the same length
  have hbyte1 : (h1 ++ r1)[41]? = some l1 := by
    rw [List.getElem?_append_left (by omega), hl1]
  have hbyte2 : (h1 ++ r1)[41]? = some l2 := by
    rw [h, List.getElem?_append_left (by omega), hl2]
  obtain rfl : l1 = l2 := Option.some.inj (hbyte1.symm.trans hbyte2)
  exact List.append_inj h (by omega)

lemma headLen_eq_some {coinbase : Bytes} {n : ℕ} (h : headLen coinbase = some n) :
    ∃ length : UInt8, coinbase[41]? = some length ∧ n = 47 + length.toNat ∧ n ≤ coinbase.length ∧
      checkHead (coinbase.take n) = .ok () := by
  unfold headLen at h
  simp only [Option.bind_eq_bind, Option.bind_eq_some_iff] at h
  obtain ⟨length, hlength, head, hhead, hcheck⟩ := h
  split at hcheck
  · cases hcheck
  rename_i hok
  obtain rfl : 47 + length.toNat = n := Option.some.inj hcheck
  obtain ⟨-, hle, rfl⟩ := slice?_eq_some.mp hhead
  exact ⟨length, hlength, rfl, hle, hok⟩

/-- A coinbase whose output 0 is read is its head, that output and a tail. -/
lemma outputZero_eq_some {coinbase output : Bytes} (h : outputZero coinbase = some output) :
    ∃ head tail length, coinbase = head ++ output ++ tail ∧ checkHead head = .ok () ∧
      coinbase[41]? = some length ∧ head.length = 47 + length.toNat ∧
      headLen coinbase = some head.length ∧ output.length = outputLen := by
  obtain ⟨n, hn, hout⟩ := Option.bind_eq_some_iff.mp h
  obtain ⟨length, hlength, hlen, hle, hok⟩ := headLen_eq_some hn
  obtain ⟨hle1, hle2, rfl⟩ := slice?_eq_some.mp hout
  have hhead : (coinbase.take n).length = n := by
    rw [List.length_take]
    omega
  refine ⟨coinbase.take n, coinbase.drop (n + outputLen), length, slice_split coinbase hle1, hok,
    hlength, by rw [hhead, hlen], by rw [hhead, hn], ?_⟩
  rw [length_slice hle2]
  omega

end Pickaxe.Merge
