/-
# Declared coinbases as transactions

SRI's clients declare their coinbase with BIP141's marker, flag and witness.  `stripBip141` takes
these bytes out, so such a declaration is parsed as the one without them (`parse_withWitness`), and
what a parsed shape builds is a transaction with one input that spends nothing
(`plainTransaction_coinbase`).
-/
import Pickaxe.Jd.Codec
import Pickaxe.Jd.Declared

namespace Pickaxe.Jd

open Lib Journal

/-! ## BIP141's bytes -/

/-- A coinbase prefix without marker and flag. -/
def Unmarked (pre : Bytes) : Prop := slice? pre 4 6 ≠ some [0, 1]

instance (pre : Bytes) : Decidable (Unmarked pre) := inferInstanceAs (Decidable (_ ≠ _))

/-- A prefix with marker and flag after the version. -/
def withMarker (pre : Bytes) : Bytes := pre.take 4 ++ [0, 1] ++ pre.drop 4

/-- A suffix with a witness of one item before the locktime. -/
def withWitness (item suffix : Bytes) : Bytes :=
  suffix.take (suffix.length - 4) ++ ([1, 32] ++ item) ++ suffix.drop (suffix.length - 4)

lemma withMarker_append {a b : Bytes} (h : a.length = 4) :
    withMarker (a ++ b) = a ++ [0, 1] ++ b := by
  rw [withMarker, List.take_left' h, List.drop_left' h]

lemma withWitness_append {item a b : Bytes} (h : b.length = 4) :
    withWitness item (a ++ b) = a ++ ([1, 32] ++ item) ++ b := by
  have hlength : (a ++ b).length - 4 = a.length := by
    rw [List.length_append, h, Nat.add_sub_cancel]
  rw [withWitness, hlength, List.take_left, List.drop_left]

lemma slice?_withMarker {pre : Bytes} (h : 4 ≤ pre.length) :
    slice? (withMarker pre) 4 6 = some [0, 1] := by
  refine slice?_eq_some.mpr ⟨by decide, ?_, ?_⟩
  · simp [withMarker]
    omega
  · exact slice_append (by simp [h]) rfl

lemma stripBip141_of_unmarked {pre suffix : Bytes} (h : Unmarked pre) :
    stripBip141 pre suffix = .ok (pre, suffix) := if_pos h

/-- Exactly the marker and the witness are taken out. -/
lemma stripBip141_withWitness {pre item suffix : Bytes} (hpre : 4 ≤ pre.length)
    (hitem : item.length = 32) (hsuffix : 8 ≤ suffix.length) :
    stripBip141 (withMarker pre) (withWitness item suffix) = .ok (pre, suffix) := by
  have hlength : (withWitness item suffix).length = suffix.length + 34 := by
    simp [withWitness, hitem]
    omega
  have hfront : (suffix.take (suffix.length - 4)).length = suffix.length - 4 := by simp
  have hslice : slice (withWitness item suffix) (suffix.length - 4) (suffix.length - 4 + 2) =
      [1, 32] := by
    have hsplit : withWitness item suffix = suffix.take (suffix.length - 4) ++ [1, 32] ++
        (item ++ suffix.drop (suffix.length - 4)) := by simp [withWitness]
    rw [hsplit]
    exact slice_append hfront rfl
  have hstart : (withWitness item suffix).length - 38 = suffix.length - 4 := by omega
  unfold stripBip141
  rw [slice?_withMarker hpre, if_neg (not_not.mpr rfl)]
  simp only [hstart]
  rw [if_neg]
  · congr 2
    · have htake : (withMarker pre).take 4 = pre.take 4 := by
        rw [withMarker, List.append_assoc]
        exact List.take_left' (by simp [hpre])
      have hdrop : (withMarker pre).drop 6 = pre.drop 4 := List.drop_left' (by simp [hpre])
      rw [htake, hdrop, List.take_append_drop]
    · have htake : (withWitness item suffix).take (suffix.length - 4) =
          suffix.take (suffix.length - 4) := by
        rw [withWitness, List.append_assoc]
        exact List.take_left' hfront
      have hdrop : (withWitness item suffix).drop (suffix.length - 4 + 34) =
          suffix.drop (suffix.length - 4) := by
        refine List.drop_left' ?_
        rw [List.length_append, hfront, List.length_append, hitem]
        rfl
      rw [htake, hdrop, List.take_append_drop]
  · rw [hslice, hlength]
    simp
    omega

lemma length_withWitness {item suffix : Bytes} (hitem : item.length = 32) :
    (withWitness item suffix).length = suffix.length + 34 := by
  simp [withWitness, hitem]
  omega

/-- With a marker, only a suffix with room for a witness after a sequence is taken. -/
lemma stripBip141_eq_ok {pre suffix : Bytes} {parts : Bytes × Bytes} (h : ¬ Unmarked pre)
    (hok : stripBip141 pre suffix = .ok parts) :
    42 ≤ suffix.length ∧ slice suffix (suffix.length - 38) (suffix.length - 36) = [1, 32] ∧
      parts = (pre.take 4 ++ pre.drop 6,
        suffix.take (suffix.length - 38) ++ suffix.drop (suffix.length - 4)) := by
  unfold stripBip141 at hok
  rw [if_neg (show ¬ slice? pre 4 6 ≠ some [0, 1] from h)] at hok
  simp only at hok
  obtain ⟨hshape, hok⟩ := Except.ite_error_eq_ok.mp hok
  push Not at hshape
  obtain ⟨hlong, hstart, hslice⟩ := hshape
  have hend : suffix.length - 38 + 34 = suffix.length - 4 := by omega
  have hmiddle : suffix.length - 38 + 2 = suffix.length - 36 := by omega
  rw [hmiddle] at hslice
  rw [hend] at hok
  cases hok
  exact ⟨by omega, hslice, rfl⟩

/-- The version stays. -/
lemma take_stripBip141 {pre suffix : Bytes} {parts : Bytes × Bytes} (hlength : 4 ≤ pre.length)
    (h : stripBip141 pre suffix = .ok parts) : parts.1.take 4 = pre.take 4 := by
  by_cases hpre : Unmarked pre
  · rw [stripBip141_of_unmarked hpre] at h
    cases h
    rfl
  · obtain ⟨-, -, rfl⟩ := stripBip141_eq_ok hpre h
    exact List.take_left' (by simp [hlength])

/-! ## The shape of an accepted declaration -/

namespace CoinbaseShape

/-- What the parts of an accepted declaration look like without BIP141's bytes. -/
structure Accepted (txVersion : UInt32) (pre suffix : Bytes) (shape : CoinbaseShape) : Prop where
  version : txVersion = 1 ∨ txVersion = 2
  txVersion_eq : shape.txVersion = txVersion
  pre_eq : shape.pre = pre
  suffix_eq : shape.suffix = suffix
  inputs : pre[4]? = some 1
  null : slice? pre 5 37 = some (List.replicate 32 0)
  index : slice? pre 37 41 = some (List.replicate 4 0xff)
  length_suffix : 8 ≤ suffix.length
  sequence_eq : shape.sequence = u32OfLe (suffix.take 4)
  locktime_eq : shape.locktime = u32OfLe (suffix.drop (suffix.length - 4))
  outputs_eq : parseOutputs (slice suffix 4 (suffix.length - 4)) = .ok shape.outputs

lemma parseStripped_eq_ok {txVersion : UInt32} {pre suffix : Bytes} {shape : CoinbaseShape}
    (h : parseStripped txVersion pre suffix = .ok shape) : Accepted txVersion pre suffix shape := by
  obtain ⟨hversion, h⟩ := Except.ite_error_eq_ok.mp h
  obtain ⟨hinput, h⟩ := Except.ite_error_eq_ok.mp h
  obtain ⟨hpre, h⟩ := Except.dite_error_eq_ok.mp h
  obtain ⟨hscript, h⟩ := Except.dite_error_eq_ok.mp h
  obtain ⟨hhead, h⟩ := Except.dite_error_eq_ok.mp h
  obtain ⟨hsuffix, h⟩ := Except.ite_error_eq_ok.mp h
  obtain ⟨outputs, houtputs, h⟩ := Except.bind_eq_ok.mp h
  obtain ⟨hlong, h⟩ := Except.dite_error_eq_ok.mp h
  cases h
  push Not at hinput
  exact
    { version := by
        by_contra hne
        exact hversion (not_or.mp hne)
      txVersion_eq := rfl
      pre_eq := rfl
      suffix_eq := rfl
      inputs := hinput.1
      null := hinput.2.1
      index := hinput.2.2
      length_suffix := Nat.not_lt.mp hsuffix
      sequence_eq := rfl
      locktime_eq := rfl
      outputs_eq := Except.mapError_eq_ok.mp houtputs }

lemma parse_eq_ok {pre suffix : Bytes} {shape : CoinbaseShape} :
    parse pre suffix = .ok shape ↔ 4 ≤ pre.length ∧ ∃ parts, stripBip141 pre suffix = .ok parts ∧
      parseStripped (u32OfLe (pre.take 4)) parts.1 parts.2 = .ok shape := by
  unfold parse
  rw [Except.ite_error_eq_ok, Except.bind_eq_ok, Nat.not_lt]

lemma Accepted.length_pre {txVersion : UInt32} {pre suffix : Bytes} {shape : CoinbaseShape}
    (h : Accepted txVersion pre suffix shape) : 42 ≤ pre.length := by
  rw [← h.pre_eq, shape.length_pre]
  omega

/-- An accepted prefix has no marker left. -/
lemma Accepted.unmarked {txVersion : UInt32} {pre suffix : Bytes} {shape : CoinbaseShape}
    (h : Accepted txVersion pre suffix shape) : Unmarked pre := by
  intro hmarked
  obtain ⟨-, -, hslice⟩ := slice?_eq_some.mp hmarked
  have hfour := h.inputs
  have hhead := congrArg List.head? hslice
  rw [slice, List.head?_take, if_neg (by decide), List.head?_drop, hfour] at hhead
  cases hhead

/-- A declaration with BIP141's bytes is parsed as the one without them. -/
lemma parse_withWitness {pre item suffix : Bytes} (hitem : item.length = 32) (hpre : Unmarked pre)
    {shape : CoinbaseShape} :
    parse (withMarker pre) (withWitness item suffix) = .ok shape ↔ parse pre suffix = .ok shape := by
  rw [parse_eq_ok, parse_eq_ok]
  by_cases hshort : pre.length < 4
  · -- too short with and without the two bytes
    constructor
    · rintro ⟨-, parts, hparts, hok⟩
      have hlength : (withMarker pre).length < 6 := by
        simp [withMarker]
        omega
      have hnone : Unmarked (withMarker pre) := by
        intro hmarked
        obtain ⟨-, hle, -⟩ := slice?_eq_some.mp hmarked
        omega
      rw [stripBip141_of_unmarked hnone] at hparts
      cases hparts
      have hlong : 42 ≤ (withMarker pre).length := (parseStripped_eq_ok hok).length_pre
      omega
    · rintro ⟨hlong, -⟩
      omega
  rw [Nat.not_lt] at hshort
  have htake : (withMarker pre).take 4 = pre.take 4 := by
    rw [withMarker, List.append_assoc]
    exact List.take_left' (by simp [hshort])
  have hlength : 4 ≤ (withMarker pre).length := by
    simp [withMarker]
    omega
  by_cases hsuffix : 8 ≤ suffix.length
  · rw [htake, stripBip141_withWitness hshort hitem hsuffix, stripBip141_of_unmarked hpre]
    simp only [hshort, hlength]
  · constructor
    · rintro ⟨-, parts, hparts, -⟩
      have hmarked : ¬ Unmarked (withMarker pre) := not_not.mpr (slice?_withMarker hshort)
      have hlong := (stripBip141_eq_ok hmarked hparts).1
      rw [length_withWitness hitem] at hlong
      omega
    · rintro ⟨-, parts, hparts, hok⟩
      rw [stripBip141_of_unmarked hpre] at hparts
      cases hparts
      exact absurd (parseStripped_eq_ok hok).length_suffix hsuffix

/-- Every accepted declaration with a marker is one with BIP141's bytes. -/
lemma exists_withWitness {pre suffix : Bytes} {shape : CoinbaseShape} (hmarked : ¬ Unmarked pre)
    (h : parse pre suffix = .ok shape) : ∃ stripped item rest, Unmarked stripped ∧
      item.length = 32 ∧ pre = withMarker stripped ∧ suffix = withWitness item rest := by
  obtain ⟨hlength, parts, hparts, hok⟩ := parse_eq_ok.mp h
  obtain ⟨hlong, hslice, rfl⟩ := stripBip141_eq_ok hmarked hparts
  have hunmarked := (parseStripped_eq_ok hok).unmarked
  obtain ⟨-, hmarkedLength, hmarker⟩ := slice?_eq_some.mp (not_not.mp hmarked)
  refine ⟨pre.take 4 ++ pre.drop 6, slice suffix (suffix.length - 36) (suffix.length - 4),
    suffix.take (suffix.length - 38) ++ suffix.drop (suffix.length - 4), hunmarked, ?_, ?_, ?_⟩
  · rw [length_slice (by omega)]
    omega
  · rw [withMarker_append (by simp [hlength]), ← hmarker]
    exact slice_split pre (by decide)
  · rw [withWitness_append (by rw [List.length_drop]; omega), ← hslice]
    have hitem := drop_eq_slice_append suffix
      (show suffix.length - 36 ≤ suffix.length - 4 by omega)
    have hwitness := slice_split suffix (show suffix.length - 38 ≤ suffix.length - 36 by omega)
    rw [hitem] at hwitness
    simpa only [List.append_assoc] using hwitness

/-! ## What a shape builds -/

/-- A shape's coinbase: one input that spends nothing, with the head and the extranonce as its
script, and the shape's outputs. -/
def transaction (shape : CoinbaseShape) (extranonce : Bytes) : Transaction :=
  { version := shape.txVersion
    input := [⟨ByteVec.zero 32, 0xffffffff, shape.head ++ extranonce, shape.sequence, []⟩]
    output := shape.outputs
    lockTime := shape.locktime }

/-- The bytes around an extranonce are the transaction's own. -/
lemma Accepted.bytes_transaction {pre suffix : Bytes} {shape : CoinbaseShape}
    (h : Accepted (u32OfLe (pre.take 4)) pre suffix shape) {extranonce : Bytes}
    (hlength : extranonce.length = shape.extranonceLen) :
    (shape.transaction extranonce).bytes = pre ++ extranonce ++ suffix := by
  have hlong := h.length_pre
  have hscriptLen : (shape.head ++ extranonce).length = shape.scriptLen := by
    have hlt := shape.head_lt
    rw [List.length_append, hlength, extranonceLen]
    omega
  have hpre : pre = u32Le shape.txVersion ++ ([1] ++ (List.replicate 32 0 ++
      (List.replicate 4 0xff ++ ([UInt8.ofNat shape.scriptLen] ++ shape.head)))) := by
    have hversion : u32Le shape.txVersion = pre.take 4 := by
      rw [h.txVersion_eq]
      exact u32Le_u32OfLe (by rw [List.length_take]; omega)
    have hinputs : pre.drop 4 = 1 :: pre.drop 5 := by
      rw [drop_eq_getD_cons (by omega), List.getD_eq_getElem?_getD, h.inputs]
      rfl
    have hnull : pre.drop 5 = List.replicate 32 0 ++ pre.drop 37 := by
      rw [drop_eq_slice_append pre (show 5 ≤ 37 by decide), (slice?_eq_some.mp h.null).2.2]
    have hindex : pre.drop 37 = List.replicate 4 0xff ++ pre.drop 41 := by
      rw [drop_eq_slice_append pre (show 37 ≤ 41 by decide), (slice?_eq_some.mp h.index).2.2]
    have hscript : pre.drop 41 = UInt8.ofNat shape.scriptLen :: shape.head := by
      rw [drop_eq_getD_cons (by omega), List.getD_eq_getElem?_getD, ← shape.drop_pre, ← h.pre_eq,
        shape.scriptLen_pre]
      rfl
    calc pre = pre.take 4 ++ pre.drop 4 := (List.take_append_drop 4 pre).symm
      _ = _ := by
        rw [hinputs, hnull, hindex, hscript, hversion]
        rfl
  have hsuffix : suffix = u32Le shape.sequence ++ serializeOutputs shape.outputs ++
      u32Le shape.locktime := by
    have hmiddle := (parseOutputs_eq_ok.mp h.outputs_eq).1
    have hlast := h.length_suffix
    rw [h.sequence_eq, h.locktime_eq, ← hmiddle,
      u32Le_u32OfLe (by rw [List.length_take]; omega),
      u32Le_u32OfLe (by rw [List.length_drop]; omega)]
    exact slice_split suffix (by omega)
  rw [hpre, hsuffix]
  have hcount : compactSize (shape.head ++ extranonce).length = [UInt8.ofNat shape.scriptLen] := by
    have hle := shape.scriptLen_le
    rw [hscriptLen, compactSize_of_lt (by omega)]
  have hindex : u32Le 0xffffffff = List.replicate 4 0xff := by decide
  simp only [Transaction.bytes, transaction, List.flatMap_cons, List.flatMap_nil, TxIn.bytes, hcount,
    hindex, ByteVec.bytes_zero, serializeOutputs, List.append_assoc, List.append_nil]
  rfl

/-- And they are read back as that transaction. -/
lemma reads_transaction {shape : CoinbaseShape} {bytes : Bytes}
    (h : parseOutputs bytes = .ok shape.outputs) {extranonce : Bytes}
    (hlength : extranonce.length = shape.extranonceLen) :
    Reader.Reads readTransaction (shape.transaction extranonce)
      (shape.transaction extranonce).bytes := by
  obtain ⟨-, hlistable, hcount⟩ := parseOutputs_eq_ok.mp h
  have hscript : (shape.head ++ extranonce).length < 2 ^ 32 := by
    have hlt := shape.head_lt
    have hle := shape.scriptLen_le
    rw [List.length_append, hlength, extranonceLen]
    omega
  unfold readTransaction Transaction.bytes
  refine (reads_u32 _).bind ((reads_compactSize _ (by simp [transaction])).bind ?_)
  refine (Reader.reads_times fun input hinput => ?_).bind ?_
  · obtain rfl := List.mem_singleton.mp hinput
    exact reads_input rfl hscript
  · refine (reads_compactSize _ hcount).bind ((reads_outputs hlistable).bind ?_)
    have hlast := (reads_u32 shape.locktime).bind (f := fun t => (pure ⟨shape.txVersion,
      (shape.transaction extranonce).input, shape.outputs, t⟩ : Reader String Transaction))
      (Reader.reads_pure _)
    rwa [List.append_nil] at hlast

/-- Declared coinbases are parsed alike with and without BIP141's bytes, and every accepted one with a
marker has exactly these bytes beyond an accepted one without.  Around every extranonce of its length
an accepted shape builds a transaction with one input that spends nothing, and the outputs,
locktime and height push of the shape. -/
theorem declared_coinbase_parsed :
    (∀ (pre item suffix : Bytes) (shape : CoinbaseShape), item.length = 32 → Unmarked pre →
      (parse (withMarker pre) (withWitness item suffix) = .ok shape ↔
        parse pre suffix = .ok shape)) ∧
    (∀ (pre suffix : Bytes) (shape : CoinbaseShape), ¬ Unmarked pre → parse pre suffix = .ok shape →
      ∃ stripped item rest, item.length = 32 ∧ pre = withMarker stripped ∧
        suffix = withWitness item rest ∧ Unmarked stripped ∧ parse stripped rest = .ok shape) ∧
    ∀ (pre suffix : Bytes) (shape : CoinbaseShape) (extranonce : Bytes),
      parse pre suffix = .ok shape → extranonce.length = shape.extranonceLen →
      ∃ bytes, shape.coinbase extranonce = some bytes ∧
        readTransaction bytes = .ok (shape.transaction extranonce, []) ∧
        (shape.transaction extranonce).bytes = bytes ∧
        (shape.transaction extranonce).isCoinbase = true ∧
        ∀ height, heightScript height <+: shape.head →
          heightScript height <+: slice bytes 42 (42 + shape.scriptLen) := by
  refine ⟨fun pre item suffix shape hitem hpre => parse_withWitness hitem hpre,
    fun pre suffix shape hmarked h => ?_, fun pre suffix shape extranonce h hlength => ?_⟩
  · obtain ⟨stripped, item, rest, hunmarked, hitem, rfl, rfl⟩ := exists_withWitness hmarked h
    exact ⟨stripped, item, rest, hitem, rfl, rfl, hunmarked, (parse_withWitness hitem hunmarked).mp h⟩
  · have hparsed := parse_parsed h
    obtain ⟨hlong, parts, hparts, hok⟩ := parse_eq_ok.mp h
    have haccepted := parseStripped_eq_ok hok
    have hcoinbase : shape.coinbase extranonce = some (shape.pre ++ extranonce ++ shape.suffix) :=
      coinbase_eq_some.mpr ⟨hlength, rfl⟩
    have hbytes : (shape.transaction extranonce).bytes = shape.pre ++ extranonce ++ shape.suffix := by
      rw [haccepted.pre_eq, haccepted.suffix_eq]
      rw [← take_stripBip141 hlong hparts] at haccepted
      exact haccepted.bytes_transaction hlength
    refine ⟨_, hcoinbase, ?_, hbytes, by rfl, fun height hpre => ?_⟩
    · rw [← hbytes]
      exact (reads_transaction haccepted.outputs_eq hlength).run
    · rw [hparsed.script extranonce _ hcoinbase]
      exact hpre.trans (List.prefix_append _ _)

/-- A declared prefix up to the height push, for a script of 12 bytes. -/
def samplePrefix : Bytes :=
  leBytes 4 2 ++ [1] ++ List.replicate 32 0 ++ List.replicate 4 0xff ++ [12, 3, 0xe0, 0x93, 4]

/-- Its suffix, with one output. -/
def sampleSuffix : Bytes :=
  List.replicate 4 0xff ++ serializeOutputs [(625000000, [0x51])] ++ List.replicate 4 0

/-- With a witness of zeros or without, it is one shape, whose coinbases can be read. -/
theorem declared_coinbase_parsed_sample :
    ∃ shape, parse samplePrefix sampleSuffix = .ok shape ∧
      parse (withMarker samplePrefix) (withWitness (List.replicate 32 0) sampleSuffix) =
        .ok shape ∧
      (∃ stripped, Unmarked stripped ∧ withMarker samplePrefix = withMarker stripped) ∧
      ∃ bytes, shape.coinbase (List.replicate 8 7) = some bytes ∧
        readTransaction bytes = .ok (shape.transaction (List.replicate 8 7), []) := by
  have hunmarked : Unmarked samplePrefix := by decide
  have hok : (parse samplePrefix sampleSuffix).toOption.any fun shape =>
      shape.extranonceLen == 8 := by decide +kernel
  cases h : parse samplePrefix sampleSuffix with
  | error e =>
    rw [h] at hok
    cases hok
  | ok shape =>
    rw [h] at hok
    have hlength : shape.extranonceLen = 8 := by simpa [Except.toOption] using hok
    obtain ⟨hboth, hmarked, hbuilds⟩ := declared_coinbase_parsed
    have hwith := (hboth samplePrefix (List.replicate 32 0) sampleSuffix shape rfl hunmarked).mpr h
    obtain ⟨stripped, -, -, -, heq, -, hstripped, -⟩ := hmarked _ _ shape
      (not_not.mpr (slice?_withMarker (by decide))) hwith
    obtain ⟨bytes, hbytes, hread, -⟩ := hbuilds _ _ shape (List.replicate 8 7) h (by simp [hlength])
    exact ⟨shape, rfl, hwith, ⟨stripped, hstripped, heq⟩, bytes, hbytes, hread⟩

end CoinbaseShape

end Pickaxe.Jd
