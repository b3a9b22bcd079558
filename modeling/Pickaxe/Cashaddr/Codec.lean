/-
# Addresses written and read

The encoders of addresses, and what they are to the decoders: an address of a hash decodes to the
locking script of that hash, and a text that decodes is, trimmed, in lower case and with its prefix,
the address that is written for what it decodes to.
-/
import Pickaxe.Cashaddr.Checksum

namespace Pickaxe.Cashaddr

open Lib Digits

/-! ## Encoders -/

/-- The state of `convert_bits` from bytes to five-bit values. -/
structure Groups where
  acc : ℕ
  bits : ℕ
  out : List ℕ

/-- One byte into the accumulator; one or two values leave it. -/
def Groups.push (s : Groups) (byte : UInt8) : Groups :=
  let acc := (s.acc * 2 ^ 8 + byte.toNat) % 2 ^ 12
  let bits := s.bits + 8
  let s' : Groups := ⟨acc, bits - 5, s.out ++ [acc / 2 ^ (bits - 5) % 2 ^ 5]⟩
  if 5 ≤ s'.bits then ⟨acc, s'.bits - 5, s'.out ++ [acc / 2 ^ (s'.bits - 5) % 2 ^ 5]⟩ else s'

/-- `convert_bits(_, 8, 5, true)`: five-bit values from bytes, the last with zeros behind it.  A byte
is always in range. -/
def groups (data : Bytes) : List ℕ :=
  let s := data.foldl Groups.push ⟨0, 0, []⟩
  if 0 < s.bits then s.out ++ [s.acc * 2 ^ (5 - s.bits) % 2 ^ 5] else s.out

/-- A character of an address. -/
def char (v : ℕ) : Char := charset.getD v ' '

/-- The eight values of a checksum. -/
def checksumValues (checksum : ℕ) : List ℕ :=
  (List.range 8).reverse.map fun shift => checksum / 2 ^ (shift * 5) % 32

/-- `cashaddr_with_prefix`. -/
def cashaddrWithPrefix (pfx : List Char) (version : UInt8) (hash : Bytes) : List Char :=
  let payload := groups (version :: hash)
  let checksum := polymod (pfx.map (fun c => c.toNat % 32) ++ [0] ++ payload ++ List.replicate 8 0)
  pfx ++ [':'] ++ (payload.map char ++ (checksumValues checksum).map char)

/-- `cashaddr_with_version`. -/
def cashaddrWithVersion (version : UInt8) (hash : Bytes) (network : MiningNetwork) : List Char :=
  cashaddrWithPrefix (match network with
    | .mainnet => "bitcoincash".toList
    | .chipnet => "bchtest".toList) version hash

/-- `p2pkh_hash_to_cashaddr_with_type`. -/
def p2pkhHashToCashaddrWithType (hash : ByteVec 20) (network : MiningNetwork) (addressType : UInt8) :
    Except String (List Char) :=
  let payload := groups ((addressType <<< 3) :: hash.bytes)
  let pfx := match network with
    | .mainnet => "bitcoincash".toList
    | .chipnet => "bchtest".toList
  let checksum := polymod (pfx.map (fun c => c.toNat % 32) ++ [0] ++ payload ++ List.replicate 8 0)
  let encoded := payload.map char
  .ok (pfx ++ [':'] ++ (encoded ++ (checksumValues checksum).map char))

/-- `p2pkh_hash_to_cashaddr_for_network`. -/
def p2pkhHashToCashaddrForNetwork (hash : ByteVec 20) (network : MiningNetwork) :
    Except String (List Char) := p2pkhHashToCashaddrWithType hash network 0

/-- `token_p2pkh_hash_to_cashaddr_for_network`. -/
def tokenP2pkhHashToCashaddrForNetwork (hash : ByteVec 20) (network : MiningNetwork) :
    Except String (List Char) := p2pkhHashToCashaddrWithType hash network 2

/-! ## Bytes and five-bit values -/

/-- The state after some bytes. -/
structure Groups.After (data : Bytes) (s : Groups) : Prop where
  regrouped : Regrouped 8 5 (data.map UInt8.toNat) s.out s.acc s.bits
  bits_lt : s.bits < 5

lemma Groups.After.push {data : Bytes} {s : Groups} (h : s.After data) (byte : UInt8) :
    (s.push byte).After (data ++ [byte]) := by
  have hbits := h.bits_lt
  have hshift := h.regrouped.shift (d := byte.toNat) (k := 12) byte.toNat_lt (by omega)
  have hemit := hshift.emit (by omega)
  rw [← List.map_singleton (f := UInt8.toNat), ← List.map_append] at hemit
  simp only [Groups.push]
  split_ifs with htwo
  · exact ⟨hemit.emit htwo, by show s.bits + 8 - 5 - 5 < 5; omega⟩
  · exact ⟨hemit, not_le.mp htwo⟩

lemma Groups.after_foldl (data : Bytes) : (data.foldl Groups.push ⟨0, 0, []⟩).After data := by
  induction data using List.reverseRecOn with
  | nil => exact ⟨.nil 8 5, by decide⟩
  | append_singleton data byte ih =>
    rw [List.foldl_concat]
    exact ih.push byte

/-- The values of some bytes: what they stand for, with fewer than five zero bits behind it. -/
lemma groups_spec (data : Bytes) : ∃ p < 5, 5 * (groups data).length = 8 * data.length + p ∧
    value (2 ^ 5) (groups data) = value (2 ^ 8) (data.map UInt8.toNat) * 2 ^ p ∧
    Fives (groups data) := by
  have h := Groups.after_foldl data
  rw [groups]
  generalize data.foldl Groups.push ⟨0, 0, []⟩ = s at h
  obtain ⟨acc, bits, out⟩ := s
  obtain ⟨hregrouped, hbits⟩ := h
  dsimp only at hregrouped hbits ⊢
  split_ifs with hpos
  · obtain ⟨hlen, hvalue⟩ := hregrouped.pad hbits
    refine ⟨5 - bits, by omega, ?_, hvalue, ?_⟩
    · rw [hlen, List.length_map]
    · refine Fives.append hregrouped.lt fun v hv => ?_
      rw [List.mem_singleton.mp hv]
      exact Nat.mod_lt _ (by decide)
  · obtain rfl : bits = 0 := by omega
    have hlen := hregrouped.length
    have hvalue := hregrouped.value_of_rest (Nat.mod_one _)
    rw [List.length_map] at hlen
    exact ⟨0, by decide, hlen.symm, by rw [hvalue, pow_zero, mul_one, mul_one], hregrouped.lt⟩

/-- The state of `convert_bits` after some values. -/
structure Bits.After (values : List ℕ) (s : Bits) : Prop where
  regrouped : Regrouped 5 8 values (s.out.map UInt8.toNat) s.acc s.bits
  bits_lt : s.bits < 8
  acc_lt : s.acc < 2 ^ 12

lemma Bits.After.push {values : List ℕ} {s : Bits} {v : ℕ} (h : s.After values) (hv : v < 32) :
    (s.push v).After (values ++ [v]) := by
  have hbits := h.bits_lt
  have hshift := h.regrouped.shift (d := v) (k := 12) hv (by omega)
  have hacc : (s.acc * 2 ^ 5 + v) % 2 ^ 12 < 2 ^ 12 := Nat.mod_lt _ (by decide)
  simp only [Bits.push]
  split_ifs with hfull
  · refine ⟨?_, by show s.bits + 5 - 8 < 8; omega, hacc⟩
    have hbyte : (UInt8.ofNat ((s.acc * 2 ^ 5 + v) % 2 ^ 12 / 2 ^ (s.bits + 5 - 8))).toNat =
        (s.acc * 2 ^ 5 + v) % 2 ^ 12 / 2 ^ (s.bits + 5 - 8) % 2 ^ 8 := UInt8.toNat_ofNat'
    rw [List.map_append, List.map_singleton, hbyte]
    exact hshift.emit hfull
  · exact ⟨hshift, not_le.mp hfull, hacc⟩

lemma Bits.after_foldl {values : List ℕ} (h : Fives values) :
    (values.foldl Bits.push ⟨0, 0, []⟩).After values := by
  induction values using List.reverseRecOn with
  | nil => exact ⟨.nil 5 8, by decide, by decide⟩
  | append_singleton values v ih =>
    rw [List.foldl_concat]
    exact (ih fun w hw => h w (List.mem_append_left _ hw)).push (h v (by simp))

/-- What is padding is seen. -/
lemma rest_eq_zero {acc bits : ℕ} (hbits : bits < 5) :
    acc * 2 ^ (8 - bits) % 2 ^ 8 = 0 ↔ acc % 2 ^ bits = 0 := by
  have hpow : 2 ^ 8 = 2 ^ bits * 2 ^ (8 - bits) := by
    rw [← pow_add]
    congr 1
    omega
  rw [hpow, Nat.mul_mod_mul_right, Nat.mul_eq_zero]
  exact or_iff_left (Nat.two_pow_pos _).ne'

lemma convertBits_eq_ok {values : List ℕ} {data : Bytes} (h : Fives values) :
    convertBits values = .ok data ↔ ∃ p < 5, 5 * values.length = 8 * data.length + p ∧
      value (2 ^ 5) values = value (2 ^ 8) (data.map UInt8.toNat) * 2 ^ p := by
  have hrange : (values.any fun value => decide (32 ≤ value)) = false := by
    rw [List.any_eq_false]
    intro v hv
    simpa using h v hv
  obtain ⟨hregrouped, hbits, -⟩ := Bits.after_foldl h
  rw [convertBits, hrange, if_neg Bool.false_ne_true]
  generalize values.foldl Bits.push ⟨0, 0, []⟩ = s at hregrouped hbits
  obtain ⟨acc, bits, out⟩ := s
  dsimp only at hregrouped hbits ⊢
  rw [Except.ite_error_eq_ok, not_or, not_le, not_not, Except.ok.injEq]
  constructor
  · rintro ⟨⟨hlt, hpad⟩, rfl⟩
    rw [rest_eq_zero hlt] at hpad
    refine ⟨bits, hlt, ?_, hregrouped.value_of_rest hpad⟩
    rw [hregrouped.length, List.length_map]
  · rintro ⟨p, hp, hlen, hvalue⟩
    have hbytes : ∀ d ∈ data.map UInt8.toNat, d < 2 ^ 8 := by
      intro d hd
      obtain ⟨byte, -, rfl⟩ := List.mem_map.mp hd
      exact byte.toNat_lt
    rw [← List.length_map (f := UInt8.toNat)] at hlen
    obtain ⟨hout, rfl, hrest⟩ := hregrouped.eq_of_value (hp.trans (by decide)) hbits hlen hbytes hvalue
    exact ⟨⟨hp, (rest_eq_zero hp).mpr hrest⟩,
      List.map_injective_iff.mpr (fun _ _ => UInt8.toNat_inj.mp) hout⟩

/-- The values of some bytes are the only ones that are read as them. -/
lemma convertBits_iff {values : List ℕ} {data : Bytes} (h : Fives values) :
    convertBits values = .ok data ↔ values = groups data := by
  obtain ⟨p, hp, hlen, hvalue, hgroups⟩ := groups_spec data
  constructor
  · intro hconvert
    obtain ⟨q, hq, hlen', hvalue'⟩ := (convertBits_eq_ok h).mp hconvert
    obtain rfl : p = q := by omega
    exact value_inj (by decide) h hgroups (by omega) (hvalue'.trans hvalue.symm)
  · rintro rfl
    exact (convertBits_eq_ok hgroups).mpr ⟨p, hp, hlen, hvalue⟩

/-! ## Characters -/

lemma idxOf_char {v : ℕ} (h : v < 32) : charset.idxOf (char v) = v := by
  revert v
  decide

lemma char_lower {v : ℕ} (h : v < 32) : lower (char v) = char v := by
  revert v
  decide

lemma char_not_space {v : ℕ} (h : v < 32) : Text.isWhitespace (char v) = false := by
  revert v
  decide

lemma char_ne_colon {v : ℕ} (h : v < 32) : char v ≠ ':' := by
  revert v
  decide

/-- A text of values. -/
lemma values?_eq_some {s : List Char} {values : List ℕ} :
    values? s = some values ↔ Fives values ∧ s = values.map char := by
  induction s generalizing values with
  | nil =>
    constructor
    · rintro ⟨⟩
      exact ⟨nofun, rfl⟩
    · rintro ⟨-, h⟩
      rw [List.map_eq_nil_iff.mp h.symm]
      rfl
  | cons c s ih =>
    by_cases hc : charset.idxOf c < charset.length
    · have hvalues : values? (c :: s) = (values? s).map (charset.idxOf c :: ·) := by
        rw [values?, if_pos hc]
        cases values? s <;> rfl
      rw [hvalues, Option.map_eq_some_iff]
      constructor
      · rintro ⟨rest, hrest, rfl⟩
        obtain ⟨hfives, rfl⟩ := ih.mp hrest
        have hchar : char (charset.idxOf c) = c := by
          rw [char, List.getD_eq_getElem _ _ hc, List.getElem_idxOf]
        exact ⟨List.forall_mem_cons.mpr ⟨hc, hfives⟩, by rw [List.map_cons, hchar]⟩
      · rintro ⟨hfives, heq⟩
        cases values with
        | nil => cases heq
        | cons v rest =>
          obtain ⟨rfl, rfl⟩ := List.cons.inj heq
          obtain ⟨hv, hrest⟩ := List.forall_mem_cons.mp hfives
          exact ⟨rest, ih.mpr ⟨hrest, rfl⟩, by rw [idxOf_char hv]⟩
    · have hvalues : values? (c :: s) = none := by
        simp only [values?, if_neg hc]
        rfl
      rw [hvalues]
      refine iff_of_false nofun ?_
      rintro ⟨hfives, heq⟩
      cases values with
      | nil => cases heq
      | cons v rest =>
        obtain ⟨rfl, rfl⟩ := List.cons.inj heq
        have hv : v < 32 := hfives v List.mem_cons_self
        exact hc (by rwa [idxOf_char hv])

lemma map_char_inj {l m : List ℕ} (hl : Fives l) (hm : Fives m) (h : l.map char = m.map char) :
    l = m := by
  have hvalues := values?_eq_some.mpr ⟨hl, rfl⟩
  rw [h, values?_eq_some.mpr ⟨hm, rfl⟩] at hvalues
  exact (Option.some.inj hvalues).symm

/-! ## Decoding -/

/-- The prefixes of the two networks. -/
def Pfx (pfx : List Char) : Prop := pfx = "bitcoincash".toList ∨ pfx = "bchtest".toList

/-- What stands before the values in the checksum. -/
def expanded (pfx : List Char) : List ℕ := pfx.map (fun c => c.toNat % 32) ++ [0]

lemma fives_expanded (pfx : List Char) : Fives (expanded pfx) := by
  refine Fives.append (fun v hv => ?_) (by simp [Fives])
  obtain ⟨c, -, rfl⟩ := List.mem_map.mp hv
  exact Nat.mod_lt _ (by decide)

lemma splitColon_append {pfx payload : List Char} (h : ':' ∉ pfx) :
    splitColon (pfx ++ ':' :: payload) = (pfx, payload) := by
  have htake : ∀ c ∈ pfx, decide (c ≠ ':') = true := by
    intro c hc
    exact decide_eq_true fun heq => h (heq ▸ hc)
  rw [splitColon, List.takeWhile_append_of_pos htake, List.dropWhile_append_of_pos htake]
  simp

lemma Pfx.not_mem {pfx : List Char} (h : Pfx pfx) : ':' ∉ pfx := by
  rcases h with rfl | rfl <;> decide

/-- What the decoder takes, and what it reads. -/
lemma decode_eq_ok {pfx payload : List Char} {data : Bytes} (hpfx : ':' ∉ pfx) :
    decode (pfx ++ ':' :: payload) = .ok data ↔ Pfx pfx ∧ ∃ values check, Fives (values ++ check) ∧
      check.length = 8 ∧ values ≠ [] ∧ payload = (values ++ check).map char ∧
      polymod (expanded pfx ++ (values ++ check)) = 0 ∧ values = groups data := by
  have hpfxs : Pfx pfx ↔ ¬ (pfx ≠ "bitcoincash".toList ∧ pfx ≠ "bchtest".toList) := by
    rw [Pfx, not_and_or, not_not, not_not]
  simp only [decode, splitColon_append hpfx, Except.ite_error_eq_ok, not_or, hpfxs, List.append_assoc]
  constructor
  · rintro ⟨⟨-, hnet⟩, h⟩
    refine ⟨hnet, ?_⟩
    cases hvalues : values? payload with
    | none =>
      rw [hvalues] at h
      cases h
    | some all =>
      simp only [hvalues, Except.ite_error_eq_ok, not_lt, not_not] at h
      obtain ⟨hlen, hpolymod, hconvert⟩ := h
      obtain ⟨hfives, rfl⟩ := values?_eq_some.mp hvalues
      have hsplit := List.take_append_drop (all.length - 8) all
      refine ⟨all.take (all.length - 8), all.drop (all.length - 8), by rwa [hsplit], ?_, ?_,
        by rw [hsplit], ?_, ?_⟩
      · rw [List.length_drop]
        omega
      · intro hnil
        have hzero := congrArg List.length hnil
        rw [List.length_take, List.length_nil] at hzero
        omega
      · rw [hsplit, expanded, List.append_assoc]
        exact hpolymod
      · exact (convertBits_iff fun v hv => hfives v (List.mem_of_mem_take hv)).mp hconvert
  · rintro ⟨hnet, values, check, hfives, hlen, hne, rfl, hpolymod, hgroups⟩
    have hcolon : ¬ ((values ++ check).map char).contains ':' = true := by
      rw [List.contains_iff_mem, List.mem_map]
      rintro ⟨v, hv, hchar⟩
      exact char_ne_colon (hfives v hv) hchar
    have hvalues : values? ((values ++ check).map char) = some (values ++ check) :=
      values?_eq_some.mpr ⟨hfives, rfl⟩
    have hpos := List.length_pos_iff.mpr hne
    have htake : (values ++ check).take ((values ++ check).length - 8) = values := by
      rw [List.length_append, hlen, Nat.add_sub_cancel, List.take_left]
    rw [expanded, List.append_assoc] at hpolymod
    refine ⟨⟨hcolon, hnet⟩, ?_⟩
    simp only [hvalues, Except.ite_error_eq_ok, not_lt, not_not, hpolymod, htake]
    refine ⟨?_, trivial, ?_⟩
    · rw [List.length_append]
      omega
    · exact (convertBits_iff fun v hv => hfives v (List.mem_append_left _ hv)).mpr hgroups

/-! ## Addresses as they are written -/

lemma checksumValues_eq (checksum : ℕ) : checksumValues checksum = digits 32 8 checksum := by
  simp [checksumValues, digits, List.range_succ, Nat.div_div_eq_div_mul]

lemma cashaddrWithPrefix_eq (pfx : List Char) (version : UInt8) (hash : Bytes) :
    cashaddrWithPrefix pfx version hash = pfx ++ ':' :: (groups (version :: hash) ++ digits 32 8
      (polymod (expanded pfx ++ groups (version :: hash) ++ List.replicate 8 0))).map char := by
  rw [cashaddrWithPrefix, checksumValues_eq, ← List.map_append, List.append_assoc,
    List.singleton_append]
  rfl

lemma cashaddrWithVersion_eq (version : UInt8) (hash : Bytes) (network : MiningNetwork) :
    cashaddrWithVersion version hash network =
      cashaddrWithPrefix network.cashaddrPrefix.toList version hash := by
  cases network <;> rfl

lemma pfx_cashaddrPrefix (network : MiningNetwork) : Pfx network.cashaddrPrefix.toList := by
  cases network
  · exact .inl rfl
  · exact .inr rfl

lemma Pfx.exists_network {pfx : List Char} (h : Pfx pfx) :
    ∃ network : MiningNetwork, pfx = network.cashaddrPrefix.toList := by
  rcases h with rfl | rfl
  · exact ⟨.mainnet, rfl⟩
  · exact ⟨.chipnet, rfl⟩

/-- A text decodes to a version and a hash exactly when it is their address. -/
lemma decode_iff {pfx payload : List Char} {version : UInt8} {hash : Bytes} (hpfx : ':' ∉ pfx) :
    decode (pfx ++ ':' :: payload) = .ok (version :: hash) ↔
      Pfx pfx ∧ pfx ++ ':' :: payload = cashaddrWithPrefix pfx version hash := by
  obtain ⟨p, hp, hlen, -, hfives⟩ := groups_spec (version :: hash)
  have hvalues : Fives (expanded pfx ++ groups (version :: hash)) := (fives_expanded pfx).append hfives
  rw [decode_eq_ok hpfx, cashaddrWithPrefix_eq]
  refine and_congr_right fun _ => ?_
  constructor
  · rintro ⟨values, check, hall, hcheck, -, rfl, hpolymod, rfl⟩
    rw [← List.append_assoc, polymod_append_eq_zero hvalues
      (fun v hv => hall v (List.mem_append_right _ hv)) hcheck] at hpolymod
    rw [← hpolymod]
  · intro h
    obtain ⟨-, rfl⟩ := List.cons.inj (List.append_cancel_left h)
    have hcheck : Fives (digits 32 8
        (polymod (expanded pfx ++ groups (version :: hash) ++ List.replicate 8 0))) :=
      fun _ => lt_of_mem_digits (by decide)
    refine ⟨_, _, hfives.append hcheck, length_digits, ?_, rfl, ?_, rfl⟩
    · intro hnil
      rw [hnil, List.length_nil, List.length_cons] at hlen
      omega
    · rw [← List.append_assoc, polymod_append_eq_zero hvalues hcheck length_digits]

/-! ## Normalised texts -/

lemma exists_normalize (address : List Char) :
    ∃ pfx payload, ':' ∉ pfx ∧ normalize address = pfx ++ ':' :: payload := by
  have hmem : ':' ∈ normalize address := by
    rw [normalize]
    split_ifs with h
    · exact List.contains_iff_mem.mp h
    · exact List.mem_append_left _ (by decide)
  obtain ⟨pfx, payload, heq, hpfx⟩ := List.eq_append_cons_of_mem hmem
  exact ⟨pfx, payload, hpfx, heq⟩

lemma decode_normalize {address : List Char} {version : UInt8} {hash : Bytes} :
    decode (normalize address) = .ok (version :: hash) ↔
      ∃ network, normalize address = cashaddrWithVersion version hash network := by
  obtain ⟨pfx, payload, hpfx, heq⟩ := exists_normalize address
  rw [heq, decode_iff hpfx]
  constructor
  · rintro ⟨hnet, h⟩
    obtain ⟨network, rfl⟩ := hnet.exists_network
    exact ⟨network, h.trans (cashaddrWithVersion_eq version hash network).symm⟩
  · rintro ⟨network, h⟩
    have hcolon := (pfx_cashaddrPrefix network).not_mem
    rw [cashaddrWithVersion_eq] at h
    have hsame : pfx = network.cashaddrPrefix.toList := by
      rw [cashaddrWithPrefix_eq] at h
      have hsplit := congrArg splitColon h
      rw [splitColon_append hpfx, splitColon_append hcolon] at hsplit
      exact congrArg Prod.fst hsplit
    subst hsame
    exact ⟨pfx_cashaddrPrefix network, h⟩

/-- Texts in lower case without white space. -/
def Plain (text : List Char) : Prop := ∀ c ∈ text, lower c = c ∧ Text.isWhitespace c = false

lemma Plain.lowercase {text : List Char} (h : Plain text) : Cashaddr.lowercase text = text := by
  rw [lowercase_eq]
  exact (List.map_congr_left fun c hc => (h c hc).1).trans (List.map_id _)

lemma Plain.trim {text : List Char} (h : Plain text) : Text.trim text = text :=
  Text.trim_eq_self (fun c hc => (h c (List.mem_of_head? hc)).2)
    fun c hc => (h c (List.mem_of_getLast? hc)).2

lemma Plain.mixedCase {text : List Char} (h : Plain text) : Cashaddr.mixedCase text = false := by
  rw [← h.lowercase]
  exact mixedCase_lowercase text

lemma Plain.of_all {text : List Char}
    (h : text.all (fun c => lower c = c && !Text.isWhitespace c) = true) : Plain text := by
  simpa [Plain] using h

lemma Pfx.plain {pfx : List Char} (h : Pfx pfx) : Plain (pfx ++ [':']) := by
  rcases h with rfl | rfl
  · exact Plain.of_all (by decide)
  · exact Plain.of_all (by decide)

lemma plain_map_char {values : List ℕ} (h : Fives values) : Plain (values.map char) := by
  intro c hc
  obtain ⟨v, hv, rfl⟩ := List.mem_map.mp hc
  exact ⟨char_lower (h v hv), char_not_space (h v hv)⟩

/-- An address as it is written is normalised. -/
lemma plain_cashaddrWithVersion (version : UInt8) (hash : Bytes) (network : MiningNetwork) :
    Plain (cashaddrWithVersion version hash network) := by
  obtain ⟨-, -, -, -, hfives⟩ := groups_spec (version :: hash)
  rw [cashaddrWithVersion_eq, cashaddrWithPrefix_eq, ← List.singleton_append, ← List.append_assoc]
  intro c hc
  rcases List.mem_append.mp hc with hc | hc
  · exact (pfx_cashaddrPrefix network).plain c hc
  · exact plain_map_char (hfives.append fun _ => lt_of_mem_digits (by decide)) c hc

lemma normalize_cashaddrWithVersion (version : UInt8) (hash : Bytes) (network : MiningNetwork) :
    normalize (cashaddrWithVersion version hash network) =
      cashaddrWithVersion version hash network := by
  have hplain := plain_cashaddrWithVersion version hash network
  have hcolon : (cashaddrWithVersion version hash network).contains ':' = true := by
    rw [List.contains_iff_mem, cashaddrWithVersion_eq, cashaddrWithPrefix_eq]
    simp
  rw [normalize, hplain.trim, hplain.lowercase, if_pos hcolon]

/-! ## Locking scripts -/

/-- The locking script of a hash, by the version byte of its address. -/
inductive Pays : UInt8 → Bytes → Bytes → Prop
  | p2pkh {version : UInt8} {hash : Bytes} (hversion : version = 0 ∨ version = 0x10)
    (hlen : hash.length = 20) : Pays version hash ([0x76, 0xa9, 0x14] ++ hash ++ [0x88, 0xac])
  | p2sh {version : UInt8} {hash : Bytes} (hversion : version = 8 ∨ version = 0x18)
    (hlen : hash.length = 20) : Pays version hash ([0xa9, 0x14] ++ hash ++ [0x87])
  | p2sh32 {version : UInt8} {hash : Bytes} (hversion : version = 0x0b ∨ version = 0x1b)
    (hlen : hash.length = 32) : Pays version hash ([0xaa, 0x20] ++ hash ++ [0x87])

lemma toP2pkhLocking_eq_ok {address : List Char} {script : Bytes} :
    toP2pkhLocking address = .ok script ↔ mixedCase (Text.trim address) = false ∧
      ∃ version hash, decode (normalize address) = .ok (version :: hash) ∧
        (version = 0 ∨ version = 0x10) ∧ hash.length = 20 ∧
        script = [0x76, 0xa9, 0x14] ++ hash ++ [0x88, 0xac] := by
  rw [toP2pkhLocking, Except.ite_error_eq_ok, Bool.not_eq_true, Except.bind_eq_ok]
  refine and_congr_right fun _ => ?_
  have hversions : ∀ version : UInt8, ¬ ((version.toNat / 8 ≠ 0 ∧ version.toNat / 8 ≠ 2) ∨
      version.toNat % 8 ≠ 0) ↔ version = 0 ∨ version = 0x10 := by
    intro version
    rw [← UInt8.toNat_inj, ← UInt8.toNat_inj]
    show _ ↔ version.toNat = 0 ∨ version.toNat = 16
    omega
  constructor
  · rintro ⟨decoded, hdecode, h⟩
    rw [Except.ite_error_eq_ok, not_not] at h
    obtain ⟨hlen, h⟩ := h
    cases decoded with
    | nil => cases hlen
    | cons version hash =>
      obtain ⟨hversion, h⟩ := Except.ite_error_eq_ok.mp h
      rw [List.length_cons, Nat.add_right_cancel_iff] at hlen
      exact ⟨version, hash, hdecode, (hversions version).mp hversion, hlen, (Except.ok.inj h).symm⟩
  · rintro ⟨version, hash, hdecode, hversion, hlen, rfl⟩
    refine ⟨_, hdecode, ?_⟩
    rw [Except.ite_error_eq_ok, List.length_cons, hlen]
    exact ⟨fun h => h rfl, Except.ite_error_eq_ok.mpr ⟨(hversions version).mpr hversion, rfl⟩⟩

lemma toP2shLocking_eq_ok {address : List Char} {script : Bytes} :
    toP2shLocking address = .ok script ↔ mixedCase address = false ∧
      ∃ version hash, decode (normalize address) = .ok (version :: hash) ∧
        (((version = 8 ∨ version = 0x18) ∧ hash.length = 20 ∧
          script = [0xa9, 0x14] ++ hash ++ [0x87]) ∨
        ((version = 0x0b ∨ version = 0x1b) ∧ hash.length = 32 ∧
          script = [0xaa, 0x20] ++ hash ++ [0x87])) := by
  have hshort : ∀ version : UInt8, (version.toNat / 8 = 1 ∨ version.toNat / 8 = 3) ∧
      version.toNat % 8 = 0 ↔ version = 8 ∨ version = 0x18 := by
    intro version
    rw [← UInt8.toNat_inj, ← UInt8.toNat_inj]
    show _ ↔ version.toNat = 8 ∨ version.toNat = 24
    omega
  have hlong : ∀ version : UInt8, (version.toNat / 8 = 1 ∨ version.toNat / 8 = 3) ∧
      version.toNat % 8 = 3 ↔ version = 0x0b ∨ version = 0x1b := by
    intro version
    rw [← UInt8.toNat_inj, ← UInt8.toNat_inj]
    show _ ↔ version.toNat = 11 ∨ version.toNat = 27
    omega
  constructor
  · intro h
    obtain ⟨-, h⟩ := Except.ite_error_eq_ok.mp h
    obtain ⟨hmixed, h⟩ := Except.ite_error_eq_ok.mp h
    obtain ⟨decoded, hdecode, h⟩ := Except.bind_eq_ok.mp h
    refine ⟨Bool.not_eq_true _ ▸ hmixed, ?_⟩
    cases decoded with
    | nil => cases h
    | cons version hash =>
      refine ⟨version, hash, hdecode, ?_⟩
      dsimp only at h
      split_ifs at h with h20 h32
      · exact .inl ⟨(hshort version).mp ⟨h20.1, h20.2.1⟩, h20.2.2, (Except.ok.inj h).symm⟩
      · exact .inr ⟨(hlong version).mp ⟨h32.1, h32.2.1⟩, h32.2.2, (Except.ok.inj h).symm⟩
  · rintro ⟨hmixed, version, hash, hdecode, hpays⟩
    obtain ⟨hparts, -⟩ := Except.ite_error_eq_ok.mp hdecode
    refine Except.ite_error_eq_ok.mpr ⟨hparts, Except.ite_error_eq_ok.mpr ⟨by simp [hmixed], ?_⟩⟩
    refine Except.bind_eq_ok.mpr ⟨version :: hash, hdecode, ?_⟩
    rcases hpays with ⟨hversion, hlen, rfl⟩ | ⟨hversion, hlen, rfl⟩
    · obtain ⟨hkind, hsize⟩ := (hshort version).mpr hversion
      exact if_pos ⟨hkind, hsize, hlen⟩
    · obtain ⟨hkind, hsize⟩ := (hlong version).mpr hversion
      refine (if_neg ?_).trans (if_pos ⟨hkind, hsize, hlen⟩)
      rw [hsize]
      exact fun h => absurd h.2.1 (by decide)

lemma pays_of_p2pkh {address : List Char} {script : Bytes}
    (h : toP2pkhLocking address = .ok script) : ∃ network version hash,
      (version = 0 ∨ version = 0x10) ∧ Pays version hash script ∧
      normalize address = cashaddrWithVersion version hash network := by
  obtain ⟨-, version, hash, hdecode, hversion, hlen, rfl⟩ := toP2pkhLocking_eq_ok.mp h
  obtain ⟨network, hnormal⟩ := decode_normalize.mp hdecode
  exact ⟨network, version, hash, hversion, .p2pkh hversion hlen, hnormal⟩

/-- What a decoder takes is the address of the version and the hash that it pays. -/
lemma pays_of_coinbase {address : List Char} {script : Bytes}
    (h : toCoinbaseLocking address = .ok script) : ∃ network version hash,
      Pays version hash script ∧ normalize address = cashaddrWithVersion version hash network := by
  rw [toCoinbaseLocking] at h
  cases hp2pkh : toP2pkhLocking address with
  | ok s =>
    rw [hp2pkh] at h
    obtain rfl := Except.ok.inj h
    obtain ⟨network, version, hash, -, hpays, hnormal⟩ := pays_of_p2pkh hp2pkh
    exact ⟨network, version, hash, hpays, hnormal⟩
  | error e =>
    rw [hp2pkh] at h
    obtain ⟨-, version, hash, hdecode, hpays⟩ := toP2shLocking_eq_ok.mp h
    obtain ⟨network, hnormal⟩ := decode_normalize.mp hdecode
    rcases hpays with ⟨hversion, hlen, rfl⟩ | ⟨hversion, hlen, rfl⟩
    · exact ⟨network, version, hash, .p2sh hversion hlen, hnormal⟩
    · exact ⟨network, version, hash, .p2sh32 hversion hlen, hnormal⟩

/-- The address of a hash pays its locking script. -/
lemma Pays.coinbase {version : UInt8} {hash script : Bytes} (h : Pays version hash script)
    (network : MiningNetwork) :
    toCoinbaseLocking (cashaddrWithVersion version hash network) = .ok script := by
  have hplain := plain_cashaddrWithVersion version hash network
  have hdecode : decode (normalize (cashaddrWithVersion version hash network)) =
      .ok (version :: hash) :=
    decode_normalize.mpr ⟨network, normalize_cashaddrWithVersion version hash network⟩
  have hunique : ∀ {version' hash'}, decode (normalize (cashaddrWithVersion version hash network)) =
      .ok (version' :: hash') → version = version' := by
    intro version' hash' h'
    exact (List.cons.inj (Except.ok.inj (hdecode.symm.trans h'))).1
  -- a script's hash is not taken by the first decoder
  have hsecond : ¬ (version = 0 ∨ version = 0x10) →
      toP2shLocking (cashaddrWithVersion version hash network) = .ok script →
      toCoinbaseLocking (cashaddrWithVersion version hash network) = .ok script := by
    intro hversion hp2sh
    rw [toCoinbaseLocking]
    cases hp2pkh : toP2pkhLocking (cashaddrWithVersion version hash network) with
    | ok s =>
      obtain ⟨-, version', hash', hdecode', hversion', -⟩ := toP2pkhLocking_eq_ok.mp hp2pkh
      exact absurd (hunique hdecode' ▸ hversion') hversion
    | error e => exact hp2sh
  have hmixed : mixedCase (Text.trim (cashaddrWithVersion version hash network)) = false := by
    rw [hplain.trim]
    exact hplain.mixedCase
  cases h with
  | p2pkh hversion hlen =>
    have hp2pkh := toP2pkhLocking_eq_ok.mpr ⟨hmixed, version, hash, hdecode, hversion, hlen, rfl⟩
    rw [toCoinbaseLocking, hp2pkh]
  | p2sh hversion hlen =>
    refine hsecond (by rcases hversion with rfl | rfl <;> decide) ?_
    exact toP2shLocking_eq_ok.mpr
      ⟨hplain.mixedCase, version, hash, hdecode, .inl ⟨hversion, hlen, rfl⟩⟩
  | p2sh32 hversion hlen =>
    refine hsecond (by rcases hversion with rfl | rfl <;> decide) ?_
    exact toP2shLocking_eq_ok.mpr
      ⟨hplain.mixedCase, version, hash, hdecode, .inr ⟨hversion, hlen, rfl⟩⟩

/-! ## Changed texts -/

/-- Neither decoder takes a text. -/
def Refused (address : List Char) : Prop :=
  ∀ script, toP2pkhLocking address ≠ .ok script ∧ toCoinbaseLocking address ≠ .ok script

lemma refused_of_decode {address : List Char}
    (h : ∀ data, decode (normalize address) ≠ .ok data) : Refused address := by
  intro script
  constructor
  · intro hp2pkh
    obtain ⟨-, version, hash, hdecode, -⟩ := toP2pkhLocking_eq_ok.mp hp2pkh
    exact h _ hdecode
  · intro hcoinbase
    obtain ⟨network, version, hash, -, hnormal⟩ := pays_of_coinbase hcoinbase
    exact h _ (decode_normalize.mpr ⟨network, hnormal⟩)

lemma refused_of_mixedCase {address : List Char} (htrim : mixedCase (Text.trim address) = true)
    (h : mixedCase address = true) : Refused address := by
  intro script
  have hp2pkh : ∀ s, toP2pkhLocking address ≠ .ok s := by
    intro s hs
    rw [(toP2pkhLocking_eq_ok.mp hs).1] at htrim
    cases htrim
  refine ⟨hp2pkh script, fun hcoinbase => ?_⟩
  rw [toCoinbaseLocking] at hcoinbase
  cases hfirst : toP2pkhLocking address with
  | ok s => exact hp2pkh s hfirst
  | error e =>
    rw [hfirst] at hcoinbase
    rw [(toP2shLocking_eq_ok.mp hcoinbase).1] at h
    cases h

/-- One other character among the values and the checksum. -/
lemma decode_changed {pfx front back : List Char} {c c' : Char} {data : Bytes} (hpfx : ':' ∉ pfx)
    (h : decode (pfx ++ ':' :: (front ++ c :: back)) = .ok data) (hne : c ≠ c') (data' : Bytes) :
    decode (pfx ++ ':' :: (front ++ c' :: back)) ≠ .ok data' := by
  intro h'
  obtain ⟨-, values, check, hfives, -, -, hpayload, hpolymod, -⟩ := (decode_eq_ok hpfx).mp h
  obtain ⟨-, values', check', hfives', -, -, hpayload', hpolymod', -⟩ := (decode_eq_ok hpfx).mp h'
  obtain ⟨l, r, hl, rfl, hr⟩ := List.map_eq_append_iff.mp hpayload.symm
  obtain ⟨l', r', hl', hfront, hr'⟩ := List.map_eq_append_iff.mp hpayload'.symm
  obtain ⟨v, m, rfl, rfl, rfl⟩ := List.map_eq_cons_iff.mp hr
  obtain ⟨v', m', rfl, rfl, hback⟩ := List.map_eq_cons_iff.mp hr'
  rw [hl] at hfives hpolymod
  rw [hl'] at hfives' hpolymod'
  have hleft : l' = l := map_char_inj (fun w hw => hfives' w (List.mem_append_left _ hw))
    (fun w hw => hfives w (List.mem_append_left _ hw)) hfront
  have hright : m' = m := map_char_inj (fun w hw => hfives' w (by simp [hw]))
    (fun w hw => hfives w (by simp [hw])) hback
  subst hleft hright
  rw [← List.append_assoc] at hpolymod hpolymod'
  refine polymod_ne_zero_of_ne ?_ (hfives' v' (by simp)) (fun hv => hne (by rw [hv])) hpolymod hpolymod'
  rw [List.append_assoc]
  exact (fives_expanded pfx).append hfives

/-- One character less at the end. -/
lemma decode_shortened {pfx front : List Char} {c : Char} {data : Bytes} (hpfx : ':' ∉ pfx)
    (h : decode (pfx ++ ':' :: (front ++ [c])) = .ok data) (data' : Bytes) :
    decode (pfx ++ ':' :: front) ≠ .ok data' := by
  intro h'
  obtain ⟨-, values, check, hfives, -, -, hpayload, hpolymod, -⟩ := (decode_eq_ok hpfx).mp h
  obtain ⟨-, values', check', hfives', -, -, hfront, hpolymod', -⟩ := (decode_eq_ok hpfx).mp h'
  obtain ⟨l, r, hl, hleft, hr⟩ := List.map_eq_append_iff.mp hpayload.symm
  obtain ⟨v, m, rfl, -, hm⟩ := List.map_eq_cons_iff.mp hr
  obtain rfl := List.map_eq_nil_iff.mp hm
  rw [hl] at hfives hpolymod
  have hsame : values' ++ check' = l := map_char_inj hfives'
    (fun w hw => hfives w (List.mem_append_left _ hw)) (hfront.symm.trans hleft.symm)
  rw [hsame] at hpolymod'
  rw [← List.append_assoc] at hpolymod
  exact polymod_ne_zero_of_append (hfives v (by simp)) hpolymod hpolymod'

lemma trim_append_singleton {text : List Char} {c : Char} (hplain : Plain text) (hne : text ≠ [])
    (hc : Text.isWhitespace c = true) : Text.trim (text ++ [c]) = text := by
  have hdrop : ∀ l : List Char, Plain l → l ≠ [] → ∀ r, (l ++ r).dropWhile Text.isWhitespace = l ++ r := by
    intro l hl hlne r
    cases l with
    | nil => exact absurd rfl hlne
    | cons d l => exact List.dropWhile_cons_of_neg (by simp [(hl d List.mem_cons_self).2])
  have hreverse : Plain text.reverse := fun d hd => hplain d (List.mem_reverse.mp hd)
  have hback := hdrop text.reverse hreverse (List.reverse_ne_nil_iff.mpr hne) []
  rw [List.append_nil] at hback
  rw [Text.trim, hdrop text hplain hne, List.reverse_append, List.reverse_singleton,
    List.singleton_append, List.dropWhile_cons_of_pos hc, hback, List.reverse_reverse]

/-- A normalised text that decodes, with one other character behind its prefix. -/
lemma refused_of_changed {pfx front back : List Char} {c c' : Char} {data : Bytes}
    (hpfx : ':' ∉ pfx) (hplain : Plain (pfx ++ ':' :: (front ++ c :: back)))
    (h : decode (pfx ++ ':' :: (front ++ c :: back)) = .ok data) (hne : c ≠ c') :
    Refused (pfx ++ ':' :: (front ++ c' :: back)) := by
  have hnet := ((decode_eq_ok hpfx).mp h).1
  have hb : 'b' ∈ pfx := by rcases hnet with rfl | rfl <;> decide
  have hmem : 'b' ∈ pfx ++ ':' :: (front ++ c' :: back) := List.mem_append_left _ hb
  have hothers : ∀ d ∈ pfx ++ ':' :: (front ++ c' :: back), d = c' ∨
      lower d = d ∧ Text.isWhitespace d = false := by
    intro d hd
    by_cases hd' : d = c'
    · exact .inl hd'
    · refine .inr (hplain d ?_)
      simp only [List.mem_append, List.mem_cons] at hd ⊢
      tauto
  by_cases hcapital : 'A' ≤ c' ∧ c' ≤ 'Z'
  · -- a capital letter next to the prefix
    have hmixed : ∀ text : List Char, 'b' ∈ text → c' ∈ text → mixedCase text = true := by
      intro text hsmall hlarge
      rw [mixedCase, Bool.and_eq_true, List.any_eq_true, List.any_eq_true]
      exact ⟨⟨'b', hsmall, by decide⟩, c', hlarge, by simpa using hcapital⟩
    have hspace : Text.isWhitespace c' = false := by
      rw [← isWhitespace_lower]
      exact capital_cases (p := fun c => Text.isWhitespace (lower c) = false) (by decide) hcapital
    have hc' : c' ∈ pfx ++ ':' :: (front ++ c' :: back) := by simp
    exact refused_of_mixedCase (hmixed _ (Text.mem_trim hmem (by decide)) (Text.mem_trim hc' hspace))
      (hmixed _ hmem hc')
  have hlower : Cashaddr.lowercase (pfx ++ ':' :: (front ++ c' :: back)) =
      pfx ++ ':' :: (front ++ c' :: back) := by
    rw [lowercase_eq]
    refine (List.map_congr_left fun d hd => ?_).trans (List.map_id _)
    rcases hothers d hd with rfl | ⟨hd, -⟩
    · exact if_neg hcapital
    · exact hd
  by_cases hend : back = [] ∧ Text.isWhitespace c' = true
  · -- white space at the end is no part of the address
    obtain ⟨rfl, hspace⟩ := hend
    have hfront : Plain (pfx ++ ':' :: front) := by
      intro d hd
      refine hplain d ?_
      simp only [List.mem_append, List.mem_cons] at hd ⊢
      tauto
    have htrim : Text.trim (pfx ++ ':' :: (front ++ [c'])) = pfx ++ ':' :: front := by
      have hsplit : pfx ++ ':' :: (front ++ [c']) = (pfx ++ ':' :: front) ++ [c'] := by simp
      rw [hsplit]
      exact trim_append_singleton hfront (by simp) hspace
    refine refused_of_decode fun data' => ?_
    rw [normalize, htrim, hfront.lowercase, if_pos (by simp)]
    exact decode_shortened hpfx h data'
  · have htrim : Text.trim (pfx ++ ':' :: (front ++ c' :: back)) =
        pfx ++ ':' :: (front ++ c' :: back) := by
      refine Text.trim_eq_self (fun d hd => ?_) fun d hd => ?_
      · rw [List.head?_append_of_ne_nil _ (List.ne_nil_of_mem hb)] at hd
        exact (hplain d (List.mem_append_left _ (List.mem_of_head? hd))).2
      · have hsplit : pfx ++ ':' :: (front ++ c' :: back) = (pfx ++ ':' :: front) ++ c' :: back := by
          simp
        rw [hsplit, List.getLast?_append_of_ne_nil _ (List.cons_ne_nil c' back)] at hd
        cases back with
        | nil =>
          obtain rfl : c' = d := Option.some.inj hd
          simpa using hend
        | cons e back =>
          rw [List.getLast?_cons_cons] at hd
          refine (hplain d ?_).2
          have hmem' := List.mem_of_getLast? hd
          simp only [List.mem_append, List.mem_cons] at hmem' ⊢
          tauto
    refine refused_of_decode fun data' => ?_
    rw [normalize, htrim, hlower, if_pos (by simp)]
    exact decode_changed hpfx h hne data'

/-! ## The codec -/

/-- The address of a hash decodes to its locking script, by every encoder, and a text that a decoder
takes is, normalised, the address of what it decodes to.  So a version, a hash and a prefix have one
normalised text, and a text in which one character behind the prefix is another is refused. -/
theorem cashaddr_codec :
    (∀ version hash script network, Pays version hash script →
      toCoinbaseLocking (cashaddrWithVersion version hash network) = .ok script) ∧
    (∀ (hash : ByteVec 20) network,
      p2pkhHashToCashaddrForNetwork hash network = .ok (cashaddrWithVersion 0 hash.bytes network) ∧
      tokenP2pkhHashToCashaddrForNetwork hash network =
        .ok (cashaddrWithVersion 0x10 hash.bytes network)) ∧
    (∀ address script, toP2pkhLocking address = .ok script → ∃ network version hash,
      (version = 0 ∨ version = 0x10) ∧ Pays version hash script ∧
      decode (normalize address) = .ok (version :: hash) ∧
      normalize address = cashaddrWithVersion version hash network) ∧
    (∀ address script, toCoinbaseLocking address = .ok script → ∃ network version hash,
      Pays version hash script ∧ decode (normalize address) = .ok (version :: hash) ∧
      normalize address = cashaddrWithVersion version hash network) ∧
    (∀ address address' script script', toCoinbaseLocking address = .ok script →
      toCoinbaseLocking address' = .ok script' →
      (splitColon (normalize address)).1 = (splitColon (normalize address')).1 →
      decode (normalize address) = decode (normalize address') →
      normalize address = normalize address') ∧
    ∀ address script pfx front back c c', toCoinbaseLocking address = .ok script → ':' ∉ pfx →
      normalize address = pfx ++ ':' :: (front ++ c :: back) → c ≠ c' →
      Refused (pfx ++ ':' :: (front ++ c' :: back)) ∧
        ∀ changed, normalize changed = pfx ++ ':' :: (front ++ c' :: back) → Refused changed := by
  refine ⟨fun version hash script network h => h.coinbase network, fun hash network => ?_, ?_, ?_, ?_, ?_⟩
  · cases network <;> exact ⟨rfl, rfl⟩
  · intro address script h
    obtain ⟨network, version, hash, hversion, hpays, hnormal⟩ := pays_of_p2pkh h
    exact ⟨network, version, hash, hversion, hpays, decode_normalize.mpr ⟨network, hnormal⟩, hnormal⟩
  · intro address script h
    obtain ⟨network, version, hash, hpays, hnormal⟩ := pays_of_coinbase h
    exact ⟨network, version, hash, hpays, decode_normalize.mpr ⟨network, hnormal⟩, hnormal⟩
  · intro address address' script script' h h' hpfx hdecode
    obtain ⟨network, version, hash, -, hnormal⟩ := pays_of_coinbase h
    obtain ⟨network', version', hash', -, hnormal'⟩ := pays_of_coinbase h'
    rw [decode_normalize.mpr ⟨network, hnormal⟩, decode_normalize.mpr ⟨network', hnormal'⟩] at hdecode
    obtain ⟨rfl, rfl⟩ := List.cons.inj (Except.ok.inj hdecode)
    rw [hnormal, hnormal', cashaddrWithVersion_eq, cashaddrWithVersion_eq, cashaddrWithPrefix_eq,
      cashaddrWithPrefix_eq, splitColon_append (pfx_cashaddrPrefix network).not_mem,
      splitColon_append (pfx_cashaddrPrefix network').not_mem] at hpfx
    dsimp only at hpfx
    rw [hnormal, hnormal', cashaddrWithVersion_eq, cashaddrWithVersion_eq, hpfx]
  · intro address script pfx front back c c' h hpfx hnormal hne
    obtain ⟨network, version, hash, -, hwritten⟩ := pays_of_coinbase h
    have hdecode := decode_normalize.mpr ⟨network, hwritten⟩
    have hplain := plain_cashaddrWithVersion version hash network
    rw [← hwritten, hnormal] at hplain
    rw [hnormal] at hdecode
    refine ⟨refused_of_changed hpfx hplain hdecode hne, fun changed hchanged => ?_⟩
    refine refused_of_decode fun data => ?_
    rw [hchanged]
    exact decode_changed hpfx hdecode hne data

theorem cashaddr_codec_sample :
    toCoinbaseLocking (cashaddrWithVersion 0 (List.replicate 20 0) .mainnet) =
      .ok ([0x76, 0xa9, 0x14] ++ List.replicate 20 0 ++ [0x88, 0xac]) ∧
    Refused "bitcoincash:qqqqqqqqqqqqqqqqqqqqqqqqqqqqqqqqqqfnhks60p".toList := by
  obtain ⟨hcoinbase, -, -, -, -, hchanged⟩ := cashaddr_codec
  have hpays := hcoinbase 0 (List.replicate 20 0) _ .mainnet (.p2pkh (.inl rfl) rfl)
  refine ⟨hpays, ?_⟩
  have hwritten : cashaddrWithVersion 0 (List.replicate 20 0) .mainnet =
      "bitcoincash:qqqqqqqqqqqqqqqqqqqqqqqqqqqqqqqqqqfnhks603".toList := by decide +kernel
  have hnormal : normalize (cashaddrWithVersion 0 (List.replicate 20 0) .mainnet) =
      "bitcoincash".toList ++ ':' :: ("qqqqqqqqqqqqqqqqqqqqqqqqqqqqqqqqqqfnhks60".toList ++ '3' :: []) := by
    rw [normalize_cashaddrWithVersion, hwritten]
    rfl
  exact (hchanged _ _ _ _ _ '3' 'p' hpays (by decide) hnormal (by decide)).1

end Pickaxe.Cashaddr
