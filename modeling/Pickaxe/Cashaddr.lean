/-
# CashAddr

Addresses and the locking scripts they stand for.  A coinbase pays P2PKH or P2SH; the
canonical form of an address is lower case and names its network.
-/
import Pickaxe.Basic
import Pickaxe.Lib.Result
import Pickaxe.Lib.Text

namespace Pickaxe

open Lib

namespace Cashaddr

/-- `CASHADDR_CHARSET`. -/
def charset : List Char := "qpzry9x8gf2tvdw0s3jn54khce6mua7l".toList

/-- `CASHADDR_GENERATORS`. -/
def generators : List ℕ :=
  [0x98f2bc8e61, 0x79b76d99e2, 0xf33e5fb3c4, 0xae2eabe2a8, 0x1e4f43e470]

/-- `cashaddr_polymod`: the checksum of five-bit values, on 40 bits. -/
def polymod (values : List ℕ) : ℕ :=
  let step := fun (c v : ℕ) =>
    let c0 := c / 2 ^ 35
    let shifted := ((c % 2 ^ 35) * 2 ^ 5) ^^^ v
    (generators.zipIdx.foldl (fun c g => if c0 / 2 ^ g.2 % 2 ≠ 0 then c ^^^ g.1 else c) shifted)
  values.foldl step 1 ^^^ 1

/-- The state of `convert_bits`: the accumulator, how many bits it holds and the bytes so
far. -/
structure Bits where
  acc : ℕ
  bits : ℕ
  out : Bytes

/-- One five-bit value into the accumulator; at most one byte leaves it. -/
def Bits.push (s : Bits) (value : ℕ) : Bits :=
  let acc := (s.acc * 2 ^ 5 + value) % 2 ^ 12
  let bits := s.bits + 5
  if 8 ≤ bits then ⟨acc, bits - 8, s.out ++ [UInt8.ofNat (acc / 2 ^ (bits - 8))]⟩
  else ⟨acc, bits, s.out⟩

/-- `convert_bits(_, 5, 8, false)`: bytes from five-bit values, without padding. -/
def convertBits (data : List ℕ) : Except String Bytes :=
  if data.any fun value => 32 ≤ value then .error "invalid CashAddr data value"
  else
    let s := data.foldl Bits.push ⟨0, 0, []⟩
    if 5 ≤ s.bits ∨ s.acc * 2 ^ (8 - s.bits) % 2 ^ 8 ≠ 0 then .error "invalid CashAddr padding"
    else .ok s.out

/-- `to_ascii_lowercase`. -/
def lowercase (s : List Char) : List Char :=
  s.map fun c => if 'A' ≤ c ∧ c ≤ 'Z' then Char.ofNat (c.toNat + 32) else c

/-- Whether both cases appear. -/
def mixedCase (s : List Char) : Bool :=
  (s.any fun c => 'a' ≤ c && c ≤ 'z') && (s.any fun c => 'A' ≤ c && c ≤ 'Z')

/-- The text before and after the first colon. -/
def splitColon (s : List Char) : List Char × List Char :=
  (s.takeWhile (· ≠ ':'), (s.dropWhile (· ≠ ':')).drop 1)

/-- The lower-case address with its prefix, mainnet's when there is none. -/
def normalize (address : List Char) : List Char :=
  let lower := lowercase (Text.trim address)
  if lower.contains ':' then lower else "bitcoincash:".toList ++ lower

/-- The five-bit values of a payload. -/
def values? : List Char → Option (List ℕ)
  | [] => some []
  | c :: rest => do
    let index ← if charset.idxOf c < charset.length then some (charset.idxOf c) else none
    let indices ← values? rest
    return index :: indices

/-- The bytes of a normalised address: its version and hash. -/
def decode (normalized : List Char) : Except String Bytes :=
  let parts := splitColon normalized
  if parts.2.contains ':' ∨ (parts.1 ≠ "bitcoincash".toList ∧ parts.1 ≠ "bchtest".toList) then
    .error "expected bitcoincash: or bchtest: address"
  else match values? parts.2 with
    | none => .error "invalid CashAddr character"
    | some values =>
      if values.length < 9 then .error "CashAddr too short"
      else if polymod (parts.1.map (fun c => c.toNat % 32) ++ [0] ++ values) ≠ 0 then
        .error "CashAddr checksum invalid"
      else convertBits (values.take (values.length - 8))

/-- `cashaddr_to_p2pkh_locking`. -/
def toP2pkhLocking (address : List Char) : Except String Bytes := do
  if mixedCase (Text.trim address) then .error "CashAddr must not mix upper and lower case"
  else
    let decoded ← decode (normalize address)
    if decoded.length ≠ 21 then .error "expected 20-byte P2PKH CashAddr"
    else
      let version := (decoded.headD 0).toNat
      if (version / 8 ≠ 0 ∧ version / 8 ≠ 2) ∨ version % 8 ≠ 0 then
        .error "payout must be 20-byte P2PKH / token-aware P2PKH"
      else .ok ([0x76, 0xa9, 0x14] ++ decoded.drop 1 ++ [0x88, 0xac])

/-- The P2SH half of `cashaddr_to_coinbase_locking`.  The mixed-case check stands after the
prefix check here. -/
def toP2shLocking (address : List Char) : Except String Bytes :=
  let normalized := normalize address
  let parts := splitColon normalized
  if parts.2.contains ':' ∨ (parts.1 ≠ "bitcoincash".toList ∧ parts.1 ≠ "bchtest".toList) then
    .error "expected bitcoincash: or bchtest: address"
  else if mixedCase address then .error "CashAddr must not mix upper and lower case"
  else do
    let decoded ← decode normalized
    match decoded with
    | [] => .error "CashAddr too short"
    | version :: hash =>
      let p2sh := version.toNat / 8 = 1 ∨ version.toNat / 8 = 3
      if p2sh ∧ version.toNat % 8 = 0 ∧ hash.length = 20 then .ok ([0xa9, 0x14] ++ hash ++ [0x87])
      else if p2sh ∧ version.toNat % 8 = 3 ∧ hash.length = 32 then
        .ok ([0xaa, 0x20] ++ hash ++ [0x87])
      else .error "a coinbase pays a P2PKH or P2SH address"

/-- `cashaddr_to_coinbase_locking`. -/
def toCoinbaseLocking (address : List Char) : Except String Bytes :=
  match toP2pkhLocking address with
  | .ok script => .ok script
  | .error _ => toP2shLocking address

/-- The scripts a coinbase pays: a public key's hash, or a script's of either length. -/
inductive Locking : Bytes → Prop
  | p2pkh {hash : Bytes} (h : hash.length = 20) :
    Locking ([0x76, 0xa9, 0x14] ++ hash ++ [0x88, 0xac])
  | p2sh {hash : Bytes} (h : hash.length = 20) : Locking ([0xa9, 0x14] ++ hash ++ [0x87])
  | p2sh32 {hash : Bytes} (h : hash.length = 32) : Locking ([0xaa, 0x20] ++ hash ++ [0x87])

lemma Locking.of_p2pkh {address : List Char} {script : Bytes}
    (h : toP2pkhLocking address = .ok script) : Locking script := by
  unfold toP2pkhLocking at h
  obtain ⟨-, h⟩ := Except.ite_error_eq_ok.mp h
  obtain ⟨decoded, -, h⟩ := Except.bind_eq_ok.mp h
  obtain ⟨hlen, h⟩ := Except.ite_error_eq_ok.mp h
  obtain ⟨-, h⟩ := Except.ite_error_eq_ok.mp h
  cases h
  exact .p2pkh (by rw [List.length_drop]; omega)

lemma Locking.of_p2sh {address : List Char} {script : Bytes}
    (h : toP2shLocking address = .ok script) : Locking script := by
  unfold toP2shLocking at h
  obtain ⟨-, h⟩ := Except.ite_error_eq_ok.mp h
  obtain ⟨-, h⟩ := Except.ite_error_eq_ok.mp h
  obtain ⟨decoded, -, h⟩ := Except.bind_eq_ok.mp h
  cases decoded with
  | nil => cases h
  | cons version hash =>
    simp only at h
    split_ifs at h with h20 h32
    · cases h
      exact .p2sh h20.2.2
    · cases h
      exact .p2sh32 h32.2.2

lemma Locking.of_coinbase {address : List Char} {script : Bytes}
    (h : toCoinbaseLocking address = .ok script) : Locking script := by
  unfold toCoinbaseLocking at h
  split at h
  · rename_i s hs
    cases h
    exact .of_p2pkh hs
  · exact .of_p2sh h

/-- No locking script starts like a token output or an OP_RETURN. -/
lemma Locking.head_ne {script : Bytes} (h : Locking script) :
    script.head? ≠ some 0xef ∧ script.head? ≠ some 0x6a := by
  cases h <;> simp

lemma Locking.length_le {script : Bytes} (h : Locking script) : script.length ≤ 35 := by
  cases h <;> simp <;> omega

end Cashaddr

/-- `MiningNetwork::cashaddr_prefix`. -/
def MiningNetwork.cashaddrPrefix : MiningNetwork → String
  | .mainnet => "bitcoincash"
  | .chipnet => "bchtest"

namespace Config

/-- The lower-case form of a trimmed address, with the network's prefix when it has none. -/
def canonical (network : MiningNetwork) (trimmed : List Char) : List Char :=
  if trimmed.contains ':' then Cashaddr.lowercase trimmed
  else network.cashaddrPrefix.toList ++ [':'] ++ Cashaddr.lowercase trimmed

/-- Whether an address starts with the network's prefix. -/
def hasPrefix (network : MiningNetwork) (address : List Char) : Bool :=
  (network.cashaddrPrefix.toList ++ [':']).isPrefixOf address

/-- `validate_coinbase_address`: a BCH coinbase payout in its canonical form. -/
def validateCoinbaseAddress (network : MiningNetwork) (address : List Char) :
    Except String (List Char) :=
  let trimmed := Text.trim address
  if trimmed.isEmpty then .error "payout address required"
  else
    match Cashaddr.toCoinbaseLocking trimmed with
    | .error e => .error s!"invalid payout CashAddr: {e}"
    | .ok _ =>
      if ¬ hasPrefix network (canonical network trimmed) then
        .error s!"payout address must use {network.cashaddrPrefix}: on {network.asStr}"
      else .ok (canonical network trimmed)

/-- `validate_payout_address`: a P2PKH payout in its canonical form. -/
def validatePayoutAddress (network : MiningNetwork) (address : List Char) :
    Except String (List Char) :=
  let trimmed := Text.trim address
  if trimmed.isEmpty then .error "payout address required"
  else if Cashaddr.mixedCase trimmed then
    .error "invalid payout CashAddr: CashAddr must not mix upper and lower case"
  else
    match Cashaddr.toP2pkhLocking (canonical network trimmed) with
    | .error e => .error s!"invalid payout CashAddr: {e}"
    | .ok _ =>
      if ¬ hasPrefix network (canonical network trimmed) then
        .error s!"payout address must use {network.cashaddrPrefix}: on {network.asStr}"
      else .ok (canonical network trimmed)

end Config

/-! ## Canonical addresses -/

namespace Cashaddr

/-- One character's lower case. -/
def lower (c : Char) : Char := if 'A' ≤ c ∧ c ≤ 'Z' then Char.ofNat (c.toNat + 32) else c

lemma lowercase_eq (s : List Char) : lowercase s = s.map lower := rfl

/-- A capital letter is ASCII, so what holds of its lower case is checked on 26 cases. -/
lemma capital_cases {p : Char → Prop} (h : ∀ n, n < 26 → p (Char.ofNat (65 + n))) {c : Char}
    (hc : 'A' ≤ c ∧ c ≤ 'Z') : p c := by
  have hA : 65 ≤ c.toNat := hc.1
  have hZ : c.toNat ≤ 90 := hc.2
  have := h (c.toNat - 65) (by omega)
  rwa [show 65 + (c.toNat - 65) = c.toNat by omega, Char.ofNat_toNat] at this

lemma not_capital_lower (c : Char) : ¬ ('A' ≤ lower c ∧ lower c ≤ 'Z') := by
  by_cases hc : 'A' ≤ c ∧ c ≤ 'Z'
  · exact capital_cases (p := fun c => ¬ ('A' ≤ lower c ∧ lower c ≤ 'Z')) (by decide) hc
  · rwa [lower, if_neg hc]

lemma isWhitespace_lower (c : Char) : Text.isWhitespace (lower c) = Text.isWhitespace c := by
  by_cases hc : 'A' ≤ c ∧ c ≤ 'Z'
  · exact capital_cases (p := fun c => Text.isWhitespace (lower c) = Text.isWhitespace c)
      (by decide) hc
  · rw [lower, if_neg hc]

lemma lower_eq_colon (c : Char) : lower c = ':' ↔ c = ':' := by
  by_cases hc : 'A' ≤ c ∧ c ≤ 'Z'
  · exact capital_cases (p := fun c => lower c = ':' ↔ c = ':') (by decide) hc
  · rw [lower, if_neg hc]

lemma lowercase_lowercase (s : List Char) : lowercase (lowercase s) = lowercase s := by
  rw [lowercase_eq, lowercase_eq, List.map_map]
  refine List.map_congr_left fun c _ => ?_
  change lower (lower c) = lower c
  rw [lower, if_neg (not_capital_lower c)]

lemma mixedCase_lowercase (s : List Char) : mixedCase (lowercase s) = false := by
  have hany : ((lowercase s).any fun c => 'A' ≤ c && c ≤ 'Z') = false := by
    rw [lowercase_eq, List.any_map, List.any_eq_false]
    intro c _ hc
    exact not_capital_lower c (by simpa using hc)
  rw [mixedCase, hany, Bool.and_false]

lemma contains_colon_lowercase (s : List Char) : (lowercase s).contains ':' = s.contains ':' := by
  rw [Bool.eq_iff_iff, List.contains_iff_mem, List.contains_iff_mem, lowercase_eq, List.mem_map]
  constructor
  · rintro ⟨c, hc, hcolon⟩
    exact (lower_eq_colon c).mp hcolon ▸ hc
  · intro h
    exact ⟨':', h, rfl⟩

lemma trim_lowercase_trim (s : List Char) :
    Text.trim (lowercase (Text.trim s)) = lowercase (Text.trim s) := by
  rw [lowercase_eq]
  apply Text.trim_eq_self
  · intro c hc
    rw [List.head?_map, Option.map_eq_some_iff] at hc
    obtain ⟨a, ha, rfl⟩ := hc
    rw [isWhitespace_lower]
    exact Text.head?_trim ha
  · intro c hc
    rw [List.getLast?_map, Option.map_eq_some_iff] at hc
    obtain ⟨a, ha, rfl⟩ := hc
    rw [isWhitespace_lower]
    exact Text.getLast?_trim ha

lemma normalize_lowercase (s : List Char) :
    normalize (lowercase (Text.trim s)) = normalize (Text.trim s) := by
  rw [normalize, normalize, trim_lowercase_trim, lowercase_lowercase, Text.trim_trim]

/-- An address and its lower case stand for the same script. -/
lemma toCoinbaseLocking_lowercase {s : List Char} {script : Bytes}
    (h : toCoinbaseLocking (Text.trim s) = .ok script) :
    toCoinbaseLocking (lowercase (Text.trim s)) = .ok script := by
  -- a mixed address fails both ways, the second whatever its prefix
  have hmixed : mixedCase (Text.trim s) = false := by
    by_contra hmixed
    rw [Bool.not_eq_false] at hmixed
    rw [toCoinbaseLocking, toP2pkhLocking, Text.trim_trim, if_pos hmixed, toP2shLocking] at h
    simp only [hmixed, if_true] at h
    split_ifs at h
  have hp2pkh : toP2pkhLocking (lowercase (Text.trim s)) = toP2pkhLocking (Text.trim s) := by
    rw [toP2pkhLocking, toP2pkhLocking, trim_lowercase_trim, Text.trim_trim, mixedCase_lowercase, hmixed,
      normalize_lowercase]
  have hp2sh : toP2shLocking (lowercase (Text.trim s)) = toP2shLocking (Text.trim s) := by
    rw [toP2shLocking, toP2shLocking, mixedCase_lowercase, hmixed, normalize_lowercase]
  rw [toCoinbaseLocking, hp2pkh, hp2sh]
  exact h

end Cashaddr

namespace Config

/-- The canonical form of an address with a prefix is its own canonical form. -/
lemma validateCoinbaseAddress_canonical {network : MiningNetwork} {address payout : List Char}
    (hcolon : address.contains ':' = true)
    (h : validateCoinbaseAddress network address = .ok payout) :
    validateCoinbaseAddress network payout = .ok payout := by
  have htrim : (Text.trim address).contains ':' = true :=
    List.contains_iff_mem.mpr (Text.mem_trim (List.contains_iff_mem.mp hcolon) (by decide))
  have hcanonical : canonical network (Text.trim address) = Cashaddr.lowercase (Text.trim address) := by
    rw [canonical, if_pos htrim]
  unfold validateCoinbaseAddress at h
  simp only [hcanonical] at h
  split_ifs at h with hempty hpfx
  swap
  · split at h
    · cases h
    · cases h
  split at h
  · cases h
  rename_i script hscript
  cases h
  have hlower : (Cashaddr.lowercase (Text.trim address)).contains ':' = true := by
    rw [Cashaddr.contains_colon_lowercase, htrim]
  have hcanonical' : canonical network (Cashaddr.lowercase (Text.trim address)) =
      Cashaddr.lowercase (Text.trim address) := by
    rw [canonical, if_pos hlower, Cashaddr.lowercase_lowercase]
  have hnonempty : ¬ (Cashaddr.lowercase (Text.trim address)).isEmpty = true := by
    rw [Cashaddr.lowercase_eq, List.isEmpty_map]
    exact hempty
  rw [validateCoinbaseAddress]
  simp only [Cashaddr.trim_lowercase_trim, hcanonical', if_neg hnonempty,
    Cashaddr.toCoinbaseLocking_lowercase hscript, hpfx, not_true_eq_false, if_false]

end Config

end Pickaxe
