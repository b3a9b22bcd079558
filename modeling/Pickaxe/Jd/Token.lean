/-
# Tokens

A Pickaxe pool's tokens carry its rates in 26 bytes, beside the outputs that custom jobs
must pay.  A client reads both back from what the pool allocated.
-/
import Pickaxe.Jd.Custom

namespace Pickaxe.Jd

open Lib

/-! ## Outputs -/

/-- One output of `serialize_outputs`. -/
def outputBytes (output : ℕ × Bytes) : Bytes :=
  leBytes 8 output.1 ++ (compactSize output.2.length ++ output.2)

/-- `serialize_outputs`: a count and the outputs. -/
def serializeOutputs (outputs : List (ℕ × Bytes)) : Bytes :=
  compactSize outputs.length ++ outputs.flatMap outputBytes

lemma reads_compactSize (e : String) {n : ℕ} (hn : n < 2 ^ 64) :
    Reader.Reads (readCompactSize e) n (compactSize n) :=
  Reader.reads_compact e e hn

/-- An output that `parse_outputs` takes back: its value exists, its script is not too
long. -/
def Listable (output : ℕ × Bytes) : Prop := output.1 ≤ maxMoney ∧ output.2.length ≤ 10000

lemma reads_output {output : ℕ × Bytes} (h : Listable output) :
    Reader.Reads readOutput output (outputBytes output) := by
  have hvalue : fromLe (leBytes 8 output.1) = output.1 :=
    fromLe_leBytes_of_lt (by have := h.1; unfold maxMoney at this; omega)
  unfold readOutput outputBytes
  refine (Reader.reads_take (length_leBytes 8 _)).bind ?_
  rw [hvalue]
  refine Reader.Reads.guard_bind h.1 ?_
  refine (reads_compactSize _ (by have := h.2; omega)).bind ?_
  refine Reader.Reads.guard_bind h.2 ?_
  have hscript := (Reader.reads_take (e := "truncated output script") (w := output.2) rfl).bind
    (f := fun script => pure (output.1, script)) (Reader.reads_pure output)
  rwa [List.append_nil] at hscript

lemma reads_outputs {outputs : List (ℕ × Bytes)} (h : ∀ o ∈ outputs, Listable o) :
    Reader.Reads (Reader.times readOutput outputs.length) outputs (outputs.flatMap outputBytes) :=
  Reader.reads_times fun o ho => reads_output (h o ho)

/-- An output takes at least 9 bytes. -/
lemma length_le_serializeOutputs (outputs : List (ℕ × Bytes)) :
    9 * outputs.length ≤ (outputs.flatMap outputBytes).length := by
  induction outputs with
  | nil => simp
  | cons o outputs ih =>
    have hsize := length_compactSize_pos o.2.length
    simp only [List.length_cons, List.flatMap_cons, List.length_append, outputBytes, length_leBytes]
    omega

/-- Outputs survive a round trip. -/
lemma parseOutputs_serializeOutputs {outputs : List (ℕ × Bytes)} (hn : outputs.length < 2 ^ 64)
    (h : ∀ o ∈ outputs, Listable o) : parseOutputs (serializeOutputs outputs) = .ok outputs := by
  have hcount : outputs.length ≤ (serializeOutputs outputs).length / 9 := by
    have := length_le_serializeOutputs outputs
    rw [serializeOutputs, List.length_append]
    omega
  have hread : (do
      let count ← readCompactSize "malformed output count"
      Reader.guard (count ≤ (serializeOutputs outputs).length / 9)
        "output count exceeds the outputs' bytes"
      let outputs ← Reader.times readOutput count
      Reader.eof "bytes after the outputs"
      return outputs : Reader String (List (ℕ × Bytes))) (serializeOutputs outputs) =
        .ok (outputs, []) := by
    rw [serializeOutputs, (reads_compactSize _ hn).bind_apply]
    exact ((Reader.reads_guard hcount).bind_apply _).trans (reads_outputs h).bind_eof
  rw [parseOutputs, hread]
  rfl

/-! ## The token -/

namespace PxToken

/-- `MAGIC`. -/
def magic : Bytes := [0x50, 0x58]

/-- `VERSION`. -/
def version : UInt8 := 1

/-- `PX_LEN`. -/
def pxLen : ℕ := 26

end PxToken

/-- A PX v1 token. -/
@[ext] structure PxToken where
  rates : PoolRates
  declared : Bool
  fullTemplate : Bool
  serial : UInt64
  secret : ByteVec 8
deriving DecidableEq

namespace PxToken

/-- The flags: bit 0 declared, bit 1 a full-template connection. -/
def flags (token : PxToken) : UInt8 :=
  (if token.declared then 1 else 0 : UInt8) ||| (if token.fullTemplate then 1 else 0 : UInt8) <<< 1

/-- `PxToken::encode`. -/
def encode (token : PxToken) : Bytes :=
  magic ++ [version] ++ u16Le token.rates.donationBps ++ u16Le token.rates.feeBps ++
    [token.rates.donationOutput.getD 0xff, token.rates.feeOutput.getD 0xff, token.flags] ++
    u64Le token.serial ++ token.secret.bytes

/-- An output's index; `0xff` stands for none. -/
def index (byte : UInt8) : Option UInt8 := if byte ≠ 0xff then some byte else none

/-- `PxToken::decode`: `none` for anything but a PX v1 token. -/
def decode (bytes : Bytes) : Option PxToken :=
  if bytes.length ≠ pxLen then none
  else if bytes.take 2 ≠ magic ∨ bytes.getD 2 0 ≠ version ∨ bytes.getD 9 0 &&& ~~~3 ≠ 0 then none
  else do
    let secret ← ByteVec.ofBytes? 8 (bytes.drop 18)
    return { rates :=
               { donationBps := u16OfLe (slice bytes 3 5)
                 feeBps := u16OfLe (slice bytes 5 7)
                 donationOutput := index (bytes.getD 7 0)
                 feeOutput := index (bytes.getD 8 0) }
             declared := bytes.getD 9 0 &&& 1 != 0
             fullTemplate := bytes.getD 9 0 &&& 2 != 0
             serial := u64OfLe (slice bytes 10 18)
             secret }

lemma index_getD {i : Option UInt8} (h : i ≠ some 0xff) : index (i.getD 0xff) = i := by
  cases i with
  | none => rfl
  | some byte =>
    rw [index, Option.getD_some, if_pos]
    rintro rfl
    exact h rfl

lemma flags_and_not (token : PxToken) : token.flags &&& ~~~3 = 0 := by
  rw [flags]
  cases token.declared <;> cases token.fullTemplate <;> decide

lemma declared_flags (token : PxToken) : (token.flags &&& 1 != 0) = token.declared := by
  rw [flags]
  cases token.declared <;> cases token.fullTemplate <;> decide

lemma fullTemplate_flags (token : PxToken) : (token.flags &&& 2 != 0) = token.fullTemplate := by
  rw [flags]
  cases token.declared <;> cases token.fullTemplate <;> decide

/-- A token that names no output 255 survives a round trip. -/
lemma decode_encode {token : PxToken} (hdonation : token.rates.donationOutput ≠ some 0xff)
    (hfee : token.rates.feeOutput ≠ some 0xff) : decode token.encode = some token := by
  obtain ⟨d0, d1, hd⟩ := List.length_eq_two.mp (length_u16Le token.rates.donationBps)
  obtain ⟨f0, f1, hf⟩ := List.length_eq_two.mp (length_u16Le token.rates.feeBps)
  have hencode : token.encode = [0x50, 0x58, 1, d0, d1, f0, f1,
      token.rates.donationOutput.getD 0xff, token.rates.feeOutput.getD 0xff, token.flags] ++
      (u64Le token.serial ++ token.secret.bytes) := by
    simp [encode, hd, hf, magic, version]
  have hlength : token.encode.length = pxLen := by
    rw [hencode]
    simp [pxLen]
  have hserial : slice token.encode 10 18 = u64Le token.serial := by
    rw [hencode, ← List.append_assoc]
    exact slice_append rfl (by simp)
  have hsecret : token.encode.drop 18 = token.secret.bytes := by
    rw [hencode, ← List.append_assoc]
    exact List.drop_left' (by simp)
  have hbytes : slice token.encode 3 5 = [d0, d1] ∧ slice token.encode 5 7 = [f0, f1] := by
    rw [hencode]
    exact ⟨rfl, rfl⟩
  rw [decode, if_neg (by simp [hlength]), if_neg]
  · rw [hserial, hsecret, hbytes.1, hbytes.2, ← hd, ← hf]
    simp [hencode, index_getD hdonation, index_getD hfee, declared_flags, fullTemplate_flags]
  · rw [hencode]
    simp [magic, version, flags_and_not]

end PxToken

/-- `token_for` for an answer with `token` and `outputs`, without P2Pool: the token, its rates
and the scripts its jobs pay. -/
def tokenFor (token coinbaseOutputs : Bytes) :
    Except String ((Bytes × PoolRates) × List Bytes) := do
  let rates ← match PxToken.decode token with
    | none => .error "the pool's tokens are not a Pickaxe pool's; Job Declaration needs one"
    | some decoded => .ok decoded.rates
  let outputs ← parseOutputs coinbaseOutputs
  return ((token, rates), outputs.map Prod.snd)

end Pickaxe.Jd
