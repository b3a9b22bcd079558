/-
# Coinbase outputs, both ways

`parse_outputs` takes back every list `serialize_outputs` writes, and nothing else: what it accepts
is the one encoding of the outputs it gives (`parseOutputs_eq_ok`).
-/
import Pickaxe.Jd.Token

namespace Pickaxe.Jd

open Lib

/-- What `codec::compact_size` reads was written as the count's shortest encoding. -/
lemma readCompactSize_eq_ok {e : String} {s rest : Bytes} {n : ℕ}
    (h : readCompactSize e s = .ok (n, rest)) : s = compactSize n ++ rest ∧ n < 2 ^ 64 :=
  @Reader.compact_eq_ok _ e e _ _ _ h

lemma readOutput_eq_ok {s rest : Bytes} {output : ℕ × Bytes}
    (h : readOutput s = .ok (output, rest)) : s = outputBytes output ++ rest ∧ Listable output := by
  unfold readOutput at h
  obtain ⟨value, s1, hvalue, h1⟩ := Reader.bind_eq_ok h
  obtain ⟨u, s2, hmoney, h2⟩ := Reader.bind_eq_ok h1
  obtain ⟨length, s3, hlength, h3⟩ := Reader.bind_eq_ok h2
  obtain ⟨u', s4, hshort, h4⟩ := Reader.bind_eq_ok h3
  obtain ⟨script, s5, hscript, h5⟩ := Reader.bind_eq_ok h4
  obtain ⟨hs, hvalueLength⟩ := Reader.take_eq_ok hvalue
  obtain ⟨hexists, hs1⟩ := Reader.guard_eq_ok hmoney
  obtain ⟨hs2, -⟩ := readCompactSize_eq_ok hlength
  obtain ⟨hlimit, hs3⟩ := Reader.guard_eq_ok hshort
  obtain ⟨hs4, hscriptLength⟩ := Reader.take_eq_ok hscript
  cases hs1
  cases hs3
  cases Reader.pure_eq_ok h5
  refine ⟨?_, hexists, by rw [hscriptLength]; exact hlimit⟩
  have hbytes := leBytes_fromLe value
  rw [hvalueLength] at hbytes
  rw [hs, hs2, hs4, outputBytes, hbytes, hscriptLength]
  simp

/-- Outputs that are read one after the other. -/
lemma times_readOutput_eq_ok {n : ℕ} {s rest : Bytes} {outputs : List (ℕ × Bytes)}
    (h : Reader.times readOutput n s = .ok (outputs, rest)) :
    outputs.length = n ∧ s = outputs.flatMap outputBytes ++ rest ∧ ∀ o ∈ outputs, Listable o := by
  have hinverts : Reader.Inverts readOutput outputBytes := fun _ _ _ h => (readOutput_eq_ok h).1
  obtain ⟨hlength, hs⟩ := hinverts.times h
  refine ⟨hlength, hs, fun o ho => ?_⟩
  obtain ⟨t, rest', hread⟩ := Reader.times_eq_ok h o ho
  exact (readOutput_eq_ok hread).2

/-- Exactly the encodings of listable outputs are accepted. -/
lemma parseOutputs_eq_ok {bytes : Bytes} {outputs : List (ℕ × Bytes)} :
    parseOutputs bytes = .ok outputs ↔ bytes = serializeOutputs outputs ∧
      (∀ o ∈ outputs, Listable o) ∧ outputs.length < 2 ^ 64 := by
  constructor
  · intro h
    unfold parseOutputs at h
    obtain ⟨⟨outputs', rest⟩, hread, rfl⟩ := Except.map_eq_ok.mp h
    obtain ⟨count, s1, hcount, h1⟩ := Reader.bind_eq_ok hread
    obtain ⟨u, s2, hbound, h2⟩ := Reader.bind_eq_ok h1
    obtain ⟨hbytes, hlt⟩ := readCompactSize_eq_ok hcount
    obtain ⟨-, hs1⟩ := Reader.guard_eq_ok hbound
    cases hs1
    obtain ⟨hlength, hs2, hlistable⟩ := times_readOutput_eq_ok (Reader.bind_eof_eq_ok h2)
    refine ⟨?_, hlistable, hlength ▸ hlt⟩
    rw [hbytes, hs2, List.append_nil, serializeOutputs, hlength]
  · rintro ⟨rfl, hlistable, hlength⟩
    exact parseOutputs_serializeOutputs hlength hlistable

/-- The two functions are inverse to each other.  Outputs with values that can exist and scripts within
the limit, as many as a length counts, are read back from their encoding; and whatever is accepted is the encoding of the outputs
read, which are such outputs. -/
theorem outputs_codec :
    (∀ outputs : List (ℕ × Bytes), (∀ o ∈ outputs, o.1 ≤ maxMoney ∧ o.2.length ≤ 10000) →
      outputs.length < 2 ^ 64 → parseOutputs (serializeOutputs outputs) = .ok outputs) ∧
    ∀ (bytes : Bytes) (outputs : List (ℕ × Bytes)), parseOutputs bytes = .ok outputs →
      serializeOutputs outputs = bytes ∧ ∀ o ∈ outputs, o.1 ≤ maxMoney ∧ o.2.length ≤ 10000 := by
  refine ⟨fun outputs hlistable hlength => parseOutputs_serializeOutputs hlength hlistable,
    fun bytes outputs h => ?_⟩
  obtain ⟨rfl, hlistable, -⟩ := parseOutputs_eq_ok.mp h
  exact ⟨rfl, hlistable⟩

/-- A miner's output and a donation's, and the encoding of no output. -/
theorem outputs_codec_sample :
    parseOutputs (serializeOutputs [(624375000, [0x51]), (625000, [0x52, 0x53])]) =
      .ok [(624375000, [0x51]), (625000, [0x52, 0x53])] ∧ serializeOutputs [] = [0] :=
  ⟨outputs_codec.1 _ (by decide) (by decide), (outputs_codec.2 [0] [] (by decide)).1⟩

end Pickaxe.Jd
