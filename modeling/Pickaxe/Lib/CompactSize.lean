/-
# Compact sizes

The variable-length counts of Bitcoin's wire format: one byte up to 252, otherwise a marker
and two, four or eight bytes.  A reader takes minimal encodings only.
-/
import Pickaxe.Lib.Reader

namespace Pickaxe.Lib

/-- The shortest encoding of `v`. -/
def compactSize (v : ℕ) : Bytes :=
  if v < 253 then [UInt8.ofNat v]
  else if v < 2 ^ 16 then 253 :: leBytes 2 v
  else if v < 2 ^ 32 then 254 :: leBytes 4 v
  else 255 :: leBytes 8 v

lemma compactSize_of_lt {v : ℕ} (h : v < 253) : compactSize v = [UInt8.ofNat v] := if_pos h

lemma length_compactSize_le (v : ℕ) : (compactSize v).length ≤ 9 := by
  unfold compactSize
  split_ifs <;> simp

lemma length_compactSize_pos (v : ℕ) : 1 ≤ (compactSize v).length := by
  unfold compactSize
  split_ifs <;> simp

/-! ## Reading -/

namespace Reader

variable {ε : Type}

/-- A minimally encoded count; bytes that end too early and counts written too long are refused
with errors of their own. -/
def compact (truncated nonMinimal : ε) : Reader ε ℕ := do
  let first ← byte truncated
  let width := if first < 0xfd then 0 else if first = 0xfd then 2 else if first = 0xfe then 4 else 8
  if width = 0 then return first.toNat
  else do
    let bytes ← take truncated width
    let value := fromLe bytes
    guard (if width = 2 then 0xfd ≤ value else if width = 4 then 0xffff < value
      else 0xffffffff < value) nonMinimal
    return value

/-- A count after the marker of its width. -/
lemma reads_marked (truncated nonMinimal : ε) {m : UInt8} {w n : ℕ} (hw : w ≠ 0)
    (hn : n < 256 ^ w)
    (hm : (if m < 0xfd then 0 else if m = 0xfd then 2 else if m = 0xfe then 4 else 8) = w)
    (hmin : if w = 2 then 0xfd ≤ n else if w = 4 then 0xffff < n else 0xffffffff < n) :
    Reads (compact truncated nonMinimal) n (m :: leBytes w n) := by
  subst hm
  rw [compact, ← List.append_nil (leBytes _ n)]
  refine (reads_byte m).bind ?_
  simp only [if_neg hw]
  refine (reads_take (length_leBytes _ n)).bind ?_
  rw [fromLe_leBytes_of_lt hn]
  exact Reads.guard_bind hmin (reads_pure n)

/-- Every count below 2^64 is read back. -/
lemma reads_compact (truncated nonMinimal : ε) {n : ℕ} (hn : n < 2 ^ 64) :
    Reads (compact truncated nonMinimal) n (compactSize n) := by
  by_cases h1 : n < 253
  · have hbyte : (UInt8.ofNat n).toNat = n := UInt8.toNat_ofNat_of_lt' (by
      rw [UInt8.size]
      omega)
    have hlt : UInt8.ofNat n < 0xfd := by
      rw [UInt8.lt_iff_toNat_lt, hbyte]
      exact h1
    rw [compactSize_of_lt h1, compact, ← List.append_nil [UInt8.ofNat n]]
    refine (reads_byte _).bind ?_
    simp only [hlt, if_true, hbyte]
    exact reads_pure n
  rw [compactSize, if_neg h1]
  by_cases h2 : n < 2 ^ 16
  · rw [if_pos h2]
    exact reads_marked (m := 0xfd) _ _ (by decide) (by omega) (by decide) (by simp; omega)
  rw [if_neg h2]
  by_cases h3 : n < 2 ^ 32
  · rw [if_pos h3]
    exact reads_marked (m := 0xfe) _ _ (by decide) (by omega) (by decide) (by simp; omega)
  rw [if_neg h3]
  exact reads_marked (m := 0xff) _ _ (by decide) (by omega) (by decide) (by simp; omega)

/-- Whatever is accepted was written as the count's shortest encoding. -/
lemma compact_eq_ok {truncated nonMinimal : ε} {s rest : Bytes} {n : ℕ}
    (h : compact truncated nonMinimal s = .ok (n, rest)) :
    s = compactSize n ++ rest ∧ n < 2 ^ 64 := by
  unfold compact at h
  obtain ⟨first, s', hfirst, hread⟩ := bind_eq_ok h
  obtain rfl := byte_eq_ok hfirst
  have hlt : first < 0xfd ↔ first.toNat < 253 := UInt8.lt_iff_toNat_lt
  have hfd : first = 0xfd ↔ first.toNat = 253 := by rw [← UInt8.toNat_inj]; rfl
  have hfe : first = 0xfe ↔ first.toNat = 254 := by rw [← UInt8.toNat_inj]; rfl
  have hbyte : first.toNat < 256 := first.toNat_lt
  by_cases h1 : first < 0xfd
  · simp only [h1, if_true] at hread
    cases pure_eq_ok hread
    rw [hlt] at h1
    exact ⟨by rw [compactSize_of_lt h1, UInt8.ofNat_toNat]; rfl, by omega⟩
  · -- a marker, and a value too large for the widths below
    simp only [h1, if_false] at hread
    rw [if_neg (by split_ifs <;> decide)] at hread
    obtain ⟨bytes, t, htake, hguarded⟩ := bind_eq_ok hread
    obtain ⟨u, t', hguard, hpure⟩ := bind_eq_ok hguarded
    obtain ⟨hs, hlength⟩ := take_eq_ok htake
    obtain ⟨hmin, hu⟩ := guard_eq_ok hguard
    cases hu
    cases pure_eq_ok hpure
    simp only [h1, if_false] at hmin
    have hbytes := leBytes_fromLe bytes
    have hvalue := fromLe_lt bytes
    rw [hlength] at hbytes hvalue
    rw [hlt] at h1
    rw [hs, ← List.cons_append]
    unfold compactSize
    by_cases h2 : first = 0xfd
    · simp only [h2, if_true] at hmin hbytes hvalue ⊢
      rw [if_neg (by omega), if_pos (by omega), hbytes]
      exact ⟨rfl, by omega⟩
    · by_cases h3 : first = 0xfe
      · simp only [h3, if_true] at hmin hbytes hvalue ⊢
        simp at hmin hbytes hvalue
        rw [if_neg (by omega), if_neg (by omega), if_pos (by omega), hbytes]
        exact ⟨rfl, by omega⟩
      · have hff : first = 0xff := by
          rw [← UInt8.toNat_inj]
          rw [hfd] at h2
          rw [hfe] at h3
          show first.toNat = 255
          omega
        simp only [h2, h3, if_false] at hmin hbytes hvalue
        simp at hmin hbytes hvalue
        rw [if_neg (by omega), if_neg (by omega), if_neg (by omega), hbytes, hff]
        exact ⟨rfl, by omega⟩

end Reader

end Pickaxe.Lib
