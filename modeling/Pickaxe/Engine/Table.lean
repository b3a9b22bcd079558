/-
# The generator table

The table of multiples of the generator: sixteen windows of 65,536 entries, one point after the other
by additions of the window's base.  No addition meets infinity, and entry `digit` of a window holds
the coordinates of `digit * 2 ^ (16 * window)` generators, as the kernels read them.
-/
import Pickaxe.Engine.Secp
import Pickaxe.Lib.Memory
import Pickaxe.Lib.Result
import Pickaxe.Lib.Text

namespace Pickaxe.Engine

open Lib

/-! ## Code -/

/-- `M29_G16_BYTES`. -/
def M29_G16_BYTES : ℕ := 67108864

/-- `M29_G16_WINDOWS`. -/
def M29_G16_WINDOWS : ℕ := 16

/-- `M29_G16_ENTRIES`. -/
def M29_G16_ENTRIES : ℕ := 65536

/-- `M29_G16_POINT_BYTES`. -/
def M29_G16_POINT_BYTES : ℕ := 64

/-- `M29_G16_SHA256`. -/
def M29_G16_SHA256 : String := "f6238556c4cf380be0479c14511c97cf996290eed88ce220c9dd28301c87b0e1"

/-- `store_coordinate_words`: what it stores. -/
def coordinateWords (coordinateBe : Bytes) : Bytes :=
  (List.range 8).flatMap fun limb =>
    let src := 28 - limb * 4
    u32Le (UInt32.ofNat (fromBe (slice coordinateBe src (src + 4))))

section Generate

variable (lib : Secp)

/-- `store_point`. -/
def storePoint (table : Memory UInt8) (window digit : ℕ) (point : lib.PublicKey) : Memory UInt8 :=
  let offset := (window * M29_G16_ENTRIES + digit) * M29_G16_POINT_BYTES
  let uncompressed := (lib.serializeUncompressed point).bytes
  let table := table.write offset (coordinateWords (slice uncompressed 1 33))
  table.write (offset + 32) (coordinateWords (slice uncompressed 33 65))

/-- The digits of a window: the inner loop of `generate_m29_g16`. -/
def fillDigits (window : ℕ) (base : lib.PublicKey) :
    (count digit : ℕ) → lib.PublicKey → Memory UInt8 → Except String (Memory UInt8)
  | 0, _, _, table => .ok table
  | count + 1, digit, point, table => do
    let table := storePoint lib table window digit point
    if digit + 1 ≠ M29_G16_ENTRIES then
      let point ← (lib.combine point base).mapError fun error =>
        s!"M29 window {window} digit {digit}: {error}"
      fillDigits window base count (digit + 1) point table
    else fillDigits window base count (digit + 1) point table

/-- The next base: the doublings of `generate_m29_g16`. -/
def doubleBase (window : ℕ) : (count : ℕ) → lib.PublicKey → Except String lib.PublicKey
  | 0, base => .ok base
  | count + 1, base => do
    let base ← (lib.combine base base).mapError fun error =>
      s!"M29 window {window} base doubling: {error}"
    doubleBase window count base

/-- The windows: the outer loop of `generate_m29_g16`. -/
def fillWindows :
    (count window : ℕ) → lib.PublicKey → Memory UInt8 → Except String (Memory UInt8)
  | 0, _, _, table => .ok table
  | count + 1, window, base, table => do
    let table ← fillDigits lib window base (M29_G16_ENTRIES - 1) 1 base table
    if window + 1 ≠ M29_G16_WINDOWS then
      let base ← doubleBase lib window 16 base
      fillWindows count (window + 1) base table
    else fillWindows count (window + 1) base table

/-- The scalar one, as bytes. -/
def oneBytes : ByteVec 32 := ⟨List.replicate 31 0 ++ [1], by simp⟩

variable [Hasher]

/-- `table_hash_hex`. -/
def tableHashHex (bytes : Bytes) : List Char := Text.hexEncode (sha256 bytes).bytes

/-- `valid_table`. -/
def validTable (bytes : Bytes) : Bool :=
  bytes.length = M29_G16_BYTES ∧ tableHashHex bytes = M29_G16_SHA256.toList

/-- `generate_m29_g16`. -/
def generateM29G16 : Except String Bytes := do
  let one ← (lib.fromSecretBytes oneBytes).mapError fun error => s!"M29 generator scalar: {error}"
  let base := lib.fromSecretKey one
  let table ← fillWindows lib M29_G16_WINDOWS 0 base fun _ => 0
  let table := (table.read 0 M29_G16_BYTES).toList
  let hash := tableHashHex table
  if hash ≠ M29_G16_SHA256.toList then
    .error s!"generated M29 table SHA-256 {String.ofList hash} does not match authoritative {M29_G16_SHA256}"
  else .ok table

/-- `load_or_generate_m29_g16`, without the file it leaves: what a cache file held, if one was read,
and the table with whether it came from there. -/
def loadOrGenerateM29G16 (cached : Option Bytes) : Except String (Bytes × Bool) :=
  match cached.filter validTable with
  | some bytes => .ok (bytes, true)
  | none => (generateM29G16 lib).map (·, false)

end Generate

/-- Where a kernel finds the entry of a window and a digit. -/
def entryOffset (window digit : ℕ) : ℕ := (window * 65536 + digit) * 16

/-- The entry of a window and a digit, as a kernel reads it. -/
def tableEntry (table : Memory UInt32) (window digit : ℕ) : Field × Field :=
  (⟨table.read (entryOffset window digit) 8⟩, ⟨table.read (entryOffset window digit + 8) 8⟩)

/-! ## Entries -/

/-- A block of a byte string made of blocks of four. -/
lemma slice_flatMap {α : Type} {f : α → Bytes} (hf : ∀ a, (f a).length = 4) {l : List α} {k : ℕ}
    (h : k < l.length) : slice (l.flatMap f) (4 * k) (4 * k + 4) = f l[k] := by
  induction l generalizing k with
  | nil => exact absurd h (Nat.not_lt_zero k)
  | cons a l ih =>
    cases k with
    | zero =>
      rw [List.flatMap_cons, slice, Nat.mul_zero, List.drop_zero, Nat.zero_add, Nat.sub_zero,
        List.take_append_of_le_length (hf a).ge, List.take_of_length_le (hf a).le]
      rfl
    | succ k =>
      rw [List.length_cons] at h
      rw [List.getElem_cons_succ, ← ih (by omega), List.flatMap_cons, slice, slice,
        show 4 * (k + 1) = 4 + 4 * k by ring, ← List.drop_drop, List.drop_left' (hf a)]
      congr 1
      omega

lemma toBeBytes_bytes (f : Field) :
    f.toBeBytes.bytes = f.words.toList.reverse.flatMap fun x => Lib.Sha256.beBytes 4 x.toNat :=
  Sha256.bytes_eq_flatMap _

lemma coordinateWords_toBeBytes (f : Field) :
    coordinateWords f.toBeBytes.bytes = f.words.toList.flatMap u32Le := by
  have hlist : f.words.toList = (List.range 8).map fun i => f.words.toList.getD i 0 := by
    refine List.ext_getElem (by simp) fun i hi _ => ?_
    rw [List.getElem_map, List.getElem_range, List.getD_eq_getElem _ _ hi]
  conv_rhs => rw [hlist, List.flatMap_map]
  refine List.flatMap_congr fun limb hlimb => ?_
  have hlt : limb < 8 := List.mem_range.mp hlimb
  have hsrc : 28 - limb * 4 = 4 * (7 - limb) := by omega
  have hrev : 7 - limb < f.words.toList.reverse.length := by
    rw [List.length_reverse, List.Vector.toList_length]
    omega
  have hget : f.words.toList.reverse[7 - limb] = f.words.toList.getD limb 0 := by
    rw [List.getElem_reverse, List.getD_eq_getElem _ _ (by simpa using hlt)]
    congr 1
    rw [List.Vector.toList_length]
    omega
  dsimp only
  rw [hsrc, toBeBytes_bytes, slice_flatMap (fun _ => Lib.Sha256.length_beBytes 4 _) hrev, hget,
    fromBe_beBytes (UInt32.toNat_lt _), UInt32.ofNat_toNat]

variable {lib : Secp}

/-- Storing a point writes the words of its coordinates. -/
lemma words_storePoint (hlib : lib.Lawful) (table : Memory UInt8) (window digit : ℕ)
    (p : lib.PublicKey) : ∃ x y, Coordinates x y (lib.point p) ∧
      (storePoint lib table window digit p).words =
        (table.words.write (entryOffset window digit) x.words.toList).write
          (entryOffset window digit + 8) y.words.toList := by
  obtain ⟨x, y, hxy, hx, hy⟩ := slice_uncompressed hlib p
  refine ⟨x, y, hxy, ?_⟩
  have hoffset : (window * M29_G16_ENTRIES + digit) * M29_G16_POINT_BYTES =
      4 * entryOffset window digit := by
    rw [M29_G16_ENTRIES, M29_G16_POINT_BYTES, entryOffset]
    ring
  rw [storePoint, hx, hy, coordinateWords_toBeBytes, coordinateWords_toBeBytes, hoffset]
  rw [show 4 * entryOffset window digit + 32 = 4 * (entryOffset window digit + 8) by ring,
    Memory.words_write, Memory.words_write]

/-- An entry holds the coordinates of so many generators. -/
def Holds (table : Memory UInt32) (window digit : ℕ) : Prop :=
  Coordinates (tableEntry table window digit).1 (tableEntry table window digit).2
    ((digit * 65536 ^ window) • G)

lemma tableEntry_storePoint (hlib : lib.Lawful) (table : Memory UInt8) (window digit : ℕ)
    (p : lib.PublicKey) :
    Coordinates (tableEntry (storePoint lib table window digit p).words window digit).1
      (tableEntry (storePoint lib table window digit p).words window digit).2 (lib.point p) := by
  obtain ⟨x, y, hxy, hwords⟩ := words_storePoint hlib table window digit p
  rw [hwords, tableEntry]
  dsimp only
  rw [Memory.read_write_of_disjoint _ (.inl le_rfl), Memory.read_write_self,
    Memory.read_write_self]
  exact hxy

/-- Two entries do not overlap. -/
lemma tableEntry_storePoint_of_ne (hlib : lib.Lawful) (table : Memory UInt8)
    {window digit window' digit' : ℕ} (p : lib.PublicKey) (hdigit : digit < 65536)
    (hdigit' : digit' < 65536) (hne : window' ≠ window ∨ digit' ≠ digit) :
    tableEntry (storePoint lib table window digit p).words window' digit' =
      tableEntry table.words window' digit' := by
  obtain ⟨x, y, -, hwords⟩ := words_storePoint hlib table window digit p
  have happart : entryOffset window' digit' + 16 ≤ entryOffset window digit ∨
      entryOffset window digit + 16 ≤ entryOffset window' digit' := by
    rw [entryOffset, entryOffset]
    omega
  rw [hwords, tableEntry, tableEntry, Memory.read_write_of_disjoint, Memory.read_write_of_disjoint, Memory.read_write_of_disjoint,
    Memory.read_write_of_disjoint]
  all_goals
    simp only [List.Vector.toList_length]
    omega

/-! ## The loops -/

/-- No entry is infinity. -/
lemma nsmul_ne_zero {digit window : ℕ} (hpos : 0 < digit) (hlt : digit ≤ 65536) :
    (digit * 65536 ^ window) • G ≠ 0 := by
  rw [ne_eq, nsmul_G_eq_zero_iff]
  intro hdvd
  rcases (Nat.Prime.dvd_mul order_prime).mp hdvd with h | h
  · exact Nat.not_dvd_of_pos_of_lt hpos (hlt.trans_lt (by norm_num [order])) h
  · exact Nat.not_dvd_of_pos_of_lt (by norm_num) (by norm_num [order])
      (order_prime.dvd_of_dvd_pow h)

lemma fillDigits_spec (hlib : lib.Lawful) {window : ℕ} {base : lib.PublicKey}
    (hbase : lib.point base = (65536 ^ window) • G) (count digit : ℕ) {point : lib.PublicKey}
    (hcount : digit + count = 65536) (hpos : 0 < digit)
    (hpoint : lib.point point = (digit * 65536 ^ window) • G) (table : Memory UInt8) :
    ∃ table', fillDigits lib window base count digit point table = .ok table' ∧
      (∀ d, digit ≤ d → d < 65536 → Holds table'.words window d) ∧
      ∀ w d, d < 65536 → w ≠ window ∨ d < digit →
        tableEntry table'.words w d = tableEntry table.words w d := by
  induction count generalizing digit point table with
  | zero =>
    refine ⟨table, rfl, fun d hd hlt => ?_, fun _ _ _ _ => rfl⟩
    omega
  | succ count ih =>
    have hthis : Holds (storePoint lib table window digit point).words window digit := by
      rw [Holds, ← hpoint]
      exact tableEntry_storePoint hlib table window digit point
    -- the entries after this one leave it as it is
    have hrest : ∀ table' : Memory UInt8, (∀ d, digit + 1 ≤ d → d < 65536 → Holds table'.words window d) →
        (∀ w d, d < 65536 → w ≠ window ∨ d < digit + 1 → tableEntry table'.words w d =
          tableEntry (storePoint lib table window digit point).words w d) →
        (∀ d, digit ≤ d → d < 65536 → Holds table'.words window d) ∧
          ∀ w d, d < 65536 → w ≠ window ∨ d < digit →
            tableEntry table'.words w d = tableEntry table.words w d := by
      intro table' hholds hsame
      refine ⟨fun d hd hlt => ?_, fun w d hlt hne => ?_⟩
      · rcases Nat.eq_or_lt_of_le hd with rfl | hd
        · rw [Holds, hsame _ _ hlt (.inr (Nat.lt_succ_self _))]
          exact hthis
        · exact hholds d hd hlt
      · rw [hsame w d hlt (hne.imp_right Nat.lt_succ_of_lt),
          tableEntry_storePoint_of_ne hlib table point (by omega) hlt (hne.imp_right Nat.ne_of_lt)]
    rw [fillDigits]
    by_cases hlast : digit + 1 = M29_G16_ENTRIES
    · rw [if_neg (not_not.mpr hlast)]
      obtain rfl : count = 0 := by
        rw [M29_G16_ENTRIES] at hlast
        omega
      refine ⟨_, rfl, hrest _ (fun d hd hlt => ?_) fun _ _ _ _ => rfl⟩
      rw [M29_G16_ENTRIES] at hlast
      omega
    · rw [if_pos hlast]
      have hsum : lib.point point + lib.point base = ((digit + 1) * 65536 ^ window) • G := by
        rw [hpoint, hbase, ← add_nsmul, Nat.add_mul, one_mul]
      have hne : lib.point point + lib.point base ≠ 0 := by
        rw [hsum]
        exact nsmul_ne_zero (Nat.succ_pos _) (by omega)
      obtain ⟨next, hnext, hpoint'⟩ := (hlib.combine point base).1 hne
      obtain ⟨table', htable, hholds, hsame⟩ :=
        ih (digit + 1) (by omega) (Nat.succ_pos _) (hpoint'.trans hsum)
          (storePoint lib table window digit point)
      rw [hnext]
      exact ⟨table', htable, hrest table' hholds hsame⟩

lemma doubleBase_spec (hlib : lib.Lawful) (window count : ℕ) {b : ℕ} {base : lib.PublicKey}
    (hb : b + count ≤ 256) (hbase : lib.point base = (2 ^ b) • G) :
    ∃ base', doubleBase lib window count base = .ok base' ∧
      lib.point base' = (2 ^ (b + count)) • G := by
  induction count generalizing b base with
  | zero => exact ⟨base, rfl, hbase⟩
  | succ count ih =>
    have hsum : lib.point base + lib.point base = (2 ^ (b + 1)) • G := by
      rw [hbase, ← add_nsmul, ← two_mul, ← pow_succ']
    have hne : lib.point base + lib.point base ≠ 0 := by
      rw [hsum, ne_eq, nsmul_G_eq_zero_iff]
      intro hdvd
      exact Nat.not_dvd_of_pos_of_lt (by norm_num) (by norm_num [order])
        (order_prime.dvd_of_dvd_pow hdvd)
    obtain ⟨next, hnext, hpoint⟩ := (hlib.combine base base).1 hne
    obtain ⟨base', hbase', hpoint'⟩ := ih (b := b + 1) (by omega) (hpoint.trans hsum)
    rw [doubleBase, hnext]
    rw [show b + (count + 1) = b + 1 + count by ring]
    exact ⟨base', hbase', hpoint'⟩

lemma fillWindows_spec (hlib : lib.Lawful) (count window : ℕ) {base : lib.PublicKey}
    (hcount : window + count = 16) (hbase : lib.point base = (65536 ^ window) • G)
    (table : Memory UInt8) :
    ∃ table', fillWindows lib count window base table = .ok table' ∧
      (∀ w d, window ≤ w → w < 16 → 0 < d → d < 65536 → Holds table'.words w d) ∧
      ∀ w d, d < 65536 → w < window → tableEntry table'.words w d = tableEntry table.words w d := by
  induction count generalizing window base table with
  | zero =>
    refine ⟨table, rfl, fun w d hw hlt => ?_, fun _ _ _ _ => rfl⟩
    omega
  | succ count ih =>
    have hfirst : lib.point base = (1 * 65536 ^ window) • G := by rwa [one_mul]
    obtain ⟨filled, hfilled, hholds, hsame⟩ :=
      fillDigits_spec hlib hbase 65535 1 rfl Nat.one_pos hfirst table
    rw [fillWindows, M29_G16_ENTRIES, show 65536 - 1 = 65535 by rfl, hfilled,
      show (Except.ok filled : Except String (Memory UInt8)) = pure filled from rfl, pure_bind]
    -- the windows after this one leave it as it is
    have hrest : ∀ table' : Memory UInt8,
        (∀ w d, window + 1 ≤ w → w < 16 → 0 < d → d < 65536 → Holds table'.words w d) →
        (∀ w d, d < 65536 → w < window + 1 →
          tableEntry table'.words w d = tableEntry filled.words w d) →
        (∀ w d, window ≤ w → w < 16 → 0 < d → d < 65536 → Holds table'.words w d) ∧
          ∀ w d, d < 65536 → w < window →
            tableEntry table'.words w d = tableEntry table.words w d := by
      intro table' hholds' hsame'
      refine ⟨fun w d hw hw16 hd hlt => ?_, fun w d hlt hw => ?_⟩
      · rcases Nat.eq_or_lt_of_le hw with rfl | hw
        · rw [Holds, hsame' _ _ hlt (Nat.lt_succ_self _)]
          exact hholds d hd hlt
        · exact hholds' w d hw hw16 hd hlt
      · rw [hsame' w d hlt (Nat.lt_succ_of_lt hw), hsame w d hlt (.inl hw.ne)]
    by_cases hlast : window + 1 = M29_G16_WINDOWS
    · obtain rfl : count = 0 := by
        rw [M29_G16_WINDOWS] at hlast
        omega
      rw [if_neg (not_not.mpr hlast)]
      refine ⟨filled, rfl, hrest _ (fun w d hw hw16 => ?_) fun _ _ _ _ => rfl⟩
      rw [M29_G16_WINDOWS] at hlast
      omega
    · have hpow : lib.point base = (2 ^ (16 * window)) • G := by
        rw [hbase, show 65536 = 2 ^ 16 by norm_num, ← pow_mul]
      obtain ⟨base', hbase', hpoint'⟩ :=
        doubleBase_spec hlib window 16 (by omega) hpow
      have hnext : lib.point base' = (65536 ^ (window + 1)) • G := by
        rw [hpoint', show 65536 = 2 ^ 16 by norm_num, ← pow_mul, Nat.mul_succ]
      obtain ⟨table', htable, hholds', hsame'⟩ := ih (window + 1) (by omega) hnext filled
      rw [if_pos hlast, hbase']
      exact ⟨table', htable, hrest table' hholds' hsame'⟩

/-- A table has every entry. -/
def Complete (table : Memory UInt32) : Prop :=
  ∀ window digit, window < 16 → 0 < digit → digit < 65536 → Holds table window digit

/-- A table as it is uploaded. -/
def uploaded (bytes : Bytes) : Memory UInt32 := (Memory.ofList bytes).words

/-- The loops of `generate_m29_g16` end without an error, with every entry right. -/
lemma fillWindows_entries (hlib : lib.Lawful) {one : lib.SecretKey}
    (hone : lib.fromSecretBytes oneBytes = .ok one) (table : Memory UInt8) :
    ∃ table', fillWindows lib M29_G16_WINDOWS 0 (lib.fromSecretKey one) table = .ok table' ∧
      Complete table'.words := by
  have hscalar : lib.scalar one = 1 := by
    have hvalue : fromBe oneBytes.bytes = 1 := by decide +kernel
    obtain ⟨k, hk, hscalar⟩ := (hlib.fromSecretBytes oneBytes).1
      (by rw [hvalue]; exact ⟨Nat.one_pos, order_prime.one_lt⟩)
    rw [hone, Except.ok.injEq] at hk
    rw [hk, hscalar, hvalue]
  have hbase : lib.point (lib.fromSecretKey one) = (65536 ^ 0) • G := by
    rw [hlib.fromSecretKey, hscalar, pow_zero]
  obtain ⟨table', htable, hholds, -⟩ :=
    fillWindows_spec hlib 16 0 rfl hbase table
  exact ⟨table', htable, fun w d hw => hholds w d (Nat.zero_le w) hw⟩

/-- The entries lie within the bytes of the table. -/
lemma complete_read {table : Memory UInt8}
    (h : Complete table.words) : Complete (uploaded (table.read 0 M29_G16_BYTES).toList) := by
  intro window digit hwindow hpos hlt
  have hword : ∀ i < 16777216,
      (Memory.ofList (table.read 0 M29_G16_BYTES).toList).words i = table.words i := by
    intro i hi
    refine Memory.words_congr fun k hk => Memory.ofList_read table ?_
    rw [M29_G16_BYTES]
    omega
  have hread : ∀ o ≤ 16777208, (Memory.ofList (table.read 0 M29_G16_BYTES).toList).words.read o 8 =
      table.words.read o 8 := fun o ho => Memory.read_congr fun i hi => hword _ (by omega)
  have hoffset : entryOffset window digit + 8 ≤ 16777208 := by
    rw [entryOffset]
    omega
  have hentry : tableEntry (Memory.ofList (table.read 0 M29_G16_BYTES).toList).words window digit =
      tableEntry table.words window digit := by
    rw [tableEntry, tableEntry, hread _ (by omega), hread _ hoffset]
  rw [uploaded, Holds, hentry]
  exact h window digit hwindow hpos hlt

/-- There is a table. -/
lemma exists_complete : ∃ table, Complete table := by
  obtain ⟨one, hone, -⟩ := (Secp.standard_lawful.fromSecretBytes oneBytes).1
    ⟨by decide +kernel, by decide +kernel⟩
  obtain ⟨table, -, hcomplete⟩ := fillWindows_entries Secp.standard_lawful hone fun _ => 0
  exact ⟨_, hcomplete⟩

section Loaded

variable [Hasher]

lemma generateM29G16_complete (hlib : lib.Lawful) {bytes : Bytes}
    (h : generateM29G16 lib = .ok bytes) : Complete (uploaded bytes) := by
  obtain ⟨one, hone, h⟩ := Except.bind_eq_ok.mp h
  obtain ⟨table, htable, hholds⟩ :=
    fillWindows_entries hlib (Except.mapError_eq_ok.mp hone) fun _ => 0
  obtain ⟨table', htable', h⟩ := Except.bind_eq_ok.mp h
  rw [htable, Except.ok.injEq] at htable'
  subst htable'
  have hbytes := Except.ok.inj (Except.ite_error_eq_ok.mp h).2
  rw [← hbytes]
  exact complete_read hholds

lemma validTable_generateM29G16 {bytes : Bytes} (h : generateM29G16 lib = .ok bytes) :
    tableHashHex bytes = M29_G16_SHA256.toList := by
  obtain ⟨one, -, h⟩ := Except.bind_eq_ok.mp h
  obtain ⟨table, -, h⟩ := Except.bind_eq_ok.mp h
  obtain ⟨hhash, h⟩ := Except.ite_error_eq_ok.mp h
  rw [← Except.ok.inj h]
  exact not_not.mp hhash

/-- The table that is loaded is the one that is generated, up to a collision of the hash that both
pass: with one that is generated, every entry of it is right. -/
theorem loadOrGenerateM29G16_complete (hlib : lib.Lawful) {cached : Option Bytes}
    {bytes generated : Bytes} {fromCache : Bool} (hgenerated : generateM29G16 lib = .ok generated)
    (h : loadOrGenerateM29G16 lib cached = .ok (bytes, fromCache)) :
    Complete (uploaded bytes) ∨ bytes ≠ generated ∧ sha256 bytes = sha256 generated := by
  rw [loadOrGenerateM29G16] at h
  cases hcached : cached.filter validTable with
  | none =>
    rw [hcached] at h
    obtain ⟨bytes', hbytes, heq⟩ := Except.map_eq_ok.mp h
    rw [Prod.mk.injEq] at heq
    rw [← heq.1]
    exact .inl (generateM29G16_complete hlib hbytes)
  | some found =>
    rw [hcached, Except.ok.injEq, Prod.mk.injEq] at h
    obtain ⟨rfl, -⟩ := h
    by_cases heq : found = generated
    · rw [heq]
      exact .inl (generateM29G16_complete hlib hgenerated)
    · have hvalid := (Option.filter_eq_some_iff.mp hcached).2
      rw [validTable, decide_eq_true_iff] at hvalid
      have hhex : Text.hexEncode (sha256 found).bytes = Text.hexEncode (sha256 generated).bytes :=
        hvalid.2.trans (validTable_generateM29G16 hgenerated).symm
      have hdecode := congrArg Text.hexDecode hhex
      rw [Text.hexDecode_hexEncode, Text.hexDecode_hexEncode, Option.some.injEq] at hdecode
      exact .inr ⟨heq, ByteVec.ext hdecode⟩

end Loaded

/-- The table of a library of points, generated where nothing is cached and read back from a cache. -/
theorem loadOrGenerateM29G16_standard :
    let _ : Hasher :=
      ⟨fun _ => Hash.ofHex 0xf6238556c4cf380be0479c14511c97cf996290eed88ce220c9dd28301c87b0e1⟩
    ∃ bytes, loadOrGenerateM29G16 Secp.standard none = .ok (bytes, false) ∧
      loadOrGenerateM29G16 Secp.standard (some bytes) = .ok (bytes, true) ∧
      Complete (uploaded bytes) := by
  intro hasher
  have hhex : Text.hexEncode (sha256 []).bytes = M29_G16_SHA256.toList := by decide +kernel
  have hpinned : ∀ bytes, tableHashHex bytes = M29_G16_SHA256.toList := fun _ => hhex
  have hlib := Secp.standard_lawful
  obtain ⟨one, hone, -⟩ := (hlib.fromSecretBytes oneBytes).1
    ⟨by decide +kernel, by decide +kernel⟩
  obtain ⟨table, htable, -⟩ := fillWindows_entries hlib hone fun _ => 0
  have hgenerated : generateM29G16 Secp.standard =
      .ok (table.read 0 M29_G16_BYTES).toList := by
    refine Except.bind_eq_ok.mpr ⟨one, Except.mapError_eq_ok.mpr hone, ?_⟩
    refine Except.bind_eq_ok.mpr ⟨table, htable, ?_⟩
    exact Except.ite_error_eq_ok.mpr ⟨not_not.mpr (hpinned _), rfl⟩
  have hloaded : loadOrGenerateM29G16 Secp.standard none =
      .ok ((table.read 0 M29_G16_BYTES).toList, false) := Except.map_eq_ok.mpr ⟨_, hgenerated, rfl⟩
  have hvalid : validTable (table.read 0 M29_G16_BYTES).toList = true :=
    decide_eq_true ⟨(table.read 0 M29_G16_BYTES).toList_length, hpinned _⟩
  refine ⟨_, hloaded, ?_, ?_⟩
  · rw [loadOrGenerateM29G16, Option.filter_some, if_pos hvalid]
  · exact (loadOrGenerateM29G16_complete hlib hgenerated hloaded).resolve_right fun h => h.1 rfl

end Pickaxe.Engine
