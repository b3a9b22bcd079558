/-
# Templates of a Template Distribution provider

A provider announces a coinbase prefix: the height push, then flags.  `fromProvided` takes the
height out of the push and checks the rest of the announcement, so its templates are full ones
(`full_of_fromProvided`).  With the two other places that write and read heights,
`heights_agree` says that all of them mean the same push.
-/
import Pickaxe.Channel.Audit
import Pickaxe.Journal.Library
import Pickaxe.Safa.Height
import Mathlib.Tactic.IntervalCases

namespace Pickaxe

open Lib Merge Safa Journal

/-- `COINBASE_FIXED`: the fixed bytes of a coinbase around its outputs. -/
def coinbaseFixed : ℕ := 153

/-- `Provided`: what a provider announced for one template, with its transactions. -/
structure Provided where
  previousHash : Hash
  version : UInt32
  bits : UInt32
  /-- The provider's target, which may be harder than the one of the bits. -/
  target : Hash
  ntime : UInt32
  /-- The coinbase prefix: the height push, then any flags. -/
  coinbasePrefix : Bytes
  value : ℕ
  transactions : List Bytes
  merklePath : List Hash
  /-- The coinbase output bytes this server declared it may add. -/
  reserve : UInt32

/-- The height of a coinbase prefix: `OP_1` to `OP_16`, or a push of up to four bytes. -/
def pushedHeight (coinbasePrefix : Bytes) : Except String UInt32 :=
  match coinbasePrefix with
  | [] => .error "template provider's coinbase prefix is not a height push"
  | op :: rest =>
    if 0x51 ≤ op ∧ op ≤ 0x60 then .ok (op - 0x50).toUInt32
    else if 1 ≤ op ∧ op ≤ 4 then
      if rest.length < op.toNat then .error "template provider sent a truncated height push"
      else
        let bytes := rest.take op.toNat
        .ok (u32OfLe (bytes ++ List.replicate (4 - bytes.length) 0))
    else .error "template provider's coinbase prefix is not a height push"

/-- The checks `from_provided` makes of the prefix, and the height. -/
def providedHeight (coinbasePrefix : Bytes) : Except String UInt32 :=
  if coinbasePrefix.length > 8 then .error "template provider sent a coinbase prefix over 8 bytes"
  else do
    let height ← pushedHeight coinbasePrefix
    if height = 0 ∨ 0x80000000 ≤ height ∨ ¬ (heightScript height).isPrefixOf coinbasePrefix then
      .error "template provider's height push is not minimal"
    else .ok height

variable [Hasher] [Bitcoin]

/-- The transactions' hashes, each checked, in canonical order after `previous`. -/
def providedHashes : Option Hash → List Bytes → Except String (List Hash)
  | _, [] => .ok []
  | previous, bytes :: rest => do
    let hash ← checkedTransaction bytes
    if previous.any fun previous => revCmp previous.bytes hash.bytes ≠ .lt then
      .error "template transactions are duplicated or not in CTOR order"
    else do
      let hashes ← providedHashes (some hash) rest
      return hash :: hashes

/-- `BchTemplate::from_provided`. -/
def BchTemplate.fromProvided (provided : Provided) : Except String BchTemplate := do
  let height ← providedHeight provided.coinbasePrefix
  if provided.value > 21000000 * 100000000 then
    .error "coinbase value exceeds BCH monetary range"
  else do
    let target ← compactTarget provided.bits
    if ¬ meetsTarget provided.target target then
      .error "template provider's target is easier than its bits"
    else if provided.transactions.length > 65535 then .error "template too large for SV2"
    else do
      let hashes ← providedHashes none provided.transactions
      let merklePath := coinbasePath hashes
      if merklePath ≠ provided.merklePath then
        .error "template provider's merkle path disagrees with its transactions"
      else
        let count := compactSize (provided.transactions.length + 1)
        let size := (provided.transactions.map List.length).sum
        .ok
          { previousHash := provided.previousHash
            version := provided.version
            bits := provided.bits
            target := target
            minTime := provided.ntime
            currentTime := provided.ntime
            height := height
            sizeLimit := 80 + count.length + size + coinbaseFixed + provided.reserve.toNat
            coinbaseValue := provided.value
            parentTime := none
            coinbaseFlags := provided.coinbasePrefix.drop (heightScript height).length
            transactions := provided.transactions
            merklePath := merklePath
            tokens := none
            origin := .own
            jd := none
            p2pool := none
            declarationId := none
            work := .block
            minTime_le := UInt32.le_refl _
            token_plain := coinbasePath_plain hashes
            p2pool_head := fun _ h => by cases h
            tokens_fit := BchTemplate.no_tokens_fit }

/-! ## Which heights are taken -/

omit [Hasher] [Bitcoin] in
/-- Heights up to 16 are one opcode. -/
lemma heightScript_of_le {height : UInt32} (hpos : 1 ≤ height.toNat) (hle : height.toNat ≤ 16) :
    heightScript height = [UInt8.ofNat (0x50 + height.toNat)] := by
  obtain ⟨n, hn⟩ : ∃ n, height.toNat = n := ⟨_, rfl⟩
  obtain rfl : height = UInt32.ofNat n := by rw [← hn, UInt32.ofNat_toNat]
  rw [hn]
  rw [hn] at hpos hle
  interval_cases n <;> rfl

omit [Hasher] [Bitcoin] in
/-- A push from 17 to the limit has at most four bytes. -/
lemma heightScript_of_lt {height : UInt32} (hlow : 17 ≤ height.toNat) (hlt : height.toNat < 2 ^ 31) :
    ∃ b : Bytes, 1 ≤ b.length ∧ b.length ≤ 4 ∧ fromLe b = height.toNat ∧
      heightScript height = pushOf b := by
  obtain ⟨b, hminimal, hfrom, -, hscript⟩ := heightScript_eq hlow
  refine ⟨b, List.length_pos_of_ne_nil hminimal.ne_nil, ?_, hfrom, hscript⟩
  rw [← hminimal.num_fromLe, hfrom, Script.length_num, Script.width_le_iff]
  simpa using hlt

omit [Hasher] [Bitcoin] in
/-- The height is taken out of its own push. -/
lemma pushedHeight_of_start {height : UInt32} (hpos : 1 ≤ height.toNat)
    (hlt : height.toNat < 2 ^ 31) {coinbasePrefix : Bytes}
    (h : heightScript height <+: coinbasePrefix) : pushedHeight coinbasePrefix = .ok height := by
  obtain ⟨rest, rfl⟩ := h
  by_cases hle : height.toNat ≤ 16
  · rw [heightScript_of_le hpos hle]
    obtain ⟨n, hn⟩ : ∃ n, height.toNat = n := ⟨_, rfl⟩
    obtain rfl : height = UInt32.ofNat n := by rw [← hn, UInt32.ofNat_toNat]
    rw [hn]
    rw [hn] at hpos hle
    interval_cases n <;> rfl
  · obtain ⟨b, hone, hfour, hfrom, hscript⟩ := heightScript_of_lt (by omega) hlt
    have hop : (UInt8.ofNat b.length).toNat = b.length := toNat_length (by omega)
    rw [hscript, pushOf, List.cons_append, pushedHeight]
    simp only [UInt8.le_iff_toNat_le, hop]
    rw [if_neg (by rintro ⟨hlow, -⟩; simp at hlow; omega),
      if_pos ⟨by simpa using hone, by simpa using hfour⟩, if_neg (by simp), List.take_left]
    rw [u32OfLe, fromLe_append, fromLe_replicate_zero, Nat.mul_zero, Nat.add_zero, hfrom,
      UInt32.ofNat_toNat]

omit [Hasher] [Bitcoin] in
lemma providedHeight_eq_ok {coinbasePrefix : Bytes} {height : UInt32} :
    providedHeight coinbasePrefix = .ok height ↔ coinbasePrefix.length ≤ 8 ∧ 1 ≤ height.toNat ∧
      height.toNat < 2 ^ 31 ∧ heightScript height <+: coinbasePrefix := by
  have hzero : height = 0 ↔ height.toNat = 0 := by rw [← UInt32.toNat_inj]; rfl
  have hlimit : (0x80000000 : UInt32) ≤ height ↔ 2 ^ 31 ≤ height.toNat := UInt32.le_iff_toNat_le
  unfold providedHeight
  rw [Except.ite_error_eq_ok, Except.bind_eq_ok]
  constructor
  · rintro ⟨hlength, pushed, hpushed, h⟩
    obtain ⟨hok, h⟩ := Except.ite_error_eq_ok.mp h
    cases h
    push Not at hok
    obtain ⟨hne, hlt, hpre⟩ := hok
    rw [ne_eq, hzero] at hne
    rw [← not_le, hlimit] at hlt
    exact ⟨not_lt.mp hlength, by omega, by omega, List.isPrefixOf_iff_prefix.mp hpre⟩
  · rintro ⟨hlength, hpos, hlt, hpre⟩
    refine ⟨by omega, height, pushedHeight_of_start hpos hlt hpre, ?_⟩
    rw [Except.ite_error_eq_ok]
    refine ⟨?_, rfl⟩
    rw [hzero, hlimit, List.isPrefixOf_iff_prefix]
    simp only [hpre, not_true, or_false]
    omega

omit [Hasher] [Bitcoin] in
lemma op_of_pushedHeight {op : UInt8} {rest : Bytes} {height : UInt32}
    (h : pushedHeight (op :: rest) = .ok height) :
    1 ≤ op.toNat ∧ (op.toNat ≤ 4 ∨ 0x51 ≤ op.toNat) := by
  unfold pushedHeight at h
  simp only [UInt8.le_iff_toNat_le] at h
  split_ifs at h with hop hpush
  · have hlow : 0x51 ≤ op.toNat := hop.1
    exact ⟨by omega, .inr hlow⟩
  · exact ⟨hpush.1, .inl hpush.2⟩

omit [Hasher] [Bitcoin] in
/-- Every height's push starts differently. -/
lemma heightScript_prefix_unique {height other : UInt32} {s : Bytes} (hpos : 1 ≤ height.toNat)
    (hlt : height.toNat < 2 ^ 31) (h : heightScript height <+: s) (h' : heightScript other <+: s) :
    other = height := by
  have htaken := pushedHeight_of_start hpos hlt h
  by_cases hother : 1 ≤ other.toNat ∧ other.toNat < 2 ^ 31
  · exact Except.ok.inj ((pushedHeight_of_start hother.1 hother.2 h').symm.trans htaken)
  · -- the other pushes start with 0 or 5
    obtain ⟨rest, rfl⟩ := h'
    exfalso
    by_cases hzero : other.toNat = 0
    · obtain rfl : other = 0 := UInt32.toNat_inj.mp hzero
      have hop := op_of_pushedHeight htaken
      simp at hop
    · obtain ⟨b, hminimal, hfrom, hfive, hscript⟩ := heightScript_eq (show 17 ≤ other.toNat by omega)
      have hwide : ¬ b.length ≤ 4 := by
        rw [← hminimal.num_fromLe, hfrom, Script.length_num, Script.width_le_iff]
        simp
        omega
      rw [hscript] at htaken
      have hop := op_of_pushedHeight htaken
      rw [toNat_length (by omega)] at hop
      omega

/-! ## What a provided template is -/

omit [Hasher] [Bitcoin] in
/-- The script of a template's own coinbase. -/
lemma scriptOf_beforeScript {script : Bytes} (h : script.length ≤ 100) (tail : Bytes) :
    scriptOf (BchTemplate.beforeScript script.length ++ script ++ tail) = script := by
  have hlen : compactSize script.length = [UInt8.ofNat script.length] := compactSize_of_lt (by omega)
  have hbefore : (BchTemplate.beforeScript script.length).length = 42 := by
    simp [BchTemplate.beforeScript, hlen]
  have hbyte : (BchTemplate.beforeScript script.length ++ script ++ tail).getD 41 0 =
      UInt8.ofNat script.length := by
    rw [List.getD_eq_getElem?_getD, List.append_assoc, List.getElem?_append_left (by omega)]
    simp [BchTemplate.beforeScript, hlen]
  rw [scriptOf, hbyte, toNat_length (by omega)]
  exact slice_append hbefore rfl

omit [Hasher] [Bitcoin] in
/-- The height is read back from a template's own coinbase. -/
lemma coinbaseHeight_own {t : BchTemplate} (h : 17 ≤ t.height.toNat) {extranonce : Bytes}
    (hscript : (t.coinbaseScript extranonce).length ≤ 100) {count : ℕ} (hpos : 1 ≤ count)
    (hcount : count < 253) :
    coinbaseHeight (BchTemplate.beforeScript (t.coinbaseScript extranonce).length ++
      t.coinbaseScript extranonce ++ (List.replicate 4 0xff ++ compactSize count)) =
        some t.height.toNat := by
  rw [coinbaseHeight_iff h, scriptOf_beforeScript hscript]
  refine ⟨BchTemplate.checkHead_beforeScript hscript hpos hcount, ?_⟩
  unfold BchTemplate.coinbaseScript
  simp only [List.append_assoc]
  exact List.prefix_append _ _

lemma providedHashes_eq_ok {previous : Option Hash} {transactions : List Bytes} {hashes : List Hash}
    (h : providedHashes previous transactions = .ok hashes) :
    hashes = transactions.map doubleSha256 ∧
      ∀ bytes ∈ transactions, checkedTransaction bytes = .ok (doubleSha256 bytes) := by
  induction transactions generalizing previous hashes with
  | nil =>
    cases h
    exact ⟨rfl, by simp⟩
  | cons bytes rest ih =>
    obtain ⟨hash, hchecked, h⟩ := Except.bind_eq_ok.mp h
    obtain ⟨-, h⟩ := Except.ite_error_eq_ok.mp h
    obtain ⟨more, hmore, h⟩ := Except.bind_eq_ok.mp h
    cases h
    obtain ⟨rfl, hrest⟩ := ih hmore
    have hhash : hash = doubleSha256 bytes := by
      unfold checkedTransaction at hchecked
      split at hchecked
      · cases hchecked
      · obtain ⟨-, hchecked⟩ := Except.ite_error_eq_ok.mp hchecked
        cases hchecked
        rfl
    subst hhash
    exact ⟨rfl, List.forall_mem_cons.mpr ⟨hchecked, hrest⟩⟩

/-- What a provided template was checked for. -/
lemma fromProvided_eq_ok {provided : Provided} {t : BchTemplate}
    (h : BchTemplate.fromProvided provided = .ok t) :
    providedHeight provided.coinbasePrefix = .ok t.height ∧
      t.coinbaseFlags = provided.coinbasePrefix.drop (heightScript t.height).length ∧ Full t := by
  obtain ⟨height, hheight, h⟩ := Except.bind_eq_ok.mp h
  obtain ⟨hvalue, h⟩ := Except.ite_error_eq_ok.mp h
  obtain ⟨target, htarget, h⟩ := Except.bind_eq_ok.mp h
  obtain ⟨-, h⟩ := Except.ite_error_eq_ok.mp h
  obtain ⟨hcount, h⟩ := Except.ite_error_eq_ok.mp h
  obtain ⟨hashes, hhashes, h⟩ := Except.bind_eq_ok.mp h
  obtain ⟨-, h⟩ := Except.ite_error_eq_ok.mp h
  cases h
  obtain ⟨rfl, htransactions⟩ := providedHashes_eq_ok hhashes
  exact ⟨hheight, rfl,
    { transactions := htransactions
      merklePath := rfl
      target := htarget
      value := not_lt.mp hvalue
      count := by
        show provided.transactions.length + 1 < 2 ^ 32
        omega
      own := rfl
      block := rfl }⟩

/-- A provider's templates are full ones. -/
theorem full_of_fromProvided {provided : Provided} {t : BchTemplate}
    (h : BchTemplate.fromProvided provided = .ok t) : Full t := (fromProvided_eq_ok h).2.2

/-- Heights are written and read alike.  From 17 on a height is read from every coinbase whose script
starts with its push; a coinbase any number is read from starts with the shortest push of the number,
which is the one written if the number is a height from 17 on.  A provided template has the
one height its prefix pushes, emits that prefix again, and its coinbases are read as that height; and
every push of a height the rules allow is taken. -/
theorem heights_agree :
    (∀ (height : UInt32) (head : Bytes), 17 ≤ height.toNat → checkHead head = .ok () →
      heightScript height <+: scriptOf head → coinbaseHeight head = some height.toNat) ∧
    (∀ (head : Bytes) (n : ℕ), coinbaseHeight head = some n →
      pushOf (Script.num n) <+: scriptOf head ∧
        ∀ height : UInt32, height.toNat = n → 17 ≤ n → heightScript height <+: scriptOf head) ∧
    (∀ (provided : Provided) (t : BchTemplate), BchTemplate.fromProvided provided = .ok t →
      1 ≤ t.height.toNat ∧ t.height.toNat < 2 ^ 31 ∧
      (∀ height, heightScript height <+: provided.coinbasePrefix ↔ height = t.height) ∧
      t.scriptHead = provided.coinbasePrefix ∧
      ∀ extranonce count, 17 ≤ t.height.toNat → (t.coinbaseScript extranonce).length ≤ 100 →
        1 ≤ count → count < 253 →
        provided.coinbasePrefix <+: t.coinbaseScript extranonce ∧
        coinbaseHeight (BchTemplate.beforeScript (t.coinbaseScript extranonce).length ++
          t.coinbaseScript extranonce ++ (List.replicate 4 0xff ++ compactSize count)) =
            some t.height.toNat) ∧
    ∀ (coinbasePrefix : Bytes) (height : UInt32), coinbasePrefix.length ≤ 8 → 1 ≤ height.toNat →
      height.toNat < 2 ^ 31 → heightScript height <+: coinbasePrefix →
        providedHeight coinbasePrefix = .ok height := by
  refine ⟨fun height head hlow hcheck hpre => (coinbaseHeight_iff hlow).mpr ⟨hcheck, hpre⟩,
    fun head n h => ⟨?_, ?_⟩, fun provided t h => ?_,
    fun coinbasePrefix height hlength hpos hlt hpre =>
      providedHeight_eq_ok.mpr ⟨hlength, hpos, hlt, hpre⟩⟩
  · obtain ⟨-, b, hminimal, -, hpre, rfl⟩ := coinbaseHeight_eq_some.mp h
    rwa [hminimal.num_fromLe]
  · rintro height rfl hlow
    exact ((coinbaseHeight_iff hlow).mp h).2
  · obtain ⟨hheight, hflags, -⟩ := fromProvided_eq_ok h
    obtain ⟨-, hpos, hlt, hpre⟩ := providedHeight_eq_ok.mp hheight
    have hhead : t.scriptHead = provided.coinbasePrefix := by
      rw [BchTemplate.scriptHead, hflags]
      exact (List.prefix_append_drop hpre).symm
    refine ⟨hpos, hlt, fun height => ⟨heightScript_prefix_unique hpos hlt hpre, ?_⟩, hhead,
      fun extranonce count hlow hscript hone hcount =>
        ⟨?_, coinbaseHeight_own hlow hscript hone hcount⟩⟩
    · rintro rfl
      exact hpre
    · rw [← hhead, BchTemplate.coinbaseScript, BchTemplate.scriptHead]
      simp only [List.append_assoc, List.prefix_append_right_inj]
      exact List.prefix_append _ _

section Sample

omit [Hasher] [Bitcoin]

/-- An announcement at height 300,000 with two bytes of flags. -/
def sampleProvided : Provided :=
  { previousHash := ByteVec.zero 32
    version := 0x20000000
    bits := 0x1d00ffff
    target := targetOfNat (0xffff * 2 ^ 208)
    ntime := 1775336600
    coinbasePrefix := [0x03, 0xe0, 0x93, 0x04, 0x2f, 0x70]
    value := 312500000
    transactions := []
    merklePath := []
    reserve := 1000 }

theorem heights_agree_sample :
    let _ : Hasher := Hasher.fips
    let _ : Bitcoin := plainLibrary
    ∃ t, BchTemplate.fromProvided sampleProvided = .ok t ∧ t.height = 300000 ∧
      t.scriptHead = sampleProvided.coinbasePrefix ∧
      coinbaseHeight (BchTemplate.beforeScript 15 ++ t.coinbaseScript (List.replicate 8 7) ++
        (List.replicate 4 0xff ++ compactSize 1)) = some 300000 := by
  intro _ _
  cases h : BchTemplate.fromProvided sampleProvided with
  | error e =>
    have hok : (BchTemplate.fromProvided sampleProvided).toOption.isSome = true := by decide +kernel
    rw [h] at hok
    cases hok
  | ok t =>
    obtain ⟨-, -, honly, hhead, hcoinbase⟩ := heights_agree.2.2.1 _ t h
    have hheight : 300000 = t.height := (honly 300000).mp (by decide)
    have hlength : (t.coinbaseScript (List.replicate 8 7)).length = 15 := by
      have hscript : (t.scriptHead ++ List.replicate 8 (7 : UInt8)).length = 14 := by
        rw [hhead]
        rfl
      change (t.scriptHead ++ List.replicate 8 7 ++ List.replicate (15 - (t.scriptHead ++
        List.replicate 8 (7 : UInt8)).length) 0).length = 15
      rw [List.length_append, hscript, List.length_replicate]
    obtain ⟨-, hread⟩ := hcoinbase (List.replicate 8 7) 1 (by rw [← hheight]; decide)
      (by rw [hlength]; decide) le_rfl (by decide)
    rw [hlength, ← hheight] at hread
    exact ⟨t, rfl, hheight.symm, hhead, hread⟩

/-- A coinbase whose script pushes five bytes, the last of them not for the sign. -/
def tallHead : Bytes :=
  leBytes 4 2 ++ nullInput ++ ([6, 5, 1, 0, 0, 0, 1] ++ List.replicate 4 0xff ++ [1] : Bytes)

/-- Its number is over 32 bits, and no height's push stands in its script. -/
theorem tall_number_read :
    ¬ ∀ (head : Bytes) (n : ℕ), coinbaseHeight head = some n → 17 ≤ n →
      ∃ height : UInt32, height.toNat = n ∧ heightScript height <+: scriptOf head := by
  intro hclaim
  obtain ⟨height, hheight, -⟩ := hclaim tallHead (2 ^ 32 + 1) (by decide +kernel) (by decide)
  have hlt := height.toNat_lt
  omega

end Sample

end Pickaxe
