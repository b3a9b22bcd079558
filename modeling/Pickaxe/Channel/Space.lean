/-
# Search spaces

The coinbases a job lets a device hash, by the bytes of their scripts: a head, the job's own
bytes, the channel's prefix and what the device rolls.  A pool job's bytes are its id, so two
jobs of one channel have no coinbase in common (`Plain.id_unique`), and equal merkle roots
come from equal coinbases as long as no two of the strings hashed on the way collide
(`foldPath_inj`).
-/
import Pickaxe.Channel.Run
import Mathlib.Data.Set.Function
import Mathlib.Order.CompletePartialOrder

namespace Pickaxe

open Lib Merge Jd

/-! ## Merkle roots -/

section Roots

variable [Hasher]

/-- The strings hashed on the way from a coinbase to its merkle root. -/
def hashedStrings (bytes : Bytes) (path : List Hash) : List Bytes :=
  bytes :: (Merkle.foldPairs pairHash (doubleSha256 bytes) 0 path).map fun p => pairInput p.1 p.2

/-- Without a collision among the strings hashed, a merkle root has one coinbase and one
path. -/
lemma foldPath_inj {used : Set Bytes} (hinj : Set.InjOn doubleSha256 used) {x y : Bytes}
    {p q : List Hash} (hx : ∀ b ∈ hashedStrings x p, b ∈ used)
    (hy : ∀ b ∈ hashedStrings y q, b ∈ used) (hxlen : x.length ≠ 64) (hylen : y.length ≠ 64)
    (h : foldPath (doubleSha256 x) p = foldPath (doubleSha256 y) q) : x = y ∧ p = q := by
  have hmem : ∀ {z : Bytes} {r : List Hash} {pair : Hash × Hash},
      pair ∈ Merkle.foldPairs pairHash (doubleSha256 z) 0 r →
      pairInput pair.1 pair.2 ∈ hashedStrings z r := fun hpair =>
    List.mem_cons_of_mem _ (List.mem_map_of_mem hpair)
  rcases Merkle.foldl_eq_cases pairHash h with ⟨hleaf, hpath⟩ | ⟨a, ha, b, hb, hne, heq⟩ |
    ⟨a, ha, hleaf⟩ | ⟨a, ha, hleaf⟩
  · exact ⟨hinj (hx x List.mem_cons_self) (hy y List.mem_cons_self) hleaf, hpath⟩
  · -- two different nodes with one hash
    have hinput := hinj (hx _ (hmem ha)) (hy _ (hmem hb)) heq
    obtain ⟨hleft, hright⟩ := pairInput_inj hinput
    exact absurd (Prod.ext hleft hright) hne
  · -- a coinbase is no node
    have hinput := hinj (hx x List.mem_cons_self) (hy _ (hmem ha)) hleaf
    exact absurd (hinput ▸ length_pairInput _ _) hxlen
  · have hinput := hinj (hy y List.mem_cons_self) (hx _ (hmem ha)) hleaf
    exact absurd (hinput ▸ length_pairInput _ _) hylen

end Roots

/-! ## Scripts -/

namespace BchTemplate

/-- A coinbase's script: from byte 42 on, its length before it, or the first push of the
forwarder. -/
def scriptOf (t : BchTemplate) (bytes : Bytes) : Bytes :=
  if t.isSafa then slice bytes 1 (1 + (bytes.getD 0 0).toNat)
  else slice bytes 42 (42 + (bytes.getD 41 0).toNat)

/-- What stands in the script before the extranonce. -/
def lead (t : BchTemplate) : Bytes := if t.isSafa then forwarderTag else t.scriptHead

/-- The zero bytes after an extranonce of `n` bytes. -/
def padding (t : BchTemplate) (n : ℕ) : ℕ :=
  if t.isSafa ∨ t.p2pool.isSome then 0 else 15 - (t.scriptHead.length + n)

variable [Hasher]

lemma script_outputs {t : BchTemplate} (hblock : t.isSafa = false) {e : Bytes}
    {outputs : List (ℕ × Bytes)} {commitment : Option (ByteVec 53)} {c : Coinbase}
    (h : t.coinbaseWithOutputs e outputs commitment = .ok c) :
    t.scriptOf c.bytes = t.scriptHead ++ e ++
        List.replicate (15 - (t.scriptHead.length + e.length)) 0 ∧
      65 ≤ c.bytes.length ∧ c.bytes.head? = some 2 ∧
      c.merkleRoot = foldPath (doubleSha256 c.bytes) t.merklePath := by
  unfold coinbaseWithOutputs at h
  obtain ⟨-, h⟩ := Except.ite_error_eq_ok.mp h
  obtain ⟨hlong, h⟩ := Except.ite_error_eq_ok.mp h
  obtain ⟨-, h⟩ := Except.ite_error_eq_ok.mp h
  obtain ⟨_, -, h⟩ := Except.bind_eq_ok.mp h
  cases h
  have hscript : t.coinbaseScript e = t.scriptHead ++ e ++
      List.replicate (15 - (t.scriptHead.length + e.length)) 0 := by
    simp only [coinbaseScript, scriptHead, List.length_append]
  have hlen : (t.coinbaseScript e).length < 253 := by omega
  have hmin : 15 ≤ (t.coinbaseScript e).length := by
    rw [hscript]
    simp only [List.length_append, List.length_replicate]
    omega
  -- everything before the script has a fixed length, as a short script's length is one byte
  have hbefore : beforeScript (t.coinbaseScript e).length =
      [2, 0, 0, 0, 1] ++ List.replicate 32 0 ++ List.replicate 4 0xff ++
        [UInt8.ofNat (t.coinbaseScript e).length] := by
    rw [beforeScript, compactSize_of_lt hlen]
    rfl
  have hbyte : (UInt8.ofNat (t.coinbaseScript e).length).toNat = (t.coinbaseScript e).length := by
    rw [UInt8.toNat_ofNat']
    omega
  refine ⟨?_, ?_, ?_, rfl⟩
  · rw [scriptOf, hblock, ← hscript]
    have hget : (beforeScript (t.coinbaseScript e).length ++ t.coinbaseScript e ++
        afterScript outputs commitment).getD 41 0 = UInt8.ofNat (t.coinbaseScript e).length := by
      rw [hbefore]
      rfl
    simp only [Bool.false_eq_true, if_false]
    rw [hget, hbyte]
    exact slice_append (by rw [hbefore]; rfl) rfl
  · have hafter : 9 ≤ (afterScript outputs commitment).length := by
      have hone : 1 ≤ (compactSize (outputCount outputs commitment)).length := by
        unfold compactSize
        split_ifs <;> simp
      simp only [afterScript, List.length_append, List.length_replicate, length_leBytes]
      omega
    have h42 : (beforeScript (t.coinbaseScript e).length).length = 42 := by
      rw [hbefore]
      rfl
    simp only [List.length_append, h42]
    omega
  · rw [hbefore]
    rfl

omit [Hasher] in
lemma length_toP2pkhLocking {address : List Char} {script : Bytes}
    (h : Cashaddr.toP2pkhLocking address = .ok script) : script.length = 25 := by
  unfold Cashaddr.toP2pkhLocking at h
  obtain ⟨-, h⟩ := Except.ite_error_eq_ok.mp h
  obtain ⟨decoded, -, h⟩ := Except.bind_eq_ok.mp h
  obtain ⟨hlen, h⟩ := Except.ite_error_eq_ok.mp h
  obtain ⟨-, h⟩ := Except.ite_error_eq_ok.mp h
  cases h
  simp only [List.length_append, List.length_cons, List.length_nil, List.length_drop]
  omega

omit [Hasher] in
lemma length_toCoinbaseLocking {address : List Char} {script : Bytes}
    (h : Cashaddr.toCoinbaseLocking address = .ok script) :
    script.length = 23 ∨ script.length = 25 ∨ script.length = 35 := by
  unfold Cashaddr.toCoinbaseLocking at h
  split at h
  · rename_i p2pkh hp2pkh
    cases h
    exact Or.inr (Or.inl (length_toP2pkhLocking hp2pkh))
  · unfold Cashaddr.toP2shLocking at h
    obtain ⟨-, h⟩ := Except.ite_error_eq_ok.mp h
    obtain ⟨-, h⟩ := Except.ite_error_eq_ok.mp h
    obtain ⟨decoded, -, h⟩ := Except.bind_eq_ok.mp h
    split at h
    · cases h
    · simp only at h
      split_ifs at h with h1 h2
      · cases h
        left
        simp only [List.length_append, List.length_cons, List.length_nil, h1.2.2]
      · cases h
        right
        right
        simp only [List.length_append, List.length_cons, List.length_nil, h2.2.2]

omit [Hasher] in
/-- A job's work pays one of the scripts a coinbase may pay. -/
lemma length_beneficiary {network : MiningNetwork} {miner : List Char}
    {operator : Option (List Char)} {scripts : List Bytes}
    (h : Payout.scripts network miner operator = .ok scripts) (policy : BchPayout) :
    (Payout.beneficiary scripts policy).length = 23 ∨
      (Payout.beneficiary scripts policy).length = 25 ∨
      (Payout.beneficiary scripts policy).length = 35 := by
  have hall : 2 ≤ scripts.length ∧ ∀ s ∈ scripts, s.length = 23 ∨ s.length = 25 ∨ s.length = 35 := by
    obtain ⟨miner, -, h⟩ := Except.bind_eq_ok.mp h
    obtain ⟨donation, -, h⟩ := Except.bind_eq_ok.mp h
    obtain ⟨minerScript, hminer, h⟩ := Except.bind_eq_ok.mp h
    obtain ⟨donationScript, hdonation, h⟩ := Except.bind_eq_ok.mp h
    have hm := length_toCoinbaseLocking hminer
    have hd := length_toP2pkhLocking hdonation
    split at h
    · cases h
      simp [hm, hd]
    · obtain ⟨operator, -, h⟩ := Except.bind_eq_ok.mp h
      obtain ⟨operatorScript, hoperator, h⟩ := Except.bind_eq_ok.mp h
      cases h
      simp [hm, hd, length_toCoinbaseLocking hoperator]
  have hget : ∀ i, i < scripts.length → scripts.getD i [] ∈ scripts := by
    intro i hi
    rw [List.getD_eq_getElem _ _ hi]
    exact List.getElem_mem hi
  unfold Payout.beneficiary
  split_ifs with h1 h2
  · exact hall.2 _ (hget 1 (by omega))
  · exact hall.2 _ (hget 2 h2.2)
  · exact hall.2 _ (hget 0 (by omega))

lemma script_forwarder {t : BchTemplate} (hsafa : t.isSafa = true) {destination e : Bytes}
    {c : Coinbase} (h : forwarderCoinbase e destination = .ok c) :
    t.scriptOf c.bytes = forwarderTag ++ e ∧ c.bytes.length = 20 + e.length + destination.length ∧
      c.bytes.head? = some (UInt8.ofNat (4 + e.length)) ∧ 4 + e.length ≤ 75 ∧
      c.merkleRoot = foldPath (doubleSha256 c.bytes) t.merklePath := by
  unfold forwarderCoinbase at h
  obtain ⟨hpush, h⟩ := Except.ite_error_eq_ok.mp h
  obtain ⟨body, hbody, h⟩ := Except.bind_eq_ok.mp h
  obtain ⟨-, h⟩ := Except.ite_error_eq_ok.mp h
  have hlength : body.length = 14 + destination.length := by
    unfold forwarderBody at hbody
    obtain ⟨-, hbody⟩ := Except.ite_error_eq_ok.mp hbody
    cases hbody
    simp only [List.length_append, List.length_cons, List.length_nil]
    omega
  cases h
  have hpath : t.merklePath = [] := by
    cases hwork : t.work with
    | block => simp [isSafa, hwork] at hsafa
    | token job => exact (t.token_plain job hwork).1
  have hbyte : (UInt8.ofNat (4 + e.length)).toNat = 4 + e.length := by
    rw [UInt8.toNat_ofNat']
    omega
  have hsplit : [UInt8.ofNat (4 + e.length)] ++ forwarderTag ++ e ++ [0x75] ++ body =
      [UInt8.ofNat (4 + e.length)] ++ (forwarderTag ++ e) ++ ([0x75] ++ body) := by
    simp only [List.append_assoc]
  have htag : forwarderTag.length = 4 := rfl
  refine ⟨?_, ?_, rfl, by omega, by rw [hpath]; rfl⟩
  · rw [scriptOf, if_pos hsafa, hsplit]
    have hget : ([UInt8.ofNat (4 + e.length)] ++ (forwarderTag ++ e) ++ ([0x75] ++ body)).getD 0 0 =
      UInt8.ofNat (4 + e.length) := rfl
    rw [hget, hbyte]
    exact slice_append rfl (by rw [List.length_append, htag])
  · simp only [List.length_append, List.length_singleton, htag, hlength]
    omega

omit [Hasher] in
lemma script_prepared {t : BchTemplate} {prepared : Prepared} (hprepared : t.p2pool = some prepared)
    {e bytes : Bytes} (h : prepared.coinbase.coinbase e = some bytes) :
    t.scriptOf bytes = t.scriptHead ++ e ∧ 65 ≤ bytes.length := by
  have hblock : t.isSafa = false := by
    cases hwork : t.work with
    | block => simp [isSafa, hwork]
    | token job =>
      rw [(t.token_plain job hwork).2] at hprepared
      cases hprepared
  unfold CoinbaseShape.coinbase at h
  split_ifs at h with hlen
  cases h
  have hshape := prepared.coinbase.head_lt
  have hlen' : e.length = prepared.coinbase.scriptLen - prepared.coinbase.head.length := by
    simpa [CoinbaseShape.extranonceLen] using hlen
  have hscript : prepared.coinbase.scriptLen ≤ 100 := prepared.coinbase.scriptLen_le
  have hhead : prepared.coinbase.head = t.scriptHead := t.p2pool_head prepared hprepared
  refine ⟨?_, ?_⟩
  · -- byte 41 is the script's length, and the head ends what stands before the extranonce
    have hget : (prepared.coinbase.pre ++ e ++ prepared.coinbase.suffix).getD 41 0 =
        UInt8.ofNat prepared.coinbase.scriptLen := by
      rw [List.getD_eq_getElem?_getD, List.append_assoc, List.getElem?_append_left
        (by rw [prepared.coinbase.length_pre]; omega), prepared.coinbase.scriptLen_pre]
      rfl
    have hbyte : (UInt8.ofNat prepared.coinbase.scriptLen).toNat = prepared.coinbase.scriptLen := by
      rw [UInt8.toNat_ofNat']
      omega
    have hsplit : prepared.coinbase.pre ++ e ++ prepared.coinbase.suffix =
        prepared.coinbase.pre.take 42 ++ (t.scriptHead ++ e) ++ prepared.coinbase.suffix := by
      rw [← hhead, ← prepared.coinbase.drop_pre, ← List.append_assoc (prepared.coinbase.pre.take 42),
        List.take_append_drop]
    rw [scriptOf, hblock]
    simp only [Bool.false_eq_true, if_false]
    rw [hget, hbyte, hsplit]
    refine slice_append ?_ ?_
    · rw [List.length_take, prepared.coinbase.length_pre]
      omega
    · rw [List.length_append, ← hhead]
      omega
  · have hlong := prepared.coinbase.long
    simp only [List.length_append, hlen']
    exact hlong

/-- The script of a coinbase: what leads, the extranonce, and padding. -/
lemma script_coinbaseWithAux {t : BchTemplate} {network : MiningNetwork} {payout : List Char}
    {operator : Option (List Char)} {e : Bytes} {policy : BchPayout} {aux : Option (ByteVec 53)}
    {c : Coinbase} (h : t.coinbaseWithAux network payout operator e policy aux = .ok c) :
    t.scriptOf c.bytes = t.lead ++ e ++ List.replicate (t.padding e.length) 0 ∧
      c.merkleRoot = foldPath (doubleSha256 c.bytes) t.merklePath := by
  unfold coinbaseWithAux at h
  obtain ⟨_, -, h⟩ := Except.bind_eq_ok.mp h
  split at h
  · rename_i prepared hprepared
    obtain ⟨-, h⟩ := Except.ite_error_eq_ok.mp h
    split at h
    · cases h
    rename_i bytes hbytes
    obtain ⟨_, -, h⟩ := Except.bind_eq_ok.mp h
    cases h
    have hblock : t.isSafa = false := by
      cases hwork : t.work with
      | block => simp [isSafa, hwork]
      | token job =>
        rw [(t.token_plain job hwork).2] at hprepared
        cases hprepared
    refine ⟨?_, rfl⟩
    rw [(script_prepared hprepared hbytes).1]
    simp [lead, padding, hblock, hprepared]
  · rename_i hnone
    split_ifs at h with hsafa
    · obtain ⟨scripts, -, h⟩ := Except.bind_eq_ok.mp h
      obtain ⟨hscript, -, -, -, hroot⟩ := script_forwarder hsafa h
      refine ⟨?_, hroot⟩
      rw [hscript]
      simp [lead, padding, hsafa]
    · have hblock : t.isSafa = false := by simpa using hsafa
      obtain ⟨outputs, -, h⟩ := Except.bind_eq_ok.mp h
      obtain ⟨hscript, -, -, hroot⟩ := script_outputs hblock h
      refine ⟨?_, hroot⟩
      rw [hscript]
      simp [lead, padding, hblock, hnone]

/-- A block's coinbase is longer than a node of the merkle tree. -/
lemma long_coinbaseWithAux {t : BchTemplate} {network : MiningNetwork} {payout : List Char}
    {operator : Option (List Char)} {e : Bytes} {policy : BchPayout} {aux : Option (ByteVec 53)}
    {c : Coinbase} (hblock : t.isSafa = false)
    (h : t.coinbaseWithAux network payout operator e policy aux = .ok c) : 65 ≤ c.bytes.length := by
  unfold coinbaseWithAux at h
  obtain ⟨_, -, h⟩ := Except.bind_eq_ok.mp h
  split at h
  · rename_i prepared hprepared
    obtain ⟨-, h⟩ := Except.ite_error_eq_ok.mp h
    split at h
    · cases h
    rename_i bytes hbytes
    obtain ⟨_, -, h⟩ := Except.bind_eq_ok.mp h
    cases h
    exact (script_prepared hprepared hbytes).2
  · rw [hblock] at h
    obtain ⟨outputs, -, h⟩ := Except.bind_eq_ok.mp h
    exact (script_outputs hblock h).2.1

/-- Without a prepared coinbase, the first byte tells a forwarder from a transaction, and
neither has the length of a node of the merkle tree when the extranonce has 20 or 28 bytes. -/
lemma plain_coinbaseWithAux {t : BchTemplate} {network : MiningNetwork} {payout : List Char}
    {operator : Option (List Char)} {e : Bytes} {policy : BchPayout} {aux : Option (ByteVec 53)}
    {c : Coinbase} (hnone : t.p2pool = none) (he : e.length = 20 ∨ e.length = 28)
    (h : t.coinbaseWithAux network payout operator e policy aux = .ok c) :
    (c.bytes.head? = some 2 ↔ t.isSafa = false) ∧ c.bytes.length ≠ 64 := by
  unfold coinbaseWithAux at h
  obtain ⟨_, -, h⟩ := Except.bind_eq_ok.mp h
  rw [hnone] at h
  simp only at h
  split_ifs at h with hsafa
  · obtain ⟨scripts, hscripts, h⟩ := Except.bind_eq_ok.mp h
    obtain ⟨-, hlength, hhead, -, -⟩ := script_forwarder hsafa h
    have hdest := length_beneficiary hscripts policy
    refine ⟨?_, ?_⟩
    · rw [hhead, hsafa]
      rcases he with he | he <;> rw [he] <;> decide
    · rw [hlength]
      omega
  · have hblock : t.isSafa = false := by simpa using hsafa
    obtain ⟨outputs, -, h⟩ := Except.bind_eq_ok.mp h
    obtain ⟨-, hlength, hhead, -⟩ := script_outputs hblock h
    exact ⟨by simp [hhead, hblock], by omega⟩

end BchTemplate

namespace Channel

/-! ## The coinbases of a job -/

section Jobs

variable [Hasher]

/-- A pool job's coinbases: whatever a device may hash is built around the job's bytes, and
then the channel's prefix and what the device rolls. -/
def Built (c : Channel) (job : Job) : Prop :=
  ∀ e x, c.shareCoinbase job e = .ok x → ∃ y network payout operator policy aux,
    job.template.coinbaseWithAux network payout operator (jobBytes job.template job.id ++ y) policy
      aux = .ok x ∧ job.parts.merklePath = job.template.merklePath ∧
    match c.kind with
    | .standard => ∃ random fresh,
        jobBytes job.template job.id ++ y = c.standardExtranonce random job.id job.template fresh
    | .extended => y = c.extranoncePrefix ++ e ∧ e.length = c.rolled

omit [Hasher] in
lemma standardExtranonce_kept {c d : Channel} (hkind : d.kind = c.kind)
    (hpfx : d.extranoncePrefix = c.extranoncePrefix) (hrolled : d.rolled = c.rolled)
    (random : ℕ → UInt8) (id : UInt32) (template : BchTemplate) (fresh : Bool) :
    d.standardExtranonce random id template fresh =
      c.standardExtranonce random id template fresh := by
  simp only [standardExtranonce, hkind, hpfx, hrolled]

lemma shareCoinbase_kept {c d : Channel} (hkind : d.kind = c.kind)
    (hpfx : d.extranoncePrefix = c.extranoncePrefix) (hrolled : d.rolled = c.rolled) (job : Job)
    (e : Bytes) : d.shareCoinbase job e = c.shareCoinbase job e := by
  simp only [shareCoinbase, hkind, hpfx, hrolled]

/-- What a device may hash on a job made of `coinbases`: the server filled the whole
extranonce, or the device fills its end. -/
lemma shareCoinbase_of_coinbases {c : Channel} {random : ℕ → UInt8} {id : UInt32}
    {template : BchTemplate} {payout : BchPayout} {aux : Option AuxJob} {job : Job}
    (h : c.coinbases random id template payout aux = .ok (job.standardCoinbase, job.parts))
    {e : Bytes} {x : Coinbase} (hx : c.shareCoinbase job e = .ok x) :
    ∃ y, template.coinbaseWithAux c.network c.payout c.operator (jobBytes template id ++ y) payout
        (aux.map fun aux => aux.output) = .ok x ∧
      job.parts.merklePath = template.merklePath ∧
      match c.kind with
      | .standard => ∃ fresh,
          jobBytes template id ++ y = c.standardExtranonce random id template fresh
      | .extended => y = c.extranoncePrefix ++ e ∧ e.length = c.rolled := by
  obtain ⟨standard, hstandard, h⟩ := Except.bind_eq_ok.mp h
  obtain ⟨parts, hparts, h⟩ := Except.bind_eq_ok.mp h
  obtain ⟨hstandardEq, hpartsEq⟩ := Prod.mk.inj (Except.ok.inj h)
  have hpath : parts.merklePath = template.merklePath :=
    (BchTemplate.coinbaseWithAux_of_parts hparts
      (e := List.replicate _ 0) List.length_replicate).1
  have hpath' : job.parts.merklePath = template.merklePath := by
    rw [← hpartsEq]
    exact hpath
  cases hkind : c.kind with
  | standard =>
    simp only [shareCoinbase, hkind] at hx
    obtain rfl : job.standardCoinbase = x := by
      split_ifs at hx
      exact Except.ok.inj hx
    rw [← hstandardEq]
    generalize hfresh : (c.kind == .standard && _) = fresh at hstandard
    exact ⟨_, hstandard, hpath', fresh, rfl⟩
  | extended =>
    simp only [shareCoinbase, hkind] at hx
    split_ifs at hx with he
    obtain rfl := Except.ok.inj hx
    have hlen : (jobBytes template id ++ (c.extranoncePrefix ++ e)).length =
        (jobBytes template id).length + c.extranoncePrefix.length + c.rolled := by
      rw [List.length_append, List.length_append, he]
      omega
    have hbuilt := (BchTemplate.coinbaseWithAux_of_parts hparts hlen).2
    refine ⟨_, ?_, hpath', rfl, he⟩
    rw [hbuilt, rebuild, ← hpartsEq, hpath]
    simp only [List.append_assoc]

lemma Own.built {c : Channel} {id : UInt32} {generation : UInt64} {template : BchTemplate}
    {payout : BchPayout} {job : Job} (h : c.Own id generation template payout job) :
    c.Built job := by
  obtain ⟨random, aux, hcoinbases⟩ := h.coinbases
  intro e x hx
  obtain ⟨y, hy, hpath, hkind⟩ := shareCoinbase_of_coinbases hcoinbases hx
  rw [h.template_eq, h.id_eq]
  refine ⟨y, c.network, c.payout, c.operator, job.payout, _, hy, hpath, ?_⟩
  cases hc : c.kind with
  | standard =>
    rw [hc] at hkind
    exact ⟨random, hkind⟩
  | extended =>
    rw [hc] at hkind
    exact hkind

lemma Built.kept {c d : Channel} {job : Job} (h : c.Built job) (hkind : d.kind = c.kind)
    (hpfx : d.extranoncePrefix = c.extranoncePrefix) (hrolled : d.rolled = c.rolled) :
    d.Built job := by
  intro e x hx
  rw [shareCoinbase_kept hkind hpfx hrolled] at hx
  obtain ⟨y, network, payout, operator, policy, aux, hbuilt, hpath, hy⟩ := h e x hx
  refine ⟨y, network, payout, operator, policy, aux, hbuilt, hpath, ?_⟩
  rw [hkind, hpfx, hrolled]
  simp only [standardExtranonce_kept hkind hpfx hrolled]
  exact hy

/-- A pool's own job without a Job Declaration plan, on a channel with the session's salt and
its id as prefix. -/
structure Plain (c : Channel) (job : Job) : Prop where
  kind : job.kind = .own
  jd : job.template.jd = none
  p2pool : job.template.p2pool = none
  salted : c.extranoncePrefix.length = 16
  rolled : c.rolled = deviceExtranonceSize

omit [Hasher] in
lemma length_standardExtranonce (c : Channel) (random : ℕ → UInt8) (id : UInt32)
    {template : BchTemplate} (fresh : Bool) (hjd : template.jd = none) :
    (c.standardExtranonce random id template fresh).length = 4 + c.extranoncePrefix.length := by
  simp only [standardExtranonce, jobBytes, hjd, Option.isSome_none, Bool.false_eq_true, false_and,
    if_false, List.length_append, length_u32Le]
  split_ifs with h
  · simp only [List.length_append, List.length_map, List.length_range, List.length_drop]
    omega
  · rfl

/-- The extranonce of a plain job's coinbase: its id, and as many bytes on every such job. -/
lemma Plain.extranonce {c : Channel} {job : Job} (hplain : c.Plain job) (hbuilt : c.Built job)
    {e : Bytes} {x : Coinbase} (hx : c.shareCoinbase job e = .ok x) :
    ∃ y network payout operator policy aux, job.template.coinbaseWithAux network payout operator
        (u32Le job.id ++ y) policy aux = .ok x ∧
      job.parts.merklePath = job.template.merklePath ∧
      y.length = match c.kind with
        | .standard => 16
        | .extended => 24 := by
  obtain ⟨y, network, payout, operator, policy, aux, hx, hpath, hy⟩ := hbuilt e x hx
  have hbytes : jobBytes job.template job.id = u32Le job.id := by
    rw [jobBytes, hplain.jd]
  rw [hbytes] at hx hy
  refine ⟨y, network, payout, operator, policy, aux, hx, hpath, ?_⟩
  cases hkind : c.kind with
  | standard =>
    simp only [hkind] at hy
    obtain ⟨random, fresh, hy⟩ := hy
    have hlen := congrArg List.length hy
    rw [length_standardExtranonce c random job.id fresh hplain.jd, hplain.salted,
      List.length_append, length_u32Le] at hlen
    simp only
    omega
  | extended =>
    simp only [hkind] at hy
    rw [hy.1, List.length_append, hy.2, hplain.salted, hplain.rolled]
    rfl

/-- A pool's coinbase shows the id of its job. -/
lemma Plain.id_unique {c : Channel} {old job : Job} (hold : c.Plain old) (hjob : c.Plain job)
    (hbuiltold : c.Built old) (hbuilt : c.Built job) {e f : Bytes} {x y : Coinbase}
    (hx : c.shareCoinbase old e = .ok x) (hy : c.shareCoinbase job f = .ok y)
    (h : x.bytes = y.bytes) : old.id = job.id := by
  obtain ⟨u, _, _, _, _, _, hx, -, hu⟩ := hold.extranonce hbuiltold hx
  obtain ⟨v, _, _, _, _, _, hy, -, hv⟩ := hjob.extranonce hbuilt hy
  have hlen : u.length = v.length := hu.trans hv.symm
  have hrange : u.length = 16 ∨ u.length = 24 := by
    rw [hu]
    cases c.kind with
    | standard => exact Or.inl rfl
    | extended => exact Or.inr rfl
  have hulen : (u32Le old.id ++ u).length = 20 ∨ (u32Le old.id ++ u).length = 28 := by
    rw [List.length_append, length_u32Le]
    omega
  have hvlen : (u32Le job.id ++ v).length = 20 ∨ (u32Le job.id ++ v).length = 28 := by
    rw [List.length_append, length_u32Le]
    omega
  -- both are forwarders or neither is
  have hsafa : old.template.isSafa = job.template.isSafa := by
    have hxhead := (BchTemplate.plain_coinbaseWithAux hold.p2pool hulen hx).1
    have hyhead := (BchTemplate.plain_coinbaseWithAux hjob.p2pool hvlen hy).1
    rw [h, hyhead] at hxhead
    cases h1 : old.template.isSafa <;> cases h2 : job.template.isSafa <;> simp_all
  have hscript : old.template.scriptOf x.bytes = job.template.scriptOf y.bytes := by
    rw [h, BchTemplate.scriptOf, BchTemplate.scriptOf, hsafa]
  rw [(BchTemplate.script_coinbaseWithAux hx).1, (BchTemplate.script_coinbaseWithAux hy).1] at hscript
  -- 20 bytes and more leave no padding
  have hnopad : ∀ (t : BchTemplate) (n : ℕ), n = 20 ∨ n = 28 → t.padding n = 0 := by
    intro t n hn
    unfold BchTemplate.padding
    split_ifs
    · rfl
    · omega
  rw [hnopad _ _ hulen, hnopad _ _ hvlen] at hscript
  simp only [List.replicate_zero, List.append_nil, ← List.append_assoc] at hscript
  have hids := (List.append_inj' hscript hlen).1
  exact u32Le_injective (List.append_inj' hids (by simp)).2

lemma Plain.length_ne {c : Channel} {job : Job} (hplain : c.Plain job) (hbuilt : c.Built job)
    {e : Bytes} {x : Coinbase} (hx : c.shareCoinbase job e = .ok x) :
    x.bytes.length ≠ 64 ∧ x.merkleRoot = foldPath (doubleSha256 x.bytes) job.parts.merklePath := by
  obtain ⟨u, _, _, _, _, _, hx, hpath, hu⟩ := hplain.extranonce hbuilt hx
  have hlen : (u32Le job.id ++ u).length = 20 ∨ (u32Le job.id ++ u).length = 28 := by
    rw [List.length_append, length_u32Le, hu]
    cases c.kind with
    | standard => exact Or.inl rfl
    | extended => exact Or.inr rfl
  exact ⟨(BchTemplate.plain_coinbaseWithAux hplain.p2pool hlen hx).2,
    hpath ▸ (BchTemplate.script_coinbaseWithAux hx).2⟩

omit [Hasher] in
/-- What stands in the scripts of a job's coinbases before the bytes of its channel. -/
def space (job : Job) : Bytes := job.template.lead ++ jobBytes job.template job.id

/-- A job's coinbases show its space, and its merkle path. -/
lemma Built.space {c : Channel} {job : Job} (hbuilt : c.Built job) {e : Bytes} {x : Coinbase}
    (hx : c.shareCoinbase job e = .ok x) :
    space job <+: job.template.scriptOf x.bytes ∧
      x.merkleRoot = foldPath (doubleSha256 x.bytes) job.parts.merklePath ∧
      (job.template.isSafa = false → 65 ≤ x.bytes.length) := by
  obtain ⟨y, network, payout, operator, policy, aux, hx, hpath, -⟩ := hbuilt e x hx
  obtain ⟨hscript, hroot⟩ := BchTemplate.script_coinbaseWithAux hx
  refine ⟨?_, hpath ▸ hroot, fun hblock => BchTemplate.long_coinbaseWithAux hblock hx⟩
  rw [hscript, Channel.space]
  simp only [List.append_assoc, List.prefix_append_right_inj]
  exact List.prefix_append _ _

/-- Whether two pool jobs of a channel can be told apart by where their job's bytes stand: they
carry their ids as plain jobs do, or block work has spaces of one length. -/
def Told (c : Channel) (old job : Job) : Prop :=
  (c.Plain old ∧ c.Plain job ∧ old.id ≠ job.id) ∨
    (old.template.isSafa = false ∧ job.template.isSafa = false ∧
      (space old).length = (space job).length ∧ space old ≠ space job)

/-- Jobs told apart have no merkle root in common. -/
lemma Told.merkleRoot_ne {used : Set Bytes} (hinj : Set.InjOn doubleSha256 used) {c : Channel}
    {old job : Job} (h : c.Told old job) (hold : c.Built old) (hjob : c.Built job) {e f : Bytes}
    {x y : Coinbase} (hx : c.shareCoinbase old e = .ok x) (hy : c.shareCoinbase job f = .ok y)
    (hxused : ∀ b ∈ hashedStrings x.bytes old.parts.merklePath, b ∈ used)
    (hyused : ∀ b ∈ hashedStrings y.bytes job.parts.merklePath, b ∈ used) :
    x.merkleRoot ≠ y.merkleRoot := by
  intro hroot
  obtain ⟨hxspace, hxroot, hxlong⟩ := hold.space hx
  obtain ⟨hyspace, hyroot, hylong⟩ := hjob.space hy
  rw [hxroot, hyroot] at hroot
  rcases h with ⟨hpold, hpjob, hids⟩ | ⟨hbold, hbjob, hlength, hspaces⟩
  · have hbytes := (foldPath_inj hinj hxused hyused (hpold.length_ne hold hx).1
      (hpjob.length_ne hjob hy).1 hroot).1
    exact hids (hpold.id_unique hpjob hold hjob hx hy hbytes)
  · have hxlen := hxlong hbold
    have hylen := hylong hbjob
    have hbytes := (foldPath_inj hinj hxused hyused (by omega) (by omega) hroot).1
    have hscripts : old.template.scriptOf x.bytes = job.template.scriptOf y.bytes := by
      rw [hbytes, BchTemplate.scriptOf, BchTemplate.scriptOf, hbold, hbjob]
    rw [hscripts] at hxspace
    exact hspaces ((List.prefix_of_prefix_length_le hxspace hyspace hlength.le).eq_of_length hlength)

omit [Hasher] in
/-- A Job Declaration client's coinbase on a channel: the script's length stands before the
script, which ends with the extranonce. -/
structure Shaped (c : Channel) (job : Job) : Prop where
  extended : c.kind = .extended
  length_pre : 42 ≤ job.parts.pre.length
  scriptLen : job.parts.pre[41]? =
    some (UInt8.ofNat (job.parts.pre.length - 42 + (c.extranoncePrefix.length + c.rolled)))
  script_le : job.parts.pre.length - 42 + (c.extranoncePrefix.length + c.rolled) ≤ 100
  long : 65 ≤ job.parts.pre.length + (c.extranoncePrefix.length + c.rolled) +
    job.parts.suffix.length

lemma Shaped.coinbase {c : Channel} {job : Job} (h : c.Shaped job) {e : Bytes} {x : Coinbase}
    (hx : c.shareCoinbase job e = .ok x) : e.length = c.rolled ∧
      x = rebuild job.parts c.extranoncePrefix e := by
  unfold shareCoinbase at hx
  rw [h.extended] at hx
  simp only at hx
  split_ifs at hx with he
  cases hx
  exact ⟨he, rfl⟩

/-- Two such coinbases are equal only if their parts are. -/
lemma Shaped.parts_unique {c : Channel} {old job : Job} (hold : c.Shaped old) (hjob : c.Shaped job)
    {e f : Bytes} (he : e.length = c.rolled) (hf : f.length = c.rolled)
    (h : (rebuild old.parts c.extranoncePrefix e).bytes =
      (rebuild job.parts c.extranoncePrefix f).bytes) :
    old.parts.pre = job.parts.pre ∧ old.parts.suffix = job.parts.suffix := by
  simp only [rebuild, List.append_assoc] at h
  have hbyte : ∀ n : ℕ, n ≤ 100 → (UInt8.ofNat n).toNat = n := by
    intro n hn
    rw [UInt8.toNat_ofNat']
    omega
  -- the length byte aligns the two scripts
  have h41 := congrArg (fun b : Bytes => b[41]?) h
  have hlt := hold.length_pre
  have hlt' := hjob.length_pre
  rw [List.getElem?_append_left (by omega), List.getElem?_append_left (by omega), hold.scriptLen,
    hjob.scriptLen, Option.some.injEq] at h41
  have hlen := congrArg UInt8.toNat h41
  rw [hbyte _ hold.script_le, hbyte _ hjob.script_le] at hlen
  obtain ⟨hpre, hrest⟩ := List.append_inj h (by omega)
  have hrest' := List.append_cancel_left hrest
  exact ⟨hpre, (List.append_inj hrest' (by rw [he, hf])).2⟩

/-- Equal merkle roots of such coinbases come from equal parts, as long as no two of the strings
hashed collide. -/
lemma Shaped.parts_eq {used : Set Bytes} (hinj : Set.InjOn doubleSha256 used) {c : Channel}
    {old job : Job} (hold : c.Shaped old) (hjob : c.Shaped job) {e f : Bytes} {x y : Coinbase}
    (hx : c.shareCoinbase old e = .ok x) (hy : c.shareCoinbase job f = .ok y)
    (hxused : ∀ b ∈ hashedStrings x.bytes old.parts.merklePath, b ∈ used)
    (hyused : ∀ b ∈ hashedStrings y.bytes job.parts.merklePath, b ∈ used)
    (h : x.merkleRoot = y.merkleRoot) : old.parts = job.parts := by
  obtain ⟨he, rfl⟩ := hold.coinbase hx
  obtain ⟨hf, rfl⟩ := hjob.coinbase hy
  have hlong : ∀ {j : Job} {g : Bytes}, c.Shaped j → g.length = c.rolled →
      (rebuild j.parts c.extranoncePrefix g).bytes.length ≠ 64 := by
    intro j g hshaped hg
    have hlong := hshaped.long
    simp only [rebuild, List.length_append, hg]
    omega
  obtain ⟨hbytes, hpath⟩ := foldPath_inj hinj hxused hyused (hlong hold he) (hlong hjob hf) h
  obtain ⟨hpre, hsuffix⟩ := hold.parts_unique hjob he hf hbytes
  rcases ho : old.parts with ⟨p, s, m⟩
  rcases hj : job.parts with ⟨p', s', m'⟩
  rw [ho, hj] at hpre hsuffix hpath
  simp only at hpre hsuffix hpath
  rw [hpre, hsuffix, hpath]

/-- How an issued job's coinbases are made on its channel. -/
def Makes (c : Channel) (job : Job) : Prop :=
  if c.customOnly then (∃ t, job.kind = .custom t) ∧ c.Shaped job
  else job.kind = .own ∧ c.Built job

end Jobs

end Channel

end Pickaxe
