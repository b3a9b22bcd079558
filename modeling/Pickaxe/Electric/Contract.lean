/-
# The ELECTRIC covenant

`PoWMineStateful` as it was compiled: the script that guards the baton.  It takes a recipient and a
nonce, checks the proof of work against the state in the baton's commitment, and asks for a reward
output and for the baton with its next state.

The script's instructions stand here in the pieces the contract's source has.  Each piece is
executed on a baton with a given state, and the pieces together say when the covenant accepts.
-/
import Pickaxe.Electric.Chain

namespace Pickaxe.Electric

open Lib Script

/-! ## The instructions -/

/-- The input, the state in the commitment, and the proof. -/
def readOps : List Op :=
  [lit 4, .roll, .size, lit 20, .equalVerify, .txLocktime, .checkLockTimeVerify, .drop,
    .inputIndex, lit 0, .numEqualVerify,
    lit 0, .utxoTokenCategory, lit 2, .pick, lit 1, .cat, .equalVerify,
    lit 0, .utxoTokenCommitment, .dup, .size, .nip, lit 16, .numEqualVerify,
    .dup, lit 1, .split, .drop, .bin2num,
    .over, lit 1, .split, .nip, lit 4, .split, .drop, .bin2num,
    .rot, lit 5, .split, .nip, lit 4, .split, .drop, .bin2num]

/-- The proof of work, and the locktime. -/
def proofOps : List Op :=
  [.over, lit 4, .num2bin, lit 4, .pick, .cat, lit 9, .roll, .cat, .hash256,
    lit 3, .pick, .split, .drop, lit 0, lit 4, .pick, .num2bin, .equalVerify,
    .txLocktime, .dup, lit 3, .pick, .greaterThanOrEqual, .verify,
    lit 3, .pick, .over, lit 4, .roll, .greaterThan]

/-- The minimum difficulty. -/
def minimumOps : List Op := [lit 7, .pick, .nip]

/-- One more, and whether that is above the maximum. -/
def raiseOps : List Op := [lit 3, .pick, .add1, .nip, .dup, lit 9, .pick, .greaterThan]

/-- The maximum difficulty. -/
def maximumOps : List Op := [lit 8, .pick, .nip]

/-- The next difficulty: the minimum at a new height, else one more up to the maximum. -/
def difficultyCode (code : List Instr) : List Instr :=
  .if :: (minimumOps.map .op ++ .else :: (raiseOps.map .op ++
    .if :: (maximumOps.map .op ++ .endif :: .endif :: code)))

/-- The next state. -/
def stateOps : List Op :=
  [lit 1, .num2bin, .swap, lit 4, .num2bin, .cat, .swap, .add1, lit 4, .num2bin, .cat,
    .push [0, 0, 0, 0, 0, 0, 0], .cat]

/-- The reward output. -/
def rewardOps : List Op :=
  [.push [0x76, 0xa9, 0x14], lit 3, .roll, .cat, .push [0x88, 0xac], .cat,
    lit 0, .outputBytecode, .equalVerify,
    lit 0, .outputTokenCategory, lit 3, .pick, .equalVerify,
    lit 0, .outputTokenAmount, lit 4, .pick, .numEqualVerify,
    lit 0, .outputValue, lit 1000, .numEqualVerify]

/-- The baton's output, and how many outputs there are. -/
def batonOps : List Op :=
  [lit 1, .outputBytecode, lit 0, .utxoBytecode, .equalVerify,
    lit 1, .outputTokenCategory, lit 3, .roll, lit 1, .cat, .equalVerify,
    lit 1, .outputTokenCommitment, .equalVerify,
    lit 1, .outputTokenAmount, lit 0, .utxoTokenAmount, lit 3, .roll, .sub, .numEqualVerify,
    lit 1, .outputValue, lit 1000, .greaterThanOrEqual, .verify,
    .txOutputCount, lit 2, .numEqual, .txOutputCount, lit 3, .numEqual, .boolOr, .verify,
    .txOutputCount, lit 3, .numEqual]

/-- A third output carries no token. -/
def endCode : List Instr :=
  .if :: ([lit 2, .outputTokenCategory, lit 0, .equalVerify].map .op ++
    .endif :: [.drop2, .drop, lit 1].map .op)

/-- The covenant without its constructor arguments. -/
def bodyCode : List Instr :=
  readOps.map .op ++ (proofOps.map .op ++ difficultyCode (stateOps.map .op ++
    (rewardOps.map .op ++ (batonOps.map .op ++ endCode))))

/-- The constructor arguments, the last first. -/
def argumentOps (d : Deployment) : List Op :=
  [lit d.maxDifficulty.toNat, lit d.minDifficulty.toNat, lit d.reward.toNat,
    .push d.categoryLe.bytes]

lemma parse_body : parse ((Text.hexDecode Deployment.powMineStatefulV1BodyHex.toList).getD []) =
    some bodyCode := by
  unfold Deployment.powMineStatefulV1BodyHex
  iterate 6 rewrite [String.toList_append]
  repeat rewrite [String.toList_ofList]
  decide +kernel

/-- The redeem script's bytes are these instructions. -/
lemma parse_redeemScript {d : Deployment} (hreward : d.reward.toNat < 2 ^ 63) :
    parse d.redeemScript = some ((argumentOps d).map .op ++ bodyCode) := by
  have hmax : Parses (pushNumber d.maxDifficulty.toNat) [.op (lit d.maxDifficulty.toNat)] :=
    parses_lit (d.maxDifficulty.toNat_lt.trans (by decide : 256 < 2 ^ 63))
  have hmin : Parses (pushNumber d.minDifficulty.toNat) [.op (lit d.minDifficulty.toNat)] :=
    parses_lit (d.minDifficulty.toNat_lt.trans (by decide : 256 < 2 ^ 63))
  have hrewards : Parses (pushNumber d.reward.toInt64.toInt) [.op (lit d.reward.toNat)] := by
    have hint : d.reward.toInt64.toInt = d.reward.toNat :=
      BitVec.toInt_eq_toNat_of_lt (show 2 * d.reward.toNat < 2 ^ 64 by omega)
    rw [hint]
    exact parses_lit hreward
  have hcategory : Parses (pushBytes d.categoryLe.bytes) [.op (.push d.categoryLe.bytes)] :=
    parses_pushBytes (by simp)
  have hbody := (((hmax.append hmin).append hrewards).append hcategory)
    ((Text.hexDecode Deployment.powMineStatefulV1BodyHex.toList).getD [])
  rw [parse_body] at hbody
  unfold Deployment.redeemScript
  cases d.contract
  exact hbody

/-! ## What they ask for -/

section Accepts

variable {spend : Spend} {code : List Instr} {s : State} {pkh : ByteVec 20} {nonce category : Bytes}
  {reward min max : ℕ} {baton : TxIn}

lemma value_difficulty (h : s.difficulty.toNat < 128) :
    value (s.encode.take 1) = s.difficulty.toNat := by
  have hfrom : fromLe [s.difficulty] = s.difficulty.toNat := by simp [fromLe_cons]
  show value [s.difficulty] = _
  rw [value_eq_fromLe (by rw [hfrom]; exact h), hfrom]

lemma fromLe_u32Le (x : UInt32) : fromLe (u32Le x) = x.toNat :=
  fromLe_leBytes_of_lt (x.toNat_lt.trans_eq (by norm_num))

lemma value_u32Le {x : UInt32} (h : x.toNat < 2 ^ 31) : value (u32Le x) = x.toNat := by
  rw [value_eq_fromLe (by rw [fromLe_u32Le, length_u32Le]; exact h), fromLe_u32Le]

lemma signed_u32Le {x : UInt32} (h : x.toNat < 2 ^ 31) : signed 4 x.toNat = u32Le x := by
  rw [signed, if_neg (by omega), Nat.add_zero]
  rfl

lemma accepts_readOps (hbaton : spend.inputs[0]? = some baton)
    (hcommitment : baton.spent.tokenCommitment = s.encode) (hdifficulty : s.difficulty.toNat < 128)
    (hheight : s.lastHeight.toNat < 2 ^ 31) :
    Accepts spend (readOps.map .op ++ code)
        ⟨[category, num reward, num min, num max, pkh.bytes, nonce], []⟩ ↔
      spend.index = 0 ∧ baton.sequence ≠ 0xffffffff ∧ baton.spent.tokenCategory = category ++ [1] ∧
        Accepts spend code ⟨[num (value (u32Le s.mineCount)), num s.lastHeight.toNat,
          num s.difficulty.toNat, pkh.bytes, category, num reward, num min, num max, nonce], []⟩ := by
  have hcount : (s.encode.drop 5).take 4 = u32Le s.mineCount := by
    simp [State.encode]
  have hlast : (s.encode.drop 1).take 4 = u32Le s.lastHeight := slice_encode s
  have hlength := length_encode s
  simp only [readOps, lit, List.map_cons, List.map_nil, List.cons_append, List.nil_append, live_nil,
    accepts_push, accepts_roll, accepts_size, accepts_equalVerify, accepts_txLocktime,
    accepts_checkLockTimeVerify, accepts_drop, accepts_inputIndex, accepts_numEqualVerify,
    accepts_utxoTokenCategory, accepts_pick, accepts_cat, accepts_utxoTokenCommitment, accepts_dup,
    accepts_nip, accepts_split, accepts_bin2num, accepts_over, accepts_rot,
    List.getElem?_cons_succ, List.getElem?_cons_zero, List.eraseIdx_cons_succ,
    List.eraseIdx_cons_zero, Option.some.injEq, exists_eq_left', hbaton, hcommitment, hcount, hlast,
    value_difficulty hdifficulty, value_u32Le hheight]
  constructor
  · rintro ⟨-, input, hinput, ⟨-, -, hsequence⟩, hindex, hcategory, -, -, -, -, -, -, hcode⟩
    rw [Nat.cast_inj] at hindex
    rw [hindex, hbaton] at hinput
    cases hinput
    exact ⟨hindex, hsequence, hcategory, hcode⟩
  · rintro ⟨hindex, hsequence, hcategory, hcode⟩
    rw [hindex, List.length_drop, List.length_drop, hlength]
    exact ⟨by rw [pkh.length_eq], baton, hbaton, ⟨trivial, le_rfl, hsequence⟩, rfl, hcategory, rfl,
      by decide, by decide, by decide, by decide, by decide, hcode⟩

lemma accepts_proofOps {count : ℤ} (hheight : s.lastHeight.toNat < 2 ^ 31) :
    Accepts spend (proofOps.map .op ++ code)
        ⟨[num count, num s.lastHeight.toNat, num s.difficulty.toNat, pkh.bytes, category, num reward,
          num min, num max, nonce], []⟩ ↔
      s.difficulty.toNat ≤ (spend.hash256 (preimage s.lastHeight pkh nonce)).length ∧
        (spend.hash256 (preimage s.lastHeight pkh nonce)).take s.difficulty.toNat =
          List.replicate s.difficulty.toNat 0 ∧ s.lastHeight.toNat ≤ spend.locktime ∧
        Accepts spend code ⟨[ofBool (decide (s.lastHeight.toNat < spend.locktime)),
          num s.difficulty.toNat, num spend.locktime, num count, num s.difficulty.toNat, pkh.bytes,
          category, num reward, num min, num max], []⟩ := by
  have hpreimage : u32Le s.lastHeight ++ pkh.bytes ++ nonce = preimage s.lastHeight pkh nonce := rfl
  simp only [proofOps, lit, List.map_cons, List.map_nil, List.cons_append, List.nil_append, live_nil,
    accepts_push, accepts_over, accepts_num2bin, accepts_pick, accepts_cat, accepts_roll,
    accepts_hash256, accepts_split, accepts_drop, accepts_equalVerify, accepts_txLocktime,
    accepts_dup, accepts_greaterThanOrEqual, accepts_verify, accepts_greaterThan,
    List.getElem?_cons_succ, List.getElem?_cons_zero, List.eraseIdx_cons_succ,
    List.eraseIdx_cons_zero, Option.some.injEq, exists_eq_left', value_num, Int.natAbs_natCast,
    signed_u32Le hheight, hpreimage, isTrue_ofBool, decide_eq_true_eq, Nat.cast_le, Nat.cast_lt]
  have hwidth : width s.lastHeight.toNat ≤ 4 := width_le_iff.mpr hheight
  have hzeros : signed s.difficulty.toNat (0 : ℕ) = List.replicate s.difficulty.toNat 0 :=
    signed_zero _
  rw [hzeros, width_zero]
  constructor
  · rintro ⟨-, hle, -, hzero, hlocktime, hcode⟩
    exact ⟨hle, hzero, hlocktime, hcode⟩
  · rintro ⟨hle, hzero, hlocktime, hcode⟩
    exact ⟨hwidth, hle, Nat.zero_le _, hzero, hlocktime, hcode⟩

/-- The next difficulty. -/
lemma accepts_difficultyCode {moves : Bool} {difficulty : ℕ} {locktime count : Bytes}
    {rest : List Bytes} :
    Accepts spend (difficultyCode code)
        ⟨ofBool moves :: num difficulty :: locktime :: count :: num difficulty :: pkh.bytes ::
          category :: num reward :: num min :: num max :: rest, []⟩ ↔
      Accepts spend code
        ⟨num (if moves then min else if max < difficulty + 1 then max else difficulty + 1 : ℕ) ::
          locktime :: count :: num difficulty :: pkh.bytes :: category :: num reward :: num min ::
          num max :: rest, []⟩ := by
  rw [difficultyCode, accepts_if live_nil]
  cases moves with
  | true =>
    have hlive : Live [true] := by simp [live_nil]
    have hdead : ¬ Live [false] := by simp
    have hdead' : ¬ Live [false, false] := by simp
    rw [show decide (isTrue (ofBool true)) = true by decide]
    simp only [minimumOps, lit, List.map_cons, List.map_nil, List.cons_append, List.nil_append,
      hlive, accepts_push, accepts_pick, accepts_nip, List.getElem?_cons_succ,
      List.getElem?_cons_zero, Option.some.injEq, exists_eq_left']
    rw [accepts_else, Bool.not_true, accepts_skip hdead, accepts_if_dead hdead, accepts_skip hdead',
      accepts_endif, accepts_endif]
    rfl
  | false =>
    have hlive : Live [true] := by simp [live_nil]
    have hlive' : Live [true, true] := by simp [live_nil]
    have hdead : ¬ Live [false] := by simp
    have hdead' : ¬ Live [false, true] := by simp
    have hadd : ((difficulty : ℤ) + 1) = ((difficulty + 1 : ℕ) : ℤ) := by omega
    rw [show decide (isTrue (ofBool false)) = false by decide, accepts_skip hdead, accepts_else,
      Bool.not_false]
    simp only [raiseOps, lit, List.map_cons, List.map_nil, List.cons_append, List.nil_append,
      hlive, accepts_push, accepts_pick, accepts_nip, accepts_add1, accepts_dup,
      accepts_greaterThan, List.getElem?_cons_succ, List.getElem?_cons_zero, Option.some.injEq,
      exists_eq_left', accepts_if, isTrue_ofBool, hadd, Nat.cast_lt, Bool.decide_eq_true]
    by_cases hmax : max < difficulty + 1
    · rw [decide_eq_true hmax]
      simp only [maximumOps, lit, List.map_cons, List.map_nil, List.cons_append, List.nil_append,
        hlive', accepts_push, accepts_pick, accepts_nip, List.getElem?_cons_succ,
        List.getElem?_cons_zero, Option.some.injEq, exists_eq_left', accepts_endif, if_pos hmax]
      rfl
    · rw [decide_eq_false hmax, accepts_skip hdead', accepts_endif, accepts_endif]
      simp only [if_neg hmax]
      rfl

lemma accepts_stateOps {difficulty locktime : ℕ} {count : ℤ} {rest : List Bytes} :
    Accepts spend (stateOps.map .op ++ code)
        ⟨num difficulty :: num locktime :: num count :: rest, []⟩ ↔
      width difficulty ≤ 1 ∧ width locktime ≤ 4 ∧ width (count + 1).natAbs ≤ 4 ∧
        Accepts spend code ⟨(signed 1 difficulty ++ signed 4 locktime ++ signed 4 (count + 1) ++
          List.replicate 7 0) :: rest, []⟩ := by
  simp only [stateOps, lit, List.map_cons, List.map_nil, List.cons_append, List.nil_append, live_nil,
    accepts_push, accepts_num2bin, accepts_swap, accepts_cat, accepts_add1, value_num,
    Int.natAbs_natCast]
  rfl

lemma accepts_rewardOps {state difficulty : Bytes} {rest : List Bytes} {out : TxOut}
    (hout : spend.outputs[0]? = some out) :
    Accepts spend (rewardOps.map .op ++ code)
        ⟨state :: difficulty :: pkh.bytes :: category :: num reward :: rest, []⟩ ↔
      p2pkh pkh = out.bytecode ∧ out.tokenCategory = category ∧ out.tokenAmount = reward ∧
        out.value = 1000 ∧
        Accepts spend code ⟨state :: difficulty :: category :: num reward :: rest, []⟩ := by
  simp only [rewardOps, lit, List.map_cons, List.map_nil, List.cons_append, List.nil_append,
    live_nil, accepts_push, accepts_roll, accepts_cat, accepts_outputBytecode, accepts_equalVerify,
    accepts_outputTokenCategory, accepts_pick, accepts_outputTokenAmount, accepts_numEqualVerify,
    accepts_outputValue, List.getElem?_cons_succ, List.getElem?_cons_zero, List.eraseIdx_cons_succ,
    List.eraseIdx_cons_zero, Option.some.injEq, exists_eq_left', Nat.cast_inj, hout]
  rfl

lemma accepts_batonOps {state difficulty : Bytes} {rest : List Bytes} {out : TxOut}
    (hbaton : spend.inputs[0]? = some baton) (hout : spend.outputs[1]? = some out) :
    Accepts spend (batonOps.map .op ++ code)
        ⟨state :: difficulty :: category :: num reward :: rest, []⟩ ↔
      out.bytecode = baton.spent.bytecode ∧ out.tokenCategory = category ++ [1] ∧
        state = out.tokenCommitment ∧
        (out.tokenAmount : ℤ) = baton.spent.tokenAmount - reward ∧ 1000 ≤ out.value ∧
        (spend.outputs.length = 2 ∨ spend.outputs.length = 3) ∧
        Accepts spend code
          ⟨ofBool (decide (spend.outputs.length = 3)) :: difficulty :: rest, []⟩ := by
  simp only [batonOps, lit, List.map_cons, List.map_nil, List.cons_append, List.nil_append,
    live_nil, accepts_push, accepts_roll, accepts_cat, accepts_outputBytecode, accepts_equalVerify,
    accepts_utxoBytecode, accepts_outputTokenCategory, accepts_outputTokenCommitment,
    accepts_outputTokenAmount, accepts_utxoTokenAmount, accepts_sub, accepts_numEqualVerify,
    accepts_outputValue, accepts_greaterThanOrEqual, accepts_verify, accepts_txOutputCount,
    accepts_numEqual, accepts_boolOr, List.getElem?_cons_succ, List.getElem?_cons_zero,
    List.eraseIdx_cons_succ, List.eraseIdx_cons_zero, Option.some.injEq, exists_eq_left',
    Nat.cast_inj, Nat.cast_le, hout, hbaton, isTrue_ofBool, Bool.or_eq_true, decide_eq_true_eq]
  rfl

lemma accepts_endCode {difficulty : Bytes} {out : TxOut} (hlength : spend.outputs.length = 3)
    (hout : spend.outputs[2]? = some out) :
    Accepts spend endCode
        ⟨[ofBool (decide (spend.outputs.length = 3)), difficulty, num min, num max], []⟩ ↔
      out.token = none := by
  have hlive : Live [true] := by simp [live_nil]
  rw [endCode, accepts_if live_nil, decide_eq_true hlength,
    show decide (isTrue (ofBool true)) = true by decide]
  simp only [lit, List.map_cons, List.map_nil, List.cons_append, List.nil_append, hlive, live_nil,
    accepts_push, accepts_outputTokenCategory, accepts_equalVerify, accepts_endif, accepts_drop2,
    accepts_drop, accepts_nil, Option.some.injEq, exists_eq_left', hout]
  constructor
  · rintro ⟨htoken, -⟩
    exact TxOut.tokenCategory_eq_nil.mp htoken
  · intro htoken
    exact ⟨TxOut.tokenCategory_eq_nil.mpr htoken, _, rfl, trivial, isTrue_num.mpr (by decide)⟩

/-- When the covenant accepts a transaction with three outputs, on a baton with a given state. -/
lemma accepts_contract {d : Deployment} {out keeps change : TxOut}
    (hbaton : spend.inputs[0]? = some baton)
    (hcommitment : baton.spent.tokenCommitment = s.encode) (hdifficulty : s.difficulty.toNat < 128)
    (hheight : s.lastHeight.toNat < 2 ^ 31) (hout : spend.outputs = [out, keeps, change]) :
    Accepts spend ((argumentOps d).map .op ++ bodyCode) ⟨[pkh.bytes, nonce], []⟩ ↔
      (spend.index = 0 ∧ baton.sequence ≠ 0xffffffff ∧
        baton.spent.tokenCategory = d.categoryLe.bytes ++ [1]) ∧
      (s.difficulty.toNat ≤ (spend.hash256 (preimage s.lastHeight pkh nonce)).length ∧
        (spend.hash256 (preimage s.lastHeight pkh nonce)).take s.difficulty.toNat =
          List.replicate s.difficulty.toNat 0 ∧ s.lastHeight.toNat ≤ spend.locktime) ∧
      (p2pkh pkh = out.bytecode ∧ out.tokenCategory = d.categoryLe.bytes ∧
        out.tokenAmount = d.reward.toNat ∧ out.value = 1000) ∧
      (keeps.bytecode = baton.spent.bytecode ∧ keeps.tokenCategory = d.categoryLe.bytes ++ [1] ∧
        (keeps.tokenAmount : ℤ) = baton.spent.tokenAmount - d.reward.toNat ∧ 1000 ≤ keeps.value) ∧
      change.token = none ∧
      ∃ difficulty : ℕ, difficulty = (if s.lastHeight.toNat < spend.locktime
          then d.minDifficulty.toNat else if d.maxDifficulty.toNat < s.difficulty.toNat + 1
          then d.maxDifficulty.toNat else s.difficulty.toNat + 1) ∧
        width difficulty ≤ 1 ∧ width spend.locktime ≤ 4 ∧
        width (value (u32Le s.mineCount) + 1).natAbs ≤ 4 ∧
        signed 1 difficulty ++ signed 4 spend.locktime ++ signed 4 (value (u32Le s.mineCount) + 1) ++
          List.replicate 7 0 = keeps.tokenCommitment := by
  have hout0 : spend.outputs[0]? = some out := by rw [hout]; rfl
  have hout1 : spend.outputs[1]? = some keeps := by rw [hout]; rfl
  have hout2 : spend.outputs[2]? = some change := by rw [hout]; rfl
  have hlength : spend.outputs.length = 3 := by rw [hout]; rfl
  have hargs : Accepts spend ((argumentOps d).map .op ++ bodyCode) ⟨[pkh.bytes, nonce], []⟩ ↔
      Accepts spend bodyCode ⟨[d.categoryLe.bytes, num d.reward.toNat, num d.minDifficulty.toNat,
        num d.maxDifficulty.toNat, pkh.bytes, nonce], []⟩ := by
    simp only [argumentOps, lit, List.map_cons, List.map_nil, List.cons_append, List.nil_append,
      live_nil, accepts_push]
  rw [hargs, bodyCode, accepts_readOps hbaton hcommitment hdifficulty hheight,
    accepts_proofOps hheight, accepts_difficultyCode, accepts_stateOps, accepts_rewardOps hout0,
    accepts_batonOps hbaton hout1, accepts_endCode hlength hout2]
  simp only [hlength, or_true, true_and, decide_eq_true_eq, exists_eq_left]
  constructor
  · rintro ⟨hindex, hsequence, hcategory, hle, hzero, hlocktime, hd1, hl4, hc4, hpays, hpcat, hpamt,
      hpval, hback, hkcat, hstate, hkamt, hkval, htoken⟩
    exact ⟨⟨hindex, hsequence, hcategory⟩, ⟨hle, hzero, hlocktime⟩, ⟨hpays, hpcat, hpamt, hpval⟩,
      ⟨hback, hkcat, hkamt, hkval⟩, htoken, hd1, hl4, hc4, hstate⟩
  · rintro ⟨⟨hindex, hsequence, hcategory⟩, ⟨hle, hzero, hlocktime⟩, ⟨hpays, hpcat, hpamt, hpval⟩,
      ⟨hback, hkcat, hkamt, hkval⟩, htoken, hd1, hl4, hc4, hstate⟩
    exact ⟨hindex, hsequence, hcategory, hle, hzero, hlocktime, hd1, hl4, hc4, hpays, hpcat, hpamt,
      hpval, hback, hkcat, hstate, hkamt, hkval, htoken⟩

end Accepts

/-! ## The state the covenant writes -/

lemma signed_one {n : ℕ} : signed 1 n = [UInt8.ofNat n] := by
  rw [signed, if_neg (by omega), Nat.add_zero]
  rfl

/-- The covenant counts in four bytes with a sign, `State::next` in 32 bits: they agree below
`2 ^ 31 - 1`. -/
lemma count_iff (count : UInt32) :
    width (value (u32Le count) + 1).natAbs ≤ 4 ∧
        signed 4 (value (u32Le count) + 1) = u32Le (count + 1) ↔
      count.toNat + 1 < 2 ^ 31 := by
  have hfrom := fromLe_u32Le count
  have hnext : (count + 1).toNat = (count.toNat + 1) % 2 ^ 32 := UInt32.toNat_add count 1
  have hlt : count.toNat < 2 ^ 32 := count.toNat_lt
  by_cases hsign : count.toNat < 2 ^ 31
  · rw [value_u32Le hsign, width_le_iff]
    refine ⟨fun h => h.1, fun h => ⟨h, ?_⟩⟩
    have hcast : (count.toNat : ℤ) + 1 = (count + 1).toNat := by omega
    rw [hcast]
    exact signed_u32Le (by omega)
  · -- a count with the sign bit is read as a negative number, and goes the other way
    have hvalue : value (u32Le count) = -((count.toNat - 2 ^ 31 : ℕ) : ℤ) := by
      rw [value, hfrom, length_u32Le, if_pos]
      exact ⟨List.ne_nil_of_length_pos (by rw [length_u32Le]; decide), Nat.not_lt.mp hsign⟩
    refine iff_of_false (fun h => ?_) (by omega)
    have heq := congrArg fromLe h.2
    rw [fromLe_u32Le, signed, fromLe_leBytes, hvalue, hnext] at heq
    split_ifs at heq <;> omega

/-- The next state fits the commitment while the locktime and the count do. -/
lemma next_state_iff {d : Deployment} (hd : d.Valid) {s next : State} {locktime : UInt32}
    (hmax : s.difficulty.toNat ≤ d.maxDifficulty.toNat) (h : s.next locktime d = .ok next) :
    (∃ difficulty : ℕ, difficulty = (if s.lastHeight.toNat < locktime.toNat
        then d.minDifficulty.toNat else if d.maxDifficulty.toNat < s.difficulty.toNat + 1
        then d.maxDifficulty.toNat else s.difficulty.toNat + 1) ∧
      width difficulty ≤ 1 ∧ width locktime.toNat ≤ 4 ∧
      width (value (u32Le s.mineCount) + 1).natAbs ≤ 4 ∧
      signed 1 difficulty ++ signed 4 locktime.toNat ++ signed 4 (value (u32Le s.mineCount) + 1) ++
        List.replicate 7 0 = next.encode) ↔
      locktime.toNat < 2 ^ 31 ∧ s.mineCount.toNat + 1 < 2 ^ 31 := by
  have hle := hd.min_le
  have htop := hd.max_le
  obtain ⟨hheight, hbelow, hcases⟩ := next_cases h
  have hcount : next.mineCount = s.mineCount + 1 := by
    unfold State.next at h
    split_ifs at h <;> cases h <;> rfl
  have hdifficulty : (if s.lastHeight.toNat < locktime.toNat then d.minDifficulty.toNat
      else if d.maxDifficulty.toNat < s.difficulty.toNat + 1 then d.maxDifficulty.toNat
      else s.difficulty.toNat + 1) = next.difficulty.toNat := by
    rcases hcases with ⟨hmoves, hmin⟩ | ⟨hstays, hraised⟩
    · rw [if_pos (UInt32.lt_iff_toNat_lt.mp hmoves), hmin]
    · rw [hstays, if_neg (Nat.lt_irrefl _), hraised]
      split_ifs <;> omega
  have hsmall : next.difficulty.toNat < 2 ^ 7 := by
    rw [← hdifficulty]
    split_ifs <;> omega
  have hencode : next.encode = [next.difficulty] ++ u32Le locktime ++ u32Le (s.mineCount + 1) ++
      List.replicate 7 0 := by
    rw [State.encode, hheight, hcount]
    rfl
  rw [hdifficulty, ← count_iff s.mineCount, hencode]
  simp only [exists_eq_left]
  have hone : signed 1 next.difficulty.toNat = [next.difficulty] := by
    rw [signed_one, UInt8.ofNat_toNat]
  constructor
  · rintro ⟨-, hlocktime, hwidth, hstate⟩
    rw [width_le_iff] at hlocktime
    rw [hone, signed_u32Le hlocktime] at hstate
    exact ⟨hlocktime, hwidth, List.append_cancel_left (List.append_cancel_right hstate)⟩
  · rintro ⟨hlocktime, hwidth, hstate⟩
    refine ⟨width_le_iff.mpr hsmall, width_le_iff.mpr hlocktime, hwidth, ?_⟩
    rw [hone, signed_u32Le hlocktime, hstate]
end Pickaxe.Electric
