/-
# The pot covenant

A pot holds the satoshis that pay a miner's claims.  Its script lets a claim take the relay fee and
the reward output's satoshis, and lets the pot be returned.  The script is assembled byte by byte;
this file finds the condition it puts on a spending transaction.
-/
import Pickaxe.Electric.Deployment

namespace Pickaxe.Electric

open Lib Script

/-- `TOKEN_OUTPUT_SATS`. -/
def tokenOutputSats : ℕ := 1000

/-- `POT_MAX_FEE_SATS`: the most one claim or refund may take from the pot as a fee. -/
def potMaxFeeSats : ℕ := 3000

/-- `POT_MIN_CHANGE_SATS`: the least a claim leaves in the pot. -/
def potMinChangeSats : ℕ := 1000

/-- The locking bytecodes of the miner, the project and the collaborator. -/
structure Recipients where
  miner : Bytes
  project : Bytes
  collaborator : Bytes
deriving DecidableEq

namespace Recipients

/-- All three. -/
def locks (r : Recipients) : List Bytes := [r.miner, r.project, r.collaborator]

/-- The check of `Pot::with_recovery`: the three are P2PKH. -/
def IsP2pkh (r : Recipients) : Prop :=
  ∀ lock ∈ r.locks, lock.length = 25 ∧ lock.take 3 = [0x76, 0xa9, 0x14] ∧ lock.drop 23 = [0x88, 0xac]

instance (r : Recipients) : Decidable r.IsP2pkh :=
  inferInstanceAs (Decidable (∀ lock ∈ r.locks, _))

end Recipients

/-- The key options of a pot.  Authorized claims need a key. -/
structure PotOptions where
  /-- The recovery key, serialised. -/
  key : Option (ByteVec 33)
  authorizedClaims : Bool
  ownerDestination : Bool
  key_of_authorized : authorizedClaims = true → key.isSome = true

namespace PotOptions

/-- The key's bytes. -/
def keyBytes (o : PotOptions) : Bytes := (o.key.map ByteVec.bytes).getD []

lemma length_keyBytes (o : PotOptions) : o.keyBytes.length ≤ 33 := by
  unfold keyBytes
  cases o.key <;> simp

end PotOptions

/-- The claim branch of `pot_redeem`, piece by piece. -/
def potClaim (electricLock : Bytes) (minDifficulty : UInt8) (r : Recipients) (o : PotOptions) :
    List Bytes :=
  [if o.authorizedClaims then pushBytes o.keyBytes ++ [0xad] else [],
    [0xc3, 0x52, 0x9d],
    [0x00, 0xc7], pushBytes electricLock, [0x88],
    [0xc4, 0x53, 0x9d],
    [0x00, 0xcd, 0x76], pushBytes r.miner,
    [0x87, 0x78], pushBytes r.project,
    [0x87, 0x9b, 0x7c], pushBytes r.collaborator,
    [0x87, 0x9b, 0x69],
    [0x51, 0xcc, 0x00, 0xc6, 0x9d],
    [0x52, 0xcd, 0x51, 0xc7, 0x88],
    [0x52, 0xd1, 0x00, 0x88],
    [0x52, 0xcc, 0x51, 0xc6], pushNumber (tokenOutputSats + potMaxFeeSats : ℕ),
    [0x94, 0xa2, 0x69],
    if o.authorizedClaims then [0x51]
    else [[0x00, 0xcf, 0x51, 0x7f, 0x54, 0x7f], [0x75, 0x81, 0xc5, 0x9f, 0x7c, 0x81],
      pushNumber minDifficulty.toNat, [0x9c, 0x9b]].flatten]

/-- The refund branch of `pot_redeem`, piece by piece. -/
def potRefund (refund : Bytes) (o : PotOptions) : List Bytes :=
  [if o.key.isSome then pushBytes o.keyBytes ++ [0xad] else [],
    [0xc3, 0x51, 0x9d],
    [0xc4, 0x51, 0x9d],
    if o.ownerDestination then [] else [[0x00, 0xcd], pushBytes refund, [0x88]].flatten,
    [0x00, 0xd1, 0x00, 0x88],
    [0x00, 0xcc, 0x00, 0xc6], pushNumber potMaxFeeSats,
    [0x94, 0xa2]]

/-- `pot_redeem`: the pot covenant. -/
def potRedeem (electricLock : Bytes) (minDifficulty : UInt8) (r : Recipients) (refund : Bytes)
    (o : PotOptions) : Bytes :=
  [0xc0, 0x51, 0x9c, 0x63] ++ ((potClaim electricLock minDifficulty r o).flatten ++
    ([0x67] ++ ((potRefund refund o).flatten ++ [0x68])))

/-! ## The script's instructions -/

/-- A number, pushed. -/
def lit (n : ℕ) : Op := .push (num n)

/-- The check of a signature by the pot's key. -/
def signatureOps (needed : Bool) (key : Bytes) : List Op :=
  if needed then [.push key, .checkSigVerify] else []

/-- What every claim must be. -/
def claimOps (electricLock : Bytes) (r : Recipients) : List (List Op) :=
  [[.txInputCount, lit 2, .numEqualVerify],
    [lit 0, .utxoBytecode], [.push electricLock], [.equalVerify],
    [.txOutputCount, lit 3, .numEqualVerify],
    [lit 0, .outputBytecode, .dup], [.push r.miner],
    [.equal, .over], [.push r.project],
    [.equal, .boolOr, .swap], [.push r.collaborator],
    [.equal, .boolOr, .verify],
    [lit 1, .outputValue, lit 0, .utxoValue, .numEqualVerify],
    [lit 2, .outputBytecode, lit 1, .utxoBytecode, .equalVerify],
    [lit 2, .outputTokenCategory, lit 0, .equalVerify],
    [lit 2, .outputValue, lit 1, .utxoValue], [lit (tokenOutputSats + potMaxFeeSats)],
    [.sub, .greaterThanOrEqual, .verify]]

/-- The test of a restricted pot: a new height, or the minimum difficulty. -/
def heightOps (minDifficulty : UInt8) : List Op :=
  [[lit 0, .utxoTokenCommitment, lit 1, .split, lit 4, .split],
    [.drop, .bin2num, .txLocktime, .lessThan, .swap, .bin2num],
    [lit minDifficulty.toNat], [.numEqual, .boolOr]].flatten

/-- Where a refund goes. -/
def destinationOps (free : Bool) (refund : Bytes) : List Op :=
  if free then [] else [[lit 0, .outputBytecode], [.push refund], [.equalVerify]].flatten

/-- What every refund must be, but for its destination. -/
def refundOps : List (List Op) :=
  [[lit 0, .outputTokenCategory, lit 0, .equalVerify],
    [lit 0, .outputValue, lit 0, .utxoValue], [lit potMaxFeeSats],
    [.sub, .greaterThanOrEqual]]

/-- The claim branch. -/
def claimBranch (electricLock : Bytes) (minDifficulty : UInt8) (r : Recipients) (o : PotOptions) :
    List Op :=
  (signatureOps o.authorizedClaims o.keyBytes :: (claimOps electricLock r ++
    [if o.authorizedClaims then [lit 1] else heightOps minDifficulty])).flatten

/-- The refund branch. -/
def refundBranch (refund : Bytes) (o : PotOptions) : List Op :=
  (signatureOps o.key.isSome o.keyBytes :: [.txInputCount, lit 1, .numEqualVerify] ::
    [.txOutputCount, lit 1, .numEqualVerify] :: destinationOps o.ownerDestination refund ::
    refundOps).flatten

/-- The pot covenant's instructions. -/
def potCode (electricLock : Bytes) (minDifficulty : UInt8) (r : Recipients) (refund : Bytes)
    (o : PotOptions) : List Instr :=
  .op .inputIndex :: .op (lit 1) :: .op .numEqual :: .if ::
    ((claimBranch electricLock minDifficulty r o).map .op ++
      .else :: ((refundBranch refund o).map .op ++ [.endif]))

section Parse

variable {electricLock refund : Bytes} {minDifficulty : UInt8} {r : Recipients} {o : PotOptions}

lemma parses_lit {m : ℕ} (h : m < 2 ^ 63) : Parses (pushNumber m) ([lit m].map .op) := by
  rw [pushNumber_eq h]
  refine parses_pushBytes ?_
  have hwidth : width m ≤ 8 := width_le_iff.mpr h
  rw [length_num]
  exact hwidth.trans (by decide)

lemma parses_signature {needed : Bool} :
    Parses (if needed then pushBytes o.keyBytes ++ [0xad] else [])
      ((signatureOps needed o.keyBytes).map .op) := by
  cases needed with
  | false => exact parses_plain rfl
  | true =>
    exact (parses_pushBytes (o.length_keyBytes.trans (by decide))).append (parses_plain (by decide +kernel))

lemma parses_heightOps :
    Parses [[0x00, 0xcf, 0x51, 0x7f, 0x54, 0x7f], [0x75, 0x81, 0xc5, 0x9f, 0x7c, 0x81],
        pushNumber minDifficulty.toNat, [0x9c, 0x9b]].flatten ((heightOps minDifficulty).map .op) := by
  have hmin := parses_lit (minDifficulty.toNat_lt.trans (by decide : 256 < 2 ^ 63))
  exact Parses.flatten (.cons (parses_plain (by decide +kernel)) (.cons
    (parses_plain (by decide +kernel)) (.cons hmin (.cons (parses_plain (by decide +kernel)) .nil))))

lemma parses_destination (hrefund : refund.length ≤ 65535) {free : Bool} :
    Parses (if free then [] else [[0x00, 0xcd], pushBytes refund, [0x88]].flatten)
      ((destinationOps free refund).map .op) := by
  cases free with
  | true => exact parses_nil
  | false =>
    have hpush := parses_pushBytes hrefund
    exact Parses.flatten (.cons (parses_plain (by decide +kernel)) (.cons hpush
      (.cons (parses_plain (by decide +kernel)) .nil)))

lemma parses_claim (hlock : electricLock.length ≤ 65535)
    (hr : ∀ lock ∈ r.locks, lock.length ≤ 65535) :
    Parses (potClaim electricLock minDifficulty r o).flatten
      ((claimBranch electricLock minDifficulty r o).map .op) := by
  have hminer := parses_pushBytes (hr r.miner (by simp [Recipients.locks]))
  have hproject := parses_pushBytes (hr r.project (by simp [Recipients.locks]))
  have hcollaborator := parses_pushBytes (hr r.collaborator (by simp [Recipients.locks]))
  have hfee : Parses (pushNumber (tokenOutputSats + potMaxFeeSats : ℕ))
      ([lit (tokenOutputSats + potMaxFeeSats)].map .op) := parses_lit (by decide)
  have hend : Parses (if o.authorizedClaims then [0x51]
      else [[0x00, 0xcf, 0x51, 0x7f, 0x54, 0x7f], [0x75, 0x81, 0xc5, 0x9f, 0x7c, 0x81],
        pushNumber minDifficulty.toNat, [0x9c, 0x9b]].flatten)
      ((if o.authorizedClaims then [lit 1] else heightOps minDifficulty).map .op) := by
    split_ifs
    · exact parses_plain (by decide +kernel)
    · exact parses_heightOps
  refine Parses.flatten (.cons parses_signature ?_)
  refine .cons (parses_plain (by decide +kernel)) ?_
  refine .cons (parses_plain (by decide +kernel)) (.cons (parses_pushBytes hlock) ?_)
  refine .cons (parses_plain (by decide +kernel)) (.cons (parses_plain (by decide +kernel)) ?_)
  refine .cons (parses_plain (by decide +kernel)) (.cons hminer ?_)
  refine .cons (parses_plain (by decide +kernel)) (.cons hproject ?_)
  refine .cons (parses_plain (by decide +kernel)) (.cons hcollaborator ?_)
  refine .cons (parses_plain (by decide +kernel)) (.cons (parses_plain (by decide +kernel)) ?_)
  refine .cons (parses_plain (by decide +kernel)) (.cons (parses_plain (by decide +kernel)) ?_)
  refine .cons (parses_plain (by decide +kernel)) (.cons hfee ?_)
  exact .cons (parses_plain (by decide +kernel)) (.cons hend .nil)

lemma parses_refund (hrefund : refund.length ≤ 65535) :
    Parses (potRefund refund o).flatten ((refundBranch refund o).map .op) := by
  have hfee : Parses (pushNumber potMaxFeeSats) ([lit potMaxFeeSats].map .op) :=
    parses_lit (by decide)
  refine Parses.flatten (.cons parses_signature ?_)
  refine .cons (parses_plain (by decide +kernel)) (.cons (parses_plain (by decide +kernel)) ?_)
  refine .cons (parses_destination hrefund) (.cons (parses_plain (by decide +kernel)) ?_)
  refine .cons (parses_plain (by decide +kernel)) (.cons hfee ?_)
  exact .cons (parses_plain (by decide +kernel)) .nil

/-- The bytes are these instructions. -/
lemma parse_potRedeem (hlock : electricLock.length ≤ 65535) (hrefund : refund.length ≤ 65535)
    (hr : ∀ lock ∈ r.locks, lock.length ≤ 65535) :
    parse (potRedeem electricLock minDifficulty r refund o) =
      some (potCode electricLock minDifficulty r refund o) := by
  have hclaim : Parses (potClaim electricLock minDifficulty r o).flatten _ := parses_claim hlock hr
  have hhead : Parses [0xc0, 0x51, 0x9c, 0x63]
      [.op .inputIndex, .op (lit 1), .op .numEqual, .if] := parses_plain (by decide +kernel)
  have helse : Parses [0x67] [.else] := parses_plain (by decide +kernel)
  have hend : Parses [0x68] [.endif] := parses_plain (by decide +kernel)
  exact (hhead.append (hclaim.append (helse.append ((parses_refund hrefund).append hend)))).parse

end Parse

/-! ## What the instructions ask for -/

section Accepts

variable {spend : Spend} {stack : List Bytes} {code : List Instr}

lemma accepts_claimOps {electricLock : Bytes} {r : Recipients} :
    Accepts spend ((claimOps electricLock r).flatten.map .op ++ code) ⟨stack, []⟩ ↔
      ∃ baton pot reward keeps change, spend.inputs = [baton, pot] ∧
        spend.outputs = [reward, keeps, change] ∧ baton.spent.bytecode = electricLock ∧
        reward.bytecode ∈ r.locks ∧ keeps.value = baton.spent.value ∧
        change.bytecode = pot.spent.bytecode ∧ change.token = none ∧
        pot.spent.value ≤ change.value + (tokenOutputSats + potMaxFeeSats) ∧
        Accepts spend code ⟨stack, []⟩ := by
  simp only [claimOps, lit, List.flatten_cons, List.flatten_nil, List.map_cons, List.map_nil, List.cons_append, List.nil_append,
    live_nil, accepts_push, accepts_txInputCount, accepts_numEqualVerify, accepts_utxoBytecode,
    accepts_equalVerify, accepts_txOutputCount, accepts_outputBytecode, accepts_dup, accepts_equal,
    accepts_over, accepts_boolOr, accepts_swap, accepts_verify, accepts_outputValue,
    accepts_utxoValue, accepts_outputTokenCategory, accepts_sub, accepts_greaterThanOrEqual]
  constructor
  · rintro ⟨hin, baton, hbaton, hlock, hout, reward, hreward, hpays, keeps, hkeeps, baton', hbaton',
      hvalue, change, hchange, pot, hpot, hback, change', hchange', htoken, change'', hchange'',
      pot', hpot', hfee, hcode⟩
    obtain ⟨b, p, hinputs⟩ := List.length_eq_two.mp (Int.ofNat_inj.mp hin)
    obtain ⟨x, y, z, houtputs⟩ := List.length_eq_three.mp (Int.ofNat_inj.mp hout)
    rw [hinputs] at hbaton hbaton' hpot hpot'
    rw [houtputs] at hreward hkeeps hchange hchange' hchange''
    cases hbaton
    cases hbaton'
    cases hpot
    cases hpot'
    cases hreward
    cases hkeeps
    cases hchange
    cases hchange'
    cases hchange''
    refine ⟨_, _, _, _, _, hinputs, houtputs, hlock, ?_, Int.ofNat_inj.mp hvalue, hback,
      TxOut.tokenCategory_eq_nil.mp htoken, ?_, hcode⟩
    · simpa [Recipients.locks, or_assoc] using hpays
    · rw [isTrue_ofBool, decide_eq_true_eq] at hfee
      omega
  · rintro ⟨baton, pot, reward, keeps, change, hinputs, houtputs, hlock, hpays, hvalue, hback,
      htoken, hfee, hcode⟩
    rw [hinputs, houtputs]
    refine ⟨rfl, baton, rfl, hlock, rfl, reward, rfl, ?_, keeps, rfl, baton, rfl, by rw [hvalue],
      change, rfl, pot, rfl, hback, change, rfl, TxOut.tokenCategory_eq_nil.mpr htoken, change, rfl,
      pot, rfl, ?_, hcode⟩
    · simpa [Recipients.locks, or_assoc] using hpays
    · rw [isTrue_ofBool, decide_eq_true_eq]
      omega

/-- What is left of the unlocking stack after the check of a signature, if one is needed. -/
def Signed (spend : Spend) (needed : Bool) (key : Bytes) (stack rest : List Bytes) : Prop :=
  if needed then ∃ sig, stack = sig :: rest ∧ spend.checkSig sig key = true else stack = rest

lemma accepts_signatureOps {needed : Bool} {key : Bytes} :
    Accepts spend ((signatureOps needed key).map .op ++ code) ⟨stack, []⟩ ↔
      ∃ rest, Signed spend needed key stack rest ∧ Accepts spend code ⟨rest, []⟩ := by
  cases needed with
  | false => simp [signatureOps, Signed]
  | true =>
    simp only [signatureOps, if_true, List.map_cons, List.map_nil, List.cons_append,
      List.nil_append, live_nil, accepts_push, accepts_checkSigVerify, Signed]
    constructor
    · rintro ⟨sig, rest, hstack, hsig, hcode⟩
      exact ⟨rest, ⟨sig, hstack, hsig⟩, hcode⟩
    · rintro ⟨rest, ⟨sig, hstack, hsig⟩, hcode⟩
      exact ⟨sig, rest, hstack, hsig, hcode⟩

/-- The test of a restricted pot on the baton's commitment: the locktime is above the number in its
second to fifth byte, or its first byte is the minimum difficulty. -/
def Passes (minDifficulty : UInt8) (commitment : Bytes) (locktime : ℕ) : Prop :=
  5 ≤ commitment.length ∧
    (value (slice commitment 1 5) < locktime ∨ commitment.head? = some minDifficulty)

instance (minDifficulty : UInt8) (commitment : Bytes) (locktime : ℕ) :
    Decidable (Passes minDifficulty commitment locktime) := inferInstanceAs (Decidable (_ ∧ _))

lemma accepts_heightOps {minDifficulty : UInt8} (hpos : 0 < minDifficulty.toNat)
    (hlt : minDifficulty.toNat < 128) :
    Accepts spend ((heightOps minDifficulty).map .op) ⟨stack, []⟩ ↔
      stack = [] ∧ ∃ baton, spend.inputs[0]? = some baton ∧
        Passes minDifficulty baton.spent.tokenCommitment spend.locktime := by
  simp only [heightOps, lit, List.flatten_cons, List.flatten_nil, List.map_cons, List.map_nil,
    List.cons_append, List.nil_append, List.append_nil, live_nil, accepts_push,
    accepts_utxoTokenCommitment, accepts_split, accepts_drop, accepts_bin2num, accepts_txLocktime,
    accepts_lessThan, accepts_swap, accepts_numEqual, accepts_boolOr, accepts_nil]
  constructor
  · rintro ⟨baton, hbaton, hone, hfour, v, hv, -, htrue⟩
    cases hv
    refine ⟨rfl, baton, hbaton, ?_⟩
    obtain ⟨x, rest, hcommitment⟩ : ∃ x rest, baton.spent.tokenCommitment = x :: rest :=
      List.exists_cons_of_length_pos hone
    rw [hcommitment] at hfour htrue ⊢
    rw [isTrue_ofBool, Bool.or_eq_true, decide_eq_true_eq, decide_eq_true_eq] at htrue
    refine ⟨by simpa using hfour, htrue.imp_right fun h => ?_⟩
    rw [List.head?_cons, Option.some.injEq]
    exact UInt8.toNat_inj.mp ((value_singleton hpos hlt).mp h)
  · rintro ⟨rfl, baton, hbaton, hlength, hpasses⟩
    obtain ⟨x, rest, hcommitment⟩ : ∃ x rest, baton.spent.tokenCommitment = x :: rest :=
      List.exists_cons_of_length_pos (by omega)
    rw [hcommitment] at hlength hpasses
    refine ⟨baton, hbaton, ?_, ?_, _, rfl, trivial, ?_⟩
    · rw [hcommitment]
      simp
    · rw [hcommitment]
      simpa using hlength
    · rw [hcommitment, isTrue_ofBool, Bool.or_eq_true, decide_eq_true_eq, decide_eq_true_eq]
      refine hpasses.imp_right fun h => (value_singleton hpos hlt).mpr ?_
      rw [List.head?_cons, Option.some.injEq] at h
      rw [h]

lemma accepts_destinationOps {free : Bool} {refund : Bytes} :
    Accepts spend ((destinationOps free refund).map .op ++ code) ⟨stack, []⟩ ↔
      (free = false → ∃ out, spend.outputs[0]? = some out ∧ out.bytecode = refund) ∧
        Accepts spend code ⟨stack, []⟩ := by
  cases free with
  | true => simp [destinationOps]
  | false =>
    simp only [destinationOps, lit, Bool.false_eq_true, if_false, List.flatten_cons,
      List.flatten_nil, List.map_cons, List.map_nil, List.cons_append, List.nil_append, live_nil,
      accepts_push, accepts_outputBytecode, accepts_equalVerify, forall_const]
    constructor
    · rintro ⟨out, hout, hrefund, hcode⟩
      exact ⟨⟨out, hout, hrefund⟩, hcode⟩
    · rintro ⟨⟨out, hout, hrefund⟩, hcode⟩
      exact ⟨out, hout, hrefund, hcode⟩

lemma accepts_refundOps : Accepts spend (refundOps.flatten.map .op) ⟨stack, []⟩ ↔
    stack = [] ∧ ∃ pot out, spend.inputs[0]? = some pot ∧ spend.outputs[0]? = some out ∧
      out.token = none ∧ pot.spent.value ≤ out.value + potMaxFeeSats := by
  simp only [refundOps, lit, List.flatten_cons, List.flatten_nil, List.map_cons, List.map_nil,
    List.cons_append, List.nil_append, List.append_nil, live_nil, accepts_push,
    accepts_outputTokenCategory, accepts_equalVerify, accepts_outputValue, accepts_utxoValue,
    accepts_sub, accepts_greaterThanOrEqual, accepts_nil]
  constructor
  · rintro ⟨out, hout, htoken, out', hout', pot, hpot, v, hv, -, htrue⟩
    cases hout.symm.trans hout'
    cases hv
    rw [isTrue_ofBool, decide_eq_true_eq] at htrue
    exact ⟨rfl, pot, out, hpot, hout, TxOut.tokenCategory_eq_nil.mp htoken, by omega⟩
  · rintro ⟨rfl, pot, out, hpot, hout, htoken, hvalue⟩
    refine ⟨out, hout, TxOut.tokenCategory_eq_nil.mpr htoken, out, hout, pot, hpot, _, rfl, trivial,
      ?_⟩
    rw [isTrue_ofBool, decide_eq_true_eq]
    omega

end Accepts

/-! ## Pots -/

/-- The redeem script of a pay-to-script-hash output accepts the stack its input leaves. -/
def Redeems (redeem : Bytes) (spend : Spend) (stack : List Bytes) : Prop :=
  ∃ code, parse redeem = some code ∧ Accepts spend code ⟨stack, []⟩

/-- `Pot`. -/
structure Pot where
  redeem : Bytes
  network : MiningNetwork
  options : PotOptions

namespace Pot

variable [Hasher]

/-- The pot of some recipients; the miner's is also the refund address. -/
def make (d : Deployment) (r : Recipients) (o : PotOptions) : Pot :=
  ⟨potRedeem d.lockingBytecode d.minDifficulty r r.miner o, d.network, o⟩

/-- `Pot::with_recovery`. -/
def withRecovery (d : Deployment) (r : Recipients) (key : Option (ByteVec 33)) : Except String Pot :=
  if r.IsP2pkh then .ok (make d r ⟨key, false, false, nofun⟩)
  else .error "ELECTRIC pays P2PKH addresses only"

/-- `Pot::new`. -/
def new (d : Deployment) (r : Recipients) : Except String Pot := withRecovery d r none

/-- `Pot::with_authorized_claims`. -/
def withAuthorizedClaims (d : Deployment) (r : Recipients) (key : ByteVec 33) :
    Except String Pot := do
  let _ ← withRecovery d r (some key)
  return make d r ⟨some key, true, false, fun _ => rfl⟩

/-- `Pot::with_owner_destination`. -/
def withOwnerDestination (d : Deployment) (r : Recipients) (key : ByteVec 33) :
    Except String Pot := do
  let _ ← withAuthorizedClaims d r key
  return make d r ⟨some key, true, true, fun _ => rfl⟩

/-- `Pot::claim_locktime`. -/
def claimLocktime (pot : Pot) (s : State) (tip : UInt32) (d : Deployment) : Option UInt32 :=
  if pot.options.authorizedClaims then if s.lastHeight ≤ tip then some tip else none
  else Electric.claimLocktime s tip d

/-- `Pot::locking_bytecode`. -/
def lockingBytecode (pot : Pot) : Bytes := p2sh32 pot.redeem

end Pot

/-! ## The spending condition -/

section Condition

variable [Hasher]

/-- A claim: the pot is input 1 of 2. -/
def IsClaim (d : Deployment) (r : Recipients) (o : PotOptions) (spend : Spend) (stack : List Bytes) :
    Prop :=
  spend.index = 1 ∧ Signed spend o.authorizedClaims o.keyBytes stack [] ∧
    ∃ baton pot reward keeps change, spend.inputs = [baton, pot] ∧
      spend.outputs = [reward, keeps, change] ∧ baton.spent.bytecode = d.lockingBytecode ∧
      reward.bytecode ∈ r.locks ∧ keeps.value = baton.spent.value ∧
      change.bytecode = (Pot.make d r o).lockingBytecode ∧ change.token = none ∧
      pot.spent.value ≤ change.value + 4000 ∧
      (o.authorizedClaims = false →
        Passes d.minDifficulty baton.spent.tokenCommitment spend.locktime)

omit [Hasher] in
/-- A refund: the pot is the only input. -/
def IsRefund (r : Recipients) (o : PotOptions) (spend : Spend) (stack : List Bytes) : Prop :=
  spend.index = 0 ∧ Signed spend o.key.isSome o.keyBytes stack [] ∧
    ∃ pot out, spend.inputs = [pot] ∧ spend.outputs = [out] ∧ out.token = none ∧
      pot.spent.value ≤ out.value + 3000 ∧ (o.ownerDestination = false → out.bytecode = r.miner)

variable {d : Deployment} {r : Recipients} {o : PotOptions} {spend : Spend} {stack : List Bytes}

lemma length_lockingBytecode : d.lockingBytecode.length = 35 := by
  simp [Deployment.lockingBytecode, p2sh32]

omit [Hasher] in
lemma accepts_claimBranch {lock : Bytes} (hd : d.Valid) :
    Accepts spend ((claimBranch lock d.minDifficulty r o).map .op) ⟨stack, []⟩ ↔
      Signed spend o.authorizedClaims o.keyBytes stack [] ∧
      ∃ baton pot reward keeps change, spend.inputs = [baton, pot] ∧
        spend.outputs = [reward, keeps, change] ∧ baton.spent.bytecode = lock ∧
        reward.bytecode ∈ r.locks ∧ keeps.value = baton.spent.value ∧
        change.bytecode = pot.spent.bytecode ∧ change.token = none ∧
        pot.spent.value ≤ change.value + 4000 ∧
        (o.authorizedClaims = false →
          Passes d.minDifficulty baton.spent.tokenCommitment spend.locktime) := by
  have hend : ∀ rest, Accepts spend
      ((if o.authorizedClaims then [lit 1] else heightOps d.minDifficulty).map .op) ⟨rest, []⟩ ↔
      rest = [] ∧ (o.authorizedClaims = false → ∃ baton, spend.inputs[0]? = some baton ∧
        Passes d.minDifficulty baton.spent.tokenCommitment spend.locktime) := by
    intro rest
    cases o.authorizedClaims with
    | true =>
      simp only [if_true, lit, List.map_cons, List.map_nil, live_nil, accepts_push, accepts_nil]
      constructor
      · rintro ⟨v, hv, -, -⟩
        cases hv
        exact ⟨rfl, nofun⟩
      · rintro ⟨rfl, -⟩
        exact ⟨_, rfl, trivial, isTrue_num.mpr (by decide)⟩
    | false =>
      simp only [Bool.false_eq_true, if_false, forall_const]
      exact accepts_heightOps hd.min_pos (by have := hd.min_le; have := hd.max_le; omega)
  have hsplit : (claimBranch lock d.minDifficulty r o).map Instr.op =
      (signatureOps o.authorizedClaims o.keyBytes).map .op ++ ((claimOps lock r).flatten.map .op ++
        (if o.authorizedClaims then [lit 1] else heightOps d.minDifficulty).map .op) := by
    simp [claimBranch]
  rw [hsplit, accepts_signatureOps]
  simp only [accepts_claimOps, hend]
  constructor
  · rintro ⟨rest, hsigned, baton, pot, reward, keeps, change, hin, hout, hlock, hpays, hvalue, hback,
      htoken, hfee, rfl, hpasses⟩
    refine ⟨hsigned, baton, pot, reward, keeps, change, hin, hout, hlock, hpays, hvalue, hback,
      htoken, hfee, fun hrestricted => ?_⟩
    obtain ⟨baton', hbaton', h⟩ := hpasses hrestricted
    rw [hin] at hbaton'
    cases hbaton'
    exact h
  · rintro ⟨hsigned, baton, pot, reward, keeps, change, hin, hout, hlock, hpays, hvalue, hback, htoken,
      hfee, hpasses⟩
    refine ⟨[], hsigned, baton, pot, reward, keeps, change, hin, hout, hlock, hpays, hvalue, hback,
      htoken, hfee, rfl, fun hrestricted => ⟨baton, by rw [hin]; rfl, hpasses hrestricted⟩⟩

omit [Hasher] in
lemma accepts_refundBranch : Accepts spend ((refundBranch r.miner o).map .op) ⟨stack, []⟩ ↔
    Signed spend o.key.isSome o.keyBytes stack [] ∧
      ∃ pot out, spend.inputs = [pot] ∧ spend.outputs = [out] ∧ out.token = none ∧
        pot.spent.value ≤ out.value + 3000 ∧
        (o.ownerDestination = false → out.bytecode = r.miner) := by
  have hsplit : (refundBranch r.miner o).map Instr.op =
      (signatureOps o.key.isSome o.keyBytes).map .op ++
        (.op .txInputCount :: .op (lit 1) :: .op .numEqualVerify :: .op .txOutputCount ::
          .op (lit 1) :: .op .numEqualVerify ::
          ((destinationOps o.ownerDestination r.miner).map .op ++ refundOps.flatten.map .op)) := by
    simp [refundBranch]
  rw [hsplit, accepts_signatureOps]
  simp only [lit, live_nil, accepts_push, accepts_txInputCount, accepts_numEqualVerify,
    accepts_txOutputCount, accepts_destinationOps, accepts_refundOps]
  constructor
  · rintro ⟨rest, hsigned, hin, hout, hdestination, rfl, pot, out, hpot, hout0, htoken, hfee⟩
    obtain ⟨p, hinputs⟩ := List.length_eq_one_iff.mp (Int.ofNat_inj.mp hin)
    obtain ⟨q, houtputs⟩ := List.length_eq_one_iff.mp (Int.ofNat_inj.mp hout)
    rw [hinputs] at hpot
    rw [houtputs] at hout0 hdestination
    cases hpot
    cases hout0
    refine ⟨hsigned, _, _, hinputs, houtputs, htoken, hfee, fun hfixed => ?_⟩
    obtain ⟨out', hout', h⟩ := hdestination hfixed
    cases hout'
    exact h
  · rintro ⟨hsigned, pot, out, hin, hout, htoken, hfee, hdestination⟩
    rw [hin, hout]
    exact ⟨[], hsigned, rfl, rfl, fun hfixed => ⟨out, rfl, hdestination hfixed⟩, rfl, pot, out, rfl,
      rfl, htoken, hfee⟩

/-- The pot's script accepts claims and refunds and nothing else. -/
lemma redeems_iff (hd : d.Valid) (hr : r.IsP2pkh) {pot : TxIn}
    (hpot : spend.inputs[spend.index]? = some pot)
    (hlock : pot.spent.bytecode = (Pot.make d r o).lockingBytecode) :
    Redeems (Pot.make d r o).redeem spend stack ↔ IsClaim d r o spend stack ∨
      IsRefund r o spend stack := by
  have hparse : parse (Pot.make d r o).redeem =
      some (potCode d.lockingBytecode d.minDifficulty r r.miner o) := by
    have hlocks : ∀ lock ∈ r.locks, lock.length ≤ 65535 := fun lock h => by
      rw [(hr lock h).1]
      decide
    exact parse_potRedeem (by rw [length_lockingBytecode]; decide)
      (hlocks _ (by simp [Recipients.locks])) hlocks
  have hcode : Redeems (Pot.make d r o).redeem spend stack ↔
      Accepts spend (potCode d.lockingBytecode d.minDifficulty r r.miner o) ⟨stack, []⟩ := by
    rw [Redeems, hparse]
    simp
  rw [hcode, potCode]
  simp only [lit, live_nil, accepts_inputIndex, accepts_push, accepts_numEqual]
  have htaken : isTrue (ofBool (decide ((spend.index : ℤ) = (1 : ℕ)))) ↔ spend.index = 1 := by
    rw [isTrue_ofBool, decide_eq_true_eq, Nat.cast_inj]
  rw [accepts_branches live_nil, List.append_nil, List.append_nil]
  by_cases hindex : spend.index = 1
  · have hnot : ¬ IsRefund r o spend stack := fun h => absurd (h.1.symm.trans hindex) (by decide)
    rw [if_pos (htaken.mpr hindex), accepts_claimBranch hd, or_iff_left hnot]
    -- the pot is the input that runs, so its lock is known
    have hchange : ∀ {baton p : TxIn}, spend.inputs = [baton, p] →
        p.spent.bytecode = (Pot.make d r o).lockingBytecode := by
      intro baton p hin
      rw [hindex, hin] at hpot
      cases hpot
      exact hlock
    constructor
    · rintro ⟨hsigned, baton, p, reward, keeps, change, hin, hout, hbaton, hpays, hvalue, hback, hrest⟩
      exact ⟨hindex, hsigned, baton, p, reward, keeps, change, hin, hout, hbaton, hpays, hvalue,
        hback.trans (hchange hin), hrest⟩
    · rintro ⟨-, hsigned, baton, p, reward, keeps, change, hin, hout, hbaton, hpays, hvalue, hback,
        hrest⟩
      exact ⟨hsigned, baton, p, reward, keeps, change, hin, hout, hbaton, hpays, hvalue,
        hback.trans (hchange hin).symm, hrest⟩
  · have hnot : ¬ IsClaim d r o spend stack := fun h => hindex h.1
    rw [if_neg (fun h => hindex (htaken.mp h)), accepts_refundBranch, or_iff_right hnot]
    refine ⟨fun h => ⟨?_, h⟩, fun h => h.2⟩
    obtain ⟨-, p, out, hin, -⟩ := h
    obtain ⟨hlt, -⟩ := List.getElem?_eq_some_iff.mp hpot
    rw [hin, List.length_singleton] at hlt
    omega

/-! ## Reading the commitment of a baton -/

omit [Hasher]

lemma length_encode (s : State) : s.encode.length = 16 := by
  simp [State.encode]

lemma slice_encode (s : State) : slice s.encode 1 5 = u32Le s.lastHeight := by
  rw [State.encode]
  simp [slice]

/-- Below `2 ^ 31` the test reads the baton's height. -/
lemma passes_encode {s : State} {locktime : ℕ} (hheight : s.lastHeight.toNat < 2 ^ 31) :
    Passes d.minDifficulty s.encode locktime ↔
      s.lastHeight.toNat < locktime ∨ s.difficulty = d.minDifficulty := by
  have hfrom : fromLe (u32Le s.lastHeight) = s.lastHeight.toNat :=
    fromLe_leBytes_of_lt (hheight.trans (by decide))
  have hvalue : value (slice s.encode 1 5) = s.lastHeight.toNat := by
    rw [slice_encode, value_eq_fromLe (by rw [hfrom, length_u32Le]; exact hheight), hfrom]
  have hlength : 5 ≤ s.encode.length := by
    rw [length_encode]
    decide
  rw [Passes, and_iff_right hlength, hvalue, Nat.cast_lt]
  simp [State.encode]

end Condition

/-- The pot covenant permits claims and refunds and nothing else, with a clean stack.  Where claims are
not authorized the baton's commitment decides: below `2 ^ 31` by its height and difficulty. -/
theorem pot_permits [Hasher] {network : MiningNetwork} {category : Option (List Char)}
    {reward : Option UInt64} {minDifficulty maxDifficulty : Option UInt8} {d : Deployment}
    (hselect : Deployment.select network category reward minDifficulty maxDifficulty = .ok d)
    {r : Recipients} (hr : r.IsP2pkh) (o : PotOptions) (spend : Spend) (stack : List Bytes)
    {pot : TxIn} (hpot : spend.inputs[spend.index]? = some pot)
    (hlock : pot.spent.bytecode = (Pot.make d r o).lockingBytecode) :
    (Redeems (Pot.make d r o).redeem spend stack ↔
      IsClaim d r o spend stack ∨ IsRefund r o spend stack) ∧
    ∀ s : State, s.lastHeight.toNat < 2 ^ 31 →
      (Passes d.minDifficulty s.encode spend.locktime ↔
        s.lastHeight.toNat < spend.locktime ∨ s.difficulty = d.minDifficulty) :=
  ⟨redeems_iff (Deployment.valid_of_select hselect) hr hpot hlock, fun _ => passes_encode⟩

/-- Three P2PKH recipients. -/
def sampleRecipients : Recipients :=
  ⟨p2pkh (ByteVec.zero 20), p2pkh ⟨List.replicate 20 1, rfl⟩, p2pkh ⟨List.replicate 20 2, rfl⟩⟩

/-- A baton at height 100 after a claim that moved it. -/
def sampleBaton : State := ⟨3, 100, 7⟩

/-- A claim on a keyless pot at the baton's height and the minimum difficulty. -/
def sampleClaim [Hasher] (pot : Pot) : Spend :=
  let baton : TxOut := ⟨1000, Deployment.mainnet.lockingBytecode,
    some ⟨Deployment.mainnet.categoryLe, some (1, sampleBaton.encode), 60000000⟩⟩
  { inputs := [⟨baton, 0⟩, ⟨⟨9000, pot.lockingBytecode, none⟩, 0⟩]
    outputs := [⟨1000, sampleRecipients.project, none⟩, ⟨1000, [], none⟩,
      ⟨5000, pot.lockingBytecode, none⟩]
    locktime := 100
    index := 1
    hash256 := fun b => (doubleSha256 b).bytes
    checkSig := fun _ _ => false }

theorem pot_permits_sample :
    let _ : Hasher := Hasher.fips
    let pot := Pot.make Deployment.mainnet sampleRecipients ⟨none, false, false, nofun⟩
    Redeems pot.redeem (sampleClaim pot) [] := by
  intro _ pot
  have hselect : Deployment.select .mainnet none none none none = .ok Deployment.mainnet := rfl
  have hr : sampleRecipients.IsP2pkh := by decide
  have hpermits := pot_permits hselect hr ⟨none, false, false, nofun⟩ (sampleClaim pot) [] rfl rfl
  refine hpermits.1.mpr (.inl ⟨rfl, rfl, _, _, _, _, _, rfl, rfl, rfl, ?_, rfl, rfl, rfl, ?_, ?_⟩)
  · simp [Recipients.locks]
  · decide
  · exact fun _ => (hpermits.2 sampleBaton (by decide)).mpr (.inr rfl)

/-- With an owner's destination the refund of a pot goes where its key says. -/
theorem refund_elsewhere :
    let _ : Hasher := Hasher.fips
    let o : PotOptions := ⟨some (ByteVec.zero 33), true, true, fun _ => rfl⟩
    let pot := Pot.make Deployment.mainnet sampleRecipients o
    let spend : Spend :=
      { inputs := [⟨⟨9000, pot.lockingBytecode, none⟩, 0⟩]
        outputs := [⟨6000, [0x51], none⟩]
        locktime := 0
        index := 0
        hash256 := fun b => (doubleSha256 b).bytes
        checkSig := fun _ _ => true }
    Deployment.select .mainnet none none none none = .ok Deployment.mainnet ∧
      sampleRecipients.IsP2pkh ∧ Redeems pot.redeem spend [[0]] ∧
      ∀ out ∈ spend.outputs, out.bytecode ≠ sampleRecipients.miner := by
  intro _ o pot spend
  have hr : sampleRecipients.IsP2pkh := by decide
  refine ⟨rfl, hr, (redeems_iff Deployment.valid_mainnet hr rfl rfl).mpr (.inr ?_), by decide⟩
  exact ⟨rfl, ⟨[0], rfl, rfl⟩, _, _, rfl, rfl, rfl, by decide, nofun⟩

end Pickaxe.Electric
