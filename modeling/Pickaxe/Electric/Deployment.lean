/-
# ELECTRIC deployments

ELECTRIC is a token with a covenant that hands out a reward for a proof of work.  A deployment is
the token's category with the values the covenant was built with: the reward, and the least and
the most leading zero bytes a proof needs.  The baton, an NFT that moves from claim to claim,
carries the covenant's state in its commitment.
-/
import Pickaxe.Basic
import Pickaxe.Lib.ScriptCode
import Pickaxe.Lib.Text

namespace Pickaxe.Electric

open Lib

/-! ## Pushes -/

/-- `push_data`. -/
def pushData (data : Bytes) : Except String Bytes :=
  if data.length ≤ 75 then .ok (UInt8.ofNat data.length :: data)
  else if data.length ≤ 255 then .ok (0x4c :: UInt8.ofNat data.length :: data)
  else if data.length ≤ 65535 then .ok (0x4d :: leBytes 2 data.length ++ data)
  else .error "script push exceeds OP_PUSHDATA2 limit"

/-- `push_bytes`: a minimal push of data under 64 KiB. -/
def pushBytes (data : Bytes) : Bytes :=
  match data with
  | [] => [0x00]
  | [n] =>
    if 1 ≤ n.toNat ∧ n.toNat ≤ 16 then [0x50 + n]
    else if n.toNat = 0x81 then [0x4f]
    else (pushData [n]).toOption.getD []
  | _ => (pushData data).toOption.getD []

/-- The bytes of a magnitude, the least significant first; eight rounds take a `u64`. -/
def magnitude : ℕ → ℕ → Bytes
  | 0, _ => []
  | fuel + 1, m => if m = 0 then [] else UInt8.ofNat m :: magnitude fuel (m / 256)

/-- `push_number`: a minimally encoded script number, pushed. -/
def pushNumber (value : ℤ) : Bytes :=
  let bytes := magnitude 8 value.natAbs
  pushBytes <| match bytes.getLast? with
    | none => bytes
    | some last =>
      if 0x80 ≤ last.toNat then bytes ++ [if value < 0 then 0x80 else 0]
      else if value < 0 then bytes.dropLast ++ [last + 0x80]
      else bytes

/-! What they push -/

lemma pushData_ok {data : Bytes} (h : data.length ≤ 65535) : ∃ bytes, pushData data = .ok bytes := by
  unfold pushData
  split_ifs
  all_goals exact ⟨_, rfl⟩

/-- A long enough push is read back. -/
lemma parses_pushData {data bytes : Bytes} (hsmall : Script.isSmall data = false)
    (h : pushData data = .ok bytes) : Script.Parses bytes [.op (.push data)] := by
  have hne : data.length ≠ 0 := by
    intro hzero
    rw [List.length_eq_zero_iff.mp hzero] at hsmall
    exact absurd hsmall (by decide)
  have htake : ∀ rest, Script.pushOf data.length (fun d => !Script.isSmall d) (data ++ rest) =
      some (.op (.push data), rest) := by
    intro rest
    rw [Script.pushOf, List.take_left, List.drop_left, if_pos]
    simp [hsmall]
  unfold pushData at h
  split_ifs at h with h75 h255 hmax
  · cases h
    refine Script.parses_one fun rest => ?_
    have hx : (UInt8.ofNat data.length).toNat = data.length := by simp; omega
    unfold Script.parseOne
    dsimp only
    rw [hx, if_neg hne, if_pos h75, htake]
  · cases h
    refine Script.parses_one fun rest => ?_
    have hx : (UInt8.ofNat data.length).toNat = data.length := by simp; omega
    unfold Script.parseOne
    dsimp only
    rw [if_neg (by decide), if_neg (by decide), if_pos (by decide)]
    show Script.pushOf (UInt8.ofNat data.length).toNat _ (data ++ rest) = _
    rw [hx, Script.pushOf, List.take_left, List.drop_left, if_pos]
    simp
    omega
  · cases h
    refine Script.parses_one fun rest => ?_
    have hx : fromLe (leBytes 2 data.length) = data.length := fromLe_leBytes_of_lt (by omega)
    unfold Script.parseOne
    dsimp only
    rw [if_neg (by decide), if_neg (by decide), if_neg (by decide), if_pos (by decide)]
    show Script.pushOf (fromLe (leBytes 2 data.length)) _ (data ++ rest) = _
    rw [hx, Script.pushOf, List.take_left, List.drop_left, if_pos]
    simp
    omega

/-- What `push_bytes` pushes. -/
lemma parses_pushBytes {data : Bytes} (h : data.length ≤ 65535) :
    Script.Parses (pushBytes data) [.op (.push data)] := by
  have hlong : Script.isSmall data = false →
      Script.Parses ((pushData data).toOption.getD []) [.op (.push data)] := by
    intro hsmall
    obtain ⟨bytes, hbytes⟩ := pushData_ok h
    rw [hbytes]
    exact parses_pushData hsmall hbytes
  match data with
  | [] => exact Script.parses_plain rfl
  | [n] =>
    rw [pushBytes]
    split_ifs with hnum hneg
    · -- `OP_1` to `OP_16`
      have hcode : (0x50 + n).toNat = 0x50 + n.toNat := by
        rw [UInt8.toNat_add]
        exact Nat.mod_eq_of_lt (show 80 + n.toNat < 256 by omega)
      have hback : 0x50 + n - 0x50 = n := by
        rw [UInt8.add_comm, UInt8.add_sub_cancel]
      refine Script.parses_plain ?_
      rw [List.mapM_cons, Script.plain, hcode, if_neg (by omega), if_pos (by omega), hback]
      rfl
    · rw [UInt8.toNat_inj.mp (show n.toNat = (0x81 : UInt8).toNat from hneg)]
      exact Script.parses_one fun rest => rfl
    · exact hlong (decide_eq_false (by omega))
  | x :: y :: rest => exact hlong rfl

lemma fromLe_magnitude {fuel m : ℕ} (h : m < 256 ^ fuel) : fromLe (magnitude fuel m) = m := by
  induction fuel generalizing m with
  | zero =>
    rw [pow_zero] at h
    simp [magnitude]
    omega
  | succ fuel ih =>
    rw [magnitude]
    split_ifs with hm
    · rw [hm, fromLe_nil]
    · have hdiv : m / 256 < 256 ^ fuel := Nat.div_lt_of_lt_mul (by rwa [← pow_succ'])
      rw [fromLe_cons, ih hdiv, UInt8.toNat_ofNat']
      omega

/-- The most significant byte of a magnitude is not zero. -/
lemma getLast?_magnitude {fuel m : ℕ} {last : UInt8} (hm : m < 256 ^ fuel)
    (h : (magnitude fuel m).getLast? = some last) : last.toNat ≠ 0 := by
  induction fuel generalizing m with
  | zero => cases h
  | succ fuel ih =>
    rw [magnitude] at h
    split_ifs at h with hzero
    · cases h
    · have hdiv : m / 256 < 256 ^ fuel := Nat.div_lt_of_lt_mul (by rwa [← pow_succ'])
      cases hrest : magnitude fuel (m / 256) with
      | nil =>
        have hback := fromLe_magnitude hdiv
        rw [hrest] at h hback
        obtain rfl : UInt8.ofNat m = last := by simpa using h
        rw [fromLe_nil] at hback
        rw [UInt8.toNat_ofNat']
        omega
      | cons x rest =>
        rw [hrest, List.getLast?_cons_cons, ← hrest] at h
        exact ih hdiv h

/-- `push_number` pushes the script number. -/
lemma pushNumber_eq {m : ℕ} (h : m < 2 ^ 63) : pushNumber m = pushBytes (Script.num m) := by
  have hlt : m < 256 ^ 8 := h.trans (by norm_num)
  have hpos : ¬ (m : ℤ) < 0 := by omega
  have hback := fromLe_magnitude hlt
  unfold pushNumber
  rw [Int.natAbs_natCast]
  cases hlast : (magnitude 8 m).getLast? with
  | none =>
    rw [List.getLast?_eq_none_iff.mp hlast] at hback ⊢
    rw [← hback]
    rfl
  | some last =>
    have hne := getLast?_magnitude hlt hlast
    obtain ⟨init, hinit⟩ := List.getLast?_eq_some_iff.mp hlast
    rw [hinit] at hback ⊢
    rw [← hback, Script.num_fromLe init hne]
    simp only [hback, if_neg hpos, List.getLast?_concat]

/-! ## Deployments -/

/-- `parse_txid_display`. -/
def parseTxidDisplay (txid : List Char) : Except String Hash :=
  let txid := Text.trim txid
  match (Text.hexDecode txid).bind (ByteVec.ofBytes? 32) with
  | some bytes => .ok bytes
  | none => .error "transaction id must be exactly 64 hexadecimal characters"

/-- `Contract`. -/
inductive Contract where
  | powMineStatefulV1
deriving DecidableEq

/-- `Deployment`: a category, in display order, and the constructor values. -/
structure Deployment where
  network : MiningNetwork
  contract : Contract
  category : Hash
  reward : UInt64
  minDifficulty : UInt8
  maxDifficulty : UInt8
deriving DecidableEq

/-- `MAINNET_REWARD`. -/
def mainnetReward : UInt64 := 60000000

/-- `MAINNET_MIN_DIFFICULTY`. -/
def mainnetMinDifficulty : UInt8 := 3

/-- `MAINNET_MAX_DIFFICULTY`. -/
def mainnetMaxDifficulty : UInt8 := 4

namespace Deployment

/-- `Deployment::mainnet`: the published deployment. -/
def mainnet : Deployment :=
  ⟨.mainnet, .powMineStatefulV1,
    Hash.ofHex 0x821f86ed21c38043500d7364fa73108cce8990baf95c4a0925fc44abfc27f8c7,
    mainnetReward, mainnetMinDifficulty, mainnetMaxDifficulty⟩

/-- `Deployment::chipnet`. -/
def chipnet : Deployment :=
  ⟨.chipnet, .powMineStatefulV1,
    Hash.ofHex 0x39629630f3f5ba91c6e656e7b79c2c8de2fc6f776bfe085e1b7eaf70aa8a5e76,
    mainnetReward, mainnetMinDifficulty, mainnetMaxDifficulty⟩

/-- `Deployment::select`: the published deployment, or one the miner names. -/
def select (network : MiningNetwork) (category : Option (List Char)) (reward : Option UInt64)
    (minDifficulty maxDifficulty : Option UInt8) : Except String Deployment :=
  if category.isNone ∧ reward.isNone ∧ minDifficulty.isNone ∧ maxDifficulty.isNone then
    .ok (match network with
      | .mainnet => mainnet
      | .chipnet => chipnet)
  else match category with
  | none => .error "--electric-category is needed with other contract values"
  | some category =>
    match parseTxidDisplay category with
    | .error _ => .error "--electric-category must be 64 hexadecimal characters"
    | .ok category =>
      let deployment : Deployment :=
        ⟨network, .powMineStatefulV1, category, reward.getD mainnetReward,
          minDifficulty.getD mainnetMinDifficulty, maxDifficulty.getD mainnetMaxDifficulty⟩
      if network = .mainnet ∧ deployment.category = mainnet.category ∧ deployment ≠ mainnet then
        .error "the published mainnet category has other constructor values"
      else if deployment.minDifficulty.toNat = 0 ∨
          deployment.maxDifficulty.toNat < deployment.minDifficulty.toNat ∨
          32 < deployment.maxDifficulty.toNat ∨ deployment.reward.toNat = 0 then
        .error "ELECTRIC difficulty must be 1 to 32 bytes, minimum first"
      else .ok deployment

/-- The deployments `select` accepts. -/
structure Valid (d : Deployment) : Prop where
  min_pos : 0 < d.minDifficulty.toNat
  min_le : d.minDifficulty.toNat ≤ d.maxDifficulty.toNat
  max_le : d.maxDifficulty.toNat ≤ 32
  reward_pos : 0 < d.reward.toNat

lemma valid_mainnet : mainnet.Valid := ⟨by decide, by decide, by decide, by decide⟩

lemma valid_chipnet : chipnet.Valid := ⟨by decide, by decide, by decide, by decide⟩

lemma valid_of_select {network : MiningNetwork} {category : Option (List Char)}
    {reward : Option UInt64} {minDifficulty maxDifficulty : Option UInt8} {d : Deployment}
    (h : select network category reward minDifficulty maxDifficulty = .ok d) : d.Valid := by
  unfold select at h
  split_ifs at h with hdefault
  · cases h
    cases network
    · exact valid_mainnet
    · exact valid_chipnet
  · cases category with
    | none => cases h
    | some category =>
      cases hparse : parseTxidDisplay category with
      | error _ => simp only [hparse] at h; cases h
      | ok category =>
        simp only [hparse] at h
        split_ifs at h with hmainnet hbounds
        cases h
        simp only [not_or, Nat.not_lt] at hbounds
        obtain ⟨hmin, hle, hmax, hreward⟩ := hbounds
        exact ⟨Nat.pos_of_ne_zero hmin, hle, hmax, Nat.pos_of_ne_zero hreward⟩

/-- `category_le`: the category as it sits in transactions. -/
def categoryLe (d : Deployment) : Hash := ⟨d.category.bytes.reverse, by simp⟩

/-- `POW_MINE_STATEFUL_V1_BODY_HEX`: the covenant without its constructor arguments. -/
def powMineStatefulV1BodyHex : String :=
  "547a82011488c5b175c0009d00ce5279517e8800cf768277609d76517f758178" ++
  "517f77547f75817b557f77547f758178548054797e597a7eaa53797f75005479" ++
  "8088c5765379a269537978547aa0635779776753798b77765979a06358797768" ++
  "6851807c54807e7c8b54807e07000000000000007e0376a914537a7e0288ac7e" ++
  "00cd8800d153798800d354799d00cc02e8039d51cd00c78851d1537a517e8851" ++
  "d28851d300d0537a949d51cc02e803a269c4529cc4539c9b69c4539c6352d100" ++
  "88686d7551"

/-- `redeem_script`: the constructor arguments in reverse, then the body. -/
def redeemScript (d : Deployment) : Bytes :=
  let body := match d.contract with
    | .powMineStatefulV1 => (Text.hexDecode powMineStatefulV1BodyHex.toList).getD []
  pushNumber d.maxDifficulty.toNat ++ pushNumber d.minDifficulty.toNat ++
    pushNumber d.reward.toInt64.toInt ++ pushBytes d.categoryLe.bytes ++ body

end Deployment

/-- `p2pkh`. -/
def p2pkh (pkh : ByteVec 20) : Bytes := [0x76, 0xa9, 0x14] ++ pkh.bytes ++ [0x88, 0xac]

/-- `p2sh32`. -/
def p2sh32 [Hasher] (redeem : Bytes) : Bytes := [0xaa, 0x20] ++ (doubleSha256 redeem).bytes ++ [0x87]

/-- `Deployment::locking_bytecode`. -/
def Deployment.lockingBytecode [Hasher] (d : Deployment) : Bytes := p2sh32 d.redeemScript

/-! ## The baton's state -/

/-- `State`: what the baton's 16-byte commitment says. -/
structure State where
  difficulty : UInt8
  lastHeight : UInt32
  mineCount : UInt32
deriving DecidableEq

namespace State

/-- `State::decode`. -/
def decode (commitment : Bytes) : Except String State :=
  if commitment.length ≠ 16 then .error "an ELECTRIC baton commitment is 16 bytes"
  else .ok ⟨commitment.headD 0, u32OfLe (slice commitment 1 5), u32OfLe (slice commitment 5 9)⟩

/-- `State::encode`. -/
def encode (s : State) : Bytes :=
  s.difficulty :: u32Le s.lastHeight ++ u32Le s.mineCount ++ List.replicate 7 0

/-- `State::next`: the state a claim with this locktime leaves. -/
def next (s : State) (locktime : UInt32) (d : Deployment) : Except String State :=
  if locktime < s.lastHeight then
    .error "a claim's locktime cannot be below the baton's height"
  else
    let difficulty := if s.lastHeight < locktime then d.minDifficulty
      -- `saturating_add(1)`, then `min`
      else UInt8.ofNat (min (min (s.difficulty.toNat + 1) 255) d.maxDifficulty.toNat)
    .ok ⟨difficulty, locktime, s.mineCount + 1⟩

end State

/-- `claim_locktime`: the locktime of the claim a restricted pot pays for at this tip. -/
def claimLocktime (s : State) (tip : UInt32) (d : Deployment) : Option UInt32 :=
  if s.lastHeight < tip ∨ tip = s.lastHeight ∧ s.difficulty = d.minDifficulty then some tip else none

/-- `preimage`: the bytes the contract hashes.  The contract takes a nonce of any length. -/
def preimage (lastHeight : UInt32) (pkh : ByteVec 20) (nonce : Bytes) : Bytes :=
  u32Le lastHeight ++ pkh.bytes ++ nonce

/-- `meets`: whether the first `difficulty` bytes of a hash are zero. -/
def meets (hash : Hash) (difficulty : UInt8) : Bool :=
  decide (difficulty.toNat ≤ hash.bytes.length) &&
    (hash.bytes.take difficulty.toNat).all fun b => b == 0

end Pickaxe.Electric
