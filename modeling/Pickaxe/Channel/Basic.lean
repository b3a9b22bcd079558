/-
# Channels

A channel is one device's work: the job it mines, the older jobs on the same parent that
still take shares, and the hashes each job has accepted.  The operations are those of the
source; where one may fail after it has already written something, it gives its result and
the channel it leaves.

Vardiff's counters are left out: what they decide is a new wanted target, which `retarget`
takes as an argument.  The random bytes of a merge-mined job are an argument too.
-/
import Pickaxe.Lib.OrdMap
import Pickaxe.Merge.Disclosure
import Pickaxe.Template
import Mathlib.Data.Finset.Card

namespace Pickaxe

open Lib Merge Jd

/-- `MAX_SHARES_PER_JOB`. -/
def maxSharesPerJob : ℕ := 16384

/-- `MAX_ACTIVE_JOBS`. -/
def maxActiveJobs : ℕ := 8

/-- `TOKEN_FLOOR_CAP`: how many times easier than vardiff's target the token floor may be. -/
def tokenFloorCap : UInt8 := 15

inductive ChannelKind where
  /-- The server fills the whole extranonce. -/
  | standard
  /-- The device rolls the end of the extranonce. -/
  | extended
deriving DecidableEq

/-- Whose job a channel mines. -/
inductive JobKind where
  /-- The pool's own, from its template. -/
  | own
  /-- A Job Declaration client's, with its start time. -/
  | custom (minNtime : UInt32)
deriving DecidableEq

/-- One job of a channel. -/
structure Job where
  id : UInt32
  generation : UInt64
  template : BchTemplate
  standardCoinbase : Coinbase
  parts : CoinbaseParts
  /-- The share target it was issued with. -/
  target : Hash
  payout : BchPayout
  /-- Its merge-mining, if any. -/
  aux : Option AuxJob
  kind : JobKind
deriving DecidableEq

structure Share where
  channelId : UInt32
  jobId : UInt32
  sequence : UInt32
  version : UInt32
  time : UInt32
  nonce : UInt32
  extranonce : Bytes
deriving DecidableEq

/-- A share as the pool of a Job Declaration job takes it. -/
structure ForwardShare where
  donation : Bool
  serial : UInt64
  version : UInt32
  ntime : UInt32
  nonce : UInt32
  extranonce : Bytes
  hash : Hash
  block : Bool
deriving DecidableEq

/-- An accepted share. -/
structure ValidatedShare where
  generation : UInt64
  template : BchTemplate
  coinbase : Coinbase
  header : ByteVec 80
  block : Bool
  shareTarget : Hash
  payout : BchPayout
  miner : List Char
  operator : Option (List Char)
  hash : Hash
  aux : Option AuxJob
  /-- The indices of the aux entries it wins. -/
  tokenWins : List UInt16
  merklePath : List Hash
  forward : Option ForwardShare
  headerWin : Bool
deriving DecidableEq

structure Channel where
  id : UInt32
  kind : ChannelKind
  /-- The share target the device was last told. -/
  target : Hash
  /-- The session salt and the channel id, or the channel's lane. -/
  extranoncePrefix : Bytes
  network : MiningNetwork
  payout : List Char
  /-- A public pool operator's fee address. -/
  operator : Option (List Char)
  job : Option Job
  /-- Older jobs on the same parent, the oldest first. -/
  previous : List Job
  sequence : Option UInt32
  /-- The hashes accepted on each live job. -/
  seen : OrdMap UInt32 (Finset Hash)
  accepted : UInt64
  rejected : UInt64
  /-- The share target vardiff wants. -/
  desired : Hash
  /-- The target without the merge-mined token floor. -/
  vardiffTarget : Hash
  /-- A Job Declaration client's channel, which mines only custom jobs. -/
  customOnly : Bool
  /-- How many extranonce bytes each share rolls. -/
  rolled : ℕ
  /-- A Job Declaration lane in the compact layout. -/
  compact : Bool
  /-- A public pool miner's own donation choice. -/
  donation : Option BchDonation
  tokenRefusal : Option String
deriving DecidableEq

/-- `u64::saturating_add(1)`. -/
def saturatingSucc (n : UInt64) : UInt64 := if n = 0xffffffffffffffff then n else n + 1

/-- `u32::saturating_add`. -/
def saturatingAdd (a b : UInt32) : UInt32 := UInt32.ofNat (min (a.toNat + b.toNat) (2 ^ 32 - 1))

/-! ## Targets -/

/-- One byte of `times`, from the product's bytes so far and the carry. -/
def timesStep (factor : UInt8) (acc : Bytes × UInt16) (byte : UInt8) : Bytes × UInt16 :=
  let value := byte.toUInt16 * factor.toUInt16 + acc.2
  (acc.1 ++ [value.toUInt8], value >>> 8)

lemma length_foldl_timesStep (factor : UInt8) (bytes : Bytes) (acc : Bytes × UInt16) :
    (bytes.foldl (timesStep factor) acc).1.length = acc.1.length + bytes.length := by
  induction bytes generalizing acc with
  | nil => rfl
  | cons byte rest ih =>
    rw [List.foldl_cons, ih]
    simp only [timesStep, List.length_append, List.length_cons, List.length_nil]
    omega

/-- `times`: a little-endian target times a factor, at most the easiest target. -/
def times (target : Hash) (factor : UInt8) : Hash :=
  let result := target.bytes.foldl (timesStep factor) ([], 0)
  if result.2 = 0 then ⟨result.1, by simp [result, length_foldl_timesStep]⟩
  else ⟨List.replicate 32 0xff, rfl⟩

/-- `token_floor`: the easiest token target, but at most `TOKEN_FLOOR_CAP` times easier than
vardiff's. -/
def tokenFloor (vardiff easiest : Hash) : Hash :=
  let cap := times vardiff tokenFloorCap
  if meetsTarget easiest cap then easiest else cap

namespace Channel

/-! ## Opening -/

/-- `Channel::new`. -/
def new (id : UInt32) (kind : ChannelKind) (target : Hash) (sessionSalt : ByteVec 12)
    (network : MiningNetwork) (payout : List Char) : Except String Channel :=
  if target = ByteVec.zero 32 then .error "max-target-out-of-range"
  else match Config.validateCoinbaseAddress network payout with
    | .error _ => .error "invalid payout for selected network"
    | .ok payout => .ok
      { id := id
        kind := kind
        target := target
        extranoncePrefix := sessionSalt.bytes ++ u32Le id
        network := network
        payout := payout
        operator := none
        job := none
        previous := []
        sequence := none
        seen := OrdMap.empty
        accepted := 0
        rejected := 0
        desired := target
        vardiffTarget := target
        customOnly := false
        rolled := deviceExtranonceSize
        compact := false
        donation := none
        tokenRefusal := none }

/-- `Channel::set_lane`: the extranonce prefix is the lane, its low two bytes in the compact
layout. -/
def setLane (c : Channel) (lane : UInt32) (compact : Bool) : Channel :=
  if compact then
    { c with
      compact := true
      extranoncePrefix := (u32Le lane).take 2
      rolled := compactDeviceExtranonce }
  else
    { c with
      compact := false
      extranoncePrefix := u32Le lane
      rolled := deviceExtranonceSize }

/-- `Channel::set_custom_only`: a Job Declaration client's channel at this pool. -/
def setCustomOnly (c : Channel) (rolled : ℕ) : Channel :=
  { c with customOnly := true, rolled := rolled }

/-- `Channel::set_operator`. -/
def setOperator (c : Channel) (operator : Option (List Char)) : Except String Channel :=
  match operator with
  | none => .ok { c with operator := none }
  | some operator =>
    match Config.validateCoinbaseAddress c.network operator with
    | .error _ => .error "invalid pool fee address for selected network"
    | .ok operator => .ok { c with operator := some operator }

/-- `Channel::set_donation`. -/
def setDonation (c : Channel) (donation : Option BchDonation) : Channel :=
  { c with donation := donation }

/-! ## Installing jobs -/

/-- The jobs shares may name, the oldest first. -/
def live (c : Channel) : List Job := c.previous ++ c.job.toList

/-- Whether a live job has this id. -/
def holds (c : Channel) (id : UInt32) : Bool :=
  (match c.job with
    | none => false
    | some job => job.id == id) || c.previous.any fun job => job.id == id

/-- The loop that drops the oldest jobs and what they have seen. -/
def expire : List Job → OrdMap UInt32 (Finset Hash) → List Job × OrdMap UInt32 (Finset Hash)
  | [], seen => ([], seen)
  | expired :: rest, seen =>
    if (expired :: rest).length ≥ maxActiveJobs then expire rest (seen.erase expired.id)
    else (expired :: rest, seen)

/-- `Channel::retain_previous`: the current job joins the older ones when the next template
has its parent and bits; otherwise every preceding job is revoked. -/
def retainPrevious (c : Channel) (template : BchTemplate) : Channel :=
  match c.job with
  | none => c
  | some previous =>
    if previous.template.previousHash = template.previousHash ∧
        previous.template.bits = template.bits then
      let kept := expire (c.previous ++ [previous]) c.seen
      { c with job := none, previous := kept.1, seen := kept.2 }
    else { c with job := none, previous := [], seen := OrdMap.empty }

/-- A job's payout policy on a channel whose miner chose a donation. -/
def adjustPayout (c : Channel) (payout : BchPayout) : BchPayout :=
  match c.donation with
  | none => payout
  | some choice =>
    if payout.donation = choice then payout
    else
      let donationWork := payout.donationWork && choice.bps != 0
      { payout with
        donation := choice
        donationWork := donationWork
        tokenDonationWork := payout.tokenDonationWork.map fun _ => donationWork
        tokenFeeWork := payout.tokenFeeWork.map fun _ => payout.feeWork }

/-- The bytes a template puts before the channel's prefix: the pool channel's prefix, the
job id and the pad. -/
def jobBytes (template : BchTemplate) (id : UInt32) : Bytes :=
  match template.jd with
  | none => u32Le id
  | some plan => plan.upstreamPrefix ++ (u32Le id).take plan.layout.1 ++ plan.pad

/-- The whole extranonce of a standard channel's job.  A job that commits a token root gets
fresh random bytes: the device's under Job Declaration, the session salt's otherwise. -/
def standardExtranonce (c : Channel) (random : ℕ → UInt8) (id : UInt32) (template : BchTemplate)
    (fresh : Bool) : Bytes :=
  let fill := fun (n : ℕ) => (List.range n).map random
  jobBytes template id ++
    if template.jd.isSome ∧ c.kind = .standard then
      c.extranoncePrefix ++ if fresh then fill c.rolled else List.replicate c.rolled 0
    else if fresh ∧ c.extranoncePrefix.length > 4 then
      let salt := c.extranoncePrefix.length - 4
      fill salt ++ c.extranoncePrefix.drop salt
    else c.extranoncePrefix

section Install

variable [Hasher]

/-- The coinbase of a standard channel's job and the parts of an extended one's. -/
def coinbases (c : Channel) (random : ℕ → UInt8) (id : UInt32) (template : BchTemplate)
    (payout : BchPayout) (aux : Option AuxJob) : Except String (Coinbase × CoinbaseParts) := do
  let fresh := c.kind == .standard && match aux with
    | none => false
    | some aux => !aux.isEmpty
  let bytes := jobBytes template id
  let output := aux.map fun aux => aux.output
  let standardCoinbase ← template.coinbaseWithAux c.network c.payout c.operator
    (c.standardExtranonce random id template fresh) payout output
  let parts ← template.coinbasePartsWithAux c.network c.payout c.operator
    (bytes.length + c.extranoncePrefix.length + c.rolled) payout output
  .ok (standardCoinbase, { parts with pre := parts.pre ++ bytes })

/-- `own_root`: both coinbases a job's devices hash carry its commitment. -/
def ownRoot (aux : AuxJob) (standard : Bytes) (parts : CoinbaseParts) (pre : Bytes)
    (rolled : ℕ) : Except String Unit := do
  checkOwnRoot standard aux.commitment
  checkOwnRoot (parts.pre ++ pre ++ List.replicate rolled 0 ++ parts.suffix) aux.commitment

/-- The audit rule, on a public pool's channel. -/
def audit (c : Channel) (aux : AuxJob) : Except String Unit :=
  match c.operator with
  | none => .ok ()
  | some operator =>
    match Payout.scripts c.network c.payout (some operator) with
    | .error _ => .error "a public pool miner's payout has no script"
    | .ok scripts => auditPublic (Disclosure.fromJob aux) (scripts.getD 0 []) (scripts.getD 1 [])
        (scripts.getD 2 [])

/-- A job's merge-mining after its checks, and why it was refused if it was. -/
def checkedAux (c : Channel) (aux : Option AuxJob) (standard : Coinbase) (parts : CoinbaseParts) :
    Option AuxJob × Option String :=
  match aux with
  | none => (none, none)
  | some aux =>
    match (do ownRoot aux standard.bytes parts c.extranoncePrefix c.rolled; c.audit aux :
        Except String Unit) with
    | .error reason => (none, some reason)
    | .ok () => (some aux, none)

omit [Hasher] in
/-- Notes why a job's tokens were refused. -/
def refuse (c : Channel) (reason : Option String) : Channel :=
  match reason with
  | none => c
  | some reason => { c with tokenRefusal := some reason }

/-- `Channel::install_with_payout`. -/
def installWithPayout (c : Channel) (random : ℕ → UInt8) (id : UInt32) (generation : UInt64)
    (template : BchTemplate) (payout : BchPayout) : Except String Job × Channel :=
  let payout := c.adjustPayout payout
  if c.holds id then (.error "job identifier already in use", c)
  else if template.jd.any fun plan => plan.compact != c.compact then
    (.error "the pool's extranonce layout changed; reconnect the device", c)
  else match template.auxJob c.network c.payout c.operator payout with
    | .error error => (.error error, c)
    | .ok aux =>
      let c := c.refuse template.tokensRefused
      match c.coinbases random id template payout aux with
      | .error error => (.error error, c)
      | .ok (standardCoinbase, parts) =>
        let checked := c.checkedAux aux standardCoinbase parts
        let c := c.refuse checked.2
        let job : Job :=
          { id := id
            generation := generation
            template := template
            standardCoinbase := standardCoinbase
            parts := parts
            target := c.target
            payout := payout
            aux := checked.1
            kind := .own }
        (.ok job, { c.retainPrevious template with job := some job })

/-- The coinbase around a channel's prefix and a share's extranonce, folded up the job's
merkle path. -/
def rebuild (parts : CoinbaseParts) (pre extranonce : Bytes) : Coinbase :=
  let bytes := parts.pre ++ pre ++ extranonce ++ parts.suffix
  ⟨bytes, foldPath (doubleSha256 bytes) parts.merklePath⟩

/-- `Channel::install_custom`. -/
def installCustom (c : Channel) (id : UInt32) (template : BchTemplate) (parts : CoinbaseParts) :
    Except String Job × Channel :=
  if c.customOnly = false then (.error "only a Job Declaration channel takes custom jobs", c)
  else if c.holds id then (.error "job identifier already in use", c)
  else
    let job : Job :=
      { id := id
        generation := 0
        template := template
        standardCoinbase := rebuild parts c.extranoncePrefix (List.replicate c.rolled 0)
        parts := parts
        target := c.target
        payout := default
        aux := none
        kind := .custom template.minTime }
    (.ok job, { c.retainPrevious template with job := some job })

end Install

/-- `Channel::revoke`. -/
def revoke (c : Channel) : Channel := { c with job := none, previous := [], seen := OrdMap.empty }

/-! ## The device's target -/

/-- The target without the token floor: the wanted one, made easier while the block target is
easier, never easier than the device's maximum. -/
def plainTarget (c : Channel) (block maximum : Hash) : Hash :=
  let target := if meetsTarget c.desired block then block else c.desired
  if meetsTarget target maximum then target else maximum

/-- The target with the token floor. -/
def flooredTarget (target maximum : Hash) (tokens : Option Hash) : Hash :=
  match tokens with
  | none => target
  | some easiest =>
    let floor := tokenFloor target easiest
    if meetsTarget floor target then target
    else if meetsTarget floor maximum then floor
    else maximum

/-- `Channel::settle`: recomputes the target the device mines at; whether it changed. -/
def settle (c : Channel) (block : Hash) (tokens : Option Hash) (maximum : Hash) : Bool × Channel :=
  let plain := c.plainTarget block maximum
  let target := flooredTarget plain maximum tokens
  (target != c.target, { c with vardiffTarget := plain, target := target })

/-- `Channel::floor_for`: the token floor the device may mine at on a template. -/
def floorFor (c : Channel) (template : BchTemplate) : Option Hash :=
  if c.customOnly then none else template.tokens.map fun set => set.easiest

/-- `Channel::job_floor`: the current job's token floor, none when its tokens were refused. -/
def jobFloor (c : Channel) : Option Hash :=
  c.job.bind fun job => job.aux.bind fun _ => c.floorFor job.template

/-- `Channel::drop_token_floor`: settles back to the plain target, for the current job too. -/
def dropTokenFloor (c : Channel) (maximum : Hash) : Bool × Channel :=
  match c.job with
  | none => (false, c)
  | some job =>
    let settled := c.settle job.template.target none maximum
    (settled.1, { settled.2 with job := some { job with target := settled.2.target } })

/-- `Channel::retarget`, once vardiff wants the target `desired`. -/
def retarget (c : Channel) (desired : Option Hash) (maximum : Hash) : Option Hash × Channel :=
  match c.job, desired with
  | some job, some desired =>
    let settled := { c with desired := desired }.settle job.template.target c.jobFloor maximum
    (if settled.1 then some settled.2.target else none, settled.2)
  | _, _ => (none, c)

/-- `Channel::take_token_refusal`. -/
def takeTokenRefusal (c : Channel) : Option String × Channel :=
  (c.tokenRefusal, { c with tokenRefusal := none })

end Channel

end Pickaxe
