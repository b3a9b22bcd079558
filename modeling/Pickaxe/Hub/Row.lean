/-
# The claim of one win

A row of the proof journal is one win and its claim.  `advanceClaim` is the claimer's next step
for a row: a proven win whose delay has passed is built against its thread's vault and
broadcast, a broadcast claim is followed until it is confirmed, stale or gone.  Vaults, tip,
time and the node's answers are inputs of a step, so a run is any sequence of them.
-/
import Pickaxe.Safa.Build

namespace Pickaxe.Hub

open Lib Merge Safa

/-- `CLAIM_ATTEMPTS`: a passing failure is tried again, at most this often. -/
def claimAttempts : ℕ := 10

/-- A row's status. -/
inductive Status where
  | proven
  | broadcast
  | confirmed
  | stale
  | failed
  | other
deriving DecidableEq

/-- A claim that is over. -/
def Status.terminal : Status → Bool
  | confirmed | stale | failed => true
  | proven | broadcast | other => false

/-- A row of the journal: its members, as far as they are there.  Hashes, scripts and the proof
are hexadecimal text. -/
structure Row where
  category : List Char
  state : List Char
  status : Status
  height : Option ℕ
  broadcastAfter : Option ℕ
  split : Option (List Char)
  proof : Option (List Char)
  commitment : Option (List Char)
  payoutScript : Option (List Char)
  donationScript : Option (List Char)
  feeScript : Option (List Char)
  attempts : Option ℕ
  nextAttempt : Option ℕ
  txid : Option (List Char)
  vaultOutpoint : Option (List Char)
  claimedAt : Option ℕ
  feeSats : Option ℕ
  error : Option String
deriving DecidableEq

/-- The node's answers in one step. -/
structure Chain where
  /-- `Chain::broadcast`. -/
  broadcast : Bytes → Except String Unit
  /-- `Chain::known`: whether a transaction is in the mempool or a block. -/
  known : List Char → Except String Bool

/-- What a step meets. -/
structure Tick where
  vaults : List Vault
  tip : UInt32
  now : ℕ
  chain : Chain

namespace Row

/-- The tries so far. -/
def tries (row : Row) : ℕ := row.attempts.getD 0

/-- `retry`: a passing failure is tried again later, at most 10 times. -/
def retry (row : Row) (now : ℕ) (error : String) : Row :=
  let attempts := row.tries + 1
  let row := { row with attempts := some attempts, error := some error }
  if claimAttempts ≤ attempts then { row with status := .failed }
  else
    { row with
      status := .proven
      nextAttempt := some (now + min (30 * 2 ^ min attempts 7) 3600) }

/-- The thread of the win. -/
def thread (row : Row) : Option ThreadState := do
  let bytes ← Text.hexDecode (← row.commitment)
  return ThreadState.parse (← ByteVec.ofBytes? 16 bytes)

/-- The vault of the win's thread, as Fulcrum lists it. -/
def vault (row : Row) (vaults : List Vault) : Option Vault := do
  let state ← row.thread
  vaults.find? fun vault => vault.thread = state.thread

/-- A script or the proof of a row. -/
def script (text : Option (List Char)) : Option Bytes := text.bind Text.hexDecode

/-- The split a claim reveals; none when its preimage is unreadable. -/
def readSplit (row : Row) : Option Split :=
  match row.split with
  | none => some Split.none
  | some text => do (Split.parse (← Text.hexDecode text)).toOption

/-- A win that ends. -/
def finish (row : Row) (status : Status) (error : String) : Row :=
  { row with status := status, error := some error }

end Row

/-- A vault's txid, in display order. -/
def vaultTxid (vault : Vault) : List Char := Text.hexEncode vault.outpoint.txid.bytes.reverse

/-- `outpoint_text`: a vault's outpoint as `txid:vout`. -/
def outpointText (vault : Vault) : List Char :=
  vaultTxid vault ++ ':' :: (toString vault.outpoint.vout.toNat).toList

/-- A sent claim that is gone is sent again: without counting a try when a trade moved the
vault's outpoint, as a retry when the vault is where the claim found it. -/
def Row.again (row : Row) (vault : Vault) (now : ℕ) : Row :=
  if row.vaultOutpoint ≠ some (outpointText vault) then
    { row with
      status := .proven
      nextAttempt := some now
      error := some "a trade moved the vault; the claim is built again" }
  else
    let retried := row.retry now "the claim left the mempool; it is sent again"
    if retried.status = .proven then { retried with nextAttempt := some now } else retried

variable [Hasher]

namespace Row

/-- The terms of a row's claim. -/
def terms (row : Row) (split : Split) : ClaimTerms :=
  ⟨(script row.payoutScript).getD [], split, script row.donationScript, script row.feeScript⟩

/-- A built claim is broadcast: the row, and the bytes that went out. -/
def send (row : Row) (vault : Vault) (claim : Claim) (now : ℕ) (chain : Chain) :
    Row × Option Bytes :=
  match chain.broadcast claim.raw with
  | .ok () =>
    ({ row with
        status := .broadcast
        txid := some claim.txid
        vaultOutpoint := some (outpointText vault)
        claimedAt := some now
        feeSats := some claim.plan.fee
        error := none }, some claim.raw)
  | .error error => (row.retry now ("the claim was not accepted: " ++ error), some claim.raw)

/-- `advance_claim`, of a proven win: the row, and the bytes it broadcast. -/
def advanceProven (d : Deployment) (row : Row) (tick : Tick) : Row × Option Bytes :=
  let due := max (row.broadcastAfter.getD 0) (row.nextAttempt.getD 0)
  if tick.now < due ∨ tick.tip.toNat < row.height.getD (2 ^ 64 - 1) then (row, none)
  else if row.thread = none then (row.finish .failed "the win's thread is unknown", none)
  else match row.vault tick.vaults with
    | none => (row.retry tick.now "Fulcrum does not list the thread's vault", none)
    | some vault =>
      if Text.hexEncode vault.stateHash.bytes ≠ row.state then
        (row.finish .stale "another claim moved the thread first", none)
      else match row.readSplit with
        | none => (row.finish .failed "the win's split preimage is unreadable", none)
        | some split =>
          match buildClaim d vault ((script row.proof).getD []) (row.terms split) 1 none with
          | .error error => (row.finish .failed error, none)
          | .ok claim => row.send vault claim tick.now tick.chain

/-- `advance_claim`, of a broadcast claim. -/
def advanceBroadcast (row : Row) (tick : Tick) : Row :=
  let txid := row.txid.getD []
  match row.vault tick.vaults with
  | none => row
  | some vault =>
    if vaultTxid vault = txid then
      if vault.confirmed then { row with status := .confirmed } else row
    else if Text.hexEncode vault.stateHash.bytes = row.state then
      match tick.chain.known txid with
      | .error _ => row
      | .ok true => row
      | .ok false => row.again vault tick.now
    else match tick.chain.known txid with
      | .error _ => row
      | .ok true => { row with status := .confirmed }
      | .ok false => row.finish .stale "another claim moved the thread first"

/-- `advance_claim`: one row's next step, and the bytes it broadcast. -/
def advanceClaim (d : Deployment) (row : Row) (tick : Tick) : Row × Option Bytes :=
  match row.status with
  | .proven => row.advanceProven d tick
  | .broadcast => (row.advanceBroadcast tick, none)
  | .confirmed | .stale | .failed | .other => (row, none)

/-! ## What a step does -/

/-- When a claim goes out. -/
structure Sends (d : Deployment) (row : Row) (tick : Tick) (raw : Bytes) : Prop where
  status : row.status = .proven
  due : row.broadcastAfter.getD 0 ≤ tick.now ∧ row.nextAttempt.getD 0 ≤ tick.now
  height : ∃ height, row.height = some height ∧ height ≤ tick.tip.toNat
  vault : ∃ vault ∈ tick.vaults, Text.hexEncode vault.stateHash.bytes = row.state ∧
    checkClaim d vault raw = .ok ()

omit [Hasher] in
/-- A retried row has one try more and is proven, or has had them all. -/
lemma retry_cases (row : Row) (now : ℕ) (error : String) :
    (row.retry now error).tries = row.tries + 1 ∧ (row.retry now error).txid = row.txid ∧
      (((row.retry now error).status = .proven ∧ row.tries + 1 < claimAttempts) ∨
        ((row.retry now error).status = .failed ∧ claimAttempts ≤ row.tries + 1)) := by
  by_cases h : claimAttempts ≤ row.tries + 1
  · have hretry : row.retry now error = { row with
        attempts := some (row.tries + 1), error := some error, status := .failed } := if_pos h
    rw [hretry]
    exact ⟨rfl, rfl, .inr ⟨rfl, h⟩⟩
  · have hretry : row.retry now error = { row with
        attempts := some (row.tries + 1)
        error := some error
        status := .proven
        nextAttempt := some (now + min (30 * 2 ^ min (row.tries + 1) 7) 3600) } := if_neg h
    rw [hretry]
    exact ⟨rfl, rfl, .inl ⟨rfl, Nat.not_le.mp h⟩⟩

/-- What a step can do to a row, with the bytes it broadcasts. -/
inductive Moves (row : Row) : Row → Option Bytes → Prop where
  /-- It waits. -/
  | stay : Moves row row none
  /-- The row is over. -/
  | finish {row'} (hterminal : row'.status.terminal = true) (htries : row'.tries = row.tries) :
      Moves row row' none
  /-- One try more: a vault not listed, a claim refused or gone. -/
  | retry {row' out} (hfrom : row.status = .proven ∨ (row.status = .broadcast ∧ out = none))
      (htries : row'.tries = row.tries + 1)
      (hstatus : (row'.status = .proven ∧ row'.tries < claimAttempts) ∨ row'.status = .failed) :
      Moves row row' out
  /-- The claim is accepted. -/
  | sent {row' raw} (hfrom : row.status = .proven) (hstatus : row'.status = .broadcast)
      (htxid : row'.txid.isSome = true) (htries : row'.tries = row.tries) :
      Moves row row' (some raw)
  /-- A trade moved the vault. -/
  | rebuild {row'} (hfrom : row.status = .broadcast) (hstatus : row'.status = .proven)
      (htries : row'.tries = row.tries) : Moves row row' none

omit [Hasher] in
/-- A retry, from wherever it is made. -/
lemma moves_retry {row : Row} {out : Option Bytes} (now : ℕ) (error : String)
    (hfrom : row.status = .proven ∨ (row.status = .broadcast ∧ out = none)) :
    Moves row (row.retry now error) out := by
  obtain ⟨htries, -, hcases⟩ := retry_cases row now error
  refine .retry hfrom htries ?_
  rcases hcases with ⟨hproven, hlt⟩ | ⟨hfailed, -⟩
  · exact .inl ⟨hproven, htries.trans_lt hlt⟩
  · exact .inr hfailed

lemma moves_advanceProven (d : Deployment) {row : Row} (hstatus : row.status = .proven)
    (tick : Tick) : Moves row (row.advanceProven d tick).1 (row.advanceProven d tick).2 := by
  rw [advanceProven]
  split_ifs
  · exact .stay
  · exact .finish rfl rfl
  · split
    · exact moves_retry _ _ (.inl hstatus)
    · split_ifs
      · exact .finish rfl rfl
      · split
        · exact .finish rfl rfl
        · split
          · exact .finish rfl rfl
          · rw [send]
            split
            · exact .sent hstatus rfl rfl rfl
            · exact moves_retry _ _ (.inl hstatus)

/-- A step sends only when everything is in place. -/
lemma advanceProven_sends {d : Deployment} {row : Row} {tick : Tick} {raw : Bytes}
    (hstatus : row.status = .proven) (h : (row.advanceProven d tick).2 = some raw) :
    Sends d row tick raw := by
  rw [advanceProven] at h
  split_ifs at h with hwait hthread
  cases hvault : row.vault tick.vaults with
  | none =>
    rw [hvault] at h
    cases h
  | some vault =>
    rw [hvault] at h
    simp only at h
    split_ifs at h with hstate
    cases hsplit : row.readSplit with
    | none =>
      rw [hsplit] at h
      cases h
    | some split =>
      rw [hsplit] at h
      simp only at h
      cases hclaim : buildClaim d vault ((script row.proof).getD []) (row.terms split) 1 none with
      | error e =>
        rw [hclaim] at h
        cases h
      | ok claim =>
        rw [hclaim] at h
        have hraw : claim.raw = raw := by
          simp only [send] at h
          split at h <;> exact Option.some.inj h
        rw [not_or, Nat.not_lt, Nat.not_lt] at hwait
        have htip := tick.tip.toNat_lt
        refine ⟨hstatus, by omega, ?_, vault, ?_, not_not.mp hstate,
          hraw ▸ checkClaim_of_buildClaim hclaim⟩
        · cases hheight : row.height with
          | none =>
            rw [hheight, Option.getD_none] at hwait
            omega
          | some height =>
            rw [hheight] at hwait
            exact ⟨height, rfl, hwait.2⟩
        · obtain ⟨state, -, hfind⟩ := Option.bind_eq_some_iff.mp hvault
          exact List.mem_of_find?_eq_some hfind

omit [Hasher] in
lemma moves_again {row : Row} (hstatus : row.status = .broadcast) (vault : Vault) (now : ℕ) :
    Moves row (row.again vault now) none := by
  obtain ⟨htries, -, hcases⟩ := retry_cases row now "the claim left the mempool; it is sent again"
  simp only [again]
  split_ifs with hmoved hproven
  · exact .rebuild hstatus rfl rfl
  · refine .retry (.inr ⟨hstatus, rfl⟩) htries (.inl ⟨hproven, ?_⟩)
    rcases hcases with ⟨-, hlt⟩ | ⟨hfailed, -⟩
    · exact htries.trans_lt hlt
    · rw [hproven] at hfailed
      cases hfailed
  · exact moves_retry _ _ (.inr ⟨hstatus, rfl⟩)

lemma moves_advanceBroadcast {row : Row} (hstatus : row.status = .broadcast) (tick : Tick) :
    Moves row (row.advanceBroadcast tick) none := by
  rw [advanceBroadcast]
  cases hvault : row.vault tick.vaults with
  | none => exact .stay
  | some vault =>
    simp only
    split_ifs
    · exact .finish rfl rfl
    · exact .stay
    · split
      · exact .stay
      · exact .stay
      · exact moves_again hstatus vault tick.now
    · split
      · exact .stay
      · exact .finish rfl rfl
      · exact .finish rfl rfl

lemma advanceClaim_proven (d : Deployment) {row : Row} (h : row.status = .proven) (tick : Tick) :
    row.advanceClaim d tick = row.advanceProven d tick := by
  rw [advanceClaim, h]

lemma advanceClaim_broadcast (d : Deployment) {row : Row} (h : row.status = .broadcast)
    (tick : Tick) : row.advanceClaim d tick = (row.advanceBroadcast tick, none) := by
  rw [advanceClaim, h]

lemma advanceClaim_terminal (d : Deployment) {row : Row} (h : row.status.terminal = true)
    (tick : Tick) : row.advanceClaim d tick = (row, none) := by
  rw [advanceClaim]
  cases hstatus : row.status <;> simp_all [Status.terminal]

/-- Every step moves a row in one of these ways, and broadcasts only when all is in place. -/
lemma advanceClaim_spec (d : Deployment) (row : Row) (tick : Tick) :
    Moves row (row.advanceClaim d tick).1 (row.advanceClaim d tick).2 ∧
      ∀ raw, (row.advanceClaim d tick).2 = some raw → Sends d row tick raw := by
  cases hstatus : row.status with
  | proven =>
    rw [advanceClaim_proven d hstatus]
    exact ⟨moves_advanceProven d hstatus tick, fun raw => advanceProven_sends hstatus⟩
  | broadcast =>
    rw [advanceClaim_broadcast d hstatus]
    exact ⟨moves_advanceBroadcast hstatus tick, fun raw hraw => by cases hraw⟩
  | confirmed | stale | failed =>
    rw [advanceClaim_terminal d (by rw [hstatus]; rfl)]
    exact ⟨.stay, fun raw hraw => by cases hraw⟩
  | other =>
    rw [advanceClaim, hstatus]
    exact ⟨.stay, fun raw hraw => by cases hraw⟩

/-! ## Runs -/

/-- A trade rebuild: a broadcast claim is proven again without a try more. -/
def rebuilt (row row' : Row) : Bool :=
  row.status == .broadcast && row'.status == .proven && row'.tries == row.tries

/-- A row on its way, with the broadcasts made for it and the trade rebuilds. -/
structure Way where
  row : Row
  /-- The bytes that went out, each with the row and the tick they were sent on. -/
  sent : List (Row × Tick × Bytes)
  rebuilds : ℕ

/-- One step of a row on its way. -/
def Way.step (d : Deployment) (way : Way) (tick : Tick) : Way :=
  let next := way.row.advanceClaim d tick
  { row := next.1
    sent := way.sent ++ (next.2.map fun raw => (way.row, tick, raw)).toList
    rebuilds := way.rebuilds + if rebuilt way.row next.1 then 1 else 0 }

/-- A row's way over some ticks. -/
def Way.run (d : Deployment) (row : Row) (ticks : List Tick) : Way :=
  ticks.foldl (Way.step d) ⟨row, [], 0⟩

/-- What holds on every way.  A proven row has paid a try or a rebuild for each broadcast so far,
any other row for all but the last. -/
structure Way.Inv (d : Deployment) (way : Way) : Prop where
  sends : ∀ s ∈ way.sent, Sends d s.1 s.2.1 s.2.2
  txid : way.row.status = .broadcast → way.row.txid.isSome = true
  tries : way.row.tries ≤ claimAttempts
  paid : way.sent.length ≤ claimAttempts + way.rebuilds
  /-- While the row is open. -/
  proven : way.row.status = .proven →
    way.row.tries < claimAttempts ∧ way.sent.length ≤ way.row.tries + way.rebuilds
  broadcast : way.row.status = .broadcast →
    way.row.tries < claimAttempts ∧ way.sent.length ≤ way.row.tries + way.rebuilds + 1

/-- One step keeps it. -/
lemma Way.Inv.step {d : Deployment} {way : Way} (h : way.Inv d) (tick : Tick) :
    (way.step d tick).Inv d := by
  obtain ⟨row, sent, rebuilds⟩ := way
  obtain ⟨hsends, htxid, htries, hpaid, hproven, hbroadcast⟩ := h
  obtain ⟨hmoves, hnew⟩ := advanceClaim_spec d row tick
  rw [Way.step]
  simp only at hsends htxid htries hpaid hproven hbroadcast ⊢
  generalize (row.advanceClaim d tick).1 = row' at hmoves ⊢
  generalize (row.advanceClaim d tick).2 = out at hmoves hnew ⊢
  have hsends' : ∀ s ∈ sent ++ (out.map fun raw => (row, tick, raw)).toList,
      Sends d s.1 s.2.1 s.2.2 := by
    intro s hs
    rcases List.mem_append.mp hs with hs | hs
    · exact hsends s hs
    · obtain ⟨raw, hraw, rfl⟩ := Option.map_eq_some_iff.mp (Option.mem_toList.mp hs)
      exact hnew raw hraw
  have hlength : (sent ++ (out.map fun raw => (row, tick, raw)).toList).length =
      sent.length + if out.isSome then 1 else 0 := by
    cases out <;> simp
  -- the row's status tells which fields of the invariant are about it
  have hnot : ∀ {s : Status}, row'.status.terminal = true → s.terminal = false →
      row'.status ≠ s := by
    intro s hterminal hopen heq
    rw [heq, hopen] at hterminal
    cases hterminal
  cases hmoves with
  | stay =>
    have hrebuilt : rebuilt row row = false := by
      cases hstatus : row.status <;> simp [rebuilt, hstatus]
    simp only [hrebuilt, Bool.false_eq_true, if_false, Nat.add_zero]
    exact ⟨hsends', htxid, htries, by simpa using hpaid, by simpa using hproven,
      by simpa using hbroadcast⟩
  | finish hterminal hsame =>
    refine ⟨hsends', fun hb => absurd hb (hnot hterminal rfl), ?_, ?_,
      fun hp => absurd hp (hnot hterminal rfl), fun hb => absurd hb (hnot hterminal rfl)⟩
    · exact hsame.trans_le htries
    · simp only [hlength, Option.isSome_none, Bool.false_eq_true, if_false]
      omega
  | retry hfrom hmore hstatus =>
    have hpaid' : sent.length + (if out.isSome then 1 else 0) ≤ row'.tries + rebuilds ∧
        row'.tries ≤ claimAttempts := by
      rcases hfrom with hfrom | ⟨hfrom, rfl⟩
      · obtain ⟨hlt, hle⟩ := hproven hfrom
        split_ifs <;> omega
      · obtain ⟨hlt, hle⟩ := hbroadcast hfrom
        simp only [Option.isSome_none, Bool.false_eq_true, if_false]
        omega
    have hbroadcast' : row'.status ≠ .broadcast := by
      rcases hstatus with ⟨hp, -⟩ | hf
      · rw [hp]
        decide
      · rw [hf]
        decide
    refine ⟨hsends', fun hb => absurd hb hbroadcast', hpaid'.2, ?_, fun hp => ?_,
      fun hb => absurd hb hbroadcast'⟩
    · simp only [hlength]
      omega
    · simp only [hlength]
      rcases hstatus with ⟨-, hlt⟩ | hf
      · omega
      · rw [hp] at hf
        cases hf
  | sent hfrom hstatus hsome hsame =>
    obtain ⟨hlt, hle⟩ := hproven hfrom
    simp only [Option.isSome_some, if_true] at hlength
    refine ⟨hsends', fun _ => hsome, hsame.trans_le htries, ?_, fun hp => ?_, fun _ => ?_⟩
    · simp only [hlength]
      omega
    · rw [hstatus] at hp
      cases hp
    · simp only [hlength]
      omega
  | rebuild hfrom hstatus hsame =>
    obtain ⟨hlt, hle⟩ := hbroadcast hfrom
    have hrebuilt : rebuilt row row' = true := by simp [rebuilt, hfrom, hstatus, hsame]
    simp only [Option.isSome_none, Bool.false_eq_true, if_false] at hlength
    refine ⟨hsends', fun hb => ?_, hsame.trans_le htries, ?_, fun _ => ?_, fun hb => ?_⟩
    · rw [hstatus] at hb
      cases hb
    · simp only [hlength, hrebuilt, if_true]
      omega
    · simp only [hlength, hrebuilt, if_true]
      omega
    · rw [hstatus] at hb
      cases hb

/-- A row as `record` writes it: proven, with no tries yet. -/
structure Fresh (row : Row) : Prop where
  status : row.status = .proven
  attempts : row.attempts = none

lemma Way.inv_run {d : Deployment} {row : Row} (h : row.Fresh) (ticks : List Tick) :
    (Way.run d row ticks).Inv d := by
  induction ticks using List.reverseRecOn with
  | nil =>
    have htries : row.tries = 0 := by rw [Row.tries, h.attempts, Option.getD_none]
    have hbroadcast : row.status ≠ .broadcast := by
      rw [h.status]
      decide
    exact ⟨fun s hs => (by cases hs), fun hb => absurd hb hbroadcast, by simp [run, htries],
      Nat.zero_le _, fun _ => ⟨by simp [run, htries, claimAttempts], Nat.zero_le _⟩,
      fun hb => absurd hb hbroadcast⟩
  | append_singleton ticks tick ih =>
    rw [run, List.foldl_append]
    exact ih.step tick

/-- A row that is over stays as it is. -/
lemma Way.run_terminal {d : Deployment} {row : Row} (h : row.status.terminal = true)
    (ticks : List Tick) : (Way.run d row ticks).row = row := by
  induction ticks using List.reverseRecOn with
  | nil => rfl
  | append_singleton ticks tick ih =>
    rw [run, List.foldl_append, List.foldl_cons, List.foldl_nil, ← run, step, ih,
      advanceClaim_terminal d h]

/-- The claims of a row over every run.  A row that is confirmed, stale or failed never changes
again; every broadcast was made at or after the row's two times, with the tip at its height, for
a vault in the row's state, with bytes that `check_claim` accepted; a broadcast row has a txid;
there are at most 10 tries, and at most 10 broadcasts beside those after a trade moved the
vault. -/
theorem claim_way {d : Deployment} {row : Row} (hfresh : row.Fresh) (ticks more : List Tick) :
    let way := Way.run d row ticks
    (way.row.status.terminal = true → (Way.run d way.row more).row = way.row) ∧
    (∀ s ∈ way.sent, Sends d s.1 s.2.1 s.2.2) ∧
    (way.row.status = .broadcast → way.row.txid.isSome = true) ∧
    way.row.tries ≤ 10 ∧ way.sent.length ≤ 10 + way.rebuilds := by
  intro way
  have h := Way.inv_run hfresh ticks (d := d)
  exact ⟨fun hterminal => Way.run_terminal hterminal more, h.sends, h.txid, h.tries, h.paid⟩

section Sample

omit [Hasher]

/-- The journal row of a win on the sample vault. -/
def sampleRow : Row :=
  { category := Text.hexEncode (List.replicate 32 7)
    state := Text.hexEncode (@Vault.stateHash Hasher.fips sampleVault).bytes
    status := .proven
    height := some 17
    broadcastAfter := some 100
    split := some (Text.hexEncode sampleTerms.split.preimage)
    proof := some (Text.hexEncode sampleClaimProof.encode)
    commitment := some (Text.hexEncode sampleVault.commitment.bytes)
    payoutScript := some "51".toList
    donationScript := some "52".toList
    feeScript := none
    attempts := none
    nextAttempt := none
    txid := none
    vaultOutpoint := none
    claimedAt := none
    feeSats := none
    error := none }

/-- A round on the sample vault in which the node takes every claim. -/
def sampleTick (now : ℕ) : Tick := ⟨[sampleVault], 17, now, ⟨fun _ => .ok (), fun _ => .ok true⟩⟩

lemma sample_run :
    let _ : Hasher := Hasher.fips
    let way := Way.run sampleDeployment sampleRow [sampleTick 99, sampleTick 100, sampleTick 101]
    way.row.status = .broadcast ∧ way.sent.length = 1 := by
  unfold sampleRow
  rw [Hasher.fips_eq]
  decide +kernel

/-- The claim waits for its delay and is then sent once. -/
theorem claim_way_sample :
    let _ : Hasher := Hasher.fips
    let way := Way.run sampleDeployment sampleRow [sampleTick 99, sampleTick 100, sampleTick 101]
    way.row.status = .broadcast ∧ way.sent.length = 1 ∧
      (∀ s ∈ way.sent, Sends sampleDeployment s.1 s.2.1 s.2.2) ∧ way.row.txid.isSome = true := by
  have hfresh : sampleRow.Fresh := ⟨rfl, rfl⟩
  obtain ⟨-, hsends, htxid, -⟩ := letI : Hasher := Hasher.fips
    claim_way (d := sampleDeployment) hfresh [sampleTick 99, sampleTick 100, sampleTick 101] []
  exact ⟨sample_run.1, sample_run.2, hsends, htxid sample_run.1⟩

end Sample

end Row

end Pickaxe.Hub
