/-
# The work of a header-shaped token

A server can mine a token instead of BCH: each job is built from the token's thread, the commitment
the next win must follow.  Wins wait in a queue; `check` looks at each as the covenant would, saves
it, and moves the thread to the winning header.

What the loop reads from outside, the clock and the proof journal, it is given one `Turn` a win.
-/
import Pickaxe.Lib.Recent
import Pickaxe.Safa.Draft
import Pickaxe.Template

namespace Pickaxe

open Lib

/-- `BchTemplate::token_only`: an ASIC-exclusive token's job. -/
def BchTemplate.tokenOnly (job : TokenJob) (previousHash : Hash) (version bits : UInt32)
    (target : Hash) (ntimeStart height : UInt32) : BchTemplate :=
  { previousHash := previousHash
    version := version
    bits := bits
    target := target
    minTime := ntimeStart
    currentTime := ntimeStart
    height := height
    sizeLimit := 1000000
    coinbaseValue := 0
    parentTime := none
    coinbaseFlags := []
    transactions := []
    merklePath := []
    tokens := none
    origin := .own
    jd := none
    p2pool := none
    declarationId := none
    work := .token job
    minTime_le := UInt32.le_refl _
    token_plain := fun _ _ => ⟨rfl, rfl⟩
    p2pool_head := fun _ h => by cases h
    tokens_fit := BchTemplate.no_tokens_fit }

namespace Safa

/-- `QUEUE`: wins waiting before more are dropped. -/
def queueSize : ℕ := 64

/-- `RECENT`: thread states recently won. -/
def recentStates : ℕ := 256

/-- `KEPT_PROOFS`: proofs the journal keeps, the oldest dropped first. -/
def keptProofs : ℕ := 256

/-- `TEST_AGE`: the simulated thread's age. -/
def testAge : UInt16 := 71

/-- `START_BEHIND`: how far behind now the simulated thread's jobs start. -/
def startBehind : UInt32 := 7200

/-- `HeaderToken`, as far as its work reads it. -/
structure HeaderToken where
  name : String
  network : MiningNetwork
  category : Hash
  params : SafaParams

/-- `HEADER_TEST_CATEGORY`. -/
def headerTestCategory : Hash :=
  ⟨[0x2b, 0x7f, 0xec, 0x11, 0x5c, 0x25, 0xb0, 0x0f, 0xea, 0xa7, 0x69, 0x7c, 0xa3, 0xbf, 0xa4, 0x6f,
    0x87, 0xda, 0x6c, 0x49, 0xa4, 0x6c, 0xf2, 0xf3, 0xd7, 0xa7, 0xea, 0xd6, 0x0c, 0xbc, 0xec, 0x34],
    rfl⟩

/-- `HEADER_TEST_TOKEN`. -/
def headerTestToken : HeaderToken :=
  { name := "Pickaxe ASIC test token"
    network := .chipnet
    category := headerTestCategory
    params := { canonical with version := .bip320 } }

/-- `HeaderWin`: a win as the journal keeps it. -/
structure HeaderWin where
  layout : UInt8
  header : ByteVec 80
  age : UInt16
  thread : OutPoint
  script : Bytes

/-- `SAFA_V1`. -/
def safaV1 : UInt8 := 0x53

/-- `HeaderWin::encode`: "CTMH", the version and the fields. -/
def HeaderWin.encode (win : HeaderWin) : Bytes :=
  [0x43, 0x54, 0x4d, 0x48] ++ [1, win.layout] ++ win.header.bytes ++ u16Le win.age ++
    win.thread.txid.bytes ++ u32Le win.thread.vout ++ [UInt8.ofNat win.script.length] ++ win.script

/-- `HeaderShare`: a win a device found. -/
structure HeaderShare where
  header : ByteVec 80
  /-- The job's forwarder: the payout locking bytecode the header names. -/
  script : Bytes

/-- `HeaderSummary`. -/
structure HeaderSummary where
  token : String
  bits : UInt32
  wins : ℕ
  proven : ℕ
  stale : ℕ
  dropped : ℕ
  /-- Why wins are no longer proven. -/
  off : Option String

structure Thread where
  commitment : ByteVec 80
  outpoint : OutPoint
  /-- The jobs' start time. -/
  start : UInt32

/-- `HeaderWork`. -/
structure HeaderWork where
  network : MiningNetwork
  token : HeaderToken
  /-- The destinations a win may pay: the miner's and the donation's. -/
  destinations : List Bytes
  thread : Thread
  queue : List HeaderShare
  /-- The anchors of the states recently won, the oldest first. -/
  won : List Hash
  summary : HeaderSummary

/-- An entry of the proof journal. -/
structure ProofEntry where
  token : String
  category : List Char
  mode : String
  anchor : List Char
  foundAt : UInt32
  proof : List Char
  status : String

/-- The proof journal's file: the entries it holds or why they are not read, and what comes of
writing it. -/
structure Disk where
  read : Except String (List ProofEntry)
  write : Except String Unit

/-- What one win meets: the clock as it is saved, the journal, and the clock as the thread moves. -/
structure Turn where
  savedAt : UInt32
  disk : Disk
  movedAt : UInt32

/-- A proven win and the thread state it followed. -/
structure Proof where
  thread : ByteVec 80
  win : HeaderShare

/-- What `check` makes of one win. -/
inductive Verdict where
  /-- The thread moved on, or its state is won already. -/
  | stale
  /-- Proofs are off from now on. -/
  | off
  | proven (entries : List ProofEntry)

/-- `Vec::resize`: the first `n` bytes, with zeros behind a shorter string. -/
def resize (n : ℕ) (bytes : Bytes) : ByteVec n :=
  ⟨(bytes ++ List.replicate n 0).take n, by simp⟩

/-- When jobs start, by the clock. -/
def startAt (now : UInt32) : UInt32 := UInt32.ofNat (now.toNat - startBehind.toNat)

namespace HeaderWork

variable [Hasher]

/-- `HeaderWork::test_token`: the Chipnet test token for miner `payout` at `targetBits`. -/
def testToken (network : MiningNetwork) (targetBits : UInt32) (payout : List Char) (now : UInt32) :
    Except String HeaderWork :=
  if headerTestToken.network ≠ network then .error "the ASIC test token exists only on Chipnet"
  else do
    let bits : ByteVec 4 := ⟨u32Le targetBits, length_leBytes _ _⟩
    let _ ← decodeCompact bits headerTestToken.params.compact
    let scripts ← Payout.scripts network payout none
    let start := startAt now
    let first : Commitment := ⟨0x20000001, ByteVec.zero 32, ByteVec.zero 32, start, bits, 0⟩
    .ok
      { network := network
        token := headerTestToken
        destinations := [scripts.getD 0 [], scripts.getD 1 []]
        thread := ⟨first.encode, ⟨doubleSha256 first.encode.bytes, 0⟩, start⟩
        queue := []
        won := []
        summary := ⟨headerTestToken.name, targetBits, 0, 0, 0, 0, none⟩ }

/-- The hash of the thread's commitment, which the next win names. -/
def anchor (work : HeaderWork) : Hash := doubleSha256 work.thread.commitment.bytes

omit [Hasher] in
/-- `HeaderWork::submit`: hands on a win; false when the queue is full or busy. -/
def submit (work : HeaderWork) (win : HeaderShare) (busy : Bool) : Bool × HeaderWork :=
  if busy = false ∧ work.queue.length < queueSize then
    (true, { work with
      queue := work.queue ++ [win]
      summary := { work.summary with wins := work.summary.wins + 1 } })
  else (false, { work with summary := { work.summary with dropped := work.summary.dropped + 1 } })

omit [Hasher] in
/-- `HeaderWork::pays_us`: whether `script` is a forwarder to one of this server's destinations. -/
def paysUs (work : HeaderWork) (script : Bytes) : Bool :=
  work.destinations.any fun destination =>
    match forwarderBody destination with
    | .error _ => false
    | .ok body => body.isSuffixOf script

omit [Hasher] in
/-- `HeaderWork::save`: the journal with a proven win, its newest entries kept. -/
def save (work : HeaderWork) (win : HeaderWin) (anchor : Hash) (turn : Turn) :
    Except String (List ProofEntry) := do
  let saved ← turn.disk.read
  let entries := saved ++ [⟨work.token.name, Text.hexEncode work.token.category.bytes, "H",
    Text.hexEncode anchor.bytes, turn.savedAt, Text.hexEncode win.encode, "proven"⟩]
  turn.disk.write
  .ok (entries.drop (entries.length - keptProofs))

omit [Hasher] in
/-- No win is proven from now on. -/
def turnOff (work : HeaderWork) (reason : String) : HeaderWork :=
  { work with summary := { work.summary with off := some reason } }

/-- The thread moves to a proven win's header. -/
def moved (work : HeaderWork) (win : HeaderShare) (now : UInt32) : HeaderWork :=
  { work with
    won := Recent.push recentStates work.won work.anchor
    summary := { work.summary with proven := work.summary.proven + 1 }
    thread := ⟨win.header, ⟨doubleSha256 win.header.bytes, 0⟩, startAt now⟩ }

/-- One win in `check`'s loop. -/
def checkWin (work : HeaderWork) (turn : Turn) (win : HeaderShare) : Verdict × HeaderWork :=
  if slice win.header.bytes 4 36 ≠ work.anchor.bytes ∨ work.anchor ∈ work.won then
    (.stale, { work with summary := { work.summary with stale := work.summary.stale + 1 } })
  else if work.paysUs win.script = false ∨
      work.token.params.verify work.thread.commitment win.header testAge win.script ≠ .ok () then
    (.off, work.turnOff "a token win failed its own check")
  else
    let record : HeaderWin := ⟨safaV1, win.header, testAge, work.thread.outpoint, win.script⟩
    match work.save record work.anchor turn with
    | .error error => (.off, work.turnOff ("token proofs cannot be saved: " ++ error))
    | .ok entries => (.proven entries, work.moved win turn.movedAt)

/-- `check`'s loop: what it proves, and the work it leaves. -/
def checkWins (work : HeaderWork) (turns : ℕ → Turn) : List HeaderShare → List Proof × HeaderWork
  | [] => ([], work)
  | win :: wins =>
    if work.summary.off.isSome then ([], work)
    else match work.checkWin (turns 0) win with
      | (.stale, after) => after.checkWins (fun n => turns (n + 1)) wins
      | (.off, after) => ([], after)
      | (.proven _, after) =>
        let rest := after.checkWins (fun n => turns (n + 1)) wins
        (⟨work.thread.commitment, win⟩ :: rest.1, rest.2)

/-- The waiting wins, all taken at once. -/
def checkAll (work : HeaderWork) (turns : ℕ → Turn) : List Proof × HeaderWork :=
  { work with queue := [] }.checkWins turns work.queue

/-- `HeaderWork::check`: checks the waiting wins; whether the thread moved. -/
def check (work : HeaderWork) (turns : ℕ → Turn) : Bool × HeaderWork :=
  (!(work.checkAll turns).1.isEmpty, (work.checkAll turns).2)

/-- `HeaderWork::job`: the job the thread's next win answers. -/
def job (work : HeaderWork) : Except String BchTemplate := do
  let current ← Commitment.decode work.thread.commitment.bytes
  let params := work.token.params
  let previous ← decodeCompact current.bits params.compact
  let target := nextTarget previous testAge params.daa
  let bits ← encodeCompact target params.compact
  let token : TokenJob :=
    { token := work.token.name
      layout := .safa
      versionMask := params.version.mask
      anchor := work.anchor
      thread := work.thread.outpoint
      age := testAge
      mtp := work.thread.start + startBehind / 2 }
  .ok (.tokenOnly token work.anchor current.virtualSlot (u32OfLe bits.bytes)
    (resize 32 (toBytesLe target)) work.thread.start 1)

end HeaderWork

end Safa

end Pickaxe
