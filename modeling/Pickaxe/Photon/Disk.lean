/-
# The files of a claim

A claim has a journal, two markers beside it for a broadcast that was attempted and one that was
accepted, and at the end a record of its outcome.  Each is written to a temporary file that then
takes its place.  The functions here are programs that ask for one operation after the other, so
that the process may be stopped between any two.
-/
import Pickaxe.Photon.Pending
import Pickaxe.Lib.Effect

namespace Pickaxe.Photon

open Lib

/-! ## Operations -/

/-- What a file is for. -/
inductive File where
  | journal
  | attempted
  | accepted
  | resolved
deriving DecidableEq

/-- A file in place, or the temporary file written before it. -/
structure Path where
  file : File
  temporary : Bool := false
deriving DecidableEq

namespace Path

def journal : Path := ⟨.journal, false⟩

/-- `parent_attempted_path`. -/
def attempted : Path := ⟨.attempted, false⟩

/-- `parent_accepted_path`. -/
def accepted : Path := ⟨.accepted, false⟩

/-- `ResolvedSubmission::path`. -/
def resolved : Path := ⟨.resolved, false⟩

/-- The temporary file of a file. -/
def temp (path : Path) : Path := { path with temporary := true }

/-- A path as a message shows it. -/
def display (journal : String) (path : Path) : String :=
  journal ++ (match path.file with
    | .journal => ""
    | .attempted => ".parent-attempted"
    | .accepted => ".parent-accepted"
    | .resolved => ".resolved") ++ if path.temporary then ".tmp" else ""

end Path

/-- `JobSource`. -/
inductive JobSource where
  | fulcrum
  | node
deriving DecidableEq

/-- `MempoolAcceptance`. -/
structure MempoolAcceptance where
  txid : List Char
  allowed : Bool
  rejectReason : Option String
  rejectDetails : Option String

/-- The value a server answers with. -/
inductive RpcValue where
  | string (text : List Char)
  | null
  | other (display : String)

/-- The operations on files and servers, one at a time. -/
inductive Op where
  | present (path : Path)
  | read (path : Path)
  | create (path : Path)
  | write (path : Path) (content : List Char)
  | sync (path : Path)
  | rename (source target : Path)
  /-- Answers whether there was a file to remove. -/
  | remove (path : Path)
  | makeDirectory
  | getTransaction (txid : List Char)
  | fetchLiveJob
  | testMempoolAccept (rawTxHex : List Char)
  | broadcast (via : JobSource) (rawTxHex : List Char)
  /-- Hands a claim to the thread that sends it to further servers. -/
  | relay (rawTxHex : List Char)
  | now

/-- What an operation answers. -/
abbrev Answer : Op → Type
  | .present _ => Bool
  | .read _ => Except String (Option (List Char))
  | .create _ | .write _ _ | .sync _ | .rename _ _ | .makeDirectory => Except String Unit
  | .remove _ => Except String Bool
  | .getTransaction _ => Except String RpcValue
  | .fetchLiveJob => Except String LiveJob
  | .testMempoolAccept _ => Except String (String × MempoolAcceptance)
  | .broadcast _ _ => Except String (List Char)
  | .relay _ => Unit
  | .now => ℕ

/-- A function of the claim path. -/
abbrev Task := Program String Op Answer

/-- An operation on a path, its failure told with what was tried. -/
def onPath {α : Type} (journal what : String) (path : Path) (result : Except String α) : Task α :=
  .lift (result.mapError fun error => s!"{what} {path.display journal}: {error}")

/-- The JSON texts of journals and records. -/
class Records where
  encode : PendingSubmission → List Char
  decode : List Char → Except String PendingSubmission
  decode_encode : ∀ pending, decode (encode pending) = .ok pending
  encodeResolved : ResolvedSubmission → List Char
  decodeResolved : List Char → Except String ResolvedSubmission
  decodeResolved_encodeResolved : ∀ resolved, decodeResolved (encodeResolved resolved) = .ok resolved

/-! ## Writing a file -/

/-- The directory of a path, as a message shows it. -/
def parentDirectory (journal : String) : String := "/".intercalate (journal.splitOn "/").dropLast

/-- `create_dir_all` of a file's directory. -/
def makeDirectory (journal what : String) : Task Unit := do
  let made : Except String Unit ← .query Op.makeDirectory
  .lift (made.mapError fun error => s!"{what} {parentDirectory journal}: {error}")

/-- `fs::remove_file` where a file that is not there is an error too. -/
def removeFile (journal what : String) (path : Path) : Task Unit := do
  let removed ← onPath journal what path (← .query (.remove path))
  if removed then .ok () else .error s!"{what} {path.display journal}: not found"

/-- Removes a file that is there. -/
def removePresent (journal what : String) (path : Path) : Task Unit := do
  let present ← .query (.present path)
  if present then removeFile journal what path else .ok ()

/-- An attempt that leaves no temporary file behind when it fails. -/
def orRemove (journal what : String) (shown temporary : Path) : Except String Unit → Task Unit
  | .ok () => .ok ()
  | .error error => do
    let _ ← .query (.remove temporary)
    .error s!"{what} {shown.display journal}: {error}"

/-- The content of a file, written to its temporary file. -/
def writeTemporary (journal stem noun : String) (path : Path) (content : List Char) : Task Unit := do
  removePresent journal s!"remove stale {stem} temporary file" path.temp
  onPath journal s!"create {stem} temporary file" path.temp (← .query (.create path.temp))
  orRemove journal s!"write {noun}" path.temp path.temp (← .query (.write path.temp content))

/-- The temporary file put in its place. -/
def commitTemporary (journal noun : String) (path : Path) : Task Unit := do
  orRemove journal s!"commit {noun}" path path.temp (← .query (.rename path.temp path))

/-- `sync_committed`. -/
def syncCommitted (journal : String) (path : Path) : Task Unit := do
  onPath journal "sync committed pending-submission journal" path (← .query (.sync path))

/-! ## Markers -/

/-- `marker_present`: whether a marker names the parent. -/
def markerPresent (journal : String) (path : Path) (expectedParentTxid : List Char) : Task Bool := do
  let marker ← onPath journal "read pending-submission progress marker" path (← .query (.read path))
  match marker with
  | none => .ok false
  | some marker =>
    if Text.eqIgnoreCase (Text.trim marker) expectedParentTxid then .ok true
    else .error s!"pending-submission progress marker {path.display journal} does not match parent txid"

/-- `persist_marker`. -/
def persistMarker (journal : String) (path : Path) (parentTxid : List Char) : Task Unit := do
  makeDirectory journal "create pending-submission progress directory"
  let present ← markerPresent journal path parentTxid
  if present then syncCommitted journal path
  else do
    writeTemporary journal "pending-submission progress" "pending-submission progress marker" path
      (parentTxid ++ ['\n'])
    commitTemporary journal "pending-submission progress marker" path
    syncCommitted journal path

namespace PendingSubmission

/-- `parent_attempted`. -/
def parentAttempted (pending : PendingSubmission) (journal : String) : Task Bool :=
  markerPresent journal .attempted pending.parentTxid

/-- `parent_accepted`. -/
def parentAccepted (pending : PendingSubmission) (journal : String) : Task Bool :=
  markerPresent journal .accepted pending.parentTxid

/-- `mark_parent_attempted`. -/
def markParentAttempted (pending : PendingSubmission) (journal : String) : Task Unit :=
  persistMarker journal .attempted pending.parentTxid

/-- `mark_parent_accepted`. -/
def markParentAccepted (pending : PendingSubmission) (journal : String) : Task Unit := do
  pending.markParentAttempted journal
  persistMarker journal .accepted pending.parentTxid

/-! ## The journal -/

variable [Hasher] [Records]

/-- `PendingSubmission::load`. -/
def load (journal : String) : Task (Option PendingSubmission) := do
  let bytes ← onPath journal "read pending-submission journal" .journal (← .query (.read .journal))
  match bytes with
  | none => .ok none
  | some bytes => do
    let pending ← onPath journal "parse pending-submission journal" .journal (Records.decode bytes)
    Program.lift pending.validate
    return some pending

/-- The refusal of a marker without a journal. -/
def refuseOrphan (journal : String) (marker : Path) : Task Unit := do
  let present ← .query (.present marker)
  if present then
    .error s!"orphan pending-submission progress marker exists at {marker.display journal}"
  else .ok ()

/-- `persist_new`. -/
def persistNew (pending : PendingSubmission) (journal : String) : Task Unit := do
  Program.lift pending.validate
  makeDirectory journal "create pending-submission journal directory"
  let present ← .query (.present .journal)
  if present then do
    let loaded ← load journal
    if loaded = some pending then syncCommitted journal .journal
    else .error s!"different pending-submission journal already exists at {journal}"
  else do
    refuseOrphan journal .attempted
    refuseOrphan journal .accepted
    writeTemporary journal "pending-submission" "pending-submission journal" .journal
      (Records.encode pending)
    commitTemporary journal "pending-submission journal" .journal
    syncCommitted journal .journal

/-- `PendingSubmission::remove`: the markers first, then the journal. -/
def remove (journal : String) : Task Unit := do
  let _ ← onPath journal "remove pending-submission progress marker" .accepted
    (← .query (.remove .accepted))
  let _ ← onPath journal "remove pending-submission progress marker" .attempted
    (← .query (.remove .attempted))
  let _ ← onPath journal "remove pending-submission journal" .journal (← .query (.remove .journal))
  return ()

/-- `probe_submission_journal`, of which only the refusals concern the claim's files. -/
def probe (journal : String) : Task Unit := do
  let present ← .query (.present .journal)
  if present then .error s!"unresolved previous winner submission exists at {journal}"
  else do
    refuseOrphan journal .attempted
    refuseOrphan journal .accepted
    makeDirectory journal "create pending-submission journal directory"

end PendingSubmission

/-! ## Records -/

namespace ResolvedSubmission

variable [Hasher] [Records]

/-- `ResolvedSubmission::from_stale`. -/
def fromStale (pending : PendingSubmission) (fresh : LiveJob) (journal : String) :
    Task ResolvedSubmission := do
  Program.lift pending.validate
  let parentAttempted ← pending.parentAttempted journal
  let parentAccepted ← pending.parentAccepted journal
  Program.lift (staleRecord pending fresh parentAttempted parentAccepted)

/-- `ResolvedSubmission::load`. -/
def load (journal : String) : Task (Option ResolvedSubmission) := do
  let bytes ← onPath journal "read resolved-submission record" .resolved (← .query (.read .resolved))
  match bytes with
  | none => .ok none
  | some bytes => do
    let resolved ← onPath journal "parse resolved-submission record" .resolved
      (Records.decodeResolved bytes)
    Program.lift resolved.validate
    return some resolved

/-- `persist_latest`. -/
def persistLatest (resolved : ResolvedSubmission) (journal : String) : Task Unit := do
  Program.lift resolved.validate
  makeDirectory journal "create resolved-submission directory"
  let loaded ← load journal
  if loaded = some resolved then syncCommitted journal .resolved
  else do
    writeTemporary journal "resolved-submission" "resolved-submission record" .resolved
      (Records.encodeResolved resolved)
    removePresent journal "replace resolved-submission record" .resolved
    commitTemporary journal "resolved-submission record" .resolved
    syncCommitted journal .resolved

end ResolvedSubmission

variable [Hasher] [Records]

/-- `resolve_stale_submission`. -/
def resolveStaleSubmission (pending : PendingSubmission) (fresh : LiveJob) (journal : String) :
    Task Unit := do
  let resolved ← ResolvedSubmission.fromStale pending fresh journal
  resolved.persistLatest journal
  PendingSubmission.remove journal

/-- `resolve_confirmed_submission`. -/
def resolveConfirmedSubmission (pending : PendingSubmission) (fresh : LiveJob) (journal : String) :
    Task Unit := do
  let resolved ← .lift (ResolvedSubmission.fromConfirmed pending fresh)
  resolved.persistLatest journal
  PendingSubmission.remove journal

end Pickaxe.Photon
