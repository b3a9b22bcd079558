/-
# Electrum messages over a WebSocket and over TCP

A server sends one JSON value a line.  A client reads it over a WebSocket, whose texts end anywhere
in the lines, or over TCP, whose pieces end anywhere in the characters; on both it keeps what it has
not used yet in a buffer.  A call of `rpc` reads until the answer with its id, `take_change` reads
what is there; notices of a change are remembered between them.
-/
import Pickaxe.Lib.Json
import Pickaxe.Lib.Lines
import Pickaxe.Lib.Text
import Pickaxe.Lib.Utf8

namespace Pickaxe.Electrum

open Lib Lines

/-- `serde_json`: the value of a text, and how a value is displayed.  Of an object's text, only the
whole is a value. -/
class JsonText where
  fromStr : List Char → Except String Json
  display : Json → List Char
  fromStr_whole : ∀ {text : List Char} {members : List (String × Json)} {part : List Char},
    fromStr text = .ok (.object members) → Text.trim text = text → part <+: text → part ≠ text →
      ∃ e, fromStr part = .error e

/-! ## Messages -/

/-- `Value::is_null`. -/
def isNull : Json → Bool
  | .null => true
  | _ => false

/-- `Value::as_i64`. -/
def asI64 : Json → Option ℤ
  | .unsigned n => if n.toNat < 2 ^ 63 then some n.toNat else none
  | .number text =>
    match text.toList with
    | '-' :: digits => ((parseUnsigned (2 ^ 63 + 1) digits).filter (· ≠ 0)).map fun n : ℕ =>
      -(n : ℤ)
    | _ => none
  | _ => none

/-- `id_matches`. -/
def idMatches (value : Json) (id : ℕ) : Bool :=
  (value.get? "id").bind Json.asU64 == some id ||
    ((value.get? "id").bind asI64).map (fun i => (i % 2 ^ 64).toNat) == some id

/-- `rpc_value_for_id`. -/
def rpcValueForId [JsonText] (value : Json) (id : ℕ) : Option (Except String Json) :=
  if idMatches value id = false then none
  else match (value.get? "error").filter fun error => !isNull error with
    | some error => some (.error ("rpc error: " ++ String.ofList (JsonText.display error)))
    | none => some (.ok ((value.get? "result").getD .null))

/-- `is_change_notice`. -/
def isChangeNotice (value : Json) : Bool :=
  (value.get? "id").all isNull &&
    ((value.get? "method").bind Json.asStr).any fun method =>
      method == "blockchain.headers.subscribe".toList ||
        method == "blockchain.scripthash.subscribe".toList

/-- An answer is no notice. -/
lemma isChangeNotice_of_idMatches {value : Json} {id : ℕ} (h : idMatches value id = true) :
    isChangeNotice value = false := by
  rw [isChangeNotice]
  cases hid : value.get? "id" with
  | none =>
    rw [idMatches, hid] at h
    cases h
  | some json =>
    cases json with
    | null =>
      rw [idMatches, hid] at h
      cases h
    | _ => rfl

/-- A negative number is no id of a call. -/
lemma asI64_number {text : String} {i : ℤ} (h : asI64 (.number text) = some i) :
    -2 ^ 63 ≤ i ∧ i < 0 := by
  simp only [asI64] at h
  split at h
  · obtain ⟨n, hn, rfl⟩ := Option.map_eq_some_iff.mp h
    obtain ⟨hparse, hne⟩ := Option.filter_eq_some_iff.mp hn
    have hlt := lt_of_parseUnsigned hparse
    have hpos : n ≠ 0 := of_decide_eq_true hne
    omega
  · cases h

/-- An id below 2⁶³ is matched by itself only. -/
lemma idMatches_iff {value : Json} {id : ℕ} (h : id < 2 ^ 63) : idMatches value id = true ↔
    ∃ n : UInt64, n.toNat = id ∧ value.get? "id" = some (.unsigned n) := by
  rw [idMatches, Bool.or_eq_true, beq_iff_eq, beq_iff_eq]
  cases value.get? "id" with
  | none => exact iff_of_false (fun h => h.elim nofun nofun) nofun
  | some json =>
    rw [Option.bind_some, Option.bind_some]
    cases json with
    | unsigned n =>
      simp only [Json.asU64, asI64, Option.some.injEq, Json.unsigned.injEq, Option.map_eq_some_iff]
      constructor
      · rintro (rfl | ⟨i, hi, hid⟩)
        · exact ⟨n, rfl, rfl⟩
        · obtain ⟨hlt, hi⟩ := Option.ite_none_right_eq_some.mp hi
          obtain rfl := Option.some.inj hi
          refine ⟨n, ?_, rfl⟩
          omega
      · rintro ⟨m, rfl, rfl⟩
        exact .inl rfl
    | number text =>
      refine iff_of_false ?_ nofun
      rintro (hnone | hsome)
      · cases hnone
      · obtain ⟨i, hi, hid⟩ := Option.map_eq_some_iff.mp hsome
        have hrange := asI64_number hi
        omega
    | _ => exact iff_of_false (fun h => h.elim nofun nofun) nofun

/-! ## WebSocket -/

/-- The characters of the first `n` bytes of a text; none where they end within a character. -/
def sliceTo : ℕ → List Char → Option (List Char)
  | 0, _ => some []
  | _ + 1, [] => none
  | n + 1, c :: text =>
    if c.utf8Size ≤ n + 1 then (sliceTo (n + 1 - c.utf8Size) text).map (c :: ·) else none

/-- How a search of the text ends: an index that is not between characters is a panic. -/
inductive Outcome where
  | panicked
  | returned (r : Except String Json)

section WebSocket

variable [JsonText]

/-- A turn of the loop of `consume_rpc_text`; the state is whether a notice has come. -/
def frameTurn (id : ℕ) (notice : Bool) (line : List Char) : (Outcome × Bool) ⊕ Bool :=
  let line := Text.trim line
  if line = [] then .inr notice
  else match JsonText.fromStr line with
    | .error e =>
      match sliceTo (min (utf8 line).length 160) line with
      | none => .inl (.panicked, notice)
      | some cut => .inl (.returned (.error s!"transport: json: {e}: {String.ofList cut}"), notice)
    | .ok value =>
      match rpcValueForId value id with
      | some r => .inl (.returned r, notice)
      | none => .inr (notice || isChangeNotice value)

/-- What `consume_rpc_text` leaves. -/
structure Consumed where
  outcome : Option Outcome
  buf : List Char
  notice : Bool

/-- `consume_rpc_text`. -/
def consumeRpcText (buf text : List Char) (id : ℕ) (notice : Bool) : Consumed :=
  match scan '\n' (frameTurn id) notice [] (buf ++ text) with
  | .inl ((outcome, notice), rest) => ⟨some outcome, rest, notice⟩
  | .inr (notice, rest) =>
    let trimmed := Text.trim rest
    if trimmed = [] then ⟨none, rest, notice⟩
    else match JsonText.fromStr trimmed with
      | .error _ => ⟨none, rest, notice⟩
      | .ok value =>
        match rpcValueForId value id with
        | some r => ⟨some (.returned r), [], notice⟩
        | none => ⟨none, [], notice || isChangeNotice value⟩

/-- A client on a WebSocket. -/
structure Ws where
  nextId : ℕ
  buf : List Char
  notice : Bool

/-- The loop of `rpc`, on the texts that come in time; those behind the answer are left. -/
def Ws.read (id : ℕ) (ws : Ws) : List (List Char) → Option Outcome × Ws × List (List Char)
  | [] => (none, ws, [])
  | text :: texts =>
    let consumed := consumeRpcText ws.buf text id ws.notice
    let ws := { ws with buf := consumed.buf, notice := consumed.notice }
    match consumed.outcome with
    | some outcome => (some outcome, ws, texts)
    | none => ws.read id texts

/-- `rpc`, on a WebSocket. -/
def Ws.rpc (ws : Ws) (texts : List (List Char)) : Option Outcome × Ws × List (List Char) :=
  { ws with nextId := ws.nextId + 1 }.read ws.nextId texts

/-- `drain_websocket`, on the texts that have come. -/
def Ws.drain (ws : Ws) : List (List Char) → Option Outcome × Ws × List (List Char)
  | [] => (none, ws, [])
  | text :: texts =>
    let consumed := consumeRpcText ws.buf text 0 ws.notice
    let ws := { ws with buf := consumed.buf, notice := consumed.notice }
    match consumed.outcome with
    | some .panicked => (some .panicked, ws, texts)
    | some (.returned (.error e)) => (some (.returned (.error e)), ws, texts)
    -- an answer is taken as one, and dropped
    | _ => ws.drain texts

/-- `take_change`, on a WebSocket; the first part is how it fails. -/
def Ws.takeChange (ws : Ws) (texts : List (List Char)) :
    (Outcome ⊕ Bool) × Ws × List (List Char) :=
  match ws.drain texts with
  | (some outcome, ws, texts) => (.inl outcome, ws, texts)
  | (none, ws, texts) => (.inr ws.notice, { ws with notice := false }, texts)

end WebSocket

/-! ## TCP -/

section Tcp

variable [JsonText]

/-- A turn of the inner loop of `tcp_rpc`. -/
def lineTurn (id : ℕ) (notice : Bool) (line : Bytes) : (Except String Json × Bool) ⊕ Bool :=
  match JsonText.fromStr (Text.trim (fromUtf8Lossy (line ++ [10]))) with
  | .error _ => .inr notice
  | .ok value =>
    match rpcValueForId value id with
    | some r => .inl (r, notice)
    | none => .inr (notice || isChangeNotice value)

/-- A turn of the last loop of `drain_tcp`. -/
def drainTurn (notice : Bool) (line : Bytes) : Empty ⊕ Bool :=
  match JsonText.fromStr (Text.trim (fromUtf8Lossy (line ++ [10]))) with
  | .error _ => .inr notice
  | .ok value => .inr (notice || isChangeNotice value)

/-- A client on TCP. -/
structure Tcp where
  nextId : ℕ
  buf : Bytes
  notice : Bool

/-- The loop of `tcp_rpc`, on the pieces that come in time. -/
def Tcp.read (id : ℕ) (tcp : Tcp) : List Bytes → Option (Except String Json) × Tcp × List Bytes
  | [] =>
    match scan 10 (lineTurn id) tcp.notice [] tcp.buf with
    | .inl ((r, notice), rest) => (some r, { tcp with buf := rest, notice := notice }, [])
    | .inr (notice, rest) => (none, { tcp with buf := rest, notice := notice }, [])
  | chunk :: chunks =>
    match scan 10 (lineTurn id) tcp.notice [] tcp.buf with
    | .inl ((r, notice), rest) =>
      (some r, { tcp with buf := rest, notice := notice }, chunk :: chunks)
    | .inr (notice, rest) =>
      { tcp with buf := rest ++ chunk, notice := notice }.read id chunks

/-- `tcp_rpc`. -/
def Tcp.rpc (tcp : Tcp) (chunks : List Bytes) :
    Option (Except String Json) × Tcp × List Bytes :=
  { tcp with nextId := tcp.nextId + 1 }.read tcp.nextId chunks

/-- `drain_tcp`, on the pieces that have come. -/
def Tcp.drain (tcp : Tcp) (chunks : List Bytes) : Tcp :=
  match scan 10 drainTurn tcp.notice [] (tcp.buf ++ chunks.flatten) with
  | .inl (never, _) => never.elim
  | .inr (notice, rest) => { tcp with buf := rest, notice := notice }

/-- `take_change`, on TCP. -/
def Tcp.takeChange (tcp : Tcp) (chunks : List Bytes) : Bool × Tcp :=
  let tcp := tcp.drain chunks
  (tcp.notice, { tcp with notice := false })

end Tcp

end Pickaxe.Electrum
