/-
# Messages over TCP

The pieces of a stream end anywhere, also within a character.  The lines that are complete in the
buffer are the messages that have arrived, and a call goes through them before it reads on.
-/
import Pickaxe.Electrum.Reader

namespace Pickaxe.Electrum

open Lib Lines

section Bytes

variable [JsonText]

/-- The bytes of messages. -/
def bytesOf (messages : List Message) : Bytes := lines 10 (messages.map fun m => utf8 m.text)

@[simp] lemma bytesOf_nil : bytesOf [] = [] := rfl

lemma bytesOf_append (messages messages' : List Message) :
    bytesOf (messages ++ messages') = bytesOf messages ++ bytesOf messages' := by
  rw [bytesOf, List.map_append, lines_append]
  rfl

lemma bytesOf_cons (m : Message) (messages : List Message) :
    bytesOf (m :: messages) = utf8 m.text ++ 10 :: bytesOf messages := lines_cons _ _

lemma notMem_bytes (messages : List Message) :
    ∀ line ∈ messages.map fun m => utf8 m.text, (10 : UInt8) ∉ line := by
  intro line hline
  obtain ⟨m, -, rfl⟩ := List.mem_map.mp hline
  exact lineFeed_notMem_utf8 m.oneLine

/-- What is still to come of a stream, and the messages of whose lines something is. -/
inductive AwaitsLine : Bytes → List Message → Prop
  | done : AwaitsLine [] []
  | within {m : Message} {part : Bytes} {b : UInt8} {rest : Bytes} {coming : List Message}
      (h : utf8 m.text ++ [10] = part ++ b :: rest) :
      AwaitsLine (b :: rest ++ bytesOf coming) (m :: coming)

/-- A buffer with the bytes that are to come: the lines that are complete in it, and part of the
next. -/
structure Held (buf future : Bytes) (arrived coming : List Message) : Prop where
  split : ∃ tail, buf = bytesOf arrived ++ tail ∧ tail ++ future = bytesOf coming ∧ 10 ∉ tail

lemma Held.awaits {buf future : Bytes} {arrived coming : List Message}
    (h : Held buf future arrived coming) : AwaitsLine future coming := by
  obtain ⟨tail, -, hfuture, htail⟩ := h.split
  cases coming with
  | nil =>
    obtain ⟨-, rfl⟩ := List.append_eq_nil_iff.mp hfuture
    exact .done
  | cons m coming =>
    rw [bytesOf_cons] at hfuture
    obtain ⟨b, rest, hm, rfl⟩ | ⟨rfl, rfl⟩ | ⟨tail', rfl, -⟩ := piece_cases hfuture
    · have hline : utf8 m.text ++ [10] = tail ++ b :: (rest ++ [10]) := by
        rw [hm, List.append_assoc, List.cons_append]
      have hawaits := @AwaitsLine.within _ m tail b (rest ++ [10]) coming hline
      rwa [List.cons_append, List.append_assoc, List.singleton_append] at hawaits
    · exact .within rfl
    · exact absurd (List.mem_append_right _ List.mem_cons_self) htail

/-- More of the stream completes more of the lines. -/
lemma Held.extend {buf bytes future : Bytes} {arrived coming : List Message}
    (h : Held buf (bytes ++ future) arrived coming) :
    ∃ new coming', coming = new ++ coming' ∧ Held (buf ++ bytes) future (arrived ++ new) coming' := by
  obtain ⟨tail, rfl, hfuture, -⟩ := h.split
  rw [← List.append_assoc] at hfuture
  obtain ⟨new, rest, tail', hsplit, hbytes, hrest, htail'⟩ :=
    exists_piece hfuture (notMem_bytes coming)
  obtain ⟨new, coming', rfl, rfl, rfl⟩ := List.map_eq_append_iff.mp hsplit
  refine ⟨new, coming', rfl, ⟨tail', ?_, hrest, htail'⟩⟩
  rw [List.append_assoc, hbytes, bytesOf_append, List.append_assoc]
  rfl

end Bytes

/-! ## Lines -/

section Turns

variable [JsonText]

/-- A line is read as the text it is the bytes of. -/
lemma trim_fromUtf8Lossy (m : Message) :
    Text.trim (fromUtf8Lossy (utf8 m.text ++ [10])) = m.text := by
  have hline : utf8 m.text ++ [10] = utf8 (m.text ++ ['\n']) := by
    rw [utf8_append]
    rfl
  rw [hline, fromUtf8Lossy_utf8]
  exact Text.trim_append_singleton m.trim_eq (by decide)

lemma lineTurn_message (id : ℕ) (notice : Bool) (m : Message) :
    lineTurn id notice (utf8 m.text) =
      (messageTurn id notice m).map (fun found => found) fun n => n := by
  simp only [lineTurn, trim_fromUtf8Lossy, m.fromStr_eq, messageTurn]
  have hvalue : m.value = .object m.members := rfl
  rw [Message.isChange, hvalue]
  cases rpcValueForId (.object m.members) id <;> rfl

lemma search_drainTurn (notice : Bool) (messages : List Message) :
    search drainTurn notice (messages.map fun m => utf8 m.text) =
      .inr (notice || messages.any Message.isChange) := by
  induction messages generalizing notice with
  | nil => rw [List.any_nil, Bool.or_false]; rfl
  | cons m messages ih =>
    have hturn : drainTurn notice (utf8 m.text) = .inr (notice || m.isChange) := by
      simp only [drainTurn, trim_fromUtf8Lossy, m.fromStr_eq]
      rfl
    rw [List.map_cons, search, hturn]
    simp only [ih, List.any_cons, Bool.or_assoc]

/-- A buffer's complete lines are searched as the messages they are. -/
lemma scan_bytesOf (id : ℕ) (notice : Bool) (arrived : List Message) {tail : Bytes}
    (htail : 10 ∉ tail) :
    (∃ r notice' left,
        scan 10 (lineTurn id) notice [] (bytesOf arrived ++ tail) =
          .inl ((r, notice'), bytesOf left ++ tail) ∧
        Served id notice arrived (some r) notice' left) ∨
      ∃ notice', scan 10 (lineTurn id) notice [] (bytesOf arrived ++ tail) = .inr (notice', tail) ∧
        Served id notice arrived none notice' [] := by
  rw [bytesOf, scan_lines (notMem_bytes arrived) htail,
    search_map fun notice m _ => lineTurn_message id notice m]
  obtain ⟨r, notice', left, hsearch, hserved⟩ | ⟨notice', hsearch, hserved⟩ :=
    search_messages id notice arrived
  · rw [hsearch]
    exact .inl ⟨r, notice', left, rfl, hserved⟩
  · rw [hsearch]
    exact .inr ⟨notice', rfl, hserved⟩

/-! ## Calls -/

/-- `rpc` reads what has arrived and what the pieces complete, up to its answer. -/
lemma Tcp.read_spec {tcp : Tcp} {chunks : List Bytes} {future : Bytes}
    {arrived coming : List Message} (id : ℕ)
    (h : Held tcp.buf (chunks.flatten ++ future) arrived coming) :
    ∃ r tcp' rest new coming' left, coming = new ++ coming' ∧
      tcp.read id chunks = (r, tcp', rest) ∧
      Served id tcp.notice (arrived ++ new) r tcp'.notice left ∧
      Held tcp'.buf (rest.flatten ++ future) left coming' ∧ tcp'.nextId = tcp.nextId := by
  induction chunks generalizing tcp arrived coming with
  | nil =>
    obtain ⟨tail, hbuf, hfuture, htail⟩ := h.split
    rw [Tcp.read, hbuf]
    obtain ⟨r, notice', left, hscan, hserved⟩ | ⟨notice', hscan, hserved⟩ :=
      scan_bytesOf id tcp.notice arrived htail
    · rw [hscan]
      refine ⟨some r, _, [], [], coming, left, rfl, rfl, ?_, ⟨tail, rfl, hfuture, htail⟩, rfl⟩
      rw [List.append_nil]
      exact hserved
    · rw [hscan]
      refine ⟨none, _, [], [], coming, [], rfl, rfl, ?_, ⟨tail, rfl, hfuture, htail⟩, rfl⟩
      rw [List.append_nil]
      exact hserved
  | cons chunk chunks ih =>
    obtain ⟨tail, hbuf, hfuture, htail⟩ := h.split
    rw [Tcp.read, hbuf]
    obtain ⟨r, notice', left, hscan, hserved⟩ | ⟨notice', hscan, hserved⟩ :=
      scan_bytesOf id tcp.notice arrived htail
    · rw [hscan]
      refine ⟨some r, _, chunk :: chunks, [], coming, left, rfl, rfl, ?_,
        ⟨tail, rfl, hfuture, htail⟩, rfl⟩
      rw [List.append_nil]
      exact hserved
    · rw [hscan]
      have hkept : Held tail (chunk ++ (chunks.flatten ++ future)) [] coming := by
        refine ⟨tail, rfl, ?_, htail⟩
        rw [← List.append_assoc chunk, ← List.flatten_cons]
        exact hfuture
      obtain ⟨new, coming', rfl, hheld⟩ := hkept.extend
      obtain ⟨r, tcp', rest, new', coming'', left, rfl, hread, hserved', hheld', hnext⟩ :=
        @ih ⟨tcp.nextId, tail ++ chunk, notice'⟩ _ coming' hheld
      refine ⟨r, tcp', rest, new ++ new', coming'', left, (List.append_assoc _ _ _).symm, hread,
        ?_, hheld', hnext⟩
      exact hserved.append hserved'

/-- `take_change` reads what has arrived and what the pieces complete. -/
lemma Tcp.drain_spec {tcp : Tcp} {chunks : List Bytes} {future : Bytes}
    {arrived coming : List Message}
    (h : Held tcp.buf (chunks.flatten ++ future) arrived coming) :
    ∃ new coming', coming = new ++ coming' ∧
      (tcp.drain chunks).notice = (tcp.notice || (arrived ++ new).any Message.isChange) ∧
      Held (tcp.drain chunks).buf future [] coming' ∧ (tcp.drain chunks).nextId = tcp.nextId := by
  obtain ⟨new, coming', rfl, hheld⟩ := h.extend
  obtain ⟨tail, hbuf, hfuture, htail⟩ := hheld.split
  have hscan : scan 10 drainTurn tcp.notice [] (tcp.buf ++ chunks.flatten) =
      .inr (tcp.notice || (arrived ++ new).any Message.isChange, tail) := by
    rw [hbuf, bytesOf, scan_lines (notMem_bytes _) htail, search_drainTurn]
  refine ⟨new, coming', rfl, ?_⟩
  rw [Tcp.drain, hscan]
  exact ⟨rfl, ⟨tail, rfl, hfuture, htail⟩, rfl⟩

end Turns

end Pickaxe.Electrum
