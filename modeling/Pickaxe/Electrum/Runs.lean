/-
# Calls over a link

A client's calls on its link, each with the pieces that come in time for it, read the messages one by
one: over TCP always, over a WebSocket where a call into which no text comes finds nothing complete
in the buffer.
-/
import Mathlib.Data.List.Forall2
import Pickaxe.Electrum.Panic
import Pickaxe.Electrum.Tcp
import Pickaxe.Electrum.WebSocket

namespace Pickaxe.Electrum

open Lib Lines

/-- A call, and how many of the next pieces come in time for it. -/
inductive Call where
  | rpc (pieces : ℕ)
  | takeChange (pieces : ℕ)

def Call.pieces : Call → ℕ
  | rpc pieces => pieces
  | takeChange pieces => pieces

section Runs

variable [JsonText]

/-! ## WebSocket -/

/-- A call over a WebSocket: what happens, and the client and the texts after it. -/
def Ws.call (ws : Ws) (texts : List (List Char)) (call : Call) : Event × Ws × List (List Char) :=
  match call with
  | .rpc pieces =>
    match ws.rpc (texts.take pieces) with
    | (none, ws', rest) => (.rpc ws.nextId none, ws', rest ++ texts.drop pieces)
    | (some (.returned r), ws', rest) => (.rpc ws.nextId (some r), ws', rest ++ texts.drop pieces)
    | (some .panicked, ws', rest) => (.failed, ws', rest ++ texts.drop pieces)
  | .takeChange pieces =>
    match ws.takeChange (texts.take pieces) with
    | (.inr change, ws', rest) => (.took change, ws', rest ++ texts.drop pieces)
    | (.inl _, ws', rest) => (.failed, ws', rest ++ texts.drop pieces)

/-- A call into which no text comes finds nothing complete in the buffer. -/
def Ws.Ready (ws : Ws) (texts : List (List Char)) (call : Call) : Prop :=
  texts.take call.pieces = [] →
    '\n' ∉ ws.buf ∧ ∀ value, JsonText.fromStr (Text.trim ws.buf) ≠ .ok value

/-- Calls over a WebSocket on which some texts come, each with the text that is still to come behind
it; `ready` is what a call may rely on. -/
inductive WsRuns (ready : Ws → List (List Char) → Call → Prop) (texts : List (List Char)) :
    List (Event × List Char) → Ws → List (List Char) → Prop
  | connected : WsRuns ready texts [] ⟨1, [], false⟩ texts
  | called {history : List (Event × List Char)} {ws : Ws} {rest : List (List Char)}
      (h : WsRuns ready texts history ws rest) (call : Call) (hready : ready ws rest call) :
      WsRuns ready texts (history ++ [((ws.call rest call).1, (ws.call rest call).2.2.flatten)])
        (ws.call rest call).2.1 (ws.call rest call).2.2

lemma Ws.call_rpc_ne_took (ws : Ws) (texts : List (List Char)) (pieces : ℕ) (change : Bool) :
    (ws.call texts (.rpc pieces)).1 ≠ .took change := by
  rw [Ws.call]
  split <;> exact nofun

/-! ## TCP -/

/-- A call over TCP. -/
def Tcp.call (tcp : Tcp) (chunks : List Bytes) (call : Call) : Event × Tcp × List Bytes :=
  match call with
  | .rpc pieces =>
    let result := tcp.rpc (chunks.take pieces)
    (.rpc tcp.nextId result.1, result.2.1, result.2.2 ++ chunks.drop pieces)
  | .takeChange pieces =>
    let result := tcp.takeChange (chunks.take pieces)
    (.took result.1, result.2, chunks.drop pieces)

/-- Calls over TCP. -/
inductive TcpRuns (chunks : List Bytes) : List (Event × Bytes) → Tcp → List Bytes → Prop
  | connected : TcpRuns chunks [] ⟨1, [], false⟩ chunks
  | called {history : List (Event × Bytes)} {tcp : Tcp} {rest : List Bytes}
      (h : TcpRuns chunks history tcp rest) (call : Call) :
      TcpRuns chunks (history ++ [((tcp.call rest call).1, (tcp.call rest call).2.2.flatten)])
        (tcp.call rest call).2.1 (tcp.call rest call).2.2

/-! ## Simulation -/

/-- The messages a server sends, before any has come. -/
def Reader.start (messages : List Message) : Reader := ⟨[], [], [], messages⟩

lemma start_all (messages : List Message) : (Reader.start messages).all = messages := rfl

/-- New messages arrive before a call. -/
lemma ReaderRuns.call {r : Reader} {history : List (Event × List Message)} {event : Event}
    {reported unreported arrived new coming : List Message} {r'' : Reader}
    (h : ReaderRuns r history ⟨reported, unreported, arrived, new ++ coming⟩)
    (hreads : Reads ⟨reported, unreported, arrived ++ new, coming⟩ event r'') :
    ReaderRuns r (history ++ [(event, r''.coming)]) r'' :=
  .read (.arrive h) hreads

/-- A client on a WebSocket and the reader it is. -/
structure Ws.Simulates (ws : Ws) (future : List Char) (r : Reader) : Prop where
  buffered : Buffered ws.buf future r.arrived r.coming
  notice : ws.notice = r.unreported.any Message.isChange

/-- A call over a WebSocket is one of the reader. -/
lemma Ws.Simulates.call {ws : Ws} {texts : List (List Char)} {r start : Reader}
    {history : List (Event × List Message)} (h : ws.Simulates texts.flatten r)
    (hruns : ReaderRuns start history r)
    (hzero : ∀ m ∈ start.all, idMatches m.value 0 = false) (call : Call)
    (hready : ws.Ready texts call) :
    ∃ r', ReaderRuns start (history ++ [((ws.call texts call).1, r'.coming)]) r' ∧
      (ws.call texts call).2.1.Simulates (ws.call texts call).2.2.flatten r' := by
  obtain ⟨reported, unreported, arrived, coming⟩ := r
  obtain ⟨hbuffered, hnotice⟩ := h
  have hall := hruns.all
  have hempty : texts.take call.pieces = [] → arrived = [] := fun hnone =>
    hbuffered.arrived_eq_nil (hready hnone).1 (hready hnone).2
  have hflatten : texts.flatten =
      (texts.take call.pieces).flatten ++ (texts.drop call.pieces).flatten := by
    rw [← List.flatten_append, List.take_append_drop]
  rw [hflatten] at hbuffered
  cases call with
  | rpc pieces =>
    obtain ⟨reply, ws', rest, new, coming', left, rfl, hread, hserved, hbuffered', -⟩ :=
      @Ws.read_spec _ { ws with nextId := ws.nextId + 1 } _ _ _ _ ws.nextId hbuffered hempty
    obtain ⟨unreported', hnotice', hreads⟩ :=
      (hnotice ▸ hserved : Served ws.nextId (unreported.any Message.isChange) (arrived ++ new) reply
        ws'.notice left).reads
    have hcall : ws.call texts (.rpc pieces) =
        (.rpc ws.nextId reply, ws', rest ++ texts.drop pieces) := by
      have hrpc : ws.rpc (texts.take pieces) = (reply.map Outcome.returned, ws', rest) := hread
      simp only [Ws.call, hrpc]
      cases reply <;> rfl
    rw [hcall]
    refine ⟨⟨reported, unreported', left, coming'⟩, hruns.call hreads, ?_, hnotice'⟩
    rw [List.flatten_append]
    exact hbuffered'
  | takeChange pieces =>
    have hnone : ∀ m ∈ arrived ++ coming, idMatches m.value 0 = false := by
      intro m hm
      refine hzero m ?_
      rw [← hall, Reader.all, List.append_assoc]
      exact List.mem_append_right _ hm
    obtain ⟨ws', new, coming', rfl, hdrain, hnotice', hbuffered', -⟩ :=
      ws.drain_spec hbuffered hempty hnone
    have hcall : ws.call texts (.takeChange pieces) =
        (.took ws'.notice, { ws' with notice := false }, texts.drop pieces) := by
      have hdrain' : ws.drain (texts.take pieces) = (none, ws', []) := hdrain
      simp only [Ws.call, Ws.takeChange, hdrain', List.nil_append]
    rw [hcall, hnotice', hnotice, ← List.any_append]
    exact ⟨⟨_, [], [], coming'⟩, hruns.call .took, hbuffered', rfl⟩

/-- A client on TCP and the reader it is. -/
structure Tcp.Simulates (tcp : Tcp) (future : Bytes) (r : Reader) : Prop where
  held : Held tcp.buf future r.arrived r.coming
  notice : tcp.notice = r.unreported.any Message.isChange

/-- A call over TCP is one of the reader. -/
lemma Tcp.Simulates.call {tcp : Tcp} {chunks : List Bytes} {r start : Reader}
    {history : List (Event × List Message)} (h : tcp.Simulates chunks.flatten r)
    (hruns : ReaderRuns start history r) (call : Call) :
    ∃ r', ReaderRuns start (history ++ [((tcp.call chunks call).1, r'.coming)]) r' ∧
      (tcp.call chunks call).2.1.Simulates (tcp.call chunks call).2.2.flatten r' := by
  obtain ⟨reported, unreported, arrived, coming⟩ := r
  obtain ⟨hheld, hnotice⟩ := h
  have hflatten : chunks.flatten =
      (chunks.take call.pieces).flatten ++ (chunks.drop call.pieces).flatten := by
    rw [← List.flatten_append, List.take_append_drop]
  rw [hflatten] at hheld
  cases call with
  | rpc pieces =>
    obtain ⟨reply, tcp', rest, new, coming', left, rfl, hread, hserved, hheld', -⟩ :=
      @Tcp.read_spec _ { tcp with nextId := tcp.nextId + 1 } _ _ _ _ tcp.nextId hheld
    obtain ⟨unreported', hnotice', hreads⟩ :=
      (hnotice ▸ hserved : Served tcp.nextId (unreported.any Message.isChange) (arrived ++ new) reply
        tcp'.notice left).reads
    have hcall : tcp.call chunks (.rpc pieces) =
        (.rpc tcp.nextId reply, tcp', rest ++ chunks.drop pieces) := by
      have hrpc : tcp.rpc (chunks.take pieces) = (reply, tcp', rest) := hread
      simp only [Tcp.call, hrpc]
    rw [hcall]
    refine ⟨⟨reported, unreported', left, coming'⟩, hruns.call hreads, ?_, hnotice'⟩
    rw [List.flatten_append]
    exact hheld'
  | takeChange pieces =>
    obtain ⟨new, coming', rfl, hnotice', hheld', -⟩ := tcp.drain_spec hheld
    have hcall : (tcp.call chunks (.takeChange pieces)).1 =
        .took ((unreported ++ (arrived ++ new)).any Message.isChange) := by
      rw [List.any_append, ← hnotice]
      exact congrArg Event.took hnotice'
    rw [hcall]
    exact ⟨⟨_, [], [], coming'⟩, hruns.call .took, hheld', rfl⟩

/-! ## Runs -/

variable {messages : List Message}

lemma WsRuns.simulates {texts rest : List (List Char)} {history : List (Event × List Char)} {ws : Ws}
    (h : WsRuns Ws.Ready texts history ws rest) (htexts : texts.flatten = textOf messages)
    (hzero : ∀ m ∈ messages, idMatches m.value 0 = false) :
    ∃ history' r, ReaderRuns (.start messages) history' r ∧
      List.Forall₂ (fun e e' => e.1 = e'.1 ∧ Awaits e.2 e'.2) history history' ∧
      ws.Simulates rest.flatten r := by
  induction h with
  | connected =>
    have hlinked : Linked [] texts.flatten [] messages :=
      @Linked.within _ [] texts.flatten [] messages htexts nofun fun m _ =>
        ⟨List.nil_prefix, m.ne_nil.symm⟩
    exact ⟨[], .start messages, .refl, .nil, .linked hlinked, rfl⟩
  | called _ call hready ih =>
    obtain ⟨history', r, hruns, hsame, hsimulates⟩ := ih
    obtain ⟨r', hruns', hsimulates'⟩ := hsimulates.call hruns hzero call hready
    refine ⟨_, r', hruns', ?_, hsimulates'⟩
    exact List.rel_append hsame (.cons ⟨rfl, hsimulates'.buffered.awaits⟩ .nil)

lemma TcpRuns.simulates {chunks rest : List Bytes} {history : List (Event × Bytes)} {tcp : Tcp}
    (h : TcpRuns chunks history tcp rest) (hchunks : chunks.flatten = bytesOf messages) :
    ∃ history' r, ReaderRuns (.start messages) history' r ∧
      List.Forall₂ (fun e e' => e.1 = e'.1 ∧ AwaitsLine e.2 e'.2) history history' ∧
      tcp.Simulates rest.flatten r := by
  induction h with
  | connected => exact ⟨[], .start messages, .refl, .nil, ⟨[], rfl, hchunks, nofun⟩, rfl⟩
  | called _ call ih =>
    obtain ⟨history', r, hruns, hsame, hsimulates⟩ := ih
    obtain ⟨r', hruns', hsimulates'⟩ := hsimulates.call hruns call
    refine ⟨_, r', hruns', ?_, hsimulates'⟩
    exact List.rel_append hsame (.cons ⟨rfl, hsimulates'.held.awaits⟩ .nil)

/-- However the messages are cut into texts or into pieces, the calls read them one by one: over TCP
in every run, over a WebSocket where no message has the id 0 and a call into which no text comes
finds nothing complete in the buffer.  A text makes the client panic exactly at a line that is no
value and cannot be quoted, and an id is matched by itself only. -/
theorem framing_independent :
    (∀ messages texts history ws rest, texts.flatten = textOf messages →
      (∀ m ∈ messages, idMatches m.value 0 = false) → WsRuns Ws.Ready texts history ws rest →
      ∃ history' r, ReaderRuns (.start messages) history' r ∧ r.all = messages ∧
        List.Forall₂ (fun e e' => e.1 = e'.1 ∧ Awaits e.2 e'.2) history history') ∧
    (∀ messages chunks history tcp rest, chunks.flatten = bytesOf messages →
      TcpRuns chunks history tcp rest →
      ∃ history' r, ReaderRuns (.start messages) history' r ∧ r.all = messages ∧
        List.Forall₂ (fun e e' => e.1 = e'.1 ∧ AwaitsLine e.2 e'.2) history history') ∧
    (∀ buf text id notice, (consumeRpcText buf text id notice).outcome = some .panicked ↔
      ∃ before line rest, buf ++ text = lines '\n' before ++ (line ++ '\n' :: rest) ∧
        (∀ b ∈ before, '\n' ∉ b ∧ Passes id b) ∧ '\n' ∉ line ∧ Unquotable line) ∧
    ∀ value id, id < 2 ^ 63 → (idMatches value id = true ↔
      ∃ n : UInt64, n.toNat = id ∧ value.get? "id" = some (.unsigned n)) := by
  refine ⟨?_, ?_, fun _ _ _ _ => panicked_iff, fun _ _ => idMatches_iff⟩
  · intro messages texts history ws rest htexts hzero hruns
    obtain ⟨history', r, hreader, hsame, -⟩ := hruns.simulates htexts hzero
    exact ⟨history', r, hreader, hreader.all.trans (start_all messages), hsame⟩
  · intro messages chunks history tcp rest hchunks hruns
    obtain ⟨history', r, hreader, hsame, -⟩ := hruns.simulates hchunks
    exact ⟨history', r, hreader, hreader.all.trans (start_all messages), hsame⟩

end Runs

/-! ## A notice behind an answer -/

/-- An answer to the first call. -/
def sampleAnswer : List Char := "\x7b\"id\":1,\"result\":0\x7d".toList

/-- A notice of a new block. -/
def sampleNotice : List Char := "\x7b\"method\":\"blockchain.headers.subscribe\"\x7d".toList

/-- The values of the two. -/
def sampleAnswerMembers : List (String × Json) := [("id", .unsigned 1), ("result", .unsigned 0)]

def sampleNoticeMembers : List (String × Json) :=
  [("method", .string "blockchain.headers.subscribe".toList)]

/-- JSON, as far as the two texts go. -/
abbrev sampleJson : JsonText where
  fromStr text :=
    if text = sampleAnswer then .ok (.object sampleAnswerMembers)
    else if text = sampleNotice then .ok (.object sampleNoticeMembers)
    else .error "expected value at line 1 column 1"
  display _ := []
  fromStr_whole := by
    intro text members part htext _ hpart hne
    have hcases : text = sampleAnswer ∨ text = sampleNotice := by
      by_contra hnot
      rw [not_or] at hnot
      rw [if_neg hnot.1, if_neg hnot.2] at htext
      cases htext
    have hanswer : part ≠ sampleAnswer := by
      rintro rfl
      obtain rfl | rfl := hcases
      · exact hne rfl
      · exact absurd hpart (by decide +kernel)
    have hnotice : part ≠ sampleNotice := by
      rintro rfl
      obtain rfl | rfl := hcases
      · exact absurd hpart (by decide +kernel)
      · exact hne rfl
    exact ⟨_, (if_neg hanswer).trans (if_neg hnotice)⟩

/-- The two as messages. -/
def sampleMessages : List (@Message sampleJson) :=
  let _ : JsonText := sampleJson
  [⟨sampleAnswer, sampleAnswerMembers, if_pos rfl, by decide +kernel, by decide +kernel,
      by decide +kernel⟩,
    ⟨sampleNotice, sampleNoticeMembers, (if_neg (by decide +kernel)).trans (if_pos rfl),
      by decide +kernel, by decide +kernel, by decide +kernel⟩]

/-- The two in a text each. -/
def sampleTexts : List (List Char) := [sampleAnswer ++ ['\n'], sampleNotice ++ ['\n']]

/-- No sample has the id 0. -/
lemma sampleMessages_zero :
    ∀ m ∈ sampleMessages, idMatches (@Message.value sampleJson m) 0 = false := by
  intro m hm
  obtain rfl | hm := List.mem_cons.mp hm
  · decide +kernel
  · obtain rfl := List.mem_singleton.mp hm
    decide +kernel

/-- A call that gets its answer, and one that gets the notice. -/
theorem framing_independent_sample :
    let _ : JsonText := sampleJson
    ∃ history ws rest history' r, history.length = 2 ∧
      WsRuns Ws.Ready sampleTexts history ws rest ∧
      ReaderRuns (.start sampleMessages) history' r ∧ r.all = sampleMessages ∧
        List.Forall₂ (fun e e' => e.1 = e'.1 ∧ Awaits e.2 e'.2) history history' := by
  intro json
  have hready : Ws.Ready ⟨1, [], false⟩ sampleTexts (.rpc 1) := nofun
  have hleft : (Ws.call ⟨1, [], false⟩ sampleTexts (.rpc 1)).2.2 = [sampleNotice ++ ['\n']] := by
    decide +kernel
  have hready' : Ws.Ready (Ws.call ⟨1, [], false⟩ sampleTexts (.rpc 1)).2.1
      (Ws.call ⟨1, [], false⟩ sampleTexts (.rpc 1)).2.2 (.takeChange 1) := by
    intro hnone
    rw [hleft] at hnone
    cases hnone
  have hruns := WsRuns.called (.called .connected (.rpc 1) hready) (.takeChange 1) hready'
  obtain ⟨history', r, hreader, hall, hsame⟩ :=
    framing_independent.1 sampleMessages sampleTexts _ _ _ (by decide +kernel) sampleMessages_zero hruns
  exact ⟨_, _, _, history', r, rfl, hruns, hreader, hall, hsame⟩

/-- The first call over a WebSocket on which both come in one text. -/
def sampleCall : Event × Ws × List (List Char) :=
  let _ : JsonText := sampleJson
  Ws.call ⟨1, [], false⟩ [textOf sampleMessages] (.rpc 1)

/-- The notice stays in the buffer behind it. -/
lemma sampleCall_notice : sampleCall.2.1.notice = false ∧ sampleCall.2.2 = [] := by decide +kernel

/-- A line of 159 letters and a letter of two bytes makes the client panic; and a notice that comes
with an answer, in one text behind it, is not reported by the next call of `take_change`. -/
theorem framing_fails :
    let _ : JsonText := sampleJson
    (consumeRpcText [] (List.replicate 159 'a' ++ [Char.ofNat 0xe9, '\n']) 1 false).outcome =
        some .panicked ∧
      ∃ messages texts history ws rest, texts.flatten = textOf messages ∧
        (∀ m ∈ messages, idMatches m.value 0 = false) ∧
        WsRuns (fun _ _ _ => True) texts history ws rest ∧
        ¬ ∃ history' r, ReaderRuns (.start messages) history' r ∧
          List.Forall₂ (fun e e' => e.1 = e'.1 ∧ Awaits e.2 e'.2) history history' := by
  intro json
  constructor
  · refine panicked_iff.mpr ⟨[], List.replicate 159 'a' ++ [Char.ofNat 0xe9], [],
      by decide +kernel, nofun, by decide +kernel, by decide +kernel,
      ⟨_, (if_neg ?_).trans (if_neg ?_)⟩, by decide +kernel⟩
    · decide +kernel
    · decide +kernel
  · refine ⟨sampleMessages, [textOf sampleMessages], _, _, _, List.append_nil _, ?_,
      .called (.called .connected (.rpc 1) trivial) (.takeChange 0) trivial, ?_⟩
    · exact sampleMessages_zero
    · rintro ⟨history', r, hruns, hsame⟩
      obtain - | @⟨_, first, _, _, ⟨hfirst, -⟩, hsame⟩ := hsame
      obtain - | @⟨_, last, _, _, ⟨hlast, hawaits⟩, ⟨⟩⟩ := hsame
      have hrpc : first.1 ≠ .took true := hfirst ▸ Ws.call_rpc_ne_took _ _ _ _
      have htook : last.1 = .took false := by
        rw [← hlast]
        exact congrArg Event.took sampleCall_notice.1
      have hcoming : last.2 = [] := by
        have hnone : Awaits sampleCall.2.2.flatten last.2 := hawaits
        rw [sampleCall_notice.2] at hnone
        generalize last.2 = coming at hnone
        cases hnone
        rfl
      have hall : r.reported = sampleMessages :=
        hruns.reported_eq_all (congrArg some (Prod.ext htook hcoming))
      have hquiet := hruns.quiet rfl (List.forall_mem_cons.mpr ⟨hrpc,
        List.forall_mem_singleton.mpr (htook ▸ nofun)⟩)
      -- but the second message is a notice
      rw [hall] at hquiet
      have hnotice := hquiet _ (List.mem_cons_of_mem _ List.mem_cons_self)
      exact absurd hnotice (by decide +kernel)

end Pickaxe.Electrum
