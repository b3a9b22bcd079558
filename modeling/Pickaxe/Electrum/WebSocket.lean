/-
# Messages over a WebSocket

However the texts are cut, a text that comes is read as the messages that are complete with it; one
whose line feed has not come yet counts (`consume_buffered`).  What is left in the buffer is read
when the next text comes.
-/
import Pickaxe.Electrum.Reader

namespace Pickaxe.Electrum

open Lib Lines

section Texts

variable [JsonText]

/-- The text of messages. -/
def textOf (messages : List Message) : List Char := lines '\n' (messages.map Message.text)

@[simp] lemma textOf_nil : textOf [] = [] := rfl

lemma textOf_append (messages messages' : List Message) :
    textOf (messages ++ messages') = textOf messages ++ textOf messages' := by
  rw [textOf, List.map_append, lines_append]
  rfl

lemma textOf_cons (m : Message) (messages : List Message) :
    textOf (m :: messages) = m.text ++ '\n' :: textOf messages := lines_cons _ _

lemma lineFeed_mem_textOf_cons (m : Message) (messages : List Message) :
    '\n' ∈ textOf (m :: messages) := by
  rw [textOf_cons]
  exact List.mem_append_right _ List.mem_cons_self

/-- What is still to come of a text, and the messages of which more than the line feed is. -/
inductive Awaits : List Char → List Message → Prop
  | done : Awaits [] []
  | within {m : Message} {part : List Char} {c : Char} {rest : List Char} {coming : List Message}
      (h : m.text = part ++ c :: rest) : Awaits (c :: rest ++ '\n' :: textOf coming) (m :: coming)
  | lineFeed {coming : List Message} : Awaits ('\n' :: textOf coming) coming

/-! ## The buffer -/

/-- A buffer with the text that is to come: which messages are complete in it, and which are to
come. -/
inductive Linked : List Char → List Char → List Message → List Message → Prop
  /-- The next message is not complete. -/
  | within {tail future : List Char} {arrived coming : List Message}
      (h : tail ++ future = textOf coming) (htail : '\n' ∉ tail)
      (hpart : ∀ m ∈ coming.head?, tail <+: m.text ∧ tail ≠ m.text) :
      Linked (textOf arrived ++ tail) future arrived coming
  /-- The last message is complete but for its line feed. -/
  | unended {arrived coming : List Message} {last : Message} :
      Linked (textOf arrived ++ last.text) ('\n' :: textOf coming) (arrived ++ [last]) coming

lemma Linked.prepend {text future : List Char} {new coming : List Message}
    (h : Linked text future new coming) (arrived : List Message) :
    Linked (textOf arrived ++ text) future (arrived ++ new) coming := by
  cases h with
  | @within tail _ new _ h htail hpart =>
    rw [← List.append_assoc, ← textOf_append]
    exact .within h htail hpart
  | @unended new _ last =>
    rw [← List.append_assoc, ← textOf_append, ← List.append_assoc]
    exact .unended

/-- What has come of a text of messages. -/
lemma exists_linked {text future : List Char} {messages : List Message}
    (h : text ++ future = textOf messages) :
    ∃ new coming, messages = new ++ coming ∧ Linked text future new coming := by
  induction messages generalizing text with
  | nil =>
    obtain ⟨rfl, rfl⟩ := List.append_eq_nil_iff.mp h
    exact ⟨[], [], rfl, @Linked.within _ [] [] [] [] rfl nofun nofun⟩
  | cons m messages ih =>
    have hstream := h
    rw [textOf_cons] at h
    obtain ⟨c, l, hm, -⟩ | ⟨rfl, rfl⟩ | ⟨text', rfl, hrest⟩ := piece_cases h
    · refine ⟨[], m :: messages, rfl, @Linked.within _ text future [] (m :: messages) hstream ?_ ?_⟩
      · exact fun hmem => m.oneLine (hm ▸ List.mem_append_left _ hmem)
      · rintro _ ⟨⟩
        refine ⟨⟨c :: l, hm.symm⟩, fun htext => ?_⟩
        simpa [htext] using congrArg List.length hm
    · exact ⟨[m], messages, rfl, @Linked.unended _ [] messages m⟩
    · obtain ⟨new, coming, rfl, hlinked⟩ := ih hrest
      have hmore := hlinked.prepend [m]
      rw [textOf_cons, textOf_nil, List.append_assoc, List.cons_append, List.nil_append] at hmore
      exact ⟨m :: new, coming, rfl, hmore⟩

/-- More of the text completes more of the messages. -/
lemma Linked.extend {buf text future : List Char} {arrived coming : List Message}
    (h : Linked buf (text ++ future) arrived coming) :
    ∃ new coming', coming = new ++ coming' ∧
      Linked (buf ++ text) future (arrived ++ new) coming' := by
  generalize hall : text ++ future = all at h
  cases h with
  | @within tail _ _ _ h _ _ =>
    subst hall
    rw [← List.append_assoc] at h
    obtain ⟨new, coming', rfl, hlinked⟩ := exists_linked h
    refine ⟨new, coming', rfl, ?_⟩
    rw [List.append_assoc]
    exact hlinked.prepend _
  | @unended arrived _ last =>
    cases text with
    | nil =>
      subst hall
      refine ⟨[], coming, rfl, ?_⟩
      rw [List.append_nil, List.append_nil]
      exact .unended
    | cons c text =>
      obtain ⟨rfl, hrest⟩ := List.cons_eq_cons.mp hall
      obtain ⟨new, coming', rfl, hlinked⟩ := exists_linked hrest
      refine ⟨new, coming', rfl, ?_⟩
      have hmore := hlinked.prepend (arrived ++ [last])
      rw [textOf_append, textOf_cons, textOf_nil, List.append_assoc] at hmore
      rw [List.append_assoc]
      simpa using hmore

/-- A buffer between calls: linked, or empty behind a message whose line feed is to come. -/
inductive Buffered : List Char → List Char → List Message → List Message → Prop
  | linked {buf future : List Char} {arrived coming : List Message}
      (h : Linked buf future arrived coming) : Buffered buf future arrived coming
  | ended {coming : List Message} : Buffered [] ('\n' :: textOf coming) [] coming

lemma Buffered.awaits {buf future : List Char} {arrived coming : List Message}
    (h : Buffered buf future arrived coming) : Awaits future coming := by
  cases h with
  | linked h =>
    cases h with
    | @within tail _ _ _ h htail hpart =>
      cases coming with
      | nil =>
        obtain ⟨-, rfl⟩ := List.append_eq_nil_iff.mp h
        exact .done
      | cons m coming =>
        obtain ⟨⟨rest, hrest⟩, hne⟩ := hpart m rfl
        cases rest with
        | nil => exact absurd ((List.append_nil _).symm.trans hrest) hne
        | cons c rest =>
          rw [textOf_cons, ← hrest, List.append_assoc, List.append_cancel_left_eq] at h
          rw [h]
          exact .within hrest.symm
    | unended => exact .lineFeed
  | ended => exact .lineFeed

/-- Where nothing in the buffer is complete, no message waits in it. -/
lemma Buffered.arrived_eq_nil {buf future : List Char} {arrived coming : List Message}
    (h : Buffered buf future arrived coming) (hline : '\n' ∉ buf)
    (hvalue : ∀ value, JsonText.fromStr (Text.trim buf) ≠ .ok value) : arrived = [] := by
  cases h with
  | linked h =>
    cases h with
    | within h htail hpart =>
      cases arrived with
      | nil => rfl
      | cons m arrived =>
        exact absurd (List.mem_append_left _ (lineFeed_mem_textOf_cons m arrived)) hline
    | @unended arrived _ last =>
      exfalso
      cases arrived with
      | nil =>
        refine hvalue last.value ?_
        rw [textOf_nil, List.nil_append, last.trim_eq]
        exact last.fromStr_eq
      | cons m arrived =>
        exact absurd (List.mem_append_left _ (lineFeed_mem_textOf_cons m arrived)) hline
  | ended => rfl

end Texts

/-! ## One text -/

section Consume

variable [JsonText]

/-- A line that is a message is taken as one. -/
lemma frameTurn_message (id : ℕ) (notice : Bool) (m : Message) :
    frameTurn id notice m.text =
      (messageTurn id notice m).map (fun found => (.returned found.1, found.2)) fun n => n := by
  simp only [frameTurn, m.trim_eq, if_neg m.ne_nil, m.fromStr_eq, messageTurn]
  cases hvalue : rpcValueForId m.value id with
  | none =>
    have hvalue' : rpcValueForId (.object m.members) id = none := hvalue
    rw [hvalue']
    rfl
  | some r =>
    have hvalue' : rpcValueForId (.object m.members) id = some r := hvalue
    rw [hvalue']
    rfl

/-- A buffer's complete lines are searched as the messages they are. -/
lemma scan_textOf (id : ℕ) (notice : Bool) (arrived : List Message) {tail : List Char}
    (htail : '\n' ∉ tail) :
    (∃ r notice' left,
        scan '\n' (frameTurn id) notice [] (textOf arrived ++ tail) =
          .inl ((.returned r, notice'), textOf left ++ tail) ∧
        Served id notice arrived (some r) notice' left) ∨
      ∃ notice', scan '\n' (frameTurn id) notice [] (textOf arrived ++ tail) = .inr (notice', tail) ∧
        Served id notice arrived none notice' [] := by
  have hlines : ∀ line ∈ arrived.map Message.text, '\n' ∉ line := by
    intro line hline
    obtain ⟨m, -, rfl⟩ := List.mem_map.mp hline
    exact m.oneLine
  rw [textOf, scan_lines hlines htail, search_map fun notice m _ => frameTurn_message id notice m]
  obtain ⟨r, notice', left, hsearch, hserved⟩ | ⟨notice', hsearch, hserved⟩ :=
    search_messages id notice arrived
  · rw [hsearch]
    exact .inl ⟨r, notice', left, rfl, hserved⟩
  · rw [hsearch]
    exact .inr ⟨notice', rfl, hserved⟩

/-- A part of a message is no value. -/
lemma fromStr_part {m : Message} {part : List Char} (h : part <+: m.text) (hne : part ≠ m.text) :
    ∃ e, JsonText.fromStr (Text.trim part) = .error e := by
  have hhead : ∀ c, part.head? = some c → Text.isWhitespace c = false := by
    intro c hc
    obtain ⟨rest, hrest⟩ := h
    refine Text.head?_trim (s := m.text) ?_
    rw [m.trim_eq, ← hrest, List.head?_append, hc]
    rfl
  have hstart := Text.trim_isPrefix hhead
  refine JsonText.fromStr_whole m.fromStr_eq m.trim_eq (hstart.trans h) fun htrim => hne ?_
  exact h.eq_of_length_le (htrim ▸ hstart.length_le)

/-- What is complete in a buffer with a text is read, up to an answer. -/
lemma consume_linked {buf text future : List Char} {arrived coming : List Message} (id : ℕ)
    (notice : Bool) (h : Linked (buf ++ text) future arrived coming) :
    ∃ r buf' notice' left,
      consumeRpcText buf text id notice = ⟨Option.map Outcome.returned r, buf', notice'⟩ ∧
      Served id notice arrived r notice' left ∧ Buffered buf' future left coming := by
  generalize hall : buf ++ text = all at h
  rw [consumeRpcText, hall]
  cases h with
  | @within tail _ _ _ h htail hpart =>
    obtain ⟨r, notice', left, hscan, hserved⟩ | ⟨notice', hscan, hserved⟩ :=
      scan_textOf id notice arrived htail
    · rw [hscan]
      exact ⟨some r, _, notice', left, rfl, hserved, .linked (.within h htail hpart)⟩
    · -- what is left is not a value yet
      have hkept : Buffered tail future [] coming :=
        .linked (@Linked.within _ tail future [] coming h htail hpart)
      rw [hscan]
      refine ⟨none, tail, notice', [], ?_, hserved, hkept⟩
      by_cases htrim : Text.trim tail = []
      · simp only [htrim, if_pos]
        rfl
      · have hvalue : ∃ e, JsonText.fromStr (Text.trim tail) = .error e := by
          cases coming with
          | nil =>
            obtain ⟨rfl, -⟩ := List.append_eq_nil_iff.mp h
            exact absurd rfl htrim
          | cons m coming =>
            obtain ⟨hstart, hne⟩ := hpart m rfl
            exact fromStr_part hstart hne
        obtain ⟨e, he⟩ := hvalue
        simp only [if_neg htrim, he]
        rfl
  | @unended arrived _ last =>
    obtain ⟨r, notice', left, hscan, hserved⟩ | ⟨notice', hscan, hserved⟩ :=
      scan_textOf id notice arrived last.oneLine
    · rw [hscan]
      exact ⟨some r, _, notice', left ++ [last], rfl, hserved.append_right _, .linked .unended⟩
    · -- the last message is a value although its line feed has not come
      rw [hscan]
      simp only [last.trim_eq, if_neg last.ne_nil, last.fromStr_eq]
      cases hvalue : rpcValueForId (.object last.members) id with
      | some r =>
        exact ⟨some r, [], notice', [], rfl, hserved.append (.first notice' hvalue []), .ended⟩
      | none => exact ⟨none, [], _, [], rfl, hserved.append (.skip notice' hvalue), .ended⟩

/-- What one text completes is read, up to an answer. -/
lemma consume_buffered {buf text future : List Char} {arrived coming : List Message} (id : ℕ)
    (notice : Bool) (h : Buffered buf (text ++ future) arrived coming) :
    ∃ r buf' notice' new coming' left, coming = new ++ coming' ∧
      consumeRpcText buf text id notice = ⟨Option.map Outcome.returned r, buf', notice'⟩ ∧
      Served id notice (arrived ++ new) r notice' left ∧ Buffered buf' future left coming' := by
  generalize hall : text ++ future = all at h
  cases h with
  | linked h =>
    subst hall
    obtain ⟨new, coming', rfl, hlinked⟩ := h.extend
    obtain ⟨r, buf', notice', left, hconsume, hserved, hbuffered⟩ := consume_linked id notice hlinked
    exact ⟨r, buf', notice', new, coming', left, rfl, hconsume, hserved, hbuffered⟩
  | ended =>
    cases text with
    | nil =>
      subst hall
      exact ⟨none, [], notice, [], coming, [], rfl, rfl, .nil id notice, .ended⟩
    | cons c text =>
      -- the line feed of a message that has been read is an empty line
      obtain ⟨rfl, hrest⟩ := List.cons_eq_cons.mp hall
      obtain ⟨new, coming', rfl, hlinked⟩ := exists_linked hrest
      obtain ⟨r, buf', notice', left, hconsume, hserved, hbuffered⟩ :=
        @consume_linked _ [] text future new coming' id notice hlinked
      exact ⟨r, buf', notice', new, coming', left, rfl, hconsume, hserved, hbuffered⟩

/-! ## Calls -/

/-- `rpc` reads what has arrived and what the texts complete, up to its answer. -/
lemma Ws.read_spec {ws : Ws} {texts : List (List Char)} {future : List Char}
    {arrived coming : List Message} (id : ℕ)
    (h : Buffered ws.buf (texts.flatten ++ future) arrived coming)
    (hready : texts = [] → arrived = []) :
    ∃ r ws' rest new coming' left, coming = new ++ coming' ∧
      ws.read id texts = (Option.map Outcome.returned r, ws', rest) ∧
      Served id ws.notice (arrived ++ new) r ws'.notice left ∧
      Buffered ws'.buf (rest.flatten ++ future) left coming' ∧ ws'.nextId = ws.nextId := by
  induction texts generalizing ws arrived coming with
  | nil =>
    obtain rfl := hready rfl
    exact ⟨none, ws, [], [], coming, [], rfl, rfl, .nil id ws.notice, h, rfl⟩
  | cons text texts ih =>
    rw [List.flatten_cons, List.append_assoc] at h
    obtain ⟨r, buf', notice', new, coming', left, rfl, hconsume, hserved, hbuffered⟩ :=
      consume_buffered id ws.notice h
    rw [Ws.read, hconsume]
    cases r with
    | some r =>
      exact ⟨some r, ⟨ws.nextId, buf', notice'⟩, texts, new, coming', left, rfl, rfl, hserved,
        hbuffered, rfl⟩
    | none =>
      obtain rfl := hserved.left_eq_nil
      obtain ⟨r, ws', rest, new', coming'', left', rfl, hread, hserved', hbuffered', hnext⟩ :=
        @ih ⟨ws.nextId, buf', notice'⟩ [] coming' hbuffered fun _ => rfl
      refine ⟨r, ws', rest, new ++ new', coming'', left', (List.append_assoc _ _ _).symm, hread, ?_,
        hbuffered', hnext⟩
      rw [← List.append_assoc]
      exact hserved.append hserved'

/-- `take_change` reads what has arrived and what the texts complete, where no message has the
id 0. -/
lemma Ws.drain_spec {ws : Ws} {texts : List (List Char)} {future : List Char}
    {arrived coming : List Message}
    (h : Buffered ws.buf (texts.flatten ++ future) arrived coming)
    (hready : texts = [] → arrived = [])
    (hzero : ∀ m ∈ arrived ++ coming, idMatches m.value 0 = false) :
    ∃ ws' new coming', coming = new ++ coming' ∧ ws.drain texts = (none, ws', []) ∧
      ws'.notice = (ws.notice || (arrived ++ new).any Message.isChange) ∧
      Buffered ws'.buf future [] coming' ∧ ws'.nextId = ws.nextId := by
  induction texts generalizing ws arrived coming with
  | nil =>
    obtain rfl := hready rfl
    exact ⟨ws, [], coming, rfl, rfl, (Bool.or_false _).symm, h, rfl⟩
  | cons text texts ih =>
    rw [List.flatten_cons, List.append_assoc] at h
    obtain ⟨r, buf', notice', new, coming', left, rfl, hconsume, hserved, hbuffered⟩ :=
      consume_buffered 0 ws.notice h
    have hread : ∀ m ∈ arrived ++ new, idMatches m.value 0 = false := by
      intro m hm
      refine hzero m ?_
      rw [← List.append_assoc]
      exact List.mem_append_left _ hm
    obtain ⟨rfl, rfl, rfl⟩ := hserved.of_forall hread
    rw [Ws.drain, hconsume]
    obtain ⟨ws', new', coming'', rfl, hdrain, hnotice, hbuffered', hnext⟩ :=
      @ih ⟨ws.nextId, buf', _⟩ [] coming' hbuffered (fun _ => rfl) fun m hm =>
        hzero m (List.mem_append_right _ (List.mem_append_right _ hm))
    refine ⟨ws', new ++ new', coming'', (List.append_assoc _ _ _).symm, hdrain, ?_, hbuffered',
      hnext⟩
    rw [hnotice, List.nil_append]
    simp only [List.any_append, Bool.or_assoc]

end Consume

end Pickaxe.Electrum
