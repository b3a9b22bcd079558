/-
# Reading messages one by one

What a client does with its messages, apart from how they come: they arrive in order, `rpc` reads
them up to its answer, `take_change` reads what has arrived and reports a notice once.  Each is read
once, and none is passed over (`ReaderRuns.all`).
-/
import Pickaxe.Electrum.Framing

namespace Pickaxe.Electrum

open Lib Lines

section Reader

variable [JsonText]

/-- An object that a server sends, and its text, which is one line without white space around it. -/
structure Message where
  text : List Char
  members : List (String × Json)
  fromStr_eq : JsonText.fromStr text = .ok (.object members)
  trim_eq : Text.trim text = text
  ne_nil : text ≠ []
  oneLine : '\n' ∉ text

def Message.value (m : Message) : Json := .object m.members

/-- Whether it is a notice of a change. -/
def Message.isChange (m : Message) : Bool := isChangeNotice m.value

/-- A call: what it returns, and for `rpc` the id it asks with; `none` where no answer comes in
time. -/
inductive Event where
  | rpc (id : ℕ) (reply : Option (Except String Json))
  | took (change : Bool)
  | failed

/-- Messages that have been read, up to the last report and since then; that have arrived; and that
are to come. -/
structure Reader where
  reported : List Message
  unreported : List Message
  arrived : List Message
  coming : List Message

/-- What a call reads and returns. -/
inductive Reads : Reader → Event → Reader → Prop
  | answered {id : ℕ} {r : Except String Json} {m : Message}
      {reported unreported before left coming : List Message}
      (hbefore : ∀ b ∈ before, idMatches b.value id = false)
      (hm : rpcValueForId m.value id = some r) :
      Reads ⟨reported, unreported, before ++ m :: left, coming⟩ (.rpc id (some r))
        ⟨reported, unreported ++ before ++ [m], left, coming⟩
  | unanswered {id : ℕ} {reported unreported arrived coming : List Message}
      (harrived : ∀ m ∈ arrived, idMatches m.value id = false) :
      Reads ⟨reported, unreported, arrived, coming⟩ (.rpc id none)
        ⟨reported, unreported ++ arrived, [], coming⟩
  | took {reported unreported arrived coming : List Message} :
      Reads ⟨reported, unreported, arrived, coming⟩
        (.took ((unreported ++ arrived).any Message.isChange))
        ⟨reported ++ unreported ++ arrived, [], [], coming⟩

/-- Messages arrive, and calls read them; with each call stand the messages that are still to come
behind it. -/
inductive ReaderRuns (r : Reader) : List (Event × List Message) → Reader → Prop
  | refl : ReaderRuns r [] r
  | arrive {history : List (Event × List Message)}
      {reported unreported arrived new coming : List Message}
      (h : ReaderRuns r history ⟨reported, unreported, arrived, new ++ coming⟩) :
      ReaderRuns r history ⟨reported, unreported, arrived ++ new, coming⟩
  | read {history : List (Event × List Message)} {event : Event} {r' r'' : Reader}
      (h : ReaderRuns r history r') (hreads : Reads r' event r'') :
      ReaderRuns r (history ++ [(event, r''.coming)]) r''

/-- All messages, in order. -/
def Reader.all (r : Reader) : List Message := r.reported ++ r.unreported ++ r.arrived ++ r.coming

lemma Reads.all {r r' : Reader} {event : Event} (h : Reads r event r') : r'.all = r.all := by
  cases h <;> simp [Reader.all]

/-- No message is lost, and none is read twice. -/
lemma ReaderRuns.all {r r' : Reader} {history : List (Event × List Message)}
    (h : ReaderRuns r history r') : r'.all = r.all := by
  induction h with
  | refl => rfl
  | arrive _ ih =>
    rw [← ih]
    simp [Reader.all]
  | read _ hreads ih => exact hreads.all.trans ih

/-- Where no change is reported, nothing that was reported on is one. -/
lemma ReaderRuns.quiet {r r' : Reader} {history : List (Event × List Message)}
    (h : ReaderRuns r history r') (hstart : r.reported = [])
    (hquiet : ∀ e ∈ history, e.1 ≠ .took true) : ∀ m ∈ r'.reported, m.isChange = false := by
  induction h with
  | refl =>
    rw [hstart]
    nofun
  | arrive _ ih => exact ih hquiet
  | @read history event r' r'' _ hreads ih =>
    have hbefore := ih fun e he => hquiet e (List.mem_append_left _ he)
    cases hreads with
    | answered => exact hbefore
    | unanswered => exact hbefore
    | @took reported unreported arrived coming =>
      have hnone : (unreported ++ arrived).any Message.isChange = false := by
        have hevent := hquiet _ (List.mem_append_right _ List.mem_cons_self)
        simpa using hevent
      intro m hm
      rw [List.append_assoc] at hm
      obtain hm | hm := List.mem_append.mp hm
      · exact hbefore m hm
      · exact Bool.eq_false_iff.mpr (List.any_eq_false.mp hnone m hm)

/-- A report with nothing to come is on all messages. -/
lemma ReaderRuns.reported_eq_all {r r' : Reader} {history : List (Event × List Message)}
    {change : Bool} (h : ReaderRuns r history r')
    (hlast : history.getLast? = some (.took change, [])) : r'.reported = r.all := by
  induction h with
  | refl => cases hlast
  | arrive _ ih => exact ih hlast
  | @read history event r' r'' hruns hreads ih =>
    rw [List.getLast?_concat] at hlast
    obtain ⟨rfl, hcoming⟩ := Prod.mk.inj (Option.some.inj hlast)
    rw [← (hruns.read hreads).all]
    cases hreads with
    | took =>
      obtain rfl : _ = [] := hcoming
      simp [Reader.all]

/-! ## Searches of messages -/

lemma rpcValueForId_eq_none {value : Json} {id : ℕ} :
    rpcValueForId value id = none ↔ idMatches value id = false := by
  rw [rpcValueForId]
  split
  · rename_i h
    exact iff_of_true rfl h
  · rename_i h
    refine iff_of_false ?_ h
    split <;> exact nofun

/-- What is read for an answer: whether there is one, whether notices came before it, and what is
left. -/
inductive Served (id : ℕ) (notice : Bool) :
    List Message → Option (Except String Json) → Bool → List Message → Prop
  | answered {before left : List Message} {m : Message} {r : Except String Json}
      (hbefore : ∀ b ∈ before, idMatches b.value id = false)
      (hm : rpcValueForId m.value id = some r) :
      Served id notice (before ++ m :: left) (some r) (notice || before.any Message.isChange) left
  | unanswered {queue : List Message} (h : ∀ m ∈ queue, idMatches m.value id = false) :
      Served id notice queue none (notice || queue.any Message.isChange) []

lemma Served.append {id : ℕ} {notice notice' notice'' : Bool} {queue queue' left : List Message}
    {r : Option (Except String Json)} (h : Served id notice queue none notice' [])
    (h' : Served id notice' queue' r notice'' left) :
    Served id notice (queue ++ queue') r notice'' left := by
  cases h with
  | unanswered hqueue =>
    cases h' with
    | @answered before left m r hbefore hm =>
      rw [← List.append_assoc, Bool.or_assoc, ← List.any_append]
      exact .answered (List.forall_mem_append.mpr ⟨hqueue, hbefore⟩) hm
    | unanswered hqueue' =>
      rw [Bool.or_assoc, ← List.any_append]
      exact .unanswered (List.forall_mem_append.mpr ⟨hqueue, hqueue'⟩)

/-- A message that is no answer is read. -/
lemma Served.skip {id : ℕ} (notice : Bool) {m : Message} (h : rpcValueForId m.value id = none) :
    Served id notice [m] none (notice || m.isChange) [] := by
  have hserved := @Served.unanswered _ id notice [m] ?_
  · rwa [List.any_cons, List.any_nil, Bool.or_false] at hserved
  · intro m' hm'
    obtain rfl := List.mem_singleton.mp hm'
    exact rpcValueForId_eq_none.mp h

/-- Nothing is read of nothing. -/
lemma Served.nil (id : ℕ) (notice : Bool) : Served id notice [] none notice [] := by
  have hserved := @Served.unanswered _ id notice [] nofun
  rwa [List.any_nil, Bool.or_false] at hserved

/-- An answer that comes first is read alone. -/
lemma Served.first {id : ℕ} (notice : Bool) {m : Message} {r : Except String Json}
    (h : rpcValueForId m.value id = some r) (left : List Message) :
    Served id notice (m :: left) (some r) notice left := by
  have hserved := @Served.answered _ id notice [] left m r nofun h
  rwa [List.any_nil, Bool.or_false] at hserved

/-- What a search leaves unanswered is read to the end. -/
lemma Served.left_eq_nil {id : ℕ} {notice notice' : Bool} {queue left : List Message}
    (h : Served id notice queue none notice' left) : left = [] := by
  cases h
  rfl

/-- Where no message has the id, all are read. -/
lemma Served.of_forall {id : ℕ} {notice notice' : Bool} {queue left : List Message}
    {r : Option (Except String Json)} (h : Served id notice queue r notice' left)
    (hqueue : ∀ m ∈ queue, idMatches m.value id = false) :
    r = none ∧ notice' = (notice || queue.any Message.isChange) ∧ left = [] := by
  cases h with
  | @answered before _ m _ _ hm =>
    rw [rpcValueForId_eq_none.mpr (hqueue m (List.mem_append_right before List.mem_cons_self))] at hm
    cases hm
  | unanswered => exact ⟨rfl, rfl, rfl⟩

/-- An answer is found without what is behind it. -/
lemma Served.append_right {id : ℕ} {notice notice' : Bool} {queue left : List Message}
    {r : Except String Json} (h : Served id notice queue (some r) notice' left)
    (queue' : List Message) :
    Served id notice (queue ++ queue') (some r) notice' (left ++ queue') := by
  cases h with
  | answered hbefore hm =>
    rw [List.append_assoc, List.cons_append]
    exact .answered hbefore hm

/-- A search of what has arrived is a call of `rpc`. -/
lemma Served.reads {id : ℕ} {notice : Bool} {queue left reported unreported coming : List Message}
    {r : Option (Except String Json)}
    (h : Served id (unreported.any Message.isChange) queue r notice left) :
    ∃ unreported', notice = unreported'.any Message.isChange ∧
      Reads ⟨reported, unreported, queue, coming⟩ (.rpc id r)
        ⟨reported, unreported', left, coming⟩ := by
  cases h with
  | @answered before _ m _ hbefore hm =>
    refine ⟨unreported ++ before ++ [m], ?_, .answered hbefore hm⟩
    have hanswer : m.isChange = false := by
      cases hid : idMatches m.value id with
      | true => exact isChangeNotice_of_idMatches hid
      | false =>
        rw [rpcValueForId_eq_none.mpr hid] at hm
        cases hm
    rw [List.any_append, List.any_append, List.any_cons, hanswer]
    simp
  | unanswered hqueue =>
    exact ⟨unreported ++ queue, List.any_append.symm, .unanswered hqueue⟩

/-- A turn over a message. -/
def messageTurn (id : ℕ) (notice : Bool) (m : Message) : (Except String Json × Bool) ⊕ Bool :=
  match rpcValueForId m.value id with
  | some r => .inl (r, notice)
  | none => .inr (notice || m.isChange)

lemma search_messages (id : ℕ) (notice : Bool) (queue : List Message) :
    (∃ r notice' left, search (messageTurn id) notice queue = .inl ((r, notice'), left) ∧
      Served id notice queue (some r) notice' left) ∨
    ∃ notice', search (messageTurn id) notice queue = .inr notice' ∧
      Served id notice queue none notice' [] := by
  induction queue generalizing notice with
  | nil => exact .inr ⟨notice, rfl, .nil id notice⟩
  | cons m queue ih =>
    rw [search, messageTurn]
    cases hm : rpcValueForId m.value id with
    | some r => exact .inl ⟨r, notice, queue, rfl, .first notice hm queue⟩
    | none =>
      have hfirst := Served.skip notice hm
      obtain ⟨r, notice', left, hsearch, hserved⟩ | ⟨notice', hsearch, hserved⟩ :=
        ih (notice || m.isChange)
      · exact .inl ⟨r, notice', left, hsearch, hfirst.append hserved⟩
      · exact .inr ⟨notice', hsearch, hfirst.append hserved⟩

end Reader

end Pickaxe.Electrum
