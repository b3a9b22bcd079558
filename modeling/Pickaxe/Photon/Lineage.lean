/-
# The lineage of a baton

The walk from a live baton towards the claim that may have made it.  The walk asks for one
transaction after the other and trusts none: what it says is stated over the transactions that the
environment answers with, and what it finds over the transactions of an honest one.
-/
import Pickaxe.Lib.Transaction
import Pickaxe.Photon.Answered
import Pickaxe.Photon.Claims

namespace Pickaxe.Photon

open Lib Program

/-! ## First inputs -/

/-- The text of a transaction only matters for the bytes it has. -/
lemma firstInputOutpoint_eq {rawTxHex : List Char} {raw : Bytes}
    (h : Text.hexDecode (Text.trim rawTxHex) = some raw) :
    firstInputOutpoint rawTxHex = firstInputOutpoint (Text.hexEncode raw) := by
  rw [firstInputOutpoint, h, firstInputOutpoint, Text.trim_hexEncode, Text.hexDecode_hexEncode]

/-- The first input of a serialised transaction is read. -/
lemma firstInputOutpoint_encode {tx : Script.Tx} {i : Script.RawIn} {rest : List Script.RawIn}
    (hinputs : tx.inputs = i :: rest) (hlength : tx.inputs.length < 2 ^ 64) (hvout : i.vout < 2 ^ 32) :
    firstInputOutpoint (Text.hexEncode tx.encode) =
      .ok (Text.hexEncode i.txid.bytes.reverse, i.vout) := by
  -- what stands before the outpoint, and what stands behind it
  obtain ⟨tail, htail⟩ : ∃ tail, tx.encode =
      leBytes 4 tx.version ++ compactSize tx.inputs.length ++ (i.outpoint ++ tail) := by
    rw [Script.Tx.encode, hinputs, List.flatMap_cons, Script.RawIn.encode]
    simp only [List.append_assoc]
    exact ⟨_, rfl⟩
  have hcount : readCompactSize tx.encode 4 =
      .ok (tx.inputs.length, 4 + (compactSize tx.inputs.length).length) := by
    have h := readCompactSize_compactSize (a := leBytes 4 tx.version) (r := i.outpoint ++ tail) hlength
    rwa [← htail, length_leBytes] at h
  have hpos := length_compactSize_pos tx.inputs.length
  generalize hhead : leBytes 4 tx.version ++ compactSize tx.inputs.length = head at htail
  have hlen : head.length = 4 + (compactSize tx.inputs.length).length := by
    rw [← hhead, List.length_append, length_leBytes]
  have hhash : slice? tx.encode head.length (head.length + 32) = some i.txid.bytes := by
    rw [htail, Script.RawIn.outpoint, List.append_assoc, ← List.append_assoc]
    exact slice?_append rfl (by rw [i.txid.length_eq])
  have hindex : slice? tx.encode (head.length + 32) (head.length + 36) = some (leBytes 4 i.vout) := by
    rw [htail, Script.RawIn.outpoint, ← List.append_assoc, ← List.append_assoc]
    exact slice?_append (by rw [List.length_append, i.txid.length_eq]) (by rw [length_leBytes])
  have hsize : ¬ tx.encode.length < 5 := by
    rw [htail, List.length_append, hlen]
    omega
  have hne : tx.inputs.length ≠ 0 := by
    rw [hinputs]
    exact Nat.succ_ne_zero _
  rw [firstInputOutpoint, Text.trim_hexEncode, Text.hexDecode_hexEncode]
  simp only [if_neg hsize, hcount]
  rw [← hlen]
  show (if tx.inputs.length = 0 then _ else _) = _
  rw [if_neg hne, hhash, hindex]
  show Except.ok (_, fromLe (leBytes 4 i.vout)) = _
  rw [fromLe_leBytes_of_lt (hvout.trans_eq (by norm_num))]

/-! ## Chains of transactions -/

section Chains

variable [Hasher]

/-- A transaction of a ledger with an id, and the output that its first input spends. -/
def FirstSpends (ledger : Set Bytes) (txid previous : List Char) (vout : ℕ) : Prop :=
  ∃ raw ∈ ledger, Text.eqIgnoreCase (transactionId raw) txid = true ∧
    firstInputOutpoint (Text.hexEncode raw) = .ok (previous, vout)

/-- A number of transactions lead from an id to the ancestor, each by its first input and from output
0 to output 0; before the ancestor none of them spends a boundary. -/
inductive Linked (ledger : Set Bytes) (ancestor : List Char) (boundaries : List (List Char)) :
    ℕ → List Char → Prop
  | self {txid : List Char} (h : Text.eqIgnoreCase txid ancestor = true) :
    Linked ledger ancestor boundaries 0 txid
  | spends {n : ℕ} {txid previous : List Char} (hspends : FirstSpends ledger txid previous 0)
    (hpass : Text.eqIgnoreCase previous ancestor = true ∨
      boundaries.any (Text.eqIgnoreCase previous) = false)
    (hnext : Linked ledger ancestor boundaries n previous) :
    Linked ledger ancestor boundaries (n + 1) txid

/-- A number of transactions lead from an id away from output 0, or to a boundary, and not past the
ancestor. -/
inductive Departs (ledger : Set Bytes) (ancestor : List Char) (boundaries : List (List Char)) :
    ℕ → List Char → Prop
  | output {txid previous : List Char} {vout : ℕ} (hspends : FirstSpends ledger txid previous vout)
    (hvout : vout ≠ 0) : Departs ledger ancestor boundaries 1 txid
  | boundary {txid previous : List Char} (hspends : FirstSpends ledger txid previous 0)
    (hbefore : Text.eqIgnoreCase previous ancestor = false)
    (hboundary : boundaries.any (Text.eqIgnoreCase previous) = true) :
    Departs ledger ancestor boundaries 1 txid
  | spends {n : ℕ} {txid previous : List Char} (hspends : FirstSpends ledger txid previous 0)
    (hbefore : Text.eqIgnoreCase previous ancestor = false)
    (hnext : Departs ledger ancestor boundaries n previous) :
    Departs ledger ancestor boundaries (n + 1) txid

/-! ## Environments -/

variable {σ : Type} {env : σ → (q : Op) → Answer q × σ} {s : σ} {ancestor cursor : List Char}
  {boundaries : List (List Char)} {exceeded : List Char → String} {steps n : ℕ}

/-- The transactions that an environment may answer with. -/
def answered (env : σ → (q : Op) → Answer q × σ) : Set Bytes :=
  {raw | ∃ s txid text, (env s (.getTransaction txid)).1 = .ok (.string text) ∧
    Text.hexDecode (Text.trim text) = some raw}

/-- An environment that has the transactions of a ledger, and answers with the one asked for. -/
def Honest (env : σ → (q : Op) → Answer q × σ) (ledger : Set Bytes) : Prop :=
  ∀ raw ∈ ledger, ∀ s txid, Text.eqIgnoreCase (transactionId raw) txid = true →
    ∃ text, (env s (.getTransaction txid)).1 = .ok (.string text) ∧
      Text.hexDecode (Text.trim text) = some raw

omit [Hasher] in
/-- An answer is the bytes of a transaction, or the walk ends with an error. -/
lemma play_fetchRaw {α : Type} (f : List Char → Task α) (txid : List Char) :
    (∃ raw, (env s (.getTransaction txid)).1 = .ok (.string raw) ∧
      play env (fetchRaw txid >>= f) s = play env (f raw) (env s (.getTransaction txid)).2) ∨
    ∃ e, (play env (fetchRaw txid >>= f) s).1 = .error e := by
  rw [fetchRaw, bind_assoc, play_query_bind]
  rcases (env s (.getTransaction txid)).1 with e | raw | _ | value
  · exact .inr ⟨e, rfl⟩
  · exact .inl ⟨raw, rfl, rfl⟩
  · exact .inr ⟨_, rfl⟩
  · exact .inr ⟨_, rfl⟩

/-- What one transaction says of the rest of the walk. -/
def goOn (ancestor : List Char) (boundaries : List (List Char)) (exceeded : List Char → String)
    (steps : ℕ) (cursor : List Char) : List Char × ℕ → Task Bool
  | (previous, vout) =>
    if vout ≠ 0 then .ok false
    else if Text.eqIgnoreCase previous ancestor then .ok (vout == 0)
    else if boundaries.any (Text.eqIgnoreCase previous) then .ok false
    else if Text.eqIgnoreCase previous cursor then
      .error "PHOTON baton lineage contains a transaction cycle"
    else walkLineage ancestor 0 boundaries exceeded steps previous

/-- A step of the walk: the transaction it was answered with, and what follows. -/
lemma play_walkLineage {b : Bool}
    (h : (play env (walkLineage ancestor 0 boundaries exceeded (steps + 1) cursor) s).1 = .ok b) :
    ∃ previous vout, FirstSpends (answered env) cursor previous vout ∧
      (play env (goOn ancestor boundaries exceeded steps cursor (previous, vout))
        (env s (.getTransaction cursor)).2).1 = .ok b := by
  rw [walkLineage] at h
  rcases play_fetchRaw _ cursor with ⟨text, hanswer, hplay⟩ | ⟨e, he⟩
  · rw [hplay] at h
    cases hstep : lineageStep cursor text with
    | error e =>
      rw [hstep] at h
      cases h
    | ok spent =>
      rw [hstep] at h
      obtain ⟨raw, hraw, hid, hinput⟩ := lineageStep_ok hstep
      rw [firstInputOutpoint_eq hraw] at hinput
      exact ⟨spent.1, spent.2, ⟨raw, ⟨s, cursor, text, hanswer, hraw⟩, hid, hinput⟩, h⟩
  · rw [he] at h
    cases h

/-- What the walk says is so of the transactions it was answered with. -/
lemma walkLineage_sound {b : Bool}
    (h : (play env (walkLineage ancestor 0 boundaries exceeded steps cursor) s).1 = .ok b) :
    (b = true → ∃ n ≤ steps, Linked (answered env) ancestor boundaries n cursor) ∧
      (b = false → ∃ n ≤ steps, Departs (answered env) ancestor boundaries n cursor) := by
  induction steps generalizing cursor s with
  | zero => cases h
  | succ steps ih =>
    obtain ⟨previous, vout, hspends, hrest⟩ := play_walkLineage h
    rw [goOn] at hrest
    split_ifs at hrest with hvout hancestor hboundary hcycle
    · obtain rfl : false = b := Except.ok.inj hrest
      exact ⟨by rintro ⟨⟩, fun _ => ⟨1, by omega, .output hspends hvout⟩⟩
    · obtain rfl := not_not.mp hvout
      obtain rfl : true = b := Except.ok.inj hrest
      exact ⟨fun _ => ⟨1, by omega, .spends hspends (.inl hancestor) (.self hancestor)⟩, by rintro ⟨⟩⟩
    · obtain rfl := not_not.mp hvout
      obtain rfl : false = b := Except.ok.inj hrest
      rw [Bool.not_eq_true] at hancestor
      exact ⟨by rintro ⟨⟩, fun _ => ⟨1, by omega, .boundary hspends hancestor hboundary⟩⟩
    · cases hrest
    · obtain rfl := not_not.mp hvout
      rw [Bool.not_eq_true] at hancestor hboundary
      obtain ⟨htrue, hfalse⟩ := ih hrest
      constructor
      · intro hb
        obtain ⟨n, hn, hlinked⟩ := htrue hb
        exact ⟨n + 1, by omega, .spends hspends (.inr hboundary) hlinked⟩
      · intro hb
        obtain ⟨n, hn, hdeparts⟩ := hfalse hb
        exact ⟨n + 1, by omega, .spends hspends hancestor hdeparts⟩

/-! ## Honest environments -/

variable {ledger : Set Bytes}

/-- An honest environment has one transaction for an id, whatever its case. -/
lemma Honest.unique (henv : Honest env ledger) (s : σ) {txid txid' previous previous' : List Char}
    {vout vout' : ℕ} (h : FirstSpends ledger txid previous vout)
    (h' : FirstSpends ledger txid' previous' vout') (hid : Text.eqIgnoreCase txid txid' = true) :
    previous = previous' ∧ vout = vout' := by
  obtain ⟨raw, hmem, hraw, hinput⟩ := h
  obtain ⟨raw', hmem', hraw', hinput'⟩ := h'
  obtain ⟨text, hanswer, htext⟩ := henv raw hmem s txid' (Text.eqIgnoreCase_trans hraw hid)
  obtain ⟨text', hanswer', htext'⟩ := henv raw' hmem' s txid' hraw'
  obtain rfl : text = text' := by
    have heq := hanswer.symm.trans hanswer'
    simpa using heq
  obtain rfl : raw = raw' := Option.some.inj (htext.symm.trans htext')
  have heq := hinput.symm.trans hinput'
  simpa using heq

/-- A transaction that spends itself is on no chain. -/
lemma Honest.not_linked (henv : Honest env ledger) (s : σ) {txid previous : List Char}
    (hspends : FirstSpends ledger cursor previous 0) (hcycle : Text.eqIgnoreCase previous cursor = true)
    (hbefore : Text.eqIgnoreCase previous ancestor = false)
    (htxid : Text.eqIgnoreCase txid cursor = true) : ¬ Linked ledger ancestor boundaries n txid := by
  intro hlinked
  induction hlinked with
  | self h =>
    have hsame := Text.eqIgnoreCase_trans hcycle (Text.eqIgnoreCase_symm htxid)
    rw [Text.eqIgnoreCase_trans hsame h] at hbefore
    cases hbefore
  | spends hspends' _ _ ih =>
    obtain ⟨rfl, -⟩ := henv.unique s hspends' hspends htxid
    exact ih hcycle

/-- An honest environment's answer about a transaction on the way. -/
lemma Honest.play_walkLineage (henv : Honest env ledger) {previous : List Char} {vout : ℕ}
    (hspends : FirstSpends ledger cursor previous vout) :
    play env (walkLineage ancestor 0 boundaries exceeded (steps + 1) cursor) s =
      play env (goOn ancestor boundaries exceeded steps cursor (previous, vout))
        (env s (.getTransaction cursor)).2 := by
  obtain ⟨raw, hmem, hraw, hinput⟩ := hspends
  obtain ⟨text, hanswer, htext⟩ := henv raw hmem s cursor hraw
  have hstep : lineageStep cursor text = .ok (previous, vout) := by
    rw [lineageStep, htext]
    simp only [hraw, Bool.true_eq_false, if_false]
    rw [firstInputOutpoint_eq htext, hinput]
  rw [walkLineage, fetchRaw, bind_assoc, play_query_bind, hanswer]
  show play env (Program.lift (lineageStep cursor text) >>= _) _ = _
  rw [hstep]
  rfl

/-- Where a chain is short enough, the walk finds it. -/
lemma Honest.walkLineage_complete (henv : Honest env ledger)
    (hlinked : Linked ledger ancestor boundaries n cursor) (hn : n ≤ steps)
    (hcursor : Text.eqIgnoreCase cursor ancestor = false) :
    (play env (walkLineage ancestor 0 boundaries exceeded steps cursor) s).1 = .ok true := by
  induction hlinked generalizing steps s with
  | self h =>
    rw [h] at hcursor
    cases hcursor
  | @spends n txid previous hspends hpass hnext ih =>
    obtain ⟨steps, rfl⟩ : ∃ k, steps = k + 1 := ⟨steps - 1, by omega⟩
    rw [henv.play_walkLineage hspends, goOn, if_neg (not_not.mpr rfl)]
    by_cases hancestor : Text.eqIgnoreCase previous ancestor = true
    · rw [if_pos hancestor]
      rfl
    · have hboundary := hpass.resolve_left hancestor
      rw [Bool.not_eq_true] at hancestor
      have hcycle : ¬ Text.eqIgnoreCase previous txid = true := fun h =>
        henv.not_linked s hspends h hancestor h hnext
      rw [hancestor, hboundary, if_neg Bool.false_ne_true, if_neg Bool.false_ne_true, if_neg hcycle]
      exact ih (by omega) hancestor

/-- The walk of at most 256 transactions says yes only where such a chain leads to the claim, and no
only where the chain leaves output 0 or meets a boundary first.  Where an honest environment has a
chain that meets no boundary before the claim, it says yes; a boundary may be the claim itself. -/
theorem lineage_exact (env : σ → (q : Op) → Answer q × σ) (s : σ) (live ancestor : List Char)
    (liveVout ancestorVout : ℕ) (boundaries : List (List Char)) :
    let proven := (play env
      (proveBatonDescendsFrom live liveVout ancestor ancestorVout boundaries) s).1
    (proven = .ok true → liveVout = 0 ∧ ancestorVout = 0 ∧
      ∃ n ≤ 256, Linked (answered env) ancestor boundaries n live) ∧
    (proven = .ok false → liveVout ≠ 0 ∨ ancestorVout ≠ 0 ∨
      ∃ n ≤ 256, Departs (answered env) ancestor boundaries n live) ∧
    (∀ ledger n, Honest env ledger → liveVout = 0 → ancestorVout = 0 → n ≤ 256 →
      Linked ledger ancestor boundaries n live → proven = .ok true) ∧
    ∀ (tx : Script.Tx) (i : Script.RawIn) (rest : List Script.RawIn) (rawTxHex : List Char),
      tx.inputs = i :: rest → tx.inputs.length < 2 ^ 64 → i.vout < 2 ^ 32 →
      Text.hexDecode (Text.trim rawTxHex) = some tx.encode →
      firstInputOutpoint rawTxHex = .ok (Text.hexEncode i.txid.bytes.reverse, i.vout) := by
  intro proven
  have hwalk : proven = (play env
    (proveBatonDescendsFrom live liveVout ancestor ancestorVout boundaries) s).1 := rfl
  have hinput : ∀ (tx : Script.Tx) (i : Script.RawIn) (rest : List Script.RawIn)
      (rawTxHex : List Char), tx.inputs = i :: rest → tx.inputs.length < 2 ^ 64 → i.vout < 2 ^ 32 →
      Text.hexDecode (Text.trim rawTxHex) = some tx.encode →
      firstInputOutpoint rawTxHex = .ok (Text.hexEncode i.txid.bytes.reverse, i.vout) := by
    intro tx i rest rawTxHex hinputs hlength hvout hraw
    rw [firstInputOutpoint_eq hraw]
    exact firstInputOutpoint_encode hinputs hlength hvout
  clear_value proven
  subst hwalk
  unfold proveBatonDescendsFrom
  split_ifs with hzero hself
  · refine ⟨by rintro ⟨⟩, fun _ => hzero.imp_right .inl, ?_, hinput⟩
    rintro ledger n - hlive hancestor
    exact absurd hzero (by omega)
  · obtain ⟨rfl, rfl⟩ : liveVout = 0 ∧ ancestorVout = 0 := by omega
    exact ⟨fun _ => ⟨rfl, rfl, 0, by omega, .self hself⟩, by rintro ⟨⟩, fun _ _ _ _ _ _ _ => rfl, hinput⟩
  · obtain ⟨rfl, rfl⟩ : liveVout = 0 ∧ ancestorVout = 0 := by omega
    rw [Bool.not_eq_true] at hself
    refine ⟨fun h => ⟨rfl, rfl, (walkLineage_sound h).1 rfl⟩,
      fun h => .inr (.inr ((walkLineage_sound h).2 rfl)), ?_, hinput⟩
    intro ledger n henv _ _ hn hlinked
    exact henv.walkLineage_complete hlinked hn hself

end Chains

/-! ## A chain of two -/

section Sample

/-- A transaction that spends the first output of another, and has one empty output. -/
def spending (txid : Hash) : Script.Tx := ⟨2, [⟨txid, 0, [], 0xffffffff⟩], [⟨0, [], none⟩], 0⟩

def sampleAncestor : Hash := ⟨List.replicate 32 0xaa, List.length_replicate⟩

variable [Hasher]

/-- The transaction that spends the ancestor. -/
def childRaw : Bytes := (spending sampleAncestor).encode

/-- The transaction that spends the child. -/
def grandchildRaw : Bytes := (spending (doubleSha256 childRaw)).encode

/-- A server that has the transactions of a list. -/
def serve (ledger : List Bytes) (d : Disk) : (q : Op) → Answer q × Disk
  | .getTransaction txid =>
    match ledger.find? fun raw => Text.eqIgnoreCase (transactionId raw) txid with
    | some raw => (.ok (.string (Text.hexEncode raw)), d)
    | none => (.ok .null, d)
  | q => calm sampleJob [] d q

lemma honest_serve {ledger : List Bytes}
    (h : ∀ raw ∈ ledger, ∀ raw' ∈ ledger,
      Text.eqIgnoreCase (transactionId raw) (transactionId raw') = true → raw = raw') :
    Honest (serve ledger) {raw | raw ∈ ledger} := by
  intro raw hraw d txid hid
  have hsome : (ledger.find? fun raw => Text.eqIgnoreCase (transactionId raw) txid).isSome = true :=
    List.find?_isSome.mpr ⟨raw, hraw, hid⟩
  obtain ⟨raw', hfind⟩ := Option.isSome_iff_exists.mp hsome
  have hid' := List.find?_some hfind
  obtain rfl := h raw hraw raw' (List.mem_of_find?_eq_some hfind)
    (Text.eqIgnoreCase_trans hid (Text.eqIgnoreCase_symm hid'))
  refine ⟨Text.hexEncode raw, ?_, by rw [Text.trim_hexEncode, Text.hexDecode_hexEncode]⟩
  show (match ledger.find? _ with
    | some raw => (.ok (.string (Text.hexEncode raw)), d)
    | none => (.ok .null, d) : Except String RpcValue × Disk).1 = _
  rw [hfind]

lemma firstSpends_spending {ledger : Set Bytes} {txid : Hash} (h : (spending txid).encode ∈ ledger) :
    FirstSpends ledger (transactionId (spending txid).encode) (Text.hexEncode txid.bytes.reverse) 0 := by
  have hinputs : (spending txid).inputs = [⟨txid, 0, [], 0xffffffff⟩] := rfl
  refine ⟨_, h, Text.eqIgnoreCase_refl _, firstInputOutpoint_encode hinputs ?_ ?_⟩
  · rw [hinputs, List.length_singleton]
    norm_num
  · show 0 < 2 ^ 32
    norm_num

/-- What the sample's ids have to be. -/
def Distinct : Prop :=
  Text.eqIgnoreCase (transactionId childRaw) (transactionId grandchildRaw) = false ∧
    Text.eqIgnoreCase (transactionId childRaw) (Text.hexEncode sampleAncestor.bytes.reverse) = false
deriving Decidable

omit [Hasher] in
lemma distinct_sample :
    let _ : Hasher := Hasher.fips
    Distinct := by
  rw [Hasher.fips_eq]
  decide +kernel

lemma honest_sample (h : Distinct) :
    Honest (serve [childRaw, grandchildRaw]) {raw | raw ∈ [childRaw, grandchildRaw]} := by
  refine honest_serve ?_
  intro raw hraw raw' hraw' hid
  simp only [List.mem_cons, List.not_mem_nil, or_false] at hraw hraw'
  rcases hraw with rfl | rfl <;> rcases hraw' with rfl | rfl
  · rfl
  · rw [h.1] at hid
    cases hid
  · have hne := h.1
    rw [Text.eqIgnoreCase_symm hid] at hne
    cases hne
  · rfl

lemma linked_sample {boundaries : List (List Char)}
    (hpass : boundaries.any (Text.eqIgnoreCase (transactionId childRaw)) = false) :
    Linked {raw | raw ∈ [childRaw, grandchildRaw]} (Text.hexEncode sampleAncestor.bytes.reverse)
      boundaries 2 (transactionId grandchildRaw) := by
  have hchild : childRaw ∈ ({raw | raw ∈ [childRaw, grandchildRaw]} : Set Bytes) := by simp
  have hgrandchild : grandchildRaw ∈ ({raw | raw ∈ [childRaw, grandchildRaw]} : Set Bytes) := by simp
  refine .spends (firstSpends_spending hgrandchild) (.inr hpass) ?_
  exact .spends (firstSpends_spending hchild) (.inl (Text.eqIgnoreCase_refl _))
    (.self (Text.eqIgnoreCase_refl _))

omit [Hasher] in
/-- The claim's own id may be a boundary. -/
theorem lineage_exact_sample :
    let _ : Hasher := Hasher.fips
    (play (serve [childRaw, grandchildRaw]) (proveBatonDescendsFrom (transactionId grandchildRaw) 0
      (Text.hexEncode sampleAncestor.bytes.reverse) 0 [Text.hexEncode sampleAncestor.bytes.reverse])
      fun _ => none).1 = .ok true ∧
    firstInputOutpoint (Text.hexEncode (spending sampleAncestor).encode) =
      .ok (Text.hexEncode sampleAncestor.bytes.reverse, 0) := by
  intro _
  have hdistinct := distinct_sample
  have hpass : [Text.hexEncode sampleAncestor.bytes.reverse].any
      (Text.eqIgnoreCase (transactionId childRaw)) = false := by
    rw [List.any_cons, List.any_nil, Bool.or_false]
    exact hdistinct.2
  obtain ⟨-, -, hcomplete, hinput⟩ := lineage_exact (serve [childRaw, grandchildRaw]) (fun _ => none)
    (transactionId grandchildRaw) (Text.hexEncode sampleAncestor.bytes.reverse) 0 0
    [Text.hexEncode sampleAncestor.bytes.reverse]
  constructor
  · exact hcomplete _ 2 (honest_sample hdistinct) rfl rfl (by decide) (linked_sample hpass)
  · exact hinput (spending sampleAncestor) ⟨sampleAncestor, 0, [], 0xffffffff⟩ [] _ rfl (by decide)
      (by decide) (by rw [Text.trim_hexEncode, Text.hexDecode_hexEncode])

omit [Hasher] in
/-- A boundary between the live baton and the claim hides the claim. -/
theorem boundary_hides_claim :
    let _ : Hasher := Hasher.fips
    ¬ ∀ (env : Disk → (q : Op) → Answer q × Disk) (s : Disk) (live ancestor : List Char)
        (boundaries : List (List Char)) (ledger : Set Bytes) (n : ℕ), Honest env ledger → n ≤ 256 →
        Linked ledger ancestor [] n live →
        (play env (proveBatonDescendsFrom live 0 ancestor 0 boundaries) s).1 = .ok true := by
  intro _ hall
  have htrue := hall (serve [childRaw, grandchildRaw]) (fun _ => none) (transactionId grandchildRaw)
    (Text.hexEncode sampleAncestor.bytes.reverse) [transactionId childRaw] _ 2
    (honest_sample distinct_sample) (by decide) (linked_sample rfl)
  have hfalse : let _ : Hasher := Hasher.fips
      (play (serve [childRaw, grandchildRaw]) (proveBatonDescendsFrom (transactionId grandchildRaw) 0
        (Text.hexEncode sampleAncestor.bytes.reverse) 0 [transactionId childRaw])
        fun _ => none).1 = .ok false := by
    rw [Hasher.fips_eq]
    decide +kernel
  cases htrue.symm.trans hfalse

end Sample

end Pickaxe.Photon
