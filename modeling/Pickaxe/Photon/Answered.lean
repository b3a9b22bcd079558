/-
# What the servers said

What a claim may conclude from a server's answers: that a broadcast was accepted or its transaction
known already, that the server has a transaction, and that a baton descends from another.  The
conditions are stated for any invariant that questions keep.
-/
import Pickaxe.Photon.Resend
import Mathlib.Data.List.Infix

namespace Pickaxe.Photon

open Lib Program

/-! ## Phrases -/

lemma contains_iff {text phrase : List Char} : contains text phrase = true ↔ phrase <:+: text := by
  rw [contains, List.any_eq_true]
  constructor
  · rintro ⟨t, ht, hp⟩
    exact (List.isPrefixOf_iff_prefix.mp hp).isInfix.trans ((List.mem_tails _ _).mp ht).isInfix
  · intro h
    obtain ⟨t, hpre, hsuf⟩ := List.infix_iff_prefix_suffix.mp h
    exact ⟨t, (List.mem_tails _ _).mpr hsuf, List.isPrefixOf_iff_prefix.mpr hpre⟩

/-- A phrase without a character is on one side of it. -/
lemma infix_split {phrase x y : List Char} {c : Char} (hc : c ∉ phrase)
    (h : phrase <:+: x ++ c :: y) : phrase <:+: x ∨ phrase <:+: y := by
  obtain ⟨s, t, h⟩ := h
  rw [List.append_assoc] at h
  rcases List.append_eq_append_iff.mp h with ⟨x', rfl, hrest⟩ | ⟨s', rfl, hrest⟩
  · rcases List.append_eq_append_iff.mp hrest with ⟨x'', rfl, -⟩ | ⟨p', rfl, hcut⟩
    · exact .inl ⟨s, x'', by rw [List.append_assoc]⟩
    · cases p' with
      | nil => exact .inl ⟨s, [], by simp⟩
      | cons e p'' =>
        obtain rfl : c = e := (List.cons.inj hcut).1
        exact absurd (by simp) hc
  · cases s' with
    | nil =>
      cases phrase with
      | nil => exact .inl ⟨[], x, by simp⟩
      | cons e phrase =>
        obtain rfl : c = e := (List.cons.inj hrest).1
        exact absurd (by simp) hc
    | cons e s'' =>
      obtain ⟨-, rfl⟩ := List.cons.inj hrest
      exact .inr ⟨s'', t, List.append_assoc _ _ _⟩

/-- A phrase does not begin at a character that is not its first. -/
lemma infix_of_cons {phrase x : List Char} {c : Char} (hne : phrase ≠ []) (hc : phrase.head? ≠ some c)
    (h : phrase <:+: c :: x) : phrase <:+: x := by
  rcases List.infix_cons_iff.mp h with h | h
  · obtain ⟨t, ht⟩ := h
    cases phrase with
    | nil => exact absurd rfl hne
    | cons e phrase =>
      obtain rfl : e = c := (List.cons.inj ht).1
      exact absurd rfl hc
  · exact h

/-- When two ways of broadcasting fail, and the report says the transaction is known, one of the two
said so. -/
lemma reportsKnown_or {first second firstError secondError : String}
    (hfirst : broadcastReportsKnown first = false) (hsecond : broadcastReportsKnown second = false)
    (h : broadcastReportsKnown s!"{first}: {firstError}; {second}: {secondError}" = true) :
    broadcastReportsKnown firstError = true ∨ broadcastReportsKnown secondError = true := by
  simp only [broadcastReportsKnown, List.any_eq_true] at h ⊢
  obtain ⟨known, hknown, h⟩ := h
  rw [broadcastReportsKnown, List.any_eq_false] at hfirst hsecond
  have hshape : known.toList ≠ [] ∧ known.toList.head? ≠ some ' ' ∧ ':' ∉ known.toList ∧
      ';' ∉ known.toList := by
    simp only [List.mem_cons, List.not_mem_nil, or_false] at hknown
    rcases hknown with rfl | rfl | rfl | rfl <;> decide
  obtain ⟨hne, hhead, hcolon, hsemicolon⟩ := hshape
  have hin : ∀ {text : String}, known.toList <:+: Text.toAsciiLower text.toList →
      contains (Text.toAsciiLower text.toList) known.toList = true := contains_iff.mpr
  have hlower : Text.toAsciiLower s!"{first}: {firstError}; {second}: {secondError}".toList =
      Text.toAsciiLower first.toList ++ ':' :: ' ' :: (Text.toAsciiLower firstError.toList ++
        ';' :: ' ' :: (Text.toAsciiLower second.toList ++
          ':' :: ' ' :: Text.toAsciiLower secondError.toList)) := by
    simp [Text.toAsciiLower, toString, Text.asciiLower]
  rw [contains_iff, hlower] at h
  rcases infix_split hcolon h with h | h
  · exact absurd (hin h) (hfirst known hknown)
  rw [← List.cons_append] at h
  rcases infix_split hsemicolon h with h | h
  · exact .inl ⟨known, hknown, hin (infix_of_cons hne hhead h)⟩
  rw [← List.cons_append] at h
  rcases infix_split hcolon h with h | h
  · exact absurd (hin (infix_of_cons hne hhead h)) (hsecond known hknown)
  · exact .inr ⟨known, hknown, hin (infix_of_cons hne hhead h)⟩

/-! ## Programs that only ask -/

/-- From one state to a later one in which the files in place are the same. -/
structure Asked (w w' : World) : Prop where
  same : Same w.disk w'.disk
  heard : w.heard <+: w'.heard

section Asked

variable {w w' w'' : World} {q : Op} {a : Answer q}

lemma Asked.refl (w : World) : Asked w w := ⟨Agrees.refl _, List.prefix_refl _⟩

lemma Asked.trans (h : Asked w w') (h' : Asked w' w'') : Asked w w'' :=
  ⟨h.same.trans h'.same, h.heard.trans h'.heard⟩

lemma World.Answers.heard_grows (h : w.Answers q a w') : w.heard <+: w'.heard := by
  rw [h.heard]
  exact List.prefix_append _ _

lemma World.Answers.mem_heard (h : w.Answers q a w') :
    (⟨q, a⟩ : (q : Op) × Answer q) ∈ w'.heard := by
  rw [h.heard]
  exact List.mem_append_right _ (List.mem_singleton.mpr rfl)

lemma World.Answers.asked (h : w.Answers q a w') (hq : q.Quiet) : Asked w w' :=
  ⟨h.acts.same hq, h.heard_grows⟩

end Asked

/-- A program with its conditions, for all answers. -/
abbrev Always {α : Type} (inv : World → Prop) (p : Task α)
    (post : Except String α → World → Prop) (w : World) : Prop :=
  Holds (fun _ _ => True) inv p post w

section Questions

variable {inv : World → Prop} {w : World} {α β : Type} {journal : String} {cfg : RuntimeConfig}

/-- What was heard stays heard, and a program that succeeds may say so. -/
lemma Holds.heard {kind : (q : Op) → Answer q → Prop} {p : Task α} {q : α → World → Prop}
    {failed : World → Prop} (h : Holds kind inv p (upon q failed) w) :
    Holds kind inv p (upon (fun a w' => q a w' ∧ w.heard <+: w'.heard) failed) w := by
  refine ((h.and (holds_heard kind p w)).weaken fun _ => And.left).mono fun x w' hx => ?_
  cases x with
  | ok a => exact hx
  | error e => exact hx.1

lemma always_quiet (hst : Stable inv) (hw : inv w) {p : Task α} (hp : p.Asks Op.Quiet) :
    Always inv p (fun _ w' => Asked w w') w := by
  have hboth : Always (fun w' => inv w' ∧ Asked w w') p (fun _ w' => inv w' ∧ Asked w w') w := by
    refine hp.wp ⟨hw, Asked.refl w⟩ fun w₁ q a w₂ h hq hans => ?_
    exact ⟨hst w₁ q a w₂ h.1 hq hans.1, h.2.trans (hans.1.asked hq)⟩
  exact (hboth.weaken fun _ => And.left).mono fun _ _ => And.right

/-- A program that only asks, and what follows it. -/
lemma Always.quiet (hst : Stable inv) (hw : inv w) {p : Task α} (hp : p.Asks Op.Quiet)
    {f : α → Task β} {post : Except String β → World → Prop}
    (hf : ∀ a w', inv w' → Asked w w' → Always inv (f a) post w')
    (he : ∀ e w', inv w' → Asked w w' → post (.error e) w') : Always inv (p >>= f) post w := by
  have hasked : Always inv p (upon (fun _ w' => Asked w w') (fun w' => Asked w w')) w := by
    refine (always_quiet hst hw hp).mono fun x w' h => ?_
    cases x with
    | ok a => exact h
    | error e => exact h
  exact wp.seq hasked hw hf he

lemma quiet_transactionKnown {txid : List Char} : (transactionKnown txid).Asks Op.Quiet := by
  unfold transactionKnown
  split
  · trivial
  · exact Asks.query trivial fun _ => asks_lift _

lemma quiet_markerPresent {path : Path} {txid : List Char} :
    (markerPresent journal path txid).Asks Op.Quiet := by
  rw [markerPresent]
  refine Asks.query trivial fun a => (asks_lift _).bind fun marker => ?_
  cases marker with
  | none => trivial
  | some marker =>
    show Asks Op.Quiet (if _ then _ else _)
    split <;> trivial

lemma quiet_makeDirectory {what : String} : (makeDirectory journal what).Asks Op.Quiet := by
  rw [makeDirectory]
  exact Asks.query trivial fun a => asks_lift _

lemma quiet_syncCommitted {path : Path} : (syncCommitted journal path).Asks Op.Quiet := by
  rw [syncCommitted]
  exact Asks.query trivial fun a => asks_lift _

lemma quiet_preflight {label : String} {txid rawHex : List Char} :
    (preflightPendingTransaction cfg label txid rawHex).Asks Op.Quiet := by
  unfold preflightPendingTransaction
  split
  · trivial
  · exact (asks_lift _).bind fun hex => Asks.query trivial fun a => (asks_lift _).bind fun _ =>
      asks_lift _

lemma quiet_fetchRaw {txid : List Char} : (fetchRaw txid).Asks Op.Quiet := by
  rw [fetchRaw]
  refine Asks.query trivial fun a => ?_
  cases a with
  | error e => trivial
  | ok value => cases value <;> trivial

lemma always_fetchLiveJob (hst : Stable inv) (hw : inv w) :
    Always inv fetchLiveJob (upon (fun fresh w' => Asked w w' ∧
      w'.heard = w.heard ++ [⟨.fetchLiveJob, .ok fresh⟩]) (fun _ => True)) w := by
  rw [fetchLiveJob]
  refine holds_query hst hw (q := .fetchLiveJob) trivial fun a w' hans _ _ _ => ?_
  cases a with
  | ok fresh => exact ⟨hans.asked trivial, hans.heard⟩
  | error e => trivial

lemma always_transactionKnown (hst : Stable inv) (hw : inv w) {txid : List Char} :
    Always inv (transactionKnown txid) (upon (fun known w' => Asked w w' ∧
      ∃ a, knownAnswer a = .ok known ∧ w'.heard = w.heard ++ [⟨.getTransaction txid, a⟩])
      (fun _ => True)) w := by
  unfold transactionKnown
  split
  · trivial
  refine holds_query hst hw (q := .getTransaction txid) trivial fun a w' hans _ _ _ => ?_
  cases hknown : knownAnswer a with
  | ok known => exact ⟨hans.asked trivial, a, hknown, hans.heard⟩
  | error e => trivial

/-- A lag is what the memory says at the time that was heard. -/
lemma always_claimLags (hst : Stable inv) (hw : inv w) {claim : Option ClaimContext}
    {fresh : LiveJob} :
    Always inv (claimLags claim fresh) (upon (fun lags w' => Asked w w' ∧
      ∀ context, claim = some context → ∃ now, w'.heard = w.heard ++ [⟨.now, now⟩] ∧
        lags = context.unindexed.indexerLags fresh now) (fun _ => True)) w := by
  cases claim with
  | none => exact ⟨Asked.refl w, by rintro _ ⟨⟩⟩
  | some context =>
    refine holds_query hst hw (q := .now) trivial fun now w' hans _ _ _ => ?_
    refine ⟨hans.asked trivial, ?_⟩
    rintro _ ⟨⟩
    exact ⟨now, hans.heard, rfl⟩

end Questions

/-! ## Lineage -/

/-- A baton descends from another: a chain of transactions, each known by its hash, that spend the
first output of the one before. -/
inductive Descends [Hasher] (ancestor : List Char) : List Char → Prop
  | self {txid : List Char} (h : Text.eqIgnoreCase txid ancestor = true) : Descends ancestor txid
  | spends {txid rawHex previous : List Char} {raw : Bytes}
    (hraw : Text.hexDecode (Text.trim rawHex) = some raw)
    (hid : Text.eqIgnoreCase (transactionId raw) txid = true)
    (hinput : firstInputOutpoint rawHex = .ok (previous, 0)) (h : Descends ancestor previous) :
    Descends ancestor txid

/-- A live baton is the claim's own, or descends from it. -/
def FromClaim [Hasher] (pending : PendingSubmission) (live : LiveJob) : Prop :=
  pending.resultingBatonIsAuthoritative live = true ∨
    (live.batonVout = 0 ∧ Descends pending.resultingBatonTxid live.batonTxid)

section Lineage

variable [Hasher] {inv : World → Prop} {w : World} {pending : PendingSubmission}

lemma lineageStep_ok {cursor raw previous : List Char} {vout : ℕ}
    (h : lineageStep cursor raw = .ok (previous, vout)) :
    ∃ bytes, Text.hexDecode (Text.trim raw) = some bytes ∧
      Text.eqIgnoreCase (transactionId bytes) cursor = true ∧
      firstInputOutpoint raw = .ok (previous, vout) := by
  rw [lineageStep] at h
  cases hraw : Text.hexDecode (Text.trim raw) with
  | none =>
    rw [hraw] at h
    cases h
  | some bytes =>
    simp only [hraw, Except.ite_error_eq_ok, Bool.not_eq_false] at h
    exact ⟨bytes, rfl, h.1, h.2⟩

/-- A walk that reaches the ancestor went from each transaction to the one it spends. -/
lemma always_walkLineage (hst : Stable inv) (hw : inv w) {ancestor : List Char}
    {boundaries : List (List Char)} {exceeded : List Char → String} {steps : ℕ} {cursor : List Char} :
    Always inv (walkLineage ancestor 0 boundaries exceeded steps cursor)
      (upon (fun proven w' => Asked w w' ∧ (proven = true → Descends ancestor cursor))
        (fun _ => True)) w := by
  induction steps generalizing cursor w with
  | zero => trivial
  | succ steps ih =>
    refine Always.quiet hst hw quiet_fetchRaw (fun raw w₁ hw₁ hasked => ?_) fun _ _ _ _ => trivial
    refine holds_lift (fun previous hprevious => ?_) fun _ _ => trivial
    obtain ⟨previousTxid, previousVout⟩ := previous
    obtain ⟨bytes, hraw, hid, hinput⟩ := lineageStep_ok hprevious
    show Always inv (if _ then _ else _) _ w₁
    split_ifs with hvout hancestor
    · exact ⟨hasked, by rintro ⟨⟩⟩
    · obtain rfl := not_not.mp hvout
      exact ⟨hasked, fun _ => .spends hraw hid hinput (.self hancestor)⟩
    · exact ⟨hasked, by rintro ⟨⟩⟩
    · trivial
    · obtain rfl := not_not.mp hvout
      refine (ih hw₁).mono fun x w₂ hx => ?_
      cases x with
      | ok proven => exact ⟨hasked.trans hx.1, fun h => .spends hraw hid hinput (hx.2 h)⟩
      | error e => trivial

lemma always_resultingBaton (hst : Stable inv) (hw : inv w) (hvout : pending.resultingBatonVout = 0)
    {fresh : LiveJob} :
    Always inv (resultingBatonIsAuthoritativeOrDescendant pending fresh)
      (upon (fun proven w' => Asked w w' ∧ (proven = true → FromClaim pending fresh))
        (fun _ => True)) w := by
  unfold resultingBatonIsAuthoritativeOrDescendant proveBatonDescendsFrom
  rw [hvout]
  split_ifs with hauth hzero hself
  · exact ⟨Asked.refl w, fun _ => .inl hauth⟩
  · exact ⟨Asked.refl w, by rintro ⟨⟩⟩
  · exact ⟨Asked.refl w, fun _ => .inr ⟨not_not.mp fun h => hzero (.inl h), .self hself⟩⟩
  · refine (always_walkLineage hst hw).mono fun x w' hx => ?_
    cases x with
    | ok proven => exact ⟨hx.1, fun h => .inr ⟨not_not.mp fun h => hzero (.inl h), hx.2 h⟩⟩
    | error e => trivial

end Lineage

end Pickaxe.Photon
