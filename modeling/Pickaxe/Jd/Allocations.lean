/-
# The rate of a session's tokens

A session answers at most twenty token requests in a minute: the next one is answered a minute
behind the answer that is twenty places before it.  Over one connection, whatever else its client
sends and whatever the other sessions do to the shared state meanwhile, the answers come in the
order of the requests, none before its own, and twenty-one of them span a minute.
-/
import Pickaxe.Jd.Declarator
import Pickaxe.Journal.Library
import Pickaxe.Lib.Window

namespace Pickaxe.Jd

open Lib Window Journal

/-- `ALLOCATIONS_PER_MINUTE`. -/
def allocationsPerMinute : ℕ := 20

namespace DeclaratorSession

/-- When the next token request is answered. -/
def answerAt (session : DeclaratorSession) (now : ℕ) : ℕ :=
  Window.answerAt allocationsPerMinute (60 * second) now session.allocations

/-! ## One message -/

section Step

variable {session : DeclaratorSession} {declarator : Declarator} {now : ℕ} {node : Node}

@[simp] lemma allocations_new (owner : UInt64) :
    (DeclaratorSession.new owner).allocations = [] := rfl

@[simp] lemma allocations_expire : (session.expire now).1.allocations = session.allocations := rfl

@[simp] lemma allocations_receiveSetup (jobDeclaration : Bool) (minVersion maxVersion : UInt16)
    (flags : UInt32) :
    (session.receiveSetup declarator jobDeclaration minVersion maxVersion flags).1.allocations =
      session.allocations := by
  simp only [receiveSetup]
  split
  · rfl
  · rfl

/-- A token request joins the queue with the time of its answer, and the answer carries that. -/
lemma receiveAllocate_spec (requestId : UInt32) (identity : List Char) :
    let result := session.receiveAllocate declarator requestId identity now node
    result.1.allocations =
      recent (60 * second) now session.allocations ++ [session.answerAt now] ∧
    ∀ responses, result.2.2 = .ok responses →
      responses.notBefore =
        if now < session.answerAt now then some (session.answerAt now) else none := by
  simp only [receiveAllocate]
  split
  · exact ⟨rfl, nofun⟩
  · split
    · exact ⟨rfl, nofun⟩
    · split
      · exact ⟨rfl, nofun⟩
      · refine ⟨rfl, ?_⟩
        rintro _ ⟨⟩
        rfl

/-- A request with a good username is answered where the book has a token left. -/
lemma exists_receiveAllocate {identity : List Char} {login : Login} {rule : PayoutRule}
    {token : PxToken} (requestId : UInt32)
    (hlogin : Payout.identityLogin declarator.network identity = .ok login)
    (hrule : PayoutRule.publicPool declarator.network login.payout declarator.pool
      (login.donation.getD declarator.donation) = .ok rule)
    (htoken : (declarator.book.allocate session.owner login.payout rule.allocatedOutputs.2
      session.fullTemplate node.secret now).2 = .ok token) :
    ∃ responses,
      (session.receiveAllocate declarator requestId identity now node).2.2 = .ok responses ∧
      (session.receiveAllocate declarator requestId identity now node).1.setUp = session.setUp := by
  simp only [receiveAllocate, hlogin, hrule]
  split
  · rename_i hbook
    cases htoken.symm.trans (congrArg Prod.snd hbook)
  · exact ⟨_, rfl, rfl⟩

variable [Hasher]

@[simp] lemma allocations_finish (id : UInt32) (pending : Pending) :
    (session.finish declarator id pending now node).1.allocations = session.allocations := by
  rw [finish]
  split
  · rfl
  · split
    · rfl
    · rfl

@[simp] lemma allocations_advance (id : UInt32) (pending : Pending) :
    (session.advance declarator id pending now node).1.allocations = session.allocations := by
  rw [advance]
  split
  · exact allocations_finish id pending
  · split
    · rfl
    · rfl

@[simp] lemma allocations_declare (request : DeclareMiningJob) (context : Context) :
    (session.declare declarator request context now node).1.allocations = session.allocations := by
  simp only [declare]
  split
  · rfl
  · split
    · rfl
    · split
      · rfl
      · exact allocations_advance _ _

variable [Bitcoin]

@[simp] lemma allocations_receiveProvided (reply : ProvideMissingTransactionsSuccess) :
    (session.receiveProvided declarator reply now node).1.allocations = session.allocations := by
  simp only [receiveProvided]
  split
  · rfl
  · split
    · rfl
    · exact allocations_advance _ _

end Step

/-! ## A connection -/

/-- The token request a message is and when its answer goes out. -/
def answered (message : Message) (now : ℕ) (responses : JdResponses) : List (ℕ × ℕ) :=
  match message with
  | .allocate _ _ => [(now, responses.notBefore.getD now)]
  | _ => []

section Connection

variable [Hasher] [Bitcoin]

/-- What one connection's session comes to, with the latest time and its token requests so far:
when each came and when it was answered.  An error ends a connection; what the sessions share may be
anything at each message. -/
inductive Connection (owner : UInt64) : DeclaratorSession → ℕ → List (ℕ × ℕ) → Prop
  | opened (now : ℕ) : Connection owner (.new owner) now []
  | received {session : DeclaratorSession} {now now' : ℕ} {history : List (ℕ × ℕ)}
      {responses : JdResponses} (message : Message) (declarator : Declarator) (context : Context)
      (node : Node) :
      Connection owner session now history → now ≤ now' →
      (session.receive declarator message context now' node).2.2 = .ok responses →
      Connection owner (session.receive declarator message context now' node).1 now'
        (history ++ answered message now' responses)
  | expired {session : DeclaratorSession} {now now' : ℕ} {history : List (ℕ × ℕ)} :
      Connection owner session now history → now ≤ now' →
      Connection owner (session.expire now').1 now' history

variable {owner : UInt64} {session : DeclaratorSession} {declarator : Declarator} {now : ℕ}
  {node : Node}

/-- A message that is answered is a token request, which joins the queue, or leaves the queue. -/
lemma receive_cases {message : Message} {context : Context} {responses : JdResponses}
    (h : (session.receive declarator message context now node).2.2 = .ok responses) :
    ((session.receive declarator message context now node).1.allocations = session.allocations ∧
        answered message now responses = []) ∨
      ((session.receive declarator message context now node).1.allocations =
          recent (60 * second) now session.allocations ++ [session.answerAt now] ∧
        (now ≤ session.answerAt now →
          answered message now responses = [(now, session.answerAt now)])) := by
  cases message with
  | setup jobDeclaration minVersion maxVersion flags =>
    refine .inl ⟨?_, rfl⟩
    simp only [receive]
    split
    · rfl
    · exact allocations_receiveSetup jobDeclaration minVersion maxVersion flags
  | allocate requestId identity =>
    simp only [receive] at h ⊢
    split at h
    · rename_i hsetUp
      rw [if_pos hsetUp]
      obtain ⟨hallocations, hresponses⟩ :=
        @receiveAllocate_spec session declarator now node requestId identity
      refine .inr ⟨hallocations, fun hnow => ?_⟩
      rw [answered, hresponses responses h]
      split
      · rfl
      · -- an answer that is not late goes out at once
        rename_i hlt
        exact congrArg (fun t => [(now, t)]) (Nat.le_antisymm hnow (Nat.le_of_not_lt hlt))
    · cases h
  | declare request =>
    refine .inl ⟨?_, rfl⟩
    simp only [receive]
    split
    · exact allocations_declare request context
    · rfl
  | provide reply =>
    refine .inl ⟨?_, rfl⟩
    simp only [receive]
    split
    · exact allocations_receiveProvided reply
    · rfl
  | push solution =>
    refine .inl ⟨?_, rfl⟩
    simp only [receive]
    split
    · rfl
    · rfl

/-- The queue of a connection keeps the limit over its answers, and none comes before its
request. -/
lemma Connection.limited {history : List (ℕ × ℕ)} (h : Connection owner session now history) :
    Limited allocationsPerMinute (60 * second) now (history.map Prod.snd) session.allocations ∧
      ∀ e ∈ history, e.1 ≤ e.2 := by
  induction h with
  | opened now => exact ⟨.nil, nofun⟩
  | received message declarator context node _ hle hok ih =>
    rename_i session now now' history responses _
    obtain ⟨hlimited, hafter⟩ := ih
    have hlater := hlimited.later hle
    obtain ⟨hqueue, hnone⟩ | ⟨hqueue, hone⟩ := receive_cases hok
    · rw [hqueue, hnone, List.append_nil]
      exact ⟨hlater, hafter⟩
    · obtain ⟨hanswer, hnow⟩ := hlater.answer (by decide) (by decide)
      rw [hqueue, hone hnow, List.map_append]
      refine ⟨hanswer, ?_⟩
      intro e he
      obtain he | he := List.mem_append.mp he
      · exact hafter e he
      · obtain rfl := List.mem_singleton.mp he
        exact hnow
  | expired _ hle ih => exact ⟨ih.1.later hle, ih.2⟩

/-- The answers to a connection's token requests come in order, none before its request, and any
twenty-one in a row span a minute. -/
theorem allocations_limited {history : List (ℕ × ℕ)}
    (h : Connection owner session now history) :
    (history.map Prod.snd).Pairwise (· ≤ ·) ∧ (∀ e ∈ history, e.1 ≤ e.2) ∧
      ∀ i first last, history[i]? = some first → history[i + 20]? = some last →
        first.2 + 60 * second ≤ last.2 := by
  obtain ⟨hlimited, hafter⟩ := h.limited
  refine ⟨hlimited.sorted, hafter, fun i first last hfirst hlast => ?_⟩
  refine hlimited.spaced i first.2 last.2 ?_ ?_
  · rw [List.getElem?_map, hfirst]
    rfl
  · rw [List.getElem?_map]
    exact congrArg (Option.map Prod.snd) hlast

end Connection

/-! ## Requests at one time -/

/-- A pool on Chipnet without a token yet. -/
def sampleDeclarator : Declarator :=
  ⟨.coinbaseOnly, .chipnet, PayoutRule.samplePool, .standard, .empty, .empty, false, 0⟩

/-- A node that has no objection. -/
def sampleNode : Node := ⟨true, fun _ => .ok (), ByteVec.zero 8⟩

/-- A miner's username at the sample pool is good for a token. -/
lemma exists_sampleRule : ∃ login rule,
    Payout.identityLogin .chipnet (donationAddress .chipnet) = .ok login ∧
    PayoutRule.publicPool .chipnet login.payout PayoutRule.samplePool
      (login.donation.getD .standard) = .ok rule := by
  have hsome : ((Payout.identityLogin .chipnet (donationAddress .chipnet)).bind fun login =>
      PayoutRule.publicPool .chipnet login.payout PayoutRule.samplePool
        (login.donation.getD .standard)).toOption.isSome = true := by decide +kernel
  cases hlogin : Payout.identityLogin .chipnet (donationAddress .chipnet) with
  | error e =>
    rw [hlogin] at hsome
    cases hsome
  | ok login =>
    rw [hlogin] at hsome
    cases hrule : PayoutRule.publicPool .chipnet login.payout PayoutRule.samplePool
        (login.donation.getD .standard) with
    | error e =>
      rw [Except.bind, hrule] at hsome
      cases hsome
    | ok rule => exact ⟨login, rule, rfl, hrule⟩

/-- A connection of any number of token requests at one time. -/
lemma exists_requests [Hasher] [Bitcoin] (n : ℕ) :
    ∃ session history, session.setUp = true ∧ Connection 0 session 0 history ∧
      history.length = n := by
  induction n with
  | zero =>
    refine ⟨_, _, rfl, .received (.setup true 2 2 0) sampleDeclarator ⟨none, []⟩
      sampleNode (.opened 0) (Nat.le_refl 0) rfl, rfl⟩
  | succ n ih =>
    obtain ⟨session, history, hsetUp, hconnection, rfl⟩ := ih
    obtain ⟨login, rule, hlogin, hrule⟩ := exists_sampleRule
    obtain ⟨responses, hok, hkept⟩ := @exists_receiveAllocate session sampleDeclarator 0 sampleNode
      _ _ _ _ 0 hlogin hrule rfl
    have hreceive : session.receive sampleDeclarator (.allocate 0 (donationAddress .chipnet))
        ⟨none, []⟩ 0 sampleNode =
          session.receiveAllocate sampleDeclarator 0 (donationAddress .chipnet) 0 sampleNode :=
      if_pos hsetUp
    have hnext := Connection.received (.allocate 0 (donationAddress .chipnet)) sampleDeclarator
      ⟨none, []⟩ sampleNode hconnection (Nat.le_refl 0) (hreceive ▸ hok)
    refine ⟨_, _, ?_, hnext, List.length_append⟩
    rw [hreceive]
    exact hkept.trans hsetUp

/-- Twenty-one requests at one time span a minute. -/
theorem allocations_limited_burst :
    let _ : Hasher := Hasher.fips
    let _ : Bitcoin := plainLibrary
    ∃ session history, Connection 0 session 0 history ∧ history.length = 21 ∧
      (history.map Prod.snd).Pairwise (· ≤ ·) ∧ (∀ e ∈ history, e.1 ≤ e.2) ∧
      ∀ i first last, history[i]? = some first → history[i + 20]? = some last →
        first.2 + 60 * second ≤ last.2 := by
  intro _ _
  obtain ⟨session, history, -, hconnection, hlength⟩ := exists_requests 21
  exact ⟨session, history, hconnection, hlength, allocations_limited hconnection⟩

end DeclaratorSession

end Pickaxe.Jd
