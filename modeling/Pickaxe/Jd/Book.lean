/-
# The token book

The tokens a pool has allocated and not yet redeemed.  A token is bound to the connection that
asked for it and to the payout address it was allocated for, lives 10 minutes (60 once
declared) and is redeemed once.

The book is followed over every sequence of calls: a run keeps the calls with their answers,
and the invariant links what stands in the book to the calls that put it there.
-/
import Pickaxe.Jd.Token
import Pickaxe.Lib.OrdMap

namespace Pickaxe.Jd

open Lib

/-- `TOKEN_TTL`, in nanoseconds. -/
def tokenTtl : ℕ := 600 * 10 ^ 9

/-- `DECLARED_TTL`, in nanoseconds. -/
def declaredTtl : ℕ := 3600 * 10 ^ 9

/-- `MAX_TOKENS`. -/
def maxTokens : ℕ := 1024

variable {J : Type}

namespace TokenBook

/-- `Kind`: where a token is from.  A declared job is held by its connection and may be gone when
its token is redeemed. -/
inductive Kind (J : Type) where
  /-- From AllocateMiningJobToken. -/
  | allocated (fullTemplate : Bool)
  /-- From DeclareMiningJob.Success. -/
  | declared (job : J)
deriving DecidableEq

/-- How long a token of a kind lives. -/
def Kind.ttl : Kind J → ℕ
  | allocated _ => tokenTtl
  | declared _ => declaredTtl

/-- `Entry`. -/
structure Entry (J : Type) where
  owner : UInt64
  payout : List Char
  rates : PoolRates
  secret : ByteVec 8
  issued : ℕ
  kind : Kind J
deriving DecidableEq

/-- Whether a token still lives. -/
def Entry.live (e : Entry J) (now : ℕ) : Bool := now - e.issued < e.kind.ttl

/-- `Redeemed`: what a redeemed token sets. -/
inductive Redeemed (J : Type) where
  /-- A Coinbase-only custom job, which must pay these rates. -/
  | allocated (rates : PoolRates)
  /-- A Full-Template custom job, which must match this declared job. -/
  | declared (job : J)
deriving DecidableEq

end TokenBook

open TokenBook (Kind Entry Redeemed)

/-- The tokens a pool has allocated, by their serials. -/
structure TokenBook (J : Type) where
  nextSerial : ℕ
  entries : OrdMap ℕ (Entry J)

namespace TokenBook

/-- The book a pool starts with. -/
def empty : TokenBook J := ⟨0, OrdMap.empty⟩

/-- `expire`: drops the tokens that are too old. -/
def expire (book : TokenBook J) (now : ℕ) : TokenBook J :=
  { book with entries := book.entries.filter fun _ e => e.live now }

/-- `drop_owner`: drops the tokens of a connection that closed. -/
def dropOwner (book : TokenBook J) (owner : UInt64) : TokenBook J :=
  { book with entries := book.entries.filter fun _ e => e.owner != owner }

/-- `remove`. -/
def remove (book : TokenBook J) (serial : ℕ) : TokenBook J :=
  { book with entries := book.entries.erase serial }

/-- The flags a token of a kind carries. -/
def Kind.flags : Kind J → Bool × Bool
  | allocated fullTemplate => (false, fullTemplate)
  | declared _ => (true, true)

/-- The end of `insert`: the next serial, which must exist, gets the entry. -/
def issue (book : TokenBook J) (e : Entry J) : TokenBook J × Except String PxToken :=
  let serial := book.nextSerial + 1
  if serial < 2 ^ 64 then
    (⟨serial, book.entries.insert serial e⟩,
      .ok ⟨e.rates, e.kind.flags.1, e.kind.flags.2, UInt64.ofNat serial, e.secret⟩)
  else (book, .error "tokens exhausted")

/-- `insert`, of an entry with a fresh random secret: a full book first drops its owner's oldest
token, never another's. -/
def insert (book : TokenBook J) (e : Entry J) : TokenBook J × Except String PxToken :=
  let book := book.expire e.issued
  if maxTokens ≤ book.entries.size then
    match book.entries.entries.find? fun p => p.2.owner = e.owner with
    | none => (book, .error "the pool holds too many tokens")
    | some oldest => (book.remove oldest.1).issue e
  else book.issue e

/-- `allocate`. -/
def allocate (book : TokenBook J) (owner : UInt64) (payout : List Char) (rates : PoolRates)
    (fullTemplate : Bool) (secret : ByteVec 8) (now : ℕ) : TokenBook J × Except String PxToken :=
  book.insert ⟨owner, payout, rates, secret, now, .allocated fullTemplate⟩

/-- `declared`: the token of a declaration the pool checked. -/
def declared (book : TokenBook J) (owner : UInt64) (payout : List Char) (rates : PoolRates)
    (job : J) (secret : ByteVec 8) (now : ℕ) : TokenBook J × Except String PxToken :=
  book.insert ⟨owner, payout, rates, secret, now, .declared job⟩

/-- `INVALID`. -/
def invalid : String := "invalid-mining-job-token"

/-- `declare`: spends a Full-Template connection's token on a declaration. -/
def declare (book : TokenBook J) (token : Bytes) (owner : UInt64) (now : ℕ) :
    TokenBook J × Except String (List Char × PoolRates) :=
  let book := book.expire now
  match PxToken.decode token with
  | none => (book, .error invalid)
  | some token => match book.entries.find? token.serial.toNat with
    | none => (book, .error invalid)
    | some e =>
      if e.secret ≠ token.secret ∨ e.owner ≠ owner ∨
          (match e.kind with
            | .allocated true => false
            | _ => true) = true ∨ token.declared = true ∨ token.fullTemplate = false then
        (book, .error invalid)
      else (book.remove token.serial.toNat, .ok (e.payout, e.rates))

/-- What a spent entry sets; `held` tells which declared jobs are still there. -/
def Entry.redeemed (e : Entry J) (held : J → Bool) : Except String (Redeemed J) :=
  match e.kind with
  | .allocated _ => .ok (.allocated e.rates)
  | .declared job => if held job then .ok (.declared job) else .error invalid

/-- `redeem`: spends a token that matches its secret, unless it still has to be declared. -/
def redeem (book : TokenBook J) (token : Bytes) (payout : List Char) (held : J → Bool) (now : ℕ) :
    TokenBook J × Except String (Redeemed J) :=
  let book := book.expire now
  match PxToken.decode token with
  | none => (book, .error invalid)
  | some token => match book.entries.find? token.serial.toNat with
    | none => (book, .error invalid)
    | some e =>
      if e.secret ≠ token.secret then (book, .error invalid)
      else if (match e.kind with
          | .allocated true => true
          | _ => false) = true ∧ e.payout = payout then (book, .error "job-not-yet-validated")
      else if e.payout ≠ payout then (book.remove token.serial.toNat, .error invalid)
      else (book.remove token.serial.toNat, e.redeemed held)

/-! ## Runs -/

/-- A call on the book, with the random secret or the state of the declared jobs it meets. -/
inductive Call (J : Type) where
  | allocate (owner : UInt64) (payout : List Char) (rates : PoolRates) (fullTemplate : Bool)
      (secret : ByteVec 8) (now : ℕ)
  | declared (owner : UInt64) (payout : List Char) (rates : PoolRates) (job : J)
      (secret : ByteVec 8) (now : ℕ)
  | declare (token : Bytes) (owner : UInt64) (now : ℕ)
  | redeem (token : Bytes) (payout : List Char) (held : J → Bool) (now : ℕ)
  | expire (now : ℕ)
  | dropOwner (owner : UInt64)

/-- What a call answers. -/
inductive Answer (J : Type) where
  | issued (answer : Except String PxToken)
  | declaration (answer : Except String (List Char × PoolRates))
  | redeemed (answer : Except String (Redeemed J))
  | done

/-- One call. -/
def step (book : TokenBook J) : Call J → TokenBook J × Answer J
  | .allocate owner payout rates fullTemplate secret now =>
    (book.allocate owner payout rates fullTemplate secret now).map id .issued
  | .declared owner payout rates job secret now =>
    (book.declared owner payout rates job secret now).map id .issued
  | .declare token owner now => (book.declare token owner now).map id .declaration
  | .redeem token payout held now => (book.redeem token payout held now).map id .redeemed
  | .expire now => (book.expire now, .done)
  | .dropOwner owner => (book.dropOwner owner, .done)

/-- The calls so far with their answers. -/
abbrev Trace (J : Type) : Type := List (Call J × Answer J)

/-- The book after some calls, and their answers. -/
def run (calls : List (Call J)) : TokenBook J × Trace J :=
  calls.foldl (fun s call => ((s.1.step call).1, s.2 ++ [(call, (s.1.step call).2)])) (empty, [])

/-- The entry a call puts into the book. -/
def Call.entry : Call J → Option (Entry J)
  | .allocate owner payout rates fullTemplate secret now =>
    some ⟨owner, payout, rates, secret, now, .allocated fullTemplate⟩
  | .declared owner payout rates job secret now =>
    some ⟨owner, payout, rates, secret, now, .declared job⟩
  | _ => none

/-- The serial of a token that was issued. -/
def issuedSerial : Call J × Answer J → Option ℕ
  | (_, .issued (.ok token)) => some token.serial.toNat
  | _ => none

/-- The serial of a token that was spent with success: redeemed, or used for a declaration. -/
def spentSerial : Call J × Answer J → Option ℕ
  | (.declare token _ _, .declaration (.ok _)) => (PxToken.decode token).map fun t => t.serial.toNat
  | (.redeem token _ _ _, .redeemed (.ok _)) => (PxToken.decode token).map fun t => t.serial.toNat
  | _ => none

/-- The connection that calls. -/
def Call.owner : Call J → Option UInt64
  | .allocate owner .. => some owner
  | .declared owner .. => some owner
  | .declare _ owner _ => some owner
  | .redeem .. => none
  | .expire _ => none
  | .dropOwner owner => some owner

/-- The time of a call. -/
def Call.now : Call J → Option ℕ
  | .allocate _ _ _ _ _ now => some now
  | .declared _ _ _ _ _ now => some now
  | .declare _ _ now => some now
  | .redeem _ _ _ now => some now
  | .expire now => some now
  | .dropOwner _ => none

/-- Why a call may take an entry out of the book: it is too old, it is the caller's, or a redeemer
presents its secret. -/
def Call.Takes (call : Call J) (serial : ℕ) (e : Entry J) : Prop :=
  (∃ now, call.now = some now ∧ e.live now = false) ∨ call.owner = some e.owner ∨
    ∃ token payout held now px, call = .redeem token payout held now ∧
      PxToken.decode token = some px ∧ px.serial.toNat = serial ∧ px.secret = e.secret

/-! ## What a call does -/

/-- `book'` is `book` with entries taken out for a reason. -/
structure Shrinks (book book' : TokenBook J) (why : ℕ → Entry J → Prop) : Prop where
  serial : book'.nextSerial = book.nextSerial
  size : book'.entries.size ≤ book.entries.size
  old : ∀ {s e}, book'.entries.find? s = some e → book.entries.find? s = some e
  gone : ∀ {s e}, book.entries.find? s = some e → book'.entries.find? s = some e ∨ why s e

lemma Shrinks.trans {b c d : TokenBook J} {why : ℕ → Entry J → Prop} (h : Shrinks b c why)
    (h' : Shrinks c d why) : Shrinks b d why where
  serial := h'.serial.trans h.serial
  size := h'.size.trans h.size
  old := fun hd => h.old (h'.old hd)
  gone := fun hb => (h.gone hb).elim h'.gone .inr

lemma Shrinks.mono {b c : TokenBook J} {why why' : ℕ → Entry J → Prop} (h : Shrinks b c why)
    (hwhy : ∀ s e, why s e → why' s e) : Shrinks b c why' where
  serial := h.serial
  size := h.size
  old := h.old
  gone := fun hb => (h.gone hb).imp_right (hwhy _ _)

lemma shrinks_filter (book : TokenBook J) (p : Entry J → Bool) :
    Shrinks book { book with entries := book.entries.filter fun _ e => p e }
      fun _ e => p e = false where
  serial := rfl
  size := OrdMap.size_filter_le _ _
  old := by
    intro s e h
    rw [OrdMap.find?_filter, Option.filter_eq_some_iff] at h
    exact h.1
  gone := by
    intro s e h
    rw [OrdMap.find?_filter, h]
    cases hp : p e with
    | false => exact .inr rfl
    | true => exact .inl (by simp [hp])

lemma shrinks_expire (book : TokenBook J) (now : ℕ) :
    Shrinks book (book.expire now) fun _ e => e.live now = false :=
  shrinks_filter book fun e => e.live now

lemma shrinks_remove {book : TokenBook J} {serial : ℕ} {e : Entry J}
    (h : book.entries.find? serial = some e) :
    Shrinks book (book.remove serial) fun s e' => s = serial ∧ e' = e where
  serial := rfl
  size := (OrdMap.size_erase_lt h).le
  old := by
    intro s e' h'
    rw [remove, OrdMap.find?_erase] at h'
    split_ifs at h'
    exact h'
  gone := by
    intro s e' h'
    rw [remove, OrdMap.find?_erase]
    split_ifs with hs
    · subst hs
      exact .inr ⟨rfl, Option.some.inj (h'.symm.trans h)⟩
    · exact .inl h'

/-- What a call does to a book: it takes entries out for a reason, and adds the caller's new one
under the next serial or spends one. -/
structure Follows (book : TokenBook J) (call : Call J) (book' : TokenBook J) (answer : Answer J) :
    Prop where
  /-- What is old was there before, unchanged. -/
  old : ∀ {s e}, s ≤ book.nextSerial → book'.entries.find? s = some e →
    book.entries.find? s = some e
  /-- What is new was issued by this call. -/
  issued : (book'.nextSerial = book.nextSerial ∧ issuedSerial (call, answer) = none) ∨
    (book'.nextSerial = book.nextSerial + 1 ∧ book.nextSerial + 1 < 2 ^ 64 ∧
      issuedSerial (call, answer) = some (book.nextSerial + 1) ∧
      spentSerial (call, answer) = none ∧
      ∃ e token, call.entry = some e ∧ answer = .issued (.ok token) ∧ token.secret = e.secret ∧
        book'.entries.find? (book.nextSerial + 1) = some e)
  /-- Nothing else is there. -/
  bound : ∀ {s e}, book'.entries.find? s = some e → book.entries.find? s = some e ∨
    s = book'.nextSerial
  /-- What is gone was taken for a reason. -/
  gone : ∀ {s e}, book.entries.find? s = some e → book'.entries.find? s = some e ∨ call.Takes s e
  spent : ∀ s, spentSerial (call, answer) = some s →
    (∃ e, book.entries.find? s = some e) ∧ book'.entries.find? s = none
  size : book.entries.size ≤ maxTokens → book'.entries.size ≤ maxTokens

/-- A book that only shrinks, with nothing issued or spent. -/
lemma Shrinks.follows {book book' : TokenBook J} {call : Call J} {answer : Answer J}
    (h : Shrinks book book' call.Takes) (hissued : issuedSerial (call, answer) = none)
    (hspent : spentSerial (call, answer) = none) : Follows book call book' answer where
  old := fun _ hs => h.old hs
  issued := .inl ⟨h.serial, hissued⟩
  bound := fun hs => .inl (h.old hs)
  gone := h.gone
  spent := by
    intro s hs
    rw [hspent] at hs
    cases hs
  size := fun hsize => h.size.trans hsize

/-- A book that shrinks by a spent entry. -/
lemma Shrinks.follows_spent {book book' : TokenBook J} {call : Call J} {answer : Answer J} {s : ℕ}
    {e : Entry J} (h : Shrinks book book' call.Takes) (hissued : issuedSerial (call, answer) = none)
    (hspent : spentSerial (call, answer) = some s) (hbook : book.entries.find? s = some e)
    (hgone : book'.entries.find? s = none) : Follows book call book' answer where
  old := fun _ hs => h.old hs
  issued := .inl ⟨h.serial, hissued⟩
  bound := fun hs => .inl (h.old hs)
  gone := h.gone
  spent := by
    intro s' hs
    rw [hspent, Option.some.injEq] at hs
    subst hs
    exact ⟨⟨e, hbook⟩, hgone⟩
  size := fun hsize => h.size.trans hsize

lemma find?_remove (book : TokenBook J) (serial : ℕ) :
    (book.remove serial).entries.find? serial = none := by
  rw [remove, OrdMap.find?_erase, if_pos rfl]

/-- Issuing into a book that has shrunk and has room. -/
lemma issue_follows {book book' : TokenBook J} {call : Call J} {e : Entry J}
    (hentry : call.entry = some e) (h : Shrinks book book' call.Takes)
    (hkeys : ∀ {s e}, book.entries.find? s = some e → s ≤ book.nextSerial)
    (hsize : book.entries.size ≤ maxTokens → book'.entries.size < maxTokens) :
    Follows book call (book'.issue e).1 (.issued (book'.issue e).2) := by
  have hspent : ∀ r, spentSerial (call, .issued r) = none := by
    intro r
    cases call <;> rfl
  rw [issue, h.serial]
  by_cases hserial : book.nextSerial + 1 < 2 ^ 64
  · simp only [if_pos hserial]
    have hfind : ∀ s, s ≤ book.nextSerial →
        (book'.entries.insert (book.nextSerial + 1) e).find? s = book'.entries.find? s :=
      fun s hs => OrdMap.find?_insert_of_ne _ _ (by omega)
    constructor
    · intro s e' hs hfound
      rw [hfind s hs] at hfound
      exact h.old hfound
    · refine .inr ⟨rfl, hserial, ?_, hspent _, e, _, hentry, rfl, rfl, OrdMap.find?_insert_self _ _ _⟩
      rw [issuedSerial, UInt64.toNat_ofNat_of_lt' (by rw [UInt64.size]; omega)]
    · intro s e' hfound
      rw [OrdMap.find?_insert] at hfound
      split_ifs at hfound with hs
      · exact .inr hs
      · exact .inl (h.old hfound)
    · intro s e' hfound
      rw [hfind s (hkeys hfound)]
      exact h.gone hfound
    · intro s hs
      rw [hspent] at hs
      cases hs
    · intro hle
      have := OrdMap.size_insert_le book'.entries (book.nextSerial + 1) e
      have := hsize hle
      show (book'.entries.insert (book.nextSerial + 1) e).size ≤ maxTokens
      omega
  · simp only [if_neg hserial]
    exact h.follows rfl (hspent _)

lemma insert_follows {book : TokenBook J} {call : Call J} {e : Entry J}
    (hentry : call.entry = some e) (howner : call.owner = some e.owner)
    (hnow : call.now = some e.issued)
    (hkeys : ∀ {s e}, book.entries.find? s = some e → s ≤ book.nextSerial) :
    Follows book call (book.insert e).1 (.issued (book.insert e).2) := by
  have hexpire : Shrinks book (book.expire e.issued) call.Takes :=
    (shrinks_expire book e.issued).mono fun s e' hlive => .inl ⟨_, hnow, hlive⟩
  rw [insert]
  split_ifs with hfull
  · cases hfound : (book.expire e.issued).entries.entries.find? fun p => p.2.owner = e.owner with
    | none =>
      refine hexpire.follows rfl ?_
      cases call <;> rfl
    | some oldest =>
      -- the caller's own token gives way
      have hmem : (book.expire e.issued).entries.find? oldest.1 = some oldest.2 :=
        OrdMap.mem_entries.mp (List.mem_of_find?_eq_some hfound)
      have hown : oldest.2.owner = e.owner := by simpa using List.find?_some hfound
      have hremove : Shrinks (book.expire e.issued) ((book.expire e.issued).remove oldest.1) call.Takes := by
        refine (shrinks_remove hmem).mono ?_
        rintro s e' ⟨-, rfl⟩
        exact .inr (.inl (by rw [howner, hown]))
      refine issue_follows hentry (hexpire.trans hremove) hkeys fun hle => ?_
      exact (OrdMap.size_erase_lt hmem).trans_le (hexpire.size.trans hle)
  · exact issue_follows hentry hexpire hkeys fun _ => Nat.not_le.mp hfull

/-- A call that issues nothing leaves no new entry. -/
lemma Follows.mem {book book' : TokenBook J} {call : Call J} {answer : Answer J}
    (h : Follows book call book' answer) (hnone : issuedSerial (call, answer) = none) {s : ℕ}
    {e : Entry J} (hs : book'.entries.find? s = some e) : book.entries.find? s = some e := by
  obtain ⟨hserial, -⟩ | ⟨-, -, hissued, -⟩ := h.issued
  · rcases h.bound hs with hold | hlast
    · exact hold
    · exact h.old (by omega) hs
  · rw [hnone] at hissued
    cases hissued

/-- After an entry was inserted, the book holds old entries and this one. -/
lemma mem_insert {book : TokenBook J} {e e' : Entry J} {s : ℕ}
    (hs : (book.insert e).1.entries.find? s = some e') :
    book.entries.find? s = some e' ∨ e' = e := by
  have hissue : ∀ {book' : TokenBook J}, (book'.issue e).1.entries.find? s = some e' →
      book'.entries.find? s = some e' ∨ e' = e := by
    intro book' h
    unfold issue at h
    dsimp only at h
    split_ifs at h
    · rw [OrdMap.find?_insert] at h
      split_ifs at h
      · exact .inr (Option.some.inj h).symm
      · exact .inl h
    · exact .inl h
  have hexpire := shrinks_expire book e.issued
  rw [insert] at hs
  split_ifs at hs with hfull
  · cases hfound : (book.expire e.issued).entries.entries.find? fun p => p.2.owner = e.owner with
    | none =>
      simp only [hfound] at hs
      exact .inl (hexpire.old hs)
    | some oldest =>
      simp only [hfound] at hs
      have hmem := OrdMap.mem_entries.mp (List.mem_of_find?_eq_some hfound)
      exact (hissue hs).imp_left fun h => hexpire.old ((shrinks_remove hmem).old h)
  · exact (hissue hs).imp_left hexpire.old

/-- What `redeem` does when it succeeds. -/
structure Redeems (book : TokenBook J) (token : Bytes) (payout : List Char) (held : J → Bool)
    (now : ℕ) (px : PxToken) (e : Entry J) (r : Redeemed J) : Prop where
  decode : PxToken.decode token = some px
  found : book.entries.find? px.serial.toNat = some e
  live : e.live now = true
  secret : px.secret = e.secret
  payout : payout = e.payout
  result : e.redeemed held = .ok r

lemma live_of_find?_expire {book : TokenBook J} {now s : ℕ} {e : Entry J}
    (h : (book.expire now).entries.find? s = some e) : e.live now = true := by
  rw [expire, OrdMap.find?_filter, Option.filter_eq_some_iff] at h
  exact h.2

lemma redeem_eq_ok {book : TokenBook J} {token : Bytes} {payout : List Char} {held : J → Bool}
    {now : ℕ} {r : Redeemed J} (h : (book.redeem token payout held now).2 = .ok r) :
    ∃ px e, Redeems book token payout held now px e r ∧
      (book.redeem token payout held now).1 = (book.expire now).remove px.serial.toNat := by
  rw [redeem] at h ⊢
  cases hdecode : PxToken.decode token with
  | none =>
    simp only [hdecode] at h
    cases h
  | some px =>
    simp only [hdecode] at h ⊢
    cases hfound : (book.expire now).entries.find? px.serial.toNat with
    | none =>
      simp only [hfound] at h
      cases h
    | some e =>
      simp only [hfound] at h ⊢
      split_ifs at h ⊢ with hsecret hkind hpayout
      exact ⟨px, e, ⟨hdecode, (shrinks_expire book now).old hfound, live_of_find?_expire hfound,
        (not_not.mp hsecret).symm, (not_not.mp hpayout).symm, h⟩, rfl⟩

lemma redeem_follows (book : TokenBook J) (token : Bytes) (payout : List Char) (held : J → Bool)
    (now : ℕ) : Follows book (.redeem token payout held now) (book.redeem token payout held now).1
      (.redeemed (book.redeem token payout held now).2) := by
  have hexpire : Shrinks book (book.expire now) (Call.redeem token payout held now).Takes :=
    (shrinks_expire book now).mono fun s e hlive => .inl ⟨_, rfl, hlive⟩
  cases hresult : (book.redeem token payout held now).2 with
  | ok r =>
    obtain ⟨px, e, h, hbook⟩ := redeem_eq_ok hresult
    rw [hbook]
    have hfound : (book.expire now).entries.find? px.serial.toNat = some e := by
      rw [expire, OrdMap.find?_filter, h.found, Option.filter_some, if_pos h.live]
    have hremove : Shrinks (book.expire now) ((book.expire now).remove px.serial.toNat)
        (Call.redeem token payout held now).Takes := by
      refine (shrinks_remove hfound).mono ?_
      rintro s e' ⟨rfl, rfl⟩
      exact .inr (.inr ⟨_, _, _, _, px, rfl, h.decode, rfl, h.secret⟩)
    exact (hexpire.trans hremove).follows_spent rfl (by rw [spentSerial, h.decode]; rfl) h.found
      (find?_remove _ _)
  | error e =>
    refine Shrinks.follows ?_ rfl rfl
    rw [redeem]
    cases hdecode : PxToken.decode token with
    | none => exact hexpire
    | some px =>
      cases hfound : (book.expire now).entries.find? px.serial.toNat with
      | none => simpa only [hfound] using hexpire
      | some entry =>
        simp only [hfound]
        split_ifs with hsecret
        · exact hexpire
        · exact hexpire
        -- the secret matched: the token is spent, whatever it sets
        all_goals
          refine hexpire.trans ((shrinks_remove hfound).mono ?_)
          rintro s e' ⟨rfl, rfl⟩
          exact .inr (.inr ⟨_, _, _, _, px, rfl, hdecode, rfl, (not_not.mp hsecret).symm⟩)

lemma declare_follows (book : TokenBook J) (token : Bytes) (owner : UInt64) (now : ℕ) :
    Follows book (.declare token owner now) (book.declare token owner now).1
      (.declaration (book.declare token owner now).2) := by
  have hexpire : Shrinks book (book.expire now) (Call.declare token owner now).Takes :=
    (shrinks_expire book now).mono fun s e hlive => .inl ⟨_, rfl, hlive⟩
  rw [declare]
  cases hdecode : PxToken.decode token with
  | none => exact hexpire.follows rfl rfl
  | some px =>
    cases hfound : (book.expire now).entries.find? px.serial.toNat with
    | none => simpa only [hfound] using hexpire.follows rfl rfl
    | some entry =>
      simp only [hfound]
      split_ifs with hbad
      · exact hexpire.follows rfl rfl
      · rw [not_or, not_or, not_not, not_not] at hbad
        have hremove : Shrinks (book.expire now) ((book.expire now).remove px.serial.toNat)
            (Call.declare token owner now).Takes := by
          refine (shrinks_remove hfound).mono ?_
          rintro s e' ⟨-, rfl⟩
          exact .inr (.inl (by rw [hbad.2.1]; rfl))
        exact (hexpire.trans hremove).follows_spent rfl (by rw [spentSerial, hdecode]; rfl)
          (hexpire.old hfound) (find?_remove _ _)

/-- One call, whatever it is. -/
lemma step_follows {book : TokenBook J}
    (hkeys : ∀ {s e}, book.entries.find? s = some e → s ≤ book.nextSerial) (call : Call J) :
    Follows book call (book.step call).1 (book.step call).2 := by
  cases call with
  | allocate => exact insert_follows rfl rfl rfl hkeys
  | declared => exact insert_follows rfl rfl rfl hkeys
  | declare token owner now => exact declare_follows book token owner now
  | redeem token payout held now => exact redeem_follows book token payout held now
  | expire now =>
    exact ((shrinks_expire book now).mono fun s e hlive => .inl ⟨_, rfl, hlive⟩).follows rfl rfl
  | dropOwner owner =>
    refine ((shrinks_filter book fun e => e.owner != owner).mono fun s e howner => ?_).follows rfl rfl
    have heq : e.owner = owner := by simpa using howner
    exact .inr (.inl (by rw [heq]; rfl))

/-! ## The invariant -/

/-- An entry was put into the book by a call that answered with its token. -/
def Issued (trace : Trace J) (serial : ℕ) (e : Entry J) : Prop :=
  ∃ call token, (call, Answer.issued (.ok token)) ∈ trace ∧ call.entry = some e ∧
    token.serial.toNat = serial ∧ token.secret = e.secret

/-- What holds after any calls. -/
structure Inv (book : TokenBook J) (trace : Trace J) : Prop where
  size : book.entries.size ≤ maxTokens
  keys : ∀ {s e}, book.entries.find? s = some e → s ≤ book.nextSerial ∧ Issued trace s e
  /-- Every serial is given once. -/
  issued : (trace.filterMap issuedSerial).Nodup ∧
    ∀ s ∈ trace.filterMap issuedSerial, s ≤ book.nextSerial
  /-- Every serial is spent once, and is then gone for good. -/
  spent : (trace.filterMap spentSerial).Nodup ∧
    ∀ s ∈ trace.filterMap spentSerial, s ≤ book.nextSerial ∧ book.entries.find? s = none

lemma Issued.mono {trace trace' : Trace J} {s : ℕ} {e : Entry J} (h : Issued trace s e)
    (hsub : trace ⊆ trace') : Issued trace' s e := by
  obtain ⟨call, token, hmem, hrest⟩ := h
  exact ⟨call, token, hsub hmem, hrest⟩

lemma inv_empty : Inv (empty : TokenBook J) [] where
  size := Nat.zero_le _
  keys := by
    intro s e h
    cases h
  issued := ⟨List.nodup_nil, fun s hs => by cases hs⟩
  spent := ⟨List.nodup_nil, fun s hs => by cases hs⟩

/-- One call keeps the invariant. -/
lemma Inv.step {book : TokenBook J} {trace : Trace J} (h : Inv book trace) (call : Call J) :
    Inv (book.step call).1 (trace ++ [(call, (book.step call).2)]) := by
  have hfollows := step_follows (fun hs => (h.keys hs).1) call
  generalize (book.step call).1 = book' at hfollows ⊢
  generalize (book.step call).2 = answer at hfollows ⊢
  have hserial : book.nextSerial ≤ book'.nextSerial := by
    rcases hfollows.issued with ⟨heq, -⟩ | ⟨heq, -⟩ <;> omega
  have hsub : trace ⊆ trace ++ [(call, answer)] := List.subset_append_left _ _
  refine ⟨hfollows.size h.size, ?_, ?_, ?_⟩
  · intro s e hs
    rcases hfollows.bound hs with hold | rfl
    · exact ⟨(h.keys hold).1.trans hserial, (h.keys hold).2.mono hsub⟩
    · refine ⟨le_rfl, ?_⟩
      rcases hfollows.issued with ⟨heq, -⟩ | ⟨heq, hlt, hissued, -, e', token, hentry, rfl, hsecret, hfound⟩
      · exact (h.keys (hfollows.old heq.le hs)).2.mono hsub
      · rw [heq, hfound, Option.some.injEq] at hs
        subst hs
        refine ⟨call, token, by simp, hentry, ?_, hsecret⟩
        rw [heq]
        exact Option.some.inj hissued
  · -- a serial that is issued is above all before it
    rw [List.filterMap_append]
    rcases hfollows.issued with ⟨heq, hnone⟩ | ⟨heq, hlt, hissued, -⟩
    · rw [List.filterMap_cons_none hnone, List.filterMap_nil, List.append_nil]
      exact ⟨h.issued.1, fun s hs => (h.issued.2 s hs).trans hserial⟩
    · rw [List.filterMap_cons_some hissued, List.filterMap_nil]
      refine ⟨?_, ?_⟩
      · refine List.nodup_append.mpr ⟨h.issued.1, List.nodup_singleton _, ?_⟩
        rintro s hs t ht rfl
        have hle := h.issued.2 s hs
        rw [List.mem_singleton] at ht
        omega
      · intro s hs
        rcases List.mem_append.mp hs with hs | hs
        · exact (h.issued.2 s hs).trans hserial
        · rw [List.mem_singleton] at hs
          omega
  · -- what was spent does not come back: entries are only taken away, or new
    have hkept : ∀ s ∈ trace.filterMap spentSerial,
        s ≤ book'.nextSerial ∧ book'.entries.find? s = none := by
      intro s hs
      obtain ⟨hle, hnone⟩ := h.spent.2 s hs
      refine ⟨hle.trans hserial, ?_⟩
      cases hfound : book'.entries.find? s with
      | none => rfl
      | some e =>
        rw [hfollows.old hle hfound] at hnone
        cases hnone
    rw [List.filterMap_append]
    cases hspent : spentSerial (call, answer) with
    | none =>
      rw [List.filterMap_cons_none hspent, List.filterMap_nil, List.append_nil]
      exact ⟨h.spent.1, hkept⟩
    | some s =>
      obtain ⟨⟨e, hfound⟩, hgone⟩ := hfollows.spent s hspent
      rw [List.filterMap_cons_some hspent, List.filterMap_nil]
      refine ⟨List.nodup_append.mpr ⟨h.spent.1, List.nodup_singleton _, ?_⟩, ?_⟩
      · -- a spent serial is not in the book
        rintro s' hs' t ht rfl
        rw [List.mem_singleton] at ht
        subst ht
        rw [(h.spent.2 _ hs').2] at hfound
        cases hfound
      · intro t ht
        rcases List.mem_append.mp ht with ht | ht
        · exact hkept t ht
        · rw [List.mem_singleton] at ht
          subst ht
          exact ⟨(h.keys hfound).1.trans hserial, hgone⟩

/-- Every run keeps the invariant. -/
lemma inv_run (calls : List (Call J)) : Inv (run calls).1 (run calls).2 := by
  induction calls using List.reverseRecOn with
  | nil => exact inv_empty
  | append_singleton calls call ih =>
    rw [run, List.foldl_append]
    exact ih.step call

/-- The book over every run of calls.  It holds at most 1,024 tokens, under serials that are given
once and spent once; a redeemed token was issued by an earlier call, is presented with its own
secret and payout within its lifetime, was not spent before and sets what that call stored; tokens
with one serial and secret redeem alike, whatever rates they claim; and a call leaves every
entry as it is unless the entry is too old, the caller's own, or named with its secret by a
redeemer. -/
theorem token_redeemed_once (calls : List (Call J)) :
    let book := (run calls).1
    let trace := (run calls).2
    book.entries.size ≤ 1024 ∧ (trace.filterMap issuedSerial).Nodup ∧
    (trace.filterMap spentSerial).Nodup ∧
    (∀ token payout held now r, (book.redeem token payout held now).2 = .ok r →
      ∃ px e, PxToken.decode token = some px ∧ Issued trace px.serial.toNat e ∧
        px.serial.toNat ∉ trace.filterMap spentSerial ∧ px.secret = e.secret ∧ payout = e.payout ∧
        now - e.issued < e.kind.ttl ∧ e.redeemed held = .ok r) ∧
    (∀ t u p q, PxToken.decode t = some p → PxToken.decode u = some q → p.serial = q.serial →
      p.secret = q.secret → ∀ payout held now,
        book.redeem t payout held now = book.redeem u payout held now) ∧
    ∀ call s e, book.entries.find? s = some e →
      (book.step call).1.entries.find? s = some e ∨ call.Takes s e := by
  intro book trace
  have h : Inv book trace := inv_run calls
  refine ⟨h.size, h.issued.1, h.spent.1, ?_, ?_, ?_⟩
  · intro token payout held now r hr
    obtain ⟨px, e, hredeems, -⟩ := redeem_eq_ok hr
    refine ⟨px, e, hredeems.decode, (h.keys hredeems.found).2, ?_, hredeems.secret, hredeems.payout,
      ?_, hredeems.result⟩
    · intro hspent
      have hfound := hredeems.found
      rw [(h.spent.2 _ hspent).2] at hfound
      cases hfound
    · simpa [Entry.live] using hredeems.live
  · intro t u p q ht hu hserial hsecret payout held now
    simp only [redeem, ht, hu, hserial, hsecret]
  · intro call s e hfound
    exact (step_follows (fun hs => (h.keys hs).1) call).gone hfound

/-- A token is allocated, redeemed and presented again: its answers, and the serials spent. -/
theorem token_redeemed_once_sample :
    let rates : PoolRates := ⟨150, 100, some 2, some 1⟩
    let token : PxToken := ⟨rates, false, false, 1, ByteVec.zero 8⟩
    let redeem : Call Unit := .redeem token.encode "a".toList (fun _ => false) 5
    let calls : List (Call Unit) :=
      [.allocate 7 "a".toList rates false (ByteVec.zero 8) 0, redeem, redeem]
    (run calls).2.filterMap spentSerial = [1] ∧ ((run calls).2.filterMap spentSerial).Nodup := by
  intro rates token redeem calls
  exact ⟨by decide +kernel, (token_redeemed_once calls).2.2.1⟩

end TokenBook

end Pickaxe.Jd
