/-
# The jobs a pool keeps

A pool's sessions over every run of messages, with any templates, verdicts and times.  A run keeps
the declarations that were made, with what their tokens were worth.  Every declared job the pool
keeps is one of them, with the transactions its ids name.
-/
import Pickaxe.Jd.Declarator

namespace Pickaxe.Jd

open Lib Journal

variable [Hasher] [Bitcoin]

/-! ## Runs -/

/-- A pool's shared state and its sessions. -/
structure Pool where
  declarator : Declarator
  sessions : UInt64 → Option DeclaratorSession

/-- What happens at a pool. -/
inductive Step where
  | connect
  | receive (owner : UInt64) (message : Message) (context : Context) (now : ℕ) (node : Node)
  | expire (owner : UInt64) (now : ℕ)
  | disconnect (owner : UInt64)
  /-- A mining connection redeems a token. -/
  | redeem (token : Bytes) (payout : List Char) (held : DeclaredJob → Bool) (now : ℕ)

namespace Pool

/-- A session is replaced, or ends. -/
def put (pool : Pool) (owner : UInt64) (session : Option DeclaratorSession)
    (declarator : Declarator) : Pool :=
  ⟨declarator, fun o => if o = owner then session else pool.sessions o⟩

/-- A connection closes: `close` drops its tokens. -/
def close (pool : Pool) (owner : UInt64) (declarator : Declarator) : Pool :=
  pool.put owner none { declarator with book := declarator.book.dropOwner owner }

/-- One step. -/
def step (pool : Pool) : Step → Pool
  | .connect =>
    pool.put pool.declarator.nextOwner (some (.new pool.declarator.nextOwner))
      { pool.declarator with nextOwner := pool.declarator.nextOwner + 1 }
  | .receive owner message context now node =>
    match pool.sessions owner with
    | none => pool
    | some session =>
      let result := session.receive pool.declarator message context now node
      match result.2.2 with
      | .error _ => pool.close owner result.2.1
      | .ok responses =>
        if responses.close then pool.close owner result.2.1
        else pool.put owner (some result.1) result.2.1
  | .expire owner now =>
    match pool.sessions owner with
    | none => pool
    | some session => pool.put owner (some (session.expire now).1) pool.declarator
  | .disconnect owner => pool.close owner pool.declarator
  | .redeem token payout held now =>
    { pool with declarator :=
      { pool.declarator with book := (pool.declarator.book.redeem token payout held now).1 } }

/-- A pool without clients yet. -/
def init (accept : AcceptJd) (network : MiningNetwork) (pool : PublicPool) (donation : BchDonation)
    (validator : Bool) : Pool :=
  ⟨⟨accept, network, pool, donation, .empty, .empty, validator, 0⟩, fun _ => none⟩

end Pool

/-- A declaration, with what its token was worth and the pool's templates. -/
structure Declaration where
  owner : UInt64
  request : DeclareMiningJob
  payout : List Char
  rates : PoolRates
  current : BchTemplate
  recent : List BchTemplate

/-- The declaration a step makes. -/
def Pool.declaration? (pool : Pool) : Step → Option Declaration
  | .receive owner (.declare request) context now _ =>
    match (pool.declarator.book.declare request.miningJobToken owner now).2, context.current with
    | .ok (payout, rates), some current =>
      some ⟨owner, request, payout, rates, current, context.recent⟩
    | _, _ => none
  | _ => none

/-- A pool after some steps, with the declarations that were made. -/
def run (pool : Pool) (steps : List Step) : Pool × List Declaration :=
  steps.foldl (fun s step => (s.1.step step, s.2 ++ (s.1.declaration? step).toList)) (pool, [])

lemma run_concat (pool : Pool) (steps : List Step) (step : Step) :
    run pool (steps ++ [step]) =
      ((run pool steps).1.step step,
        (run pool steps).2 ++ ((run pool steps).1.declaration? step).toList) := by
  simp [run]

/-! ## What holds of a job -/

/-- A transaction belongs to an id: one of the pool's own templates has it, or a client provided it
and it was checked. -/
def Belongs (templates : List BchTemplate) (tx : Bytes) (txid : Hash) : Prop :=
  ((∃ t ∈ templates, tx ∈ t.transactions) ∧ doubleSha256 tx = txid) ∨
    checkedTransaction tx = .ok txid

/-- The checks a declaration passed, up to its transactions. -/
structure Admitted (network : MiningNetwork) (pool : PublicPool) (d : Declaration)
    (shape : CoinbaseShape) (txids : List Hash) : Prop where
  parse : CoinbaseShape.parse d.request.coinbaseTxPrefix d.request.coinbaseTxSuffix = .ok shape
  height : heightScript d.current.height <+: shape.head
  payout : ∃ rule, PayoutRule.fromRates network d.payout pool d.rates = .ok rule ∧
    rule.check shape.outputs ≠ none ∧
    PayoutRule.checkLeaves network rule shape.outputs d.request.excessData = .ok ()
  ids : txids.map ByteVec.bytes = d.request.wtxidList
  few : txids.length ≤ maxDeclaredTxs
  ordered : txids.Pairwise Before
  version : (d.request.version ^^^ d.current.version) &&& ~~~versionRollingMask = 0

/-- A declared job is what its declaration says. -/
structure Consistent (network : MiningNetwork) (pool : PublicPool) (d : Declaration)
    (job : DeclaredJob) : Prop where
  admitted : ∃ txids, Admitted network pool d job.shape txids ∧
    List.Forall₂ (Belongs (d.current :: d.recent)) job.template.transactions txids ∧
    job.template = d.current.declared d.request.version job.template.transactions txids

/-! ## The checks -/

section Checks

lemma checkedTransaction_ok {tx : Bytes} {txid : Hash} (h : checkedTransaction tx = .ok txid) :
    txid = doubleSha256 tx := by
  unfold checkedTransaction at h
  split at h
  · cases h
  · split_ifs at h
    cases h
    rfl

/-- Whatever belongs to an id hashes to it. -/
lemma Belongs.txid_eq {templates : List BchTemplate} {tx : Bytes} {txid : Hash}
    (h : Belongs templates tx txid) : txid = doubleSha256 tx := by
  rcases h with ⟨-, h⟩ | h
  · exact h.symm
  · exact checkedTransaction_ok h

omit [Bitcoin] in
lemma transaction_eq_some {t : BchTemplate} {txid : Hash} {tx : Bytes}
    (h : t.transaction txid = some tx) : tx ∈ t.transactions ∧ doubleSha256 tx = txid := by
  have hmem := List.mem_of_find?_eq_some h
  have heq := List.find?_some h
  exact ⟨List.mem_reverse.mp hmem, of_decide_eq_true heq⟩

/-- The first look finds what belongs to the id, if the provided transactions do. -/
lemma belongs_of_lookUp {templates : List BchTemplate} {provided : ProvidedTxs} {txid : Hash}
    {tx : Bytes} (hprovided : ∀ id tx, provided.get id = some tx → checkedTransaction tx = .ok id)
    (h : Pending.lookUp templates provided txid = some tx) : Belongs templates tx txid := by
  rw [Pending.lookUp, Option.or_eq_some_iff] at h
  rcases h with h | ⟨-, h⟩
  · obtain ⟨t, ht, htx⟩ := List.exists_of_findSome?_eq_some h
    obtain ⟨hmem, heq⟩ := transaction_eq_some htx
    exact .inl ⟨⟨t, ht, hmem⟩, heq⟩
  · exact .inr (hprovided _ _ h)

omit [Hasher] [Bitcoin] in
lemma map_bytes_of_mapM {bytes : List Bytes} {ids : List Hash}
    (h : bytes.mapM (ByteVec.ofBytes? 32) = some ids) : ids.map ByteVec.bytes = bytes := by
  induction bytes generalizing ids with
  | nil =>
    cases h
    rfl
  | cons b bytes ih =>
    rw [List.mapM_cons, Option.bind_eq_bind, Option.bind_eq_some_iff] at h
    obtain ⟨id, hid, h⟩ := h
    rw [Option.bind_eq_bind, Option.bind_eq_some_iff] at h
    obtain ⟨rest, hrest, h⟩ := h
    cases h
    unfold ByteVec.ofBytes? at hid
    split_ifs at hid
    cases hid
    rw [List.map_cons, ih hrest]

/-- What waits is admitted, with transactions that belong to its ids. -/
structure Waits (network : MiningNetwork) (pool : PublicPool) (d : Declaration) (p : Pending) :
    Prop where
  admitted : Admitted network pool d p.shape p.txids
  payout : p.payout = d.payout
  rates : p.rates = d.rates
  version : p.version = d.request.version
  context : p.context = d.current
  found : List.Forall₂ (fun o txid => ∀ tx, o = some tx → Belongs (d.current :: d.recent) tx txid)
    p.found p.txids

/-- `declare` admits what passes its checks. -/
lemma waits_of_request {declarator : Declarator} {d : Declaration} {p : Pending} {now : ℕ}
    (hprovided : ∀ id tx, declarator.provided.get id = some tx → checkedTransaction tx = .ok id)
    (h : Pending.ofRequest declarator d.request ⟨some d.current, d.recent⟩ d.payout d.rates now = .ok p) :
    Waits declarator.network declarator.pool d p := by
  obtain ⟨shape, hshape, h⟩ := Except.bind_eq_ok.mp h
  obtain ⟨_, hheight, h⟩ := Except.bind_eq_ok.mp h
  obtain ⟨_, hpayout, h⟩ := Except.bind_eq_ok.mp h
  obtain ⟨txids, htxids, h⟩ := Except.bind_eq_ok.mp h
  obtain ⟨hversion, h⟩ := Except.ite_error_eq_ok.mp h
  cases h
  have hheight : heightScript d.current.height <+: shape.head := by
    unfold Pending.checkHeight at hheight
    split_ifs at hheight with hpush
    exact List.isPrefixOf_iff_prefix.mp hpush
  obtain ⟨rule, hrule, hpayout⟩ := Except.bind_eq_ok.mp hpayout
  obtain ⟨hcheck, hleaves⟩ := Except.ite_error_eq_ok.mp hpayout
  obtain ⟨hfew, htxids⟩ := Except.ite_error_eq_ok.mp htxids
  cases hmap : d.request.wtxidList.mapM (ByteVec.ofBytes? 32) with
  | none =>
    rw [hmap] at htxids
    cases htxids
  | some ids =>
    rw [hmap] at htxids
    dsimp only at htxids
    split_ifs at htxids with hordered
    cases htxids
    have hbytes := map_bytes_of_mapM hmap
    exact {
      admitted := {
        parse := hshape
        height := hheight
        payout := ⟨rule, Except.mapError_eq_ok.mp hrule, hcheck, Except.mapError_eq_ok.mp hleaves⟩
        ids := hbytes
        few := by
          rw [← hbytes, List.length_map] at hfew
          exact Nat.not_lt.mp hfew
        ordered := ctorOrdered_iff.mp hordered
        version := not_not.mp hversion }
      payout := rfl
      rates := rfl
      version := rfl
      context := rfl
      found := by
        rw [List.forall₂_map_left_iff, List.forall₂_same]
        exact fun txid _ tx => belongs_of_lookUp hprovided }

omit [Hasher] [Bitcoin] in
/-- Slots that are all filled hold their contents in order. -/
lemma forall₂_filterMap {R : Bytes → Hash → Prop} {found : List (Option Bytes)} {ids : List Hash}
    (h : List.Forall₂ (fun o txid => ∀ tx, o = some tx → R tx txid) found ids)
    (hfull : ∀ o ∈ found, o.isNone = false) : List.Forall₂ R (found.filterMap id) ids := by
  induction h with
  | nil => exact .nil
  | @cons o txid found ids ho _ ih =>
    have hrest := ih fun o ho => hfull o (List.mem_cons_of_mem _ ho)
    cases o with
    | none => exact absurd (hfull none List.mem_cons_self) (by decide)
    | some tx => exact .cons (ho tx rfl) hrest

omit [Hasher] [Bitcoin] in
/-- A slot is filled with what belongs to its id. -/
lemma forall₂_set {R : Option Bytes → Hash → Prop} {found : List (Option Bytes)} {ids : List Hash}
    {i : ℕ} {o : Option Bytes} {txid : Hash} (h : List.Forall₂ R found ids)
    (hid : ids[i]? = some txid) (ho : R o txid) : List.Forall₂ R (found.set i o) ids := by
  induction h generalizing i with
  | nil => exact .nil
  | cons hhead hrest ih =>
    cases i with
    | zero =>
      cases hid
      exact .cons ho hrest
    | succ i => exact .cons hhead (ih hid)

/-- Once nothing is missing, the job is consistent. -/
lemma Waits.consistent {network : MiningNetwork} {pool : PublicPool} {d : Declaration} {p : Pending}
    (h : Waits network pool d p) (hmissing : p.missing = []) : Consistent network pool d p.job := by
  have hfull : ∀ o ∈ p.found, o.isNone = false := by
    intro o ho
    obtain ⟨i, hi⟩ := List.mem_iff_getElem?.mp ho
    have hmem : (o, i) ∈ p.found.zipIdx := List.mem_zipIdx_iff_getElem?.mpr hi
    have hnil : (p.found.zipIdx.filter fun e => e.1.isNone) = [] := by
      rw [Pending.missing, List.take_eq_nil_iff] at hmissing
      exact List.map_eq_nil_iff.mp (hmissing.resolve_left (by decide))
    exact Bool.eq_false_iff.mpr (List.filter_eq_nil_iff.mp hnil _ hmem)
  have hfound := forall₂_filterMap h.found hfull
  refine ⟨p.txids, h.admitted, hfound, ?_⟩
  rw [Pending.job, h.context, h.version]
  rfl

end Checks

/-! ## The provided transactions -/

namespace ProvidedTxs

omit [Hasher] [Bitcoin] in
lemma lookup_filter {l : List (Hash × Bytes)} {gone id : Hash} {tx : Bytes}
    (h : (l.filter fun e => e.1 != gone).lookup id = some tx) : l.lookup id = some tx := by
  have hne : id ≠ gone := by
    obtain ⟨before, rest, heq, -⟩ := List.lookup_eq_some_iff.mp h
    have hmem : (id, tx) ∈ l.filter fun e => e.1 != gone := by
      rw [heq]
      exact List.mem_append_right _ List.mem_cons_self
    exact bne_iff_ne.mp (List.mem_filter.mp hmem).2
  induction l with
  | nil => cases h
  | cons e l ih =>
    by_cases hgone : e.1 = gone
    · rw [List.filter_cons_of_neg (by simp [hgone])] at h
      have hkey : (id == e.1) = false := by simp [hgone, hne]
      rw [List.lookup_cons, hkey]
      exact ih h
    · rw [List.filter_cons_of_pos (by simp [hgone]), List.lookup_cons] at h
      rw [List.lookup_cons]
      cases hkey : id == e.1 with
      | true =>
        rw [hkey] at h
        exact h
      | false =>
        rw [hkey] at h
        exact ih h

omit [Hasher] [Bitcoin] in
lemma get_evict {order : List Hash} {byId : List (Hash × Bytes)} {bytes : ℕ} {id : Hash} {tx : Bytes}
    (h : (evict order byId bytes).get id = some tx) : byId.lookup id = some tx := by
  induction order generalizing byId bytes with
  | nil => exact h
  | cons oldest order ih =>
    rw [evict] at h
    split_ifs at h
    · exact h
    · cases hfound : byId.lookup oldest with
      | none =>
        simp only [hfound] at h
        exact ih h
      | some old =>
        simp only [hfound] at h
        exact lookup_filter (ih h)

omit [Hasher] [Bitcoin] in
/-- What is found in the cache was there before or is what was inserted. -/
lemma get_insert {p : ProvidedTxs} {id id' : Hash} {tx tx' : Bytes}
    (h : (p.insert id tx).get id' = some tx') : p.get id' = some tx' ∨ id' = id ∧ tx' = tx := by
  unfold insert at h
  split_ifs at h
  · exact .inl h
  · have h := get_evict h
    rw [List.lookup_cons] at h
    cases hkey : id' == id with
    | true =>
      rw [hkey] at h
      exact .inr ⟨eq_of_beq hkey, (Option.some.inj h).symm⟩
    | false =>
      rw [hkey] at h
      exact .inl h

end ProvidedTxs

/-! ## The invariant -/

section Invariant

variable {network : MiningNetwork} {pool : PublicPool} {ds : List Declaration} {owner : UInt64}
  {session : DeclaratorSession} {declarator : Declarator} {pending : Pending} {now : ℕ} {node : Node}

/-- What a session and what the sessions share hold, of the declarations made so far. -/
structure Holds (network : MiningNetwork) (pool : PublicPool) (ds : List Declaration)
    (declarator : Declarator) : Prop where
  network_eq : declarator.network = network
  pool_eq : declarator.pool = pool
  /-- What stands in the cache was checked, and a declaration asked for it. -/
  provided : ∀ id tx, declarator.provided.get id = some tx →
    checkedTransaction tx = .ok id ∧ ∃ d ∈ ds, id.bytes ∈ d.request.wtxidList
  /-- A declared job's token has its declaration's worth. -/
  book : ∀ s e job, declarator.book.entries.find? s = some e → e.kind = .declared job →
    ∃ d ∈ ds, d.owner = e.owner ∧ d.payout = e.payout ∧ d.rates = e.rates ∧
      Consistent network pool d job

/-- The same for a session. -/
structure HoldsFor (network : MiningNetwork) (pool : PublicPool) (ds : List Declaration)
    (owner : UInt64) (session : DeclaratorSession) : Prop where
  owner_eq : session.owner = owner
  pending : ∀ id p, session.pending.find? id = some p →
    ∃ d ∈ ds, d.owner = owner ∧ Waits network pool d p
  declared : ∀ job ∈ session.declared, ∃ d ∈ ds, d.owner = owner ∧ Consistent network pool d job

lemma Holds.mono {ds' : List Declaration} (h : Holds network pool ds declarator) (hsub : ds ⊆ ds') :
    Holds network pool ds' declarator where
  network_eq := h.network_eq
  pool_eq := h.pool_eq
  provided := fun id tx htx => by
    obtain ⟨hcheck, d, hd, hid⟩ := h.provided id tx htx
    exact ⟨hcheck, d, hsub hd, hid⟩
  book := fun s e job hs hkind => by
    obtain ⟨d, hd, hrest⟩ := h.book s e job hs hkind
    exact ⟨d, hsub hd, hrest⟩

lemma HoldsFor.mono {ds' : List Declaration} (h : HoldsFor network pool ds owner session)
    (hsub : ds ⊆ ds') : HoldsFor network pool ds' owner session where
  owner_eq := h.owner_eq
  pending := fun id p hp => by
    obtain ⟨d, hd, hrest⟩ := h.pending id p hp
    exact ⟨d, hsub hd, hrest⟩
  declared := fun job hjob => by
    obtain ⟨d, hd, hrest⟩ := h.declared job hjob
    exact ⟨d, hsub hd, hrest⟩

/-- A book without new entries. -/
lemma Holds.withBook {book : TokenBook DeclaredJob} (h : Holds network pool ds declarator)
    (hbook : ∀ s e, book.entries.find? s = some e → declarator.book.entries.find? s = some e) :
    Holds network pool ds { declarator with book } where
  network_eq := h.network_eq
  pool_eq := h.pool_eq
  provided := h.provided
  book := fun s e job hs => h.book s e job (hbook s e hs)

/-- A kept job joins its session and the book. -/
lemma holds_finish (h : Holds network pool ds declarator) (hs : HoldsFor network pool ds owner session)
    {id : UInt32} {d : Declaration} (hd : d ∈ ds) (howner : d.owner = owner)
    (hwaits : Waits network pool d pending) (hmissing : pending.missing = []) :
    Holds network pool ds (session.finish declarator id pending now node).2.1 ∧
      HoldsFor network pool ds owner (session.finish declarator id pending now node).1 := by
  have hjob := hwaits.consistent hmissing
  unfold DeclaratorSession.finish
  cases session.validate declarator pending now node with
  | error code => exact ⟨h, hs⟩
  | ok checked =>
    -- the new entry is the declaration's
    have hbook : Holds network pool ds { declarator with book := (declarator.book.declared
        session.owner pending.payout pending.rates pending.job node.secret now).1 } := by
      refine ⟨h.network_eq, h.pool_eq, h.provided, fun s e job hfind hkind => ?_⟩
      rcases TokenBook.mem_insert hfind with hold | rfl
      · exact h.book s e job hold hkind
      · cases hkind
        exact ⟨d, hd, howner.trans hs.owner_eq.symm, hwaits.payout.symm, hwaits.rates.symm, hjob⟩
    cases hdeclared : declarator.book.declared session.owner pending.payout pending.rates pending.job
      node.secret now with
    | mk book answer =>
      rw [hdeclared] at hbook
      cases answer with
      | error code => exact ⟨hbook, hs.owner_eq, hs.pending, hs.declared⟩
      | ok token =>
        refine ⟨hbook, hs.owner_eq, hs.pending, fun job hmem => ?_⟩
        have hmem := List.mem_of_mem_drop hmem
        rcases List.mem_append.mp hmem with hold | hnew
        · exact hs.declared job hold
        · rw [List.mem_singleton.mp hnew]
          exact ⟨d, hd, howner, hjob⟩

/-- A declaration that waits is asked about or finished. -/
lemma holds_advance (h : Holds network pool ds declarator)
    (hs : HoldsFor network pool ds owner session) {id : UInt32} {d : Declaration} (hd : d ∈ ds)
    (howner : d.owner = owner) (hwaits : Waits network pool d pending) :
    Holds network pool ds (session.advance declarator id pending now node).2.1 ∧
      HoldsFor network pool ds owner (session.advance declarator id pending now node).1 := by
  unfold DeclaratorSession.advance
  split_ifs with hmissing hrounds
  · exact holds_finish h hs hd howner hwaits hmissing
  · exact ⟨h, hs⟩
  · refine ⟨h, hs.owner_eq, fun id' p hp => ?_, hs.declared⟩
    rw [OrdMap.find?_insert] at hp
    split_ifs at hp
    · cases hp
      exact ⟨d, hd, howner, hwaits.admitted, hwaits.payout, hwaits.rates, hwaits.version,
        hwaits.context, hwaits.found⟩
    · exact hs.pending id' p hp

/-- The transactions a client provides fill the slots of their ids. -/
lemma holds_provideEach {pairs : List (UInt16 × Bytes)} {provided : ProvidedTxs} {d : Declaration}
    (hd : d ∈ ds) (hwaits : Waits network pool d pending)
    (hprovided : ∀ id tx, provided.get id = some tx →
      checkedTransaction tx = .ok id ∧ ∃ d ∈ ds, id.bytes ∈ d.request.wtxidList) :
    (∀ id tx, (DeclaratorSession.provideEach pairs pending provided).1.get id = some tx →
      checkedTransaction tx = .ok id ∧ ∃ d ∈ ds, id.bytes ∈ d.request.wtxidList) ∧
    ∀ pending', (DeclaratorSession.provideEach pairs pending provided).2 = .ok pending' →
      Waits network pool d pending' := by
  induction pairs generalizing pending provided with
  | nil =>
    refine ⟨hprovided, fun pending' h => ?_⟩
    cases h
    exact hwaits
  | cons pair pairs ih =>
    obtain ⟨position, tx⟩ := pair
    cases hchecked : checkedTransaction tx with
    | error e =>
      have hstop : DeclaratorSession.provideEach ((position, tx) :: pairs) pending provided =
          (provided, .error "invalid-job") := by
        rw [DeclaratorSession.provideEach, hchecked]
      rw [hstop]
      exact ⟨hprovided, fun _ h => by cases h⟩
    | ok txid =>
      have hstep : DeclaratorSession.provideEach ((position, tx) :: pairs) pending provided =
          if pending.txids[position.toNat]? ≠ some txid then (provided, .error "invalid-job")
          else DeclaratorSession.provideEach pairs
            { pending with found := pending.found.set position.toNat (some tx) }
            (provided.insert txid tx) := by
        rw [DeclaratorSession.provideEach, hchecked]
      rw [hstep]
      split_ifs with hasked
      · exact ⟨hprovided, fun _ h => by cases h⟩
      · have hasked := not_not.mp hasked
        refine ih ?_ ?_
        · refine ⟨hwaits.admitted, hwaits.payout, hwaits.rates, hwaits.version, hwaits.context, ?_⟩
          exact forall₂_set hwaits.found hasked fun tx' htx => by
            cases htx
            exact .inr hchecked
        · intro id tx' hget
          rcases ProvidedTxs.get_insert hget with hold | ⟨rfl, rfl⟩
          · exact hprovided id tx' hold
          · refine ⟨hchecked, d, hd, ?_⟩
            rw [← hwaits.admitted.ids]
            exact List.mem_map_of_mem (List.mem_of_getElem? hasked)

/-- A reply to the pool's request. -/
lemma holds_receiveProvided (h : Holds network pool ds declarator)
    (hs : HoldsFor network pool ds owner session) (reply : ProvideMissingTransactionsSuccess) :
    Holds network pool ds (session.receiveProvided declarator reply now node).2.1 ∧
      HoldsFor network pool ds owner (session.receiveProvided declarator reply now node).1 := by
  unfold DeclaratorSession.receiveProvided
  cases hfound : session.pending.find? reply.requestId with
  | none => exact ⟨h, hs⟩
  | some pending =>
    obtain ⟨d, hd, howner, hwaits⟩ := hs.pending _ _ hfound
    dsimp only
    have herased : HoldsFor network pool ds owner
        { session with pending := session.pending.erase reply.requestId } := by
      refine ⟨hs.owner_eq, fun id p hp => ?_, hs.declared⟩
      rw [OrdMap.find?_erase] at hp
      split_ifs at hp
      exact hs.pending id p hp
    have hprovide : (∀ id tx,
        (DeclaratorSession.provide pending reply declarator.provided).1.get id = some tx →
          checkedTransaction tx = .ok id ∧ ∃ d ∈ ds, id.bytes ∈ d.request.wtxidList) ∧
        ∀ pending', (DeclaratorSession.provide pending reply declarator.provided).2 = .ok pending' →
          Waits network pool d pending' := by
      unfold DeclaratorSession.provide
      split_ifs with hcount
      · exact ⟨h.provided, fun _ h => by cases h⟩
      · obtain ⟨hcache, hpending⟩ := holds_provideEach
          hd hwaits h.provided
        refine ⟨hcache, fun pending' hok => ?_⟩
        obtain ⟨filled, hfilled, rfl⟩ := Except.map_eq_ok.mp hok
        have hfilled := hpending filled hfilled
        exact ⟨hfilled.admitted, hfilled.payout, hfilled.rates, hfilled.version, hfilled.context,
          hfilled.found⟩
    cases hresult : DeclaratorSession.provide pending reply declarator.provided with
    | mk provided answer =>
      rw [hresult] at hprovide
      have hcache : Holds network pool ds { declarator with provided } :=
        ⟨h.network_eq, h.pool_eq, hprovide.1, h.book⟩
      cases answer with
      | error code => exact ⟨hcache, herased⟩
      | ok filled => exact holds_advance hcache herased hd howner (hprovide.2 filled rfl)

/-- A declaration, which joins those made. -/
lemma holds_declare (h : Holds network pool ds declarator)
    (hs : HoldsFor network pool ds owner session) {request : DeclareMiningJob} {context : Context}
    {ds' : List Declaration} (hsub : ds ⊆ ds')
    (hnew : ∀ payout rates current, (declarator.book.declare request.miningJobToken owner now).2 =
      .ok (payout, rates) → context.current = some current →
        ⟨owner, request, payout, rates, current, context.recent⟩ ∈ ds') :
    Holds network pool ds' (session.declare declarator request context now node).2.1 ∧
      HoldsFor network pool ds' owner (session.declare declarator request context now node).1 := by
  obtain rfl := hs.owner_eq
  have h' := h.mono hsub
  have hs' := hs.mono hsub
  have hkept : ∀ s e, (declarator.book.declare request.miningJobToken session.owner now).1.entries.find? s =
      some e → declarator.book.entries.find? s = some e :=
    fun _ _ => (TokenBook.declare_follows declarator.book request.miningJobToken session.owner now).mem rfl
  unfold DeclaratorSession.declare
  dsimp only
  split_ifs with hmany
  · exact ⟨h', hs'.owner_eq, hs'.pending, hs'.declared⟩
  · cases hdeclare : declarator.book.declare request.miningJobToken session.owner now with
    | mk book answer =>
      rw [hdeclare] at hkept
      have hbook : Holds network pool ds' { declarator with book } :=
        h'.withBook hkept
      cases answer with
      | error code => exact ⟨hbook, hs'.owner_eq, hs'.pending, hs'.declared⟩
      | ok worth =>
        obtain ⟨payout, rates⟩ := worth
        have hlisted : HoldsFor network pool ds' session.owner { session with
            declarations := (session.declarations.dropWhile fun at_ => 60 * second ≤ now - at_) ++
              [now] } := ⟨hs'.owner_eq, hs'.pending, hs'.declared⟩
        dsimp only
        cases hrequest : Pending.ofRequest { declarator with book } request context payout rates now with
        | error code => exact ⟨hbook, hlisted⟩
        | ok pending =>
          obtain ⟨current, recent⟩ := context
          cases current with
          | none => cases hrequest
          | some current =>
            have hmem := hnew payout rates current (by rw [hdeclare]) rfl
            have hwaits : Waits network pool
                ⟨session.owner, request, payout, rates, current, recent⟩ pending := by
              have hadmitted : Waits _ _ ⟨session.owner, request, payout, rates, current, recent⟩
                  pending := waits_of_request (fun id tx htx => (hbook.provided id tx htx).1) hrequest
              rwa [show ({ declarator with book } : Declarator).network = network from h.network_eq,
                show ({ declarator with book } : Declarator).pool = pool from h.pool_eq]
                at hadmitted
            exact holds_advance hbook hlisted hmem rfl hwaits

/-- An allocation. -/
lemma holds_receiveAllocate (h : Holds network pool ds declarator)
    (hs : HoldsFor network pool ds owner session) {requestId : UInt32} {identity : List Char} :
    Holds network pool ds (session.receiveAllocate declarator requestId identity now node).2.1 ∧
      HoldsFor network pool ds owner
        (session.receiveAllocate declarator requestId identity now node).1 := by
  have hlisted : ∀ allocations, HoldsFor network pool ds owner { session with allocations } :=
    fun allocations => ⟨hs.owner_eq, hs.pending, hs.declared⟩
  unfold DeclaratorSession.receiveAllocate
  dsimp only
  cases Payout.identityLogin declarator.network identity with
  | error e => exact ⟨h, hlisted _⟩
  | ok login =>
    dsimp only
    cases PayoutRule.publicPool declarator.network login.payout declarator.pool
      (login.donation.getD declarator.donation) with
    | error e => exact ⟨h, hlisted _⟩
    | ok rule =>
      dsimp only
      have hbook : Holds network pool ds { declarator with book := (declarator.book.allocate
          session.owner login.payout rule.allocatedOutputs.2 session.fullTemplate node.secret
          now).1 } := by
        refine ⟨h.network_eq, h.pool_eq, h.provided, fun s e job hfind hkind => ?_⟩
        rcases TokenBook.mem_insert hfind with hold | rfl
        · exact h.book s e job hold hkind
        · cases hkind
      cases hallocate : declarator.book.allocate session.owner login.payout rule.allocatedOutputs.2
        session.fullTemplate node.secret now with
      | mk book answer =>
        rw [hallocate] at hbook
        cases answer with
        | error e => exact ⟨hbook, hlisted _⟩
        | ok token => exact ⟨hbook, hlisted _⟩

/-- Any message. -/
lemma holds_receive (h : Holds network pool ds declarator)
    (hs : HoldsFor network pool ds owner session) {message : Message} {context : Context}
    {ds' : List Declaration} (hsub : ds ⊆ ds')
    (hnew : ∀ request payout rates current, message = .declare request →
      (declarator.book.declare request.miningJobToken owner now).2 = .ok (payout, rates) →
        context.current = some current →
          ⟨owner, request, payout, rates, current, context.recent⟩ ∈ ds') :
    Holds network pool ds' (session.receive declarator message context now node).2.1 ∧
      HoldsFor network pool ds' owner
        (session.receive declarator message context now node).1 := by
  have h' := h.mono hsub
  have hs' := hs.mono hsub
  cases message with
  | setup jobDeclaration minVersion maxVersion flags =>
    rw [DeclaratorSession.receive]
    split_ifs
    · exact ⟨h', hs'⟩
    · refine ⟨h', ?_⟩
      unfold DeclaratorSession.receiveSetup
      dsimp only
      split
      · exact hs'
      · exact ⟨hs'.owner_eq, hs'.pending, hs'.declared⟩
  | allocate requestId identity =>
    rw [DeclaratorSession.receive]
    split_ifs
    · exact holds_receiveAllocate h' hs'
    · exact ⟨h', hs'⟩
  | declare request =>
    rw [DeclaratorSession.receive]
    split_ifs
    · exact holds_declare h hs hsub fun payout rates current => hnew request payout rates current rfl
    · exact ⟨h', hs'⟩
  | provide reply =>
    rw [DeclaratorSession.receive]
    split_ifs
    · exact holds_receiveProvided h' hs' reply
    · exact ⟨h', hs'⟩
  | push solution =>
    rw [DeclaratorSession.receive]
    split_ifs
    · exact ⟨h', hs'⟩
    · exact ⟨h', hs'⟩

end Invariant

/-! ## Every run -/

section Runs

variable {network : MiningNetwork} {pool : PublicPool} {ds : List Declaration}

/-- A whole pool holds what its parts hold. -/
structure Sound (network : MiningNetwork) (pool : PublicPool) (ds : List Declaration) (p : Pool) :
    Prop where
  shared : Holds network pool ds p.declarator
  sessions : ∀ owner session, p.sessions owner = some session →
    HoldsFor network pool ds owner session

lemma Sound.mono {ds' : List Declaration} {p : Pool} (h : Sound network pool ds p) (hsub : ds ⊆ ds') :
    Sound network pool ds' p :=
  ⟨h.shared.mono hsub, fun owner session hfind => (h.sessions owner session hfind).mono hsub⟩

lemma sound_put {p : Pool} {owner : UInt64} {session : Option DeclaratorSession}
    {declarator : Declarator} (h : Sound network pool ds p)
    (hshared : Holds network pool ds declarator)
    (hsession : ∀ s, session = some s → HoldsFor network pool ds owner s) :
    Sound network pool ds (p.put owner session declarator) := by
  refine ⟨hshared, fun o s hfind => ?_⟩
  unfold Pool.put at hfind
  dsimp only at hfind
  split_ifs at hfind with ho
  · rw [ho]
    exact hsession s hfind
  · exact h.sessions o s hfind

lemma sound_close {p : Pool} {owner : UInt64} {declarator : Declarator} (h : Sound network pool ds p)
    (hshared : Holds network pool ds declarator) : Sound network pool ds (p.close owner declarator) := by
  refine sound_put h (hshared.withBook fun s e hfind => ?_) (fun s hs => by cases hs)
  exact (TokenBook.shrinks_filter declarator.book fun e => e.owner != owner).old hfind

/-- One step, with the declaration it makes. -/
lemma sound_step {p : Pool} (h : Sound network pool ds p) (step : Step) :
    Sound network pool (ds ++ (p.declaration? step).toList) (p.step step) := by
  cases step with
  | connect =>
    refine sound_put (h.mono (List.subset_append_left _ _)) ?_ fun s hs => ?_
    · have hshared := h.shared.mono (List.subset_append_left ds (p.declaration? .connect).toList)
      exact ⟨hshared.network_eq, hshared.pool_eq, hshared.provided, hshared.book⟩
    · cases hs
      refine ⟨rfl, fun id pending h => ?_, fun job h => ?_⟩
      · have h : (OrdMap.empty : OrdMap UInt32 Pending).find? id = some pending := h
        rw [OrdMap.find?_empty] at h
        cases h
      · exact absurd h List.not_mem_nil
  | receive owner message context now node =>
    have hsub : ds ⊆ ds ++ (p.declaration? (.receive owner message context now node)).toList :=
      List.subset_append_left _ _
    rw [Pool.step]
    cases hfind : p.sessions owner with
    | none => exact h.mono hsub
    | some session =>
      -- what this message declares was added to the list
      have hnew : ∀ request payout rates current, message = .declare request →
          (p.declarator.book.declare request.miningJobToken owner now).2 = .ok (payout, rates) →
            context.current = some current →
              ⟨owner, request, payout, rates, current, context.recent⟩ ∈
                ds ++ (p.declaration? (.receive owner message context now node)).toList := by
        intro request payout rates current hmessage hworth hcurrent
        subst hmessage
        refine List.mem_append_right _ ?_
        rw [Pool.declaration?, hworth, hcurrent]
        exact List.mem_singleton_self _
      obtain ⟨hshared, hsession⟩ : Holds network pool _
          (session.receive p.declarator message context now node).2.1 ∧ _ :=
        holds_receive h.shared (h.sessions owner session hfind) hsub hnew
      dsimp only
      split
      · exact sound_close (h.mono hsub) hshared
      · split_ifs
        · exact sound_close (h.mono hsub) hshared
        · exact sound_put (h.mono hsub) hshared fun s hs => by
            cases hs
            exact hsession
  | expire owner now =>
    have h' := h.mono (List.subset_append_left ds (p.declaration? (.expire owner now)).toList)
    rw [Pool.step]
    cases hfind : p.sessions owner with
    | none => exact h'
    | some session =>
      refine sound_put h' h'.shared fun s hs => ?_
      cases hs
      have hold := h'.sessions owner session hfind
      refine ⟨hold.owner_eq, fun id pending hpending => ?_, hold.declared⟩
      have hpending : (session.pending.filter fun _ pending =>
          !decide (30 * second ≤ now - pending.started)).find? id = some pending := hpending
      rw [OrdMap.find?_filter, Option.filter_eq_some_iff] at hpending
      exact hold.pending id pending hpending.1
  | disconnect owner =>
    have h' := h.mono (List.subset_append_left ds (p.declaration? (.disconnect owner)).toList)
    exact sound_close h' h'.shared
  | redeem token payout held now =>
    have h' := h.mono (List.subset_append_left ds
      (p.declaration? (.redeem token payout held now)).toList)
    refine ⟨h'.shared.withBook fun s e hfind => ?_, h'.sessions⟩
    have hfollows := TokenBook.redeem_follows p.declarator.book token payout held now
    refine hfollows.mem ?_ hfind
    rfl

lemma sound_run (accept : AcceptJd) (donation : BchDonation) (validator : Bool) (steps : List Step) :
    Sound network pool (run (.init accept network pool donation validator) steps).2
      (run (.init accept network pool donation validator) steps).1 := by
  induction steps using List.reverseRecOn with
  | nil =>
    refine ⟨⟨rfl, rfl, fun id tx h => ?_, fun s e job h => ?_⟩, fun owner session h => ?_⟩
    · have h : ([] : List (Hash × Bytes)).lookup id = some tx := h
      cases h
    · have h : (OrdMap.empty : OrdMap ℕ (TokenBook.Entry DeclaredJob)).find? s = some e := h
      rw [OrdMap.find?_empty] at h
      cases h
    · have h : (none : Option DeclaratorSession) = some session := h
      cases h
  | append_singleton steps step ih =>
    rw [run_concat]
    exact sound_step ih step

end Runs

/-! ## Kept jobs -/

/-- A pool keeps a declared job: its session does, for solutions, or a token that stands for it. -/
def Pool.Keeps (p : Pool) (owner : UInt64) (job : DeclaredJob) : Prop :=
  (∃ session, p.sessions owner = some session ∧ job ∈ session.declared) ∨
    ∃ s e, p.declarator.book.entries.find? s = some e ∧ e.owner = owner ∧ e.kind = .declared job

/-- What is asked of a kept job: the declared transactions in canonical order, under them a branch for
the coinbase, and a coinbase at the pool's height that pays the token's rule. -/
structure Declaration.Describes (d : Declaration) (network : MiningNetwork) (pool : PublicPool)
    (job : DeclaredJob) : Prop where
  txids : job.template.transactions.map (fun tx => (doubleSha256 tx).bytes) = d.request.wtxidList
  ordered : (job.template.transactions.map doubleSha256).Pairwise Before
  checked : ∀ tx ∈ job.template.transactions,
    (∃ t ∈ d.current :: d.recent, tx ∈ t.transactions) ∨ checkedTransaction tx = .ok (doubleSha256 tx)
  merklePath : job.template.merklePath = coinbasePath (job.template.transactions.map doubleSha256)
  parent : job.template.previousHash = d.current.previousHash
  coinbase : ∃ rule, PayoutRule.fromRates network d.payout pool d.rates = .ok rule ∧
    ∀ extranonce bytes, job.shape.coinbase extranonce = some bytes →
      heightScript d.current.height <+: slice bytes 42 (42 + job.shape.scriptLen) ∧
        ∃ outputs, parseOutputs (slice bytes (42 + job.shape.scriptLen + 4) (bytes.length - 4)) =
          .ok outputs ∧ rule.check outputs ≠ none

lemma Consistent.describes {network : MiningNetwork} {pool : PublicPool} {d : Declaration}
    {job : DeclaredJob} (h : Consistent network pool d job) : d.Describes network pool job := by
  obtain ⟨txids, hadmitted, hbelongs, htemplate⟩ := h
  have hids : job.template.transactions.map doubleSha256 = txids := by
    rw [← List.forall₂_eq_eq_eq, List.forall₂_map_left_iff]
    exact hbelongs.imp fun _ _ hb => hb.txid_eq.symm
  obtain ⟨rule, hrule, hcheck, -⟩ := hadmitted.payout
  have hparsed := CoinbaseShape.parse_parsed hadmitted.parse
  refine {
    txids := ?_
    ordered := by rw [hids]; exact hadmitted.ordered
    checked := fun tx htx => ?_
    merklePath := by rw [hids, htemplate]; rfl
    parent := by rw [htemplate]; rfl
    coinbase := ⟨rule, hrule, fun extranonce bytes hbytes => ⟨?_, _,
      hparsed.outputs extranonce bytes hbytes, hcheck⟩⟩ }
  · rw [← hadmitted.ids, ← hids, List.map_map]
    rfl
  · obtain ⟨i, hi⟩ := List.mem_iff_getElem?.mp htx
    obtain ⟨hlt, htx⟩ := List.getElem?_eq_some_iff.mp hi
    have hbelong := hbelongs.get hlt (hbelongs.length_eq ▸ hlt)
    rw [List.get_eq_getElem, htx] at hbelong
    rcases hbelong with ⟨htemplates, -⟩ | hchecked
    · exact .inl htemplates
    · exact .inr ((checkedTransaction_ok hchecked) ▸ hchecked)
  · rw [hparsed.script extranonce bytes hbytes]
    exact hadmitted.height.trans (List.prefix_append _ _)

/-- Every declared job a pool keeps is one that was declared to it, and every transaction in its cache
was checked and declared. -/
theorem kept_jobs_described (accept : AcceptJd) (network : MiningNetwork) (pool : PublicPool)
    (donation : BchDonation) (validator : Bool) (steps : List Step) :
    let result := run (.init accept network pool donation validator) steps
    (∀ owner job, result.1.Keeps owner job →
      ∃ d ∈ result.2, d.owner = owner ∧ d.Describes network pool job) ∧
    ∀ id tx, result.1.declarator.provided.get id = some tx →
      checkedTransaction tx = .ok id ∧ ∃ d ∈ result.2, id.bytes ∈ d.request.wtxidList := by
  intro result
  have hsound : Sound network pool result.2 result.1 := sound_run accept donation validator steps
  refine ⟨fun owner job hkeeps => ?_, hsound.shared.provided⟩
  rcases hkeeps with ⟨session, hfind, hmem⟩ | ⟨s, e, hfind, rfl, hkind⟩
  · obtain ⟨d, hd, howner, hconsistent⟩ := (hsound.sessions owner session hfind).declared job hmem
    exact ⟨d, hd, howner, hconsistent.describes⟩
  · obtain ⟨d, hd, howner, -, -, hconsistent⟩ := hsound.shared.book s e job hfind hkind
    exact ⟨d, hd, howner, hconsistent.describes⟩

end Pickaxe.Jd
