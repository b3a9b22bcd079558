/-
# Installing jobs

What an installation leaves: the new job is the current one, the one before it joins the
older jobs when it has the same parent and bits, and the oldest give way so that at most
eight are live.  `Channel.Inv` is what every operation keeps.
-/
import Pickaxe.Channel.Check

namespace Pickaxe

open Lib Merge Jd

namespace Channel

/-! ## What every operation keeps -/

/-- The jobs of a channel: at most eight, with distinct ids, all on one parent with one
target in bits, and no set of seen hashes without its job. -/
structure Inv (c : Channel) : Prop where
  length_live : c.live.length ≤ maxActiveJobs
  nodup_ids : (c.live.map Job.id).Nodup
  previous_of_none : c.job = none → c.previous = []
  same_parent : ∀ job, c.job = some job → ∀ old ∈ c.previous,
    old.template.previousHash = job.template.previousHash ∧ old.template.bits = job.template.bits
  seen_live : ∀ id ∈ c.seen.keys, id ∈ c.live.map Job.id
  seen_card : ∀ id seen, c.seen.find? id = some seen → seen.card ≤ maxSharesPerJob

/-- A channel before its first job. -/
def Fresh (c : Channel) : Prop := c.job = none ∧ c.previous = [] ∧ c.seen = OrdMap.empty

lemma Fresh.inv {c : Channel} (h : c.Fresh) : c.Inv := by
  obtain ⟨hjob, hprevious, hseen⟩ := h
  have hlive : c.live = [] := by rw [live, hjob, hprevious]; rfl
  refine ⟨by simp [hlive], by simp [hlive], fun _ => hprevious, ?_, ?_, ?_⟩
  · intro job hsome
    rw [hjob] at hsome
    cases hsome
  · intro id hid
    obtain ⟨seen, hfind⟩ := OrdMap.mem_keys.mp hid
    rw [hseen, OrdMap.find?_empty] at hfind
    cases hfind
  · intro id seen hfind
    rw [hseen, OrdMap.find?_empty] at hfind
    cases hfind

/-! ## The loop that drops the oldest jobs -/

lemma expire_fst (jobs : List Job) (seen : OrdMap UInt32 (Finset Hash)) :
    (expire jobs seen).1 = jobs.drop (jobs.length - (maxActiveJobs - 1)) := by
  have hmax : maxActiveJobs = 8 := rfl
  induction jobs generalizing seen with
  | nil => rfl
  | cons job rest ih =>
    have hlength : (job :: rest).length = rest.length + 1 := rfl
    rw [expire]
    split_ifs with h
    · -- dropped, and the loop goes on with the rest
      rw [ih, show (job :: rest).length - (maxActiveJobs - 1) =
        rest.length - (maxActiveJobs - 1) + 1 by omega, List.drop_succ_cons]
    · rw [show (job :: rest).length - (maxActiveJobs - 1) = 0 by omega, List.drop_zero]

lemma length_expire (jobs : List Job) (seen : OrdMap UInt32 (Finset Hash)) :
    (expire jobs seen).1.length ≤ maxActiveJobs - 1 := by
  rw [expire_fst, List.length_drop]
  omega

/-- A dropped job's set goes with it, and no other. -/
lemma find?_expire (jobs : List Job) (seen : OrdMap UInt32 (Finset Hash)) (id : UInt32) :
    (expire jobs seen).2.find? id =
      if id ∈ (jobs.take (jobs.length - (maxActiveJobs - 1))).map Job.id then none
      else seen.find? id := by
  have hmax : maxActiveJobs = 8 := rfl
  induction jobs generalizing seen with
  | nil => rfl
  | cons job rest ih =>
    have hlength : (job :: rest).length = rest.length + 1 := rfl
    rw [expire]
    by_cases h : (job :: rest).length ≥ maxActiveJobs
    · rw [if_pos h, ih, show (job :: rest).length - (maxActiveJobs - 1) =
        rest.length - (maxActiveJobs - 1) + 1 by omega, List.take_succ_cons, List.map_cons,
        OrdMap.find?_erase]
      by_cases hid : id = job.id
      · rw [if_pos hid, ite_self, if_pos (List.mem_cons.mpr (Or.inl hid))]
      · rw [if_neg hid]
        simp only [List.mem_cons, hid, false_or]
    · rw [if_neg h, show (job :: rest).length - (maxActiveJobs - 1) = 0 by omega, List.take_zero,
        List.map_nil, if_neg (List.not_mem_nil)]

/-! ## Keeping the older jobs -/

/-- What `retain_previous` leaves for `template`: some of the latest jobs, all on the
template's parent, with their own sets and no others. -/
structure Retained (c d : Channel) (template : BchTemplate) : Prop where
  job : d.job = none
  suffix : ∃ dropped, c.live = dropped ++ d.previous
  length_previous : d.previous.length ≤ maxActiveJobs - 1
  same_parent : ∀ old ∈ d.previous, old.template.previousHash = template.previousHash ∧
    old.template.bits = template.bits
  seen : ∀ id, d.seen.find? id =
    if id ∈ d.previous.map Job.id then c.seen.find? id else none
  same : d = { c with job := none, previous := d.previous, seen := d.seen }

/-- A set is found only under a live job's id. -/
lemma Inv.find?_seen {c : Channel} (h : c.Inv) {id : UInt32} (hid : id ∉ c.live.map Job.id) :
    c.seen.find? id = none := by
  cases hfind : c.seen.find? id with
  | none => rfl
  | some seen => exact absurd (h.seen_live id (OrdMap.mem_keys.mpr ⟨seen, hfind⟩)) hid

lemma retainPrevious_spec {c : Channel} (h : c.Inv) (template : BchTemplate) :
    c.Retained (c.retainPrevious template) template := by
  unfold retainPrevious
  cases hjob : c.job with
  | none =>
    have hprevious := h.previous_of_none hjob
    have hlive : c.live = [] := by rw [live, hjob, hprevious]; rfl
    refine ⟨hjob, ⟨[], by rw [hlive, hprevious]; rfl⟩, by simp [hprevious], ?_, ?_, ?_⟩
    · rw [hprevious]
      intro old hold
      cases hold
    · intro id
      have hnone : c.seen.find? id = none := h.find?_seen (by simp [hlive])
      simp [hprevious, hnone]
    · exact congrArg (fun j => { c with job := j }) hjob
  | some current =>
    have hlive : c.live = c.previous ++ [current] := by rw [live, hjob]; rfl
    simp only
    split_ifs with hsame
    · -- the same parent and bits
      set k := (c.previous ++ [current]).length - (maxActiveJobs - 1) with hk
      have hprevious : (expire (c.previous ++ [current]) c.seen).1 = c.live.drop k := by
        rw [expire_fst, hlive]
      refine ⟨rfl, ⟨c.live.take k, ?_⟩, length_expire _ _, ?_, ?_, rfl⟩
      · simp only [hprevious, List.take_append_drop]
      · intro old hold
        simp only [hprevious] at hold
        have hmem : old ∈ c.previous ++ [current] := hlive ▸ List.mem_of_mem_drop hold
        rcases List.mem_append.mp hmem with hold | hold
        · obtain ⟨hhash, hbits⟩ := h.same_parent current hjob old hold
          exact ⟨hhash.trans hsame.1, hbits.trans hsame.2⟩
        · rw [List.mem_singleton.mp hold]
          exact hsame
      · intro id
        simp only [hprevious]
        rw [find?_expire, ← hk, ← hlive]
        -- each live id is on one side of the cut, no other id has a set
        have hsplit : c.live.map Job.id =
            (c.live.take k).map Job.id ++ (c.live.drop k).map Job.id := by
          rw [← List.map_append, List.take_append_drop]
        have hnodup := h.nodup_ids
        rw [hsplit, List.nodup_append] at hnodup
        by_cases htake : id ∈ (c.live.take k).map Job.id
        · have hdrop : id ∉ (c.live.drop k).map Job.id := fun hdrop =>
            hnodup.2.2 id htake id hdrop rfl
          rw [if_pos htake, if_neg hdrop]
        · rw [if_neg htake]
          by_cases hdrop : id ∈ (c.live.drop k).map Job.id
          · rw [if_pos hdrop]
          · rw [if_neg hdrop]
            apply h.find?_seen
            rw [hsplit, List.mem_append, not_or]
            exact ⟨htake, hdrop⟩
    · -- another parent or other bits: nothing stays
      exact ⟨rfl, ⟨c.live, by simp⟩, by simp, by simp, fun id => by simp, rfl⟩

lemma holds_iff (c : Channel) (id : UInt32) : c.holds id = true ↔ id ∈ c.live.map Job.id := by
  unfold holds live
  cases c.job with
  | none => simp
  | some job =>
    simp only [Bool.or_eq_true, beq_iff_eq, List.any_eq_true, List.map_append, List.mem_append,
      List.mem_map, Option.toList_some, List.mem_singleton, exists_eq_left]
    exact or_comm

/-- A new job joins those that `retain_previous` keeps. -/
lemma Retained.inv_install {c d : Channel} {template : BchTemplate} {job : Job} {c' : Channel}
    (hc : c.Inv) (h : c.Retained d template) (hid : c.holds job.id = false)
    (htemplate : job.template = template) (hjob : c'.job = some job)
    (hprevious : c'.previous = d.previous) (hseen : c'.seen = d.seen) : c'.Inv := by
  obtain ⟨dropped, hsuffix⟩ := h.suffix
  have hlive : c'.live = d.previous ++ [job] := by rw [live, hjob, hprevious]; rfl
  have hlen := h.length_previous
  have hmax : maxActiveJobs = 8 := rfl
  have hfresh : job.id ∉ c.live.map Job.id := by
    rw [← holds_iff, hid]
    simp
  rw [hsuffix, List.map_append, List.mem_append, not_or] at hfresh
  have hnodup := hc.nodup_ids
  rw [hsuffix, List.map_append, List.nodup_append] at hnodup
  refine ⟨?_, ?_, ?_, ?_, ?_, ?_⟩
  · rw [hlive, List.length_append, List.length_singleton]
    omega
  · rw [hlive, List.map_append, List.nodup_append]
    refine ⟨hnodup.2.1, by simp, ?_⟩
    intro a ha b hb heq
    rw [List.map_singleton, List.mem_singleton] at hb
    exact hfresh.2 (hb ▸ heq ▸ ha)
  · intro hnone
    rw [hjob] at hnone
    cases hnone
  · intro current hcurrent old hold
    rw [hjob] at hcurrent
    cases hcurrent
    rw [hprevious] at hold
    rw [htemplate]
    exact h.same_parent old hold
  · intro id hkey
    obtain ⟨seen, hfind⟩ := OrdMap.mem_keys.mp hkey
    rw [hseen, h.seen] at hfind
    split_ifs at hfind with hmem
    rw [hlive, List.map_append]
    exact List.mem_append_left _ hmem
  · intro id seen hfind
    rw [hseen, h.seen] at hfind
    split_ifs at hfind
    exact hc.seen_card id seen hfind

/-! ## The two installations -/

/-- What an installation leaves. -/
structure Installed (c d : Channel) (job : Job) : Prop where
  fresh : c.holds job.id = false
  target : job.target = c.target
  channel : d = { c.retainPrevious job.template with
    job := some job
    tokenRefusal := d.tokenRefusal }

lemma refuse_eq (c : Channel) (reason : Option String) :
    c.refuse reason = { c with tokenRefusal := (c.refuse reason).tokenRefusal } := by
  cases reason with
  | none => rfl
  | some reason => rfl

lemma retainPrevious_tokenRefusal (c : Channel) (reason : Option String) (template : BchTemplate) :
    { c with tokenRefusal := reason }.retainPrevious template =
      { c.retainPrevious template with tokenRefusal := reason } := by
  rcases c with ⟨_, _, _, _, _, _, _, job⟩
  cases job with
  | none => rfl
  | some previous =>
    simp only [retainPrevious]
    split_ifs
    · rfl
    · rfl

lemma Installed.inv {c d : Channel} {job : Job} (h : c.Installed d job) (hc : c.Inv) : d.Inv := by
  have hretained := retainPrevious_spec hc job.template
  have hd := h.channel
  exact hretained.inv_install hc h.fresh rfl (by rw [hd]) (by rw [hd]) (by rw [hd])

section Install

variable [Hasher]

/-- What an own job is made of: the template's own merge-mining or none, and coinbases
around the job's bytes. -/
structure Own (c : Channel) (id : UInt32) (generation : UInt64) (template : BchTemplate)
    (payout : BchPayout) (job : Job) : Prop where
  id_eq : job.id = id
  generation_eq : job.generation = generation
  template_eq : job.template = template
  kind_eq : job.kind = .own
  payout_eq : job.payout = c.adjustPayout payout
  layout : ∀ plan, template.jd = some plan → plan.compact = c.compact
  aux : ∀ aux, job.aux = some aux →
    template.auxJob c.network c.payout c.operator job.payout = .ok (some aux)
  coinbases : ∃ random aux, c.coinbases random id template job.payout aux =
    .ok (job.standardCoinbase, job.parts)

/-- What a custom job is made of: the client's own coinbase. -/
structure Custom (c : Channel) (id : UInt32) (template : BchTemplate) (parts : CoinbaseParts)
    (job : Job) : Prop where
  customOnly : c.customOnly = true
  id_eq : job.id = id
  template_eq : job.template = template
  parts_eq : job.parts = parts
  kind_eq : job.kind = .custom template.minTime
  payout_eq : job.payout = default
  aux_eq : job.aux = none
  standardCoinbase_eq :
    job.standardCoinbase = rebuild parts c.extranoncePrefix (List.replicate c.rolled 0)

/-- How a job was made. -/
inductive Made (c : Channel) (job : Job) : Prop
  | own {id : UInt32} {generation : UInt64} {template : BchTemplate} {payout : BchPayout} :
      c.Own id generation template payout job → Made c job
  | custom {id : UInt32} {template : BchTemplate} {parts : CoinbaseParts} :
      c.Custom id template parts job → Made c job

lemma coinbases_refuse (c : Channel) (reason : Option String) (random : ℕ → UInt8) (id : UInt32)
    (template : BchTemplate) (payout : BchPayout) (aux : Option AuxJob) :
    (c.refuse reason).coinbases random id template payout aux =
      c.coinbases random id template payout aux := by
  rw [refuse_eq]
  rfl

lemma checkedAux_eq_some {c : Channel} {aux : Option AuxJob} {standard : Coinbase}
    {parts : CoinbaseParts} {a : AuxJob} (h : (c.checkedAux aux standard parts).1 = some a) :
    aux = some a := by
  unfold checkedAux at h
  split at h
  · cases h
  split at h
  · cases h
  · exact h

lemma installWithPayout_eq_ok {c d : Channel} {random : ℕ → UInt8} {id : UInt32}
    {generation : UInt64} {template : BchTemplate} {payout : BchPayout} {job : Job}
    (h : c.installWithPayout random id generation template payout = (.ok job, d)) :
    c.Installed d job ∧ c.Own id generation template payout job := by
  unfold installWithPayout at h
  simp only at h
  split_ifs at h with hid hcompact
  · cases h
  · cases h
  split at h
  · cases h
  rename_i aux haux
  split at h
  · cases h
  rename_i standardCoinbase parts hcoinbases
  rw [coinbases_refuse] at hcoinbases
  cases h
  refine ⟨⟨by simpa using hid, ?_, ?_⟩, rfl, rfl, rfl, rfl, rfl, ?_, ?_, ⟨random, aux, hcoinbases⟩⟩
  · rw [refuse_eq, refuse_eq c]
  · rw [refuse_eq, refuse_eq c]
    simp only [retainPrevious_tokenRefusal]
  · intro plan hplan
    simpa [hplan] using hcompact
  · intro a ha
    rw [checkedAux_eq_some ha] at haux
    exact haux

/-- A failed installation may note why tokens were refused, and changes nothing else. -/
lemma installWithPayout_eq_error {c d : Channel} {random : ℕ → UInt8} {id : UInt32}
    {generation : UInt64} {template : BchTemplate} {payout : BchPayout} {e : String}
    (h : c.installWithPayout random id generation template payout = (.error e, d)) :
    d = { c with tokenRefusal := d.tokenRefusal } := by
  unfold installWithPayout at h
  simp only at h
  split_ifs at h with hid hcompact
  · cases h
    rfl
  · cases h
    rfl
  split at h
  · cases h
    rfl
  split at h
  · cases h
    exact refuse_eq c _
  · cases h

lemma installCustom_eq_ok {c d : Channel} {id : UInt32} {template : BchTemplate}
    {parts : CoinbaseParts} {job : Job} (h : c.installCustom id template parts = (.ok job, d)) :
    c.Installed d job ∧ c.Custom id template parts job := by
  unfold installCustom at h
  split_ifs at h with hcustom hid
  · cases h
  · cases h
  · cases h
    exact ⟨⟨by simpa using hid, rfl, rfl⟩, by simpa using hcustom, rfl, rfl, rfl, rfl, rfl, rfl, rfl⟩

lemma installCustom_eq_error {c d : Channel} {id : UInt32} {template : BchTemplate}
    {parts : CoinbaseParts} {e : String} (h : c.installCustom id template parts = (.error e, d)) :
    d = c := by
  unfold installCustom at h
  split_ifs at h
  · cases h
    rfl
  · cases h
    rfl
  · cases h

end Install

end Channel

end Pickaxe
