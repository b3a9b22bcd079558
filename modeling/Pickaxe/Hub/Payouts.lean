/-
# What a win is claimed with

The leaves of a job bind their payouts and splits when the job is built, and the scripts that
claim them are worked out again when a share wins.  `claimPayouts_of_auxJob` is what makes the two
agree for one job, `claim_matches_leaves` for every share a channel accepts.
-/
import Pickaxe.Channel.Audit
import Pickaxe.Hub.Won
import Pickaxe.Journal.Accepts

namespace Pickaxe

open Lib Merge Journal

/-- The wins of a share name each entry of its job once, and that job has one entry a category. -/
structure ValidatedShare.Sound (v : ValidatedShare) : Prop where
  entries_nodup : v.tokenWins.Nodup
  categories_nodup : ∀ aux, v.aux = some aux → (aux.entries.map fun e => e.token.category).Nodup
  aux_length : ∀ aux, v.aux = some aux → aux.entries.length ≤ maxTokens

/-- `ValidatedShare::token_win`. -/
def ValidatedShare.tokenWin (v : ValidatedShare) (h : v.Sound) : Option Hub.TokenWin :=
  if v.tokenWins.isEmpty then none
  else match haux : v.aux with
    | none => none
    | some aux => some
      { aux := aux
        entries := v.tokenWins
        coinbase := v.coinbase.bytes
        merklePath := v.merklePath
        header := v.header
        height := v.template.height
        payout := v.payout
        miner := v.miner
        operator := v.operator
        declared := v.template.jd
        entries_nodup := h.entries_nodup
        categories_nodup := h.categories_nodup aux haux
        aux_length := h.aux_length aux haux }

namespace Merge

variable [Hasher]

/-- A slot that pays somebody pays one of `scripts`. -/
def Slot.PaysOneOf (slot : Slot) (scripts : List Bytes) : Prop :=
  slot.isEmpty = true ∨ ∃ script ∈ scripts, doubleSha256 script = slot.scriptHash

lemma Slot.paysOneOf_new {bps : UInt16} {scripts : List Bytes} {script : Bytes} {slot : Slot}
    (hmem : script ∈ scripts) (h : (Slot.new bps script).mapError SplitError.display = .ok slot) :
    slot.PaysOneOf scripts := by
  rcases Slot.new_eq_ok (Except.mapError_eq_ok.mp h) with hempty | hhash
  · exact .inl hempty
  · exact .inr ⟨script, hmem, hhash.symm⟩

end Merge

namespace BchTemplate

variable [Hasher]

/-- What a job's leaves bind is what a win on it is claimed with: `scripts` are the scripts its
claim looks among. -/
structure Bound (t : BchTemplate) (network : MiningNetwork) (payout : List Char)
    (operator : Option (List Char)) (policy : BchPayout) (scripts : List Bytes)
    (terms : LeafTerms) : Prop where
  found : match t.jd with
    | some plan => scripts = plan.scripts ∧ plan.tokenPayout = some terms.payout ∧
      terms.plainPayout = terms.payout
    | none => Payout.scripts network payout operator = .ok scripts ∧
      Payout.leafTerms scripts policy = .ok terms
  donation : terms.split.donation.PaysOneOf scripts
  fee : terms.split.fee.PaysOneOf scripts

/-- A slot that a plan fills pays one of the plan's outputs, or nothing. -/
lemma paysOneOf_slot (scripts : List Bytes) {bps : UInt16} {output : Option UInt8} {slot : Slot} :
    (match output.bind fun index => scripts[index.toNat]? with
      | some script => (Slot.new bps script).mapError SplitError.display
      | none => .ok Slot.empty) = Except.ok slot → slot.PaysOneOf scripts := by
  intro hslot
  cases hscript : output.bind fun index => scripts[index.toNat]? with
  | none =>
    rw [hscript] at hslot
    cases hslot
    exact .inl rfl
  | some script =>
    rw [hscript] at hslot
    obtain ⟨index, -, hindex⟩ := Option.bind_eq_some_iff.mp hscript
    exact Slot.paysOneOf_new (List.mem_of_getElem? hindex) hslot

/-- A job's merge-mining, by the terms it was built on. -/
lemma bound_of_auxJob {t : BchTemplate} {network : MiningNetwork} {payout : List Char}
    {operator : Option (List Char)} {policy : BchPayout} {aux : AuxJob}
    (h : t.auxJob network payout operator policy = .ok (some aux)) :
    ∃ set scripts terms, t.tokens = some set ∧ aux = AuxJob.build set terms ∧
      t.Bound network payout operator policy scripts terms := by
  unfold auxJob at h
  -- a declared job takes its scripts from the pool's plan, another from its payouts
  cases hjd : t.jd with
  | some plan =>
    rw [hjd] at h
    simp only [Option.isSome_some, if_true] at h
    unfold declaredAux at h
    rw [hjd] at h
    cases hset : t.tokens with
    | none =>
      rw [hset] at h
      cases h
    | some set =>
      rw [hset] at h
      simp only at h
      split_ifs at h
      · cases h
      · cases hminer : plan.tokenPayout with
        | none =>
          rw [hminer] at h
          cases h
        | some miner =>
          rw [hminer] at h
          obtain ⟨donation, hdonation, h⟩ := Except.bind_eq_ok.mp h
          obtain ⟨fee, hfee, h⟩ := Except.bind_eq_ok.mp h
          cases h
          exact ⟨set, plan.scripts, _, rfl, rfl, by rw [hjd]; exact ⟨rfl, hminer, rfl⟩,
            paysOneOf_slot _ hdonation, paysOneOf_slot _ hfee⟩
  | none =>
    rw [hjd] at h
    simp only [Option.isSome_none, Bool.false_eq_true, if_false] at h
    cases hset : t.tokens with
    | none =>
      rw [hset] at h
      cases h
    | some set =>
      rw [hset] at h
      obtain ⟨scripts, hscripts, h⟩ := Except.bind_eq_ok.mp h
      obtain ⟨terms, hterms, h⟩ := Except.bind_eq_ok.mp h
      cases h
      have hspec := Payout.leafTerms_eq_ok hterms
      have hlength : 2 ≤ scripts.length := by
        rw [(Payout.scripts_eq_ok hscripts).2]
        split_ifs <;> omega
      have hdonation : scripts.getD 1 [] ∈ scripts := by
        rw [List.getD_eq_getElem _ _ (by omega)]
        exact List.getElem_mem _
      refine ⟨set, scripts, terms, rfl, rfl, by rw [hjd]; exact ⟨hscripts, hterms⟩, ?_, ?_⟩
      · rcases hspec.donation with hempty | hhash
        · exact .inl hempty
        · exact .inr ⟨_, hdonation, hhash.symm⟩
      · rcases hspec.fee with hempty | ⟨script, hscript, hhash⟩
        · exact .inl hempty
        · exact .inr ⟨script, List.mem_of_getElem? hscript, hhash.symm⟩

end BchTemplate

namespace Hub

variable [Hasher]

/-- What a won entry is claimed with: `payout` is what its leaf pays, the split its ext commits to,
and the scripts at hand are those the slots of the split pay. -/
structure Claimable (network : MiningNetwork) (win : TokenWin) (item : AuxEntry) (payout : Bytes) :
    Prop where
  hash : doubleSha256 payout = item.leaf.payoutHash
  ext : item.split.ext = item.leaf.ext
  /-- The leaf a claim proves is the leaf the coinbase commits to. -/
  leaf : Leaf.new item.token.category item.leaf.lockHash item.leaf.stateHash payout
    item.leaf.targetBits item.split.ext = item.leaf
  donation : item.split.donation.isEmpty = true ∨ ∃ script,
    (TokenHub.splitScripts network win item.split).1 = some script ∧
      doubleSha256 script = item.split.donation.scriptHash
  fee : item.split.fee.isEmpty = true ∨ ∃ script,
    (TokenHub.splitScripts network win item.split).2 = some script ∧
      doubleSha256 script = item.split.fee.scriptHash

/-- The script of a slot is found among the scripts it was made from. -/
lemma find?_slot {slot : Slot} {scripts more : List Bytes} (h : slot.PaysOneOf scripts) :
    slot.isEmpty = true ∨ ∃ script,
      (if slot.isEmpty then none
        else (scripts ++ more).find? fun script => doubleSha256 script = slot.scriptHash) =
          some script ∧ doubleSha256 script = slot.scriptHash := by
  rcases h with hempty | ⟨script, hmem, hhash⟩
  · exact .inl hempty
  · by_cases hempty : slot.isEmpty = true
    · exact .inl hempty
    · right
      rw [if_neg hempty]
      have hsome : ((scripts ++ more).find? fun script =>
          doubleSha256 script = slot.scriptHash).isSome = true := by
        rw [List.find?_isSome]
        exact ⟨script, List.mem_append_left _ hmem, by simpa using hhash⟩
      obtain ⟨found, hfound⟩ := Option.isSome_iff_exists.mp hsome
      exact ⟨found, hfound, by simpa using List.find?_some hfound⟩

/-- A win on a job of `t`, with everything the job was built on. -/
structure TokenWin.On (win : TokenWin) (t : BchTemplate) (network : MiningNetwork) : Prop where
  aux : t.auxJob network win.miner win.operator win.payout = .ok (some win.aux)
  declared : win.declared = t.jd
  won : ∀ i ∈ win.entries, ∃ item, win.aux.entries[i.toNat]? = some item

variable {t : BchTemplate} {network : MiningNetwork} {win : TokenWin} {scripts : List Bytes}
  {terms : LeafTerms}

/-- A win is claimed with what its job's terms pay each token. -/
lemma claimPayouts_eq (hdeclared : win.declared = t.jd)
    (h : t.Bound network win.miner win.operator win.payout scripts terms) :
    TokenHub.claimPayouts network win = win.entries.filterMap fun entry =>
      (win.aux.entries[entry.toNat]?).map fun item => (entry, (AuxJob.termsOf terms item.token).1) := by
  have hterms : ∀ item : AuxEntry, (if item.token.split then terms.payout else terms.plainPayout) =
      (AuxJob.termsOf terms item.token).1 := by
    intro item
    unfold AuxJob.termsOf
    split_ifs <;> rfl
  have hfound := h.found
  unfold TokenHub.claimPayouts
  rw [hdeclared]
  cases hjd : t.jd with
  | some plan =>
    rw [hjd] at hfound
    obtain ⟨-, hminer, hplain⟩ := hfound
    simp only [hminer, Option.map_some, ← hterms, hplain]
  | none =>
    rw [hjd] at hfound
    obtain ⟨hscripts, hleaf⟩ := hfound
    simp only [hscripts, hleaf, Except.toOption, Option.bind_eq_bind, Option.bind_some,
      Option.pure_def, ← hterms]

/-- The scripts at hand for a split are those of the job, and more. -/
lemma exists_splitScripts_eq (hdeclared : win.declared = t.jd)
    (h : t.Bound network win.miner win.operator win.payout scripts terms) (split : Split) :
    ∃ more, TokenHub.splitScripts network win split =
      (if split.donation.isEmpty then none else (scripts ++ more).find? fun script =>
          doubleSha256 script = split.donation.scriptHash,
        if split.fee.isEmpty then none else (scripts ++ more).find? fun script =>
          doubleSha256 script = split.fee.scriptHash) := by
  have hfound := h.found
  unfold TokenHub.splitScripts
  rw [hdeclared]
  cases hjd : t.jd with
  | some plan =>
    rw [hjd] at hfound
    exact ⟨_, by rw [hfound.1]⟩
  | none =>
    rw [hjd] at hfound
    exact ⟨_, by rw [hfound.1]; rfl⟩

/-- Every entry of a win is claimable with what it is claimed with. -/
lemma claimPayouts_of_auxJob (h : win.On t network) :
    (TokenHub.claimPayouts network win).map Prod.fst = win.entries ∧
      ∀ p ∈ TokenHub.claimPayouts network win, ∃ item, win.aux.entries[p.1.toNat]? = some item ∧
        Claimable network win item p.2 := by
  obtain ⟨set, scripts, terms, -, hbuild, hbound⟩ := BchTemplate.bound_of_auxJob h.aux
  rw [claimPayouts_eq h.declared hbound]
  constructor
  · rw [List.map_filterMap]
    have hall : ∀ i ∈ win.entries, ((win.aux.entries[i.toNat]?).map fun item =>
        (i, (AuxJob.termsOf terms item.token).1)).map Prod.fst = some i := by
      intro i hi
      obtain ⟨item, hitem⟩ := h.won i hi
      rw [hitem]
      rfl
    rw [List.filterMap_congr hall, List.filterMap_some]
  · intro p hp
    obtain ⟨i, -, hp⟩ := List.mem_filterMap.mp hp
    obtain ⟨item, hitem, rfl⟩ := Option.map_eq_some_iff.mp hp
    refine ⟨item, hitem, ?_⟩
    obtain ⟨hsplit, hleaf⟩ := AuxJob.mem_entries_build (hbuild ▸ List.mem_of_getElem? hitem)
    have hpays : doubleSha256 (AuxJob.termsOf terms item.token).1 = item.leaf.payoutHash := by
      rw [hleaf]
      rfl
    have hext : item.split.ext = item.leaf.ext := by
      rw [hleaf]
      rfl
    have hslots : item.split.donation.PaysOneOf scripts ∧ item.split.fee.PaysOneOf scripts := by
      rw [hsplit, AuxJob.termsOf]
      split_ifs
      · exact ⟨hbound.donation, hbound.fee⟩
      · exact ⟨.inl rfl, .inl rfl⟩
    obtain ⟨more, hscripts⟩ := exists_splitScripts_eq h.declared hbound item.split
    exact ⟨hpays, hext, hleaf.symm, by rw [hscripts]; exact find?_slot hslots.1,
      by rw [hscripts]; exact find?_slot hslots.2⟩

end Hub

/-! ## Shares -/

namespace Merge

variable [Hasher]

omit [Hasher] in
lemma AuxJob.nodup_wins (job : AuxJob) (hash : Hash) : (job.wins hash).Nodup := by
  have hmap : job.wins hash = ((job.entries.zipIdx.filter fun p =>
      meetsTarget hash p.1.target).map Prod.snd).filterMap fun i =>
        if i < 2 ^ 16 then some (UInt16.ofNat i) else none := by
    rw [List.filterMap_map]
    rfl
  have hnodup : ((job.entries.zipIdx.filter fun p =>
      meetsTarget hash p.1.target).map Prod.snd).Nodup := by
    refine (List.filter_sublist.map Prod.snd).nodup ?_
    rw [List.zipIdx_map_snd]
    exact List.nodup_range'
  rw [hmap]
  refine List.Nodup.filterMap (fun i j b hi hj => ?_) hnodup
  have hindex : ∀ {k : ℕ}, (b ∈ if k < 2 ^ 16 then some (UInt16.ofNat k) else none) →
      k = b.toNat := by
    intro k hk
    split_ifs at hk with hlt
    · cases hk
      exact (UInt16.toNat_ofNat_of_lt' hlt).symm
    · cases hk
  exact (hindex hi).trans (hindex hj).symm

lemma AuxJob.categories_build {set : TokenSet} (h : set.Valid) (terms : LeafTerms) :
    (AuxJob.build set terms).entries.map (fun e => e.token.category) =
      set.entries.map fun e => e.token.category := by
  have hlength : set.entries.length = set.layout.slots.length := by
    rw [h.holds.slots_eq, List.length_map, List.length_map]
  show ((set.entries.zip set.layout.slots).map _).map _ = _
  rw [List.map_map, ← @List.map_fst_zip _ _ set.entries _ hlength.le, List.map_map]
  simp only [List.map_fst_zip hlength.le]
  rfl

end Merge

variable [Hasher]

namespace Channel

/-- The token sets of a server's jobs are ones it made. -/
def ValidSets (_ : Trace) (op : Op) : Prop :=
  match op with
  | .install _ _ _ template _ => ∀ set, template.tokens = some set → set.Valid
  | _ => True

/-- The merge-mining a job carries is the one its template asks for, over a valid set. -/
structure Mines (c : Channel) (job : Job) : Prop where
  aux : ∀ aux, job.aux = some aux →
    job.template.auxJob c.network c.payout c.operator job.payout = .ok (some aux)
  valid : job.aux ≠ none → ∀ set, job.template.tokens = some set → set.Valid

lemma Mines.kept {c d : Channel} (hsame : SameAccount c d) {j k : Job}
    (hcontent : k.content = j.content) (h : c.Mines j) : d.Mines k := by
  obtain ⟨target, rfl⟩ : ∃ target, k = { j with target := target } :=
    ⟨k.target, Job.content_eq hcontent⟩
  refine ⟨?_, h.valid⟩
  rw [hsame.network, hsame.payout, hsame.operator]
  exact h.aux

lemma mines_installed {t : Trace} {op : Op} (hvalid : ValidSets t op) {job : Job}
    (hlog : (t.channel.step op).1 = [.installed job]) : t.channel.Mines job := by
  rcases installed_step hlog with ⟨_, _, _, template, _, rfl, hr⟩ | ⟨_, _, _, rfl, hr⟩
  · have hown := (installWithPayout_eq_ok hr).2
    have htemplate := hown.template_eq
    subst htemplate
    exact ⟨hown.aux, fun _ => hvalid⟩
  · have hnone := (installCustom_eq_ok hr).2.aux_eq
    exact ⟨fun aux haux => absurd (hnone.symm.trans haux) (Option.some_ne_none _).symm, fun haux => absurd hnone haux⟩

/-- Along a run all live jobs mine what their templates ask for. -/
lemma mines_run {start : Channel} {t : Trace} (h : Run ValidSets start t) (hfresh : start.Fresh) :
    ∀ job ∈ t.channel.live, t.channel.Mines job := by
  induction h with
  | start =>
    obtain ⟨hjob, hprevious, -⟩ := hfresh
    simp [live, hjob, hprevious]
  | next hrun hvalid ih =>
    exact live_step (P := Mines) (fun hsame hcontent h => h.kept hsame hcontent)
      (hrun.inv hfresh) ih fun _ => mines_installed hvalid

/-- Every share a run accepts was accepted on a job that mines what its template asks for, by the
channel's own account. -/
lemma credited_run {start : Channel} {t : Trace} (h : Run ValidSets start t) (hfresh : start.Fresh)
    {id : UInt32} {v : ValidatedShare} (hmem : .accepted id v ∈ t.log) :
    ∃ c d share job, SameAccount start c ∧ c.Credited d share v job ∧ c.Mines job := by
  have hsame : ∀ {t : Trace}, Run ValidSets start t → SameAccount start t.channel := by
    intro t h
    induction h with
    | start => exact ⟨rfl, rfl, rfl, rfl, rfl, rfl⟩
    | next _ _ ih => exact ih.trans (sameAccount_step _ _)
  induction h with
  | start => cases hmem
  | @next t op hrun hvalid ih =>
    rcases List.mem_append.mp hmem with hnew | hold
    · rcases step_cases t.channel op with ⟨hlog, -⟩ | ⟨new, -, hlog, -, -⟩ | ⟨hlog, -⟩ |
        ⟨share, v', job, hlog, hcredited⟩
      · simp [hlog] at hnew
      · simp [hlog] at hnew
      · simp [hlog] at hnew
      · obtain ⟨-, rfl⟩ : id = share.jobId ∧ v = v' := by simpa [hlog] using hnew
        exact ⟨_, _, share, job, hsame hrun, hcredited, mines_run hrun hfresh job hcredited.mem⟩
    · exact ih hold

end Channel

/-- What a share says of its wins is sound. -/
lemma Channel.Mines.sound {c d : Channel} {share : Share} {v : ValidatedShare} {job : Job}
    (h : c.Mines job) (hcredited : c.Credited d share v job) : v.Sound := by
  have hv := hcredited.validated
  have hbuilt : ∀ aux, v.aux = some aux → ∃ set terms, set.Valid ∧ aux = AuxJob.build set terms := by
    intro aux haux
    have haux' : job.aux = some aux := by
      rw [hv] at haux
      exact haux
    obtain ⟨set, terms, hset, rfl⟩ := BchTemplate.auxJob_eq_some (h.aux aux haux')
    exact ⟨set, terms, h.valid (by rw [haux']; exact Option.some_ne_none _) set hset, rfl⟩
  refine ⟨?_, fun aux haux => ?_, fun aux haux => ?_⟩
  · rw [hv]
    show (job.tokenWins _).Nodup
    unfold Job.tokenWins
    split
    · exact List.nodup_nil
    · split_ifs
      · exact AuxJob.nodup_wins _ _
      · exact List.nodup_nil
  · obtain ⟨set, terms, hset, rfl⟩ := hbuilt aux haux
    rw [AuxJob.categories_build hset]
    have hnodup := hset.holds.nodup
    rw [hset.holds.slots_eq] at hnodup
    exact hnodup.of_map
  · obtain ⟨set, terms, hset, rfl⟩ := hbuilt aux haux
    have hlength := congrArg List.length (AuxJob.categories_build hset terms)
    rw [List.length_map, List.length_map] at hlength
    exact hlength.le.trans hset.length_le

omit [Hasher] in
/-- A win carries the share's own job, wins and account. -/
lemma ValidatedShare.tokenWin_eq_some {v : ValidatedShare} {h : v.Sound} {win : Hub.TokenWin}
    (hwin : v.tokenWin h = some win) : v.aux = some win.aux ∧ win.entries = v.tokenWins ∧
      win.miner = v.miner ∧ win.operator = v.operator ∧ win.payout = v.payout ∧
      win.declared = v.template.jd := by
  unfold tokenWin at hwin
  split_ifs at hwin
  split at hwin
  · cases hwin
  · rename_i aux haux
    cases hwin
    exact ⟨haux, rfl, rfl, rfl, rfl, rfl⟩

/-- Its win is a win on the job. -/
lemma Channel.Mines.on {c d : Channel} {share : Share} {v : ValidatedShare} {job : Job}
    (h : c.Mines job) (hcredited : c.Credited d share v job) (hsound : v.Sound) {win : Hub.TokenWin}
    (hwin : v.tokenWin hsound = some win) : win.On job.template c.network := by
  obtain ⟨haux, hentries, hminer, hoperator, hpayout, hdeclared⟩ :=
    ValidatedShare.tokenWin_eq_some hwin
  rw [hcredited.validated] at haux hentries hminer hoperator hpayout hdeclared
  refine ⟨?_, hdeclared, fun i hi => ?_⟩
  · rw [hminer, hoperator, hpayout]
    exact h.aux _ haux
  · rw [hentries] at hi
    change job.aux = some win.aux at haux
    change i ∈ job.tokenWins _ at hi
    unfold Job.tokenWins at hi
    rw [haux] at hi
    simp only at hi
    split_ifs at hi
    · obtain ⟨item, hitem, -⟩ := AuxJob.mem_wins.mp hi
      exact ⟨item, hitem⟩
    · cases hi

namespace Hub

/-- What a win is claimed with is what its leaves bind.  On a job with merge-mining, whatever its
template, policy and tokens, every entry won is listed with the script its leaf pays, and the
scripts of its split's slots are at hand; and every win a channel's share brings is one on such a
job. -/
theorem claim_matches_leaves :
    (∀ (t : BchTemplate) (network : MiningNetwork) (win : TokenWin), win.On t network →
      (TokenHub.claimPayouts network win).map Prod.fst = win.entries ∧
        ∀ p ∈ TokenHub.claimPayouts network win, ∃ item, win.aux.entries[p.1.toNat]? = some item ∧
          Claimable network win item p.2) ∧
    ∀ (start : Channel) (t : Channel.Trace) (id : UInt32) (v : ValidatedShare), start.Fresh →
      Channel.Run Channel.ValidSets start t → .accepted id v ∈ t.log →
        ∃ h : v.Sound, ∀ win, v.tokenWin h = some win → win.On v.template start.network := by
  refine ⟨fun t network win h => claimPayouts_of_auxJob h, fun start t id v hfresh hrun hmem => ?_⟩
  obtain ⟨c, d, share, job, hsame, hcredited, hmines⟩ := Channel.credited_run hrun hfresh hmem
  refine ⟨hmines.sound hcredited, fun win hwin => ?_⟩
  have hon := hmines.on hcredited _ hwin
  have htemplate : v.template = job.template := by
    rw [hcredited.validated]
    rfl
  rwa [htemplate, ← hsame.network]

section Sample

omit [Hasher]

/-- A channel's job with two tokens, whose block and token targets half the hashes meet. -/
def tokensJob : Channel.Op :=
  .install (fun _ => 0) 1 1
    { Channel.sampleTokens with
      bits := 0x207fffff
      target := targetOfNat (0x7fffff * 2 ^ 232)
      parentTime := none } default

/-- A share on that job. -/
def tokensShare : Share :=
  { channelId := 7
    jobId := 1
    sequence := 0
    version := 0x20000000
    time := 1775337400
    nonce := 0
    extranonce := List.replicate 8 0 }

/-- The job is installed, and the share checked. -/
def tokensTrace : Channel.Trace :=
  @Channel.Trace.next Hasher.fips (@Channel.Trace.next Hasher.fips ⟨[], Channel.sample⟩ tokensJob)
    (.check tokensShare 1775337400)

/-- Whether a log has one installation and then a share that wins both tokens. -/
def wonBoth : List Channel.Event → Bool
  | [.accepted _ v, .installed _] => decide (v.tokenWins = [0, 1] ∧ v.aux.isSome = true)
  | _ => false

lemma exists_of_wonBoth {log : List Channel.Event} (h : wonBoth log = true) :
    ∃ id v job, log = [.accepted id v, .installed job] ∧ v.tokenWins = [0, 1] ∧
      v.aux.isSome = true := by
  unfold wonBoth at h
  split at h
  · exact ⟨_, _, _, rfl, of_decide_eq_true h⟩
  · cases h

/-- The share wins both tokens. -/
lemma exists_tokensTrace : ∃ id v job, tokensTrace.log = [.accepted id v, .installed job] ∧
    v.tokenWins = [0, 1] ∧ v.aux.isSome = true := by
  refine exists_of_wonBoth ?_
  rw [tokensTrace, Hasher.fips_eq]
  decide +kernel

theorem claim_matches_leaves_sample :
    let _ : Hasher := Hasher.fips
    ∃ (v : ValidatedShare) (h : v.Sound) (win : TokenWin), v.tokenWin h = some win ∧
      win.entries = [0, 1] ∧
      (TokenHub.claimPayouts .chipnet win).map Prod.fst = [0, 1] ∧
      ∀ p ∈ TokenHub.claimPayouts .chipnet win, ∃ item, win.aux.entries[p.1.toNat]? = some item ∧
        Claimable .chipnet win item p.2 := by
  intro hasher
  obtain ⟨id, v, job, hlog, hwins, haux⟩ := exists_tokensTrace
  have hnew : TokenSet.new .chipnet sampleEntries 1 = .ok sampleSet := by decide +kernel
  have hvalid : Channel.ValidSets ⟨[], Channel.sample⟩ tokensJob := by
    rintro set ⟨⟩
    exact TokenSet.valid_new hnew
  have hrun : Channel.Run Channel.ValidSets Channel.sample tokensTrace :=
    .next (.next .start hvalid) trivial
  obtain ⟨h, hwin⟩ := claim_matches_leaves.2 _ _ id v ⟨rfl, rfl, rfl⟩ hrun (by simp [hlog])
  obtain ⟨win, htokenWin⟩ : ∃ win, v.tokenWin h = some win := by
    unfold ValidatedShare.tokenWin
    rw [if_neg (by rw [hwins]; decide)]
    split
    · rename_i hnone
      rw [hnone] at haux
      cases haux
    · exact ⟨_, rfl⟩
  have hentries := (ValidatedShare.tokenWin_eq_some htokenWin).2.1.trans hwins
  obtain ⟨hlisted, hclaimable⟩ := claim_matches_leaves.1 _ _ win (hwin win htokenWin)
  exact ⟨v, h, win, htokenWin, hentries, hlisted.trans hentries, hclaimable⟩

end Sample

end Hub

end Pickaxe
