/-
# The invariant of a session

Channels, maximum targets and groups are three maps.  `Session.Inv` says how they fit
together; every operation keeps it (`inv_step`).  A run also keeps the list of the ids it
has given to channels and groups, none of them twice (`Run.ids`).
-/
import Pickaxe.Wire.Run

namespace Pickaxe

open Lib Merge Jd

namespace Session

/-- A payout as `open` writes it into a group: the session's own, or on a public pool a user's
in canonical form. -/
def LoginPayout (s : Session) (payout : List Char) : Prop :=
  (s.pub = none ∧ payout = s.payout) ∨
    (s.pub ≠ none ∧ Config.validateCoinbaseAddress s.network payout = .ok payout)

/-- An open extended channel that mines the pool's jobs for `payout`. -/
def Mines (s : Session) (payout : List Char) (k : UInt32) : Prop :=
  ∃ c, s.channels.find? k = some c ∧ c.kind = .extended ∧ c.customOnly = false ∧
    Config.validateCoinbaseAddress s.network payout = .ok c.payout

/-- How the maps of a session fit together. -/
structure Inv (s : Session) : Prop where
  ids : s.OwnIds
  keys : s.maximumTargets.keys = s.channels.keys
  targets : ∀ k c maximum, s.channels.find? k = some c →
    s.maximumTargets.find? k = some maximum → meetsTarget c.target maximum = true
  channel_le : ∀ k ∈ s.channels.keys, k ≤ s.nextChannel
  group_le : ∀ k ∈ s.groups.keys, k ≤ s.nextChannel
  disjoint : ∀ k ∈ s.channels.keys, k ∉ s.groups.keys
  unopened : s.setupFlags = none → s.channels.keys = [] ∧ s.groups.keys = []
  ungrouped : s.grouping = false → s.groups.keys = []
  payouts : ∀ g group, s.groups.find? g = some group → s.LoginPayout group.payout
  distinct : ∀ g h a b, s.groups.find? g = some a → s.groups.find? h = some b →
    a.payout = b.payout → g = h
  nonempty : ∀ g group, s.groups.find? g = some group → group.members.keys ≠ []
  members : ∀ g group, s.groups.find? g = some group →
    ∀ k, k ∈ group.members.keys ↔ s.Mines group.payout k
  joined : s.grouping = true → ∀ k c, s.channels.find? k = some c → c.kind = .extended →
    c.customOnly = false → ∃ g group, s.groups.find? g = some group ∧ k ∈ group.members.keys

lemma not_mem_of_keys_eq_nil {V : Type} {m : OrdMap UInt32 V} (h : m.keys = []) (k : UInt32) (v : V) :
    m.find? k ≠ some v := by
  intro hfind
  have hmem : k ∈ m.keys := OrdMap.mem_keys.mpr ⟨v, hfind⟩
  rw [h] at hmem
  cases hmem

lemma inv_of_empty {s : Session} (hchannels : s.channels = OrdMap.empty)
    (hmaximums : s.maximumTargets = OrdMap.empty) (hgroups : s.groups = OrdMap.empty) : s.Inv := by
  have hc : s.channels.keys = [] := by rw [hchannels]; rfl
  have hg : s.groups.keys = [] := by rw [hgroups]; rfl
  refine ⟨?_, by rw [hc, hmaximums]; rfl, ?_, ?_, ?_, ?_, fun _ => ⟨hc, hg⟩, fun _ => hg, ?_, ?_, ?_,
    ?_, ?_⟩
  · exact fun k c h => absurd h (not_mem_of_keys_eq_nil hc k c)
  · exact fun k c _ h => absurd h (not_mem_of_keys_eq_nil hc k c)
  · rw [hc]
    exact fun k hk => by cases hk
  · rw [hg]
    exact fun k hk => by cases hk
  · rw [hc]
    exact fun k hk => by cases hk
  · exact fun g group h => absurd h (not_mem_of_keys_eq_nil hg g group)
  · exact fun g _ a _ h => absurd h (not_mem_of_keys_eq_nil hg g a)
  · exact fun g group h => absurd h (not_mem_of_keys_eq_nil hg g group)
  · exact fun g group h => absurd h (not_mem_of_keys_eq_nil hg g group)
  · exact fun _ k c h => absurd h (not_mem_of_keys_eq_nil hc k c)

lemma Start.empty {s : Session} (h : s.Start) : s.channels = OrdMap.empty ∧
    s.maximumTargets = OrdMap.empty ∧ s.groups = OrdMap.empty := by
  obtain ⟨network, payout, salt, shareTarget, pub, declarator, fixedVersion, lanes, made, hmade,
    rfl⟩ := h
  unfold new at hmade
  split at hmade
  · cases hmade
  · obtain ⟨-, hmade⟩ := Except.ite_error_eq_ok.mp hmade
    cases hmade
    exact ⟨rfl, rfl, rfl⟩

lemma Start.inv {s : Session} (h : s.Start) : s.Inv :=
  inv_of_empty h.empty.1 h.empty.2.1 h.empty.2.2

lemma openLogin_payout {s : Session} {identity : List Char} {login : Login}
    (h : s.openLogin identity = .ok login) : s.LoginPayout login.payout := by
  unfold openLogin at h
  cases hpub : s.pub with
  | none =>
    simp only [hpub] at h
    cases h
    exact Or.inl ⟨hpub, rfl⟩
  | some pool =>
    simp only [hpub] at h
    have hlogin : Payout.identityLogin s.network identity = .ok login := by
      split at h
      · rename_i l hl
        split at h
        · cases h
          exact hl
        · split_ifs at h
          cases h
          exact hl
      · split_ifs at h
    exact Or.inr ⟨by rw [hpub]; simp, Payout.validate_identityLogin hlogin⟩

/-- Two payouts of groups with one canonical form are equal. -/
lemma LoginPayout.unique {s : Session} {p q r : List Char} (hp : s.LoginPayout p)
    (hq : s.LoginPayout q) (hpr : Config.validateCoinbaseAddress s.network p = .ok r)
    (hqr : Config.validateCoinbaseAddress s.network q = .ok r) : p = q := by
  rcases hp with ⟨hpub, rfl⟩ | ⟨hpub, hp⟩
  · rcases hq with ⟨-, rfl⟩ | ⟨hnot, -⟩
    · rfl
    · exact absurd hpub hnot
  · rcases hq with ⟨hnot, -⟩ | ⟨-, hq⟩
    · exact absurd hnot hpub
    · rw [hp] at hpr
      rw [hq] at hqr
      cases hpr
      cases hqr
      rfl

/-! ## A channel more -/

/-- What a session looks like after a channel was opened, but for the groups: its id is above all
that were given. -/
structure Gains (s s' : Session) (c : Channel) : Prop where
  channels : s'.channels = s.channels.insert (s.nextChannel + 1) c
  maximums : s'.maximumTargets.keys = s'.channels.keys
  opened : s'.setupFlags ≠ none
  grouping : s'.grouping = s.grouping
  network : s'.network = s.network
  login : ∀ p, s'.LoginPayout p ↔ s.LoginPayout p
  room : s.nextChannel < s.nextChannel + 1 ∧ s.nextChannel + 1 < s.nextChannel + 1 + 1
  le : s.nextChannel + 1 ≤ s'.nextChannel
  ids : s'.OwnIds
  targets : ∀ k d maximum, s'.channels.find? k = some d →
    s'.maximumTargets.find? k = some maximum → meetsTarget d.target maximum = true

/-- The new channel's group after it joined: one of its payout's members before. -/
structure Joins (s s' : Session) (payout : List Char) (g : UInt32) (members : OrdMap UInt32 Unit) :
    Prop where
  groups : s'.groups = s.groups.insert g ⟨payout, members.insert (s.nextChannel + 1) ()⟩
  first : (s.groups.find? g = some ⟨payout, members⟩ ∧ s'.nextChannel = s.nextChannel + 1) ∨
    (members = OrdMap.empty ∧ g = s.nextChannel + 1 + 1 ∧ s'.nextChannel = s.nextChannel + 1 + 1 ∧
      ∀ h group, s.groups.find? h = some group → group.payout ≠ payout)

namespace Gains

variable {s s' : Session} {c : Channel}

lemma fresh (h : s.Gains s' c) (hs : s.Inv) {k : UInt32} (hk : k ∈ s.channels.keys) :
    k < s.nextChannel + 1 :=
  lt_of_le_of_lt (hs.channel_le k hk) h.room.1

lemma fresh_group (h : s.Gains s' c) (hs : s.Inv) {g : UInt32} (hg : g ∈ s.groups.keys) :
    g < s.nextChannel + 1 :=
  lt_of_le_of_lt (hs.group_le g hg) h.room.1

lemma mem_keys (h : s.Gains s' c) {k : UInt32} :
    k ∈ s'.channels.keys ↔ k = s.nextChannel + 1 ∨ k ∈ s.channels.keys := by
  rw [h.channels]
  exact OrdMap.mem_keys_insert

lemma channel_le (h : s.Gains s' c) (hs : s.Inv) : ∀ k ∈ s'.channels.keys, k ≤ s'.nextChannel := by
  intro k hk
  rcases h.mem_keys.mp hk with rfl | hk
  · exact h.le
  · exact (h.fresh hs hk).le.trans h.le

/-- Who mines for a payout now. -/
lemma mines_iff (h : s.Gains s' c) (hs : s.Inv) {p : List Char} {k : UInt32} :
    s'.Mines p k ↔ s.Mines p k ∨ (k = s.nextChannel + 1 ∧ c.kind = .extended ∧ c.customOnly = false ∧
      Config.validateCoinbaseAddress s.network p = .ok c.payout) := by
  unfold Mines
  rw [h.network, h.channels, OrdMap.find?_insert]
  by_cases hk : k = s.nextChannel + 1
  · have hnone : ∀ d, s.channels.find? k ≠ some d := fun d hd =>
      absurd (h.fresh hs (OrdMap.mem_keys.mpr ⟨d, hd⟩)) (by rw [hk]; exact lt_irrefl _)
    subst hk
    simp [hnone]
  · simp [hk]

/-- A channel that was open is in its group still. -/
lemma joined_old (h : s.Gains s' c) (hs : s.Inv) {k : UInt32} {d : Channel} (hgrouped : s.grouping = true)
    (hk : k ≠ s.nextChannel + 1) (hd : s'.channels.find? k = some d) (hkind : d.kind = .extended)
    (hcustom : d.customOnly = false) :
    ∃ g group, s.groups.find? g = some group ∧ k ∈ group.members.keys := by
  rw [h.channels, OrdMap.find?_insert, if_neg hk] at hd
  exact hs.joined hgrouped k d hd hkind hcustom

/-- The channel joins no group. -/
lemma inv_alone (h : s.Gains s' c) (hs : s.Inv) (hgroups : s'.groups = s.groups)
    (hnot : ¬ (s.grouping = true ∧ c.kind = .extended ∧ c.customOnly = false)) : s'.Inv := by
  refine ⟨h.ids, h.maximums, h.targets, h.channel_le hs, ?_, ?_, fun hnone => absurd hnone h.opened,
    ?_, ?_, ?_, ?_, ?_, ?_⟩
  · rw [hgroups]
    exact fun k hk => (h.fresh_group hs hk).le.trans h.le
  · rw [hgroups]
    intro k hk hg
    rcases h.mem_keys.mp hk with rfl | hk
    · exact lt_irrefl _ (h.fresh_group hs hg)
    · exact hs.disjoint k hk hg
  · rw [hgroups, h.grouping]
    exact hs.ungrouped
  · rw [hgroups]
    exact fun g group hg => (h.login _).mpr (hs.payouts g group hg)
  · rw [hgroups]
    exact hs.distinct
  · rw [hgroups]
    exact hs.nonempty
  · rw [hgroups]
    intro g group hg k
    rw [h.mines_iff hs, hs.members g group hg k, or_iff_left]
    rintro ⟨-, hext, hdevice, -⟩
    -- a session with a group groups its channels
    cases hgrouped : s.grouping with
    | false => exact not_mem_of_keys_eq_nil (hs.ungrouped hgrouped) g group hg
    | true => exact hnot ⟨hgrouped, hext, hdevice⟩
  · rw [h.grouping, hgroups]
    intro hgrouped k d hd hkind hcustom
    by_cases hk : k = s.nextChannel + 1
    · rw [h.channels, hk, OrdMap.find?_insert_self] at hd
      cases hd
      exact absurd ⟨hgrouped, hkind, hcustom⟩ hnot
    · exact h.joined_old hs hgrouped hk hd hkind hcustom

end Gains

namespace Joins

variable {s s' : Session} {c : Channel} {payout : List Char} {g : UInt32}
  {members : OrdMap UInt32 Unit}

/-- No other group has the payout. -/
lemma other (h : s.Joins s' payout g members) (hs : s.Inv) {g' : UInt32} {group : Group}
    (hne : g' ≠ g) (hg' : s.groups.find? g' = some group) : group.payout ≠ payout := by
  intro heq
  rcases h.first with ⟨hold, -⟩ | ⟨-, -, -, hnone⟩
  · exact hne (hs.distinct g' g group _ hg' hold heq)
  · exact hnone g' group hg' heq

/-- The members before are those that mine for the payout. -/
lemma mem_members (h : s.Joins s' payout g members) (hs : s.Inv) (hgrouped : s.grouping = true)
    (hlogin : s.LoginPayout payout) {k : UInt32} : k ∈ members.keys ↔ s.Mines payout k := by
  rcases h.first with ⟨hold, -⟩ | ⟨hempty, -, -, hnone⟩
  · exact hs.members g _ hold k
  · rw [hempty]
    refine ⟨fun hk => absurd hk List.not_mem_nil, ?_⟩
    rintro ⟨d, hd, hkind, hcustom, hdvalid⟩
    obtain ⟨g', group, hg', hmem⟩ := hs.joined hgrouped k d hd hkind hcustom
    obtain ⟨d', hd', -, -, hdvalid'⟩ := (hs.members g' group hg' k).mp hmem
    rw [hd] at hd'
    cases hd'
    exact absurd ((hs.payouts g' group hg').unique hlogin hdvalid' hdvalid) (hnone g' group hg')

lemma le (h : s.Joins s' payout g members) (hs : s.Inv) (hgains : s.Gains s' c) :
    g ≤ s'.nextChannel := by
  rcases h.first with ⟨hold, -⟩ | ⟨-, rfl, hnext, -⟩
  · exact (hgains.fresh_group hs (OrdMap.mem_keys.mpr ⟨_, hold⟩)).le.trans hgains.le
  · exact hnext.ge

lemma not_mem (h : s.Joins s' payout g members) (hs : s.Inv) (hgains : s.Gains s' c) :
    g ∉ s'.channels.keys := by
  intro hg
  rcases h.first with ⟨hold, -⟩ | ⟨-, rfl, -, -⟩
  · have hmem : g ∈ s.groups.keys := OrdMap.mem_keys.mpr ⟨_, hold⟩
    rcases hgains.mem_keys.mp hg with rfl | hg
    · exact lt_irrefl _ (hgains.fresh_group hs hmem)
    · exact hs.disjoint g hg hmem
  · rcases hgains.mem_keys.mp hg with heq | hg
    · exact absurd heq (ne_of_gt hgains.room.2)
    · exact absurd (hgains.fresh hs hg) (lt_asymm hgains.room.2)

lemma mem_keys (h : s.Joins s' payout g members) {k : UInt32} :
    k ∈ s'.groups.keys ↔ k = g ∨ k ∈ s.groups.keys := by
  rw [h.groups]
  exact OrdMap.mem_keys_insert

lemma find?_cases (h : s.Joins s' payout g members) {g' : UInt32} {group : Group}
    (hg' : s'.groups.find? g' = some group) :
    (g' = g ∧ group = ⟨payout, members.insert (s.nextChannel + 1) ()⟩) ∨
      (g' ≠ g ∧ s.groups.find? g' = some group) := by
  rw [h.groups, OrdMap.find?_insert] at hg'
  split_ifs at hg' with heq
  · cases hg'
    exact Or.inl ⟨heq, rfl⟩
  · exact Or.inr ⟨heq, hg'⟩

/-- The channel joins its payout's group. -/
lemma inv (h : s.Joins s' payout g members) (hs : s.Inv) (hgains : s.Gains s' c)
    (hgrouped : s.grouping = true) (hext : c.kind = .extended) (hdevice : c.customOnly = false)
    (hlogin : s.LoginPayout payout)
    (hvalid : Config.validateCoinbaseAddress s.network payout = .ok c.payout) : s'.Inv := by
  refine ⟨hgains.ids, hgains.maximums, hgains.targets, hgains.channel_le hs, ?_, ?_,
    fun hnone => absurd hnone hgains.opened, ?_, ?_, ?_, ?_, ?_, ?_⟩
  · intro k hk
    rcases h.mem_keys.mp hk with rfl | hk
    · exact h.le hs hgains
    · exact (hgains.fresh_group hs hk).le.trans hgains.le
  · intro k hk hkg
    rcases h.mem_keys.mp hkg with rfl | hkg
    · exact h.not_mem hs hgains hk
    · rcases hgains.mem_keys.mp hk with rfl | hk
      · exact lt_irrefl _ (hgains.fresh_group hs hkg)
      · exact hs.disjoint k hk hkg
  · rw [hgains.grouping, hgrouped]
    intro hfalse
    cases hfalse
  · intro g' group hg'
    rw [hgains.login]
    rcases h.find?_cases hg' with ⟨-, rfl⟩ | ⟨-, hg'⟩
    · exact hlogin
    · exact hs.payouts g' group hg'
  · intro g1 g2 a b ha hb heq
    rcases h.find?_cases ha with ⟨rfl, rfl⟩ | ⟨hne1, ha⟩
    · rcases h.find?_cases hb with ⟨rfl, -⟩ | ⟨hne2, hb⟩
      · rfl
      · exact absurd heq.symm (h.other hs hne2 hb)
    · rcases h.find?_cases hb with ⟨rfl, rfl⟩ | ⟨hne2, hb⟩
      · exact absurd heq (h.other hs hne1 ha)
      · exact hs.distinct g1 g2 a b ha hb heq
  · intro g' group hg'
    rcases h.find?_cases hg' with ⟨-, rfl⟩ | ⟨-, hg'⟩
    · exact List.ne_nil_of_mem (OrdMap.mem_keys_insert.mpr (Or.inl rfl))
    · exact hs.nonempty g' group hg'
  · intro g' group hg' k
    rw [hgains.mines_iff hs]
    rcases h.find?_cases hg' with ⟨-, rfl⟩ | ⟨hne, hg'⟩
    · rw [OrdMap.mem_keys_insert, h.mem_members hs hgrouped hlogin, or_comm]
      exact or_congr_right ⟨fun hk => ⟨hk, hext, hdevice, hvalid⟩, fun hk => hk.1⟩
    · rw [hs.members g' group hg' k, or_iff_left]
      rintro ⟨-, -, -, hgvalid⟩
      exact h.other hs hne hg' ((hs.payouts g' group hg').unique hlogin hgvalid hvalid)
  · rw [hgains.grouping]
    intro _ k d hd hkind hcustom
    by_cases hk : k = s.nextChannel + 1
    · refine ⟨g, _, by rw [h.groups, OrdMap.find?_insert_self], ?_⟩
      exact OrdMap.mem_keys_insert.mpr (Or.inl hk)
    · obtain ⟨g', group, hg', hmem⟩ := hgains.joined_old hs hgrouped hk hd hkind hcustom
      by_cases hne : g' = g
      · subst hne
        refine ⟨g', _, by rw [h.groups, OrdMap.find?_insert_self], ?_⟩
        refine OrdMap.mem_keys_insert.mpr (Or.inr ?_)
        rcases h.first with ⟨hold, -⟩ | ⟨-, rfl, -, -⟩
        · rw [hg'] at hold
          cases hold
          exact hmem
        · exact absurd (hgains.fresh_group hs (OrdMap.mem_keys.mpr ⟨group, hg'⟩))
            (lt_asymm hgains.room.2)
      · exact ⟨g', group, by rw [h.groups, OrdMap.find?_insert_of_ne _ _ hne]; exact hg', hmem⟩

end Joins

variable [Hasher]

/-! ## What each operation keeps -/

lemma Worked.inv {s s' : Session} (h : Worked s s') (hs : s.Inv) : s'.Inv := by
  have hsame := h.same
  have hmaximums : s'.maximumTargets = s.maximumTargets := by rw [hsame]
  have hgroups : s'.groups = s.groups := by rw [hsame]
  have hnext : s'.nextChannel = s.nextChannel := by rw [hsame]
  have hflags : s'.setupFlags = s.setupFlags := by rw [hsame]
  have hgrouping : s'.grouping = s.grouping := by rw [hsame]
  have hpub : s'.pub = s.pub := by rw [hsame]
  have hpayout : s'.payout = s.payout := by rw [hsame]
  have hnetwork : s'.network = s.network := by rw [hsame]
  -- each channel is still the one that was opened
  have hback : ∀ k c', s'.channels.find? k = some c' → ∃ c, s.channels.find? k = some c ∧ c.Kept c' :=
    fun k c' hc' => by
      obtain ⟨c, hc, ops, rfl, -⟩ := h.channel k c' hc'
      exact ⟨c, hc, c.kept_steps ops⟩
  have hforth : ∀ k c, s.channels.find? k = some c → ∃ c', s'.channels.find? k = some c' ∧ c.Kept c' :=
    fun k c hc => by
      have hmem : k ∈ s'.channels.keys := h.keys ▸ OrdMap.mem_keys.mpr ⟨c, hc⟩
      obtain ⟨c', hc'⟩ := OrdMap.mem_keys.mp hmem
      obtain ⟨d, hd, hkept⟩ := hback k c' hc'
      rw [hc] at hd
      cases hd
      exact ⟨c', hc', hkept⟩
  have hmines : ∀ payout k, s'.Mines payout k ↔ s.Mines payout k := by
    intro payout k
    constructor
    · rintro ⟨c', hc', hkind, hcustom, hvalid⟩
      obtain ⟨c, hc, hkept⟩ := hback k c' hc'
      rw [hkept.kind] at hkind
      rw [hkept.customOnly] at hcustom
      rw [hnetwork, hkept.payout] at hvalid
      exact ⟨c, hc, hkind, hcustom, hvalid⟩
    · rintro ⟨c, hc, hkind, hcustom, hvalid⟩
      obtain ⟨c', hc', hkept⟩ := hforth k c hc
      refine ⟨c', hc', by rw [hkept.kind, hkind], by rw [hkept.customOnly, hcustom], ?_⟩
      rw [hnetwork, hkept.payout]
      exact hvalid
  refine ⟨?_, ?_, ?_, ?_, ?_, ?_, ?_, ?_, ?_, ?_, ?_, ?_, ?_⟩
  · intro k c' hc'
    obtain ⟨c, hc, hkept⟩ := hback k c' hc'
    rw [hkept.id, hs.ids k c hc]
  · rw [hmaximums, h.keys, hs.keys]
  · intro k c' maximum hc' hmaximum
    obtain ⟨c, hc, ops, rfl, hunder⟩ := h.channel k c' hc'
    rw [hmaximums] at hmaximum
    have hid := hs.ids k c hc
    exact Channel.meets_steps (hunder maximum (by rw [hid]; exact hmaximum))
      (hs.targets k c maximum hc hmaximum)
  · rw [h.keys, hnext]
    exact hs.channel_le
  · rw [hgroups, hnext]
    exact hs.group_le
  · rw [h.keys, hgroups]
    exact hs.disjoint
  · rw [h.keys, hgroups, hflags]
    exact hs.unopened
  · rw [hgroups, hgrouping]
    exact hs.ungrouped
  · intro g group hgroup
    rw [hgroups] at hgroup
    have hlogin := hs.payouts g group hgroup
    unfold LoginPayout at hlogin ⊢
    rw [hpub, hpayout, hnetwork]
    exact hlogin
  · rw [hgroups]
    exact hs.distinct
  · rw [hgroups]
    exact hs.nonempty
  · intro g group hgroup k
    rw [hgroups] at hgroup
    rw [hmines]
    exact hs.members g group hgroup k
  · rw [hgrouping, hgroups]
    intro hgrouped k c' hc' hkind hcustom
    obtain ⟨c, hc, hkept⟩ := hback k c' hc'
    exact hs.joined hgrouped k c hc (hkept.kind ▸ hkind) (hkept.customOnly ▸ hcustom)

omit [Hasher] in
lemma inv_updated {s : Session} (hs : s.Inv) {id : UInt32} {maximum : Hash} {c : Channel}
    (hc : s.channels.find? id = some c) (hmeets : meetsTarget c.target maximum = true) :
    Inv { s with maximumTargets := s.maximumTargets.insert id maximum } := by
  refine ⟨hs.ids, ?_, ?_, hs.channel_le, hs.group_le, hs.disjoint, hs.unopened, hs.ungrouped,
    hs.payouts, hs.distinct, hs.nonempty, hs.members, hs.joined⟩
  · rw [← hs.keys]
    apply OrdMap.keys_eq_of_mem
    intro k
    rw [OrdMap.mem_keys_insert, hs.keys]
    constructor
    · rintro (rfl | h)
      · exact OrdMap.mem_keys.mpr ⟨c, hc⟩
      · exact h
    · exact Or.inr
  · intro k d m hd hm
    simp only [OrdMap.find?_insert] at hm
    split_ifs at hm with hk
    · subst hk
      cases hm
      rw [hc] at hd
      cases hd
      exact hmeets
    · exact hs.targets k d m hd hm

omit [Hasher] in
/-- Before setup there is nothing to group. -/
lemma inv_setup {s s' : Session} (hs : s.Inv) (hnone : s.setupFlags = none) (hs' : s' = { s with
    workSelection := s'.workSelection
    setupFlags := s'.setupFlags
    grouping := s'.grouping }) : s'.Inv := by
  obtain ⟨hc, hg⟩ := hs.unopened hnone
  have hmaximums : s.maximumTargets = OrdMap.empty := by
    apply OrdMap.ext
    exact List.map_eq_nil_iff.mp (hs.keys.trans hc)
  apply inv_of_empty
  · rw [hs']
    exact OrdMap.ext (List.map_eq_nil_iff.mp hc)
  · rw [hs']
    exact hmaximums
  · rw [hs']
    exact OrdMap.ext (List.map_eq_nil_iff.mp hg)

/-! ### Closing -/

omit [Hasher] in
/-- The channels that close with `id`. -/
def closing (s : Session) (id : UInt32) : List UInt32 :=
  match s.groups.find? id with
  | none => [id]
  | some group => group.members.keys

omit [Hasher] in
lemma find?_leaveGroups {groups : OrdMap UInt32 Group} {closed : List UInt32} {g : UInt32}
    {group : Group} : (leaveGroups groups closed).find? g = some group ↔
      ∃ old, groups.find? g = some old ∧ group.payout = old.payout ∧
        group.members = closed.foldl (fun members id => members.erase id) old.members ∧
        group.members.keys ≠ [] := by
  unfold leaveGroups
  rw [OrdMap.find?_filter, OrdMap.find?_mapValues, Option.filter_eq_some_iff,
    Option.map_eq_some_iff]
  simp only [decide_eq_true_eq, OrdMap.size_ne_zero]
  constructor
  · rintro ⟨⟨old, hold, rfl⟩, hne⟩
    exact ⟨old, hold, rfl, rfl, hne⟩
  · rintro ⟨old, hold, hpayout, hmembers, hne⟩
    refine ⟨⟨old, hold, ?_⟩, hne⟩
    rw [← hpayout, ← hmembers]

omit [Hasher] in
lemma inv_closed {s : Session} (hs : s.Inv) (id : UInt32) : (s.closeChannel id).Inv := by
  have hfind : ∀ k, (s.closeChannel id).channels.find? k =
      if k ∈ s.closing id then none else s.channels.find? k := fun k =>
    OrdMap.find?_foldl_erase s.channels (s.closing id) k
  have hmaximum : ∀ k, (s.closeChannel id).maximumTargets.find? k =
      if k ∈ s.closing id then none else s.maximumTargets.find? k := fun k =>
    OrdMap.find?_foldl_erase s.maximumTargets (s.closing id) k
  have hkept : ∀ k c, (s.closeChannel id).channels.find? k = some c →
      k ∉ s.closing id ∧ s.channels.find? k = some c := by
    intro k c hc
    rw [hfind] at hc
    split_ifs at hc with hk
    exact ⟨hk, hc⟩
  have hkeys : ∀ k, k ∈ (s.closeChannel id).channels.keys ↔ k ∉ s.closing id ∧ k ∈ s.channels.keys :=
    fun k => OrdMap.mem_keys_foldl_erase
  -- a group that stays has the same payout, and its members that stay
  have hgroup : ∀ g group, (s.closeChannel id).groups.find? g = some group → g ≠ id ∧
      ∃ old, s.groups.find? g = some old ∧ group.payout = old.payout ∧
        (∀ k, k ∈ group.members.keys ↔ k ∉ s.closing id ∧ k ∈ old.members.keys) ∧
        group.members.keys ≠ [] := by
    intro g group hg
    obtain ⟨old, hold, hpayout, hmembers, hne⟩ := find?_leaveGroups.mp hg
    rw [OrdMap.find?_erase] at hold
    split_ifs at hold with hid
    refine ⟨hid, old, hold, hpayout, fun k => ?_, hne⟩
    rw [hmembers]
    exact OrdMap.mem_keys_foldl_erase
  have hgroupkeys : ∀ g ∈ (s.closeChannel id).groups.keys, g ∈ s.groups.keys := by
    intro g hg
    obtain ⟨group, hfound⟩ := OrdMap.mem_keys.mp hg
    obtain ⟨-, old, hold, -⟩ := hgroup g group hfound
    exact OrdMap.mem_keys.mpr ⟨old, hold⟩
  have hnil : ∀ {m : OrdMap UInt32 Group}, (∀ g ∈ m.keys, g ∈ s.groups.keys) → s.groups.keys = [] →
      m.keys = [] := by
    intro m hsub hempty
    rw [List.eq_nil_iff_forall_not_mem]
    intro g hg
    have hmem := hsub g hg
    rw [hempty] at hmem
    cases hmem
  refine ⟨?_, ?_, ?_, ?_, ?_, ?_, ?_, ?_, ?_, ?_, ?_, ?_, ?_⟩
  · exact fun k c hc => hs.ids k c (hkept k c hc).2
  · apply OrdMap.keys_eq_of_mem
    intro k
    rw [hkeys, ← hs.keys]
    exact OrdMap.mem_keys_foldl_erase
  · intro k c maximum hc hm
    rw [hmaximum] at hm
    split_ifs at hm
    exact hs.targets k c maximum (hkept k c hc).2 hm
  · exact fun k hk => hs.channel_le k ((hkeys k).mp hk).2
  · exact fun k hk => hs.group_le k (hgroupkeys k hk)
  · exact fun k hk hg => hs.disjoint k ((hkeys k).mp hk).2 (hgroupkeys k hg)
  · intro hflags
    obtain ⟨hc, hg⟩ := hs.unopened hflags
    refine ⟨?_, hnil hgroupkeys hg⟩
    rw [List.eq_nil_iff_forall_not_mem]
    intro k hk
    have hmem := ((hkeys k).mp hk).2
    rw [hc] at hmem
    cases hmem
  · exact fun hgrouping => hnil hgroupkeys (hs.ungrouped hgrouping)
  · intro g group hg
    obtain ⟨-, old, hold, hpayout, -⟩ := hgroup g group hg
    rw [hpayout]
    exact hs.payouts g old hold
  · intro g h a b ha hb heq
    obtain ⟨-, old, hold, hpayout, -⟩ := hgroup g a ha
    obtain ⟨-, old', hold', hpayout', -⟩ := hgroup h b hb
    exact hs.distinct g h old old' hold hold' (by rw [← hpayout, ← hpayout', heq])
  · intro g group hg
    obtain ⟨-, old, -, -, -, hne⟩ := hgroup g group hg
    exact hne
  · intro g group hg k
    obtain ⟨-, old, hold, hpayout, hmembers, -⟩ := hgroup g group hg
    rw [hmembers, hs.members g old hold k, hpayout]
    constructor
    · rintro ⟨hk, c, hc, hrest⟩
      exact ⟨c, by rw [hfind, if_neg hk]; exact hc, hrest⟩
    · rintro ⟨c, hc, hrest⟩
      exact ⟨(hkept k c hc).1, c, (hkept k c hc).2, hrest⟩
  · intro hgrouping k c hc hkind hcustom
    obtain ⟨hk, hc⟩ := hkept k c hc
    obtain ⟨g, group, hg, hmem⟩ := hs.joined hgrouping k c hc hkind hcustom
    -- its group was not the one that closed, or it would have closed too
    have hne : g ≠ id := by
      rintro rfl
      apply hk
      rw [closing, hg]
      exact hmem
    set members := (s.closing id).foldl (fun members id => members.erase id) group.members
    have hmem' : k ∈ members.keys := OrdMap.mem_keys_foldl_erase.mpr ⟨hk, hmem⟩
    refine ⟨g, ⟨group.payout, members⟩, find?_leaveGroups.mpr ⟨group, ?_, rfl, rfl, ?_⟩, hmem'⟩
    · rw [OrdMap.find?_erase, if_neg hne]
      exact hg
    · exact List.ne_nil_of_mem hmem'

/-! ### Opening -/

omit [Hasher] in
/-- The next two ids are new. -/
lemma succ_lt {n : UInt32} (h : n < 0xfffffffe) : n < n + 1 ∧ n + 1 < n + 1 + 1 := by
  rw [UInt32.lt_iff_toNat_lt] at h
  simp only [UInt32.lt_iff_toNat_lt, UInt32.toNat_add]
  have h1 : (1 : UInt32).toNat = 1 := rfl
  have h2 : (0xfffffffe : UInt32).toNat = 0xfffffffe := rfl
  omega

omit [Hasher] in
lemma joinGroup_cases (s : Session) (payout : List Char) (k : UInt32) :
    (∃ g group, s.groups.find? g = some group ∧ group.payout = payout ∧
      s.joinGroup payout k = (g, s.nextChannel,
        s.groups.insert g { group with members := group.members.insert k () })) ∨
      ((∀ g group, s.groups.find? g = some group → group.payout ≠ payout) ∧
        s.joinGroup payout k = (s.nextChannel + 1, s.nextChannel + 1,
          s.groups.insert (s.nextChannel + 1) ⟨payout, OrdMap.empty.insert k ()⟩)) := by
  unfold joinGroup
  cases hfind : s.groups.entries.find? fun g => g.2.payout = payout with
  | none =>
    refine Or.inr ⟨fun g group hg heq => ?_, rfl⟩
    rw [List.find?_eq_none] at hfind
    exact hfind (g, group) (OrdMap.mem_entries.mpr hg) (by simpa using heq)
  | some e =>
    obtain ⟨g, group⟩ := e
    have hpayout : group.payout = payout := by simpa using List.find?_some hfind
    exact Or.inl ⟨g, group, OrdMap.mem_entries.mp (List.mem_of_find?_eq_some hfind), hpayout, rfl⟩

lemma Opened.channel {s s' : Session} {lanes : Lanes} {request : OpenRequest} {login : Login}
    {start c : Channel} (h : Opened s s' lanes request login start c) :
    c.id = s.nextChannel + 1 ∧ c.kind = request.kind ∧
      c.customOnly = decide (s.workSelection ∧ request.kind = .extended) ∧
      Config.validateCoinbaseAddress s.network login.payout = .ok c.payout := by
  obtain ⟨ops, hops, -⟩ := h.ops
  have hkept : start.Kept c := hops ▸ start.kept_steps ops
  have hnew := newChannel_eq_ok h.start_eq
  exact ⟨hkept.id.trans hnew.id_eq, hkept.kind.trans hnew.kind_eq,
    hkept.customOnly.trans hnew.customOnly, hkept.payout ▸ hnew.payout⟩

lemma Opened.joins {s s' : Session} {lanes : Lanes} {request : OpenRequest} {login : Login}
    {start c : Channel} (h : Opened s s' lanes request login start c) :
    (¬ (s.grouping = true ∧ c.kind = .extended ∧ c.customOnly = false) ∧ s'.groups = s.groups ∧
      s'.nextChannel = s.nextChannel + 1) ∨
    ((s.grouping = true ∧ c.kind = .extended ∧ c.customOnly = false) ∧
      ∃ g members, s.Joins s' login.payout g members) := by
  obtain ⟨-, hkind, hcustom, -⟩ := h.channel
  have hstate := h.state
  have hgroups : s'.groups = (s.joined request login).2.2 := by rw [hstate]
  have hnext : s'.nextChannel = (s.joined request login).2.1 := by rw [hstate]
  have hiff : (s.grouping = true ∧ c.kind = .extended ∧ c.customOnly = false) ↔
      (s.grouping = true ∧ request.kind = .extended ∧ s.workSelection = false) := by
    rw [hkind, hcustom, decide_eq_false_iff_not]
    constructor
    · rintro ⟨hgrouping, hext, hnot⟩
      exact ⟨hgrouping, hext, by simpa [hext] using hnot⟩
    · rintro ⟨hgrouping, hext, hselection⟩
      exact ⟨hgrouping, hext, by simp [hselection]⟩
  rw [hiff]
  unfold joined at hgroups hnext
  by_cases hjoin : s.grouping = true ∧ request.kind = .extended ∧ s.workSelection = false
  · rw [if_pos hjoin] at hgroups hnext
    refine Or.inr ⟨hjoin, ?_⟩
    rcases joinGroup_cases { s with nextChannel := s.nextChannel + 1 } login.payout
      (s.nextChannel + 1) with ⟨g, group, hg, hpayout, heq⟩ | ⟨hnone, heq⟩
    · rw [heq] at hgroups hnext
      obtain ⟨payout, members⟩ := group
      obtain rfl : payout = login.payout := hpayout
      exact ⟨g, members, hgroups, Or.inl ⟨hg, hnext⟩⟩
    · rw [heq] at hgroups hnext
      exact ⟨_, OrdMap.empty, hgroups, Or.inr ⟨rfl, rfl, hnext, hnone⟩⟩
  · rw [if_neg hjoin] at hgroups hnext
    exact Or.inl ⟨hjoin, hgroups, hnext⟩

lemma Opened.gains {s s' : Session} {lanes : Lanes} {request : OpenRequest} {login : Login}
    {start c : Channel} (hs : s.Inv) (hflags : s.setupFlags ≠ none)
    (h : Opened s s' lanes request login start c) : s.Gains s' c := by
  obtain ⟨hid, -⟩ := h.channel
  have hroom := succ_lt h.room
  have hstate := h.state
  rw [hid] at hstate
  have hchannels : s'.channels = s.channels.insert (s.nextChannel + 1) c := by rw [hstate]
  have hmaximums : s'.maximumTargets =
    s.maximumTargets.insert (s.nextChannel + 1) request.maximum := by rw [hstate]
  have hflags' : s'.setupFlags = s.setupFlags := by rw [hstate]
  have hpub : s'.pub = s.pub := by rw [hstate]
  have hpayout : s'.payout = s.payout := by rw [hstate]
  have hnetwork : s'.network = s.network := by rw [hstate]
  refine ⟨hchannels, ?_, by rw [hflags']; exact hflags, by rw [hstate], hnetwork, ?_, hroom, ?_, ?_, ?_⟩
  · apply OrdMap.keys_eq_of_mem
    intro k
    rw [hchannels, hmaximums, OrdMap.mem_keys_insert, OrdMap.mem_keys_insert, hs.keys]
  · intro p
    unfold LoginPayout
    rw [hpub, hpayout, hnetwork]
  · rcases h.joins with ⟨-, -, hnext⟩ | ⟨-, g, members, hjoins⟩
    · exact hnext.ge
    · rcases hjoins.first with ⟨-, hnext⟩ | ⟨-, -, hnext, -⟩
      · exact hnext.ge
      · rw [hnext]
        exact hroom.2.le
  · intro k d hd
    rw [hchannels, OrdMap.find?_insert] at hd
    split_ifs at hd with hk
    · cases hd
      rw [hk, hid]
    · exact hs.ids k d hd
  · intro k d maximum hd hm
    rw [hchannels, OrdMap.find?_insert] at hd
    rw [hmaximums, OrdMap.find?_insert] at hm
    split_ifs at hd hm with hk
    · cases hd
      cases hm
      exact h.meets
    · exact hs.targets k d maximum hd hm

lemma Opened.inv {s s' : Session} {lanes : Lanes} {request : OpenRequest} {login : Login}
    {start c : Channel} (hs : s.Inv) (hflags : s.setupFlags ≠ none)
    (h : Opened s s' lanes request login start c) : s'.Inv := by
  obtain ⟨-, -, -, hvalid⟩ := h.channel
  have hgains := h.gains hs hflags
  rcases h.joins with ⟨hnot, hgroups, -⟩ | ⟨⟨hgrouped, hext, hdevice⟩, g, members, hjoins⟩
  · exact hgains.inv_alone hs hgroups hnot
  · exact hjoins.inv hs hgains hgrouped hext hdevice (openLogin_payout h.login_eq) hvalid

/-- Every operation keeps the invariant. -/
lemma Change.inv {s s' : Session} (h : Change s s') (hs : s.Inv) : s'.Inv := by
  cases h with
  | setup hnone hs' => exact inv_setup hs hnone hs'
  | worked hworked => exact hworked.inv hs
  | opened hflags hopened => exact hopened.inv hs hflags
  | updated hc hmeets => exact inv_updated hs hc hmeets
  | closed id => exact inv_closed hs id

/-! ## Ids are given once -/

omit [Hasher] in
/-- The ids a step gives to channels and groups. -/
def newIds (s s' : Session) : List UInt32 :=
  (s'.channels.keys.filter fun k => k ∉ s.channels.keys) ++
    s'.groups.keys.filter fun k => k ∉ s.groups.keys

/-- The sessions that `start` can become, with the ids given on the way, the latest first.
The lanes are the server's: other sessions use them too. -/
inductive Run (start : Session) : List UInt32 → Session → Prop
  | start : Run start [] start
  | next {given : List UInt32} {s s' : Session} {lanes lanes' : Lanes} {op : Op}
      {frames : List Frame} : Run start given s → s.step lanes op = .ok (s', lanes', frames) →
      Run start (newIds s s' ++ given) s'

omit [Hasher] in
lemma mem_newIds {s s' : Session} {k : UInt32} : k ∈ newIds s s' ↔
    (k ∈ s'.channels.keys ∧ k ∉ s.channels.keys) ∨ (k ∈ s'.groups.keys ∧ k ∉ s.groups.keys) := by
  simp [newIds, List.mem_append, List.mem_filter]

omit [Hasher] in
lemma nodup_newIds {s s' : Session} (hs' : s'.Inv) : (newIds s s').Nodup := by
  refine List.Nodup.append (s'.channels.nodup_keys.filter _) (s'.groups.nodup_keys.filter _) ?_
  intro k hchannel hgroup
  exact hs'.disjoint k (List.mem_of_mem_filter hchannel) (List.mem_of_mem_filter hgroup)

/-- A new id is above all earlier ones. -/
lemma Change.lt_newIds {s s' : Session} (h : Change s s') :
    s.nextChannel ≤ s'.nextChannel ∧ ∀ k ∈ newIds s s', s.nextChannel < k := by
  -- without a new channel or group there is no new id
  have hsame : ∀ {s' : Session}, s'.nextChannel = s.nextChannel →
      (∀ k ∈ s'.channels.keys, k ∈ s.channels.keys) → (∀ k ∈ s'.groups.keys, k ∈ s.groups.keys) →
      s.nextChannel ≤ s'.nextChannel ∧ ∀ k ∈ newIds s s', s.nextChannel < k := by
    intro s' hnext hchannels hgroups
    refine ⟨hnext.ge, fun k hk => ?_⟩
    rcases mem_newIds.mp hk with ⟨hk, hnot⟩ | ⟨hk, hnot⟩
    · exact absurd (hchannels k hk) hnot
    · exact absurd (hgroups k hk) hnot
  cases h with
  | setup hnone hs' =>
    refine hsame (by rw [hs']) ?_ ?_
    · rw [hs']
      exact fun k hk => hk
    · rw [hs']
      exact fun k hk => hk
  | worked hworked =>
    have hw := hworked.same
    have hgroups : s'.groups = s.groups := by rw [hw]
    refine hsame (by rw [hw]) ?_ ?_
    · rw [hworked.keys]
      exact fun k hk => hk
    · rw [hgroups]
      exact fun k hk => hk
  | updated hc hmeets => exact hsame rfl (fun k hk => hk) (fun k hk => hk)
  | closed id =>
    refine hsame rfl ?_ ?_
    · exact fun k hk => (OrdMap.mem_keys_foldl_erase.mp hk).2
    · intro g hg
      obtain ⟨group, hfound⟩ := OrdMap.mem_keys.mp hg
      obtain ⟨old, hold, -⟩ := find?_leaveGroups.mp hfound
      exact (OrdMap.mem_keys_erase.mp (OrdMap.mem_keys.mpr ⟨old, hold⟩)).2
  | @opened _ lanes request login start c hflags hopened =>
    obtain ⟨hlt, hlt'⟩ := succ_lt hopened.room
    have hstate := hopened.state
    rw [hopened.channel.1] at hstate
    have hchannels : s'.channels = s.channels.insert (s.nextChannel + 1) c := by rw [hstate]
    have hchannel : ∀ k, k ∈ s'.channels.keys → k ∉ s.channels.keys → s.nextChannel < k := by
      intro k hk hnot
      rw [hchannels, OrdMap.mem_keys_insert] at hk
      rcases hk with rfl | hk
      · exact hlt
      · exact absurd hk hnot
    rcases hopened.joins with ⟨-, hgroups, hnext⟩ | ⟨-, g, members, hjoins⟩
    · refine ⟨hnext ▸ hlt.le, fun k hk => ?_⟩
      rcases mem_newIds.mp hk with ⟨hk, hnot⟩ | ⟨hk, hnot⟩
      · exact hchannel k hk hnot
      · exact absurd (hgroups ▸ hk) hnot
    · have hle : s.nextChannel ≤ s'.nextChannel := by
        rcases hjoins.first with ⟨-, hnext⟩ | ⟨-, -, hnext, -⟩
        · exact hnext ▸ hlt.le
        · exact hnext ▸ (hlt.trans hlt').le
      refine ⟨hle, fun k hk => ?_⟩
      rcases mem_newIds.mp hk with ⟨hk, hnot⟩ | ⟨hk, hnot⟩
      · exact hchannel k hk hnot
      · rw [hjoins.groups, OrdMap.mem_keys_insert] at hk
        rcases hk with rfl | hk
        · rcases hjoins.first with ⟨hold, -⟩ | ⟨-, rfl, -, -⟩
          · exact absurd (OrdMap.mem_keys.mpr ⟨_, hold⟩) hnot
          · exact hlt.trans hlt'
        · exact absurd hk hnot

/-- What a run has given stays below the next id, and the open ids are among it. -/
structure Given (given : List UInt32) (s : Session) : Prop where
  nodup : given.Nodup
  le : ∀ k ∈ given, k ≤ s.nextChannel
  channels : ∀ k ∈ s.channels.keys, k ∈ given
  groups : ∀ k ∈ s.groups.keys, k ∈ given

/-- Every session a run reaches has the invariant, and no id was given twice. -/
lemma Run.inv {start s : Session} {given : List UInt32} (h : Run start given s)
    (hstart : start.Start) : s.Inv ∧ Given given s := by
  induction h with
  | start =>
    obtain ⟨hchannels, -, hgroups⟩ := hstart.empty
    refine ⟨hstart.inv, List.nodup_nil, fun k hk => absurd hk List.not_mem_nil, ?_, ?_⟩
    · rw [hchannels]
      exact fun k hk => hk
    · rw [hgroups]
      exact fun k hk => hk
  | @next given s s' lanes lanes' op frames _ hstep ih =>
    obtain ⟨hs, hgiven⟩ := ih
    have hchange := step_change hs.ids hstep
    have hs' := hchange.inv hs
    obtain ⟨hle, hlt⟩ := hchange.lt_newIds
    refine ⟨hs', ?_, ?_, ?_, ?_⟩
    · refine List.Nodup.append (nodup_newIds hs') hgiven.nodup ?_
      intro k hk hold
      exact absurd (hgiven.le k hold) (not_le.mpr (hlt k hk))
    · intro k hk
      rcases List.mem_append.mp hk with hk | hk
      · rcases mem_newIds.mp hk with ⟨hk, -⟩ | ⟨hk, -⟩
        · exact hs'.channel_le k hk
        · exact hs'.group_le k hk
      · exact (hgiven.le k hk).trans hle
    · intro k hk
      by_cases hold : k ∈ s.channels.keys
      · exact List.mem_append_right _ (hgiven.channels k hold)
      · exact List.mem_append_left _ (mem_newIds.mpr (Or.inl ⟨hk, hold⟩))
    · intro k hk
      by_cases hold : k ∈ s.groups.keys
      · exact List.mem_append_right _ (hgiven.groups k hold)
      · exact List.mem_append_left _ (mem_newIds.mpr (Or.inr ⟨hk, hold⟩))

end Session

end Pickaxe
