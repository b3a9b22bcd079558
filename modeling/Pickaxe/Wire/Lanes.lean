/-
# Search spaces on a server

A server's connections come and go; each is a session, and the sessions of a Job Declaration
client's local server take their lanes from one counter.  The scripts devices hash on two
channels differ in their channels' bytes, the session's salt and the channel's id or the
lane, and those of two jobs on one channel in the jobs' ids (`disjoint_spaces`).

The counter wraps, and the compact layout keeps two bytes of it: a lane is the server's only
one as long as no lane opens while one with the same bytes is open.
-/
import Pickaxe.Channel.Script
import Pickaxe.Wire.Delivery
import Pickaxe.Wire.Turn

namespace Pickaxe

open Lib Merge Jd

/-- A server: the lanes its sessions share, and its connections. -/
structure Server where
  lanes : Lanes
  sessions : OrdMap ℕ Session

namespace Server

/-- What happens on a server. -/
inductive Op where
  | connect (id : ℕ) (session : Session)
  | disconnect (id : ℕ)
  | act (id : ℕ) (op : Session.Op)

variable [Hasher]

/-- One step of a server.  An operation that fails ends its connection; it may have taken a
lane or set the layout before. -/
inductive Step : Server → Op → Server → Prop
  | connect {sv : Server} {id : ℕ} {s : Session} : sv.sessions.find? id = none → s.Start →
      Step sv (.connect id s) { sv with sessions := sv.sessions.insert id s }
  | disconnect {sv : Server} {id : ℕ} :
      Step sv (.disconnect id) { sv with sessions := sv.sessions.erase id }
  | act {sv : Server} {id : ℕ} {s s' : Session} {op : Session.Op} {lanes' : Lanes}
      {frames : List Frame} : sv.sessions.find? id = some s →
      s.step sv.lanes op = .ok (s', lanes', frames) →
      Step sv (.act id op) ⟨lanes', sv.sessions.insert id s'⟩
  | fail {sv : Server} {id : ℕ} {s : Session} {op : Session.Op} {lanes' : Lanes} {error : String} :
      sv.sessions.find? id = some s → s.step sv.lanes op = .error error →
      (lanes'.next = sv.lanes.next ∨ lanes'.next = sv.lanes.next + 1) →
      Step sv (.act id op) ⟨lanes', sv.sessions.erase id⟩

/-- The servers that a new one can become by steps `allowed` lets through. -/
inductive Run (allowed : Server → Op → Prop) : Server → Prop
  | start : Run allowed ⟨⟨0, false⟩, OrdMap.empty⟩
  | next {sv sv' : Server} {op : Op} : Run allowed sv → allowed sv op → Step sv op sv' →
      Run allowed sv'

omit [Hasher] in
/-- An open channel of the server that takes a lane. -/
def Lane (sv : Server) (id : ℕ) (k : UInt32) (c : Channel) : Prop :=
  ∃ s, sv.sessions.find? id = some s ∧ s.lanes = true ∧ s.channels.find? k = some c

omit [Hasher] in
/-- The bytes of a lane: four, or its low two in the compact layout. -/
def laneBytes (lane : UInt32) (compact : Bool) : Bytes :=
  if compact then (u32Le lane).take 2 else u32Le lane

omit [Hasher] in
/-- A lane that opens has other bytes than the open lanes of its layout. -/
def FreeLane (sv : Server) : Op → Prop
  | .act id (.receive _ (.openChannel request) _) => ∀ s, sv.sessions.find? id = some s →
      s.lanes = true → s.openRefusal sv.lanes request = none →
      ∀ id' k c, sv.Lane id' k c → c.compact = s.laneCompact sv.lanes →
        c.extranoncePrefix ≠ laneBytes sv.lanes.next (s.laneCompact sv.lanes)
  | _ => True

end Server

namespace Session

/-- The prefixes of a session's channels: a lane, or its salt and the channel's id. -/
def Laid (s : Session) : Prop :=
  ∀ k c, s.channels.find? k = some c →
    if s.lanes then c.extranoncePrefix.length = if c.compact then 2 else 4
    else c.extranoncePrefix = s.salt.bytes ++ u32Le k

variable [Hasher]

lemma Change.lanes_eq {s s' : Session} (h : Change s s') : s'.lanes = s.lanes ∧ s'.salt = s.salt := by
  cases h with
  | setup _ hs' => exact ⟨by rw [hs'], by rw [hs']⟩
  | worked hworked =>
    have hsame := hworked.same
    exact ⟨by rw [hsame], by rw [hsame]⟩
  | opened _ hopened =>
    have hstate := hopened.state
    exact ⟨by rw [hstate], by rw [hstate]⟩
  | updated _ _ => exact ⟨rfl, rfl⟩
  | closed _ => exact ⟨rfl, rfl⟩

/-- The prefix of a channel that opens. -/
lemma Opened.extranoncePrefix {s s' : Session} {lanes : Lanes} {request : OpenRequest}
    {login : Login} {start c : Channel} (h : s.Opened s' lanes request login start c) :
    c.compact = s.laneCompact lanes ∧ c.extranoncePrefix =
      if s.lanes then Server.laneBytes lanes.next (s.laneCompact lanes)
      else s.salt.bytes ++ u32Le (s.nextChannel + 1) := by
  have hnew := newChannel_eq_ok h.start_eq
  exact ⟨h.kept.compact.trans hnew.compact, h.kept.extranoncePrefix.trans hnew.extranoncePrefix⟩

lemma step_laid {s s' : Session} (hs : s.Sound) (hlaid : s.Laid) {lanes lanes' : Lanes} {op : Op}
    {frames : List Frame} (h : s.step lanes op = .ok (s', lanes', frames)) : s'.Laid := by
  obtain ⟨hlanes, hsalt⟩ := (step_change hs.inv.ids h).lanes_eq
  intro k d hd
  rw [hlanes, hsalt]
  rcases step_turned hs h hd with ⟨c, hc, hkept, -⟩ |
    ⟨-, _, request, _, _, start, -, hopened, -⟩
  · rw [hkept.extranoncePrefix, hkept.compact]
    exact hlaid k c hc
  · obtain ⟨hcompact, hpfx⟩ := hopened.extranoncePrefix
    have hid : k = s.nextChannel + 1 := by
      rw [← hopened.channel.1]
      exact ((step_sound hs h).inv.ids k d hd).symm
    rw [hcompact, hpfx, hid]
    split_ifs with hlane hlow
    · rw [Server.laneBytes, if_pos hlow, List.length_take, length_u32Le]
      rfl
    · rw [Server.laneBytes, if_neg hlow, length_u32Le]
    · rfl

omit [Hasher] in
lemma Start.laid {s : Session} (h : s.Start) : s.Laid := by
  intro k c hc
  rw [h.empty.1] at hc
  exact absurd hc (not_mem_of_keys_eq_nil rfl k c)

end Session

namespace Server

variable [Hasher]

/-! ## What every server keeps -/

/-- The sessions are sound, and no two open lanes of one layout have the same bytes. -/
structure Good (sv : Server) : Prop where
  sound : ∀ id s, sv.sessions.find? id = some s → s.Sound
  laid : ∀ id s, sv.sessions.find? id = some s → s.Laid
  lanes : ∀ id k c id' k' c', sv.Lane id k c → sv.Lane id' k' c' → c.compact = c'.compact →
    c.extranoncePrefix = c'.extranoncePrefix → id = id' ∧ k = k'

/-- Fewer connections. -/
lemma Good.of_subset {sv sv' : Server} (h : sv.Good)
    (hsub : ∀ id s, sv'.sessions.find? id = some s → sv.sessions.find? id = some s) : sv'.Good := by
  have hlane : ∀ {id k c}, sv'.Lane id k c → sv.Lane id k c := by
    rintro id k c ⟨s, hs, hrest⟩
    exact ⟨s, hsub id s hs, hrest⟩
  exact ⟨fun id s hs => h.sound id s (hsub id s hs), fun id s hs => h.laid id s (hsub id s hs),
    fun id k c id' k' c' hc hc' => h.lanes id k c id' k' c' (hlane hc) (hlane hc')⟩

omit [Hasher] in
lemma find?_erase_subset {m : OrdMap ℕ Session} {gone id : ℕ} {s : Session}
    (h : (m.erase gone).find? id = some s) : m.find? id = some s := by
  rw [OrdMap.find?_erase] at h
  split_ifs at h
  exact h

/-- A connection without channels. -/
lemma Good.connect {sv : Server} (h : sv.Good) {id : ℕ} {s : Session} (hs : s.Start) :
    Good { sv with sessions := sv.sessions.insert id s } := by
  have hlane : ∀ {id' k c}, Lane { sv with sessions := sv.sessions.insert id s } id' k c →
      sv.Lane id' k c := by
    rintro id' k c ⟨s', hs', hlanes, hc⟩
    simp only [OrdMap.find?_insert] at hs'
    split_ifs at hs' with hid
    · obtain rfl := Option.some.inj hs'
      rw [hs.empty.1] at hc
      exact absurd hc (Session.not_mem_of_keys_eq_nil rfl k c)
    · exact ⟨s', hs', hlanes, hc⟩
  refine ⟨?_, ?_, fun id k c id' k' c' hc hc' => h.lanes id k c id' k' c' (hlane hc) (hlane hc')⟩
  · intro id' s' hs'
    simp only [OrdMap.find?_insert] at hs'
    split_ifs at hs' with hid
    · exact Option.some.inj hs' ▸ hs.sound
    · exact h.sound id' s' hs'
  · intro id' s' hs'
    simp only [OrdMap.find?_insert] at hs'
    split_ifs at hs' with hid
    · exact Option.some.inj hs' ▸ hs.laid
    · exact h.laid id' s' hs'

/-- Where a lane after an operation comes from: it was open with the same bytes, or it opens
now with bytes of its own. -/
lemma lane_cases {sv : Server} (h : sv.Good) {id : ℕ} {s s' : Session} {op : Session.Op}
    {lanes' : Lanes} {frames : List Frame} (hs : sv.sessions.find? id = some s)
    (hfree : sv.FreeLane (.act id op)) (hstep : s.step sv.lanes op = .ok (s', lanes', frames))
    {id' : ℕ} {k : UInt32} {d : Channel}
    (hd : Lane ⟨lanes', sv.sessions.insert id s'⟩ id' k d) :
    (∃ c, sv.Lane id' k c ∧ d.compact = c.compact ∧ d.extranoncePrefix = c.extranoncePrefix) ∨
      (id' = id ∧ k = s.nextChannel + 1 ∧ ∀ id'' k' c, sv.Lane id'' k' c → c.compact = d.compact →
        c.extranoncePrefix ≠ d.extranoncePrefix) := by
  obtain ⟨r, hr, hlanes, hd⟩ := hd
  simp only [OrdMap.find?_insert] at hr
  split_ifs at hr with hid
  swap
  · exact Or.inl ⟨d, ⟨r, hr, hlanes, hd⟩, rfl, rfl⟩
  obtain rfl := Option.some.inj hr
  have hsound := h.sound id s hs
  have hlanes' := (Session.step_change hsound.inv.ids hstep).lanes_eq.1
  rw [hlanes'] at hlanes
  rcases Session.step_turned hsound hstep hd with ⟨c, hc, hkept, -⟩ |
    ⟨-, random, request, now, _, start, rfl, hopened, -⟩
  · exact Or.inl ⟨c, ⟨s, hid ▸ hs, hlanes, hc⟩, hkept.compact, hkept.extranoncePrefix⟩
  · obtain ⟨hcompact, hpfx⟩ := hopened.extranoncePrefix
    have hk : k = s.nextChannel + 1 := by
      rw [← hopened.channel.1]
      exact ((Session.step_sound hsound hstep).inv.ids k d hd).symm
    refine Or.inr ⟨hid, hk, fun id'' k' c hc hsame => ?_⟩
    rw [hpfx, if_pos hlanes]
    exact hfree s hs hlanes hopened.accepted id'' k' c hc (hsame.trans hcompact)

lemma Good.act {sv : Server} (h : sv.Good) {id : ℕ} {s s' : Session} {op : Session.Op}
    {lanes' : Lanes} {frames : List Frame} (hs : sv.sessions.find? id = some s)
    (hfree : sv.FreeLane (.act id op)) (hstep : s.step sv.lanes op = .ok (s', lanes', frames)) :
    Good ⟨lanes', sv.sessions.insert id s'⟩ := by
  refine ⟨?_, ?_, ?_⟩
  · intro id' r hr
    simp only [OrdMap.find?_insert] at hr
    split_ifs at hr with hid
    · exact Option.some.inj hr ▸ Session.step_sound (h.sound id s hs) hstep
    · exact h.sound id' r hr
  · intro id' r hr
    simp only [OrdMap.find?_insert] at hr
    split_ifs at hr with hid
    · exact Option.some.inj hr ▸ Session.step_laid (h.sound id s hs) (h.laid id s hs) hstep
    · exact h.laid id' r hr
  · intro a k c b k' c' hc hc' hcompact hpfx
    rcases lane_cases h hs hfree hstep hc with ⟨old, hold, holdc, holdp⟩ | ⟨rfl, rfl, hnew⟩
    · rcases lane_cases h hs hfree hstep hc' with ⟨old', hold', holdc', holdp'⟩ | ⟨-, -, hnew'⟩
      · refine h.lanes a k old b k' old' hold hold' ?_ ?_
        · rw [← holdc, ← holdc', hcompact]
        · rw [← holdp, ← holdp', hpfx]
      · exact absurd (holdp ▸ hpfx) (hnew' a k old hold (holdc ▸ hcompact))
    · rcases lane_cases h hs hfree hstep hc' with ⟨old', hold', holdc', holdp'⟩ | ⟨rfl, rfl, -⟩
      · exact absurd (holdp' ▸ hpfx.symm) (hnew b k' old' hold' (holdc' ▸ hcompact.symm))
      · exact ⟨rfl, rfl⟩

lemma Run.good {sv : Server} (h : Run FreeLane sv) : sv.Good := by
  induction h with
  | start =>
    have hnone : ∀ id s, (OrdMap.empty : OrdMap ℕ Session).find? id ≠ some s := by
      intro id s hs
      cases hs
    refine ⟨fun id s hs => absurd hs (hnone id s), fun id s hs => absurd hs (hnone id s), ?_⟩
    rintro id k c id' k' c' ⟨s, hs, -⟩
    exact absurd hs (hnone id s)
  | next _ hallowed hstep ih =>
    cases hstep with
    | connect _ hs => exact ih.connect hs
    | disconnect => exact ih.of_subset fun id s => find?_erase_subset
    | act hs hstep => exact ih.act hs hallowed hstep
    | fail _ _ _ => exact ih.of_subset fun id s => find?_erase_subset

/-! ## Disjoint spaces -/

lemma Good.standalone {sv : Server} (h : sv.Good) {id : ℕ} {s : Session}
    (hs : sv.sessions.find? id = some s) (hlanes : s.lanes = false) {k k' : UInt32} {c c' : Channel}
    (hc : s.channels.find? k = some c) (hc' : s.channels.find? k' = some c') (hne : k ≠ k') :
    c.extranoncePrefix.length = c'.extranoncePrefix.length ∧ c.mark ≠ c'.mark := by
  have hpfx : ∀ {k c}, s.channels.find? k = some c →
      c.extranoncePrefix = s.salt.bytes ++ u32Le k := by
    intro k c hc
    have hlaid := h.laid id s hs k c hc
    rwa [hlanes] at hlaid
  have hmark : ∀ {k c}, s.channels.find? k = some c → c.mark = u32Le k := by
    intro k c hc
    rw [Channel.mark, hpfx hc, List.length_append, length_u32Le, Nat.add_sub_cancel,
      List.drop_left]
  refine ⟨by rw [hpfx hc, hpfx hc']; simp, ?_⟩
  rw [hmark hc, hmark hc']
  exact fun heq => hne (u32Le_injective heq)

lemma Good.lane {sv : Server} (h : sv.Good) {id id' : ℕ} {k k' : UInt32} {c c' : Channel}
    (hc : sv.Lane id k c) (hc' : sv.Lane id' k' c') (hne : (id, k) ≠ (id', k'))
    (hcompact : c.compact = c'.compact) :
    c.extranoncePrefix.length = c'.extranoncePrefix.length ∧ c.mark ≠ c'.mark := by
  have hlength : ∀ {id k c}, sv.Lane id k c →
      c.extranoncePrefix.length = if c.compact then 2 else 4 := by
    rintro id k c ⟨s, hs, hlanes, hc⟩
    have hlaid := h.laid id s hs k c hc
    rwa [hlanes] at hlaid
  have hmark : ∀ {id k c}, sv.Lane id k c → c.mark = c.extranoncePrefix := by
    intro id k c hc
    have hshort : c.extranoncePrefix.length - 4 = 0 := by
      rw [hlength hc]
      split_ifs <;> rfl
    rw [Channel.mark, hshort, List.drop_zero]
  refine ⟨by rw [hlength hc, hlength hc', hcompact], ?_⟩
  rw [hmark hc, hmark hc']
  intro heq
  obtain ⟨rfl, rfl⟩ := h.lanes id k c id' k' c' hc hc' hcompact heq
  exact hne rfl

/-- No two live jobs share a script, on two channels of a standalone session, on two lanes of
one layout anywhere on the server, and on one channel, in every run whose lanes open with
bytes of their own: as far as scripts of one length have the channel's bytes, or the job's id,
at the same place, and compact ids differ in their low two bytes.  A pool's plain jobs have
them there on channels of one kind, and where their scripts start with heads of one length. -/
theorem disjoint_spaces {sv : Server} (hrun : Run FreeLane sv) :
    (∀ id s, sv.sessions.find? id = some s → s.lanes = false → ∀ k k' c c',
      s.channels.find? k = some c → s.channels.find? k' = some c' → k ≠ k' →
      ∀ i ∈ c.live, ∀ j ∈ c'.live, Channel.Aligned Channel.channelStart c i c' j ∨
        (c.Plain i ∧ c'.Plain j ∧ (c.kind = c'.kind ∨
          i.template.lead.length = j.template.lead.length)) →
        Disjoint (c.scripts i) (c'.scripts j)) ∧
    (∀ id id' k k' c c', sv.Lane id k c → sv.Lane id' k' c' → (id, k) ≠ (id', k') →
      c.compact = c'.compact → ∀ i ∈ c.live, ∀ j ∈ c'.live,
        Channel.Aligned Channel.channelStart c i c' j → Disjoint (c.scripts i) (c'.scripts j)) ∧
    (∀ id s k c, sv.sessions.find? id = some s → s.channels.find? k = some c →
      c.customOnly = false → ∀ i ∈ c.live, ∀ j ∈ c.live, i ≠ j →
      (Channel.compactId i = true ∨ Channel.compactId j = true →
        i.id.toNat % 2 ^ 16 ≠ j.id.toNat % 2 ^ 16) →
      Channel.Aligned Channel.idStart c i c j → Disjoint (c.scripts i) (c.scripts j)) := by
  have hgood := hrun.good
  refine ⟨?_, ?_, ?_⟩
  · intro id s hs hlanes k k' c c' hc hc' hne i hi j hj hplaced
    have haligned : Channel.Aligned Channel.channelStart c i c' j := by
      rcases hplaced with haligned | ⟨hplain, hplain', hkind⟩
      · exact haligned
      · exact hplain.aligned hplain' hkind
    obtain ⟨hlength, hmark⟩ := hgood.standalone hs hlanes hc hc' hne
    have hsound := hgood.sound id s hs
    exact Channel.disjoint_of_mark (hsound.makes k c i hc hi) (hsound.makes k' c' j hc' hj) hlength
      hmark haligned
  · intro id id' k k' c c' hc hc' hne hcompact i hi j hj haligned
    obtain ⟨hlength, hmark⟩ := hgood.lane hc hc' hne hcompact
    obtain ⟨s, hs, -, hc⟩ := hc
    obtain ⟨s', hs', -, hc'⟩ := hc'
    exact Channel.disjoint_of_mark ((hgood.sound id s hs).makes k c i hc hi)
      ((hgood.sound id' s' hs').makes k' c' j hc' hj) hlength hmark haligned
  · intro id s k c hs hc hdevice i hi j hj hne hlow haligned
    have hsound := hgood.sound id s hs
    -- a channel's live jobs have different ids
    have hids : i.id ≠ j.id := fun heq =>
      hne (List.inj_on_of_nodup_map (hsound.channels k c hc).nodup_ids hi hj heq)
    exact Channel.disjoint_of_id (hsound.makes k c i hc hi) (hsound.makes k c j hc hj) hdevice
      (Channel.idBytes_ne hids hlow) haligned

end Server

/-! ## Lanes that come round -/

namespace Server

/-- A plan in the compact layout. -/
def lanePlan : JdPlan :=
  { serial := 1
    upstreamPrefix := [1, 2, 3, 4]
    pad := []
    compact := true
    scripts := [[0x51]]
    rates := ⟨0, 0, none, none⟩
    poolTarget := ⟨List.replicate 32 0xff, length_full⟩
    p2pool := none
    fullTemplate := false }

def laneTemplate : BchTemplate := { BchTemplate.sample with jd := some lanePlan }

/-- A device's connection to a Job Declaration client's local server, before and after its
setup and its first template. -/
def laneStart : Session := Session.sample.configure none none false true

def laneSession : Session :=
  { laneStart with
    setupFlags := some 0
    grouping := true
    current := some (1, 1, laneTemplate) }

def laneSetup : Session.Op := .receive (fun _ => 0) (.setupConnection ⟨true, 2, 2, 0, "", ""⟩) 0

def laneJob : Session.Op := .setJob (fun _ _ => 0) 1 1 laneTemplate default

def laneRequest : OpenRequest := ⟨0, .standard, true, ⟨List.replicate 32 0xff, length_full⟩, 0, []⟩

def laneOpen : Session.Op := .receive (fun _ => 0) (.openChannel laneRequest) 0

variable [Hasher]


/-- Whether a channel takes a job does not depend on what its prefix holds. -/
lemma coinbases_prefix {c : Channel} {p : Bytes} (hp : p.length = c.extranoncePrefix.length)
    {random : ℕ → UInt8} {id : UInt32} {template : BchTemplate} {payout : BchPayout}
    {aux : Option AuxJob} {r : Coinbase × CoinbaseParts}
    (h : c.coinbases random id template payout aux = .ok r) :
    ∃ r', Channel.coinbases { c with extranoncePrefix := p } random id template payout aux =
      .ok r' := by
  obtain ⟨standard, hstandard, h⟩ := Except.bind_eq_ok.mp h
  obtain ⟨parts, hparts, -⟩ := Except.bind_eq_ok.mp h
  obtain ⟨pre, suffix, -, hbuild⟩ := BchTemplate.framed_coinbaseWithAux hstandard
  unfold Channel.coinbases
  generalize (c.kind == .standard && _) = fresh at hbuild ⊢
  have hlength : (Channel.standardExtranonce { c with extranoncePrefix := p } random id template
      fresh).length = (c.standardExtranonce random id template fresh).length := by
    simp only [Channel.standardExtranonce, List.length_append, hp]
    split_ifs <;> simp [hp]
  have hother := hbuild _ hlength
  simp only [hother, hp, hparts]
  exact ⟨_, rfl⟩

lemma installWithPayout_prefix {c : Channel} {p : Bytes}
    (hp : p.length = c.extranoncePrefix.length) {random : ℕ → UInt8} {id : UInt32}
    {generation : UInt64} {template : BchTemplate} {payout : BchPayout} {job : Job}
    (h : (c.installWithPayout random id generation template payout).1 = .ok job) :
    ∃ job' d, Channel.installWithPayout { c with extranoncePrefix := p } random id generation
      template payout = (.ok job', d) := by
  unfold Channel.installWithPayout at h ⊢
  simp only at h ⊢
  have hadjust : Channel.adjustPayout { c with extranoncePrefix := p } payout =
    c.adjustPayout payout := rfl
  have hholds : Channel.holds { c with extranoncePrefix := p } id = c.holds id := rfl
  rw [hadjust, hholds]
  split_ifs at h ⊢ with hheld hlayout
  cases haux : template.auxJob c.network c.payout c.operator (c.adjustPayout payout) with
  | error e =>
    rw [haux] at h
    cases h
  | ok aux =>
    rw [haux] at h
    simp only at h ⊢
    have hrefuse : Channel.refuse { c with extranoncePrefix := p } template.tokensRefused =
        { c.refuse template.tokensRefused with extranoncePrefix := p } := by
      cases template.tokensRefused with
      | none => rfl
      | some reason => rfl
    cases hr : (c.refuse template.tokensRefused).coinbases random id template
      (c.adjustPayout payout) aux with
    | error e =>
      rw [hr] at h
      cases h
    | ok r =>
      have hlength : p.length = (c.refuse template.tokensRefused).extranoncePrefix.length := by
        rw [Channel.refuse_eq]
        exact hp
      obtain ⟨⟨standard, parts⟩, hother⟩ := coinbases_prefix hlength hr
      rw [hrefuse, hother]
      exact ⟨_, _, rfl⟩


lemma openDevice_prefix {s : Session} {random : ℕ → UInt8} {request : OpenRequest}
    {payout : List Char} {id : UInt32} {generation : UInt64} {template : BchTemplate} {c : Channel}
    {p : Bytes} (hp : p.length = c.extranoncePrefix.length) (hkind : c.kind = .standard)
    {r : Session × List Frame}
    (h : s.openDevice random request payout id generation template c = .ok r) :
    ∃ r', s.openDevice random request payout id generation template
      { c with extranoncePrefix := p } = .ok r' := by
  unfold Session.openDevice at h ⊢
  simp only at h ⊢
  set settled := (c.settle template.target (c.floorFor template) request.maximum).2 with hsettled
  have hlength : p.length = settled.extranoncePrefix.length := hp
  have hkept : settled.kind = .standard := hkind
  have hsame : (Channel.settle { c with extranoncePrefix := p } template.target
      (Channel.floorFor { c with extranoncePrefix := p } template) request.maximum).2 =
      { settled with extranoncePrefix := p } := rfl
  rw [hsame]
  split at h
  · cases h
  rename_i job hjob
  obtain ⟨job', d, hd⟩ := installWithPayout_prefix hlength hjob
  obtain ⟨hinstalled, -⟩ := Channel.installWithPayout_eq_ok hd
  have hchannel := hinstalled.channel
  have hdjob : d.job = some job' := by rw [hchannel]
  have hdkind : d.kind = .standard := hinstalled.kept.kind.trans hkept
  rw [hd]
  simp only
  -- a standard channel's frames have no limit to keep
  have hframes : ∀ e : Channel, e.kind = .standard → e.job.isSome → ∃ frames,
      jobFrames e false = .ok frames := by
    intro e he hjob
    obtain ⟨j, hj⟩ := Option.isSome_iff_exists.mp hjob
    exact ⟨_, by simp only [jobFrames, hj, framesFor, he]; rfl⟩
  obtain ⟨frames, hok⟩ := hframes (if d.takeTokenRefusal.1.isSome then
    (d.takeTokenRefusal.2.dropTokenFloor request.maximum).2 else d.takeTokenRefusal.2)
    (by
      split_ifs
      · exact (Channel.kept_dropTokenFloor _ _).kind.trans hdkind
      · exact hdkind)
    (by
      split_ifs
      · simp [Channel.dropTokenFloor, Channel.takeTokenRefusal, hdjob]
      · simp [Channel.takeTokenRefusal, hdjob])
  rw [hok]
  exact ⟨_, rfl⟩


/-- The session while a channel opens. -/
def laneOpening : Session := { laneSession with nextChannel := 1 }

lemma openChannel_lane (n : UInt32) :
    laneSession.openChannel ⟨n, true⟩ (fun _ => 0) laneRequest = (do
      let c ← laneOpening.newChannel ⟨n, true⟩ .standard 1 ⟨laneSession.payout, none⟩
      let opened ← laneOpening.openDevice (fun _ => 0) laneRequest laneSession.payout 1 1
        laneTemplate c
      .ok (opened.1, ⟨n + 1, true⟩, opened.2)) := by
  have hmeets : ¬ (meetsTarget laneTemplate.target laneRequest.maximum = false) := by decide
  have hrefusal : laneSession.openRefusal ⟨n, true⟩ laneRequest = none := rfl
  have hlogin : laneSession.openLogin laneRequest.identity = .ok ⟨laneSession.payout, none⟩ := rfl
  have hcurrent : laneSession.current = some (1, 1, laneTemplate) := rfl
  unfold Session.openChannel
  rw [hrefusal, hcurrent]
  simp only
  rw [if_neg hmeets, hlogin]
  rfl

lemma step_laneOpen {n : UInt32} {s : Session} {frames : List Frame}
    (h : laneSession.openChannel ⟨n, true⟩ (fun _ => 0) laneRequest =
      .ok (s, ⟨n + 1, true⟩, frames)) :
    laneSession.step ⟨n, true⟩ laneOpen = .ok (s, ⟨n + 1, true⟩, frames) := by
  refine Except.bind_eq_ok.mpr ⟨(s, ⟨n + 1, true⟩, .ofFrames frames), ?_, rfl⟩
  exact Except.bind_eq_ok.mpr ⟨_, h, rfl⟩

/-- A standard channel opens on whatever lane is next, and alike on lanes with the same
bytes. -/
lemma laneOpen_ok {s : Session} {lanes : Lanes} {frames : List Frame}
    (hzero : laneSession.openChannel ⟨0, true⟩ (fun _ => 0) laneRequest = .ok (s, lanes, frames))
    (n : UInt32) : ∃ s' frames, laneSession.step ⟨n, true⟩ laneOpen = .ok (s', ⟨n + 1, true⟩, frames) ∧
      (laneBytes n true = laneBytes 0 true → s' = s) := by
  rw [openChannel_lane] at hzero
  obtain ⟨c, hc, hzero⟩ := Except.bind_eq_ok.mp hzero
  obtain ⟨opened, hopened, hs⟩ := Except.bind_eq_ok.mp hzero
  obtain rfl : opened.1 = s := (Prod.mk.inj (Except.ok.inj hs)).1
  have hnew := Session.newChannel_eq_ok hc
  have hother : laneOpening.newChannel ⟨n, true⟩ .standard 1 ⟨laneSession.payout, none⟩ =
      .ok { c with extranoncePrefix := laneBytes n true } := by
    obtain ⟨made, hmade, hc⟩ := Except.bind_eq_ok.mp hc
    unfold Session.newChannel
    rw [hmade]
    obtain rfl := Except.ok.inj hc
    rfl
  have hpfx : c.extranoncePrefix = laneBytes 0 true := hnew.extranoncePrefix
  have hstep : ∀ r, laneOpening.openDevice (fun _ => 0) laneRequest laneSession.payout 1 1
      laneTemplate { c with extranoncePrefix := laneBytes n true } = .ok r →
      laneSession.step ⟨n, true⟩ laneOpen = .ok (r.1, ⟨n + 1, true⟩, r.2) := by
    intro r hr
    apply step_laneOpen
    rw [openChannel_lane]
    exact Except.bind_eq_ok.mpr ⟨_, hother, Except.bind_eq_ok.mpr ⟨_, hr, rfl⟩⟩
  by_cases hsame : laneBytes n true = laneBytes 0 true
  · refine ⟨opened.1, opened.2, hstep opened ?_, fun _ => rfl⟩
    rw [hsame, ← hpfx]
    exact hopened
  · have hlength : (laneBytes n true).length = c.extranoncePrefix.length := by
      rw [hpfx]
      rfl
    obtain ⟨r, hr⟩ := openDevice_prefix hlength hnew.kind_eq hopened
    exact ⟨r.1, r.2, hstep r hr, fun h => absurd h hsame⟩

/-- A connection that opens a lane. -/
lemma run_open {allowed : Server → Op → Prop} (hallowed : ∀ sv op, FreeLane sv op → allowed sv op)
    {sv : Server} (hrun : Run allowed sv) {id : ℕ} (hnone : sv.sessions.find? id = none)
    {s : Session} {frames : List Frame}
    (hopen : laneSession.step ⟨sv.lanes.next, true⟩ laneOpen =
      .ok (s, ⟨sv.lanes.next + 1, true⟩, frames))
    (hlane : ∀ sv' : Server, sv'.lanes = ⟨sv.lanes.next, true⟩ →
      sv'.sessions.find? id = some laneSession →
      (∀ id', id' ≠ id → sv'.sessions.find? id' = sv.sessions.find? id') →
      allowed sv' (.act id laneOpen)) :
    ∃ sv', Run allowed sv' ∧ sv'.lanes = ⟨sv.lanes.next + 1, true⟩ ∧
      sv'.sessions.find? id = some s ∧
      ∀ id', id' ≠ id → sv'.sessions.find? id' = sv.sessions.find? id' := by
  have hconnected : Run allowed { sv with sessions := sv.sessions.insert id laneStart } :=
    .next hrun (hallowed _ (.connect id laneStart) trivial)
      (.connect hnone (Session.sample_start none true))
  have hsetup : laneStart.step sv.lanes laneSetup =
    .ok ({ laneStart with setupFlags := some 0, grouping := true }, sv.lanes,
      [.setupSuccess 0]) := rfl
  have hjob : Session.step { laneStart with setupFlags := some 0, grouping := true } sv.lanes
    laneJob = .ok (laneSession, ⟨sv.lanes.next, true⟩, []) := rfl
  have hready := Run.next (.next hconnected (hallowed _ (.act id laneSetup) trivial)
    (.act (OrdMap.find?_insert_self _ _ _) hsetup)) (hallowed _ (.act id laneJob) trivial)
    (.act (OrdMap.find?_insert_self _ _ _) hjob)
  have hothers : ∀ (m : OrdMap ℕ Session) (a b d : Session) (id' : ℕ), id' ≠ id →
      (((m.insert id a).insert id b).insert id d).find? id' = m.find? id' := by
    intro m a b d id' hne
    simp only [OrdMap.find?_insert_of_ne _ _ hne]
  have hopened := Run.next hready (hlane _ rfl (OrdMap.find?_insert_self _ _ _)
    (hothers _ _ _ _)) (.act (OrdMap.find?_insert_self _ _ _) hopen)
  refine ⟨_, hopened, rfl, OrdMap.find?_insert_self _ _ _, fun id' hne => ?_⟩
  rw [OrdMap.find?_insert_of_ne _ _ hne]
  exact hothers _ _ _ _ id' hne

/-- After `n` more connections that opened a lane and left, the first one's is still open. -/
lemma run_lanes {s : Session} {lanes : Lanes} {frames : List Frame}
    (hzero : laneSession.openChannel ⟨0, true⟩ (fun _ => 0) laneRequest = .ok (s, lanes, frames))
    (n : ℕ) : ∃ sv, Run (fun _ _ => True) sv ∧ sv.lanes = ⟨UInt32.ofNat (n + 1), true⟩ ∧
      sv.sessions.find? 0 = some s ∧ sv.sessions.find? 1 = none := by
  induction n with
  | zero =>
    obtain ⟨s', frames', hopen, hsame⟩ := laneOpen_ok hzero 0
    obtain rfl := hsame rfl
    have hfree : (OrdMap.empty : OrdMap ℕ Session).find? 0 = none := rfl
    obtain ⟨sv, hrun, hlanes, hfind, hothers⟩ := run_open (fun _ _ _ => trivial) .start hfree hopen
      fun _ _ _ _ => trivial
    exact ⟨sv, hrun, hlanes, hfind, hothers 1 (by decide)⟩
  | succ n ih =>
    obtain ⟨sv, hrun, hlanes, hfirst, hnone⟩ := ih
    obtain ⟨s', frames', hopen, -⟩ := laneOpen_ok hzero sv.lanes.next
    obtain ⟨sv', hrun', hlanes', -, hothers⟩ := run_open (fun _ _ _ => trivial) hrun hnone hopen
      fun _ _ _ _ => trivial
    have hleft : Step sv' (.disconnect 1) { sv' with sessions := sv'.sessions.erase 1 } :=
      .disconnect
    refine ⟨_, .next hrun' trivial hleft, ?_, ?_, ?_⟩
    · rw [hlanes', hlanes]
      simp only [Lanes.mk.injEq, and_true]
      rw [← UInt32.ofNat_one, ← UInt32.ofNat_add]
    · rw [OrdMap.find?_erase, if_neg (by decide), hothers 0 (by decide), hfirst]
    · rw [OrdMap.find?_erase, if_pos rfl]

end Server

namespace Server

/-- Whether a lane opens as a standard channel in the compact layout, with its first job. -/
def laneChecked (n : UInt32) : Bool :=
  match @Session.openChannel Hasher.fips laneSession ⟨n, true⟩ (fun _ => 0) laneRequest with
  | .error _ => false
  | .ok (s, lanes, _) =>
    match s.channels.find? 1 with
    | none => false
    | some c =>
      match c.live with
      | [job] => decide (lanes = ⟨n + 1, true⟩ ∧ s.lanes = true ∧ s.channels.keys = [1] ∧
          c.kind = .standard ∧ c.compact = true ∧
          c.extranoncePrefix = laneBytes n true ∧ job.template = laneTemplate ∧ job.kind = .own)
      | _ => false

lemma laneOpen_checked {n : UInt32} (h : laneChecked n = true) : ∃ s frames c job,
    @Session.openChannel Hasher.fips laneSession ⟨n, true⟩ (fun _ => 0) laneRequest =
      .ok (s, ⟨n + 1, true⟩, frames) ∧ s.lanes = true ∧ s.channels.keys = [1] ∧
    s.channels.find? 1 = some c ∧ c.kind = .standard ∧ c.compact = true ∧
    c.extranoncePrefix = laneBytes n true ∧ c.live = [job] ∧ job.template = laneTemplate ∧
    job.kind = .own := by
  unfold laneChecked at h
  split at h
  · cases h
  rename_i s lanes frames hs
  split at h
  · cases h
  rename_i c hc
  split at h
  swap
  · cases h
  rename_i job hlive
  obtain ⟨rfl, hlanes, hkeys, hkind, hcompact, hpfx, htemplate, hown⟩ :=
    of_decide_eq_true h
  exact ⟨s, frames, c, job, hs, hlanes, hkeys, hc, hkind, hcompact, hpfx, hlive,
    htemplate, hown⟩

/-- Two devices on lanes of a server have nothing in common to hash. -/
theorem disjoint_spaces_lanes : ∃ sv c d i j, @Run Hasher.fips FreeLane sv ∧
    sv.Lane 0 1 c ∧ sv.Lane 1 1 d ∧ i ∈ c.live ∧ j ∈ d.live ∧
    Disjoint (@Channel.scripts Hasher.fips c i) (@Channel.scripts Hasher.fips d j) := by
  let : Hasher := Hasher.fips
  have hchecked : laneChecked 0 = true := by decide +kernel
  have hchecked' : laneChecked 1 = true := by decide +kernel
  obtain ⟨s, _, c, i, hopen, hlanes, hkeys, hc, -, hcompact, hpfx, hlive,
    htemplate, hown⟩ := laneOpen_checked hchecked
  obtain ⟨s', frames', d, j, hopen', hlanes', -, hd, -, hcompact', -, hlive',
    htemplate', hown'⟩ := laneOpen_checked hchecked'
  have hempty : ∀ {sv : Server} {id k e}, sv.Lane id k e →
      sv.sessions.find? id ≠ some laneSession := by
    rintro sv id k e ⟨r, hr, -, he⟩ hsome
    rw [hr] at hsome
    cases hsome
    cases he
  have hfree : (OrdMap.empty : OrdMap ℕ Session).find? 0 = none := rfl
  obtain ⟨sv, hrun, hnext, hfirst, hothers⟩ := run_open (fun _ _ h => h) .start hfree
    (step_laneOpen hopen) (by
      -- no lane is open yet
      intro sv _ hself hothers r hr _ _ id k e he
      by_cases hid : id = 0
      · exact absurd (hid ▸ hself) (hempty he)
      · obtain ⟨_, hnone, -⟩ := he
        rw [hothers id hid] at hnone
        cases hnone)
  have hone : sv.lanes.next = 1 := by rw [hnext]; rfl
  have hstep : laneSession.step ⟨sv.lanes.next, true⟩ laneOpen =
      .ok (s', ⟨sv.lanes.next + 1, true⟩, frames') := by
    rw [hone]
    exact step_laneOpen hopen'
  obtain ⟨sv', hrun', -, hsecond, hothers'⟩ := run_open (fun _ _ h => h) hrun
    (hothers 1 (by decide)) hstep (by
      intro sv' hl hself hothers' r hr _ _ id k e he _
      by_cases hid : id = 1
      · exact absurd (hid ▸ hself) (hempty he)
      obtain ⟨r', hr', -, he⟩ := he
      rw [hothers' id hid] at hr'
      by_cases hid' : id = 0
      · -- the first lane has other bytes
        rw [hid', hfirst] at hr'
        obtain rfl := Option.some.inj hr'
        have hk : k ∈ s.channels.keys := OrdMap.mem_keys.mpr ⟨e, he⟩
        rw [hkeys, List.mem_singleton] at hk
        rw [hk, hc] at he
        obtain rfl := Option.some.inj he
        rw [hself] at hr
        obtain rfl := Option.some.inj hr
        rw [hpfx, hl, hone]
        decide
      · rw [hothers id hid'] at hr'
        cases hr')
  have hlane : sv'.Lane 0 1 c := ⟨s, by rw [hothers' 0 (by decide), hfirst], hlanes, hc⟩
  have hlane' : sv'.Lane 1 1 d := ⟨s', hsecond, hlanes', hd⟩
  have hi : i ∈ c.live := by simp [hlive]
  have hj : j ∈ d.live := by simp [hlive']
  -- both jobs come from one template
  have haligned : Channel.Aligned Channel.channelStart c i d j := by
    intro _
    simp [Channel.channelStart, hown, hown', Channel.space, htemplate, htemplate',
      Channel.jobBytes, laneTemplate, JdPlan.layout]
  refine ⟨sv', c, d, i, j, hrun', hlane, hlane', hi, hj, ?_⟩
  exact (disjoint_spaces hrun').2.1 0 1 1 1 c d hlane hlane' (by decide)
    (hcompact.trans hcompact'.symm) i hi j hj haligned

/-- The lane that opens after 65,536 others has the bytes of the first one, which is still
open: a device on either hashes what the other does. -/
theorem lanes_come_round : ∃ sv c d i j, @Run Hasher.fips (fun _ _ => True) sv ∧
    sv.Lane 0 1 c ∧ sv.Lane 1 1 d ∧ i ∈ c.live ∧ j ∈ d.live ∧
    ¬ Disjoint (@Channel.scripts Hasher.fips c i) (@Channel.scripts Hasher.fips d j) := by
  let : Hasher := Hasher.fips
  obtain ⟨s, frames, c, job, hzero, hlanes, -, hc, hkind, -, -, hlive, -⟩ :=
    laneOpen_checked (n := 0) (by decide +kernel)
  obtain ⟨sv, hrun, hnext, hfirst, hnone⟩ := run_lanes hzero 65535
  obtain ⟨s', frames', hopen, hsame⟩ := laneOpen_ok hzero sv.lanes.next
  have hround : s' = s := hsame (by rw [hnext]; decide)
  obtain ⟨sv', hrun', -, hsecond, hothers⟩ := run_open (fun _ _ _ => trivial) hrun hnone hopen
    fun _ _ _ _ => trivial
  have hjob : job ∈ c.live := by simp [hlive]
  refine ⟨sv', c, c, job, job, hrun', ⟨s, ?_, hlanes, hc⟩, ⟨s, ?_, hlanes, hc⟩, hjob, hjob, ?_⟩
  · rw [hothers 0 (by decide), hfirst]
  · rw [hsecond, hround]
  · rw [Set.not_disjoint_iff]
    refine ⟨_, ⟨[], job.standardCoinbase, ?_, rfl⟩, ⟨[], job.standardCoinbase, ?_, rfl⟩⟩
    · simp [Channel.shareCoinbase, hkind]
    · simp [Channel.shareCoinbase, hkind]

end Server

end Pickaxe
