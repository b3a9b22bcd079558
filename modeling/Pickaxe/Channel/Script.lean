/-
# Scripts of a channel's jobs

The scripts a device may hash on a job, and where the bytes of the channel and of the job
stand in them.  Two jobs have no script in common when such bytes differ and stand at the
same place, or when their scripts differ in length anyway (`disjoint_of_mark`,
`disjoint_of_id`).
-/
import Pickaxe.Channel.Space

namespace Pickaxe

open Lib Merge Jd

namespace Channel

section Places

/-- The script of a job's coinbase. -/
def script (job : Job) (bytes : Bytes) : Bytes :=
  match job.kind with
  | .own => job.template.scriptOf bytes
  | .custom _ => slice bytes 42 (42 + (bytes.getD 41 0).toNat)

/-- Where a channel's bytes start in the scripts of a job. -/
def channelStart (job : Job) : ℕ :=
  match job.kind with
  | .own => (space job).length
  | .custom _ => job.parts.pre.length - 42

/-- How many bytes the channel and its device have in the scripts of a job. -/
def channelBytes (c : Channel) (job : Job) : ℕ :=
  if c.kind = .standard ∧ job.template.jd = none then c.extranoncePrefix.length
  else c.extranoncePrefix.length + c.rolled

/-- The length of a job's scripts. -/
def scriptLength (c : Channel) (job : Job) : ℕ :=
  match job.kind with
  | .own => (space job).length + c.channelBytes job +
      job.template.padding ((jobBytes job.template job.id).length + c.channelBytes job)
  | .custom _ => job.parts.pre.length - 42 + (c.extranoncePrefix.length + c.rolled)

/-- The end of a channel's prefix, which every script carries: its id, or its lane. -/
def mark (c : Channel) : Bytes := c.extranoncePrefix.drop (c.extranoncePrefix.length - 4)

/-- Where the job's id starts in the scripts of a pool job. -/
def idStart (job : Job) : ℕ :=
  job.template.lead.length + ((job.template.jd.map fun plan => plan.upstreamPrefix.length).getD 0)

/-- The bytes of its id a pool job's scripts carry. -/
def idBytes (job : Job) : Bytes :=
  (u32Le job.id).take ((job.template.jd.map fun plan => plan.layout.1).getD 4)

/-- Scripts of one length have `place` at one place. -/
def Aligned (place : Job → ℕ) (c : Channel) (i : Job) (d : Channel) (j : Job) : Prop :=
  c.scriptLength i = d.scriptLength j → place i = place j

lemma jobBytes_eq (job : Job) : ∃ before after, jobBytes job.template job.id =
    before ++ idBytes job ++ after ∧ job.template.lead.length + before.length = idStart job := by
  unfold jobBytes idBytes idStart
  cases job.template.jd with
  | none => exact ⟨[], [], by simp, rfl⟩
  | some plan => exact ⟨plan.upstreamPrefix, plan.pad, rfl, rfl⟩

/-- Whether a pool job's scripts carry two bytes of its id only. -/
def compactId (job : Job) : Bool := job.template.jd.any fun plan => plan.compact

lemma idBytes_eq (job : Job) : idBytes job = (u32Le job.id).take (if compactId job then 2 else 4) := by
  unfold idBytes compactId
  cases job.template.jd with
  | none => rfl
  | some plan =>
    cases hcompact : plan.compact with
    | false => simp [JdPlan.layout, hcompact]
    | true => simp [JdPlan.layout, hcompact]

/-- The two low bytes of an id are its residue. -/
lemma mod_of_take_two {v w : UInt32} (h : (u32Le v).take 2 = (u32Le w).take 2) :
    v.toNat % 2 ^ 16 = w.toNat % 2 ^ 16 := by
  have hlow : ∀ u : UInt32, fromLe ((u32Le u).take 2) = u.toNat % 2 ^ 16 := fun u =>
    fromLe_leBytes 2 u.toNat
  rw [← hlow v, ← hlow w, h]

/-- Different ids differ in the bytes both scripts carry, unless two bytes are all of them. -/
lemma idBytes_ne {i j : Job} (hid : i.id ≠ j.id)
    (hlow : compactId i = true ∨ compactId j = true → i.id.toNat % 2 ^ 16 ≠ j.id.toNat % 2 ^ 16) :
    (idBytes i).take (idBytes j).length ≠ (idBytes j).take (idBytes i).length := by
  intro heq
  simp only [idBytes_eq, List.take_take, List.length_take, length_u32Le] at heq
  by_cases hcompact : compactId i = true ∨ compactId j = true
  · apply hlow hcompact
    apply mod_of_take_two
    rcases hcompact with h | h
    · cases hj : compactId j <;> simpa [h, hj] using heq
    · cases hi : compactId i <;> simpa [h, hi] using heq
  · simp only [not_or, Bool.not_eq_true] at hcompact
    simp only [hcompact.1, hcompact.2] at heq
    apply hid
    apply u32Le_injective
    rwa [List.take_of_length_le (by simp), List.take_of_length_le (by simp)] at heq

/-- Plain jobs on channels of one kind, or with heads of one length, are aligned. -/
lemma Plain.aligned {c d : Channel} {i j : Job} (hi : c.Plain i) (hj : d.Plain j)
    (h : c.kind = d.kind ∨ i.template.lead.length = j.template.lead.length) :
    Aligned channelStart c i d j := by
  intro hlength
  have hpad : ∀ {e : Channel} {job : Job}, e.Plain job →
      e.scriptLength job = channelStart job + (if e.kind = .standard then 16 else 24) ∧
        channelStart job = job.template.lead.length + 4 := by
    intro e job hplain
    have hbytes : (jobBytes job.template job.id).length = 4 := by
      rw [jobBytes, hplain.jd]
      exact length_u32Le _
    have hchannel : e.channelBytes job = if e.kind = .standard then 16 else 24 := by
      simp only [channelBytes, hplain.jd, hplain.salted, hplain.rolled, and_true]
      rfl
    have hnone : job.template.padding (4 + e.channelBytes job) = 0 := by
      unfold BchTemplate.padding
      rw [hchannel]
      split_ifs <;> omega
    have hspace : (space job).length = job.template.lead.length + 4 := by
      rw [space, List.length_append, hbytes]
    refine ⟨?_, ?_⟩
    · simp only [scriptLength, channelStart, hplain.kind, hbytes, hnone, Nat.add_zero]
      rw [hchannel]
    · simp only [channelStart, hplain.kind, hspace]
  obtain ⟨hc, hcs⟩ := hpad hi
  obtain ⟨hd, hds⟩ := hpad hj
  rcases h with h | h
  · rw [hc, hd, h] at hlength
    omega
  · rw [hcs, hds, h]

end Places

variable [Hasher]

/-- The scripts of the coinbases a device may hash on a job. -/
def scripts (c : Channel) (job : Job) : Set Bytes :=
  {b | ∃ e x, c.shareCoinbase job e = .ok x ∧ b = script job x.bytes}

omit [Hasher] in
/-- A standard channel's bytes: its mark ends its prefix, random or not. -/
lemma standardExtranonce_mark (c : Channel) (random : ℕ → UInt8) (id : UInt32)
    (template : BchTemplate) (fresh : Bool) (hkind : c.kind = .standard) :
    ∃ u v, c.standardExtranonce random id template fresh =
        jobBytes template id ++ (u ++ c.mark ++ v) ∧
      u.length = c.extranoncePrefix.length - 4 ∧
      (u ++ c.mark ++ v).length =
        if template.jd = none then c.extranoncePrefix.length
        else c.extranoncePrefix.length + c.rolled := by
  have hsplit : c.extranoncePrefix.take (c.extranoncePrefix.length - 4) ++ c.mark =
      c.extranoncePrefix := List.take_append_drop _ _
  have htake : (c.extranoncePrefix.take (c.extranoncePrefix.length - 4)).length =
      c.extranoncePrefix.length - 4 := by
    rw [List.length_take]
    omega
  unfold standardExtranonce
  cases hjd : template.jd with
  | none =>
    simp only [Option.isSome_none, Bool.false_eq_true, false_and, if_false, if_true]
    split_ifs with hfresh
    · refine ⟨(List.range (c.extranoncePrefix.length - 4)).map random, [], by simp [mark], by simp,
        ?_⟩
      simp only [mark, List.length_append, List.length_map, List.length_range, List.length_drop,
        List.length_nil]
      omega
    · exact ⟨_, [], by rw [List.append_nil, hsplit], htake, by rw [List.append_nil, hsplit]⟩
  | some plan =>
    simp only [Option.isSome_some, hkind, and_self, if_true, reduceCtorEq, if_false]
    refine ⟨_, if fresh then (List.range c.rolled).map random else List.replicate c.rolled 0,
      by rw [hsplit], htake, ?_⟩
    rw [hsplit, List.length_append]
    split_ifs
    · simp
    · simp

/-- A script of a pool job: its space, the channel's bytes and padding. -/
lemma Built.script_eq {c : Channel} {job : Job} (hbuilt : c.Built job) (hown : job.kind = .own)
    {b : Bytes} (hb : b ∈ c.scripts job) :
    ∃ u v, b = Channel.space job ++ (u ++ c.mark ++ v) ∧ u.length = c.extranoncePrefix.length - 4 ∧
      b.length = c.scriptLength job := by
  obtain ⟨e, x, hx, rfl⟩ := hb
  obtain ⟨y, _, _, _, _, _, hx, -, hy⟩ := hbuilt e x hx
  have hbytes : ∃ u v, y = u ++ c.mark ++ v ∧ u.length = c.extranoncePrefix.length - 4 ∧
      y.length = c.channelBytes job := by
    unfold channelBytes
    cases hkind : c.kind with
    | standard =>
      simp only [hkind] at hy
      obtain ⟨random, fresh, hy⟩ := hy
      obtain ⟨u, v, heq, hu, hlength⟩ :=
        c.standardExtranonce_mark random job.id job.template fresh hkind
      have hy' := List.append_cancel_left (hy.trans heq)
      refine ⟨u, v, hy', hu, ?_⟩
      rw [hy', hlength]
      simp
    | extended =>
      simp only [hkind] at hy
      refine ⟨c.extranoncePrefix.take (c.extranoncePrefix.length - 4), e, ?_, ?_, ?_⟩
      · rw [hy.1, mark, List.take_append_drop]
      · rw [List.length_take]
        omega
      · rw [hy.1, List.length_append, hy.2]
        simp
  obtain ⟨u, v, hy', hu, hlength⟩ := hbytes
  have hscript := (BchTemplate.script_coinbaseWithAux hx).1
  refine ⟨u, v ++ List.replicate (job.template.padding (jobBytes job.template job.id ++ y).length) 0,
    ?_, hu, ?_⟩
  · simp only [script, hown, hscript, Channel.space]
    rw [hy']
    simp only [List.append_assoc]
  · simp only [script, scriptLength, hown, hscript, Channel.space, List.length_append,
      List.length_replicate, hlength]
    omega

/-- A script of a client's job. -/
lemma Shaped.script_eq {c : Channel} {job : Job} (hshaped : c.Shaped job) {t : UInt32}
    (hcustom : job.kind = .custom t) {b : Bytes} (hb : b ∈ c.scripts job) :
    ∃ e, b = job.parts.pre.drop 42 ++ (c.extranoncePrefix ++ e) ∧ e.length = c.rolled ∧
      b.length = c.scriptLength job := by
  obtain ⟨e, x, hx, rfl⟩ := hb
  obtain ⟨he, rfl⟩ := hshaped.coinbase hx
  have hpre := hshaped.length_pre
  have hle := hshaped.script_le
  have hget : (rebuild job.parts c.extranoncePrefix e).bytes.getD 41 0 =
      UInt8.ofNat (job.parts.pre.length - 42 + (c.extranoncePrefix.length + c.rolled)) := by
    simp only [rebuild, List.append_assoc]
    rw [List.getD_eq_getElem?_getD, List.getElem?_append_left (by omega), hshaped.scriptLen]
    rfl
  have hbyte : (UInt8.ofNat (job.parts.pre.length - 42 +
      (c.extranoncePrefix.length + c.rolled))).toNat =
        job.parts.pre.length - 42 + (c.extranoncePrefix.length + c.rolled) := by
    rw [UInt8.toNat_ofNat']
    omega
  have hsplit : (rebuild job.parts c.extranoncePrefix e).bytes = job.parts.pre.take 42 ++
      (job.parts.pre.drop 42 ++ (c.extranoncePrefix ++ e)) ++ job.parts.suffix := by
    rw [← List.append_assoc (job.parts.pre.take 42), List.take_append_drop, rebuild]
    simp only [List.append_assoc]
  have hscript : script job (rebuild job.parts c.extranoncePrefix e).bytes =
      job.parts.pre.drop 42 ++ (c.extranoncePrefix ++ e) := by
    simp only [script, hcustom]
    rw [hget, hbyte, hsplit]
    refine slice_append ?_ ?_
    · rw [List.length_take]
      omega
    · simp only [List.length_append, List.length_drop, he]
  refine ⟨e, hscript, he, ?_⟩
  rw [hscript]
  simp only [scriptLength, hcustom, List.length_append, List.length_drop, he]

/-- Every script of a job has one length and carries its channel's mark at one place. -/
lemma Makes.mark {c : Channel} {job : Job} (hmakes : c.Makes job) {b : Bytes}
    (hb : b ∈ c.scripts job) : ∃ u v, b = u ++ (c.mark ++ v) ∧
      u.length = channelStart job + (c.extranoncePrefix.length - 4) ∧
      b.length = c.scriptLength job := by
  unfold Makes at hmakes
  split_ifs at hmakes
  · obtain ⟨⟨t, hcustom⟩, hshaped⟩ := hmakes
    obtain ⟨e, rfl, -, hlength⟩ := hshaped.script_eq hcustom hb
    refine ⟨job.parts.pre.drop 42 ++
      c.extranoncePrefix.take (c.extranoncePrefix.length - 4), e, ?_, ?_, hlength⟩
    · rw [List.append_assoc, ← List.append_assoc (c.extranoncePrefix.take _), Channel.mark,
        List.take_append_drop]
    · simp only [channelStart, hcustom, List.length_append, List.length_drop, List.length_take]
      omega
  · obtain ⟨u, v, rfl, hu, hlength⟩ := hmakes.2.script_eq hmakes.1 hb
    refine ⟨space job ++ u, v, by simp only [List.append_assoc], ?_, hlength⟩
    simp only [channelStart, hmakes.1, List.length_append, hu]

/-- Channels with different marks have no script in common. -/
lemma disjoint_of_mark {c d : Channel} {i j : Job} (hc : c.Makes i) (hd : d.Makes j)
    (hlength : c.extranoncePrefix.length = d.extranoncePrefix.length) (hne : c.mark ≠ d.mark)
    (haligned : Aligned channelStart c i d j) : Disjoint (c.scripts i) (d.scripts j) := by
  rw [Set.disjoint_left]
  intro b hb hb'
  obtain ⟨u, v, hu, hulen, hblen⟩ := hc.mark hb
  obtain ⟨u', v', hu', hulen', hblen'⟩ := hd.mark hb'
  have hstart := haligned (hblen.symm.trans hblen')
  have hmark : c.mark.length = d.mark.length := by
    simp only [Channel.mark, List.length_drop, hlength]
  have hsplit := List.append_inj (hu.symm.trans hu') (by omega)
  exact hne (List.append_inj hsplit.2 hmark).1

/-- Two pool jobs of a channel with different ids in their scripts have no script in common. -/
lemma disjoint_of_id {c : Channel} {i j : Job} (hi : c.Makes i) (hj : c.Makes j)
    (hdevice : c.customOnly = false)
    (hne : (idBytes i).take (idBytes j).length ≠ (idBytes j).take (idBytes i).length)
    (haligned : Aligned idStart c i c j) : Disjoint (c.scripts i) (c.scripts j) := by
  have hplace : ∀ {job : Job} {b : Bytes}, c.Makes job → b ∈ c.scripts job →
      b.length = c.scriptLength job ∧ ∃ u v, b = u ++ (idBytes job ++ v) ∧ u.length = idStart job := by
    intro job b hmakes hb
    rw [Makes, hdevice] at hmakes
    obtain ⟨u, v, rfl, -, hlength⟩ := hmakes.2.script_eq hmakes.1 hb
    obtain ⟨before, after, hbytes, hbefore⟩ := jobBytes_eq job
    refine ⟨hlength, job.template.lead ++ before, after ++ (u ++ c.mark ++ v), ?_, ?_⟩
    · rw [space, hbytes]
      simp only [List.append_assoc]
    · rw [List.length_append, hbefore]
  rw [Set.disjoint_left]
  intro b hb hb'
  obtain ⟨hblen, u, v, hu, hulen⟩ := hplace hi hb
  obtain ⟨hblen', u', v', hu', hulen'⟩ := hplace hj hb'
  have hstart := haligned (hblen.symm.trans hblen')
  have hrest := (List.append_inj (hu.symm.trans hu') (by omega)).2
  apply hne
  -- the bytes both carry
  have htake := congrArg (List.take (min (idBytes i).length (idBytes j).length)) hrest
  rw [List.take_append_of_le_length (by omega), List.take_append_of_le_length (by omega)] at htake
  rcases le_total (idBytes i).length (idBytes j).length with hle | hle
  · rw [min_eq_left hle] at htake
    rw [List.take_of_length_le hle, ← htake, List.take_length]
  · rw [min_eq_right hle] at htake
    rw [List.take_of_length_le (l := idBytes j) hle, htake, List.take_length]

end Channel

end Pickaxe
