/-
# Which entries a set keeps

When no layout holds all entries of a token set, they join in the order of their priorities, and
one that fits beside those kept so far stays.  That loop is the greedy one of `Lib/Greedy.lean`
(`keep_foldl_join`), so every entry is kept or left out by what is ahead of it alone
(`new_selects`).
-/
import Pickaxe.Lib.Greedy
import Pickaxe.Merge.Verify

namespace Pickaxe.Merge.TokenSet

open Lib

/-- The priority of the entry at an index. -/
def priorityAt (entries : List SetEntry) (index : ℕ) : ℕ :=
  ((entries[index]?).map fun e => e.token.priority.toNat).getD 0

/-- The entry at `i` joins before the one at `j`: its priority is higher, or it is the earlier of
two with one priority. -/
def Ahead (entries : List SetEntry) (i j : ℕ) : Prop :=
  priorityAt entries j < priorityAt entries i ∨
    (priorityAt entries i = priorityAt entries j ∧ i < j)

instance (entries : List SetEntry) : DecidableRel (Ahead entries) :=
  fun _ _ => inferInstanceAs (Decidable (_ ∨ _))

lemma Ahead.asymm {entries : List SetEntry} {i j : ℕ} (h : Ahead entries i j) :
    ¬ Ahead entries j i := by
  unfold Ahead at *
  omega

lemma pairwise_joinOrder (entries : List SetEntry) :
    (joinOrder entries).Pairwise (Ahead entries) := by
  let r : ℕ → ℕ → Prop := fun i j => priorityAt entries j < priorityAt entries i ∨
    (priorityAt entries i = priorityAt entries j ∧ i ≤ j)
  have htotal : Std.Total r := ⟨fun i j => by simp only [r]; omega⟩
  have htrans : IsTrans ℕ r := ⟨fun i j k => by simp only [r]; omega⟩
  have hsorted : (joinOrder entries).Pairwise r := List.pairwise_insertionSort r _
  refine (hsorted.and (nodup_joinOrder entries)).imp fun {i j} h => ?_
  obtain ⟨hlt | ⟨heq, hle⟩, hne⟩ := h
  · exact .inl hlt
  · exact .inr ⟨heq, Nat.lt_of_le_of_ne hle hne⟩

lemma kept_sublist (entries : List SetEntry) (keep : List Bool) :
    (kept entries keep).Sublist entries := by
  induction entries generalizing keep with
  | nil => exact List.Sublist.refl []
  | cons e entries ih =>
    cases keep with
    | nil => exact List.nil_sublist _
    | cons b keep =>
      cases b with
      | false => exact (ih keep).cons e
      | true => exact (ih keep).cons_cons e

lemma kept_append_leftOut {entries : List SetEntry} {keep : List Bool}
    (h : keep.length = entries.length) : (kept entries keep ++ leftOut entries keep).Perm entries := by
  have hperm := (List.filter_append_perm (fun p : SetEntry × Bool => p.2)
    (entries.zip keep)).map Prod.fst
  rw [List.map_append, List.map_fst_zip h.ge] at hperm
  exact hperm

lemma kept_all (entries : List SetEntry) :
    kept entries (List.replicate entries.length true) = entries ∧
      leftOut entries (List.replicate entries.length true) = [] := by
  induction entries with
  | nil => exact ⟨rfl, rfl⟩
  | cons e entries ih => exact ⟨congrArg (e :: ·) ih.1, ih.2⟩

variable [Hasher]

/-- Whether a layout holds the entries a mask marks. -/
def fits (entries : List SetEntry) (mask : List Bool) : Bool := (search (kept entries mask)).isSome

lemma keep_join (entries : List SetEntry) (t : Trial) (index : ℕ) :
    (join entries t index).keep = Greedy.mark (fits entries) t.keep index := by
  unfold join Greedy.mark fits
  cases hsearch : search (kept entries (t.keep.set index true)) with
  | none => simp [hsearch]
  | some layout => simp [hsearch]

lemma keep_foldl_join (entries : List SetEntry) (order : List ℕ) (t : Trial) :
    (order.foldl (join entries) t).keep = Greedy.run (fits entries) order t.keep := by
  induction order generalizing t with
  | nil => rfl
  | cons index order ih =>
    rw [List.foldl_cons, ih, keep_join]
    rfl

/-- `keep` is what a set keeps of `entries`: all of them if a layout holds them, else exactly those
that a layout holds beside the kept ones ahead of them. -/
structure Selects (entries : List SetEntry) (keep : List Bool) : Prop where
  length_eq : keep.length = entries.length
  whole : (search entries).isSome = true → keep = List.replicate entries.length true
  greedy : search entries = none → ∀ i < entries.length,
    keep[i]? = some (fits entries (Greedy.beside (Ahead entries) keep i))

lemma selects_fit {entries stay dropped : List SetEntry} {layout : Layout}
    (h : fit entries = .ok (stay, layout, dropped)) :
    ∃ keep, Selects entries keep ∧ stay = kept entries keep ∧ dropped = leftOut entries keep := by
  unfold fit at h
  split at h
  · rename_i found hfound
    cases h
    obtain ⟨hkept, hleft⟩ := kept_all entries
    refine ⟨_, ⟨List.length_replicate, fun _ => rfl, fun hnone => ?_⟩, hkept.symm, hleft.symm⟩
    rw [hfound] at hnone
    cases hnone
  · rename_i hnone
    simp only at h
    split at h
    · cases h
    · cases h
      refine ⟨_, ⟨?_, fun hsome => ?_, fun _ i hi => ?_⟩, rfl, rfl⟩
      · rw [keep_foldl_join, Greedy.length_run, List.length_replicate]
      · rw [hnone] at hsome
        cases hsome
      · rw [keep_foldl_join]
        exact Greedy.run_sorted (fits entries) (fun _ _ h => h.asymm)
          (List.perm_insertionSort _ _) (pairwise_joinOrder entries) hi

omit [Hasher] in
lemma addThreads_eq (set : TokenSet) (choices : List (Hash × ThreadChoice)) :
    (set.addThreads choices).entries = set.entries ∧ (set.addThreads choices).layout = set.layout ∧
      (set.addThreads choices).dropped = set.dropped := by
  induction choices generalizing set with
  | nil => exact ⟨rfl, rfl, rfl⟩
  | cons c choices ih => exact ih (set.withThreads c.1 c.2)

/-- What a set of `entries` keeps, with any thread choices: some of the entries in their order, of
distinct categories, with the layout the search finds for them.  The whole list is kept if a layout
holds it; otherwise an entry is kept just if a layout holds it beside the kept ones of higher
priority (or of the same, and earlier in the list), so none is left out for one behind it. -/
theorem new_selects {network : MiningNetwork} {entries : List SetEntry} {serial : UInt64}
    {set : TokenSet} (h : new network entries serial = .ok set)
    (choices : List (Hash × ThreadChoice)) :
    ∃ keep, (set.addThreads choices).entries = kept entries keep ∧
      (set.addThreads choices).dropped = leftOut entries keep ∧
      (set.addThreads choices).entries.Sublist entries ∧
      ((set.addThreads choices).entries ++ (set.addThreads choices).dropped).Perm entries ∧
      ((set.addThreads choices).entries.map fun e => e.token.category).Nodup ∧
      search (set.addThreads choices).entries = some (set.addThreads choices).layout ∧
      ((search entries).isSome = true → (set.addThreads choices).entries = entries ∧
        (set.addThreads choices).dropped = []) ∧
      (search entries = none → ∀ i < entries.length,
        keep[i]? = some (search (kept entries (Greedy.beside (Ahead entries) keep i))).isSome) := by
  obtain ⟨hentries, hlayout, hdropped⟩ := addThreads_eq set choices
  rw [hentries, hlayout, hdropped]
  have hsearch := (new_eq_ok h).1
  have hholds := (search_eq_some hsearch).1
  have hnodup := hholds.nodup
  rw [hholds.slots_eq] at hnodup
  unfold new at h
  rw [Except.ite_error_eq_ok, Except.ite_error_eq_ok, Except.bind_eq_ok] at h
  obtain ⟨-, -, -, -, h⟩ := h
  obtain ⟨⟨stay, layout, dropped⟩, hfit, h⟩ := Except.bind_eq_ok.mp h
  simp only at h
  split at h
  · cases h
  cases h
  obtain ⟨keep, hselects, rfl, rfl⟩ := selects_fit hfit
  refine ⟨keep, rfl, rfl, kept_sublist entries keep, kept_append_leftOut hselects.length_eq,
    hnodup.of_map, hsearch, fun hwhole => ?_, hselects.greedy⟩
  rw [hselects.whole hwhole]
  exact kept_all entries

section Sample

omit [Hasher]

/-- Two tokens, the first of which allows no tree. -/
def cappedEntries : List SetEntry :=
  sampleEntries.modify 0 fun e => { e with token := { e.token with maxAuxHeight := 0 } }

/-- The first one is kept, and leaves no room for the second. -/
theorem new_selects_sample :
    let _ : Hasher := Hasher.fips
    ∃ set keep, new .chipnet cappedEntries 1 = .ok set ∧ set.dropped.length = 1 ∧
      (set.addThreads []).entries = kept cappedEntries keep ∧
      keep[1]? = some (search (kept cappedEntries
        (Greedy.beside (Ahead cappedEntries) keep 1))).isSome := by
  intro _
  have hnew : (new .chipnet cappedEntries 1).toOption.any fun set =>
      set.dropped.length == 1 := by decide +kernel
  have hnone : search cappedEntries = none := by decide +kernel
  cases h : new .chipnet cappedEntries 1 with
  | error e =>
    rw [h] at hnew
    cases hnew
  | ok set =>
    rw [h] at hnew
    obtain ⟨keep, hkept, -, -, -, -, -, -, hgreedy⟩ := new_selects h []
    exact ⟨set, keep, rfl, by simpa [Except.toOption] using hnew, hkept, hgreedy hnone 1 (by decide)⟩

end Sample

end Pickaxe.Merge.TokenSet
