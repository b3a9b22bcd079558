/-
# Files, servers and the relay

What the operations of the claim path do.  The files change as the operations on them say, a
failed operation changing nothing but the file it was writing; a server may answer anything; and
the thread that was handed a claim may send it to further servers at any later time.  Everything
that happens is noted together with the files at that moment.
-/
import Pickaxe.Photon.Submit

namespace Pickaxe.Photon

open Lib

/-- The files of a claim. -/
abbrev Disk := Path → Option (List Char)

/-- The files with one of them changed. -/
def Disk.set (d : Disk) (path : Path) (content : Option (List Char)) : Disk :=
  fun p => if p = path then content else d p

namespace Disk

variable {d : Disk} {path path' : Path} {content : Option (List Char)}

@[simp] lemma set_self : d.set path content path = content := if_pos rfl

lemma set_of_ne (h : path' ≠ path) : d.set path content path' = d path' := if_neg h

end Disk

/-- What an operation does to the files, for each of its answers. -/
def Acts (d : Disk) : (q : Op) → Answer q → Disk → Prop
  | .present path, a, d' => a = (d path).isSome ∧ d' = d
  | .read path, a, d' => d' = d ∧ ((∃ e, a = .error e) ∨ a = .ok (d path))
  | .create path, a, d' =>
    (∃ e, a = .error e ∧ d' = d) ∨ (a = .ok () ∧ d path = none ∧ d' = d.set path (some []))
  | .write path content, a, d' =>
    (∃ e torn, a = .error e ∧ d' = d.set path (some torn)) ∨
      (a = .ok () ∧ d' = d.set path (some content))
  | .rename source target, a, d' =>
    (∃ e, a = .error e ∧ d' = d) ∨
      (a = .ok () ∧ (d source).isSome = true ∧ d' = (d.set source none).set target (d source))
  | .remove path, a, d' =>
    (∃ e, a = .error e ∧ d' = d) ∨ (a = .ok (d path).isSome ∧ d' = d.set path none)
  | .sync _, _, d' | .makeDirectory, _, d' | .getTransaction _, _, d' | .fetchLiveJob, _, d'
  | .testMempoolAccept _, _, d' | .broadcast _ _, _, d' | .relay _, _, d' | .now, _, d' => d' = d

/-- What happens: an operation with its answer, or the relay's sending of a claim. -/
inductive Event where
  | did (q : Op) (a : Answer q)
  | relayed (rawTxHex : List Char)

/-- An event, and the files when it happens. -/
structure Entry where
  disk : Disk
  event : Event

/-- The files, the claims handed to the relay by the process that runs, and what has happened. -/
structure World where
  disk : Disk
  handed : List (List Char)
  log : List Entry

namespace World

/-- The relay sends claims it was handed. -/
def relaying (w : World) (sends : List (List Char)) : World :=
  { w with log := w.log ++ sends.map fun hex => ⟨w.disk, .relayed hex⟩ }

/-- An operation takes place. -/
def doing (w : World) (q : Op) (a : Answer q) (d : Disk) : World where
  disk := d
  handed := match q with
    | .relay hex => hex :: w.handed
    | _ => w.handed
  log := w.log ++ [⟨w.disk, .did q a⟩]

/-- One operation, with what the relay does before it. -/
def Answers (w : World) (q : Op) (a : Answer q) (w' : World) : Prop :=
  ∃ sends d, (∀ hex ∈ sends, hex ∈ w.handed) ∧ Acts w.disk q a d ∧
    w' = (w.relaying sends).doing q a d

@[simp] lemma disk_relaying (w : World) (sends : List (List Char)) :
    (w.relaying sends).disk = w.disk := rfl

@[simp] lemma handed_relaying (w : World) (sends : List (List Char)) :
    (w.relaying sends).handed = w.handed := rfl

@[simp] lemma disk_doing (w : World) (q : Op) (a : Answer q) (d : Disk) :
    (w.doing q a d).disk = d := rfl

lemma mem_log_relaying {w : World} {sends : List (List Char)} {e : Entry} :
    e ∈ (w.relaying sends).log ↔ e ∈ w.log ∨ ∃ hex ∈ sends, e = ⟨w.disk, .relayed hex⟩ := by
  simp only [relaying, List.mem_append, List.mem_map]
  refine or_congr_right (exists_congr fun hex => and_congr_right fun _ => ?_)
  exact eq_comm

lemma mem_log_doing {w : World} {q : Op} {a : Answer q} {d : Disk} {e : Entry} :
    e ∈ (w.doing q a d).log ↔ e ∈ w.log ∨ e = ⟨w.disk, .did q a⟩ := by
  simp [doing]

/-- The operations that took place, with their answers. -/
def heard (w : World) : List ((q : Op) × Answer q) := w.log.filterMap fun e => match e.event with
  | .did q a => some ⟨q, a⟩
  | .relayed _ => none

@[simp] lemma heard_relaying (w : World) (sends : List (List Char)) :
    (w.relaying sends).heard = w.heard := by
  have hnone : (sends.map fun hex => (⟨w.disk, .relayed hex⟩ : Entry)).filterMap (fun e =>
      match e.event with
      | .did q a => some (⟨q, a⟩ : (q : Op) × Answer q)
      | .relayed _ => none) = [] := by
    rw [List.filterMap_eq_nil_iff]
    intro e he
    obtain ⟨hex, -, rfl⟩ := List.mem_map.mp he
    rfl
  rw [heard, relaying, List.filterMap_append, hnone, List.append_nil]
  rfl

@[simp] lemma heard_doing (w : World) (q : Op) (a : Answer q) (d : Disk) :
    (w.doing q a d).heard = w.heard ++ [⟨q, a⟩] := by
  show (w.log ++ [(⟨w.disk, .did q a⟩ : Entry)]).filterMap _ = _
  rw [List.filterMap_append]
  rfl

end World

/-! ## Files in place -/

/-- The files in place, but for some, are the same. -/
def Agrees (changed : Path → Prop) (d d' : Disk) : Prop :=
  ∀ path, path.temporary = false → ¬ changed path → d' path = d path

/-- The files in place are the same. -/
abbrev Same (d d' : Disk) : Prop := Agrees (fun _ => False) d d'

section Agrees

variable {changed changed' : Path → Prop} {d d' d'' : Disk}

lemma Agrees.refl (d : Disk) : Agrees changed d d := fun _ _ _ => rfl

lemma Agrees.of_eq (h : d' = d) : Agrees changed d d' := fun path _ _ => congrFun h path

lemma Agrees.trans (h : Agrees changed d d') (h' : Agrees changed d' d'') : Agrees changed d d'' :=
  fun path hpath hnot => (h' path hpath hnot).trans (h path hpath hnot)

lemma Agrees.mono (h : Agrees changed d d') (himp : ∀ path, changed path → changed' path) :
    Agrees changed' d d' := fun path hpath hnot => h path hpath (mt (himp path) hnot)

lemma Same.agrees (h : Same d d') : Agrees changed d d' := h.mono fun _ => False.elim

lemma same_set (path : Path) (hpath : path.temporary = true) (content : Option (List Char)) :
    Same d (d.set path content) := by
  intro p hp _
  apply Disk.set_of_ne
  rintro rfl
  rw [hp] at hpath
  cases hpath

end Agrees

/-- The paths of the two markers. -/
def Path.IsMarker (path : Path) : Prop := path = .attempted ∨ path = .accepted

/-- The operations that leave the files in place alone, send nothing and look for no orphan. -/
def Op.Quiet : Op → Prop
  | .present path => ¬ path.IsMarker
  | .create path | .write path _ | .remove path => path.temporary = true
  | .rename source target => source.temporary = true ∧ target.temporary = true
  | .broadcast _ _ | .relay _ => False
  | _ => True

lemma Acts.same {d d' : Disk} {q : Op} {a : Answer q} (h : Acts d q a d') (hq : q.Quiet) :
    Same d d' := by
  cases q with
  | present path => exact Agrees.of_eq h.2
  | read path => exact Agrees.of_eq h.1
  | create path =>
    rcases h with ⟨e, -, rfl⟩ | ⟨-, -, rfl⟩
    · exact Agrees.refl _
    · exact same_set path hq _
  | write path content =>
    rcases h with ⟨e, torn, -, rfl⟩ | ⟨-, rfl⟩
    · exact same_set path hq _
    · exact same_set path hq _
  | rename source target =>
    rcases h with ⟨e, -, rfl⟩ | ⟨-, -, rfl⟩
    · exact Agrees.refl _
    · exact (same_set source hq.1 _).trans (same_set target hq.2 _)
  | remove path =>
    rcases h with ⟨e, -, rfl⟩ | ⟨-, rfl⟩
    · exact Agrees.refl _
    · exact same_set path hq _
  | sync path => exact Agrees.of_eq h
  | makeDirectory => exact Agrees.of_eq h
  | getTransaction txid => exact Agrees.of_eq h
  | fetchLiveJob => exact Agrees.of_eq h
  | testMempoolAccept hex => exact Agrees.of_eq h
  | broadcast via hex => exact hq.elim
  | relay hex => exact hq.elim
  | now => exact Agrees.of_eq h

end Pickaxe.Photon
