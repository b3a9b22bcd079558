/-
# Hash chains

In a hash chain each link names the hash of the link before it, and the first names a root.  Two
equal links would have equal links before them, down to the first: a chain has no link twice unless
the hash takes two links, or a link and nothing, to one value.
-/
import Mathlib.Data.List.Nodup
import Mathlib.Data.Set.Function

namespace Pickaxe.Lib

variable {α β : Type} {hash prev : α → β} {root : β} {links : List α} {link : α}

/-- Each link names the hash of the one before it, and the first names `root`. -/
def HashChain (hash prev : α → β) (root : β) : List α → Prop
  | [] => True
  | link :: rest => prev link = root ∧ HashChain hash prev (hash link) rest

namespace HashChain

@[simp] lemma nil : HashChain hash prev root [] := trivial

@[simp] lemma cons_iff : HashChain hash prev root (link :: links) ↔
    prev link = root ∧ HashChain hash prev (hash link) links := Iff.rfl

/-- What the next link names. -/
def tip (hash : α → β) (root : β) (links : List α) : β := (links.getLast?.map hash).getD root

@[simp] lemma tip_nil : tip hash root [] = root := rfl

@[simp] lemma tip_append : tip hash root (links ++ [link]) = hash link := by simp [tip]

lemma append_iff : HashChain hash prev root (links ++ [link]) ↔
    HashChain hash prev root links ∧ prev link = tip hash root links := by
  induction links generalizing root with
  | nil => simp
  | cons first rest ih =>
    have htip : tip hash root (first :: rest) = tip hash (hash first) rest := by
      cases rest with
      | nil => simp [tip]
      | cons second rest => simp [tip, List.getLast?_cons]
    rw [List.cons_append, cons_iff, ih, htip, cons_iff, and_assoc]

/-- A link names the root or the hash of a link. -/
lemma prev_of_mem (h : HashChain hash prev root links) (hmem : link ∈ links) :
    prev link = root ∨ ∃ before ∈ links, prev link = hash before := by
  induction links generalizing root with
  | nil => cases hmem
  | cons first rest ih =>
    rcases List.mem_cons.mp hmem with rfl | hrest
    · exact .inl h.1
    rcases ih h.2 hrest with hfirst | ⟨before, hbefore, hprev⟩
    · exact .inr ⟨first, List.mem_cons_self, hfirst⟩
    · exact .inr ⟨before, List.mem_cons_of_mem first hbefore, hprev⟩

/-- No link comes twice, unless the hash collides or takes a link to the root. -/
theorem nodup (h : HashChain hash prev root links) (hinj : Set.InjOn hash {x | x ∈ links})
    (hroot : ∀ x ∈ links, hash x ≠ root) : links.Nodup := by
  induction links generalizing root with
  | nil => exact List.nodup_nil
  | cons first rest ih =>
    have hfirst : first ∉ rest := by
      intro hmem
      -- the later one would name a link's hash, and the first names the root
      rcases prev_of_mem h.2 hmem with hprev | ⟨before, hbefore, hprev⟩
      · exact hroot first List.mem_cons_self (hprev.symm.trans h.1)
      · exact hroot before (List.mem_cons_of_mem first hbefore) (hprev.symm.trans h.1)
    refine List.nodup_cons.mpr ⟨hfirst, ih h.2 (hinj.mono fun x => List.mem_cons_of_mem first) ?_⟩
    intro x hx heq
    obtain rfl := hinj (List.mem_cons_of_mem first hx) List.mem_cons_self heq
    exact hfirst hx

end HashChain

end Pickaxe.Lib
