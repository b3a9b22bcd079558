/-
# The height in a coinbase's script

A coinbase starts with a push of its block's height.  `height_script` writes it, in the form of a
script number, and `coinbase_height` reads it as the covenant does.  `coinbaseHeight_eq_some` says
which heads are read, by the shortest form of the number, and `heightScript_eq` that this form is
what is written.
-/
import Pickaxe.Safa.Compact
import Pickaxe.Safa.Thread
import Pickaxe.Template
import Mathlib.Data.List.TakeWhile

namespace Pickaxe.Safa

open Lib Merge

/-- A push of up to 75 bytes. -/
def pushOf (bytes : Bytes) : Bytes := UInt8.ofNat bytes.length :: bytes

lemma toNat_length {b : Bytes} (h : b.length < 256) : (UInt8.ofNat b.length).toNat = b.length :=
  UInt8.toNat_ofNat_of_lt' h

/-! ## What is written -/

/-- A string without the zeros at its end. -/
lemma exists_trimmed {b : Bytes} (h : fromLe b ≠ 0) : ∃ (init : Bytes) (last : UInt8),
    last.toNat ≠ 0 ∧ fromLe (init ++ [last]) = fromLe b ∧ init.length < b.length ∧
      (b.reverse.dropWhile (· = 0)).reverse = init ++ [last] := by
  have hsplit := List.takeWhile_append_dropWhile (p := fun x : UInt8 => decide (x = 0)) (l := b.reverse)
  have hzeros : b.reverse.takeWhile (· = 0) =
      List.replicate (b.reverse.takeWhile (· = 0)).length 0 := by
    refine List.eq_replicate_of_mem fun x hx => ?_
    simpa using List.mem_takeWhile_imp hx
  have hbytes : b = (b.reverse.dropWhile (· = 0)).reverse ++
      List.replicate (b.reverse.takeWhile (· = 0)).length 0 := by
    have hreverse := congrArg List.reverse hsplit
    rw [List.reverse_append, List.reverse_reverse, hzeros, List.reverse_replicate] at hreverse
    exact hreverse.symm
  have hfrom : fromLe (b.reverse.dropWhile (· = 0)).reverse = fromLe b := by
    conv_rhs => rw [hbytes]
    rw [fromLe_append, fromLe_replicate_zero, Nat.mul_zero, Nat.add_zero]
  cases hdrop : b.reverse.dropWhile (· = 0) with
  | nil =>
    rw [hdrop] at hfrom
    exact absurd hfrom.symm h
  | cons last rest =>
    rw [hdrop, List.reverse_cons] at hfrom
    have hlast : last ≠ 0 := by
      intro hzero
      have hhead := List.head?_dropWhile_not (fun x : UInt8 => decide (x = 0)) b.reverse
      simp [hdrop, hzero] at hhead
    refine ⟨rest.reverse, last, fun hzero => hlast (UInt8.toNat_inj.mp hzero), hfrom, ?_,
      List.reverse_cons⟩
    have hlength := congrArg List.length hsplit
    rw [hdrop] at hlength
    simp at hlength ⊢
    omega

/-- From 17 on, the height is pushed in its shortest form. -/
lemma heightScript_eq {height : UInt32} (h : 17 ≤ height.toNat) : ∃ b : Bytes, Script.Minimal b ∧
    fromLe b = height.toNat ∧ b.length ≤ 5 ∧ heightScript height = pushOf b := by
  have hvalue : fromLe (u32Le height) = height.toNat := fromLe_leBytes_of_lt height.toNat_lt
  obtain ⟨init, last, hlast, hfrom, hlength, htrimmed⟩ :=
    exists_trimmed (b := u32Le height) (by omega)
  rw [length_u32Le] at hlength
  have hzero : height ≠ 0 := by
    rintro rfl
    exact absurd h (by decide)
  have hsmall : ¬ height ≤ 16 := by
    rw [UInt32.le_iff_toNat_le]
    simp
    omega
  have hsign : 0x80 ≤ last ↔ 0x80 ≤ last.toNat := UInt8.le_iff_toNat_le
  refine ⟨if 0x80 ≤ last.toNat then init ++ [last] ++ [0] else init ++ [last],
    ⟨init, last, hlast, rfl⟩, ?_, ?_, ?_⟩
  · split_ifs
    · rw [fromLe_append, hfrom, hvalue]
      simp [fromLe_cons]
    · rw [hfrom, hvalue]
  · split_ifs <;> simp <;> omega
  · unfold heightScript
    rw [if_neg hzero, if_neg hsmall]
    simp only [htrimmed, List.getLastD_concat, hsign]
    rfl

/-! ## What is read -/

/-- The script of a coinbase with this head. -/
def scriptOf (head : Bytes) : Bytes := slice head 42 (42 + (head.getD 41 0).toNat)

lemma minimal_concat {init : Bytes} {last : UInt8} : Script.Minimal (init ++ [last]) ↔
    (last.toNat ≠ 0 ∧ last.toNat < 0x80) ∨
      (last = 0 ∧ ∃ pre prev, init = pre ++ [prev] ∧ 0x80 ≤ prev.toNat) := by
  constructor
  · rintro ⟨pre, prev, hprev, heq⟩
    split_ifs at heq with hsign
    · obtain ⟨rfl, hlast⟩ := List.append_inj' heq rfl
      exact .inr ⟨by simpa using hlast, pre, prev, rfl, hsign⟩
    · obtain ⟨rfl, hlast⟩ := List.append_inj' heq rfl
      obtain rfl : last = prev := by simpa using hlast
      exact .inl ⟨hprev, not_le.mp hsign⟩
  · rintro (⟨hlast, hlt⟩ | ⟨rfl, pre, prev, rfl, hprev⟩)
    · exact ⟨init, last, hlast, by rw [if_neg (by omega)]⟩
    · exact ⟨pre, prev, by omega, by rw [if_pos hprev]⟩

/-- The check `coinbase_height` makes of a push. -/
lemma minimal_iff {b : Bytes} (h : b ≠ []) : Script.Minimal b ↔
    ¬ (b.getD (b.length - 1) 0 &&& 0x80 ≠ 0 ∨ (b.getD (b.length - 1) 0 = 0 ∧
      (b.length = 1 ∨ b.getD (b.length - 2) 0 &&& 0x80 = 0))) := by
  obtain rfl | ⟨init, last, rfl⟩ := List.eq_nil_or_concat' b
  · exact absurd rfl h
  have hlast : (init ++ [last]).getD ((init ++ [last]).length - 1) 0 = last := by simp
  rw [hlast, minimal_concat, sign_bit]
  have hzero : last = 0 ↔ last.toNat = 0 := by rw [← UInt8.toNat_inj]; rfl
  obtain rfl | ⟨pre, prev, rfl⟩ := List.eq_nil_or_concat' init
  · simp [hzero]
    omega
  · have hprev : (pre ++ [prev] ++ [last]).getD ((pre ++ [prev] ++ [last]).length - 2) 0 = prev := by
      simp
    have hlength : (pre ++ [prev] ++ [last]).length ≠ 1 := by simp
    rw [hprev, ← not_ne_iff (a := prev &&& 0x80), sign_bit, hzero]
    have hpre : (∃ pre' prev', pre ++ [prev] = pre' ++ [prev'] ∧ 0x80 ≤ prev'.toNat) ↔
        0x80 ≤ prev.toNat := by
      constructor
      · rintro ⟨pre', prev', heq, hsign⟩
        obtain ⟨-, hlast⟩ := List.append_inj' heq rfl
        rwa [List.cons.inj hlast |>.1]
      · exact fun hsign => ⟨pre, prev, rfl, hsign⟩
    rw [hpre]
    omega

/-- The heads `coinbase_height` reads: their scripts start with the shortest form of the height. -/
lemma coinbaseHeight_eq_some {head : Bytes} {n : ℕ} : coinbaseHeight head = some n ↔
    checkHead head = .ok () ∧ ∃ b : Bytes, Script.Minimal b ∧ b.length ≤ 5 ∧
      pushOf b <+: scriptOf head ∧ fromLe b = n := by
  unfold coinbaseHeight
  cases hcheck : checkHead head with
  | error e => simp
  | ok u =>
    obtain ⟨length, hlength, hhead⟩ := checkHead_eq_ok hcheck
    obtain ⟨push, hpush⟩ : ∃ push, head[42]? = some push :=
      ⟨_, List.getElem?_eq_getElem (show 42 < head.length by omega)⟩
    have hdrop : head.drop 42 = push :: head.drop 43 := by
      rw [drop_eq_getD_cons (show 42 < head.length by omega), List.getD_eq_getElem?_getD, hpush]
      rfl
    -- the script is the push's length and what follows, cut at the script's length
    have hscript : scriptOf head = (push :: head.drop 43).take length.toNat := by
      rw [scriptOf, List.getD_eq_getElem?_getD, hlength, slice, hdrop, Nat.add_sub_cancel_left]
      rfl
    have hrest : (head.drop 43).length = 4 + length.toNat := by
      rw [List.length_drop]
      omega
    simp only [hlength, hpush, Option.bind_eq_bind, Option.bind_some, true_and, hscript]
    constructor
    · intro h
      split_ifs at h with hrange
      push Not at hrange
      obtain ⟨hpos, hfive, hfits⟩ := hrange
      obtain ⟨bytes, hslice, h⟩ := Option.bind_eq_some_iff.mp h
      obtain ⟨-, -, rfl⟩ := slice?_eq_some.mp hslice
      have hlen : (slice head 43 (43 + push.toNat)).length = push.toNat := by
        rw [length_slice (by omega)]
        omega
      split_ifs at h with hminimal
      refine ⟨slice head 43 (43 + push.toNat), ?_, by omega, ?_, Option.some.inj h⟩
      · rw [minimal_iff (by rintro hnil; rw [hnil] at hlen; simp at hlen; omega), hlen]
        have hone : push.toNat = 1 ↔ push = 1 := by rw [← UInt8.toNat_inj]; rfl
        rwa [hone]
      · have hlen8 : UInt8.ofNat (slice head 43 (43 + push.toNat)).length = push := by
          rw [hlen, UInt8.ofNat_toNat]
        obtain ⟨m, hm⟩ : ∃ m, length.toNat = m + 1 := ⟨length.toNat - 1, by omega⟩
        rw [pushOf, hlen8, hm, List.take_succ_cons, List.cons_prefix_cons]
        refine ⟨rfl, ?_⟩
        rw [slice, Nat.add_sub_cancel_left]
        exact List.take_prefix_take_left (by omega)
    · rintro ⟨b, hminimal, hfive, hpre, rfl⟩
      have hpos : 0 < b.length := List.length_pos_of_ne_nil hminimal.ne_nil
      have hlong := hpre.length_le
      rw [pushOf, List.length_cons, List.length_take, List.length_cons] at hlong
      obtain ⟨m, hm⟩ : ∃ m, length.toNat = m + 1 := ⟨length.toNat - 1, by omega⟩
      rw [pushOf, hm, List.take_succ_cons, List.cons_prefix_cons] at hpre
      obtain ⟨hpushEq, hpre⟩ := hpre
      have hpushNat : push.toNat = b.length := by
        rw [← hpushEq, toNat_length (by omega)]
      have hslice : slice? head 43 (43 + push.toNat) = some b := by
        refine slice?_eq_some.mpr ⟨by omega, by omega, ?_⟩
        rw [slice, Nat.add_sub_cancel_left, hpushNat]
        exact (List.prefix_iff_eq_take.mp (hpre.trans (List.take_prefix _ _))).symm
      have hone : push = 1 ↔ b.length = 1 := by
        rw [← hpushNat, ← UInt8.toNat_inj]
        rfl
      rw [if_neg (by omega), hslice, Option.bind_some, if_neg]
      rw [hone, hpushNat]
      exact (minimal_iff hminimal.ne_nil).mp hminimal

/-- A height from 17 on is read from every coinbase whose script starts with its push, and a script a
height is read from starts with the push of that height, as long as it is one of 32 bits. -/
lemma coinbaseHeight_iff {head : Bytes} {height : UInt32} (h : 17 ≤ height.toNat) :
    coinbaseHeight head = some height.toNat ↔
      checkHead head = .ok () ∧ heightScript height <+: scriptOf head := by
  obtain ⟨b, hminimal, hfrom, hlength, hscript⟩ := heightScript_eq h
  rw [coinbaseHeight_eq_some, hscript]
  refine and_congr_right fun _ => ⟨?_, fun hpre => ⟨b, hminimal, hlength, hpre, hfrom⟩⟩
  rintro ⟨b', hminimal', -, hpre, hfrom'⟩
  rwa [hminimal.inj hminimal' (hfrom.trans hfrom'.symm)]

end Pickaxe.Safa
