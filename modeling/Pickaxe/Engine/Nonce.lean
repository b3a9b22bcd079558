/-
# The nonce of a signature

The engine draws a signature's nonce by RFC 6979, once over bytes and once, for devices without them,
over words: a table of steps around one compression, that resumes hashes whose first blocks the host
has done.  The host draws it again for a signature that it rebuilds.
-/
import Pickaxe.Engine.Encoding
import Pickaxe.Engine.Hmac
import Pickaxe.Engine.Inverse

namespace Pickaxe.Engine

open Lib Sha256

/-! ## Over bytes -/

/-- `Schnorr+SHA256  `. -/
def tag : Bytes :=
  [0x53, 0x63, 0x68, 0x6e, 0x6f, 0x72, 0x72, 0x2b, 0x53, 0x48, 0x41, 0x32, 0x35, 0x36, 0x20, 0x20]

lemma length_ones : (List.replicate 32 (1 : UInt8)).length = 32 := List.length_replicate

/-- The arrays `k` and `v` at the start. -/
def unkeyed : Drbg := ⟨.zero 32, ⟨List.replicate 32 1, length_ones⟩⟩

/-- `nonce::bch_rfc6979`. -/
def bchRfc6979 (fuel : ℕ) (secret message : ByteVec 32) : Option (ByteVec 32) :=
  let data := secret.bytes ++ (Scalar.fromBeBytes message).toBeBytes.bytes ++ tag
  let s : Drbg := [0, 1].foldl (fun s separator =>
    let k := hmac s.key.bytes (s.value.bytes ++ separator :: data)
    ⟨k, hmac k.bytes s.value.bytes⟩) unkeyed
  loop (fun s =>
    let v := hmac s.key.bytes s.value.bytes
    let scalar := Scalar.fromBeBytes v
    if scalar ≠ .zero ∧ scalar.toBeBytes = v then some (.inr v)
    else
      let k := hmac s.key.bytes (v.bytes ++ [0])
      some (.inl ⟨k, hmac k.bytes v.bytes⟩)) fuel s

namespace Crypto

/-- `crypto::reduce_msg_mod_n`. -/
def reduceMsgModN (msg32 : ByteVec 32) : ByteVec 32 :=
  ⟨Lib.Sha256.beBytes 32 (fromBe msg32.bytes % order), by simp⟩

/-- `crypto::bch_rfc6979_nonce`. -/
def bchRfc6979Nonce (fuel : ℕ) (skBytes msg32 : ByteVec 32) : Option (ByteVec 32) :=
  let reduced := reduceMsgModN msg32
  let v := unkeyed.value
  let k := unkeyed.key
  let buf := v.bytes ++ [0] ++ skBytes.bytes ++ reduced.bytes ++ tag
  let k := hmac k.bytes buf
  let v := hmac k.bytes v.bytes
  let buf := v.bytes ++ [1] ++ skBytes.bytes ++ reduced.bytes ++ tag
  let k := hmac k.bytes buf
  let v := hmac k.bytes v.bytes
  loop (fun s =>
    let v := hmac s.key.bytes s.value.bytes
    let cand := fromBe v.bytes
    if cand > 0 ∧ cand < order then some (.inr v)
    else
      let t := v.bytes ++ [0]
      let k := hmac s.key.bytes t
      some (.inl ⟨k, hmac k.bytes v.bytes⟩)) fuel (⟨k, v⟩ : Drbg)

end Crypto

/-! ## Over words -/

namespace Sign

/-- `TAG`. -/
def TAG : List UInt32 := [0x5363686e, 0x6f72722b, 0x53484132, 0x35362020]

/-- `key_block`. -/
def keyBlock (key : Words 8) (pad : UInt32) : Words 16 :=
  ⟨key.toList.map (· ^^^ pad) ++ List.replicate 8 pad, by simp⟩

/-- `retry_block`. -/
def retryBlock (v : Words 8) : Words 16 :=
  ⟨v.toList ++ [0x800000, 0, 0, 0, 0, 0, 0, (64 + 33) * 8], by simp⟩

/-- `padded32`. -/
def padded32 (m : Words 8) : Words 16 :=
  ⟨m.toList ++ [0x80000000, 0, 0, 0, 0, 0, 0, (64 + 32) * 8], by simp⟩

/-- `first_block`. -/
def firstBlock (v : Words 8) (separator : UInt32) (x : Words 8) : Words 16 :=
  ⟨v.toList ++ straddles separator x.toList, by simp [length_straddles]⟩

/-- `second_block`. -/
def secondBlock (x7 : UInt32) (h : Words 8) : Words 16 :=
  ⟨straddles x7 (h.toList ++ TAG) ++
    [((0x35362020 : UInt32) <<< 24) ||| 0x800000, 0, 0, (64 + 113) * 8], by simp [length_straddles, TAG]⟩

/-- An array of one word. -/
def filled (n : ℕ) (x : UInt32) : Words n := ⟨List.replicate n x, by simp⟩

/-- `rfc6979_midstates`. -/
def rfc6979Midstates (secret : Words 8) : Words 8 × Words 8 :=
  (compress (compress INITIAL (keyBlock (filled 8 0) 0x36363636))
      (firstBlock (filled 8 0x01010101) 0 secret),
    compress INITIAL (keyBlock (filled 8 0) 0x5c5c5c5c))

/-- The variables of the loop of `rfc6979_words_retrying`. -/
structure Machine where
  inner : Words 8
  outer : Words 8
  key : Words 8
  v : Words 8
  t : Words 8
  step : ℕ
  forced : ℕ

/-- What a step compresses. -/
def Machine.input (secret : Words 8) (tail : Words 16) (s : Machine) : Words 8 × Words 16 :=
  match s.step with
  | 0 => (s.inner, tail)
  | 6 => (s.inner, firstBlock s.v 1 secret)
  | 7 => (s.t, tail)
  | 15 => (s.inner, retryBlock s.v)
  | 2 | 9 | 17 => (INITIAL, keyBlock s.key 0x36363636)
  | 3 | 10 | 18 => (INITIAL, keyBlock s.key 0x5c5c5c5c)
  | 4 | 11 | 13 | 19 => (s.inner, padded32 s.v)
  | _ => (s.outer, padded32 s.t)

/-- Where the result of a step goes. -/
def Machine.store (out : Words 8) (s : Machine) : Machine :=
  match s.step with
  | 1 | 8 | 16 => { s with key := out }
  | 2 | 9 | 17 => { s with inner := out }
  | 3 | 10 | 18 => { s with outer := out }
  | 5 | 12 | 14 | 20 => { s with v := out }
  | _ => { s with t := out }

/-- The step after a step. -/
def Machine.advance (s : Machine) : Option (Machine ⊕ Words 8) :=
  match s.step with
  | 14 =>
    if s.forced = 0 ∧ (subtract (reversed s.v) N).2 ≠ 0 ∧ ¬isZero s.v then some (.inr s.v)
    else some (.inl { s with
      forced := if s.forced > 0 then s.forced - 1 else s.forced
      step := 15 })
  | 20 => some (.inl { s with step := 13 })
  | step => some (.inl { s with step := step + 1 })

/-- A turn of the loop, around its one compression. -/
def Machine.turn (compressed : Words 8 → Words 16 → Words 8) (secret : Words 8) (tail : Words 16)
    (s : Machine) : Option (Machine ⊕ Words 8) :=
  let (state, block) := s.input secret tail
  (s.store (compressed state block)).advance

/-- `rfc6979_words_retrying`. -/
def rfc6979WordsRetrying (fuel : ℕ) (midstates : Words 8 × Words 8) (secret message : Words 8)
    (forced : ℕ) : Option (Words 8) :=
  let tail := secondBlock (secret.word 7) (reversed (Scalar.fromBeWords message).words)
  loop (Machine.turn compress secret tail) fuel
    ⟨midstates.1, midstates.2, filled 8 0, filled 8 0x01010101, filled 8 0, 0, forced⟩

/-- `rfc6979_words`. -/
def rfc6979Words (fuel : ℕ) (midstates : Words 8 × Words 8) (secret message : Words 8) :
    Option (Words 8) :=
  rfc6979WordsRetrying fuel midstates secret message 0

end Sign

/-! ## Blocks -/

namespace Sign

lemma beBytes_xor {P : UInt32} {p : UInt8} (h : Lib.Sha256.beBytes 4 P.toNat = [p, p, p, p])
    (x : UInt32) :
    Lib.Sha256.beBytes 4 (x ^^^ P).toNat = (Lib.Sha256.beBytes 4 x.toNat).map (· ^^^ p) := by
  rw [beBytes_toNat, List.cons.injEq, List.cons.injEq, List.cons.injEq, List.cons.injEq] at h
  obtain ⟨h24, h16, h8, h0, -⟩ := h
  rw [beBytes_toNat, beBytes_toNat, UInt32.shiftRight_xor, UInt32.shiftRight_xor,
    UInt32.shiftRight_xor, UInt32.shiftRight_xor, UInt32.toUInt8_xor, UInt32.toUInt8_xor,
    UInt32.toUInt8_xor, UInt32.toUInt8_xor, h24, h16, h8, h0]
  rfl

/-- The key block is the padded key of HMAC. -/
lemma hmacKey_bytes {P : UInt32} {p : UInt8} (h : Lib.Sha256.beBytes 4 P.toNat = [p, p, p, p])
    (key : Words 8) : hmacKey p (bytes key).bytes = wordBytes (keyBlock key P).toList := by
  have hkey : ∀ l : List UInt32,
      wordBytes (l.map (· ^^^ P)) = (wordBytes l).map (· ^^^ p) := by
    intro l
    rw [wordBytes, wordBytes, List.flatMap_map, List.map_flatMap]
    exact List.flatMap_congr fun x _ => beBytes_xor h x
  have hpad : wordBytes (List.replicate 8 P) = List.replicate 32 p := by
    rw [wordBytes]
    simp only [List.replicate_succ, List.replicate_zero, List.flatMap_cons, List.flatMap_nil, h]
    rfl
  rw [hmacKey, ByteVec.length_bytes, List.map_append, List.map_replicate, UInt8.zero_xor,
    bytes_eq_wordBytes, keyBlock, List.Vector.toList_mk, wordBytes_append, hkey, hpad]

lemma inner_key (key : Words 8) :
    hmacKey 0x36 (bytes key).bytes = wordBytes (keyBlock key 0x36363636).toList :=
  hmacKey_bytes rfl key

lemma outer_key (key : Words 8) :
    hmacKey 0x5c (bytes key).bytes = wordBytes (keyBlock key 0x5c5c5c5c).toList :=
  hmacKey_bytes rfl key

/-- The digest of a key block and 32 bytes. -/
lemma digest_padded32 (block : Words 16) (m : Words 8) :
    Lib.Sha256.digest (wordBytes block.toList ++ (bytes m).bytes) =
      bytes (compress (compress INITIAL block) (padded32 m)) := by
  have hlen : (wordBytes block.toList ++ (bytes m).bytes).length = 96 := by simp
  have hpad : Lib.Sha256.pad (wordBytes block.toList ++ (bytes m).bytes) =
      wordBytes (block.toList ++ (padded32 m).toList) := by
    rw [Lib.Sha256.pad, hlen, wordBytes_append, padded32, List.Vector.toList_mk, wordBytes_append,
      bytes_eq_wordBytes, List.append_assoc, List.append_assoc, List.append_assoc]
    rfl
  exact digest_of_wordBytes [block, padded32 m] (by rw [hpad]; simp)

/-- The end of an HMAC: the outer hash. -/
lemma hmac_eq (key inner : Words 8) {m : Bytes}
    (h : Lib.Sha256.digest (wordBytes (keyBlock key 0x36363636).toList ++ m) = bytes inner) :
    hmac (bytes key).bytes m =
      bytes (compress (compress INITIAL (keyBlock key 0x5c5c5c5c)) (padded32 inner)) := by
  rw [hmac, ByteVec.length_bytes, if_neg (by decide)]
  rw [inner_key, outer_key, h, digest_padded32]

/-- `HMAC_K(V)`. -/
lemma hmac_value (key v : Words 8) : hmac (bytes key).bytes (bytes v).bytes =
    bytes (compress (compress INITIAL (keyBlock key 0x5c5c5c5c))
      (padded32 (compress (compress INITIAL (keyBlock key 0x36363636)) (padded32 v)))) :=
  hmac_eq key _ (digest_padded32 _ v)

/-- `HMAC_K(V || 0)`. -/
lemma hmac_retry (key v : Words 8) : hmac (bytes key).bytes ((bytes v).bytes ++ [0]) =
    bytes (compress (compress INITIAL (keyBlock key 0x5c5c5c5c))
      (padded32 (compress (compress INITIAL (keyBlock key 0x36363636)) (retryBlock v)))) := by
  refine hmac_eq key _ ?_
  generalize keyBlock key 0x36363636 = block
  have hlen : (wordBytes block.toList ++ ((bytes v).bytes ++ [0])).length = 97 := by simp
  have hpad : Lib.Sha256.pad (wordBytes block.toList ++ ((bytes v).bytes ++ [0])) =
      wordBytes (block.toList ++ (retryBlock v).toList) := by
    rw [Lib.Sha256.pad, hlen, wordBytes_append, retryBlock, List.Vector.toList_mk, wordBytes_append,
      bytes_eq_wordBytes, List.append_assoc, List.append_assoc, List.append_assoc,
      List.append_assoc]
    rfl
  exact digest_of_wordBytes [block, retryBlock v] (by rw [hpad]; simp)

/-- `HMAC_K(V || separator || secret || message || tag)`. -/
lemma hmac_data (key v secret h : Words 8) (separator : UInt32) :
    hmac (bytes key).bytes ((bytes v).bytes ++
        separator.toUInt8 :: ((bytes secret).bytes ++ (bytes h).bytes ++ tag)) =
      bytes (compress (compress INITIAL (keyBlock key 0x5c5c5c5c))
        (padded32 (compress (compress (compress INITIAL (keyBlock key 0x36363636))
          (firstBlock v separator secret)) (secondBlock (secret.word 7) h)))) := by
  refine hmac_eq key _ ?_
  generalize keyBlock key 0x36363636 = block
  have hmessage : (bytes secret).bytes ++ (bytes h).bytes ++ tag =
      wordBytes (secret.toList ++ (h.toList ++ TAG)) := by
    rw [wordBytes_append, wordBytes_append, bytes_eq_wordBytes, bytes_eq_wordBytes, List.append_assoc]
    rfl
  have hlast : lastByte separator (secret.toList ++ (h.toList ++ TAG)) =
      (0x35362020 : UInt32).toUInt8 := by
    rw [lastByte, TAG, ← List.append_assoc]
    simp
  have hsecret : secret.toList.getLastD separator = secret.word 7 := by
    conv_lhs => rw [← registers_load () secret]
    rfl
  have hlen : (wordBytes block.toList ++ ((bytes v).bytes ++
      separator.toUInt8 :: ((bytes secret).bytes ++ (bytes h).bytes ++ tag))).length = 177 := by
    simp [tag]
  refine digest_of_blocks [block, firstBlock v separator secret,
    secondBlock (secret.word 7) h] ?_
  rw [Lib.Sha256.pad, hlen, hmessage, bytes_eq_wordBytes]
  simp only [List.append_assoc, List.cons_append]
  have hend : Lib.Sha256.words ((0x35362020 : UInt32).toUInt8 :: 0x80 ::
      ([] ++ (List.replicate ((119 - 177 % 64) % 64) 0 ++ Lib.Sha256.beBytes 8 (8 * 177)))) =
      [((0x35362020 : UInt32) <<< 24) ||| 0x800000, 0, 0, (64 + 113) * 8].map UInt32.toNat :=
    words_end 0x35362020 _
  rw [words_wordBytes, words_wordBytes, words_straddles, hlast, hend, straddles_append, hsecret]
  rw [List.flatMap_cons, List.flatMap_cons, List.flatMap_cons, List.flatMap_nil, firstBlock,
    secondBlock, List.Vector.toList_mk, List.Vector.toList_mk, List.map_append, List.map_append,
    List.map_append]
  simp only [List.append_assoc, List.append_nil]

/-! ## The table of steps -/

section Table

variable (compressed : Words 8 → Words 16 → Words 8) (secret : Words 8) (tail : Words 16)

/-- An HMAC's state after its key block. -/
def keyed (pad : UInt32) (key : Words 8) : Words 8 := compressed INITIAL (keyBlock key pad)

/-- The outer hash of an HMAC. -/
def outerHash (key t : Words 8) : Words 8 :=
  compressed (keyed compressed 0x5c5c5c5c key) (padded32 t)

/-- The loop before a draw. -/
def ready (key v t : Words 8) (forced : ℕ) : Machine :=
  ⟨keyed compressed 0x36363636 key, keyed compressed 0x5c5c5c5c key, key, v, t, 13, forced⟩

/-- The inner hash of a draw. -/
def drawnInner (key v : Words 8) : Words 8 :=
  compressed (keyed compressed 0x36363636 key) (padded32 v)

/-- A draw. -/
def drawn (key v : Words 8) : Words 8 := outerHash compressed key (drawnInner compressed key v)

/-- The key after a refused draw. -/
def rekeyed (key v : Words 8) : Words 8 :=
  outerHash compressed key (compressed (keyed compressed 0x36363636 key) (retryBlock v))

variable {compressed secret tail} {inner outer key v t : Words 8} {step forced : ℕ}

lemma turn_tail (h : step = 0 ∨ step = 7) :
    (⟨inner, outer, key, v, t, step, forced⟩ : Machine).turn compressed secret tail =
      some (.inl ⟨inner, outer, key, v, compressed (if step = 0 then inner else t) tail, step + 1,
        forced⟩) := by
  obtain rfl | rfl := h <;> rfl

lemma turn_first :
    (⟨inner, outer, key, v, t, 6, forced⟩ : Machine).turn compressed secret tail =
      some (.inl ⟨inner, outer, key, v, compressed inner (firstBlock v 1 secret), 7, forced⟩) := rfl

lemma turn_retry :
    (⟨inner, outer, key, v, t, 15, forced⟩ : Machine).turn compressed secret tail =
      some (.inl ⟨inner, outer, key, v, compressed inner (retryBlock v), 16, forced⟩) := rfl

lemma turn_key (h : step = 1 ∨ step = 8 ∨ step = 16) :
    (⟨inner, outer, key, v, t, step, forced⟩ : Machine).turn compressed secret tail =
      some (.inl ⟨inner, outer, compressed outer (padded32 t), v, t, step + 1, forced⟩) := by
  obtain rfl | rfl | rfl := h <;> rfl

lemma turn_inner (h : step = 2 ∨ step = 9 ∨ step = 17) :
    (⟨inner, outer, key, v, t, step, forced⟩ : Machine).turn compressed secret tail =
      some (.inl ⟨keyed compressed 0x36363636 key, outer, key, v, t, step + 1, forced⟩) := by
  obtain rfl | rfl | rfl := h <;> rfl

lemma turn_outer (h : step = 3 ∨ step = 10 ∨ step = 18) :
    (⟨inner, outer, key, v, t, step, forced⟩ : Machine).turn compressed secret tail =
      some (.inl ⟨inner, keyed compressed 0x5c5c5c5c key, key, v, t, step + 1, forced⟩) := by
  obtain rfl | rfl | rfl := h <;> rfl

lemma turn_value (h : step = 4 ∨ step = 11 ∨ step = 13 ∨ step = 19) :
    (⟨inner, outer, key, v, t, step, forced⟩ : Machine).turn compressed secret tail =
      some (.inl ⟨inner, outer, key, v, compressed inner (padded32 v), step + 1, forced⟩) := by
  obtain rfl | rfl | rfl | rfl := h <;> rfl

lemma turn_drawn (h : step = 5 ∨ step = 12 ∨ step = 20) :
    (⟨inner, outer, key, v, t, step, forced⟩ : Machine).turn compressed secret tail =
      some (.inl ⟨inner, outer, key, compressed outer (padded32 t), t,
        if step = 20 then 13 else step + 1, forced⟩) := by
  obtain rfl | rfl | rfl := h <;> rfl

lemma turn_candidate :
    (⟨inner, outer, key, v, t, 14, forced⟩ : Machine).turn compressed secret tail =
      if forced = 0 ∧ (subtract (reversed (compressed outer (padded32 t))) N).2 ≠ 0 ∧
          ¬isZero (compressed outer (padded32 t)) then some (.inr (compressed outer (padded32 t)))
      else some (.inl ⟨inner, outer, key, compressed outer (padded32 t), t, 15,
        if forced > 0 then forced - 1 else forced⟩) := rfl

/-- Steps 2 to 5, 9 to 12 and 17 to 20: a new key and its first hash. -/
lemma loop_rekey (h : step = 2 ∨ step = 9 ∨ step = 17) (fuel : ℕ) :
    loop (Machine.turn compressed secret tail) (fuel + 4) ⟨inner, outer, key, v, t, step, forced⟩ =
      loop (Machine.turn compressed secret tail) fuel
        ⟨keyed compressed 0x36363636 key, keyed compressed 0x5c5c5c5c key, key,
          drawn compressed key v, drawnInner compressed key v,
          if step + 3 = 20 then 13 else step + 3 + 1, forced⟩ := by
  rw [loop_next (turn_inner h), loop_next (turn_outer (by omega)), loop_next (turn_value (by omega)),
    loop_next (turn_drawn (by omega))]
  rfl

/-- Steps 13 and 14: a draw, and whether it is accepted. -/
lemma loop_draw (fuel : ℕ) :
    loop (Machine.turn compressed secret tail) (fuel + 2) (ready compressed key v t forced) =
      if forced = 0 ∧ (subtract (reversed (drawn compressed key v)) N).2 ≠ 0 ∧
          ¬isZero (drawn compressed key v) then some (drawn compressed key v)
      else loop (Machine.turn compressed secret tail) fuel
        ⟨keyed compressed 0x36363636 key, keyed compressed 0x5c5c5c5c key, key,
          drawn compressed key v, drawnInner compressed key v, 15,
          if forced > 0 then forced - 1 else forced⟩ := by
  rw [ready, loop_next (turn_value (by omega))]
  by_cases h : forced = 0 ∧ (subtract (reversed (drawn compressed key v)) N).2 ≠ 0 ∧
    ¬isZero (drawn compressed key v)
  · rw [if_pos h]
    exact loop_done (turn_candidate.trans (if_pos h)) fuel
  · rw [if_neg h]
    exact loop_next (turn_candidate.trans (if_neg h)) fuel

/-- Steps 15 to 20: a refused draw. -/
lemma loop_refuse (fuel : ℕ) :
    loop (Machine.turn compressed secret tail) (fuel + 6)
        ⟨keyed compressed 0x36363636 key, keyed compressed 0x5c5c5c5c key, key, v, t, 15, forced⟩ =
      loop (Machine.turn compressed secret tail) fuel
        (ready compressed (rekeyed compressed key v)
          (drawn compressed (rekeyed compressed key v) v)
          (drawnInner compressed (rekeyed compressed key v) v) forced) := by
  rw [loop_next turn_retry, loop_next (turn_key (by omega)), loop_rekey (by omega)]
  rfl

/-- The key after a separator and the data. -/
def seeded (compressed : Words 8 → Words 16 → Words 8) (secret : Words 8) (tail : Words 16)
    (separator : UInt32) (key v : Words 8) : Words 8 :=
  outerHash compressed key (compressed
    (compressed (keyed compressed 0x36363636 key) (firstBlock v separator secret)) tail)

variable (forced) in
/-- Steps 0 to 12: the two rounds of the start. -/
lemma loop_start (key' t : Words 8) {key₁ v₁ key₂ : Words 8}
    (hkey₁ : seeded compressed secret tail 0 key v = key₁) (hv₁ : drawn compressed key₁ v = v₁)
    (hkey₂ : seeded compressed secret tail 1 key₁ v₁ = key₂) (fuel : ℕ) :
    loop (Machine.turn compressed secret tail) (fuel + 13)
        ⟨compressed (keyed compressed 0x36363636 key) (firstBlock v 0 secret),
          keyed compressed 0x5c5c5c5c key, key', v, t, 0, forced⟩ =
      loop (Machine.turn compressed secret tail) fuel
        (ready compressed key₂ (drawn compressed key₂ v₁) (drawnInner compressed key₂ v₁) forced) := by
  rw [seeded, outerHash] at hkey₁ hkey₂
  rw [loop_next (turn_tail (.inl rfl)), if_pos rfl, loop_next (turn_key (by omega)), hkey₁,
    loop_rekey (by omega), hv₁, if_neg (by decide), loop_next turn_first,
    loop_next (turn_tail (.inr rfl)), if_neg (by decide), loop_next (turn_key (by omega)), hkey₂,
    loop_rekey (by omega), if_neg (by decide)]
  rfl

end Table

/-! ## The words of the generator -/

/-- The generator's state, of words. -/
def drbg (key v : Words 8) : Drbg := ⟨bytes key, bytes v⟩

/-- A candidate that a nonce may be. -/
def Valid (v : ByteVec 32) : Prop := 0 < fromBe v.bytes ∧ fromBe v.bytes < order

instance decidableValid (v : ByteVec 32) : Decidable (Valid v) :=
  inferInstanceAs (Decidable (_ ∧ _))

lemma bytes_injective : Function.Injective bytes := fun v w h => by
  rw [← beWords_bytes v, h, beWords_bytes]

lemma hmac_drawn (key v : Words 8) :
    hmac (bytes key).bytes (bytes v).bytes = bytes (drawn compress key v) := by
  rw [hmac_value, drawn, outerHash, drawnInner, keyed, keyed]

lemma draw_drbg (key v : Words 8) : (drbg key v).draw = drbg key (drawn compress key v) := by
  rw [Drbg.draw, drbg, hmac_drawn, drbg]

lemma absorb_of_key {key v key' : Words 8} {separator : UInt8} {data : Bytes}
    (h : hmac (bytes key).bytes ((bytes v).bytes ++ separator :: data) = bytes key') :
    (drbg key v).absorb separator data = drbg key' (drawn compress key' v) := by
  rw [Drbg.absorb, drbg, drbg]
  dsimp only
  rw [h, hmac_drawn]

lemma refuse_drbg (key v : Words 8) :
    (drbg key v).refuse = drbg (rekeyed compress key (drawn compress key v))
      (drawn compress (rekeyed compress key (drawn compress key v)) (drawn compress key v)) := by
  rw [Drbg.refuse, draw_drbg]
  exact absorb_of_key (hmac_retry key _)

lemma absorb_drbg (key v secret h : Words 8) (separator : UInt32) :
    (drbg key v).absorb separator.toUInt8 ((bytes secret).bytes ++ (bytes h).bytes ++ tag) =
      drbg (seeded compress secret (secondBlock (secret.word 7) h) separator key v)
        (drawn compress (seeded compress secret (secondBlock (secret.word 7) h) separator key v) v) :=
  absorb_of_key (hmac_data key v secret h separator)

lemma isZero_reversed (w : Words 8) : isZero w = true ↔ Words.value (reversed w) = 0 := by
  have hzero : reversed (Words.ofNat 8 0) = Words.ofNat 8 0 := rfl
  rw [isZero_iff]
  constructor
  · intro h
    rw [show w = Words.ofNat 8 0 by rw [← h, Words.ofNat_value], hzero, Words.value_ofNat]
    rfl
  · intro h
    rw [← reversed_reversed w, show reversed w = Words.ofNat 8 0 by rw [← h, Words.ofNat_value],
      hzero, Words.value_ofNat]
    rfl

/-- The test of step 14. -/
lemma valid_bytes (w : Words 8) :
    (subtract (reversed w) N).2 ≠ 0 ∧ ¬isZero w ↔ Valid (bytes w) := by
  rw [Valid, fromBe_bytes, isZero_reversed, ne_eq, borrow_eq_zero, value_N, not_le, and_comm]
  exact and_congr_left' Nat.pos_iff_ne_zero.symm

/-- A refused draw takes six more steps. -/
lemma loop_refuse_eq_some {secret : Words 8} {tail : Words 16} {key v t w : Words 8}
    {forced fuel : ℕ} :
    loop (Machine.turn compress secret tail) fuel
        ⟨keyed compress 0x36363636 key, keyed compress 0x5c5c5c5c key, key, v, t, 15, forced⟩ =
      some w ↔ ∃ n, fuel = n + 6 ∧ loop (Machine.turn compress secret tail) n
        (ready compress (rekeyed compress key v) (drawn compress (rekeyed compress key v) v)
          (drawnInner compress (rekeyed compress key v) v) forced) = some w := by
  constructor
  · intro h
    rcases Nat.lt_or_ge fuel 6 with hlt | hle
    · have hnone := loop_mono h (Nat.le_of_lt hlt)
      rw [show 6 = 0 + 6 by rfl, loop_refuse, loop] at hnone
      exact absurd hnone (by simp)
    · obtain ⟨n, rfl⟩ := Nat.exists_eq_add_of_le' hle
      rw [loop_refuse] at h
      exact ⟨n, rfl, h⟩
  · rintro ⟨n, rfl, h⟩
    rw [loop_refuse]
    exact h

/-- The machine before a draw gives the first candidate that is valid, after those it must refuse. -/
lemma loop_ready {secret : Words 8} {tail : Words 16} {key v t w : Words 8} {forced fuel : ℕ} :
    loop (Machine.turn compress secret tail) fuel (ready compress key v t forced) = some w ↔
      ∃ i, IsLeast {i | forced ≤ i ∧ Valid ((drbg key v).candidate i)} i ∧
        (2 + 8 * i ≤ fuel ∧ (drbg key v).candidate i = bytes w) := by
  induction fuel using Nat.strong_induction_on generalizing key v t forced with
  | _ fuel ih =>
  have hzero : (drbg key v).candidate 0 = bytes (drawn compress key v) := by
    rw [Drbg.candidate_zero, draw_drbg, drbg]
  rw [exists_isLeast_iff, hzero, ← valid_bytes, Nat.le_zero]
  rcases Nat.lt_or_ge fuel 2 with hlt | hle
  · constructor
    · intro h
      have hnone : loop (Machine.turn compress secret tail) 1 (ready compress key v t forced) = none := by
        rw [ready, loop_next (turn_value (by omega)), loop]
      rw [loop_mono h (by omega)] at hnone
      exact absurd hnone (by simp)
    · rintro (⟨-, hle, -⟩ | ⟨-, i, -, hle, -⟩) <;> omega
  obtain ⟨n, rfl⟩ := Nat.exists_eq_add_of_le' hle
  rw [loop_draw]
  -- the candidate is taken, or the generator goes on from its next state
  by_cases haccept : forced = 0 ∧ (subtract (reversed (drawn compress key v)) N).2 ≠ 0 ∧
      ¬isZero (drawn compress key v)
  · rw [if_pos haccept, Option.some.injEq]
    constructor
    · rintro rfl
      exact .inl ⟨haccept, by omega, rfl⟩
    · rintro (⟨-, -, h⟩ | ⟨hn, -⟩)
      · exact bytes_injective h
      · exact absurd haccept hn
  · let next := drbg (rekeyed compress key (drawn compress key v))
      (drawn compress (rekeyed compress key (drawn compress key v)) (drawn compress key v))
    have hsucc (i : ℕ) : (drbg key v).candidate (i + 1) = next.candidate i := by
      rw [Drbg.candidate_succ, refuse_drbg]
    have hset : {i | forced ≤ i + 1 ∧ Valid ((drbg key v).candidate (i + 1))} =
        {i | (if forced > 0 then forced - 1 else forced) ≤ i ∧ Valid (next.candidate i)} := by
      ext i
      rw [Set.mem_ofPred_eq, Set.mem_ofPred_eq, hsucc]
      refine and_congr_left' ?_
      split_ifs <;> omega
    rw [if_neg haccept, loop_refuse_eq_some]
    constructor
    · rintro ⟨m, rfl, h⟩
      obtain ⟨i, hi, hle, heq⟩ := (ih m (by omega)).mp h
      refine .inr ⟨haccept, i, ?_, by omega, ?_⟩
      · rw [hset]
        exact hi
      · rw [hsucc]
        exact heq
    · rintro (⟨h, -⟩ | ⟨-, i, hi, hle, heq⟩)
      · exact absurd h haccept
      · rw [hset] at hi
        rw [hsucc] at heq
        exact ⟨n - 6, by omega, (ih _ (by omega)).mpr ⟨i, hi, by omega, heq⟩⟩

end Sign

/-! ## The forms -/

open Sign

/-- The generator of a signature's nonces: RFC 6979, with the tag as additional data. -/
def nonces (secret message : ByteVec 32) : Drbg :=
  .start (secret.bytes ++ Lib.Sha256.beBytes 32 (fromBe message.bytes % order) ++ tag)

lemma bytes_reversed_scalar (message : ByteVec 32) :
    (bytes (reversed (Scalar.fromBeBytes message).words)).bytes =
      Lib.Sha256.beBytes 32 (fromBe message.bytes % order) := by
  have h := beBytes_fromBe (bytes (reversed (Scalar.fromBeBytes message).words)).bytes
  have hvalue : Words.value (Scalar.fromBeBytes message).words = fromBe message.bytes % order := by
    rw [Scalar.fromBeBytes_eq]
    exact Scalar.value_ofNat _
  rw [ByteVec.length_bytes, fromBe_bytes, reversed_reversed, hvalue] at h
  exact h.symm

/-- The test of `bch_rfc6979`. -/
lemma valid_scalar (v : ByteVec 32) :
    Scalar.fromBeBytes v ≠ .zero ∧ (Scalar.fromBeBytes v).toBeBytes = v ↔ Valid v := by
  have hvalue : (Scalar.fromBeBytes v).value = fromBe v.bytes % order := by
    rw [Scalar.fromBeBytes_eq, Scalar.value_ofNat]
  have hbytes : (Scalar.fromBeBytes v).toBeBytes = v ↔ fromBe v.bytes < order := by
    rw [← Nat.mod_eq_iff_lt (by decide), ← hvalue, ← Scalar.fromBe_toBeBytes]
    constructor
    · intro h
      rw [h]
    · intro h
      exact ByteVec.ext (fromBe_inj (by simp) h)
  have hzero : Scalar.fromBeBytes v = .zero ↔ fromBe v.bytes % order = 0 := by
    rw [← hvalue]
    constructor
    · intro h
      rw [h]
      rfl
    · intro h
      exact Scalar.value_injective h
  rw [ne_eq, hzero, hbytes, Valid]
  constructor
  · rintro ⟨hne, hlt⟩
    rw [Nat.mod_eq_of_lt hlt] at hne
    exact ⟨Nat.pos_of_ne_zero hne, hlt⟩
  · rintro ⟨hpos, hlt⟩
    rw [Nat.mod_eq_of_lt hlt]
    exact ⟨hpos.ne', hlt⟩

/-- A loop that draws and refuses gives the first candidate that is accepted. -/
lemma loop_draws (found : ByteVec 32 → Prop) [DecidablePred found] {s : Drbg} {fuel : ℕ}
    {v : ByteVec 32} :
    loop (fun s : Drbg => if found s.draw.value then some (.inr s.draw.value)
        else some (.inl s.refuse)) fuel s = some v ↔
      ∃ i, IsLeast {i | found (s.candidate i)} i ∧ i < fuel ∧ s.candidate i = v :=
  loop_search

lemma bchRfc6979_eq_some {secret message v : ByteVec 32} {fuel : ℕ} :
    bchRfc6979 fuel secret message = some v ↔
      ∃ i, IsLeast {i | Valid ((nonces secret message).candidate i)} i ∧ i < fuel ∧
        (nonces secret message).candidate i = v := by
  have hvalid : {i | Valid ((nonces secret message).candidate i)} =
      {i | Scalar.fromBeBytes ((nonces secret message).candidate i) ≠ .zero ∧
        (Scalar.fromBeBytes ((nonces secret message).candidate i)).toBeBytes =
          (nonces secret message).candidate i} := by
    ext i
    exact (valid_scalar _).symm
  rw [hvalid, nonces, ← bytes_reversed_scalar]
  exact loop_draws fun v => Scalar.fromBeBytes v ≠ .zero ∧ (Scalar.fromBeBytes v).toBeBytes = v

/-- The loop ends within its fuel where a candidate is a scalar before. -/
lemma bchRfc6979_ends_iff {secret message : ByteVec 32} {fuel : ℕ} :
    (∃ v, bchRfc6979 fuel secret message = some v) ↔
      ∃ i < fuel, Valid ((nonces secret message).candidate i) := by
  constructor
  · rintro ⟨v, hv⟩
    obtain ⟨i, hi, hlt, -⟩ := bchRfc6979_eq_some.mp hv
    exact ⟨i, hlt, hi.1⟩
  · rintro ⟨i, hlt, hvalid⟩
    obtain ⟨least, hleast⟩ : ∃ least,
        IsLeast {i | Valid ((nonces secret message).candidate i)} least :=
      ⟨_, Nat.sInf_mem ⟨i, hvalid⟩, fun _ => Nat.sInf_le⟩
    exact ⟨_, bchRfc6979_eq_some.mpr ⟨least, hleast, (hleast.2 hvalid).trans_lt hlt, rfl⟩⟩

lemma bchRfc6979Nonce_eq_some {secret message v : ByteVec 32} {fuel : ℕ} :
    Crypto.bchRfc6979Nonce fuel secret message = some v ↔
      ∃ i, IsLeast {i | Valid ((nonces secret message).candidate i)} i ∧ i < fuel ∧
        (nonces secret message).candidate i = v := by
  have hbuf (v : ByteVec 32) (separator : UInt8) :
      v.bytes ++ [separator] ++ secret.bytes ++ (Crypto.reduceMsgModN message).bytes ++ tag =
        v.bytes ++ separator ::
          (secret.bytes ++ Lib.Sha256.beBytes 32 (fromBe message.bytes % order) ++ tag) := by
    rw [Crypto.reduceMsgModN]
    simp only [List.append_assoc, List.cons_append, List.nil_append]
  rw [Crypto.bchRfc6979Nonce]
  dsimp only
  rw [hbuf, hbuf]
  exact loop_draws Valid

lemma start_eq_drbg : (⟨.zero 32, ⟨List.replicate 32 1, List.length_replicate⟩⟩ : Drbg) =
    drbg (filled 8 0) (filled 8 0x01010101) := by
  have hkey : bytes (filled 8 0) = .zero 32 := by decide
  have hv : bytes (filled 8 0x01010101) = ⟨List.replicate 32 1, List.length_replicate⟩ := by decide
  rw [drbg, hkey, hv]

/-- The generator's first state, as the table leaves it. -/
lemma nonces_eq_drbg (secret message : ByteVec 32) {tail : Words 16} {key₁ v₁ key₂ : Words 8}
    (htail : secondBlock ((beWords 8 secret.bytes).word 7)
      (reversed (Scalar.fromBeBytes message).words) = tail)
    (hkey₁ : seeded compress (beWords 8 secret.bytes) tail 0 (filled 8 0) (filled 8 0x01010101) = key₁)
    (hv₁ : drawn compress key₁ (filled 8 0x01010101) = v₁)
    (hkey₂ : seeded compress (beWords 8 secret.bytes) tail 1 key₁ v₁ = key₂) :
    nonces secret message = drbg key₂ (drawn compress key₂ v₁) := by
  have hsecret : secret.bytes = (bytes (beWords 8 secret.bytes)).bytes := by rw [bytes_beWords]
  have hzero := absorb_drbg (filled 8 0) (filled 8 0x01010101) (beWords 8 secret.bytes)
    (reversed (Scalar.fromBeBytes message).words) 0
  rw [htail, hkey₁, hv₁] at hzero
  have hone := absorb_drbg key₁ v₁ (beWords 8 secret.bytes)
    (reversed (Scalar.fromBeBytes message).words) 1
  rw [htail, hkey₂] at hone
  rw [nonces, ← bytes_reversed_scalar, hsecret, Drbg.start, start_eq_drbg, bytes_beWords]
  rw [bytes_beWords] at hzero hone
  exact (congrArg (Drbg.absorb · 1 _) hzero).trans hone

lemma rfc6979WordsRetrying_eq_some {secret message : ByteVec 32} {w : Words 8} {forced fuel : ℕ} :
    rfc6979WordsRetrying fuel (rfc6979Midstates (beWords 8 secret.bytes)) (beWords 8 secret.bytes)
        (beWords 8 message.bytes) forced = some w ↔
      ∃ i, IsLeast {i | forced ≤ i ∧ Valid ((nonces secret message).candidate i)} i ∧
        15 + 8 * i ≤ fuel ∧ (nonces secret message).candidate i = bytes w := by
  obtain ⟨tail, htail⟩ : ∃ tail, secondBlock ((beWords 8 secret.bytes).word 7)
    (reversed (Scalar.fromBeBytes message).words) = tail := ⟨_, rfl⟩
  obtain ⟨key₁, hkey₁⟩ : ∃ key, seeded compress (beWords 8 secret.bytes) tail 0 (filled 8 0)
    (filled 8 0x01010101) = key := ⟨_, rfl⟩
  obtain ⟨v₁, hv₁⟩ : ∃ v, drawn compress key₁ (filled 8 0x01010101) = v := ⟨_, rfl⟩
  obtain ⟨key₂, hkey₂⟩ : ∃ key, seeded compress (beWords 8 secret.bytes) tail 1 key₁ v₁ = key :=
    ⟨_, rfl⟩
  have hstart (n : ℕ) := loop_start forced (filled 8 0) (filled 8 0) hkey₁ hv₁ hkey₂ n
  rw [keyed, keyed] at hstart
  rw [nonces_eq_drbg secret message htail hkey₁ hv₁ hkey₂, rfc6979WordsRetrying, rfc6979Midstates]
  rw [Scalar.fromBeBytes] at htail
  dsimp only
  rw [htail]
  rcases Nat.lt_or_ge fuel 13 with hlt | hle
  · constructor
    · intro h
      have hnone := loop_mono h (Nat.le_of_lt hlt)
      rw [show 13 = 0 + 13 by rfl, hstart, loop] at hnone
      exact absurd hnone (by simp)
    · rintro ⟨i, -, hle, -⟩
      omega
  · obtain ⟨n, rfl⟩ := Nat.exists_eq_add_of_le' hle
    rw [hstart, loop_ready]
    exact exists_congr fun i => and_congr_right' (and_congr_left' (by omega))

/-- The nonce of a signature is the first candidate of RFC 6979 that is a scalar, over bytes, over
words and on the host; the words' table finds it in fifteen steps, and in eight more for each
candidate that it refuses, which may be scalars if it is made to. -/
theorem rfc6979_agree (secret message : ByteVec 32) (forced : ℕ) :
    (∀ fuel v, bchRfc6979 fuel secret message = some v ↔
      ∃ i, IsLeast {i | Valid ((nonces secret message).candidate i)} i ∧ i < fuel ∧
        (nonces secret message).candidate i = v) ∧
    (∀ fuel, Crypto.bchRfc6979Nonce fuel secret message = bchRfc6979 fuel secret message) ∧
    ∀ fuel w, rfc6979WordsRetrying fuel (rfc6979Midstates (beWords 8 secret.bytes))
        (beWords 8 secret.bytes) (beWords 8 message.bytes) forced = some w ↔
      ∃ i, IsLeast {i | forced ≤ i ∧ Valid ((nonces secret message).candidate i)} i ∧
        15 + 8 * i ≤ fuel ∧ (nonces secret message).candidate i = bytes w :=
  ⟨fun _ _ => bchRfc6979_eq_some,
    fun _ => Option.ext fun _ => bchRfc6979Nonce_eq_some.trans bchRfc6979_eq_some.symm,
    fun _ _ => rfc6979WordsRetrying_eq_some⟩

end Pickaxe.Engine
