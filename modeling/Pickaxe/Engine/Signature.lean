/-
# Signatures of the engine

The engine hashes the challenge and the message in blocks that it writes itself, multiplies the
challenge by a key that is kept in Montgomery form, and signs with the nonce or its opposite.  Its
signature is the host's.
-/
import Pickaxe.Engine.FixedBase
import Pickaxe.Engine.Schnorr

namespace Pickaxe.Engine

open Lib Sha256

/-! ## Hashes -/

namespace Sha256

/-- `sha256::challenge`. -/
def challenge (r : ByteVec 32) (publicKey : ByteVec 33) (message : ByteVec 32) : ByteVec 32 :=
  let block : ByteVec 64 := ⟨r.bytes ++ publicKey.bytes.take 32, by simp⟩
  let state := compressBytes INITIAL block
  let block : ByteVec 64 :=
    ⟨publicKey.bytes.getD 32 0 :: message.bytes ++ 0x80 :: (List.replicate 22 0 ++
      Lib.Sha256.beBytes 8 (97 * 8)), by simp⟩
  bytes (compressBytes state block)

end Sha256

namespace Sign

/-- The first block of a challenge. -/
def pointBlock (r : Words 8) (publicKey : Words 9) : Words 16 :=
  ⟨r.toList ++ publicKey.toList.take 8, by simp⟩

/-- The block that begins with a key's last byte. -/
def challengeBlock (publicKey : Words 9) (message : Words 8) : Words 16 :=
  ⟨(publicKey.word 8 ||| (message.word 0 >>> 8)) ::
      straddles (message.word 0) message.toList.tail ++
    [(message.word 7 <<< 24) ||| 0x800000, 0, 0, 0, 0, 0, 0, 97 * 8], by simp [length_straddles]⟩

/-- `challenge_words`. -/
def challengeWords (r : Words 8) (publicKey : Words 9) (message : Words 8) : Words 8 :=
  compress (compress INITIAL (pointBlock r publicKey)) (challengeBlock publicKey message)

/-- `u32::swap_bytes`. -/
def swapBytes (x : UInt32) : UInt32 :=
  (x <<< 24) ||| ((x &&& (0xff00 : UInt32)) <<< 8) ||| ((x >>> 8) &&& (0xff00 : UInt32)) ||| (x >>> 24)

/-- The block of a window's nonce and the target. -/
def messageBlock (nonce : UInt32) (target : Words 8) : Words 16 :=
  ⟨swapBytes nonce :: target.toList ++ [0x80000000, 0, 0, 0, 0, 0, 36 * 8], by simp⟩

/-- `message_words`. -/
def messageWords (nonce : UInt32) (target : Words 8) : Words 8 :=
  compress INITIAL (messageBlock nonce target)

/-- A public key in words, as the portable stages load it. -/
def packed (publicKey : ByteVec 33) : Words 9 :=
  ⟨(beWords 8 publicKey.bytes).toList ++
    [UInt32.ofNat (publicKey.bytes.getD 32 0).toNat <<< 24], by simp⟩

/-- `signature_words`: none where a loop has not ended. -/
def signatureWords (fuel : ℕ) (point : Point) (message : Words 8) (k : Scalar)
    (publicKey : Words 9) (secret : Scalar) : Option (Words 8 × Words 8) := do
  let inverse ← inverseBinary fuel point.z
  let r := reversed (point.x.mulMod inverse.square).words
  let square ← isSquareBinary fuel (point.y.mulMod point.z)
  let k := if square then k else k.negate
  let e := Scalar.fromBeWords (challengeWords r publicKey message)
  let ed := (e.montgomeryMul secret).montgomeryMul ⟨R2⟩
  return (r, reversed (k.addMod ed).words)

end Sign

namespace Sha256

/-- The digest of two blocks of bytes. -/
lemma digest_of_two {m : Bytes} {a b : ByteVec 64} (h : Lib.Sha256.pad m = a.bytes ++ b.bytes) :
    Lib.Sha256.digest m = bytes (compressBytes (compressBytes INITIAL a) b) := by
  have ha : a.bytes.length = 4 * 16 := a.length_bytes
  have hb : b.bytes.length = 4 * 16 := b.length_bytes
  have hwords : Lib.Sha256.words (Lib.Sha256.pad m) =
      [beWords 16 a.bytes, beWords 16 b.bytes].flatMap fun block =>
        block.toList.map UInt32.toNat := by
    rw [h, Lib.Sha256.words_append (by rw [ha]), List.flatMap_cons, List.flatMap_cons,
      List.flatMap_nil, List.append_nil, toNat_beWords ha, toNat_beWords hb]
  rw [digest_of_blocks _ hwords, List.foldl_cons, List.foldl_cons, List.foldl_nil, compressBytes,
    compressBytes]

lemma take_append_getD (publicKey : ByteVec 33) :
    publicKey.bytes = publicKey.bytes.take 32 ++ [publicKey.bytes.getD 32 0] := by
  have hdrop := drop_eq_getD_cons (b := publicKey.bytes) (i := 32) (by simp)
  rw [List.drop_of_length_le (i := 33) (by simp)] at hdrop
  conv_lhs => rw [← List.take_append_drop 32 publicKey.bytes, hdrop]

/-- The engine's challenge is the digest. -/
lemma challenge_eq (r : ByteVec 32) (publicKey : ByteVec 33) (message : ByteVec 32) :
    challenge r publicKey message = Crypto.challenge r publicKey message := by
  have hlen : (r.bytes ++ publicKey.bytes ++ message.bytes).length = 97 := by simp
  rw [Crypto.challenge, challenge]
  refine (digest_of_two ?_).symm
  rw [Lib.Sha256.pad, hlen]
  conv_lhs => rw [take_append_getD publicKey]
  simp only [List.append_assoc, List.cons_append, List.nil_append]

end Sha256

namespace Sign

lemma lastByte_packed (publicKey : ByteVec 33) :
    (UInt32.ofNat (publicKey.bytes.getD 32 0).toNat).toUInt8 = publicKey.bytes.getD 32 0 := by
  apply UInt8.toNat_inj.mp
  rw [UInt32.toNat_toUInt8, UInt32.toNat_ofNat']
  have := (publicKey.bytes.getD 32 0).toNat_lt
  omega

lemma beWords_take (publicKey : ByteVec 33) :
    beWords 8 publicKey.bytes = beWords 8 (publicKey.bytes.take 32) := by
  refine Words.ext fun i hi => ?_
  have hbyte (k : ℕ) (hk : k < 32) :
      (publicKey.bytes.take 32).getD k 0 = publicKey.bytes.getD k 0 := by
    rw [List.getD_eq_getElem?_getD, List.getElem?_take_of_lt hk, List.getD_eq_getElem?_getD]
  rw [beWords, beWords, Words.word_ofFn hi, Words.word_ofFn hi, hbyte _ (by omega),
    hbyte _ (by omega), hbyte _ (by omega), hbyte _ (by omega)]

/-- The words of a challenge's message. -/
lemma words_challenge (r : Words 8) (publicKey : ByteVec 33) (message : Words 8) :
    Lib.Sha256.words (Lib.Sha256.pad ((bytes r).bytes ++ publicKey.bytes ++ (bytes message).bytes)) =
      (r.toList ++ (beWords 8 publicKey.bytes).toList).map UInt32.toNat ++
        ((straddles (UInt32.ofNat (publicKey.bytes.getD 32 0).toNat) message.toList ++
          [(message.word 7 <<< 24) ||| 0x800000, 0, 0, 0, 0, 0, 0, 97 * 8]).map UInt32.toNat) := by
  obtain ⟨carry, hcarry⟩ : ∃ carry, UInt32.ofNat (publicKey.bytes.getD 32 0).toNat = carry := ⟨_, rfl⟩
  have hbyte : publicKey.bytes.getD 32 0 = carry.toUInt8 := by rw [← hcarry, lastByte_packed]
  have hlen : ((bytes r).bytes ++ publicKey.bytes ++ (bytes message).bytes).length = 97 := by simp
  have hpad : Lib.Sha256.pad ((bytes r).bytes ++ publicKey.bytes ++ (bytes message).bytes) =
      wordBytes r.toList ++ (publicKey.bytes.take 32 ++ (carry.toUInt8 :: (wordBytes message.toList ++
        0x80 :: 0 :: 0 :: (List.replicate 20 0 ++ Lib.Sha256.beBytes 8 (97 * 8))))) := by
    rw [Lib.Sha256.pad, hlen, bytes_eq_wordBytes, bytes_eq_wordBytes, ← hbyte]
    conv_lhs => rw [take_append_getD publicKey]
    simp only [List.append_assoc, List.cons_append, List.nil_append]
    rfl
  have hlast : lastByte carry message.toList = (message.word 7).toUInt8 := by
    rw [lastByte, Words.word, List.getLastD_eq_getLast?, List.getLast?_eq_getElem?,
      List.Vector.toList_length, List.getElem?_eq_getElem (by simp), Option.getD_some,
      List.getD_eq_getElem _ _ (by simp)]
  have htake : (publicKey.bytes.take 32).length = 4 * 8 := by simp
  have htail : Lib.Sha256.words (List.replicate 20 0 ++ Lib.Sha256.beBytes 8 (97 * 8)) =
      [0, 0, 0, 0, 0, 0, 97 * 8] := by decide +kernel
  rw [hcarry, hpad, words_wordBytes, Lib.Sha256.words_append (by rw [htake]), words_straddles, hlast,
    words_end, htail, ← toNat_beWords htake, ← beWords_take, List.map_append, List.map_append,
    List.append_assoc]
  rfl

/-- The challenge over words. -/
lemma bytes_challengeWords (r : Words 8) (publicKey : ByteVec 33) (message : Words 8) :
    bytes (challengeWords r (packed publicKey) message) =
      Crypto.challenge (bytes r) publicKey (bytes message) := by
  have hpacked : (packed publicKey).toList.take 8 = (beWords 8 publicKey.bytes).toList := by
    rw [packed, List.Vector.toList_mk, List.take_left' (by simp)]
  have hword : (packed publicKey).word 8 =
      UInt32.ofNat (publicKey.bytes.getD 32 0).toNat <<< 24 := by
    rw [Words.word, packed, List.Vector.toList_mk, List.getD_append_right _ _ _ _ (by simp)]
    simp
  have hmessage : message.toList = message.word 0 :: message.toList.tail := by
    rw [Words.word_zero, ← List.Vector.toList_tail, ← List.Vector.toList_cons,
      List.Vector.cons_head_tail]
  have hwords := words_challenge r publicKey message
  rw [hmessage, straddles] at hwords
  have hblocks : Lib.Sha256.words (Lib.Sha256.pad ((bytes r).bytes ++ publicKey.bytes ++
      (bytes message).bytes)) = [pointBlock r (packed publicKey),
        challengeBlock (packed publicKey) message].flatMap fun block =>
          block.toList.map UInt32.toNat := by
    rw [hwords, List.flatMap_cons, List.flatMap_cons, List.flatMap_nil, List.append_nil, pointBlock,
      challengeBlock, List.Vector.toList_mk, List.Vector.toList_mk, hpacked, hword]
    rfl
  rw [Crypto.challenge, digest_of_blocks _ hblocks, List.foldl_cons, List.foldl_cons, List.foldl_nil,
    challengeWords]

lemma toNat_and_ff00 (n : ℕ) : n &&& 0xff00 = 2 ^ 8 * (n / 2 ^ 8 % 2 ^ 8) := by
  have h := Nat.and_two_pow_sub_one_eq_mod (n / 2 ^ 8) 8
  apply Nat.eq_of_testBit_eq
  intro i
  rw [← h, Nat.testBit_and, Nat.testBit_two_pow_mul, Nat.testBit_and, Nat.testBit_div_two_pow]
  have h2 : (0xff00 : ℕ) = 2 ^ 8 * (2 ^ 8 - 1) := by norm_num
  rw [h2, Nat.testBit_two_pow_mul]
  by_cases hi : i ≥ 8
  · simp only [hi, decide_true, Bool.true_and]
    rw [Nat.sub_add_cancel hi]
  · simp [hi]

lemma toNat_swapBytes (x : UInt32) : (swapBytes x).toNat =
    2 ^ 24 * (x.toNat % 256) + 2 ^ 16 * (x.toNat / 256 % 256) + 2 ^ 8 * (x.toNat / 2 ^ 16 % 256) + x.toNat / 2 ^ 24 := by
  have hx := x.toNat_lt
  have hA : (x <<< 24).toNat = 2 ^ 24 * (x.toNat % 256) := by
    rw [UInt32.toNat_shiftLeft]
    change x.toNat <<< 24 % 2 ^ 32 = _
    rw [Nat.shiftLeft_eq]
    omega
  have hB : ((x &&& (0xff00 : UInt32)) <<< 8).toNat = 2 ^ 16 * (x.toNat / 256 % 256) := by
    rw [UInt32.toNat_shiftLeft, UInt32.toNat_and]
    change (x.toNat &&& 0xff00) <<< 8 % 2 ^ 32 = _
    rw [Nat.shiftLeft_eq, toNat_and_ff00]
    omega
  have hC : ((x >>> 8) &&& (0xff00 : UInt32)).toNat = 2 ^ 8 * (x.toNat / 2 ^ 16 % 256) := by
    rw [UInt32.toNat_and, UInt32.toNat_shiftRight]
    change x.toNat >>> 8 &&& 0xff00 = _
    rw [Nat.shiftRight_eq_div_pow, toNat_and_ff00]
    omega
  have hD : (x >>> 24).toNat = x.toNat / 2 ^ 24 := by
    rw [UInt32.toNat_shiftRight]
    exact Nat.shiftRight_eq_div_pow _ _
  rw [swapBytes, UInt32.toNat_or, UInt32.toNat_or, UInt32.toNat_or, hA, hB, hC, hD,
    ← Nat.two_pow_add_eq_or_of_lt (by omega)]
  rw [show 2 ^ 24 * (x.toNat % 256) + 2 ^ 16 * (x.toNat / 256 % 256) = 2 ^ 16 * (2 ^ 8 * (x.toNat % 256) + x.toNat / 256 % 256) by ring,
    ← Nat.two_pow_add_eq_or_of_lt (by omega),
    show 2 ^ 16 * (2 ^ 8 * (x.toNat % 256) + x.toNat / 256 % 256) + 2 ^ 8 * (x.toNat / 2 ^ 16 % 256) = 2 ^ 8 * (2 ^ 8 * (2 ^ 8 * (x.toNat % 256) + x.toNat / 256 % 256) + x.toNat / 2 ^ 16 % 256) by ring, ← Nat.two_pow_add_eq_or_of_lt (by omega)]

/-- The message that a window signs. -/
lemma bytes_messageWords (nonce : UInt32) (target : Words 8) :
    bytes (messageWords nonce target) = Lib.Sha256.digest (u32Le nonce ++ (bytes target).bytes) := by
  have hnonce : Lib.Sha256.beBytes 4 (swapBytes nonce).toNat = u32Le nonce := by
    have hlt := nonce.toNat_lt
    have hbyte {a b : ℕ} (h : a % 256 = b % 256) : UInt8.ofNat a = UInt8.ofNat b :=
      UInt8.toNat_inj.mp (by rw [UInt8.toNat_ofNat', UInt8.toNat_ofNat', h])
    -- the bytes of the word, the lowest first
    obtain ⟨b₀, hb₀⟩ : ∃ b, nonce.toNat % 256 = b := ⟨_, rfl⟩
    obtain ⟨b₁, hb₁⟩ : ∃ b, nonce.toNat / 256 % 256 = b := ⟨_, rfl⟩
    obtain ⟨b₂, hb₂⟩ : ∃ b, nonce.toNat / 2 ^ 16 % 256 = b := ⟨_, rfl⟩
    obtain ⟨b₃, hb₃⟩ : ∃ b, nonce.toNat / 2 ^ 24 = b := ⟨_, rfl⟩
    have hsum : 2 ^ 24 * b₀ + 2 ^ 16 * b₁ + 2 ^ 8 * b₂ + b₃ =
        ((b₀ * 256 + b₁) * 256 + b₂) * 256 + b₃ := by ring
    have hb₂' : nonce.toNat / 256 / 256 % 256 = b₂ := by
      rw [← hb₂, Nat.div_div_eq_div_mul]
      rfl
    have hb₃' : nonce.toNat / 256 / 256 / 256 = b₃ := by
      rw [← hb₃, Nat.div_div_eq_div_mul, Nat.div_div_eq_div_mul]
      rfl
    have hlt₁ : b₁ < 256 := hb₁ ▸ Nat.mod_lt _ (by decide)
    have hlt₂ : b₂ < 256 := hb₂ ▸ Nat.mod_lt _ (by decide)
    have hlt₃ : b₃ < 256 := hb₃ ▸ Nat.div_lt_of_lt_mul hlt
    have hquot (a : ℕ) {b : ℕ} (h : b < 256) : (a * 256 + b) / 256 = a := by omega
    rw [Lib.Sha256.beBytes_four, toNat_swapBytes, u32Le, hb₀, hb₁, hb₂, hb₃, hsum, hquot _ hlt₃,
      hquot _ hlt₂, hquot _ hlt₁]
    refine congrArg₂ _ (hbyte ?_) (congrArg₂ _ (hbyte ?_) (congrArg₂ _ (hbyte ?_)
      (congrArg₂ _ (hbyte ?_) rfl)))
    · rw [← hb₀, Nat.mod_mod]
    · rw [hb₁, Nat.mul_add_mod_of_lt hlt₁]
    · rw [hb₂', Nat.mul_add_mod_of_lt hlt₂]
    · rw [hb₃', Nat.mul_add_mod_of_lt hlt₃, Nat.mod_eq_of_lt hlt₃]
  have hlen : (u32Le nonce ++ (bytes target).bytes).length = 36 := by simp
  have hpad : Lib.Sha256.pad (u32Le nonce ++ (bytes target).bytes) =
      wordBytes ([messageBlock nonce target].flatMap List.Vector.toList) := by
    rw [Lib.Sha256.pad, hlen, bytes_eq_wordBytes, List.flatMap_cons, List.flatMap_nil,
      List.append_nil, messageBlock, List.Vector.toList_mk, List.cons_append, wordBytes_cons,
      wordBytes_append, hnonce, List.append_assoc]
    simp only [List.append_assoc]
    rfl
  rw [digest_of_wordBytes _ hpad, List.foldl_cons, List.foldl_nil, messageWords]

end Sign

/-! ## What is signed -/

/-- The signature of a message under a nonce, the challenge reduced. -/
def Signs (publicKey : ByteVec 33) (d : ℕ) (message : ByteVec 32) (k : ℕ) (sig64 : ByteVec 64) : Prop :=
  ∃ x y sBytes, Coordinates x y (k • G) ∧ sig64 = Crypto.joined x.toBeBytes sBytes ∧
    fromBe sBytes.bytes = (adjusted k (Crypto.yIsQuadraticResidue y.toBeBytes) +
      fromBe (Crypto.challenge x.toBeBytes publicKey message).bytes * d) % order

section Signs

variable {publicKey : ByteVec 33} {d k : ℕ} {message : ByteVec 32} {sig64 sig64' : ByteVec 64}

/-- A nonce has one signature. -/
lemma Signs.unique (h : Signs publicKey d message k sig64) (h' : Signs publicKey d message k sig64') :
    sig64 = sig64' := by
  obtain ⟨x, y, sBytes, hxy, rfl, hs⟩ := h
  obtain ⟨x', y', sBytes', hxy', rfl, hs'⟩ := h'
  obtain ⟨rfl, rfl⟩ := hxy.unique hxy'
  rw [ByteVec.ext (fromBe_inj (by simp) (hs.trans hs'.symm))]

/-- The host's signature is the one. -/
lemma signs_of_signWithK {lib : Secp} (hlib : lib.Lawful) {skBytes kBytes : ByteVec 32}
    {secret : lib.SecretKey} (hsecret : lib.fromSecretBytes skBytes = .ok secret)
    (h : Crypto.bchSchnorrSignWithK lib skBytes message kBytes = .ok sig64) :
    Signs (lib.serialize (lib.fromSecretKey secret)) (fromBe skBytes.bytes) message
      (fromBe kBytes.bytes) sig64 := by
  obtain ⟨secret', x, y, sBytes, e, hsecret', -, -, hxy, he, -, -, hsig, hs, -⟩ :=
    signWithK_eq_ok hlib h
  rw [hsecret, Except.ok.injEq] at hsecret'
  rw [he, ← hsecret'] at hs
  exact ⟨x, y, sBytes, hxy, hsig, hs⟩

end Signs

/-! ## Points -/

/-- What a signature needs of a point. -/
lemma Point.Represents.coordinates {p : Point} {x y : Field} {g : curve.Point} (h : p.Represents g)
    (hxy : Coordinates x y g) : p.z ≠ .zero ∧ p.z.Canonical ∧ p.x.mulMod p.z.inverse.square = x ∧
      ((p.y.mulMod p.z).residue = 0 ↔ y.residue = 0) ∧
      (IsSquare (p.y.mulMod p.z).residue ↔ IsSquare y.residue) := by
  obtain ⟨x', y', haffine, hxy'⟩ : ∃ x' y', p.affine = some (x', y') ∧ Coordinates x' y' g :=
    h.affine.resolve_left fun h => hxy.ne_zero h.2
  obtain ⟨rfl, rfl⟩ := hxy.unique hxy'
  obtain ⟨j, hj, -⟩ := h
  rw [Point.affine] at haffine
  by_cases hz : p.z = .zero
  · rw [if_pos hz] at haffine
    cases haffine
  · rw [if_neg hz, Option.some.injEq, Prod.mk.injEq] at haffine
    obtain ⟨hx, hy⟩ := haffine
    have hne : p.z.residue ≠ 0 := (Field.residue_eq_zero hj.z.canonical).not.mpr hz
    have hyz : (p.y.mulMod p.z).residue = y.residue * (p.z.residue ^ 2 * p.z.residue ^ 2) := by
      rw [← hy, Field.residue_mulMod, Field.residue_mulMod, Field.residue_mulMod, Field.residue_square,
        Field.residue_inverse]
      field_simp
    have hsquare : IsSquare (p.z.residue ^ 2 * p.z.residue ^ 2) := ⟨_, rfl⟩
    have hpos : p.z.residue ^ 2 * p.z.residue ^ 2 ≠ 0 := by positivity
    rw [hyz]
    refine ⟨hz, hj.z.canonical, hx, mul_eq_zero_iff_right hpos, fun hsq => ?_,
      fun hsq => hsq.mul hsquare⟩
    have hdiv := hsq.div hsquare
    rwa [mul_div_cancel_right₀ _ hpos] at hdiv

namespace Sign

/-- The second half of a signature, from the challenge's scalar and the adjusted nonce. -/
lemma value_addMod_product {k : Scalar} (hk : k.Canonical) (c d : ℕ) (square : Bool) :
    ((if square then k else k.negate).addMod (.ofNat (c % order * d))).value =
      (adjusted k.value square + c * d) % order := by
  have hneg := Scalar.negate_eq hk
  have hcanonical : (if square then k else k.negate).Canonical := by
    rw [hneg]
    split_ifs
    · exact hk
    · exact Scalar.canonical_ofNat _
  have hvalue : (if square then k else k.negate).value % order = adjusted k.value square % order := by
    rw [hneg, adjusted]
    split_ifs
    · rfl
    · rw [Scalar.value_ofNat, Nat.mod_mod]
  rw [Scalar.addMod_eq hcanonical (Scalar.canonical_ofNat _), Scalar.value_ofNat, Scalar.value_ofNat,
    Nat.add_mod, hvalue, Nat.mod_mod, ← Nat.add_mod, Nat.add_mod, Nat.mul_mod, Nat.mod_mod,
    ← Nat.mul_mod, ← Nat.add_mod]

/-- The portable engine's signature. -/
lemma signatureWords_signs {fuel : ℕ} (hfuel : 2 ^ 257 ≤ fuel) {p : Point} {x y : Field}
    {k secret : Scalar} (hk : k.Canonical) (h : p.Represents (k.value • G))
    (hxy : Coordinates x y (k.value • G)) (publicKey : ByteVec 33) (message : Words 8) :
    ∃ r s, signatureWords fuel p message k (packed publicKey) secret = some (r, s) ∧
      Signs publicKey secret.value (bytes message) k.value (Crypto.joined (bytes r) (bytes s)) := by
  obtain ⟨-, hcanonical, hx, hzero, hsquare⟩ := h.coordinates hxy
  obtain ⟨square, hsome, hiff⟩ := isSquareBinary_eq (p.y.mulMod p.z) hfuel
  have hres : square = Crypto.yIsQuadraticResidue y.toBeBytes := by
    rw [Bool.eq_iff_iff, hiff, yIsQuadraticResidue_iff hxy.canonical_y,
      and_iff_right (hzero.not.mpr hxy.y_ne_zero), hsquare]
  have he := Scalar.fromBeWords_eq (challengeWords (reversed x.words) (packed publicKey) message)
  rw [← fromBe_bytes, bytes_challengeWords] at he
  have hcanonical' : (Scalar.fromBeWords
      (challengeWords (reversed x.words) (packed publicKey) message)).Canonical := by
    rw [he]
    exact Scalar.canonical_ofNat _
  refine ⟨reversed x.words, reversed ((if square then k else k.negate).addMod
    (((Scalar.fromBeWords (challengeWords (reversed x.words) (packed publicKey) message)).montgomeryMul
      secret).montgomeryMul ⟨R2⟩)).words, ?_, x, y, _, hxy, rfl, ?_⟩
  · rw [signatureWords, inverseBinary_eq hcanonical hfuel, Option.bind_eq_bind, Option.bind_some, hx,
      hsome, Option.bind_eq_bind, Option.bind_some]
    rfl
  · rw [fromBe_bytes, reversed_reversed, Scalar.montgomeryMul_R2 hcanonical', ← hres, he,
      Scalar.value_ofNat]
    exact value_addMod_product hk _ _ _

end Sign

end Pickaxe.Engine
