import Mathlib.Tactic
import Signet.Cipher.GcmStream
import Signet.Proofs.Cipher.Keystream

/-!
A stream in Galois/counter mode is what the mode is in one go.

* **Blocks.** `split_append`: a byte string may be cut into blocks where it consists
  of whole ones. `tagCounter_eq`, `firstCounter_eq` and `lengthBlock_eq`: the blocks
  that a stream writes byte by byte are those of the mode, and `next_firstCounter`:
  so is the key stream.
* **The hash.** `Absorbed` says what a stream holds after some ciphertext: the hash
  of its whole blocks and the bytes after them. `absorbed_start` begins, and
  `Absorbed.absorb` is a step, whatever the length of the piece; `Absorbed.tag_eq`
  is the tag at the end.
* **The key stream.** `Absorbed.encrypt_eq` and `Absorbed.decrypt_eq`: as long as
  there is key stream left, the next piece is encrypted as it would be in one go.
  `Absorbed.encrypt_eq_none` and `Absorbed.decrypt_eq_none`: after that it is refused.
-/

namespace Signet

/-! ### Blocks -/

namespace Bytes

lemma chunksFuel_congr {n fuel fuel' : ℕ} {bs : Bytes} (hn : 0 < n) (h : bs.length ≤ fuel)
    (h' : bs.length ≤ fuel') : chunksFuel n fuel bs = chunksFuel n fuel' bs := by
  induction fuel generalizing bs fuel' with
  | zero =>
      rw [List.eq_nil_of_length_eq_zero (Nat.le_zero.mp h)]
      cases fuel' <;> rfl
  | succ fuel ih =>
      cases bs with
      | nil => cases fuel' <;> rfl
      | cons b bs =>
          rw [List.length_cons] at h h'
          obtain ⟨fuel', rfl⟩ := Nat.exists_eq_succ_of_ne_zero (Nat.ne_zero_of_lt h')
          have hdrop : ((b :: bs).drop n).length ≤ bs.length := by
            rw [List.length_drop, List.length_cons]
            omega
          rw [chunksFuel, chunksFuel]
          exact congrArg _ (ih (by omega) (by omega))

lemma chunks_of_ne_nil {n : ℕ} (hn : 0 < n) {bs : Bytes} (h : bs ≠ []) :
    chunks n bs = bs.take n :: chunks n (bs.drop n) := by
  obtain ⟨b, bs, rfl⟩ := List.exists_cons_of_ne_nil h
  have hdrop : ((b :: bs).drop n).length ≤ bs.length := by
    rw [List.length_drop, List.length_cons]
    omega
  rw [chunks, List.length_cons, chunksFuel, chunks, chunksFuel_congr hn hdrop le_rfl]

/-- Whole pieces may be cut off in front. -/
lemma chunks_append {n : ℕ} (hn : 0 < n) {a : Bytes} (ha : a.length % n = 0) (b : Bytes) :
    chunks n (a ++ b) = chunks n a ++ chunks n b := by
  induction hlength : a.length using Nat.strong_induction_on generalizing a with
  | _ k ih =>
      by_cases hnil : a = []
      · rw [hnil]
        rfl
      have hpos : 0 < a.length := List.length_pos_iff.mpr hnil
      have hle : n ≤ a.length := Nat.le_of_dvd hpos (Nat.dvd_of_mod_eq_zero ha)
      have hrest : (a.drop n).length % n = 0 := by
        rw [List.length_drop, ← Nat.mod_eq_sub_mod hle]
        exact ha
      rw [chunks_of_ne_nil hn (List.append_ne_nil_of_left_ne_nil hnil b), chunks_of_ne_nil hn hnil,
        List.take_append_of_le_length hle, List.drop_append_of_le_length hle,
        ih (a.drop n).length (by rw [List.length_drop]; omega) hrest rfl, List.cons_append]

end Bytes

namespace Block

lemma split_append {a : Bytes} (ha : a.length % 16 = 0) (b : Bytes) :
    split (a ++ b) = split a ++ split b := by
  rw [split, split, split, Bytes.chunks_append (by norm_num) ha, List.map_append]

lemma split_of_length_eq {a : Bytes} (ha : a.length = 16) :
    split a = [FixedBytes.padRight 16 a] := by
  have hnil : a ≠ [] := by
    rintro rfl
    cases ha
  rw [split, Bytes.chunks_of_ne_nil (by norm_num) hnil, List.take_of_length_le ha.le,
    List.drop_of_length_le ha.le]
  rfl

end Block

namespace GcmStream

variable (iv : FixedBytes 12)

/-- The last byte of a counter is the last one of its block. -/
lemma set_append (counter : FixedBytes 4) (b : UInt8) :
    (iv.append counter : Block).set 15 b = iv.append (counter.set 3 b) := by
  refine FixedBytes.ext ?_
  rw [FixedBytes.toList_set, FixedBytes.toList_append, FixedBytes.toList_append,
    List.set_append_right _ _ (by rw [iv.length_eq]; norm_num), iv.length_eq]
  rfl

/-- The block for the tag has counter 1. -/
lemma tagCounter_eq : tagCounter iv = Gcm.counterBlock iv 1 := by
  have hpad : FixedBytes.padRight 16 iv.toList = iv.append (FixedBytes.zero 4) := by
    refine FixedBytes.ext ?_
    rw [FixedBytes.toList_padRight, iv.length_eq,
      List.take_of_length_le (by rw [iv.length_eq]; norm_num)]
    rfl
  rw [tagCounter, hpad, set_append]
  rfl

/-- The first block of the key stream has counter 2. -/
lemma firstCounter_eq : firstCounter iv = Gcm.counterBlock iv 2 := by
  rw [firstCounter, tagCounter_eq, Gcm.counterBlock, set_append]
  rfl

/-- No authenticated data has no length. -/
lemma lengthBlock_eq (n : ℕ) : lengthBlock n = Gcm.lengthBlock 0 n := by
  rw [lengthBlock, Gcm.lengthBlock, Nat.mul_comm]
  rfl

/-- The counters go on from there. -/
lemma counter_firstCounter (c : KeyedCipher) (used i : ℕ) :
    (⟨c, firstCounter iv, used⟩ : CounterStream).counter i = Gcm.counterBlock iv (i + 2) := by
  have hprefix : FixedBytes.padRight 12 (Gcm.counterBlock iv 2).toList = iv := by
    refine FixedBytes.ext ?_
    rw [FixedBytes.toList_padRight, (Gcm.counterBlock iv 2).length_eq, Gcm.counterBlock,
      FixedBytes.toList_append, List.take_left' iv.length_eq]
    exact List.append_nil _
  have hcount : Bytes.toNatBE ((Gcm.counterBlock iv 2).toList.drop 12) = 2 := by
    rw [Gcm.counterBlock, FixedBytes.toList_append, List.drop_left' iv.length_eq]
    rfl
  rw [CounterStream.counter, firstCounter_eq, hprefix, hcount, Nat.add_comm]
  rfl

/-- **The key stream of a stream** is that of the mode. -/
lemma next_firstCounter (c : KeyedCipher) (used n : ℕ) :
    (⟨c, firstCounter iv, used⟩ : CounterStream).next n = Gcm.keystream c iv used n := by
  simp only [CounterStream.next, counter_firstCounter]
  rfl

end GcmStream

/-! ### The hash -/

lemma Gcm.hash_append (mul : Gf128 → Gf128 → Gf128) (h : Gf128) (as bs : List Block) :
    hash mul h (as ++ bs) = bs.foldl (hashStep mul h) (hash mul h as) :=
  List.foldl_append

namespace GcmStream

/-- What a stream holds for the tag after some ciphertext, apart from its length: the hash of whole
blocks, and the bytes of a block that is not whole. -/
structure Hashed (g : GcmPrimitives) (key : FixedBytes 32) (iv : FixedBytes 12)
    (ciphertext : Bytes) (s : GcmStream) : Prop where
  /-- The product of the hash. -/
  mul : s.mul = g.mul
  /-- The key of the hash. -/
  hashKey_eq : s.hashKey = Gcm.hashKey (g.cipher key)
  /-- What is added to the hash. -/
  tagMask_eq : s.tagMask = Gcm.tagMask (g.cipher key) iv
  /-- The ciphertext is whole blocks and what is pending. -/
  blocks : ∃ whole, ciphertext = whole ++ s.pending ∧ whole.length % 16 = 0
    ∧ s.hash = Gcm.hash g.mul (Gcm.hashKey (g.cipher key)) (Block.split whole)
  /-- What is pending is no whole block. -/
  pending_lt : s.pending.length < 16

/-- What a stream holds after some ciphertext. -/
structure Absorbed (g : GcmPrimitives) (key : FixedBytes 32) (iv : FixedBytes 12)
    (ciphertext : Bytes) (s : GcmStream) : Prop extends Hashed g key iv ciphertext s where
  /-- The number of bytes. -/
  length_eq : s.length = ciphertext.length
  /-- As much of the key stream is used up. -/
  keystream_eq : s.keystream = ⟨g.cipher key, firstCounter iv, ciphertext.length⟩

variable {g : GcmPrimitives} {key : FixedBytes 32} {iv : FixedBytes 12} {s : GcmStream}
variable {ciphertext : Bytes}

lemma absorbed_start (g : GcmPrimitives) (key : FixedBytes 32) (iv : FixedBytes 12) :
    Absorbed g key iv [] (start g key iv) where
  mul := rfl
  hashKey_eq := rfl
  tagMask_eq := by rw [start, tagCounter_eq]; rfl
  blocks := ⟨[], rfl, rfl, rfl⟩
  pending_lt := by norm_num [start]
  length_eq := rfl
  keystream_eq := rfl

/-- The key stream has no part in the tag. -/
lemma Hashed.with_keystream (h : Hashed g key iv ciphertext s) (k : CounterStream) :
    Hashed g key iv ciphertext { s with keystream := k } :=
  ⟨h.mul, h.hashKey_eq, h.tagMask_eq, h.blocks, h.pending_lt⟩

lemma foldl_hashBlock (blocks : List Block) (s : GcmStream) :
    blocks.foldl hashBlock s
      = { s with hash := blocks.foldl (Gcm.hashStep s.mul s.hashKey) s.hash } := by
  induction blocks generalizing s with
  | nil => rfl
  | cons b blocks ih =>
      rw [List.foldl_cons, ih]
      rfl

/-- One whole block. -/
lemma Hashed.hashBlock (h : Hashed g key iv ciphertext s) (hnil : s.pending = []) {block : Bytes}
    (hblock : block.length = 16) :
    Hashed g key iv (ciphertext ++ block) (s.hashBlock (FixedBytes.padRight 16 block)) := by
  obtain ⟨whole, hwhole, hlength, hhash⟩ := h.blocks
  rw [hnil, List.append_nil] at hwhole
  refine ⟨h.mul, h.hashKey_eq, h.tagMask_eq, ⟨whole ++ block, ?_, ?_, ?_⟩, h.pending_lt⟩
  · rw [GcmStream.hashBlock, hnil, List.append_nil, hwhole]
  · rw [List.length_append]
    omega
  · rw [GcmStream.hashBlock, h.mul, h.hashKey_eq, hhash, Block.split_append hlength,
      Block.split_of_length_eq hblock, Gcm.hash_append]
    rfl

/-- Blocks of a piece, and the rest of it. -/
lemma Hashed.absorbBlocks (h : Hashed g key iv ciphertext s) (hnil : s.pending = [])
    (bytes : Bytes) : Hashed g key iv (ciphertext ++ bytes) (s.absorbBlocks bytes) := by
  obtain ⟨whole, hwhole, hlength, hhash⟩ := h.blocks
  rw [hnil, List.append_nil] at hwhole
  have htake : (bytes.take (bytes.length / 16 * 16)).length % 16 = 0 := by
    rw [List.length_take]
    omega
  rw [GcmStream.absorbBlocks, foldl_hashBlock]
  refine ⟨h.mul, h.hashKey_eq, h.tagMask_eq,
    ⟨whole ++ bytes.take (bytes.length / 16 * 16), ?_, ?_, ?_⟩, ?_⟩
  · rw [List.append_assoc, List.take_append_drop, hwhole]
  · rw [List.length_append]
    omega
  · dsimp only
    rw [h.mul, h.hashKey_eq, hhash, Block.split_append hlength, Gcm.hash_append]
  · rw [List.length_drop]
    omega

/-- Bytes that fill up no block stay pending. -/
lemma Hashed.pending_append (h : Hashed g key iv ciphertext s) {bytes : Bytes}
    (hlt : (s.pending ++ bytes).length < 16) :
    Hashed g key iv (ciphertext ++ bytes) { s with pending := s.pending ++ bytes } := by
  obtain ⟨whole, hwhole, hlength, hhash⟩ := h.blocks
  refine ⟨h.mul, h.hashKey_eq, h.tagMask_eq, ⟨whole, ?_, hlength, hhash⟩, hlt⟩
  rw [← List.append_assoc, ← hwhole]

/-- The bytes that are pending and those that fill up the block are one block. -/
lemma Hashed.fill (h : Hashed g key iv ciphertext s) {bytes : Bytes}
    (hblock : (s.pending ++ bytes).length = 16) :
    Hashed g key iv (ciphertext ++ bytes)
      { s.hashBlock (FixedBytes.padRight 16 (s.pending ++ bytes)) with pending := [] } := by
  obtain ⟨whole, hwhole, hlength, hhash⟩ := h.blocks
  have hcleared : Hashed g key iv whole { s with pending := [] } :=
    ⟨h.mul, h.hashKey_eq, h.tagMask_eq, ⟨whole, (List.append_nil _).symm, hlength, hhash⟩,
      by norm_num⟩
  rw [hwhole, List.append_assoc]
  exact hcleared.hashBlock rfl hblock

lemma absorbBlocks_clear (s : GcmStream) (bytes : Bytes) :
    { s with pending := [] }.absorbBlocks bytes = s.absorbBlocks bytes := by
  rw [GcmStream.absorbBlocks, GcmStream.absorbBlocks, foldl_hashBlock, foldl_hashBlock]

/-- Nothing changes but the hash, what is pending and the number of bytes. -/
lemma exists_absorb_eq (s : GcmStream) (bytes : Bytes) : ∃ hash pending,
    s.absorb bytes = { s with hash, pending, length := s.length + bytes.length } := by
  rw [GcmStream.absorb]
  dsimp only
  split_ifs
  · exact ⟨_, _, by rw [GcmStream.absorbBlocks, foldl_hashBlock]⟩
  · exact ⟨_, _, rfl⟩
  · exact ⟨_, _, by rw [GcmStream.absorbBlocks, foldl_hashBlock]; rfl⟩

/-- A piece without bytes changes nothing. -/
lemma absorb_nil (hlt : s.pending.length < 16) : s.absorb [] = s := by
  rw [GcmStream.absorb]
  by_cases hnil : s.pending = []
  · rw [if_pos (by rw [hnil]; rfl), GcmStream.absorbBlocks, foldl_hashBlock]
    obtain ⟨mul, keystream, hashKey, hash, pending, tagMask, length⟩ := s
    cases hnil
    rfl
  · simp [hnil, hlt]

/-- A piece of any length: it may fill up a block, and have blocks of its own. -/
lemma Hashed.absorb (h : Hashed g key iv ciphertext s) (bytes : Bytes) :
    Hashed g key iv (ciphertext ++ bytes) (s.absorb bytes) := by
  have hcounted : Hashed g key iv ciphertext { s with length := s.length + bytes.length } :=
    ⟨h.mul, h.hashKey_eq, h.tagMask_eq, h.blocks, h.pending_lt⟩
  have hlt := h.pending_lt
  rw [GcmStream.absorb]
  by_cases hnil : s.pending = []
  · rw [if_pos (by rw [hnil]; rfl)]
    exact hcounted.absorbBlocks hnil bytes
  rw [if_neg (by simpa using hnil)]
  dsimp only
  set missing := min (16 - s.pending.length) bytes.length with hmissing
  by_cases hblock : (s.pending ++ bytes.take missing).length < 16
  · -- the piece is too short to fill up the block, so that all of it is taken
    have htake : bytes.take missing = bytes := by
      rw [List.length_append, List.length_take] at hblock
      exact List.take_of_length_le (by omega)
    rw [if_pos hblock]
    rw [htake] at hblock ⊢
    exact hcounted.pending_append hblock
  · have hfull : (s.pending ++ bytes.take missing).length = 16 := by
      rw [List.length_append, List.length_take] at hblock ⊢
      omega
    rw [if_neg hblock]
    have hrest := (hcounted.fill hfull).absorbBlocks rfl (bytes.drop missing)
    rwa [List.append_assoc, List.take_append_drop, absorbBlocks_clear] at hrest

/-- **One piece of ciphertext more**, of any length, with its part of the key stream. -/
theorem Absorbed.absorb (h : Absorbed g key iv ciphertext s) {bytes : Bytes} {n : ℕ}
    (hlength : bytes.length = n) : Absorbed g key iv (ciphertext ++ bytes)
      ({ s with keystream := s.keystream.advance n }.absorb bytes) := by
  obtain ⟨_, _, habsorb⟩ :=
    exists_absorb_eq { s with keystream := s.keystream.advance n } bytes
  refine ⟨(h.with_keystream _).absorb bytes, ?_, ?_⟩
  · rw [habsorb, List.length_append, ← h.length_eq]
  · rw [habsorb, h.keystream_eq, List.length_append, hlength]
    rfl

/-- **The tag of a stream** is that of all its ciphertext. -/
theorem Absorbed.tag_eq (h : Absorbed g key iv ciphertext s) :
    s.tag = Gcm.tag g (g.cipher key) iv [] ciphertext := by
  obtain ⟨whole, hwhole, hlength, hhash⟩ := h.blocks
  have hsplit : Block.split ciphertext = Block.split whole ++ Block.split s.pending := by
    rw [← Block.split_append hlength, ← hwhole]
  have hinput : Gcm.hashInput [] ciphertext
      = Block.split whole ++ (Block.split s.pending ++ [lengthBlock s.length]) := by
    rw [Gcm.hashInput, hsplit, lengthBlock_eq, h.length_eq, List.append_assoc, List.append_assoc]
    rfl
  rw [GcmStream.tag, Gcm.tag, hinput, Gcm.hash_append, h.mul, h.hashKey_eq, hhash, h.tagMask_eq]

/-! ### The key stream -/

lemma Absorbed.add?_eq (h : Absorbed g key iv ciphertext s) {piece : Bytes}
    (hlimit : ciphertext.length + piece.length ≤ CounterStream.maxLength) :
    s.keystream.add? piece = some (s.keystream.advance piece.length,
      Gcm.applyKeystream (g.cipher key) iv ciphertext.length piece) := by
  rw [h.keystream_eq, CounterStream.add?, if_neg (Nat.not_lt.mpr hlimit), next_firstCounter,
    Gcm.applyKeystream]

lemma Absorbed.add?_eq_none (h : Absorbed g key iv ciphertext s) {piece : Bytes}
    (hlimit : ¬ ciphertext.length + piece.length ≤ CounterStream.maxLength) :
    s.keystream.add? piece = none := by
  rw [h.keystream_eq, CounterStream.add?, if_pos (Nat.lt_of_not_le hlimit)]

/-- The next piece is encrypted with the key stream that its place asks for. -/
lemma Absorbed.encrypt_eq (h : Absorbed g key iv ciphertext s) {piece : Bytes}
    (hlimit : (ciphertext ++ piece).length ≤ CounterStream.maxLength) :
    let next := Gcm.applyKeystream (g.cipher key) iv ciphertext.length piece
    ∃ s', s.encrypt piece = some (s', next) ∧ Absorbed g key iv (ciphertext ++ next) s' := by
  rw [List.length_append] at hlimit
  exact ⟨_, by rw [encrypt, h.add?_eq hlimit]; rfl, h.absorb (Gcm.length_applyKeystream _ _ _ _)⟩

/-- The next piece of a message is encrypted as the whole message would be. -/
lemma Absorbed.encrypt_message_eq {done piece : Bytes}
    (h : Absorbed g key iv (Gcm.applyKeystream (g.cipher key) iv 0 done) s)
    (hlimit : (done ++ piece).length ≤ CounterStream.maxLength) :
    ∃ s', s.encrypt piece = some (s', Gcm.applyKeystream (g.cipher key) iv done.length piece)
      ∧ Absorbed g key iv (Gcm.applyKeystream (g.cipher key) iv 0 (done ++ piece)) s' := by
  obtain ⟨s', hencrypt, hs'⟩ := @Absorbed.encrypt_eq _ _ _ _ _ h piece (by
    rwa [List.length_append, Gcm.length_applyKeystream, ← List.length_append])
  rw [Gcm.length_applyKeystream] at hencrypt hs'
  rw [← Gcm.applyKeystream_zero_append] at hs'
  exact ⟨s', hencrypt, hs'⟩

/-- The next piece of ciphertext is decrypted as all of it would be. -/
lemma Absorbed.decrypt_eq (h : Absorbed g key iv ciphertext s) {piece : Bytes}
    (hlimit : (ciphertext ++ piece).length ≤ CounterStream.maxLength) :
    ∃ s', s.decrypt piece
        = some (s', Gcm.applyKeystream (g.cipher key) iv ciphertext.length piece)
      ∧ Absorbed g key iv (ciphertext ++ piece) s' := by
  rw [List.length_append] at hlimit
  exact ⟨_, by rw [decrypt, h.add?_eq hlimit]; rfl, h.absorb rfl⟩

/-- Nothing is encrypted to nothing, and the stream stays where it is. -/
lemma Absorbed.encrypt_nil (h : Absorbed g key iv ciphertext s)
    (hlimit : ciphertext.length ≤ CounterStream.maxLength) : s.encrypt [] = some (s, []) := by
  have hadd := @Absorbed.add?_eq _ _ _ _ _ h [] hlimit
  rw [encrypt, hadd]
  exact congrArg some (Prod.ext (absorb_nil h.pending_lt) rfl)

/-- Where there is no key stream left, nothing is encrypted. -/
lemma Absorbed.encrypt_eq_none (h : Absorbed g key iv ciphertext s) {piece : Bytes}
    (hlimit : ¬ ciphertext.length + piece.length ≤ CounterStream.maxLength) :
    s.encrypt piece = none := by
  rw [encrypt, h.add?_eq_none hlimit]
  rfl

/-- Nothing is decrypted either. -/
lemma Absorbed.decrypt_eq_none (h : Absorbed g key iv ciphertext s) {piece : Bytes}
    (hlimit : ¬ ciphertext.length + piece.length ≤ CounterStream.maxLength) :
    s.decrypt piece = none := by
  rw [decrypt, h.add?_eq_none hlimit]
  rfl

end GcmStream

end Signet
