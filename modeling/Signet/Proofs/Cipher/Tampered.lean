import Mathlib.Tactic
import Signet.Proofs.Bytes
import Signet.Proofs.Cipher.Aes
import Signet.Proofs.Cipher.Gf128
import Signet.Proofs.Cipher.GcmStream
import Signet.Proofs.Cipher.Sealing

/-!
A sealed message with one bit flipped is not opened.

* `Bytes.flipBit` and `Sealed.Tampered`: one bit of the IV, of the ciphertext or of the tag is
  another one.
* **The hash.** A flipped bit of the ciphertext changes one block of what is hashed
  (`Block.exists_split_modify`). `GcmPrimitives.Lawful` is what is assumed of the cipher and the
  product: with a hash key that is not zero, each step of the hash then keeps a difference
  (`hashStep_left_injective`), and so do all steps after the block (`foldl_hashStep_injective`).
* `Gcm.openSealed_tampered`: opening fails. `lawful_aes256Gcm`: AES and the product of `Gf128` are
  as is assumed.
-/

namespace Signet

/-! ### Bits -/

/-- A byte string with bit `i` flipped; the bits of a byte are counted from the least significant
one. -/
def Bytes.flipBit (i : ℕ) (bs : Bytes) : Bytes :=
  bs.modify (i / 8) fun b => b ^^^ 1 <<< UInt8.ofNat (i % 8)

@[simp] lemma Bytes.length_flipBit (i : ℕ) (bs : Bytes) : (flipBit i bs).length = bs.length :=
  List.length_modify _ _ _

/-- Bytes of fixed length with bit `i` flipped. -/
def FixedBytes.flipBit {n : ℕ} (i : ℕ) (bs : FixedBytes n) : FixedBytes n :=
  ⟨Bytes.flipBit i bs.toList, by rw [Bytes.length_flipBit, bs.length_eq]⟩

/-- One bit of a sealed message is flipped. -/
inductive Sealed.Tampered (s : Sealed) : Sealed → Prop
  | iv (i : ℕ) (lt : i < 8 * 12) : Tampered s { s with iv := s.iv.flipBit i }
  | ciphertext (i : ℕ) (lt : i < 8 * s.ciphertext.length) :
      Tampered s { s with ciphertext := Bytes.flipBit i s.ciphertext }
  | tag (i : ℕ) (lt : i < 8 * 16) : Tampered s { s with tag := s.tag.flipBit i }

namespace Bytes

lemma flipBit_byte_ne (i : ℕ) (b : UInt8) : b ^^^ 1 <<< UInt8.ofNat (i % 8) ≠ b := by
  have hbit : ∀ k < 8, (1 : UInt8) <<< UInt8.ofNat k ≠ 0 := by decide
  intro h
  refine hbit (i % 8) (Nat.mod_lt i (by norm_num)) ((UInt8.xor_right_inj b).mp ?_)
  rw [h, UInt8.xor_zero]

lemma modify_ne {f : UInt8 → UInt8} (hf : ∀ b, f b ≠ b) {bs : Bytes} {i : ℕ} (hi : i < bs.length) :
    bs.modify i f ≠ bs := by
  intro h
  have hbyte := List.getElem_modify f i bs i (by rwa [List.length_modify])
  rw [if_pos rfl] at hbyte
  exact hf _ (hbyte.symm.trans (List.getElem_of_eq h _))

lemma flipBit_ne {bs : Bytes} {i : ℕ} (hi : i < 8 * bs.length) : flipBit i bs ≠ bs :=
  modify_ne (flipBit_byte_ne i) (by omega)

end Bytes

lemma FixedBytes.flipBit_ne {n : ℕ} {bs : FixedBytes n} {i : ℕ} (hi : i < 8 * n) :
    bs.flipBit i ≠ bs := by
  intro h
  rw [← bs.length_eq] at hi
  exact Bytes.flipBit_ne hi (congrArg toList h)

/-! ### Blocks -/

namespace Block

lemma split_of_ne_nil {bs : Bytes} (h : bs ≠ []) :
    split bs = FixedBytes.padRight 16 (bs.take 16) :: split (bs.drop 16) := by
  rw [split, Bytes.chunks_of_ne_nil (by norm_num) h, List.map_cons]
  rfl

/-- A change of one byte is a change of one block. -/
lemma exists_split_modify {bs : Bytes} {i : ℕ} (hi : i < bs.length) (f : UInt8 → UInt8) :
    ∃ (before after : List Block) (piece : Bytes),
      split bs = before ++ FixedBytes.padRight 16 piece :: after
        ∧ split (bs.modify i f)
          = before ++ FixedBytes.padRight 16 (piece.modify (i % 16) f) :: after
        ∧ i % 16 < piece.length ∧ piece.length ≤ 16 := by
  set front := i / 16 * 16 with hfront
  have hle : front ≤ i := Nat.div_mul_le_self i 16
  have hrest : i - front = i % 16 := by omega
  have hwhole : (bs.take front).length % 16 = 0 := by
    rw [List.length_take, Nat.min_eq_left (by omega)]
    exact Nat.mul_mod_left _ _
  have hnil : bs.drop front ≠ [] := by
    rw [Ne, List.drop_eq_nil_iff]
    omega
  have hnil' : (bs.drop front).modify (i % 16) f ≠ [] := by
    rw [← List.length_pos_iff, List.length_modify, List.length_pos_iff]
    exact hnil
  have htake : (bs.take front).modify i f = bs.take front :=
    List.modify_eq_self (by rw [List.length_take]; omega)
  refine ⟨split (bs.take front), split ((bs.drop front).drop 16), (bs.drop front).take 16,
    ?_, ?_, ?_, ?_⟩
  · rw [← split_of_ne_nil hnil, ← split_append hwhole, List.take_append_drop]
  · rw [← List.take_append_drop front (bs.modify i f), List.take_modify, htake,
      List.drop_modify_of_ge _ _ _ _ hle, hrest, split_append hwhole, split_of_ne_nil hnil',
      List.take_modify, List.drop_modify_of_lt _ _ _ _ (Nat.mod_lt i (by norm_num))]
  · rw [List.length_take, List.length_drop]
    omega
  · rw [List.length_take]
    exact Nat.min_le_left _ _

end Block

lemma FixedBytes.padRight_injective {n : ℕ} {a b : Bytes} (hlength : a.length = b.length)
    (hle : b.length ≤ n) (h : padRight n a = padRight n b) : a = b := by
  have hbytes := congrArg toList h
  simp only [padRight] at hbytes
  rw [List.take_of_length_le (hlength ▸ hle), List.take_of_length_le hle] at hbytes
  exact List.append_inj_left hbytes hlength

/-! ### Blocks as elements of the field -/

namespace Gf128

lemma ofBlock_injective : Function.Injective ofBlock := by
  intro a b h
  have hlt (c : Block) : Bytes.toNatBE c.toList < 2 ^ 128 := by
    have hbound := Bytes.toNatBE_lt c.toList
    rw [c.length_eq] at hbound
    exact hbound
  have hvalue := congrArg BitVec.toNat h
  rw [ofBlock, ofBlock, BitVec.toNat_ofNat, BitVec.toNat_ofNat, Nat.mod_eq_of_lt (hlt a),
    Nat.mod_eq_of_lt (hlt b)] at hvalue
  exact FixedBytes.ext (Bytes.toNatBE_injective (a.length_eq.trans b.length_eq.symm) hvalue)

lemma toBlock_injective : Function.Injective toBlock := by
  intro x y h
  exact BitVec.eq_of_toNat_eq
    (Bytes.ofNatBE_injective x.isLt y.isLt (congrArg FixedBytes.toList h))

end Gf128

lemma FixedBytes.xor_left_injective {n : ℕ} (c : FixedBytes n) :
    Function.Injective fun a => FixedBytes.xor a c := by
  intro a b h
  have hbytes := congrArg toList h
  refine FixedBytes.ext (List.ext_getElem (by rw [a.length_eq, b.length_eq]) fun i hi hi' => ?_)
  have hbyte := List.getElem_of_eq hbytes (i := i) (by simp_all [xor, FixedBytes.length_eq])
  simp only [xor, Bytes.xor, List.getElem_zipWith] at hbyte
  exact (UInt8.xor_left_inj _).mp hbyte

lemma FixedBytes.xor_right_injective {n : ℕ} (c : FixedBytes n) :
    Function.Injective (FixedBytes.xor c) := by
  have hcomm (a : FixedBytes n) : FixedBytes.xor c a = FixedBytes.xor a c :=
    FixedBytes.ext (List.zipWith_comm_of_comm UInt8.xor_comm)
  intro a b h
  rw [hcomm, hcomm] at h
  exact xor_left_injective c h

/-! ### The hash -/

/-- What Galois/counter mode assumes of what it is made of: under one key no two blocks are
encrypted alike, and the product is that of a field, as far as sums and divisors of zero go. -/
structure GcmPrimitives.Lawful (g : GcmPrimitives) : Prop where
  /-- No two blocks are encrypted alike. -/
  encrypt_injective : ∀ key, Function.Injective (g.cipher key).encrypt
  /-- The product of a sum is the sum of the products. -/
  xor_mul : ∀ x y z, g.mul (x ^^^ y) z = g.mul x z ^^^ g.mul y z
  /-- A product is zero only if a factor is. -/
  eq_zero_or_eq_zero_of_mul : ∀ x y, g.mul x y = 0#128 → x = 0#128 ∨ y = 0#128

/-- **AES and the product of `Gf128` are as Galois/counter mode assumes.** -/
theorem lawful_aes256Gcm : aes256Gcm.Lawful where
  encrypt_injective := aes256_injective
  xor_mul := Gf128.xor_mul
  eq_zero_or_eq_zero_of_mul _ _ := Gf128.eq_zero_or_eq_zero_of_mul

/-- The zero block is not encrypted to itself. -/
def KeyedCipher.MovesZero (c : KeyedCipher) : Prop := c.encrypt (.zero 16) ≠ .zero 16

namespace Gcm

variable {g : GcmPrimitives} {c : KeyedCipher} {h : Gf128} {aad ciphertext : Bytes}

lemma hashKey_ne_zero (hc : c.MovesZero) : hashKey c ≠ 0#128 := by
  have hzero : Gf128.ofBlock (.zero 16) = 0#128 := by decide
  intro hkey
  exact hc (Gf128.ofBlock_injective (hkey.trans hzero.symm))

lemma mul_left_injective (hg : g.Lawful) (hh : h ≠ 0#128) :
    Function.Injective fun x => g.mul x h := by
  intro x y hxy
  have hdifference : g.mul (x ^^^ y) h = 0#128 := by
    rw [hg.xor_mul, show g.mul x h = g.mul y h from hxy, BitVec.xor_self]
  exact BitVec.xor_eq_zero_iff.mp ((hg.eq_zero_or_eq_zero_of_mul _ _ hdifference).resolve_right hh)

/-- A step keeps a difference of what was hashed before. -/
lemma hashStep_left_injective (hg : g.Lawful) (hh : h ≠ 0#128) (b : Block) :
    Function.Injective fun y => hashStep g.mul h y b := by
  intro y y' hstep
  exact BitVec.xor_left_inj (Gf128.ofBlock b) |>.mp (mul_left_injective hg hh hstep)

/-- A step makes a difference of two blocks. -/
lemma hashStep_right_injective (hg : g.Lawful) (hh : h ≠ 0#128) (y : Gf128) :
    Function.Injective (hashStep g.mul h y) := by
  intro b b' hstep
  have hblocks := mul_left_injective hg hh hstep
  exact Gf128.ofBlock_injective (BitVec.xor_right_inj y |>.mp hblocks)

/-- So do all steps after it. -/
lemma foldl_hashStep_injective (hg : g.Lawful) (hh : h ≠ 0#128) (blocks : List Block) :
    Function.Injective fun y => blocks.foldl (hashStep g.mul h) y := by
  induction blocks with
  | nil => exact Function.injective_id
  | cons b blocks ih => exact ih.comp (hashStep_left_injective hg hh b)

/-- **One changed block changes the hash**, wherever it stands. -/
theorem hash_ne_of_block_ne (hg : g.Lawful) (hh : h ≠ 0#128) (before after : List Block)
    {b b' : Block} (hne : b' ≠ b) :
    hash g.mul h (before ++ b' :: after) ≠ hash g.mul h (before ++ b :: after) := by
  intro heq
  rw [hash_append, hash_append, List.foldl_cons, List.foldl_cons] at heq
  exact hne (hashStep_right_injective hg hh _ (foldl_hashStep_injective hg hh after heq))

/-- A flipped bit of the ciphertext is in one block, so that it changes the hash. -/
lemma hash_flipBit_ne (hg : g.Lawful) (hh : h ≠ 0#128) {i : ℕ} (hi : i < 8 * ciphertext.length) :
    hash g.mul h (hashInput aad (Bytes.flipBit i ciphertext))
      ≠ hash g.mul h (hashInput aad ciphertext) := by
  obtain ⟨before, after, piece, hsplit, hsplit', hpiece, hle⟩ :=
    @Block.exists_split_modify ciphertext (i / 8) (by omega)
      fun b => b ^^^ 1 <<< UInt8.ofNat (i % 8)
  have hne := Bytes.modify_ne (Bytes.flipBit_byte_ne i) hpiece
  have hinput (cs : Bytes) {b : Block} (hcs : Block.split cs = before ++ b :: after)
      (hlength : cs.length = ciphertext.length) : hashInput aad cs
        = (Block.split aad ++ before) ++ b
          :: (after ++ [lengthBlock aad.length ciphertext.length]) := by
    rw [hashInput, hcs, hlength]
    simp
  rw [hinput _ hsplit rfl,
    hinput (Bytes.flipBit i ciphertext) hsplit' (Bytes.length_flipBit i ciphertext)]
  refine hash_ne_of_block_ne hg hh _ _ ?_
  intro hblock
  exact hne (FixedBytes.padRight_injective (List.length_modify _ _ _) hle hblock)

/-! ### Opening -/

lemma counterBlock_injective (n : ℕ) : Function.Injective fun iv => counterBlock iv n := by
  intro iv iv' hblock
  refine FixedBytes.ext (List.append_inj_left (congrArg FixedBytes.toList hblock) ?_)
  rw [iv.length_eq, iv'.length_eq]

/-- **Where the tag fits, it no longer does so after a bit was flipped.** A flipped bit of the IV
changes what is added to the hash, and one of the ciphertext the hash itself. -/
theorem tag_ne_of_tampered (hg : g.Lawful) {key : FixedBytes 32} (hkey : (g.cipher key).MovesZero)
    {s s' : Sealed} (htag : tag g (g.cipher key) s.iv aad s.ciphertext = s.tag)
    (ht : s.Tampered s') : tag g (g.cipher key) s'.iv aad s'.ciphertext ≠ s'.tag := by
  cases ht with
  | iv i hi =>
      rw [← htag]
      intro heq
      have hmask := FixedBytes.xor_right_injective _ heq
      have hblock := hg.encrypt_injective key hmask
      exact FixedBytes.flipBit_ne hi (counterBlock_injective 1 hblock)
  | ciphertext i hi =>
      rw [← htag]
      intro heq
      have hhash := Gf128.toBlock_injective (FixedBytes.xor_left_injective _ heq)
      exact hash_flipBit_ne hg (hashKey_ne_zero hkey) hi hhash
  | tag i hi =>
      rw [htag]
      exact (FixedBytes.flipBit_ne hi).symm

lemma openSealed_of_tag_ne {key : FixedBytes 32} {s : Sealed}
    (h : tag g (g.cipher key) s.iv aad s.ciphertext ≠ s.tag) :
    openSealed g key s aad = .error .openFailed := by
  rw [openSealed]
  split
  · rfl
  · exact if_neg h

/-- **Of a sealed message that opens, none opens with a bit flipped.** -/
theorem openSealed_tampered (hg : g.Lawful) {key : FixedBytes 32}
    (hkey : (g.cipher key).MovesZero) {message : Bytes} {s s' : Sealed}
    (hopen : openSealed g key s aad = .ok message) (ht : s.Tampered s') :
    openSealed g key s' aad = .error .openFailed := by
  have htag : tag g (g.cipher key) s.iv aad s.ciphertext = s.tag := by
    rw [openSealed] at hopen
    split at hopen
    · cases hopen
    · dsimp only at hopen
      split at hopen
      · assumption
      · cases hopen
  exact openSealed_of_tag_ne (tag_ne_of_tampered hg hkey htag ht)

end Gcm

end Signet
