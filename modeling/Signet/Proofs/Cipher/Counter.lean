import Mathlib.Data.List.Nodup
import Mathlib.Tactic
import Signet.Proofs.Bytes
import Signet.Proofs.Cipher.GcmStream

/-!
The counters of a stream in Galois/counter mode.

* **Blocks.** `counterBlocks` are the blocks that are encrypted to a key stream, one after
  another. A counter has 32 bits, so that it comes round (`counterBlock_mod`);
  `counterBlock_inj` says when it does. `nodup_counterBlocks_iff`: just up to the limit of
  the key stream no block stands there twice, and none is the block for the tag.
* **Runs.** `GcmStream.run` takes pieces of any lengths, one after another. A step takes a
  piece if there is key stream for it (`Absorbed.next_eq`), and by induction so does a run
  (`Absorbed.run_eq`, `run_eq_none`).
* `run_counters`: the same blocks are used however the bytes are cut into pieces, and the
  number of bits is small enough for the block that is hashed last.
-/

namespace Signet

namespace Bytes

/-- Numbers have the same bytes if they are the same but for what is dropped. -/
lemma ofNatBE_eq_iff {n x y : ℕ} : ofNatBE n x = ofNatBE n y ↔ x % 256 ^ n = y % 256 ^ n := by
  rw [← toNatBE_ofNatBE, ← toNatBE_ofNatBE]
  refine ⟨congrArg toNatBE, toNatBE_injective ?_⟩
  rw [length_ofNatBE, length_ofNatBE]

end Bytes

/-! ### Counter blocks -/

namespace Gcm

/-- The blocks that are encrypted to the first `n` bytes of a key stream. -/
def counterBlocks (iv : FixedBytes 12) (n : ℕ) : List Block :=
  (List.range' 2 ((n + 15) / 16)).map (counterBlock iv)

/-- A counter comes round after 32 bits. -/
lemma counterBlock_inj {iv : FixedBytes 12} {m n : ℕ} :
    counterBlock iv m = counterBlock iv n ↔ m % 2 ^ 32 = n % 2 ^ 32 := by
  have hpower : 256 ^ 4 = 2 ^ 32 := by norm_num
  rw [← hpower, ← Bytes.ofNatBE_eq_iff, FixedBytes.ext_iff]
  exact List.append_right_inj iv.toList

lemma counterBlock_mod (iv : FixedBytes 12) (n : ℕ) :
    counterBlock iv (n % 2 ^ 32) = counterBlock iv n :=
  counterBlock_inj.mpr (Nat.mod_mod n _)

@[simp] lemma length_counterBlocks (iv : FixedBytes 12) (n : ℕ) :
    (counterBlocks iv n).length = (n + 15) / 16 := by
  rw [counterBlocks, List.length_map, List.length_range']

/-- Each sixteen bytes have a block of their own. -/
lemma getElem?_counterBlocks (iv : FixedBytes 12) {n i : ℕ} (h : i < n) :
    (counterBlocks iv n)[i / 16]? = some (counterBlock iv ((2 + i / 16) % 2 ^ 32)) := by
  have hlt : i / 16 < (n + 15) / 16 := by omega
  rw [counterBlocks, List.getElem?_map, List.getElem?_range' hlt, counterBlock_mod, Nat.one_mul]
  rfl

/-- **No block is encrypted twice**, the one for the tag among them, just up to the limit: the
counters go on from 1, and one more block would get there again. -/
theorem nodup_counterBlocks_iff {iv : FixedBytes 12} {n : ℕ} :
    (counterBlock iv 1 :: counterBlocks iv n).Nodup ↔ (n + 15) / 16 ≤ 2 ^ 32 - 1 := by
  constructor
  · intro hnodup
    by_contra hlimit
    refine (List.nodup_cons.mp hnodup).1 (List.mem_map.mpr ⟨2 ^ 32 + 1, ?_, ?_⟩)
    · rw [List.mem_range'_1]
      omega
    · exact counterBlock_inj.mpr (by norm_num)
  · intro hlimit
    have hcounters : counterBlock iv 1 :: counterBlocks iv n
        = (List.range' 1 ((n + 15) / 16 + 1)).map (counterBlock iv) := by
      rw [counterBlocks, List.range'_succ, List.map_cons]
    rw [hcounters]
    refine List.Nodup.map_on (fun a ha b hb heq => ?_) List.nodup_range'
    rw [List.mem_range'_1] at ha hb
    rw [counterBlock_inj] at heq
    omega

/-- A byte of data is combined with a byte of the block that its place in the stream asks for. -/
lemma getElem?_applyKeystream (c : KeyedCipher) (iv : FixedBytes 12) {data : Bytes} {i : ℕ}
    (h : i < data.length) : (applyKeystream c iv 0 data)[i]? = Option.map₂ (· ^^^ ·) data[i]?
      (c.encrypt (counterBlock iv ((2 + i / 16) % 2 ^ 32))).toList[i % 16]? := by
  have hplace : i % 16 < (c.encrypt (counterBlock iv ((2 + i / 16) % 2 ^ 32))).toList.length := by
    rw [FixedBytes.length_eq]
    omega
  have hbyte : keystreamByte c iv i
      = (c.encrypt (counterBlock iv ((2 + i / 16) % 2 ^ 32))).toList[i % 16] := by
    rw [← List.getD_eq_getElem _ 0 hplace, keystreamByte, keystreamBlock, counterBlock_mod,
      Nat.add_comm]
  rw [applyKeystream, Bytes.xor, keystream_eq_map, List.getElem?_zipWith, List.getElem?_map,
    List.getElem?_range' h, List.getElem?_eq_getElem h, List.getElem?_eq_getElem hplace, ← hbyte]
  simp

end Gcm

/-! ### Runs -/

namespace GcmStream

/-- What a stream is used for. -/
inductive Direction where
  /-- Plaintext comes in. -/
  | sealing
  /-- Ciphertext comes in. -/
  | opening

/-- Encrypts or decrypts the next piece. -/
def next : Direction → GcmStream → Bytes → Option (GcmStream × Bytes)
  | .sealing => encrypt
  | .opening => decrypt

/-- Encrypts or decrypts pieces, one after another. -/
def run (d : Direction) : GcmStream → List Bytes → Option (GcmStream × List Bytes)
  | s, [] => some (s, [])
  | s, piece :: pieces => do
    let (s, out) ← next d s piece
    let (s, outs) ← run d s pieces
    return (s, out :: outs)

variable {g : GcmPrimitives} {key : FixedBytes 32} {iv : FixedBytes 12} {s : GcmStream}
variable {done piece : Bytes} {pieces : List Bytes}

/-- The bits of what is hashed are counted in the block that is hashed last, if there is room for
their number. -/
lemma toNatBE_lengthBlock {n : ℕ} (h : 8 * n < 2 ^ 64) :
    Bytes.toNatBE ((lengthBlock n).toList.drop 8) = 8 * n := by
  have hdrop : (lengthBlock n).toList.drop 8 = Bytes.ofNatBE 8 (n * 8) :=
    List.drop_left' (FixedBytes.zero 8).length_eq
  have hpower : 256 ^ 8 = 2 ^ 64 := by norm_num
  rw [hdrop, Bytes.toNatBE_ofNatBE, hpower, Nat.mul_comm, Nat.mod_eq_of_lt h]

/-- A piece is taken if there is key stream for it. -/
lemma Absorbed.next_eq (h : Absorbed g key iv done s) (d : Direction)
    (hlimit : done.length + piece.length ≤ CounterStream.maxLength) : ∃ s' taken,
      next d s piece = some (s', Gcm.applyKeystream (g.cipher key) iv done.length piece)
        ∧ Absorbed g key iv (done ++ taken) s' ∧ taken.length = piece.length := by
  rw [← List.length_append] at hlimit
  cases d with
  | sealing =>
      obtain ⟨s', hencrypt, hs'⟩ := h.encrypt_eq hlimit
      exact ⟨s', _, hencrypt, hs', Gcm.length_applyKeystream (g.cipher key) iv done.length piece⟩
  | opening =>
      obtain ⟨s', hdecrypt, hs'⟩ := h.decrypt_eq hlimit
      exact ⟨s', piece, hdecrypt, hs', rfl⟩

/-- It is refused otherwise. -/
lemma Absorbed.next_eq_none (h : Absorbed g key iv done s) (d : Direction)
    (hlimit : ¬ done.length + piece.length ≤ CounterStream.maxLength) : next d s piece = none := by
  cases d with
  | sealing => exact h.encrypt_eq_none hlimit
  | opening => exact h.decrypt_eq_none hlimit

/-- **Pieces are taken as one** if there is key stream for all of them. -/
theorem Absorbed.run_eq (h : Absorbed g key iv done s) (d : Direction)
    (hlimit : done.length + pieces.flatten.length ≤ CounterStream.maxLength) : ∃ s' outs taken,
      run d s pieces = some (s', outs) ∧ outs.map List.length = pieces.map List.length
        ∧ outs.flatten = Gcm.applyKeystream (g.cipher key) iv done.length pieces.flatten
        ∧ Absorbed g key iv (done ++ taken) s' ∧ taken.length = pieces.flatten.length := by
  induction pieces generalizing done s with
  | nil => exact ⟨s, [], [], rfl, rfl, rfl, by rwa [List.append_nil], rfl⟩
  | cons piece pieces ih =>
      rw [List.flatten_cons, List.length_append] at hlimit
      obtain ⟨s', taken, hnext, hs', htaken⟩ := @Absorbed.next_eq _ _ _ _ _ piece h d (by omega)
      obtain ⟨s'', outs, rest, hrun, hlengths, houts, hs'', hrest⟩ := ih hs' (by
        rw [List.length_append]
        omega)
      refine ⟨s'', Gcm.applyKeystream (g.cipher key) iv done.length piece :: outs, taken ++ rest,
        ?_, ?_, ?_, by rwa [← List.append_assoc], ?_⟩
      · rw [run, hnext]
        simp only [Option.bind_eq_bind, Option.bind_some, hrun]
        rfl
      · rw [List.map_cons, List.map_cons, hlengths, Gcm.length_applyKeystream]
      · rw [List.flatten_cons, List.flatten_cons, Gcm.applyKeystream_append, houts,
          List.length_append, htaken]
      · rw [List.length_append, List.flatten_cons, List.length_append, htaken, hrest]

/-- One of them is refused otherwise. -/
lemma Absorbed.run_eq_none (h : Absorbed g key iv done s) (d : Direction)
    (hlimit : CounterStream.maxLength < done.length + pieces.flatten.length)
    (hdone : done.length ≤ CounterStream.maxLength) : run d s pieces = none := by
  induction pieces generalizing done s with
  | nil =>
      rw [List.flatten_nil, List.length_nil] at hlimit
      omega
  | cons piece pieces ih =>
      rw [List.flatten_cons, List.length_append] at hlimit
      by_cases hpiece : done.length + piece.length ≤ CounterStream.maxLength
      · obtain ⟨s', taken, hnext, hs', htaken⟩ := h.next_eq d hpiece
        have hlength : (done ++ taken).length = done.length + piece.length := by
          rw [List.length_append, htaken]
        rw [run, hnext]
        simp only [Option.bind_eq_bind, Option.bind_some,
          ih hs' (by omega) (by omega), Option.bind_none]
      · rw [run, h.next_eq_none d hpiece]
        rfl

/-- **A stream never uses a counter twice.** Pieces of any lengths are taken just if all of them
need no more blocks of key stream than there are. These blocks are then encryptions of blocks that
all differ from each other and from the one for the tag. A byte is combined with the byte of them
that its place in the stream asks for, however the stream is cut into pieces. The number of bits is
the one in the block that is hashed last. -/
theorem run_counters (g : GcmPrimitives) (key : FixedBytes 32) (iv : FixedBytes 12)
    (d : Direction) (pieces : List Bytes) :
    let c := g.cipher key
    let data := pieces.flatten
    let counters := Gcm.counterBlocks iv data.length
    ((∃ p, run d (start g key iv) pieces = some p) ↔ counters.length ≤ 2 ^ 32 - 1)
      ∧ ∀ s outs, run d (start g key iv) pieces = some (s, outs) →
        (Gcm.counterBlock iv 1 :: counters).Nodup
        ∧ s.tagMask = c.encrypt (Gcm.counterBlock iv 1)
        ∧ outs.map List.length = pieces.map List.length
        ∧ (∀ i < data.length, ∃ b, counters[i / 16]? = some b
          ∧ b = Gcm.counterBlock iv ((2 + i / 16) % 2 ^ 32)
          ∧ outs.flatten[i]? = Option.map₂ (· ^^^ ·) data[i]? (c.encrypt b).toList[i % 16]?)
        ∧ s.length = data.length ∧ 8 * s.length < 2 ^ 64
        ∧ Bytes.toNatBE ((lengthBlock s.length).toList.drop 8) = 8 * data.length := by
  intro c data counters
  have hstart := absorbed_start g key iv
  have hmax : CounterStream.maxLength = 16 * (2 ^ 32 - 1) := rfl
  rw [Gcm.length_counterBlocks]
  by_cases hlimit : data.length ≤ CounterStream.maxLength
  · obtain ⟨s, outs, taken, hrun, hlengths, houts, hs, htaken⟩ :=
      @Absorbed.run_eq _ _ _ _ _ pieces hstart d (by rwa [List.length_nil, Nat.zero_add])
    have hblocks : (data.length + 15) / 16 ≤ 2 ^ 32 - 1 := by omega
    refine ⟨iff_of_true ⟨_, hrun⟩ hblocks, fun s' outs' hrun' => ?_⟩
    cases hrun.symm.trans hrun'
    have hlength : s.length = data.length := by rw [hs.length_eq, List.nil_append, htaken]
    have hbits : 8 * s.length < 2 ^ 64 := by omega
    refine ⟨Gcm.nodup_counterBlocks_iff.mpr hblocks, hs.tagMask_eq, hlengths,
      fun i hi => ⟨_, Gcm.getElem?_counterBlocks iv hi, rfl, ?_⟩, hlength, hbits, ?_⟩
    · rw [houts]
      exact Gcm.getElem?_applyKeystream c iv hi
    · rw [toNatBE_lengthBlock hbits, hlength]
  · have hnone := @Absorbed.run_eq_none _ _ _ _ _ pieces hstart d (by
      rwa [List.length_nil, Nat.zero_add, ← not_le]) (Nat.zero_le _)
    refine ⟨iff_of_false ?_ (by omega), fun s outs hrun => ?_⟩
    · rintro ⟨p, hp⟩
      cases hnone.symm.trans hp
    · cases hnone.symm.trans hrun

/-- The last of three pieces goes on in the middle of the second block. -/
theorem run_counters_three_pieces :
    let c := aes256 (FixedBytes.zero 32)
    let iv := FixedBytes.zero 12
    ∃ s outs, run .sealing (start aes256Gcm (FixedBytes.zero 32) iv)
        [[1], List.replicate 16 2, [3]] = some (s, outs)
      ∧ (Gcm.counterBlock iv 1 :: Gcm.counterBlocks iv 18).Nodup
      ∧ outs.map List.length = [1, 16, 1]
      ∧ outs.flatten[17]?
        = Option.map₂ (· ^^^ ·) (some 3) (c.encrypt (Gcm.counterBlock iv 3)).toList[1]?
      ∧ s.length = 18 := by
  intro c iv
  obtain ⟨haccepted, hall⟩ := run_counters aes256Gcm (FixedBytes.zero 32) iv .sealing
    [[1], List.replicate 16 2, [3]]
  obtain ⟨⟨s, outs⟩, hrun⟩ := haccepted.mpr (by simp)
  obtain ⟨hnodup, -, hlengths, hbytes, hlength, -, -⟩ := hall s outs hrun
  obtain ⟨b, -, rfl, hbyte⟩ := hbytes 17 (by simp)
  exact ⟨s, outs, hrun, hnodup, hlengths, hbyte, hlength⟩

end GcmStream

end Signet
