import Mathlib.Data.List.GetD
import Mathlib.Tactic
import Signet.Cipher.Gcm

/-!
The key stream byte by byte.

* `keystream_eq_map`: byte `i` of the key stream is a byte of the block with the
  number `i / 16`, whatever stretch of the stream is asked for.
* `applyKeystream_append`: data may therefore be cut anywhere before the key
  stream is added to it.
* `applyKeystream_applyKeystream`: adding it twice changes nothing.
-/

namespace Signet.Gcm

variable (c : KeyedCipher) (iv : FixedBytes 12)

/-- Byte `i` of the key stream. -/
def keystreamByte (i : ℕ) : UInt8 := (keystreamBlock c iv (i / 16)).toList.getD (i % 16) 0

lemma toList_eq_map_range {n : ℕ} (b : FixedBytes n) :
    b.toList = (List.range n).map fun i => b.toList.getD i 0 := by
  refine List.ext_getElem (by simp [b.length_eq]) fun i hi hi' => ?_
  rw [List.getElem_map, List.getElem_range, List.getD_eq_getElem _ _ hi]

/-- A block of the key stream is sixteen of its bytes. -/
lemma toList_keystreamBlock (k : ℕ) :
    (keystreamBlock c iv k).toList = (List.range' (16 * k) 16).map (keystreamByte c iv) := by
  rw [toList_eq_map_range, List.range'_eq_map_range, List.map_map]
  refine List.map_congr_left fun i hi => ?_
  have hlt : i < 16 := List.mem_range.mp hi
  have hdiv : (16 * k + i) / 16 = k := by omega
  have hmod : (16 * k + i) % 16 = i := by omega
  rw [Function.comp_apply, keystreamByte, hdiv, hmod]

/-- So are blocks one after another. -/
lemma flatMap_keystreamBlock (first n : ℕ) :
    (List.range' first n).flatMap (fun i => (keystreamBlock c iv i).toList)
      = (List.range' (16 * first) (16 * n)).map (keystreamByte c iv) := by
  induction n generalizing first with
  | zero => rfl
  | succ n ih =>
      have hsplit : List.range' (16 * first) (16 * (n + 1))
          = List.range' (16 * first) 16 ++ List.range' (16 * (first + 1)) (16 * n) := by
        rw [Nat.mul_succ 16 n, Nat.add_comm, Nat.mul_succ 16 first]
        exact (List.range'_append_1).symm
      rw [List.range'_succ, List.flatMap_cons, ih, toList_keystreamBlock, hsplit, List.map_append]

/-- **Every stretch of the key stream consists of its bytes.** -/
theorem keystream_eq_map (start n : ℕ) :
    keystream c iv start n = (List.range' start n).map (keystreamByte c iv) := by
  have hstart : 16 * (start / 16) + start % 16 = start := Nat.div_add_mod start 16
  have hlength : n ≤ 16 * ((start % 16 + n + 15) / 16) - start % 16 := by omega
  calc keystream c iv start n
      = (((List.range' (16 * (start / 16)) (16 * ((start % 16 + n + 15) / 16))).drop
          (start % 16)).take n).map (keystreamByte c iv) := by
        rw [keystream, Block.stretch, flatMap_keystreamBlock, List.map_take, List.map_drop]
    _ = (List.range' start n).map (keystreamByte c iv) := by
        rw [List.drop_range', List.take_range'_of_length_ge hlength, Nat.mul_one, hstart]

/-- Data may be cut before the key stream is added to it. -/
lemma applyKeystream_append (start : ℕ) (a b : Bytes) :
    applyKeystream c iv start (a ++ b)
      = applyKeystream c iv start a ++ applyKeystream c iv (start + a.length) b := by
  have hstream : keystream c iv start (a ++ b).length
      = keystream c iv start a.length ++ keystream c iv (start + a.length) b.length := by
    rw [keystream_eq_map, keystream_eq_map, keystream_eq_map, ← List.map_append,
      List.length_append, List.range'_append_1]
  rw [applyKeystream, applyKeystream, applyKeystream, hstream, Bytes.xor, Bytes.xor, Bytes.xor,
    List.zipWith_append]
  rw [keystream_eq_map, List.length_map, List.length_range']

/-- From the beginning of the stream on. -/
lemma applyKeystream_zero_append (a b : Bytes) :
    applyKeystream c iv 0 (a ++ b)
      = applyKeystream c iv 0 a ++ applyKeystream c iv a.length b := by
  rw [applyKeystream_append, Nat.zero_add]

@[simp] lemma length_applyKeystream (start : ℕ) (data : Bytes) :
    (applyKeystream c iv start data).length = data.length := by
  rw [applyKeystream, Bytes.length_xor, keystream_eq_map, List.length_map, List.length_range',
    Nat.min_self]

/-- The key stream is taken off as it was put on. -/
lemma applyKeystream_applyKeystream (start : ℕ) (data : Bytes) :
    applyKeystream c iv start (applyKeystream c iv start data) = data := by
  have hlength : (keystream c iv start data.length).length = data.length := by
    rw [keystream_eq_map, List.length_map, List.length_range']
  rw [applyKeystream, length_applyKeystream, applyKeystream]
  refine List.ext_getElem (by simp [hlength]) fun i hi hi' => ?_
  simp only [Bytes.xor, List.getElem_zipWith]
  rw [UInt8.xor_assoc, UInt8.xor_self, UInt8.xor_zero]

end Signet.Gcm
