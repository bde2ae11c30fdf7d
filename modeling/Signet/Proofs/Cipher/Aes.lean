import Mathlib.Tactic
import Signet.Cipher.Aes

/-!
AES under one key encrypts no two blocks alike.

* **Bytes.** `substitute_injective`: the table has no byte twice. `double_xor`: doubling goes
  through sums, and hence `mix_mix` and `mixAcross_mixAcross`, what comes of mixing a column twice
  and four times.
* **Steps of a round.** Each step is injective. `cell` finds a byte by its column and, counted
  round, its row, so that mixing the columns four times changes nothing (`iterate_mixColumns`).
* `rounds_injective`, by recursion on the round keys, and `aes256_injective`.
-/

namespace Signet

namespace Aes

open Function

/-! ### Bytes -/

-- As numbers, the bytes of the table are compared faster.
lemma nodup_substitutes : substitutes.toList.Nodup :=
  List.Nodup.of_map UInt8.toNat (by decide +kernel)

/-- No two bytes have the same byte in their place. -/
lemma substitute_injective : Injective substitute := by
  intro a b h
  have hsize : substitutes.size = 256 := by decide +kernel
  have ha : a.toNat < substitutes.size := hsize ▸ a.toNat_lt
  have hb : b.toNat < substitutes.size := hsize ▸ b.toNat_lt
  rw [substitute, substitute, Array.getD_eq_getD_getElem?, Array.getD_eq_getD_getElem?,
    Array.getElem?_eq_getElem ha, Array.getElem?_eq_getElem hb] at h
  have hplace := @List.Nodup.getElem_inj_iff _ _ nodup_substitutes a.toNat ha b.toNat hb
  exact UInt8.toNat_inj.mp (hplace.mp h)

/-- Twice a byte is the byte shifted, and reduced if a bit was lost. -/
lemma double_eq (b : UInt8) : double b = b <<< 1 ^^^ if b.toBitVec.msb then 0x1B else 0 := by
  have hsmall : b < 0x80 ↔ b.toBitVec.msb = false := by
    rw [UInt8.lt_iff_toNat_lt, BitVec.msb_eq_false_iff_two_mul_lt, UInt8.toNat_toBitVec]
    have hbound : (0x80 : UInt8).toNat = 128 := rfl
    omega
  rw [double]
  cases hmsb : b.toBitVec.msb
  · rw [if_pos (hsmall.mpr hmsb)]
    exact UInt8.xor_zero.symm
  · rw [if_neg (by rw [hsmall, hmsb]; decide)]
    rfl

lemma double_xor (a b : UInt8) : double (a ^^^ b) = double a ^^^ double b := by
  have hcarry : (if (a ^^^ b).toBitVec.msb then (0x1B : UInt8) else 0)
      = (if a.toBitVec.msb then 0x1B else 0) ^^^ if b.toBitVec.msb then 0x1B else 0 := by
    rw [UInt8.toBitVec_xor, BitVec.msb_xor]
    cases a.toBitVec.msb <;> cases b.toBitVec.msb <;> rfl
  rw [double_eq, double_eq, double_eq, UInt8.shiftLeft_xor, hcarry]
  ac_rfl

lemma xor_left_comm (a b c : UInt8) : a ^^^ (b ^^^ c) = b ^^^ (a ^^^ c) := by ac_rfl

lemma xor_xor_cancel (a b : UInt8) : a ^^^ (a ^^^ b) = b := by
  rw [← UInt8.xor_assoc, UInt8.xor_self, UInt8.zero_xor]

/-- A byte of a mixed column, from the bytes of the column that begins with it. -/
def mix (a b c d : UInt8) : UInt8 := double a ^^^ (double b ^^^ b) ^^^ c ^^^ d

/-- A byte mixed with the one across. -/
def mixAcross (a c : UInt8) : UInt8 := double (double a) ^^^ a ^^^ double (double c)

/-- Twice mixed, a byte is mixed with the one across only: all else occurs twice. -/
lemma mix_mix (a b c d : UInt8) :
    mix (mix a b c d) (mix b c d a) (mix c d a b) (mix d a b c) = mixAcross a c := by
  simp only [mix, mixAcross, double_xor]
  generalize double (double a) = a₂, double (double b) = b₂, double (double c) = c₂
  generalize double a = a₁, double b = b₁, double c = c₁, double d = d₁
  simp only [UInt8.xor_comm, xor_left_comm, xor_xor_cancel, UInt8.xor_self, UInt8.xor_zero]

/-- Twice mixed with each other, two bytes are as they were. -/
lemma mixAcross_mixAcross (a c : UInt8) :
    mixAcross (mixAcross a c) (mixAcross c a) = a := by
  simp only [mixAcross, double_xor]
  generalize double (double (double (double a))) = a₄, double (double (double (double c))) = c₄
  generalize double (double a) = a₂, double (double c) = c₂
  simp only [UInt8.xor_comm, xor_left_comm, xor_xor_cancel, UInt8.xor_self, UInt8.xor_zero]

/-! ### Steps of a round -/

lemma subBytes_injective : Injective subBytes := by
  intro s s' h
  refine Vector.ext fun i hi => ?_
  have hi' := congrArg (fun t : State => t[i]) h
  rw [subBytes, subBytes, Vector.getElem_map, Vector.getElem_map] at hi'
  exact substitute_injective hi'

lemma shiftRows_injective : Injective shiftRows := by
  intro s s' h
  refine Vector.ext fun i hi => ?_
  have hshift (t : State) : (shiftRows t)[(i + 12 * (i % 4)) % 16] = t[i] := by
    have hindex : ((i + 12 * (i % 4)) % 16 + 4 * ((i + 12 * (i % 4)) % 16 % 4)) % 16 = i := by
      omega
    simp only [shiftRows, Vector.getElem_ofFn, hindex]
  rw [← hshift, ← hshift, h]

/-- The byte of a state in a column and, counted round, a row. -/
def cell (s : State) (column row : ℕ) : UInt8 := s[(4 * column + row % 4) % 16]

lemma ext_cell {s s' : State} (h : ∀ c r, cell s c r = cell s' c r) : s = s' := by
  refine Vector.ext fun i hi => ?_
  have hindex : (4 * (i / 4) + i % 4) % 16 = i := by omega
  have hcell := h (i / 4) i
  simpa only [cell, hindex] using hcell

lemma cell_add_four (s : State) (c r : ℕ) : cell s c (r + 4) = cell s c r := by
  simp only [cell, Nat.add_mod_right]

lemma cell_mixColumns (s : State) (c r : ℕ) : cell (mixColumns s) c r
    = mix (cell s c r) (cell s c (r + 1)) (cell s c (r + 2)) (cell s c (r + 3)) := by
  have hindex (k : ℕ) : (4 * c + r % 4) % 16 / 4 * 4 + ((4 * c + r % 4) % 16 + k) % 4
      = (4 * c + (r + k) % 4) % 16 := by
    omega
  have hzero := hindex 0
  simp only [Nat.add_zero] at hzero
  simp only [cell, mix, mixColumns, Vector.getElem_ofFn, hindex, hzero]

lemma cell_mixColumns_mixColumns (s : State) (c r : ℕ) :
    cell (mixColumns (mixColumns s)) c r = mixAcross (cell s c r) (cell s c (r + 2)) := by
  have hround (k : ℕ) : cell s c (r + (4 + k)) = cell s c (r + k) := by
    rw [Nat.add_comm 4, ← Nat.add_assoc, cell_add_four]
  simp only [cell_mixColumns, Nat.add_assoc, Nat.reduceAdd, hround 1, hround 2, cell_add_four]
  exact mix_mix _ _ _ _

/-- Four times mixed, the columns are as they were. -/
lemma iterate_mixColumns (s : State) :
    mixColumns (mixColumns (mixColumns (mixColumns s))) = s := by
  refine ext_cell fun c r => ?_
  rw [cell_mixColumns_mixColumns, cell_mixColumns_mixColumns, cell_mixColumns_mixColumns,
    Nat.add_assoc, cell_add_four, mixAcross_mixAcross]

lemma mixColumns_injective : Injective mixColumns := by
  intro s s' h
  rw [← iterate_mixColumns s, h, iterate_mixColumns]

lemma addKey_injective (k : State) : Injective fun s => addKey s k := by
  intro s s' h
  refine Vector.ext fun i hi => ?_
  have hi' := congrArg (fun t : State => t[i]) h
  simp only [addKey, Vector.getElem_zipWith] at hi'
  exact (UInt8.xor_left_inj _).mp hi'

/-! ### The cipher -/

/-- The rounds are injective whatever the round keys are. -/
lemma rounds_injective (keys : List State) : Injective fun s => rounds s keys := by
  induction keys with
  | nil => exact fun s s' h => h
  | cons k keys ih =>
      cases keys with
      | nil =>
          exact (addKey_injective k).comp (shiftRows_injective.comp subBytes_injective)
      | cons k' keys =>
          refine ih.comp ((addKey_injective k).comp ?_)
          exact mixColumns_injective.comp (shiftRows_injective.comp subBytes_injective)

lemma ofBlock_injective : Injective State.ofBlock := by
  intro b b' h
  have hbytes := congrArg (fun s : State => s.toArray.toList) h
  exact FixedBytes.ext hbytes

lemma toBlock_injective : Injective State.toBlock := by
  intro s s' h
  have hbytes : s.toList = s'.toList := congrArg FixedBytes.toList h
  exact Vector.toList_inj.mp hbytes

lemma encrypt_injective (keys : List State) : Injective (encrypt keys) := by
  cases keys with
  | nil => exact fun b b' h => h
  | cons k keys =>
      exact toBlock_injective.comp ((rounds_injective keys).comp
        ((addKey_injective k).comp ofBlock_injective))

end Aes

/-- **AES under one key encrypts no two blocks alike.** -/
theorem aes256_injective (key : FixedBytes 32) : Function.Injective (aes256 key).encrypt :=
  Aes.encrypt_injective _

end Signet
