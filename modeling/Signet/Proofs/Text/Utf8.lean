import Mathlib.Tactic
import Signet.Json.Access

/-!
Text as bytes, both ways.

* `decode_eq_ok_iff`: bytes are read as the text that is written as them, and as no
  other.
* `length_encode_le`: no character takes more than four bytes.
-/

namespace Signet.Utf8

lemma toByteArray_encode (s : String) : (encode s).toByteArray = s.toByteArray := by
  rw [encode, ← String.utf8Encode_toList, List.utf8Encode]

/-- **Bytes are read as the text that is written as them**, and as no other. -/
theorem decode_eq_ok_iff {bs : Bytes} {s : String} : decode bs = .ok s ↔ bs = encode s := by
  constructor
  · intro h
    rw [decode, String.fromUTF8?] at h
    by_cases hvalid : bs.toByteArray.IsValidUTF8
    · rw [dif_pos hvalid] at h
      cases h
      rw [← List.toByteArray_inj, toByteArray_encode]
      rfl
    · rw [dif_neg hvalid] at h
      cases h
  · rintro rfl
    rw [decode, toByteArray_encode, String.fromUTF8?, dif_pos s.isValidUTF8]
    rfl

lemma encode_injective {s t : String} (h : encode s = encode t) : s = t := by
  have hs := decode_eq_ok_iff.mpr (rfl : encode s = encode s)
  rw [h, decode_eq_ok_iff.mpr rfl] at hs
  exact (Except.ok.inj hs).symm

lemma read_eq_ok_iff {bs : Bytes} {s : String} : read bs = .ok s ↔ bs = encode s := by
  rw [read, Except.mapError_eq_ok_iff, decode_eq_ok_iff]

lemma read_eq_error_iff {bytes : Bytes} {e : Error} :
    read bytes = .error e
      ↔ ∃ fault, decode bytes = .error fault ∧ .badUtf8 bytes fault = e :=
  Except.mapError_eq_error_iff

lemma length_encode_le (s : String) : (encode s).length ≤ 4 * s.length := by
  rw [encode, ← String.length_toList]
  induction s.toList with
  | nil => exact le_rfl
  | cons c cs ih =>
      have hc := c.utf8Size_le_four
      rw [List.flatMap_cons, List.length_append, String.length_utf8EncodeChar, List.length_cons]
      omega

end Signet.Utf8
