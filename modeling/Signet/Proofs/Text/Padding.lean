import Mathlib.Data.List.DropRight
import Mathlib.Tactic
import Signet.Proofs.Text.Base64
import Signet.Proofs.Text.Utf8

/-!
Base64 text is determined by its bytes, up to padding.

* **Symbols.** `symbol_of_value?`: a value has one symbol. `exists_padding_of_values`: a text
  is the symbols of its values and then padding. The induction is on the text from any offset
  on; once padding has begun no value may follow.
* **Sextets.** `sextets_of_octets?`: no other values stand for the same bytes, because
  bits beyond the last whole byte have to be zero.
* **Written texts.** `length_encodeBytes_le`, `notMem_encode`: how long they are at most, and
  that there is no character in them but symbols.
* **Texts.** `decode_eq_ok_iff`: a text that is read is the written one with padding at its
  end, no more than fills the last group of four. So it is the written one once the padding is
  left out (`unpadded_of_decode`), or cut off the end (`decode_eq_ok_iff_stripped`).
-/

namespace Signet.Base64

/-! ### Symbols -/

/-- A value has one symbol. -/
lemma symbol_of_value? {b : UInt8} {v : Sextet} (h : value? b = some v) : symbol v = b := by
  have hval (n : ℕ) (hn : n < 64) : (Fin.ofNat 64 n).val = n := Nat.mod_eq_of_lt hn
  unfold value? at h
  simp only [UInt8.le_iff_toNat_le, UInt8.reduceToNat] at h
  split_ifs at h with hupper hlower hdigit hminus hunder <;> cases h
  · rw [symbol, hval _ (by omega), if_pos (by omega)]
    exact ofNat_eq_of_mod (by omega)
  · rw [symbol, hval _ (by omega), if_neg (by omega), if_pos (by omega)]
    exact ofNat_eq_of_mod (by omega)
  · rw [symbol, hval _ (by omega), if_neg (by omega), if_neg (by omega), if_pos (by omega)]
    exact ofNat_eq_of_mod (by omega)
  · exact hminus.symm
  · exact hunder.symm

/-- A text is the symbols of its values and then padding, and nothing but padding once that has
begun. -/
lemma exists_padding_of_values {offset : ℕ} {pad : Option ℕ} {text : Bytes} {vs : List Sextet}
    (h : values offset pad text = .ok vs) :
    (∃ n, text = vs.map symbol ++ List.replicate n padding) ∧ (pad ≠ none → vs = []) := by
  induction text generalizing offset pad vs with
  | nil =>
      cases h
      exact ⟨⟨0, rfl⟩, fun _ => rfl⟩
  | cons b bs ih =>
      unfold values at h
      split at h
      · rename_i hb
        split at h
        · cases h
        · obtain ⟨⟨n, rfl⟩, hnone⟩ := ih h
          obtain rfl := hnone (Option.some_ne_none _)
          exact ⟨⟨n + 1, by rw [hb]; rfl⟩, fun _ => rfl⟩
      · split at h
        · cases h
        · cases h
        · rename_i v hv
          obtain ⟨vs, hvs, h⟩ := Except.bind_eq_ok_iff.mp h
          cases h
          obtain ⟨⟨n, rfl⟩, -⟩ := ih hvs
          refine ⟨⟨n, ?_⟩, fun hpad => absurd rfl hpad⟩
          rw [List.map_cons, List.cons_append, symbol_of_value? hv]

/-! ### Sextets -/

/-- A value is its number, read modulo 64. -/
lemma sextet_ofNat_eq {v : Sextet} {n : ℕ} (h : n % 64 = v.val) : Fin.ofNat 64 n = v :=
  Fin.ext h

/-- No two lists of values stand for the same bytes. -/
lemma sextets_of_octets? {vs : List Sextet} {bs : Bytes} (h : octets? vs = some bs) :
    sextets bs = vs := by
  induction vs using octets?.induct generalizing bs with
  | case1 =>
      cases h
      rfl
  | case2 => cases h
  | case3 x y hy =>
      rw [octets?, if_pos hy] at h
      cases h
      have hx := x.isLt
      have hy' := y.isLt
      have h0 : (x.val * 4 + y.val / 16) % 256 / 4 % 64 = x.val := by omega
      have h1 : (x.val * 4 + y.val / 16) % 256 % 4 * 16 % 64 = y.val := by omega
      rw [sextets, UInt8.toNat_ofNat', sextet_ofNat_eq h0, sextet_ofNat_eq h1]
  | case4 x y hy =>
      rw [octets?, if_neg hy] at h
      cases h
  | case5 x y z hz =>
      rw [octets?, if_pos hz] at h
      cases h
      have hx := x.isLt
      have hy := y.isLt
      have hz' := z.isLt
      have h0 : (x.val * 4 + y.val / 16) % 256 / 4 % 64 = x.val := by omega
      have h1 : ((x.val * 4 + y.val / 16) % 256 % 4 * 16
          + (y.val % 16 * 16 + z.val / 4) % 256 / 16) % 64 = y.val := by omega
      have h2 : (y.val % 16 * 16 + z.val / 4) % 256 % 16 * 4 % 64 = z.val := by omega
      rw [sextets, UInt8.toNat_ofNat', UInt8.toNat_ofNat', sextet_ofNat_eq h0, sextet_ofNat_eq h1,
        sextet_ofNat_eq h2]
  | case6 x y z hz =>
      rw [octets?, if_neg hz] at h
      cases h
  | case7 x y z w rest ih =>
      rw [octets?] at h
      obtain ⟨bs', hbs, rfl⟩ := Option.map_eq_some_iff.mp h
      have hx := x.isLt
      have hy := y.isLt
      have hz := z.isLt
      have hw := w.isLt
      have h0 : (x.val * 4 + y.val / 16) % 256 / 4 % 64 = x.val := by omega
      have h1 : ((x.val * 4 + y.val / 16) % 256 % 4 * 16
          + (y.val % 16 * 16 + z.val / 4) % 256 / 16) % 64 = y.val := by omega
      have h2 : ((y.val % 16 * 16 + z.val / 4) % 256 % 16 * 4
          + (z.val % 4 * 64 + w.val) % 256 / 64) % 64 = z.val := by omega
      have h3 : (z.val % 4 * 64 + w.val) % 256 % 64 % 64 = w.val := by omega
      rw [sextets, ih hbs, UInt8.toNat_ofNat', UInt8.toNat_ofNat', UInt8.toNat_ofNat',
        sextet_ofNat_eq h0, sextet_ofNat_eq h1, sextet_ofNat_eq h2, sextet_ofNat_eq h3]

/-! ### Written texts -/

lemma length_encodeBytes_le (bs : Bytes) : (encodeBytes bs).length ≤ 2 * bs.length := by
  rw [encodeBytes, List.length_map]
  induction bs using sextets.induct with
  | case1 => exact le_rfl
  | case2 a => exact le_rfl
  | case3 a b => simp [sextets]
  | case4 a b c rest ih =>
      simp only [sextets, List.length_cons]
      omega

lemma length_encode_le (bs : Bytes) : (encode bs).length ≤ 2 * bs.length := by
  rw [← String.length_toList, encode, String.toList_ofList, List.length_map]
  exact length_encodeBytes_le bs

/-- A character that is no symbol is not in a written text. -/
lemma notMem_encode {c : Char} (hsymbol : ∀ v : Sextet, Char.ofNat (symbol v).toNat ≠ c)
    (bs : Bytes) : c ∉ (encode bs).toList := by
  rw [encode, String.toList_ofList, encodeBytes, List.map_map]
  intro h
  obtain ⟨v, -, hv⟩ := List.mem_map.mp h
  exact hsymbol v hv

lemma dot_notMem_encode (bs : Bytes) : '.' ∉ (encode bs).toList := notMem_encode (by decide) bs

/-! ### Texts -/

/-- A text with some padding at its end. -/
def padded (text : String) (n : ℕ) : String := text ++ String.ofList (List.replicate n '=')

/-- A text without its padding. -/
def unpadded (text : String) : String := String.ofList (text.toList.filter (· ≠ '='))

@[simp] lemma unpadded_append (a b : String) :
    unpadded (a ++ b) = unpadded a ++ unpadded b := by
  rw [unpadded, String.toList_append, List.filter_append, String.ofList_append, unpadded, unpadded]

/-- Nothing else is left out of a written text with padding. -/
lemma unpadded_padded_encode (bs : Bytes) (n : ℕ) :
    unpadded (padded (encode bs) n) = encode bs := by
  have hencode : (encode bs).toList.filter (· ≠ '=') = (encode bs).toList :=
    List.filter_eq_self.mpr fun c hc =>
      decide_eq_true fun h => notMem_encode (by decide) bs (h ▸ hc)
  rw [padded, unpadded_append, unpadded, hencode, unpadded]
  simp

lemma decodeBytes_eq_ok_iff {text bs : Bytes} :
    decodeBytes text = .ok bs
      ↔ ∃ n ≤ fill bs, text = encodeBytes bs ++ List.replicate n padding := by
  constructor
  · intro h
    rw [decodeBytes] at h
    by_cases hlength : text.length % 4 = 1
    · rw [if_pos hlength] at h
      cases hlast : text.getLast? with
      | none => simp [hlast] at h
      | some b =>
          simp only [hlast] at h
          split at h <;> simp at h
    · rw [if_neg hlength] at h
      obtain ⟨vs, hvs, h⟩ := Except.bind_eq_ok_iff.mp h
      split at h
      · rename_i bs' hbs
        cases h
        obtain ⟨n, rfl⟩ := (exists_padding_of_values hvs).1
        rw [← sextets_of_octets? hbs, ← encodeBytes, values_encodeBytes_padding] at hvs
        exact ⟨n, hvs.2, by rw [← sextets_of_octets? hbs, ← encodeBytes]⟩
      · cases h
  · rintro ⟨n, hn, rfl⟩
    exact decodeBytes_encodeBytes_padding hn

lemma utf8_padded (bs : Bytes) (n : ℕ) :
    Utf8.encode (padded (encode bs) n) = encodeBytes bs ++ List.replicate n padding := by
  have hpadding : String.utf8EncodeChar '=' = [padding] := by decide
  rw [← utf8_encode, padded, Utf8.encode, Utf8.encode, String.toList_append,
    String.toList_ofList, List.flatMap_append, List.flatMap_replicate, hpadding]
  simp

/-- **Base64 text is the text of its bytes with padding at its end**, no more than fills the last
group of four. -/
theorem decode_eq_ok_iff {text : String} {bs : Bytes} :
    decode text = .ok bs ↔ ∃ n ≤ fill bs, text = padded (encode bs) n := by
  rw [decode, decodeBytes_eq_ok_iff]
  refine exists_congr fun n => and_congr_right fun _ => ?_
  rw [← utf8_padded]
  exact ⟨Utf8.encode_injective, congrArg _⟩

/-- **Base64 text is the text of its bytes once padding is left out of it.** -/
theorem unpadded_of_decode {text : String} {bs : Bytes} (h : decode text = .ok bs) :
    unpadded text = encode bs := by
  obtain ⟨n, -, rfl⟩ := decode_eq_ok_iff.mp h
  exact unpadded_padded_encode bs n

/-! ### Padding at the end -/

/-- A text without the padding at its end. -/
def stripped (text : String) : String := String.ofList (text.toList.rdropWhile (· = '='))

lemma stripped_padded_encode (bs : Bytes) (n : ℕ) :
    stripped (padded (encode bs) n) = encode bs := by
  rw [stripped, padded, String.toList_append, String.toList_ofList]
  induction n with
  | zero =>
      have hlast : (encode bs).toList.rdropWhile (· = '=') = (encode bs).toList :=
        List.rdropWhile_eq_self_iff.mpr fun hnil h =>
          notMem_encode (by decide) bs (of_decide_eq_true h ▸ List.getLast_mem hnil)
      rw [List.replicate_zero, List.append_nil, hlast, String.ofList_toList]
  | succ n ih =>
      rw [List.replicate_succ', ← List.append_assoc, List.rdropWhile_concat_pos _ _ _ (by simp), ih]

/-- What was cut off is padding. -/
lemma exists_padded_stripped (text : String) : ∃ n, text = padded (stripped text) n := by
  refine ⟨(text.toList.rtakeWhile (· = '=')).length, ?_⟩
  have hpadding : text.toList.rtakeWhile (· = '=')
      = List.replicate (text.toList.rtakeWhile (· = '=')).length '=' :=
    List.eq_replicate_iff.mpr ⟨rfl, fun _ hc => by simpa using List.mem_rtakeWhile_imp hc⟩
  rw [padded, ← hpadding, stripped, ← String.ofList_append, List.rdropWhile_append_rtakeWhile,
    String.ofList_toList]

lemma length_padded (text : String) (n : ℕ) : (padded text n).length = text.length + n := by
  rw [padded, String.length_append, String.length_ofList, List.length_replicate]

/-- **Base64 text is the text of its bytes once the padding at its end is cut off**, and no longer
than with its last group of four filled. -/
theorem decode_eq_ok_iff_stripped {text : String} {bs : Bytes} :
    decode text = .ok bs
      ↔ stripped text = encode bs ∧ text.length ≤ (encode bs).length + fill bs := by
  rw [decode_eq_ok_iff]
  constructor
  · rintro ⟨n, hn, rfl⟩
    rw [length_padded]
    exact ⟨stripped_padded_encode bs n, Nat.add_le_add_left hn _⟩
  · rintro ⟨hstripped, hlength⟩
    obtain ⟨n, htext⟩ := exists_padded_stripped text
    rw [hstripped] at htext
    rw [htext, length_padded] at hlength
    exact ⟨n, Nat.le_of_add_le_add_left hlength, htext⟩

end Signet.Base64
