import Mathlib.Tactic
import Signet.Json.Access

/-!
Base64 text is read as it is written.

* **Sextets.** `octets?_sextets`: bytes cut into values of six bits are put
  together again, whatever is left over after the groups of three.
* **Symbols.** `values_map_symbol_append`: symbols of the alphabet are no
  padding, so each stands for its own value. `utf8_encode`: each is one byte of
  text.
* **Padding.** `values_encodeBytes_padding`: as much as fills the last group of
  four stands for nothing, and more is refused.
* **Texts.** `decode_encode`: what was written is read back.
-/

namespace Signet.Base64

/-! ### Sextets -/

lemma val_ofNat_toNat (n : ℕ) : (Fin.ofNat 64 n).val = n % 64 := rfl

/-- A byte is its number, read modulo 256. -/
lemma ofNat_eq_of_mod {a : UInt8} {n : ℕ} (h : n % 256 = a.toNat) : UInt8.ofNat n = a := by
  apply UInt8.toNat_inj.mp
  rw [UInt8.toNat_ofNat']
  exact h

/-- Bytes are put together again from their sextets. -/
lemma octets?_sextets (bs : Bytes) : octets? (sextets bs) = some bs := by
  induction bs using sextets.induct with
  | case1 => rfl
  | case2 a =>
      have ha := a.toNat_lt
      have h0 : a.toNat % 4 * 16 % 64 % 16 = 0 := by omega
      have h1 : UInt8.ofNat (a.toNat / 4 % 64 * 4 + a.toNat % 4 * 16 % 64 / 16) = a :=
        ofNat_eq_of_mod (by omega)
      simp only [sextets, octets?, val_ofNat_toNat, h0, h1, if_true]
  | case3 a b =>
      have ha := a.toNat_lt
      have hb := b.toNat_lt
      have h0 : b.toNat % 16 * 4 % 64 % 4 = 0 := by omega
      have h1 : UInt8.ofNat (a.toNat / 4 % 64 * 4
          + (a.toNat % 4 * 16 + b.toNat / 16) % 64 / 16) = a := ofNat_eq_of_mod (by omega)
      have h2 : UInt8.ofNat ((a.toNat % 4 * 16 + b.toNat / 16) % 64 % 16 * 16
          + b.toNat % 16 * 4 % 64 / 4) = b := ofNat_eq_of_mod (by omega)
      simp only [sextets, octets?, val_ofNat_toNat, h0, h1, h2, if_true]
  | case4 a b c rest ih =>
      have ha := a.toNat_lt
      have hb := b.toNat_lt
      have hc := c.toNat_lt
      have h1 : UInt8.ofNat (a.toNat / 4 % 64 * 4
          + (a.toNat % 4 * 16 + b.toNat / 16) % 64 / 16) = a := ofNat_eq_of_mod (by omega)
      have h2 : UInt8.ofNat ((a.toNat % 4 * 16 + b.toNat / 16) % 64 % 16 * 16
          + (b.toNat % 16 * 4 + c.toNat / 64) % 64 / 4) = b := ofNat_eq_of_mod (by omega)
      have h3 : UInt8.ofNat ((b.toNat % 16 * 4 + c.toNat / 64) % 64 % 4 * 64
          + c.toNat % 64 % 64) = c := ofNat_eq_of_mod (by omega)
      simp only [sextets, octets?, val_ofNat_toNat, h1, h2, h3, ih, Option.map_some]

/-- One sextet is never left over. -/
lemma length_sextets_mod (bs : Bytes) : (sextets bs).length % 4 ≠ 1 := by
  induction bs using sextets.induct with
  | case1 => simp [sextets]
  | case2 a => simp [sextets]
  | case3 a b => simp [sextets]
  | case4 a b c rest ih =>
      simp only [sextets, List.length_cons]
      omega

/-! ### Symbols -/

lemma symbol_ne_padding : ∀ v : Sextet, symbol v ≠ padding := by decide

/-- A symbol is one byte of text. -/
lemma utf8EncodeChar_symbol :
    ∀ v : Sextet, String.utf8EncodeChar (Char.ofNat (symbol v).toNat) = [symbol v] := by
  decide

/-- Symbols stand for their values, at any offset and whatever comes after them. -/
lemma values_map_symbol_append (offset : ℕ) (vs : List Sextet) (rest : Bytes) :
    values offset none (vs.map symbol ++ rest)
      = (vs ++ ·) <$> values (offset + vs.length) none rest := by
  induction vs generalizing offset with
  | nil => cases h : values offset none rest <;> simp [h]
  | cons v vs ih =>
      rw [List.map_cons, List.cons_append]
      conv_lhs => unfold values
      rw [if_neg (symbol_ne_padding v), value?_symbol]
      simp only [ih (offset + 1), List.length_cons, Nat.add_assoc, Nat.add_comm 1]
      cases values (offset + (vs.length + 1)) none rest <;> rfl

/-- The text of bytes has one byte for each symbol. -/
lemma utf8_encode (bs : Bytes) : Utf8.encode (encode bs) = encodeBytes bs := by
  have key : ∀ vs : List Sextet,
      ((vs.map symbol).map fun b => Char.ofNat b.toNat).flatMap String.utf8EncodeChar
        = vs.map symbol := by
    intro vs
    induction vs with
    | nil => rfl
    | cons v vs ih =>
        rw [List.map_cons, List.map_cons, List.flatMap_cons, ih, utf8EncodeChar_symbol]
        rfl
  rw [Utf8.encode, encode, String.toList_ofList, encodeBytes]
  exact key (sextets bs)

/-! ### Padding -/

/-- How many padding characters fill the last group of four. -/
def fill (bs : Bytes) : ℕ := (4 - (sextets bs).length % 4) % 4

lemma le_fill_iff {bs : Bytes} {n : ℕ} :
    n ≤ fill bs ↔ ∀ i < n, 2 ≤ ((sextets bs).length + i) % 4 := by
  have hmod := length_sextets_mod bs
  constructor
  · intro hn i hi
    rw [fill] at hn
    omega
  · intro h
    by_contra hn
    -- The place behind the last group is the first of another one.
    have hnext := h (fill bs) (Nat.lt_of_not_le hn)
    rw [fill] at hnext
    omega

/-- Padding stands for nothing, and each has to be third or fourth in its group. -/
lemma values_replicate_padding {offset n : ℕ} {pad : Option ℕ} {vs : List Sextet} :
    values offset pad (List.replicate n padding) = .ok vs
      ↔ vs = [] ∧ ∀ i < n, 2 ≤ (offset + i) % 4 := by
  induction n generalizing offset pad with
  | zero => simp [values, eq_comm]
  | succ n ih =>
      rw [List.replicate_succ]
      unfold values
      rw [if_pos rfl, Nat.forall_lt_succ_left]
      split_ifs with h
      · simp [h]
      · rw [ih]
        simp [Nat.le_of_not_lt h, Nat.add_assoc, Nat.add_comm 1]

/-- After the symbols of bytes there can be as much padding as fills the last group. -/
lemma values_encodeBytes_padding {bs : Bytes} {n : ℕ} {vs : List Sextet} :
    values 0 none (encodeBytes bs ++ List.replicate n padding) = .ok vs
      ↔ vs = sextets bs ∧ n ≤ fill bs := by
  rw [encodeBytes, values_map_symbol_append, Except.map_eq_ok_iff, Nat.zero_add, le_fill_iff]
  simp only [values_replicate_padding]
  constructor
  · rintro ⟨_, ⟨rfl, hn⟩, rfl⟩
    exact ⟨List.append_nil _, hn⟩
  · rintro ⟨rfl, hn⟩
    exact ⟨[], ⟨rfl, hn⟩, List.append_nil _⟩

/-! ### Texts -/

lemma decodeBytes_encodeBytes_padding {bs : Bytes} {n : ℕ} (hn : n ≤ fill bs) :
    decodeBytes (encodeBytes bs ++ List.replicate n padding) = .ok bs := by
  have hlength : ¬ (encodeBytes bs ++ List.replicate n padding).length % 4 = 1 := by
    have hmod := length_sextets_mod bs
    rw [List.length_append, encodeBytes, List.length_map, List.length_replicate]
    rw [fill] at hn
    omega
  rw [decodeBytes, if_neg hlength, values_encodeBytes_padding.mpr ⟨rfl, hn⟩]
  simp only [bind, Except.bind, pure, Except.pure, octets?_sextets]

lemma decodeBytes_encodeBytes (bs : Bytes) : decodeBytes (encodeBytes bs) = .ok bs := by
  have h := decodeBytes_encodeBytes_padding (Nat.zero_le (fill bs))
  rwa [List.replicate_zero, List.append_nil] at h

/-- **Base64 text stands for the bytes that it was written for.** -/
theorem decode_encode (bs : Bytes) : decode (encode bs) = .ok bs := by
  rw [decode, utf8_encode, decodeBytes_encodeBytes]

lemma read_eq_ok_iff {text : String} {bs : Bytes} :
    read text = .ok bs ↔ decode text = .ok bs := by
  rw [read, Except.mapError_eq_ok_iff]

lemma read_eq_error_iff {text : String} {e : Error} :
    read text = .error e ↔ ∃ fault, decode text = .error fault ∧ .badBase64 fault = e :=
  Except.mapError_eq_error_iff

@[simp] lemma read_encode (bs : Bytes) : read (encode bs) = .ok bs := by
  rw [read, decode_encode]
  rfl

end Signet.Base64
