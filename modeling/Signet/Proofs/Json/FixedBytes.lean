import Mathlib.Tactic
import Signet.Json.FixedBytes
import Signet.Proofs.Json.Written
import Signet.Proofs.Text.Padding

/-!
Bytes of fixed length have one spelling in JSON, up to padding.

* **Symbols.** `Base64.isSymbol_of_mem_encode`: what a written text consists of.
* **Strings.** `FixedBytes.ofJson_eq_ok_iff`: bytes are taken from a string that is base64 of as
  many, whether they are secret or not.
* `FixedBytes.spelling_unique` joins both with what base64 texts are read;
  `FixedBytes.ofJson_overpadded` is a string with more padding than its last group has room for.
-/

namespace Signet

/-! ### Symbols -/

namespace Base64

/-- The characters of the alphabet: letters, digits, `-` and `_`. -/
def IsSymbol (c : Char) : Prop := c.isAlphanum ∨ c = '-' ∨ c = '_'

instance (c : Char) : Decidable (IsSymbol c) := inferInstanceAs (Decidable (_ ∨ _))

lemma isSymbol_of_mem_encode {bs : Bytes} {c : Char} (hc : c ∈ (encode bs).toList) :
    IsSymbol c := by
  have hsymbol : ∀ v : Sextet, IsSymbol (Char.ofNat (symbol v).toNat) := by decide
  rw [encode, String.toList_ofList, encodeBytes, List.map_map] at hc
  obtain ⟨v, -, rfl⟩ := List.mem_map.mp hc
  exact hsymbol v

/-- With all its padding a written text consists of groups of four. -/
lemma four_dvd_length_padded (bs : Bytes) : 4 ∣ (padded (encode bs) (fill bs)).length := by
  rw [length_padded, ← String.length_toList, encode, String.toList_ofList, List.length_map,
    encodeBytes, List.length_map, fill]
  omega

end Base64

/-! ### Strings -/

namespace FixedBytes

variable {n : ℕ}

lemma read_eq_ok_iff {secrecy : Secrecy} {bytes : Bytes} {value : FixedBytes n} :
    read secrecy n bytes = .ok value ↔ bytes = value.toList := by
  rw [← ofList?_eq_some_iff, read]
  cases ofList? n bytes <;> simp

lemma ofJson_eq_ok_iff {secrecy : Secrecy} {v : Json} {value : FixedBytes n} :
    ofJson secrecy n v = .ok value
      ↔ ∃ text, v = .str text ∧ Base64.decode text = .ok value.toList := by
  cases v with
  | str text =>
      simp only [ofJson, Except.mapError_eq_ok_iff, Except.bind_eq_ok_iff, Base64.read_eq_ok_iff,
        read_eq_ok_iff, exists_eq_right, Json.str.injEq, exists_eq_left']
  | _ => simp [ofJson]

/-- **Bytes have one spelling, up to padding.** Every byte string is read from the symbols that are
written for it, also with the last group of four filled with padding, and from no text that is
something else once the padding at its end is cut off, nor from one with more padding. So bytes of
fixed length, secret or not, are taken from the JSON strings that spell them in this way, and what
is written for them is one of these. -/
theorem spelling_unique :
    (∀ bs : Bytes, Base64.decode (Base64.encode bs) = .ok bs
      ∧ Base64.decode (Base64.padded (Base64.encode bs) (Base64.fill bs)) = .ok bs
      ∧ 4 ∣ (Base64.padded (Base64.encode bs) (Base64.fill bs)).length
      ∧ ∀ c ∈ (Base64.encode bs).toList, Base64.IsSymbol c)
    ∧ (∀ (text : String) (bs : Bytes), Base64.decode text = .ok bs
      ↔ Base64.stripped text = Base64.encode bs
        ∧ text.length ≤ (Base64.encode bs).length + Base64.fill bs)
    ∧ (∀ (secrecy : Secrecy) (n : ℕ) (v : Json) (value : FixedBytes n),
      ofJson secrecy n v = .ok value ↔ ∃ text, v = .str text
        ∧ Base64.stripped text = Base64.encode value.toList
        ∧ text.length ≤ (Base64.encode value.toList).length + Base64.fill value.toList)
    ∧ ∀ (secrecy : Secrecy) (n : ℕ) (value : FixedBytes n), ∃ v,
      Json.read (Json.compact value.toJson) = .ok v ∧ ofJson secrecy n v = .ok value := by
  refine ⟨fun bs => ⟨Base64.decode_encode bs, ?_, Base64.four_dvd_length_padded bs,
    fun _ => Base64.isSymbol_of_mem_encode⟩, fun _ _ => Base64.decode_eq_ok_iff_stripped,
    fun secrecy n v value => ?_, fun secrecy n value => ?_⟩
  · exact Base64.decode_eq_ok_iff.mpr ⟨_, le_rfl, rfl⟩
  · simp only [ofJson_eq_ok_iff, Base64.decode_eq_ok_iff_stripped]
  · exact ⟨value.toJson, (Json.readsAs_str _).read,
      ofJson_eq_ok_iff.mpr ⟨_, rfl, Base64.decode_encode _⟩⟩

/-- More padding than the last group of four has room for is refused, though without it the string
spells twelve bytes. -/
theorem ofJson_overpadded :
    Base64.stripped "QkJCQkJCQkJCQkJC=" = Base64.encode (List.replicate 12 0x42)
    ∧ ofJson .plain 12 (.str "QkJCQkJCQkJCQkJC=")
      = .error (.invalid (.badBase64 .invalidLength))
    ∧ ofJson .secret 12 (.str "QkJCQkJCQkJCQkJC=")
      = .error (.invalid (.badBase64 .invalidLength)) := by
  have hdecode : Base64.decode "QkJCQkJCQkJCQkJC=" = .error .invalidLength := by decide
  refine ⟨by decide, ?_, ?_⟩ <;> rw [ofJson, Base64.read, hdecode] <;> rfl

end FixedBytes

end Signet
