import Mathlib.Tactic
import Signet.Envelope.Compact
import Signet.Envelope.Message
import Signet.Proofs.Text.Padding

/-!
What is authenticated beside a ciphertext determines the header and the further data.

* **Headers.** `Base64.encodeBytes_injective` and `Base64.dot_notMem_encodeBytes`: the symbols of a
  header determine it, and there is no dot among them.
* **Further data.** `Envelope.aad_eq`: after the header there is nothing, or a dot and data,
  whatever bytes they are. `Envelope.takeWhile_aad`: so the header ends at the first dot.
* `Envelope.aad_eq_iff`: nothing can be moved from the header to the data or back, nor from an
  envelope in JSON to a compact one.
-/

namespace Signet

/-! ### Headers -/

namespace Base64

lemma encodeBytes_injective : Function.Injective encodeBytes := by
  intro a b h
  have ha := decodeBytes_encodeBytes a
  rw [h, decodeBytes_encodeBytes] at ha
  exact (Except.ok.inj ha).symm

lemma dot_notMem_encodeBytes (bs : Bytes) : 0x2E ∉ encodeBytes bs := by
  have hsymbol : ∀ v : Sextet, symbol v ≠ 0x2E := by decide
  intro h
  obtain ⟨v, -, hv⟩ := List.mem_map.mp h
  exact hsymbol v hv

end Base64

/-! ### Further data -/

namespace Envelope

lemma aad_eq (header : Bytes) (extra : Option Bytes) :
    aad header extra = Base64.encodeBytes header ++
      if extra.getD [] = [] then [] else 0x2E :: extra.getD [] := by
  rw [aad]
  cases extra with
  | none => rfl
  | some bytes => cases bytes <;> rfl

/-- The header is what stands before the first dot. -/
lemma takeWhile_aad (header : Bytes) (extra : Option Bytes) :
    (aad header extra).takeWhile (· ≠ 0x2E) = Base64.encodeBytes header := by
  have hheader : ∀ b ∈ Base64.encodeBytes header, (b ≠ 0x2E : Bool) = true := fun b hb =>
    decide_eq_true fun h => Base64.dot_notMem_encodeBytes header (h ▸ hb)
  rw [aad_eq, List.takeWhile_append_of_pos hheader]
  split <;> simp

lemma aad_injective {header header' : Bytes} {extra extra' : Option Bytes}
    (h : aad header extra = aad header' extra') :
    header = header' ∧ extra.getD [] = extra'.getD [] := by
  have hheader : header = header' := by
    apply Base64.encodeBytes_injective
    rw [← takeWhile_aad header extra, h, takeWhile_aad]
  refine ⟨hheader, ?_⟩
  rw [aad_eq, aad_eq, hheader, List.append_cancel_left_eq] at h
  split_ifs at h with hnil hnil'
  · rw [hnil, hnil']
  · exact (List.cons.inj h).2

/-- **Authenticated data determine the header and the further data**, of which absent and empty ones
count as the same. What a compact envelope authenticates is authenticated by no envelope in JSON
with further data. -/
theorem aad_eq_iff :
    (∀ (header header' : Bytes) (extra extra' : Option Bytes),
      aad header extra = aad header' extra' ↔ header = header' ∧ extra.getD [] = extra'.getD [])
    ∧ ∀ (header header' : String) (extra : Option Bytes),
      Compact.aad header = Message.aad header' extra ↔ header = header' ∧ extra.getD [] = [] := by
  have haad (header header' : Bytes) (extra extra' : Option Bytes) :
      aad header extra = aad header' extra' ↔
        header = header' ∧ extra.getD [] = extra'.getD [] := by
    refine ⟨aad_injective, ?_⟩
    rintro ⟨rfl, hextra⟩
    rw [aad_eq, aad_eq, hextra]
  refine ⟨haad, fun header header' extra => ?_⟩
  rw [Compact.aad, Message.aad, haad]
  exact and_congr ⟨Utf8.encode_injective, congrArg _⟩ eq_comm

end Envelope

end Signet
