import Mathlib.Tactic
import Signet.Key.Derivation
import Signet.Proofs.Bytes
import Signet.Proofs.Text.Utf8

/-!
What is hashed to derive a key determines what the key is derived from.

* **Fields after their lengths.** `lengthPrefixed_append_injective`: such a field ends where its
  length says, whatever its bytes are.
* **Inputs.** `agreementInput_injective` reads the fields of an input from the front,
  `sharedSecretInput_injective` is the same for shared secrets, and the first byte tells the two
  kinds apart in `sharedSecretInput_ne_agreementInput`.
* **Lengths.** `derives_truncate`: whole bytes, and no more than a digest has.
* `inputs_separated` joins them.
-/

namespace Signet.Derivation

/-! ### Fields after their lengths -/

lemma lengthPrefixed_append_injective {field field' rest rest' : Bytes}
    (hfield : field.length < 2 ^ 32) (hfield' : field'.length < 2 ^ 32)
    (h : lengthPrefixed field ++ rest = lengthPrefixed field' ++ rest') :
    field = field' ∧ rest = rest' := by
  rw [lengthPrefixed, lengthPrefixed, List.append_assoc, List.append_assoc] at h
  obtain ⟨hstart, h⟩ := List.append_inj h (by rw [Bytes.length_ofNatBE, Bytes.length_ofNatBE])
  have hlength : field.length = field'.length :=
    Bytes.ofNatBE_injective (hfield.trans_eq (by norm_num)) (hfield'.trans_eq (by norm_num)) hstart
  exact List.append_inj h hlength

/-! ### Lengths -/

/-- The numbers of bits that a derived key can have. -/
def IsLength (bits : ℕ) : Prop := 8 ∣ bits ∧ bits ≤ maxBits

/-- An outcome is as many bits of the digest of an input as are asked for, and an error for the
numbers of bits that no key has. -/
inductive Derives (input : Bytes) (bits : ℕ) : Except Error Bytes → Prop
  | derived {key : Bytes} (hlength : IsLength bits) (hkey : key <+: (sha256 input).toList)
      (hkeyLength : key.length = bits / 8) : Derives input bits (.ok key)
  | refused (hlength : ¬IsLength bits) : Derives input bits (.error (.badDerivedLength bits))

lemma derives_truncate (input : Bytes) (bits : ℕ) :
    Derives input bits (truncate (sha256 input) bits) := by
  by_cases hlength : IsLength bits
  · have ⟨hbytes, hbits⟩ := hlength
    rw [truncate, if_neg (by omega)]
    refine .derived hlength (List.take_prefix _ _) ?_
    rw [List.length_take, (sha256 input).length_eq, Nat.min_eq_left]
    rw [maxBits] at hbits
    omega
  · have hrefused : bits % 8 ≠ 0 ∨ maxBits < bits := by
      rw [IsLength] at hlength
      omega
    rw [truncate, if_pos hrefused]
    exact .refused hlength

/-! ### Inputs -/

lemma agreementInput_injective {secret secret' : Bytes} {algorithm algorithm' : String}
    {sender sender' recipient recipient' : Bytes} {bits bits' : ℕ}
    (hsecret : secret.length = secret'.length)
    (halgorithm : (Utf8.encode algorithm).length < 2 ^ 32)
    (halgorithm' : (Utf8.encode algorithm').length < 2 ^ 32)
    (hsender : sender.length < 2 ^ 32) (hsender' : sender'.length < 2 ^ 32)
    (hrecipient : recipient.length < 2 ^ 32) (hrecipient' : recipient'.length < 2 ^ 32)
    (hbits : IsLength bits) (hbits' : IsLength bits')
    (h : agreementInput secret algorithm sender recipient bits
      = agreementInput secret' algorithm' sender' recipient' bits') :
    secret = secret' ∧ algorithm = algorithm' ∧ sender = sender' ∧ recipient = recipient'
      ∧ bits = bits' := by
  have hfit {n : ℕ} (hn : IsLength n) : n < 256 ^ 4 := hn.2.trans_lt (by norm_num [maxBits])
  rw [agreementInput, agreementInput] at h
  simp only [List.append_assoc] at h
  -- Only the secret has no length in front of it.
  obtain ⟨rfl, hfields⟩ := List.append_inj (List.append_cancel_left h) hsecret
  obtain ⟨hencoded, hparties⟩ := lengthPrefixed_append_injective halgorithm halgorithm' hfields
  obtain ⟨rfl, hlast⟩ := lengthPrefixed_append_injective hsender hsender' hparties
  obtain ⟨rfl, hnumber⟩ := lengthPrefixed_append_injective hrecipient hrecipient' hlast
  exact ⟨rfl, Utf8.encode_injective hencoded, rfl, rfl,
    Bytes.ofNatBE_injective (hfit hbits) (hfit hbits') hnumber⟩

lemma sharedSecretInput_injective {secret secret' : Bytes} {id id' : String}
    (hsecret : secret.length = secret'.length)
    (h : sharedSecretInput secret id = sharedSecretInput secret' id') :
    secret = secret' ∧ id = id' := by
  rw [sharedSecretInput, sharedSecretInput, List.append_assoc, List.append_assoc] at h
  obtain ⟨rfl, hid⟩ := List.append_inj (List.append_cancel_left h) hsecret
  exact ⟨rfl, Utf8.encode_injective hid⟩

/-- An input for a shared secret begins with a letter, an input for an agreement with a zero. -/
lemma sharedSecretInput_ne_agreementInput (secret : Bytes) (id : String) (agreed : Bytes)
    (algorithm : String) (sender recipient : Bytes) (bits : ℕ) :
    sharedSecretInput secret id ≠ agreementInput agreed algorithm sender recipient bits := by
  intro h
  have hletter : (sharedSecretInput secret id).head? = some 0x53 := by
    rw [sharedSecretInput, List.append_assoc, List.head?_append, show
      (Utf8.encode "SPXP-KDF").head? = some 0x53 by decide, Option.some_or]
  have hzero : (agreementInput agreed algorithm sender recipient bits).head? = some 0 := by
    simp only [agreementInput, List.append_assoc]
    rw [List.head?_append, show (Bytes.ofNatBE 4 1).head? = some 0 by decide, Option.some_or]
  rw [h, hzero] at hletter
  exact absurd hletter (by decide)

/-- **What is hashed determines what a key is derived from.** An input for an agreement determines
the agreed secret among those of one length, the name of the algorithm, the data about the parties
and the number of bits. An input for a shared secret determines the secret among those of one length
and the key id, and no input is of both kinds. A key is the beginning of the digest, so for a shared
secret the shorter keys begin the longer ones. -/
theorem inputs_separated :
    (∀ (secret secret' : Bytes) (algorithm algorithm' : String)
        (sender sender' recipient recipient' : Bytes) (bits bits' : ℕ),
      secret.length = secret'.length →
      (Utf8.encode algorithm).length < 2 ^ 32 → (Utf8.encode algorithm').length < 2 ^ 32 →
      sender.length < 2 ^ 32 → sender'.length < 2 ^ 32 →
      recipient.length < 2 ^ 32 → recipient'.length < 2 ^ 32 →
      IsLength bits → IsLength bits' →
      agreementInput secret algorithm sender recipient bits
        = agreementInput secret' algorithm' sender' recipient' bits' →
      secret = secret' ∧ algorithm = algorithm' ∧ sender = sender' ∧ recipient = recipient'
        ∧ bits = bits')
    ∧ (∀ (secret : Bytes) (id : String) (agreed : Bytes) (algorithm : String)
        (sender recipient : Bytes) (bits : ℕ),
      sharedSecretInput secret id ≠ agreementInput agreed algorithm sender recipient bits)
    ∧ (∀ (secret secret' : Bytes) (id id' : String), secret.length = secret'.length →
      sharedSecretInput secret id = sharedSecretInput secret' id' → secret = secret' ∧ id = id')
    ∧ (∀ (secret : Bytes) (id : String) (few many : ℕ) (short long : Bytes), few ≤ many →
      ofSharedSecret secret id few = .ok short → ofSharedSecret secret id many = .ok long →
      short <+: long)
    ∧ (∀ (secret : Bytes) (id : String) (bits : ℕ),
      Derives (sharedSecretInput secret id) bits (ofSharedSecret secret id bits))
    ∧ ∀ (secret : Bytes) (algorithm : String) (sender recipient : Bytes) (bits : ℕ),
      Derives (agreementInput secret algorithm sender recipient bits) bits
        (ofAgreement secret algorithm sender recipient bits) := by
  have hshared (secret : Bytes) (id : String) (bits : ℕ) :
      Derives (sharedSecretInput secret id) bits (ofSharedSecret secret id bits) :=
    derives_truncate _ bits
  refine ⟨fun _ _ _ _ _ _ _ _ _ _ => agreementInput_injective, sharedSecretInput_ne_agreementInput,
    fun _ _ _ _ => sharedSecretInput_injective, ?_, hshared, fun _ _ _ _ bits =>
      derives_truncate _ bits⟩
  intro secret id few many short long hle hshort hlong
  have hfew := hshared secret id few
  have hmany := hshared secret id many
  rw [hshort] at hfew
  rw [hlong] at hmany
  cases hfew with
  | derived _ hstart hlength =>
      cases hmany with
      | derived _ hstart' hlength' =>
          refine List.prefix_of_prefix_length_le hstart hstart' ?_
          rw [hlength, hlength']
          exact Nat.div_le_div_right hle

/-- Data that look like the length of the next field are still told apart, half a key begins the
whole key, and there is no key of 100 bits. -/
theorem inputs_separated_zeros :
    agreementInput [] "A256GCM" [0, 0, 0, 0] [] 256
        ≠ agreementInput [] "A256GCM" [] [0, 0, 0, 0] 256
      ∧ (∃ short long, ofSharedSecret [1, 2, 3] "test" 128 = .ok short
        ∧ ofSharedSecret [1, 2, 3] "test" 256 = .ok long ∧ short <+: long)
      ∧ ofAgreement [1, 2, 3] "A256GCM" [] [] 100 = .error (.badDerivedLength 100) := by
  obtain ⟨hagreement, -, -, hbegins, -, hderives⟩ := inputs_separated
  have hrefused {input : Bytes} {outcome : Except Error Bytes} (h : Derives input 100 outcome) :
      outcome = .error (.badDerivedLength 100) := by
    cases h with
    | derived hlength => exact absurd hlength.1 (by decide)
    | refused => rfl
  refine ⟨fun h => ?_, ⟨_, _, rfl, rfl, ?_⟩, hrefused (hderives [1, 2, 3] "A256GCM" [] [] 100)⟩
  · have hsender := (hagreement [] [] "A256GCM" "A256GCM" [0, 0, 0, 0] [] [] [0, 0, 0, 0] 256 256
      rfl (by decide) (by decide) (by decide) (by decide) (by decide) (by decide)
      ⟨by decide, by decide⟩ ⟨by decide, by decide⟩ h).2.2.1
    exact absurd hsender (by decide)
  · exact hbegins [1, 2, 3] "test" 128 256 _ _ (by decide) rfl rfl

end Signet.Derivation
