import Signet.Error
import Signet.Hash.Sha2

/-!
Deriving keys with one round of SHA-256.

* `Derivation.sharedSecretInput` and `Derivation.agreementInput` are what is
  hashed for a shared secret with a key id, and for an agreed secret with the
  name of an algorithm and data about the two parties.
* `Derivation.ofSharedSecret` and `Derivation.ofAgreement` give as many bits as
  are asked for; `Derivation.sharedSecretKey` and `Derivation.agreementKey` are
  the whole digests.
-/

namespace Signet.Derivation

/-- The greatest number of bits of a derived key. -/
def maxBits : Nat := 256

/-- The first bits of a digest; there have to be whole bytes of them. -/
def truncate (digest : FixedBytes 32) (bits : Nat) : Except Error Bytes :=
  if bits % 8 ≠ 0 ∨ maxBits < bits then .error (.badDerivedLength bits)
  else .ok (digest.toList.take (bits / 8))

/-- What is hashed for a shared secret and a key id. -/
def sharedSecretInput (secret : Bytes) (id : String) : Bytes :=
  Utf8.encode "SPXP-KDF" ++ secret ++ Utf8.encode id

/-- The key for a key id that follows from a shared secret. -/
def sharedSecretKey (secret : Bytes) (id : String) : FixedBytes 32 :=
  sha256 (sharedSecretInput secret id)

/-- The first bits of the key for a key id that follows from a shared secret. -/
def ofSharedSecret (secret : Bytes) (id : String) (bits : Nat) : Except Error Bytes :=
  truncate (sharedSecretKey secret id) bits

/-- A field after its length. -/
def lengthPrefixed (field : Bytes) : Bytes := Bytes.ofNatBE 4 field.length ++ field

/-- What is hashed for an agreed secret, the name of an algorithm, data about the two parties
and a number of bits. -/
def agreementInput (secret : Bytes) (algorithm : String) (sender recipient : Bytes)
    (bits : Nat) : Bytes :=
  Bytes.ofNatBE 4 1 ++ secret ++ lengthPrefixed (Utf8.encode algorithm) ++ lengthPrefixed sender
    ++ lengthPrefixed recipient ++ Bytes.ofNatBE 4 bits

/-- The first bits of what follows from an agreed secret, the name of an algorithm and data about
the two parties. -/
def ofAgreement (secret : Bytes) (algorithm : String) (sender recipient : Bytes) (bits : Nat) :
    Except Error Bytes :=
  truncate (sha256 (agreementInput secret algorithm sender recipient bits)) bits

/-- The key that follows from an agreed secret, without data about the two parties. -/
def agreementKey (secret : FixedBytes 32) (algorithm : String) : FixedBytes 32 :=
  sha256 (agreementInput secret.toList algorithm [] [] maxBits)

/-- All bits of a digest are the digest. -/
theorem truncate_maxBits (digest : FixedBytes 32) :
    truncate digest maxBits = .ok digest.toList := by
  simp [truncate, maxBits, List.take_of_length_le (Nat.le_of_eq digest.length_eq)]

/-- A key for a key id is a derived key of all bits. -/
theorem ofSharedSecret_maxBits (secret : Bytes) (id : String) :
    ofSharedSecret secret id maxBits = .ok (sharedSecretKey secret id).toList :=
  truncate_maxBits _

/-- A key from an agreement is a derived key of all bits. -/
theorem ofAgreement_maxBits (secret : FixedBytes 32) (algorithm : String) :
    ofAgreement secret.toList algorithm [] [] maxBits
      = .ok (agreementKey secret algorithm).toList :=
  truncate_maxBits _

end Signet.Derivation
