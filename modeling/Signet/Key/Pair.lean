import Signet.Curve.Ed25519
import Signet.Key.Symmetric

/-!
Key pairs on Curve25519.

* `KeyUse` tells keys that sign for a profile from keys that two profiles
  connect with; it is part of the type of a `PublicKey` and a `KeyPair`.
* `KeyPair.ofSecret` derives the public key, `KeyPair.ofBytes` takes both as
  they are given.
* `KeyPair.sign`, `PublicKey.verify` and `KeyPair.agree` use the keys.
-/

namespace Signet

/-- What a key pair is for. -/
inductive KeyUse where
  /-- Signing in the name of a profile. -/
  | profile
  /-- Agreeing on secrets with other profiles. -/
  | connect
  deriving DecidableEq, Repr

/-- The name of the curve that keys are on. -/
def KeyUse.curveName : KeyUse → String
  | .profile => "Ed25519"
  | .connect => "X25519"

/-- A public key with its id. -/
structure PublicKey (use : KeyUse) where
  /-- The key id. -/
  id : String
  /-- The public key. -/
  point : FixedBytes 32
  deriving DecidableEq

/-- A secret and a public key with their id. -/
structure KeyPair (use : KeyUse) where
  /-- The key id. -/
  id : String
  /-- The secret key, or the seed it is made from. -/
  secret : FixedBytes 32
  /-- The public key. -/
  point : FixedBytes 32
  deriving DecidableEq

variable {use : KeyUse}

/-- A public key from its bytes. -/
def PublicKey.ofBytes (id : String) (point : Bytes) : Except Error (PublicKey use) := do
  return ⟨id, ← readKeyBytes point⟩

namespace KeyPair

/-- A key pair from its bytes, which need not belong together. -/
def ofBytes (id : String) (secret point : Bytes) : Except Error (KeyPair use) := do
  let secret ← readKeyBytes secret
  let point ← readKeyBytes point
  return ⟨id, secret, point⟩

/-- A key pair whose public key follows from its secret key. -/
def ofSecret (publicOf : FixedBytes 32 → FixedBytes 32) (id : String) (secret : FixedBytes 32) :
    KeyPair use :=
  ⟨id, secret, publicOf secret⟩

/-- The public half. -/
def publicKey (k : KeyPair use) : PublicKey use := ⟨k.id, k.point⟩

/-- Draws a secret key for a given id. -/
def randomFor (publicOf : FixedBytes 32 → FixedBytes 32) (id : String) :
    StateM Tape (KeyPair use) := do
  return ofSecret publicOf id (← Tape.draw 32)

/-- Draws a long id and a secret key. -/
def random (publicOf : FixedBytes 32 → FixedBytes 32) : StateM Tape (KeyPair use) := do
  randomFor publicOf (← KeyId.random .long)

/-- Signs a message. -/
def sign (scheme : SignatureScheme) (k : KeyPair .profile) (message : Bytes) : FixedBytes 64 :=
  scheme.sign k.secret message

/-- What two keys have in common. It must not be zero, as it is for a point of low order. -/
def agree (scheme : AgreementScheme) (ours : KeyPair .connect) (theirs : PublicKey .connect) :
    Except Error (FixedBytes 32) :=
  let shared := scheme.shared ours.secret theirs.point
  if shared = FixedBytes.zero 32 then .error .agreementFailed else .ok shared

end KeyPair

/-- Checks a signature of a message. -/
def PublicKey.verify (scheme : SignatureScheme) (k : PublicKey .profile)
    (signature : FixedBytes 64) (message : Bytes) : Except Error Unit :=
  if scheme.verify k.point signature message then .ok () else .error .signatureInvalid

end Signet
