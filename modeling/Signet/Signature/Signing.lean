import Signet.Canonical.Form
import Signet.Key.Jwk
import Signet.Signature.Permission

/-!
Signing JSON objects.

* A signature is a member `signature` with `key`, the id of the signing key or
  a certificate for it, and `sig`, over the canonical form of the object
  without the members `private` and `seqts`.
* `Signing.sign` signs with a root key, `Signing.signWithCertificate` with a
  key that was issued a certificate. An `Outcome` is the object afterwards, with
  the error if signing failed.
* `Signing.certificateBody` says what a certificate grants to whom;
  `Signing.issueCertificate` signs one with a root key.
-/

namespace Signet.Signing

/-- The members that no signature covers. -/
def uncovered : List String := ["private", "seqts"]

/-- The members that are left out when a signature is checked. -/
def uncoveredOrSignature : List String := uncovered ++ ["signature"]

/-- The bytes that are signed. -/
def signedBytes (object : Json.Members) : Bytes :=
  Utf8.encode (Canonical.canonicalizeObject object uncovered)

/-- The bytes of a signed object that its signature covers. -/
def coveredBytes (object : Json.Members) : Bytes :=
  Utf8.encode (Canonical.canonicalizeObject object uncoveredOrSignature)

/-- The value of the member that is a signature. -/
def signatureJson (key : Json) (signature : FixedBytes 64) : Json :=
  .obj (Json.Members.ofList [("key", key), ("sig", .str (Base64.encode signature.toList))])

/-- An object after an attempt to sign it, and the reason if it failed. -/
abbrev Outcome := Json.Members × Option Error

/-- The signed object, or why there is none. -/
def Outcome.toExcept : Outcome → Except Error Json.Members
  | (object, none) => .ok object
  | (_, some e) => .error e

/-- The key that a certificate is about. -/
def subject (certificate : Json.Members) : Except Error (PublicKey .profile) := do
  PublicKey.ofJwk (← certificate.require "publicKey")

variable (scheme : SignatureScheme)

/-- Signs an object, where `key` tells which key it is signed with. -/
def attach (object : Json.Members) (pair : KeyPair .profile) (key : Json) : Outcome :=
  if object.contains "signature" then (object, some .alreadySigned)
  else
    let signature := pair.sign scheme (signedBytes object)
    (object.insert "signature" (signatureJson key signature), none)

/-- Signs an object with a root key. -/
def sign (object : Json.Members) (pair : KeyPair .profile) : Outcome :=
  attach scheme object pair (.str pair.id)

/-- Signs an object with the key that a certificate is about. -/
def signWithCertificate (object : Json.Members) (pair : KeyPair .profile)
    (certificate : Json.Members) : Outcome :=
  match subject certificate with
  | .error e => (object, some e)
  | .ok subject =>
    if subject.point ≠ pair.point then (object, some (.keyMismatch .otherSubject))
    else attach scheme object pair (.obj certificate)

/-- A certificate before it is signed. -/
def certificateBody (subject : PublicKey .profile) (grants : List Permission) : Json.Members :=
  Json.Members.ofList
    [("publicKey", subject.toJwk), ("grant", .arr (grants.map fun p => .str p.name))]

/-- A certificate signed with a root key. -/
def issueCertificate (subject : PublicKey .profile) (grants : List Permission)
    (issuer : KeyPair .profile) : Except Error Json.Members :=
  (sign scheme (certificateBody subject grants) issuer).toExcept

end Signet.Signing
