import Signet.Base64
import Signet.Json.Fault
import Signet.ByteStream.Fault

/-!
The errors of the library.

* `Error` has one constructor for each cause, with what is known about it;
  equal causes are equal errors.
* `Error.message` says it in words.
* `Error.isNoSuchKey` singles out the one that another key may cure.
-/

namespace Signet

/-- What is wrong with the structure of an envelope. -/
inductive EnvelopeFlaw where
  /-- A compact envelope has not five parts. -/
  | partCount
  /-- A compact envelope carries an encrypted key. -/
  | encryptedKey
  /-- The header of a compact envelope has a member for further authenticated data. -/
  | headerAad
  /-- There is nobody to seal for. -/
  | noRecipient
  /-- An envelope sealed by key agreement is not for exactly one recipient. -/
  | recipientCount
  deriving DecidableEq, Repr

/-- Why a key is not of the kind that is called for. -/
inductive KeyMismatch where
  /-- A member of an exported key has another value. -/
  | member (name expected found : String)
  /-- A certificate is about another key. -/
  | otherSubject
  deriving DecidableEq, Repr

/-- An error of the library. -/
inductive Error where
  /-- The object to sign carries a signature. -/
  | alreadySigned
  /-- A value of fixed size has another one. -/
  | badLength (field : String) (expected got : Nat)
  /-- The shared secret is zero, so the other public key is of low order. -/
  | agreementFailed
  /-- A sealed message does not fit the key, the IV, the tag or the authenticated data. -/
  | openFailed
  /-- A message or its authenticated data is too long to seal. -/
  | sealFailed
  /-- A signature does not verify. -/
  | signatureInvalid
  /-- A text is no base64. -/
  | badBase64 (fault : Base64.Fault)
  /-- An envelope has the wrong structure. -/
  | badEnvelope (flaw : EnvelopeFlaw)
  /-- Bytes that have to be text are not UTF-8. -/
  | badUtf8 (bytes : Bytes) (fault : Utf8.Fault)
  /-- A stream failed. -/
  | streamFailed (fault : ByteStream.Fault)
  /-- A text is no JSON, or a value cannot be written as JSON. -/
  | badJson (fault : Json.Fault)
  /-- An object lacks a member. -/
  | missingMember (name : String)
  /-- A member has a value of another type. -/
  | wrongType (name : String)
  /-- No key of so many bits can be derived. -/
  | badDerivedLength (bits : Nat)
  /-- A key has the wrong length. -/
  | badKeyLength (expected got : Nat)
  /-- A key is not of the kind that is called for. -/
  | keyMismatch (reason : KeyMismatch)
  /-- No key of so many bits can be generated. -/
  | badGeneratedLength (bits : Nat)
  /-- There is no key for a key id. -/
  | noSuchKey (id : String)
  /-- A certificate was used where only the root key may sign. -/
  | certificateNotAllowed
  /-- A chain has more certificates than the verifier follows. -/
  | chainTooDeep (limit : Nat)
  /-- The object carries no signature. -/
  | notSigned
  /-- A certificate does not grant a permission. -/
  | permissionMissing (permission : String)
  /-- An envelope names an algorithm that is not supported. -/
  | unsupportedAlgorithm (name : String)
  deriving DecidableEq, Repr

namespace EnvelopeFlaw

/-- What is said about a flaw. -/
def message : EnvelopeFlaw → String
  | partCount => "compact envelope must have exactly 5 parts"
  | encryptedKey => "unexpected encrypted key in compact envelope"
  | headerAad => "unexpected aad in compact header"
  | noRecipient => "at least one recipient is required"
  | recipientCount => "ECDH-ES supports exactly one recipient"

end EnvelopeFlaw

namespace KeyMismatch

/-- What is said about a mismatch. -/
def message : KeyMismatch → String
  | member name expected found => "expected " ++ name ++ " " ++ expected ++ ", got " ++ found
  | otherSubject => "certificate was issued to a different key"

end KeyMismatch

namespace Error

/-- What is said about bytes that are not UTF-8: the bytes in decimal, and the fault. -/
def utf8Message (bytes : Bytes) (fault : Utf8.Fault) : String :=
  let wrong := match fault.wrong with
    | none => "None"
    | some n => "Some(" ++ toString n ++ ")"
  "FromUtf8Error \x7b bytes: [" ++ ", ".intercalate (bytes.map fun b => toString b.toNat)
    ++ "], error: Utf8Error \x7b valid_up_to: " ++ toString fault.validUpTo
    ++ ", error_len: " ++ wrong ++ " \x7d \x7d"

/-- What is said about an error. -/
def message : Error → String
  | alreadySigned => "the object is already signed"
  | badLength field expected got =>
    "bad length for " ++ field ++ ": expected " ++ toString expected ++ " bytes, got "
      ++ toString got
  | agreementFailed => "key agreement failed"
  | openFailed => "failed to open a sealed object"
  | sealFailed => "failed to seal an object"
  | signatureInvalid => "the given signature/public key/data combo does not verify"
  | badBase64 _ => "base64 deserialization error"
  | badEnvelope flaw => "malformed envelope: " ++ flaw.message
  | badUtf8 bytes fault => "invalid utf8 " ++ utf8Message bytes fault
  | streamFailed fault => "io error " ++ fault.message
  | badJson _ => "json error"
  | missingMember name => "missing json member `" ++ name ++ "`"
  | wrongType name => "json member `" ++ name ++ "` has the wrong type"
  | badDerivedLength bits => "invalid derived key length: " ++ toString bits ++ " bits"
  | badKeyLength expected got =>
    "invalid key length: expected " ++ toString expected ++ " bytes, got " ++ toString got
  | keyMismatch reason => "key type mismatch: " ++ reason.message
  | badGeneratedLength bits =>
    "invalid key length for generation: " ++ toString bits ++ " bits"
  | noSuchKey id => "no such key: " ++ id
  | certificateNotAllowed => "certificate signatures need a set of required permissions"
  | chainTooDeep limit => "certificate chain exceeds " ++ toString limit ++ " hops"
  | notSigned => "the object is not signed"
  | permissionMissing permission => "certificate does not grant `" ++ permission ++ "`"
  | unsupportedAlgorithm name => "unsupported algorithm: " ++ name

/-- Whether an error says that there is no key for an id. -/
def isNoSuchKey : Error → Bool
  | noSuchKey _ => true
  | _ => false

end Error

end Signet
