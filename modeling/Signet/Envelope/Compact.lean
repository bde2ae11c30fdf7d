import Signet.Envelope.Aad
import Signet.Json.Access
import Signet.Json.Printer
import Signet.Key.Provider

/-!
Compact envelopes: five fields in base64 with dots between them, namely a
header, an empty field, the IV, the ciphertext and the tag.

* `Compact` is what the fields say; `Compact.parse` reads an envelope and checks
  its structure, before any key is asked for. `Compact.text` writes one.
* `Compact.encrypt` and `Compact.decrypt` seal for a key and open with a
  provider of keys.
* `Compact.encryptShared` and `Compact.decryptShared` work with a secret from
  which the keys follow.
-/

namespace Signet

/-- The contents of a compact envelope. -/
structure Compact where
  /-- The header, as JSON text. -/
  header : String
  /-- The id of the key. -/
  keyId : String
  /-- The sealed message. -/
  message : Sealed

namespace Compact

/-- The header for a key, as JSON text. -/
def headerText (keyId : String) : String :=
  Json.compact (.obj
    [("alg", .str Envelope.directAlgorithm), ("enc", .str Envelope.encryption),
      ("kid", .str keyId)])

/-- The authenticated data of a header. -/
def aad (header : String) : Bytes := Envelope.aad (Utf8.encode header) none

/-- The text of an envelope. -/
def text (header : String) (s : Sealed) : String :=
  Base64.encode (Utf8.encode header) ++ ".." ++ Base64.encode s.iv.toList ++ "."
    ++ Base64.encode s.ciphertext ++ "." ++ Base64.encode s.tag.toList

/-- The fields between dots. -/
def fields : List Char → List (List Char)
  | [] => [[]]
  | c :: rest =>
    if c = '.' then [] :: fields rest
    else
      match fields rest with
      | field :: more => (c :: field) :: more
      | [] => [[c]]

/-- Reads what a header says and checks it, and makes the envelope up with its other parts. -/
def ofParts (header : String) (encryptedKey iv ciphertext tag : Bytes) : Except Error Compact := do
  let members ← Json.parseObject header
  let algorithm ← members.requireText "alg"
  let encryption ← members.requireText "enc"
  let keyId ← members.requireText "kid"
  if algorithm ≠ Envelope.directAlgorithm ∨ encryption ≠ Envelope.encryption then
    throw (.unsupportedAlgorithm (algorithm ++ "/" ++ encryption))
  else if encryptedKey ≠ [] then throw (.badEnvelope .encryptedKey)
  else if members.contains "aad" then throw (.badEnvelope .headerAad)
  else
    let message ← Sealed.ofParts iv ciphertext tag
    return ⟨header, keyId, message⟩

/-- Reads an envelope. -/
def parse (envelope : String) : Except Error Compact := do
  match (fields envelope.toList).map String.ofList with
  | [header, encryptedKey, iv, ciphertext, tag] =>
    let header ← Utf8.read (← Base64.read header)
    let encryptedKey ← Base64.read encryptedKey
    let iv ← Base64.read iv
    let ciphertext ← Base64.read ciphertext
    let tag ← Base64.read tag
    ofParts header encryptedKey iv ciphertext tag
  | _ => throw (.badEnvelope .partCount)

variable (g : GcmPrimitives)

/-- Seals a message for a key. -/
def encrypt (message : Bytes) (k : NamedKey) : Random String := do
  let header := headerText k.id
  let s ← SymmetricKey.sealMessage g k.key message (aad header)
  return text header s

/-- Opens an envelope. -/
def decrypt (envelope : String) (keys : KeyProvider) : Except Error Bytes := do
  let e ← parse envelope
  let key ← keys e.keyId
  Gcm.openSealed g key e.message (aad e.header)

/-- Seals a message with a key that follows from a shared secret, for a drawn key id. -/
def encryptShared (message secret : Bytes) : Random String := do
  let idBytes ← Random.draw 8
  let id := Base64.encode idBytes.toList
  encrypt g message ⟨id, Derivation.sharedSecretKey secret id⟩

/-- Opens an envelope with the key that follows from a shared secret. -/
def decryptShared (envelope : String) (secret : Bytes) : Except Error Bytes :=
  decrypt g envelope (KeyProvider.ofSharedSecret secret)

end Compact

end Signet
