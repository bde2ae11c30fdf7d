import Signet.Envelope.Aad
import Signet.Json.Access
import Signet.Json.Printer
import Signet.Key.Symmetric

/-!
Envelopes in JSON: what the two kinds of them share.

* `Message.text` writes an envelope from its sealed payload and its recipients.
* `Message.parse` reads an envelope of a given algorithm up to its protected
  header; `Message.openPayload` opens its payload with the content key.
-/

namespace Signet

/-- An envelope whose headers are read. -/
structure Message where
  /-- All members. -/
  members : Json.Members
  /-- The protected header, as JSON text. -/
  header : String

namespace Message

/-- The protected header, as JSON text. -/
def headerText : String := Json.compact (.obj [("enc", .str Envelope.encryption)])

/-- The authenticated data of a protected header and further data. -/
def aad (header : String) (extra : Option Bytes) : Bytes :=
  Envelope.aad (Utf8.encode header) extra

/-- The member with further authenticated data. -/
def extraMember (extra : Option Bytes) : Json.Members :=
  match Envelope.nonempty extra with
  | some bytes => [("aad", .str (Base64.encode bytes))]
  | none => []

/-- An envelope as JSON. -/
def toJson (algorithm : String) (extra : Option Bytes) (recipients : List Json) (s : Sealed) :
    Json :=
  .obj
    ([("ciphertext", .str (Base64.encode s.ciphertext)),
        ("protected", .str (Base64.encode (Utf8.encode headerText)))]
      ++ extraMember extra
      ++ [("unprotected", .obj [("alg", .str algorithm)]),
        ("tag", .str (Base64.encode s.tag.toList)),
        ("iv", .str (Base64.encode s.iv.toList)),
        ("recipients", .arr recipients)])

/-- Reads an envelope of a given algorithm. -/
def parse (algorithm envelope : String) : Except Error Message := do
  let members ← Json.parseObject envelope
  let found ← (← members.requireMembers "unprotected").requireText "alg"
  if found ≠ algorithm then throw (.unsupportedAlgorithm found)
  else
    let header ← Utf8.read (← members.requireBytes "protected")
    let encryption ← (← Json.parseObject header).requireText "enc"
    if encryption ≠ Envelope.encryption then throw (.unsupportedAlgorithm encryption)
    else return ⟨members, header⟩

/-- The recipients of an envelope. -/
def recipients (e : Message) : Except Error (List Json) := e.members.requireItems "recipients"

/-- Further authenticated data of an envelope. -/
def extra (e : Message) : Except Error (Option Bytes) := do
  match ← e.members.optionalText "aad" with
  | some encoded => return some (← Base64.read encoded)
  | none => return none

/-- The sealed payload of an envelope. -/
def payload (e : Message) : Except Error Sealed := do
  let iv ← e.members.requireBytes "iv"
  let ciphertext ← e.members.requireBytes "ciphertext"
  let tag ← e.members.requireBytes "tag"
  Sealed.ofParts iv ciphertext tag

variable (g : GcmPrimitives)

/-- Seals a payload with a content key and writes the envelope. -/
def sealPayload (algorithm : String) (contentKey : SymmetricKey) (payload : Bytes)
    (extra : Option Bytes) (recipients : List Json) : Random String := do
  let s ← SymmetricKey.sealMessage g contentKey payload (aad headerText extra)
  return Json.compact (toJson algorithm extra recipients s)

/-- Opens the payload of an envelope with the content key. -/
def openPayload (e : Message) (contentKey : SymmetricKey) : Except Error Bytes := do
  let extra ← e.extra
  let s ← e.payload
  Gcm.openSealed g contentKey s (aad e.header extra)

end Message

end Signet
