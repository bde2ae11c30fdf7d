import Signet.Envelope.Message
import Signet.Key.Provider

/-!
Envelopes for several recipients: the payload is sealed with a drawn content
key, and each recipient gets that key wrapped under one of their own.

* `WrappedKey` is the entry of a recipient; `WrappedKey.toJson` writes it and
  `WrappedKey.ofJson` reads it.
* `Wrapped.contentKey` goes through the entries and takes the first one for
  which there is a key. An entry that is malformed or for an unknown key is
  passed over; any other failure is final.
* `Wrapped.encrypt` and `Wrapped.decrypt` seal and open an envelope.
-/

namespace Signet

/-- The content key, wrapped for a recipient. -/
structure WrappedKey where
  /-- The id of the recipient's key. -/
  keyId : String
  /-- The wrapped content key. -/
  wrapped : Sealed

namespace WrappedKey

/-- The entry of a recipient as JSON. -/
def toJson (k : WrappedKey) : Json :=
  .obj
    [("header", .obj
        [("kid", .str k.keyId), ("iv", .str (Base64.encode k.wrapped.iv.toList)),
          ("tag", .str (Base64.encode k.wrapped.tag.toList))]),
      ("encrypted_key", .str (Base64.encode k.wrapped.ciphertext))]

/-- Reads the entry of a recipient. -/
def ofJson (entry : Json) : Except Error WrappedKey := do
  match entry.members? with
  | none => throw (.wrongType "recipients[]")
  | some members =>
    let header ← members.requireMembers "header"
    let keyId ← header.requireText "kid"
    let iv ← header.requireBytes "iv"
    let tag ← header.requireBytes "tag"
    let encryptedKey ← members.requireBytes "encrypted_key"
    let wrapped ← Sealed.ofParts iv encryptedKey tag
    return ⟨keyId, wrapped⟩

end WrappedKey

namespace Wrapped

variable (g : GcmPrimitives)

/-- Wraps a content key for a recipient. -/
def wrapFor (contentKey : SymmetricKey) (recipient : NamedKey) : Random WrappedKey := do
  return ⟨recipient.id, ← SymmetricKey.wrap g recipient.key contentKey⟩

/-- Seals a payload for recipients, with further authenticated data. -/
def encrypt (payload : Bytes) (recipients : List NamedKey) (extra : Option Bytes) :
    Random String := do
  if recipients.isEmpty then throw (.badEnvelope .noRecipient)
  else
    let contentKey ← monadLift SymmetricKey.random
    let entries ← recipients.mapM (wrapFor g contentKey)
    Message.sealPayload g Envelope.wrappingAlgorithm contentKey payload extra
      (entries.map WrappedKey.toJson)

/-- The content key of the first entry for which there is a key, given the ids that were asked
for in vain before. -/
def contentKey (keys : KeyProvider) : List String → List Json → Except Error SymmetricKey
  | tried, [] => .error (.noSuchKey (",".intercalate tried))
  | tried, entry :: rest =>
    match WrappedKey.ofJson entry with
    | .error _ => contentKey keys tried rest
    | .ok k =>
      match keys k.keyId with
      | .ok key => SymmetricKey.unwrap g key k.wrapped
      | .error e =>
        if e.isNoSuchKey then contentKey keys (tried ++ [k.keyId]) rest else .error e

/-- Opens an envelope. -/
def decrypt (envelope : String) (keys : KeyProvider) : Except Error Bytes := do
  let e ← Message.parse Envelope.wrappingAlgorithm envelope
  let entries ← e.recipients
  let key ← contentKey g keys [] entries
  e.openPayload g key

end Wrapped

end Signet
