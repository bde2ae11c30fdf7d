import Signet.Envelope.Message
import Signet.Key.Derivation
import Signet.Key.Jwk

/-!
Envelopes for one recipient by key agreement: the content key follows from an
agreement between a drawn key pair and the recipient's public key.

* `Agreed.contentKey` derives the content key from an agreement.
* `Agreed.encrypt` and `Agreed.decrypt` seal and open an envelope.
-/

namespace Signet.Agreed

variable (g : GcmPrimitives) (scheme : AgreementScheme)

/-- The content key of an agreement. -/
def contentKey (ours : KeyPair .connect) (theirs : PublicKey .connect) :
    Except Error SymmetricKey := do
  let shared ← ours.agree scheme theirs
  return Derivation.agreementKey shared Envelope.encryption

/-- The entry of the recipient as JSON, with the public half of the drawn key pair. -/
def recipientJson (recipient drawn : PublicKey .connect) : Json :=
  .obj [("header", .obj [("kid", .str recipient.id), ("epk", drawn.toJwk)])]

/-- Seals a payload for a recipient. -/
def encrypt (payload : Bytes) (recipient : PublicKey .connect) : Random String := do
  let drawn ← monadLift (KeyPair.random scheme.publicOf : StateM Tape (KeyPair .connect))
  let key ← contentKey scheme drawn recipient
  Message.sealPayload g Envelope.agreementAlgorithm key payload none
    [recipientJson recipient drawn.publicKey]

/-- The header of the only recipient. -/
def recipientHeader (e : Message) : Except Error Json.Members := do
  match ← e.recipients with
  | [entry] =>
    match entry.members? with
    | some members => members.requireMembers "header"
    | none => throw (.wrongType "recipients[0]")
  | _ => throw (.badEnvelope .recipientCount)

/-- Opens an envelope with the recipient's key pair. -/
def decrypt (envelope : String) (k : KeyPair .connect) : Except Error Bytes := do
  let e ← Message.parse Envelope.agreementAlgorithm envelope
  let header ← recipientHeader e
  let id ← header.requireText "kid"
  let drawn ← header.require "epk"
  if id ≠ k.id then throw (.noSuchKey id)
  else
    let drawn : PublicKey .connect ← PublicKey.ofJwk drawn
    let key ← contentKey scheme k drawn
    e.openPayload g key

end Signet.Agreed
