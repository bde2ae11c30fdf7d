import Signet.Base64

/-!
What an envelope authenticates beside its ciphertext.

* `Envelope.aad` joins the protected header, in base64, and further data by a
  dot. Absent and empty data are the same.
-/

namespace Signet.Envelope

/-- The name of sealing with a key that both sides have. -/
def directAlgorithm : String := "dir"

/-- The name of sealing with a drawn key that is wrapped for each recipient. -/
def wrappingAlgorithm : String := "A256GCMKW"

/-- The name of sealing with a key from an agreement. -/
def agreementAlgorithm : String := "ECDH-ES"

/-- The name of the cipher. -/
def encryption : String := "A256GCM"

/-- Further authenticated data, unless it is empty. -/
def nonempty (extra : Option Bytes) : Option Bytes := extra.filter fun bytes => !bytes.isEmpty

/-- The authenticated data of a protected header and further data. -/
def aad (header : Bytes) (extra : Option Bytes) : Bytes :=
  Base64.encodeBytes header ++
    match nonempty extra with
    | some bytes => Utf8.encode "." ++ bytes
    | none => []

end Signet.Envelope
