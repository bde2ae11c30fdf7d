import Signet.Cipher.Gcm
import Signet.Key.Id

/-!
Symmetric keys.

* `SymmetricKey` is 256 bits, `NamedKey` a key with its id.
* `SymmetricKey.sealMessage`, `SymmetricKey.wrap` and `SymmetricKey.unwrap` seal a
  message or another key with a drawn IV, and open a wrapped key.
* `SymmetricKey.randomBytes` draws key bytes of any length.
-/

namespace Signet

/-- A key of 256 bits. -/
abbrev SymmetricKey := FixedBytes 32

/-- Takes 32 bytes as a key. -/
def readKeyBytes (bytes : Bytes) : Except Error (FixedBytes 32) :=
  match FixedBytes.ofList? 32 bytes with
  | some key => .ok key
  | none => .error (.badKeyLength 32 bytes.length)

namespace SymmetricKey

/-- Draws a key. -/
def random : StateM Tape SymmetricKey := Tape.draw 32

/-- Draws key bytes; there have to be whole bytes of the bits asked for. -/
def randomBytes (bits : Nat) : Random Bytes :=
  if bits % 8 ≠ 0 then throw (.badGeneratedLength bits)
  else do
    let bytes ← Random.draw (bits / 8)
    return bytes.toList

/-- Seals a message with a drawn IV. -/
def sealMessage (g : GcmPrimitives) (key : SymmetricKey) (message aad : Bytes) :
    Random Sealed := do
  let iv ← Random.draw 12
  Gcm.sealWithIv g key iv message aad

/-- Wraps another key. -/
def wrap (g : GcmPrimitives) (key other : SymmetricKey) : Random Sealed :=
  sealMessage g key other.toList []

/-- Opens a wrapped key. -/
def unwrap (g : GcmPrimitives) (key : SymmetricKey) (wrapped : Sealed) :
    Except Error SymmetricKey := do
  readKeyBytes (← Gcm.openSealed g key wrapped [])

end SymmetricKey

/-- A key with its id. -/
structure NamedKey where
  /-- The key id. -/
  id : String
  /-- The key. -/
  key : SymmetricKey
  deriving DecidableEq

namespace NamedKey

/-- A key from its bytes. -/
def ofBytes (id : String) (key : Bytes) : Except Error NamedKey := do
  return ⟨id, ← readKeyBytes key⟩

/-- Draws a key for a given id. -/
def randomFor (id : String) : StateM Tape NamedKey := do
  return ⟨id, ← SymmetricKey.random⟩

/-- Draws a long id and a key. -/
def random : StateM Tape NamedKey := do
  randomFor (← KeyId.random .long)

end NamedKey

end Signet
