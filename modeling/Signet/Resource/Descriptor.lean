import Signet.Json.Access
import Signet.Json.Printer
import Signet.Key.Symmetric

/-!
What one has to know of an encrypted resource to read it.

* `Descriptor` holds the IV, the key, the tag and perhaps where the resource
  is.
* `Descriptor.toText` writes it as JSON with `iv`, `k`, `tag` and `uri` in that
  order; `Descriptor.ofText` reads such JSON.
-/

namespace Signet

/-- How to read an encrypted resource. -/
structure Descriptor where
  /-- The IV. -/
  iv : FixedBytes 12
  /-- The content key. -/
  key : SymmetricKey
  /-- The tag of the whole ciphertext. -/
  tag : FixedBytes 16
  /-- Where the ciphertext is. -/
  uri : Option String
  deriving DecidableEq

namespace Descriptor

/-- The same descriptor with another place, or none. -/
def withUri (d : Descriptor) (uri : Option String) : Descriptor := { d with uri }

/-- The descriptor as JSON. -/
def toJson (d : Descriptor) : Json :=
  let place : Json.Members := match d.uri with
    | some uri => [("uri", .str uri)]
    | none => []
  .obj
    ([("iv", .str (Base64.encode d.iv.toList)), ("k", .str (Base64.encode d.key.toList)),
      ("tag", .str (Base64.encode d.tag.toList))] ++ place)

/-- Writes a descriptor. -/
def toText (d : Descriptor) : String := Json.compact d.toJson

/-- Reads a descriptor. -/
def ofText (text : String) : Except Error Descriptor := do
  let members ← Json.parseObject text
  let iv ← members.requireFixed 12 "iv"
  let key ← members.requireFixed 32 "k"
  let tag ← members.requireFixed 16 "tag"
  let uri ← members.optionalText "uri"
  return ⟨iv, key, tag, uri⟩

end Descriptor

end Signet
