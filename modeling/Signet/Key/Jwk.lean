import Signet.Json.Access
import Signet.Key.Pair

/-!
Keys as JSON objects.

* A symmetric key has the members `kid`, `kty`, `alg` and `k`; a key on a
  curve has `kid`, `kty`, `crv` and `x`, and a key pair also `d`.
* `toJwk` writes a key, `ofJwk` reads one: first the members that say what
  kind of key it is, then the key.
-/

namespace Signet

namespace Jwk

/-- The type of symmetric keys. -/
def octets : String := "oct"

/-- The type of keys on a curve. -/
def onCurve : String := "OKP"

/-- The algorithm of symmetric keys. -/
def symmetricAlgorithm : String := "A256GCM"

/-- Checks that a member has the value that the kind of key calls for. -/
def expect (ms : Json.Members) (name expected : String) : Except Error Unit := do
  let found ← ms.requireText name
  if found = expected then return ()
  else throw (.keyMismatch (.member name expected found))

/-- The members of an exported key. -/
def members (jwk : Json) : Except Error Json.Members :=
  match jwk.members? with
  | some ms => .ok ms
  | none => .error (.wrongType "<jwk>")

/-- The members of an exported key on the curve for a use. -/
def membersOnCurve (use : KeyUse) (jwk : Json) : Except Error Json.Members := do
  let ms ← members jwk
  expect ms "kty" onCurve
  expect ms "crv" use.curveName
  return ms

/-- The members that every key on a curve has. -/
def curveMembers (use : KeyUse) (id : String) (point : FixedBytes 32) : Json.Members :=
  Json.Members.ofList
    [("kid", .str id), ("kty", .str onCurve), ("crv", .str use.curveName),
      ("x", .str (Base64.encode point.toList))]

end Jwk

namespace NamedKey

/-- Exports a key. -/
def toJwk (k : NamedKey) : Json :=
  .obj (Json.Members.ofList
    [("kid", .str k.id), ("kty", .str Jwk.octets), ("alg", .str Jwk.symmetricAlgorithm),
      ("k", .str (Base64.encode k.key.toList))])

/-- Imports a key. -/
def ofJwk (jwk : Json) : Except Error NamedKey := do
  let ms ← Jwk.members jwk
  Jwk.expect ms "kty" Jwk.octets
  Jwk.expect ms "alg" Jwk.symmetricAlgorithm
  let key ← ms.requireBytes "k"
  let id ← ms.requireText "kid"
  ofBytes id key

end NamedKey

variable {use : KeyUse}

namespace PublicKey

/-- Exports a public key. -/
def toJwk (k : PublicKey use) : Json := .obj (Jwk.curveMembers use k.id k.point)

/-- Imports a public key. -/
def ofJwk (jwk : Json) : Except Error (PublicKey use) := do
  let ms ← Jwk.membersOnCurve use jwk
  let id ← ms.requireText "kid"
  let point ← ms.requireBytes "x"
  ofBytes id point

end PublicKey

namespace KeyPair

/-- Exports a key pair. -/
def toJwk (k : KeyPair use) : Json :=
  .obj ((Jwk.curveMembers use k.id k.point).insert "d" (.str (Base64.encode k.secret.toList)))

/-- Imports a key pair. -/
def ofJwk (jwk : Json) : Except Error (KeyPair use) := do
  let ms ← Jwk.membersOnCurve use jwk
  let secret ← ms.requireBytes "d"
  let id ← ms.requireText "kid"
  let point ← ms.requireBytes "x"
  ofBytes id secret point

end KeyPair

end Signet
