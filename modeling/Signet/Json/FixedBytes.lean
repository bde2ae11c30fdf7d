import Signet.Json.Access

/-!
Bytes of fixed length inside JSON, as strings in base64.

* `Secrecy` tells public values from secret ones, which differ in the error of
  a wrong length and in what may be shown of them.
* `FixedBytes.read`, `FixedBytes.ofJson` and `FixedBytes.toJson` take a value
  from bytes, from JSON and to JSON.
-/

namespace Signet

/-- Whether a value is to be kept secret. -/
inductive Secrecy where
  | plain
  | secret
  deriving DecidableEq, Repr

/-- The error of a value that has not its length. -/
def Secrecy.lengthError : Secrecy → Nat → Nat → Error
  | .plain, expected, got => .badLength "binary" expected got
  | .secret, expected, got => .badKeyLength expected got

/-- Why a JSON value stands for no bytes of fixed length. -/
inductive NotBinary where
  /-- It is no string. -/
  | noString (found : Json)
  /-- The string is no base64 of that length. -/
  | invalid (error : Error)

/-- What is said about a JSON value that stands for no bytes of fixed length. -/
def NotBinary.message : NotBinary → String
  | .invalid error => error.message
  | .noString found =>
    let kind := match found with
      | .null => "null"
      | .bool true => "boolean `true`"
      | .bool false => "boolean `false`"
      | .num _ => "number"
      | .str _ => "string"
      | .arr _ => "sequence"
      | .obj _ => "map"
    "invalid type: " ++ kind ++ ", expected a string"

namespace FixedBytes

/-- Takes `n` bytes. -/
def read (secrecy : Secrecy) (n : Nat) (bytes : Bytes) : Except Error (FixedBytes n) :=
  match ofList? n bytes with
  | some value => .ok value
  | none => .error (secrecy.lengthError n bytes.length)

/-- Takes `n` bytes from a JSON string. -/
def ofJson (secrecy : Secrecy) (n : Nat) : Json → Except NotBinary (FixedBytes n)
  | .str text => (Base64.read text >>= read secrecy n).mapError .invalid
  | v => .error (.noString v)

/-- The JSON string of bytes. -/
def toJson {n : Nat} (bytes : FixedBytes n) : Json := .str (Base64.encode bytes.toList)

/-- What is shown of a secret value: its length. -/
def redacted {n : Nat} (_ : FixedBytes n) : String :=
  "BinarySecret<" ++ toString n ++ ">(<redacted>)"

end FixedBytes

end Signet
