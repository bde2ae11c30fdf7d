import Signet.Key.Derivation
import Signet.Key.Symmetric

/-!
Where keys come from when an envelope names them.

* `KeyProvider` gives the key of a key id, or the error that explains why not.
* `KeyProvider.ofKey`, `ofList` and `ofEntries` know given keys,
  `ofSharedSecret` derives a key for every id.
-/

namespace Signet

/-- Gives the key of a key id. -/
abbrev KeyProvider := String → Except Error SymmetricKey

namespace KeyProvider

/-- The key that was found for an id, if there is one. -/
def found (id : String) : Option NamedKey → Except Error SymmetricKey
  | some k => .ok k.key
  | none => .error (.noSuchKey id)

/-- Knows one key. -/
def ofKey (k : NamedKey) : KeyProvider := fun id =>
  if k.id = id then .ok k.key else .error (.noSuchKey id)

/-- Knows the keys of a list, of several with one id the first. -/
def ofList (ks : List NamedKey) : KeyProvider := fun id =>
  found id (ks.find? fun k => k.id = id)

/-- Knows the keys entered one after another, of several with one id the last. -/
def ofEntries (ks : List NamedKey) : KeyProvider := fun id =>
  found id (ks.reverse.find? fun k => k.id = id)

/-- Derives a key for every id from a shared secret. -/
def ofSharedSecret (secret : Bytes) : KeyProvider := fun id =>
  .ok (Derivation.sharedSecretKey secret id)

end KeyProvider

end Signet
