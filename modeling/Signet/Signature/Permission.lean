import Signet.Json.Access

/-!
What a certificate allows its key to sign.

* `Permission` is any text; the ones that have a meaning to every profile are
  `post`, `comment`, `friends`, `grant`, `ca` and `impersonate`.
* `Permission.escalate` is what has to be granted to sign a certificate.
* `Permission.readList` reads permissions from a JSON array of strings.
-/

namespace Signet

/-- A permission. -/
structure Permission where
  /-- Its name; capital and small letters differ. -/
  name : String
  deriving DecidableEq, Repr

namespace Permission

/-- Posting to the feed of a profile. -/
def post : Permission := ⟨"post"⟩

/-- Commenting on posts. -/
def comment : Permission := ⟨"comment"⟩

/-- Publishing the list of friends. -/
def friends : Permission := ⟨"friends"⟩

/-- Issuing certificates to other keys. -/
def grant : Permission := ⟨"grant"⟩

/-- Issuing certificates that grant issuing certificates. -/
def ca : Permission := ⟨"ca"⟩

/-- Acting as the profile in every other respect. -/
def impersonate : Permission := ⟨"impersonate"⟩

/-- The permissions that have a meaning to every profile. -/
def known : List Permission := [post, comment, friends, grant, ca, impersonate]

/-- What the signer of a certificate needs, if the certificate has to grant the permissions
`required`: the same ones and issuing certificates, or issuing such as grant it. -/
def escalate (required : List Permission) : List Permission :=
  let further := if grant ∈ required then ca else grant
  if further ∈ required then required else required ++ [further]

/-- Inserts a permission into a list in the order of names, unless it is there. -/
def insertSorted (p : Permission) : List Permission → List Permission
  | [] => [p]
  | q :: rest =>
    if p = q then q :: rest
    else if p.name < q.name then p :: q :: rest
    else q :: insertSorted p rest

/-- The permissions of a list in the order of their names, each once. -/
def sorted (ps : List Permission) : List Permission := ps.foldr insertSorted []

/-- Reads a JSON array of strings as permissions. -/
def readList (text : String) : Except Error (List Permission) := do
  return (← Json.readStrings text).map Permission.mk

end Permission

end Signet
