import Signet.Curve.Field

/-!
Key agreement on Curve25519.

* `AgreementScheme` is what key agreement has to provide: a public key for
  each secret, and what a secret shares with a public key.
* `X25519.multiply` is the ladder over the first coordinate, for clamped
  secrets; `x25519` is the scheme.
-/

namespace Signet

/-- A scheme of key agreement. -/
structure AgreementScheme where
  /-- The public key of a secret. -/
  publicOf : FixedBytes 32 → FixedBytes 32
  /-- What a secret and another's public key have in common. -/
  shared : FixedBytes 32 → FixedBytes 32 → FixedBytes 32

namespace X25519

open Curve

/-- Two multiples of a point that differ by it, each as a quotient of coordinates. -/
structure Rung where
  x₂ : Element
  z₂ : Element
  x₃ : Element
  z₃ : Element

/-- Exchanges the two multiples. -/
def Rung.swap (r : Rung) : Rung := ⟨r.x₃, r.z₃, r.x₂, r.z₂⟩

/-- Doubles the first multiple and adds it to the second, for a point with first coordinate
`u`. -/
def Rung.double (u : Element) (r : Rung) : Rung :=
  let a := r.x₂ + r.z₂
  let b := r.x₂ - r.z₂
  let aa := a * a
  let bb := b * b
  let e := aa - bb
  let da := (r.x₃ - r.z₃) * a
  let cb := (r.x₃ + r.z₃) * b
  ⟨aa * bb, e * (aa + 121665 * e), (da + cb) * (da + cb), u * ((da - cb) * (da - cb))⟩

/-- Takes one binary digit of the scalar into the multiples. -/
def Rung.climb (u : Element) (r : Rung) (bit : Bool) : Rung :=
  if bit then (r.swap.double u).swap else r.double u

/-- The scalar of a secret: a multiple of eight with its highest bit at place 254. -/
def clamp (secret : FixedBytes 32) : Nat :=
  Nat.pow 2 254 + Bytes.toNatLE secret.toList % Nat.pow 2 254 / 8 * 8

/-- The first coordinate of a multiple of the point with first coordinate `u`. -/
def multiply (scalar : Nat) (u : Element) : Element :=
  let last := (bits 255 scalar).foldl (Rung.climb u) ⟨1, 0, u, 1⟩
  last.x₂ * last.z₂.inv

/-- The first coordinate of the base point. -/
def base : Element := 9

end X25519

/-- Key agreement on Curve25519. Every 32 bytes are a public key. -/
def x25519 : AgreementScheme where
  publicOf secret := (X25519.multiply (X25519.clamp secret) X25519.base).toBytes
  shared secret other :=
    (X25519.multiply (X25519.clamp secret) (Curve.Element.ofBytes other)).toBytes

end Signet
