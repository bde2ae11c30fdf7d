import Signet.Curve.X25519
import Signet.Hash.Sha2

/-!
Signatures on the twisted Edwards form of Curve25519.

* `SignatureScheme` is what signatures have to provide: a public key for each
  seed, signing and verifying.
* `Ed25519.Point` are the points, with the complete addition law;
  `Point.ofBytes?` reads a point and takes every encoding of a coordinate,
  `Point.toBytes` writes one.
* `ed25519` is the scheme. A signature verifies if its scalar is below the
  group order and its equation holds up to a point of small order.
-/

namespace Signet

/-- A scheme of signatures. -/
structure SignatureScheme where
  /-- The public key of a seed. -/
  publicOf : FixedBytes 32 → FixedBytes 32
  /-- Signs a message with a seed. -/
  sign : FixedBytes 32 → Bytes → FixedBytes 64
  /-- Whether a public key verifies a signature of a message. -/
  verify : FixedBytes 32 → FixedBytes 64 → Bytes → Bool

namespace Ed25519

open Curve

/-- The order of the base point. -/
def order : Nat := Nat.pow 2 252 + 27742317777372353535851937790883648493

/-- The coefficient of the curve `y^2 - x^2 = 1 + d x^2 y^2`. -/
def d : Element := -121665 * Element.inv 121666

/-- A square root of minus one. -/
def sqrtMinusOne : Element := Element.pow 2 ((prime - 1) / 4)

/-- A point, as two coordinates and their product over a common denominator. -/
structure Point where
  x : Element
  y : Element
  z : Element
  t : Element

namespace Point

/-- The neutral element. -/
def zero : Point := ⟨0, 1, 1, 0⟩

/-- The point with given coordinates. -/
def ofAffine (x y : Element) : Point := ⟨x, y, 1, x * y⟩

/-- Adds two points, equal or not. -/
def add (p q : Point) : Point :=
  let a := (p.y - p.x) * (q.y - q.x)
  let b := (p.y + p.x) * (q.y + q.x)
  let c := 2 * Ed25519.d * p.t * q.t
  let e := 2 * p.z * q.z
  let f := b - a
  let g := e - c
  let h := e + c
  let i := b + a
  ⟨f * g, h * i, g * h, f * i⟩

/-- The opposite point. -/
def neg (p : Point) : Point := ⟨-p.x, p.y, p.z, -p.t⟩

/-- A multiple of a point, by a number below `2^256`. -/
def multiply (scalar : Nat) (p : Point) : Point :=
  (bits 256 scalar).foldl
    (fun q bit => if bit then (q.add q).add p else q.add q) zero

/-- Whether a point is the neutral element. -/
def isZero (p : Point) : Bool := p.x = 0 && p.y = p.z

/-- The first coordinate that goes with a second coordinate `y`, if there is one. Of the two it
is the even residue. -/
def evenX? (y : Element) : Option Element :=
  let u := y * y - 1
  let v := Ed25519.d * y * y + 1
  let v3 := v * v * v
  let r := u * v3 * Element.pow (u * v3 * v3 * v) ((prime - 5) / 8)
  let even (x : Element) : Element := if x.val % 2 = 0 then x else -x
  if v * r * r = u then some (even r)
  else if v * r * r = -u then some (even (r * sqrtMinusOne))
  else none

/-- Reads a point: the second coordinate, and in the last bit whether the first one is odd. -/
def ofBytes? (bs : FixedBytes 32) : Option Point :=
  let y := Element.ofBytes bs
  let odd := (Bytes.toNatLE bs.toList).testBit 255
  (evenX? y).map fun x => ofAffine (if odd then -x else x) y

/-- Writes a point. -/
def toBytes (p : Point) : FixedBytes 32 :=
  let inverse := p.z.inv
  let x := p.x * inverse
  let y := p.y * inverse
  FixedBytes.ofNatLE 32 (y.val + x.val % 2 * Nat.pow 2 255)

/-- The base point, whose second coordinate is four fifths. -/
def base : Point :=
  let y : Element := 4 * Element.inv 5
  ofAffine ((evenX? y).getD 0) y

end Point

/-- A digest as a scalar. -/
def digestScalar (message : Bytes) : Nat := Bytes.toNatLE (sha512 message).toList % order

/-- The secret scalar of a seed. -/
def secretScalar (seed : FixedBytes 32) : Nat :=
  X25519.clamp (FixedBytes.padRight 32 (sha512 seed.toList).toList)

/-- The public key of a seed. -/
def publicOf (seed : FixedBytes 32) : FixedBytes 32 :=
  (Point.base.multiply (secretScalar seed)).toBytes

/-- Signs a message with a seed. -/
def sign (seed : FixedBytes 32) (message : Bytes) : FixedBytes 64 :=
  let nonce := digestScalar ((sha512 seed.toList).toList.drop 32 ++ message)
  let r := (Point.base.multiply nonce).toBytes
  let k := digestScalar (r.toList ++ (publicOf seed).toList ++ message)
  r.append (FixedBytes.ofNatLE 32 ((nonce + k * secretScalar seed) % order))

/-- Whether a public key verifies a signature of a message. -/
def verify (key : FixedBytes 32) (signature : FixedBytes 64) (message : Bytes) : Bool :=
  let r := FixedBytes.padRight 32 signature.toList
  let s := Bytes.toNatLE (signature.toList.drop 32)
  match Point.ofBytes? key, Point.ofBytes? r with
  | some a, some p =>
    let k := digestScalar (r.toList ++ key.toList ++ message)
    let difference := ((Point.base.multiply s).add (a.multiply k).neg).add p.neg
    decide (s < order) && (difference.multiply 8).isZero
  | _, _ => false

end Ed25519

/-- Signatures on the twisted Edwards form of Curve25519. -/
def ed25519 : SignatureScheme := ⟨Ed25519.publicOf, Ed25519.sign, Ed25519.verify⟩

end Signet
