import Signet.Bytes

/-!
The hash functions SHA-256 and SHA-512.

* `Sha2` holds what distinguishes the two: the size of a word, the number of
  rounds and the amounts of the rotations.
* `Sha2.digestBytes` pads a message, compresses its blocks one after another
  and writes out the last state; `sha256` and `sha512` are the two functions.
-/

namespace Signet

/-- A hash function of the family, on words of `w` bits. -/
structure Sha2 (w : Nat) where
  /-- The number of rounds for each block. -/
  rounds : Nat
  /-- The rotations that mix the first word of the state. -/
  major : Nat × Nat × Nat
  /-- The rotations that mix the fifth word of the state. -/
  minor : Nat × Nat × Nat
  /-- Two rotations and a shift of the word fifteen places before in the schedule. -/
  early : Nat × Nat × Nat
  /-- Two rotations and a shift of the word two places before in the schedule. -/
  late : Nat × Nat × Nat

namespace Sha2

variable {w : Nat}

/-! ### Constants -/

/-- The first 64 bits of the fractions of the cube roots of the first 80 primes. -/
def roundConstants : List Nat :=
  [
    0x428a2f98d728ae22, 0x7137449123ef65cd, 0xb5c0fbcfec4d3b2f, 0xe9b5dba58189dbbc,
    0x3956c25bf348b538, 0x59f111f1b605d019, 0x923f82a4af194f9b, 0xab1c5ed5da6d8118,
    0xd807aa98a3030242, 0x12835b0145706fbe, 0x243185be4ee4b28c, 0x550c7dc3d5ffb4e2,
    0x72be5d74f27b896f, 0x80deb1fe3b1696b1, 0x9bdc06a725c71235, 0xc19bf174cf692694,
    0xe49b69c19ef14ad2, 0xefbe4786384f25e3, 0x0fc19dc68b8cd5b5, 0x240ca1cc77ac9c65,
    0x2de92c6f592b0275, 0x4a7484aa6ea6e483, 0x5cb0a9dcbd41fbd4, 0x76f988da831153b5,
    0x983e5152ee66dfab, 0xa831c66d2db43210, 0xb00327c898fb213f, 0xbf597fc7beef0ee4,
    0xc6e00bf33da88fc2, 0xd5a79147930aa725, 0x06ca6351e003826f, 0x142929670a0e6e70,
    0x27b70a8546d22ffc, 0x2e1b21385c26c926, 0x4d2c6dfc5ac42aed, 0x53380d139d95b3df,
    0x650a73548baf63de, 0x766a0abb3c77b2a8, 0x81c2c92e47edaee6, 0x92722c851482353b,
    0xa2bfe8a14cf10364, 0xa81a664bbc423001, 0xc24b8b70d0f89791, 0xc76c51a30654be30,
    0xd192e819d6ef5218, 0xd69906245565a910, 0xf40e35855771202a, 0x106aa07032bbd1b8,
    0x19a4c116b8d2d0c8, 0x1e376c085141ab53, 0x2748774cdf8eeb99, 0x34b0bcb5e19b48a8,
    0x391c0cb3c5c95a63, 0x4ed8aa4ae3418acb, 0x5b9cca4f7763e373, 0x682e6ff3d6b2b8a3,
    0x748f82ee5defb2fc, 0x78a5636f43172f60, 0x84c87814a1f0ab72, 0x8cc702081a6439ec,
    0x90befffa23631e28, 0xa4506cebde82bde9, 0xbef9a3f7b2c67915, 0xc67178f2e372532b,
    0xca273eceea26619c, 0xd186b8c721c0c207, 0xeada7dd6cde0eb1e, 0xf57d4f7fee6ed178,
    0x06f067aa72176fba, 0x0a637dc5a2c898a6, 0x113f9804bef90dae, 0x1b710b35131c471b,
    0x28db77f523047d84, 0x32caab7b40c72493, 0x3c9ebe0a15c9bebc, 0x431d67c49c100d4c,
    0x4cc5d4becb3e42b6, 0x597f299cfc657e2a, 0x5fcb6fab3ad6faec, 0x6c44198c4a475817]

/-- The first 64 bits of the fractions of the square roots of the first eight primes. -/
def initialWords : List Nat :=
  [
    0x6a09e667f3bcc908, 0xbb67ae8584caa73b, 0x3c6ef372fe94f82b, 0xa54ff53a5f1d36f1,
    0x510e527fade682d1, 0x9b05688c2b3e6c1f, 0x1f83d9abfb41bd6b, 0x5be0cd19137e2179]

/-- The first `w` of 64 bits. -/
def leadingBits (w n : Nat) : BitVec w := BitVec.ofNat w (n >>> (64 - w))

/-! ### Blocks -/

/-- A state of eight words. -/
structure State (w : Nat) where
  a : BitVec w
  b : BitVec w
  c : BitVec w
  d : BitVec w
  e : BitVec w
  f : BitVec w
  g : BitVec w
  h : BitVec w

/-- The state before the first block. -/
def initial (w : Nat) : State w :=
  let word (i : Nat) : BitVec w := leadingBits w (initialWords.getD i 0)
  ⟨word 0, word 1, word 2, word 3, word 4, word 5, word 6, word 7⟩

/-- Adds two states word by word. -/
def State.add (s t : State w) : State w :=
  ⟨s.a + t.a, s.b + t.b, s.c + t.c, s.d + t.d, s.e + t.e, s.f + t.f, s.g + t.g, s.h + t.h⟩

/-- The words of a state. -/
def State.words (s : State w) : List (BitVec w) := [s.a, s.b, s.c, s.d, s.e, s.f, s.g, s.h]

/-- The sum of three rotations. -/
def rotations (by3 : Nat × Nat × Nat) (x : BitVec w) : BitVec w :=
  x.rotateRight by3.1 ^^^ x.rotateRight by3.2.1 ^^^ x.rotateRight by3.2.2

/-- The sum of two rotations and a shift. -/
def rotationsAndShift (by3 : Nat × Nat × Nat) (x : BitVec w) : BitVec w :=
  x.rotateRight by3.1 ^^^ x.rotateRight by3.2.1 ^^^ x >>> by3.2.2

/-- Each bit of the first word chooses between the bits of the other two. -/
def choose (x y z : BitVec w) : BitVec w := (x &&& y) ^^^ (~~~x &&& z)

/-- Each bit is the one that two of three bits have. -/
def majority (x y z : BitVec w) : BitVec w := (x &&& y) ^^^ (x &&& z) ^^^ (y &&& z)

/-- Puts `n` more words before the schedule, whose latest word comes first. -/
def extend (v : Sha2 w) : Nat → List (BitVec w) → List (BitVec w)
  | 0, ws => ws
  | n + 1, ws =>
    let next := rotationsAndShift v.late (ws.getD 1 0) + ws.getD 6 0
      + rotationsAndShift v.early (ws.getD 14 0) + ws.getD 15 0
    extend v n (next :: ws)

/-- The words of a block and those that follow from them, one for each round. -/
def schedule (v : Sha2 w) (block : Bytes) : List (BitVec w) :=
  let words := (Bytes.chunks (w / 8) block).map fun bs => BitVec.ofNat w (Bytes.toNatBE bs)
  (extend v (v.rounds - 16) words.reverse).reverse

/-- One round, with its constant and its word of the schedule. -/
def round (v : Sha2 w) (s : State w) (k x : BitVec w) : State w :=
  let t := s.h + rotations v.minor s.e + choose s.e s.f s.g + k + x
  let u := rotations v.major s.a + majority s.a s.b s.c
  ⟨t + u, s.a, s.b, s.c, s.d + t, s.e, s.f, s.g⟩

/-- Takes a block into a state. -/
def compress (v : Sha2 w) (s : State w) (block : Bytes) : State w :=
  let constants := roundConstants.map (leadingBits w)
  let last := (constants.zip (schedule v block)).foldl (fun t kx => round v t kx.1 kx.2) s
  s.add last

/-! ### Messages -/

/-- What is put after a message of `length` bytes: a one bit, zeros up to the end of a block, and
the number of bits. -/
def padding (w length : Nat) : Bytes :=
  let block := 2 * w
  let field := w / 4
  let zeros := (2 * block - (length + 1 + field) % block) % block
  0x80 :: List.replicate zeros 0 ++ Bytes.ofNatBE field (8 * length)

/-- The bytes of the digest of a message. -/
def digestBytes (v : Sha2 w) (message : Bytes) : Bytes :=
  let blocks := Bytes.chunks (2 * w) (message ++ padding w message.length)
  let last := blocks.foldl (compress v) (initial w)
  last.words.flatMap fun x => Bytes.ofNatBE (w / 8) x.toNat

/-- A digest has eight words. -/
theorem length_digestBytes (v : Sha2 w) (message : Bytes) :
    (digestBytes v message).length = 8 * (w / 8) := by
  simp only [digestBytes, State.words, List.flatMap_cons, List.flatMap_nil, List.length_append,
    Bytes.length_ofNatBE, List.length_nil]
  omega

end Sha2

/-- The function with words of 32 bits. -/
def sha2Of32 : Sha2 32 where
  rounds := 64
  major := (2, 13, 22)
  minor := (6, 11, 25)
  early := (7, 18, 3)
  late := (17, 19, 10)

/-- The function with words of 64 bits. -/
def sha2Of64 : Sha2 64 where
  rounds := 80
  major := (28, 34, 39)
  minor := (14, 18, 41)
  early := (1, 8, 7)
  late := (19, 61, 6)

/-- The SHA-256 digest of a message. -/
def sha256 (message : Bytes) : FixedBytes 32 :=
  ⟨sha2Of32.digestBytes message, by rw [Sha2.length_digestBytes]⟩

/-- The SHA-512 digest of a message. -/
def sha512 (message : Bytes) : FixedBytes 64 :=
  ⟨sha2Of64.digestBytes message, by rw [Sha2.length_digestBytes]⟩

end Signet
