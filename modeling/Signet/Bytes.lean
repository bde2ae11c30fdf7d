/-!
Byte strings, and byte strings whose length is part of their type.

* `Bytes`: a list of bytes; `Bytes.ofNatBE`, `Bytes.toNatBE` and their
  little-endian partners write and read numbers, `Bytes.xor` adds bit by bit.
* `FixedBytes n`: exactly `n` bytes, the type of keys, IVs, tags, digests and
  signatures.
-/

namespace Signet

/-- A byte string. -/
abbrev Bytes := List UInt8

namespace Bytes

/-- The `n` bytes of a number, least significant first; what does not fit is dropped. -/
def ofNatLE : Nat → Nat → Bytes
  | 0, _ => []
  | n + 1, x => UInt8.ofNat x :: ofNatLE n (x / 256)

/-- The number that bytes spell, least significant first. -/
def toNatLE : Bytes → Nat
  | [] => 0
  | b :: bs => b.toNat + 256 * toNatLE bs

/-- The `n` bytes of a number, most significant first; what does not fit is dropped. -/
def ofNatBE (n x : Nat) : Bytes := (ofNatLE n x).reverse

/-- The number that bytes spell, most significant first. -/
def toNatBE (bs : Bytes) : Nat := toNatLE bs.reverse

/-- Adds two byte strings bit by bit, up to the end of the shorter one. -/
def xor (a b : Bytes) : Bytes := List.zipWith (· ^^^ ·) a b

/-- Cuts a byte string into pieces of `n` bytes; the last piece may be shorter. -/
def chunksFuel (n : Nat) : Nat → Bytes → List Bytes
  | 0, _ => []
  | _ + 1, [] => []
  | fuel + 1, b :: bs => (b :: bs).take n :: chunksFuel n fuel ((b :: bs).drop n)

/-- Cuts a byte string into pieces of `n` bytes, for `n` positive; the last piece may be
shorter. -/
def chunks (n : Nat) (bs : Bytes) : List Bytes := chunksFuel n bs.length bs

@[simp] theorem length_ofNatLE (n x : Nat) : (ofNatLE n x).length = n := by
  induction n generalizing x with
  | zero => rfl
  | succ n ih => simp [ofNatLE, ih]

@[simp] theorem length_ofNatBE (n x : Nat) : (ofNatBE n x).length = n := by
  simp [ofNatBE]

@[simp] theorem length_xor (a b : Bytes) : (xor a b).length = min a.length b.length := by
  simp [xor]

end Bytes

/-- Exactly `n` bytes. -/
structure FixedBytes (n : Nat) where
  /-- The bytes. -/
  toList : Bytes
  /-- There are `n` of them. -/
  length_eq : toList.length = n
  deriving DecidableEq

namespace FixedBytes

variable {n : Nat}

@[ext] theorem ext {a b : FixedBytes n} (h : a.toList = b.toList) : a = b := by
  cases a; cases b; simp_all

/-- The bytes as a value of `FixedBytes n`, if there are `n` of them. -/
def ofList? (n : Nat) (bs : Bytes) : Option (FixedBytes n) :=
  if h : bs.length = n then some ⟨bs, h⟩ else none

/-- `n` zero bytes. -/
def zero (n : Nat) : FixedBytes n := ⟨List.replicate n 0, by simp⟩

instance : Inhabited (FixedBytes n) := ⟨zero n⟩

/-- The first `n` bytes, filled up with zeros on the right. -/
def padRight (n : Nat) (bs : Bytes) : FixedBytes n :=
  ⟨bs.take n ++ List.replicate (n - bs.length) 0, by simp; omega⟩

@[simp] theorem toList_padRight (bs : Bytes) :
    (padRight n bs).toList = bs.take n ++ List.replicate (n - bs.length) 0 := rfl

/-- The bytes with another one in place `i`, if there is such a place. -/
def set (a : FixedBytes n) (i : Nat) (b : UInt8) : FixedBytes n :=
  ⟨a.toList.set i b, by simp [a.length_eq]⟩

@[simp] theorem toList_set (a : FixedBytes n) (i : Nat) (b : UInt8) :
    (a.set i b).toList = a.toList.set i b := rfl

/-- Adds two byte strings of one length bit by bit. -/
def xor (a b : FixedBytes n) : FixedBytes n :=
  ⟨Bytes.xor a.toList b.toList, by simp [a.length_eq, b.length_eq]⟩

/-- The `n` bytes of a number, most significant first. -/
def ofNatBE (n x : Nat) : FixedBytes n := ⟨Bytes.ofNatBE n x, Bytes.length_ofNatBE n x⟩

/-- The `n` bytes of a number, least significant first. -/
def ofNatLE (n x : Nat) : FixedBytes n := ⟨Bytes.ofNatLE n x, Bytes.length_ofNatLE n x⟩

/-- One byte string of fixed length after another. -/
def append {m : Nat} (a : FixedBytes m) (b : FixedBytes n) : FixedBytes (m + n) :=
  ⟨a.toList ++ b.toList, by simp [a.length_eq, b.length_eq]⟩

@[simp] theorem toList_append {m : Nat} (a : FixedBytes m) (b : FixedBytes n) :
    (a.append b).toList = a.toList ++ b.toList := rfl

@[simp] theorem ofList?_toList (a : FixedBytes n) : ofList? n a.toList = some a := by
  simp [ofList?, a.length_eq]

theorem ofList?_eq_some_iff {bs : Bytes} {a : FixedBytes n} :
    ofList? n bs = some a ↔ bs = a.toList := by
  constructor
  · intro h
    unfold ofList? at h
    split at h
    · cases h; rfl
    · cases h
  · rintro rfl
    exact ofList?_toList a

theorem ofList?_eq_none_iff {bs : Bytes} : ofList? n bs = none ↔ bs.length ≠ n := by
  unfold ofList?
  split <;> simp_all

end FixedBytes

end Signet
