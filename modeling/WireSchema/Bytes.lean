/-!
# Byte strings and big-endian numbers

A byte string is a list of bytes. Numbers on the wire take one, two or four bytes (`ByteWidth`),
the most significant first.

* `ByteWidth.put` / `ByteWidth.get?` — writing and reading a number;
* `ByteWidth.get?_put_append` — reading after writing gives the number back, reduced to the
  width, and leaves what follows.
-/

namespace WireSchema

/-- A byte string. -/
abbrev Bytes := List UInt8

/-- The widths a number can have on the wire. -/
inductive ByteWidth where
  | one
  | two
  | four
  deriving DecidableEq, Repr

namespace ByteWidth

/-- The width in bytes. -/
def bytes : ByteWidth → Nat
  | one => 1
  | two => 2
  | four => 4

/-- How many numbers the width can hold: every one below this. -/
def capacity : ByteWidth → Nat
  | one => 0x100
  | two => 0x10000
  | four => 0x100000000

/-- The width of so many bytes. -/
def ofBytes? : Nat → Option ByteWidth
  | 1 => some one
  | 2 => some two
  | 4 => some four
  | _ => none

/-- The low-order bytes of `n`, the most significant first. -/
def put (w : ByteWidth) (n : Nat) : Bytes :=
  match w with
  | one => [UInt8.ofNat n]
  | two => [UInt8.ofNat (n / 0x100), UInt8.ofNat n]
  | four =>
    [UInt8.ofNat (n / 0x1000000), UInt8.ofNat (n / 0x10000), UInt8.ofNat (n / 0x100), UInt8.ofNat n]

/-- The number at the front of a byte string and the bytes after it. -/
def get? (w : ByteWidth) (s : Bytes) : Option (Nat × Bytes) :=
  match w, s with
  | one, a :: rest => some (a.toNat, rest)
  | two, a :: b :: rest => some (a.toNat * 0x100 + b.toNat, rest)
  | four, a :: b :: c :: d :: rest =>
    some (a.toNat * 0x1000000 + b.toNat * 0x10000 + c.toNat * 0x100 + d.toNat, rest)
  | _, _ => none

theorem length_put (w : ByteWidth) (n : Nat) : (w.put n).length = w.bytes := by
  cases w <;> rfl

/-- Reading after writing gives the number back, reduced to the width. -/
theorem get?_put_append (w : ByteWidth) (n : Nat) (rest : Bytes) :
    w.get? (w.put n ++ rest) = some (n % w.capacity, rest) := by
  cases w
  · show some ((UInt8.ofNat n).toNat, rest) = _
    simp only [capacity, UInt8.toNat_ofNat']
  · show some ((UInt8.ofNat (n / 0x100)).toNat * 0x100 + (UInt8.ofNat n).toNat, rest) = _
    simp only [capacity, UInt8.toNat_ofNat', Option.some.injEq, Prod.mk.injEq, and_true]
    omega
  · show some ((UInt8.ofNat (n / 0x1000000)).toNat * 0x1000000
      + (UInt8.ofNat (n / 0x10000)).toNat * 0x10000
      + (UInt8.ofNat (n / 0x100)).toNat * 0x100 + (UInt8.ofNat n).toNat, rest) = _
    simp only [capacity, UInt8.toNat_ofNat', Option.some.injEq, Prod.mk.injEq, and_true]
    omega

/-- A number is missing exactly when fewer bytes are left than its width. -/
theorem get?_eq_none_iff (w : ByteWidth) (s : Bytes) : w.get? s = none ↔ s.length < w.bytes := by
  cases w <;> rcases s with _ | ⟨a, _ | ⟨b, _ | ⟨c, _ | ⟨d, rest⟩⟩⟩⟩ <;>
    simp only [get?, bytes, List.length_cons, List.length_nil, reduceCtorEq, false_iff,
      true_iff] <;> omega

end ByteWidth

/-- An unsigned 16-bit number in two bytes. -/
def bytesOfWord (w : UInt16) : Bytes :=
  ByteWidth.two.put w.toNat

end WireSchema
