import WireSchema.Bytes

/-!
# Base64

Bytes in the 64-letter alphabet that ends in `+` and `/`. Every three bytes are four letters; a rest
of one or two bytes is padded with `=`. Reading is strict: the padding must be there, nothing may
follow it, and the bits that the padding leaves unused must be zero, so that each byte string has
one written form.
-/

namespace WireSchema.Base64

/-- The letter of a number below 64. -/
def letter (n : Nat) : Char :=
  if n < 26 then Char.ofNat (65 + n)
  else if n < 52 then Char.ofNat (71 + n)
  else if n < 62 then Char.ofNat (n - 4)
  else if n = 62 then '+'
  else '/'

/-- The number of a letter. -/
def value? (c : Char) : Option Nat :=
  let n := c.toNat
  if 65 ≤ n ∧ n ≤ 90 then some (n - 65)
  else if 97 ≤ n ∧ n ≤ 122 then some (n - 71)
  else if 48 ≤ n ∧ n ≤ 57 then some (n + 4)
  else if c = '+' then some 62
  else if c = '/' then some 63
  else none

theorem value?_letter : ∀ n : Fin 64, value? (letter n) = some n.val := by
  decide

/-- The loop of `encode`; `done` holds the letters written, reversed. -/
def encodeFrom (done : List Char) : Bytes → List Char
  | [] => done.reverse
  | [a] =>
    let x := a.toNat
    done.reverse ++ [letter (x / 4), letter (x % 4 * 16), '=', '=']
  | [a, b] =>
    let x := a.toNat
    let y := b.toNat
    done.reverse ++ [letter (x / 4), letter (x % 4 * 16 + y / 16), letter (y % 16 * 4), '=']
  | a :: b :: c :: rest =>
    let x := a.toNat
    let y := b.toNat
    let z := c.toNat
    encodeFrom
      (letter (z % 64) :: letter (y % 16 * 4 + z / 64) :: letter (x % 4 * 16 + y / 16)
        :: letter (x / 4) :: done) rest

/-- The written form of a byte string. -/
def encode (s : Bytes) : List Char :=
  encodeFrom [] s

/-- The bytes of a last group that ends in `=`. -/
def decodePadded (a b c : Char) : Option Bytes :=
  match value? a, value? b with
  | some x, some y =>
    if c = '=' then
      if y % 16 = 0 then some [UInt8.ofNat (x * 4 + y / 16)] else none
    else
      match value? c with
      | some z =>
        if z % 4 = 0 then
          some [UInt8.ofNat (x * 4 + y / 16), UInt8.ofNat (y % 16 * 16 + z / 4)]
        else none
      | none => none
  | _, _ => none

/-- The loop of `decode?`; `done` holds the bytes read, reversed. -/
def decodeFrom? (done : Bytes) : List Char → Option Bytes
  | [] => some done.reverse
  | a :: b :: c :: d :: rest =>
    if d = '=' ∧ rest = [] then (decodePadded a b c).map (done.reverse ++ ·)
    else
      match value? a, value? b, value? c, value? d with
      | some x, some y, some z, some w =>
        decodeFrom?
          (UInt8.ofNat (z % 4 * 64 + w) :: UInt8.ofNat (y % 16 * 16 + z / 4)
            :: UInt8.ofNat (x * 4 + y / 16) :: done) rest
      | _, _, _, _ => none
  | _ => none

/-- The byte string of a written form; nothing for any other text. -/
def decode? (s : List Char) : Option Bytes :=
  decodeFrom? [] s

end WireSchema.Base64
