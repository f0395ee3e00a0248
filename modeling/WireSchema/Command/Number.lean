import WireSchema.Command.Basic
import WireSchema.Schema.Field
import WireSchema.Text.Blank
import WireSchema.Utf8

/-!
# Numbers in commands

How numbers are written in arguments and records, and how they are read. A plain number is decimal;
in hexadecimal it has all the digits of its width; with a divisor it is the quotient, as a decimal
fraction. A color has six hexadecimal digits, or eight if it is not opaque. Reading accepts decimal
and hexadecimal for every plain or hexadecimal number.

Reading goes through signed integers of 64 bits. Where the result of an operation leaves their range
there is no answer, and the program stops: `checked64`.
-/

namespace WireSchema

open WireSchema.Text

/-! ### Writing -/

/-- A number of an integer type. -/
def IntType.render (type : IntType) (format : Format) (v : Int) : List Char :=
  match format with
  | .plain => decimal v
  | .div d => ((Binary64.ofInt v).divNat d.value).positional
  | .hex => ['0', 'x'] ++ paddedNumeral 16 (2 * type.width.bytes) (v % type.width.capacity).toNat

/-- A color: `#rrggbb` if it is opaque, else `#aarrggbb`. -/
def renderColor (v : Int) : List Char :=
  let n := (v % 0x100000000).toNat
  if n / 0x1000000 = 0xff then '#' :: paddedNumeral 16 6 (n % 0x1000000)
  else '#' :: paddedNumeral 16 8 n

/-- A number of a record. -/
def Format.scaleDown (format : Format) (v : Int) : Binary64 :=
  match format with
  | .div d => (Binary64.ofInt v).divNat d.value
  | _ => Binary64.ofInt v

/-! ### Reading -/

/-- The result of an operation on signed 64-bit integers. The program stops if it is out of their
range. -/
def checked64 (operation : Operation) (result : Int) : Except CommandError Int :=
  if -0x8000000000000000 ≤ result ∧ result < 0x8000000000000000 then .ok result
  else .error (.overflow operation result)

/-- A bit, shifted to its place in a signed 64-bit integer. -/
def bit64 (i : Nat) : Except CommandError Int :=
  checked64 .shift ((1 <<< i : Nat) : Int)

/-- An integer clamped to the range of 64 bits. -/
def clamp64 (v : Int) : Int :=
  max (-0x8000000000000000) (min v 0x7fffffffffffffff)

/-- Digits after `0x` in hexadecimal, others in decimal; both may have a sign. -/
def readMagnitude? (s : List Char) : Option Int :=
  match s with
  | '0' :: 'x' :: digits | '0' :: 'X' :: digits => readSigned64 16 digits
  | digits => readSigned64 10 digits

/-- The integer of a text: an optional minus sign and a magnitude, between blanks. The magnitude
behind a minus sign is negated; it may have a sign of its own. -/
def readInteger? (s : List Char) : Except CommandError (Option Int) :=
  match trim s with
  | '-' :: rest =>
    match readMagnitude? rest with
    | some v => (checked64 .negation (-v)).map some
    | none => .ok none
  | rest => .ok (readMagnitude? rest)

/-- Whether a text starts with the mark of a hexadecimal number. -/
def isHexadecimal (s : List Char) : Bool :=
  match trim s with
  | '0' :: 'x' :: _ | '0' :: 'X' :: _ => true
  | _ => false

/-- The value of an integer type for a number as read. Hexadecimal text of a signed type may be the
stored bit pattern, which is brought below zero. -/
def IntType.ofRead (type : IntType) (isHex : Bool) (v : Int) : Except CommandError Int :=
  if isHex ∧ type.isSigned ∧ 0 ≤ v ∧ v < type.width.capacity ∧ !type.contains v then do
    let bound ← bit64 (8 * type.width.bytes)
    checked64 .subtraction (v - bound)
  else .ok v

/-- The same for a number that may be missing. -/
def IntType.ofRead? (type : IntType) (isHex : Bool) : Option Int → Except CommandError (Option Int)
  | none => .ok none
  | some v => (type.ofRead isHex v).map some

/-- The value of a scaled number, as an integer of 64 bits; nothing if it is not finite. -/
def unscale? (d : Divisor) (x : Binary64) : Option Int :=
  (x.mulNat d.value).nearestInt?.map clamp64

/-- The number that was read for an integer type, if there is one and it is in range. -/
def IntType.checkRange (type : IntType) (field : String) (s : List Char) :
    Option Int → Except CommandError Int
  | none => .error (.invalidValue field (String.ofList s))
  | some v => if type.contains v then .ok v else .error (.outOfRange field (String.ofList s))

/-- The number of an integer type that a text denotes. -/
def IntType.read (type : IntType) (format : Format) (field : String) (s : List Char) :
    Except CommandError Int :=
  match format with
  | .div d => type.checkRange field s ((Binary64.read? (trim s)).bind (unscale? d))
  | _ => do
    let read ← readInteger? s
    let number ← type.ofRead? (isHexadecimal s) read
    type.checkRange field s number

/-- The color of the digits after `#`: six are opaque. -/
def readColorDigits? (digits : List Char) : Option Int :=
  let length := (Utf8.encode digits).length
  if length = 6 then
    (readBelow 16 0x100000000 digits).map fun n => ((0xff000000 ||| n : Nat) : Int)
  else if length = 8 then (readBelow 16 0x100000000 digits).map fun n => (n : Int)
  else none

/-- The color that was read, if there is one. -/
def checkColor (field : String) (s : List Char) : Option Int → Except CommandError Int
  | none => .error (.invalidValue field (String.ofList (trim s)))
  | some v => .ok v

/-- The color that a text denotes. -/
def readColor (field : String) (s : List Char) : Except CommandError Int :=
  match trim s with
  | '#' :: digits => checkColor field s (readColorDigits? digits)
  | number => do
    let read ← readInteger? number
    checkColor field s (read.filter fun v => 0 ≤ v && v < 0x100000000)

/-- The number of an entry of a comma list. -/
def IntType.readEntry (type : IntType) (field : String) (entry : List Char) :
    Except CommandError Int := do
  let read ← readInteger? entry
  type.checkRange field entry read

/-- The numbers of a comma list. -/
def readList (field : String) (type : IntType) (s : List Char) : Except CommandError (List Int) :=
  (listEntries s).mapM (type.readEntry field)

/-- Whether a number of a record can be stored. The bound of flags is a shifted bit. -/
def ScalarKind.fits (kind : ScalarKind) (v : Int) : Except CommandError Bool :=
  match kind with
  | .integer type _ => .ok (type.contains v)
  | .flags _ width => do
    let bound ← bit64 (8 * width.bytes)
    .ok (0 ≤ v && v < bound)

/-- The number of a column for a value of a record, in range or not. -/
def Column.unscaled? (c : Column) (x : Binary64) : Option Int :=
  match c.kind.format with
  | .div d => unscale? d x
  | _ => x.nearestInt?.map clamp64

/-- The number of a column for a value of a record. -/
def Column.scaleUp (c : Column) (x : Binary64) : Except CommandError Int :=
  match c.unscaled? x with
  | none => .error (.invalidValue c.name (String.ofList x.positional))
  | some v => do
    if ← c.kind.fits v then .ok v
    else .error (.outOfRange c.name (String.ofList x.positional))

end WireSchema
