import WireSchema.Bytes

/-!
# Type keywords

The types that a field can be declared with: integers of fixed width, flags, sequences of bytes,
numbers or text, and arrays of records. A keyword names each (`Keyword.ofName?`), and `name` gives
it back.
-/

namespace WireSchema

/-- The largest payload that a frame can carry, in bytes. -/
def maxPayload : Nat := 0xffff

/-- The largest number of flags in a flags field. -/
def maxFlags : Nat := 32

/-! ### Integers -/

/-- The integer types. `argb32` is a color in four bytes, `bool` one byte that is zero or not. -/
inductive IntType where
  | i8
  | i16
  | i32
  | u8
  | u16
  | u32
  | argb32
  | bool
  deriving DecidableEq, Repr

namespace IntType

/-- The width on the wire. -/
def width : IntType → ByteWidth
  | i8 | u8 | bool => .one
  | i16 | u16 => .two
  | i32 | u32 | argb32 => .four

/-- Whether values are stored in two's complement. -/
def isSigned : IntType → Bool
  | i8 | i16 | i32 => true
  | _ => false

/-- The least value. -/
def least (t : IntType) : Int :=
  if t.isSigned then -(t.width.capacity / 2 : Nat) else 0

/-- The greatest value. -/
def greatest (t : IntType) : Int :=
  if t = bool then 1
  else if t.isSigned then (t.width.capacity / 2 : Nat) - 1
  else t.width.capacity - 1

/-- Whether a value lies between the least and the greatest, both included. -/
def contains (t : IntType) (v : Int) : Bool :=
  t.least ≤ v && v ≤ t.greatest

/-- The keyword of the type. -/
def name : IntType → String
  | i8 => "i8"
  | i16 => "i16"
  | i32 => "i32"
  | u8 => "u8"
  | u16 => "u16"
  | u32 => "u32"
  | argb32 => "argb32"
  | bool => "bool"

/-- Every integer type, in the order of the declaration. -/
def all : List IntType :=
  [i8, i16, i32, u8, u16, u32, argb32, bool]

/-- The integer type of a keyword. -/
def ofName? (s : String) : Option IntType :=
  all.find? fun t => t.name == s

theorem ofName?_name (t : IntType) : ofName? t.name = some t := by
  cases t <;> decide

theorem contains_iff (t : IntType) (v : Int) :
    t.contains v = true ↔ t.least ≤ v ∧ v ≤ t.greatest := by
  simp only [contains, Bool.and_eq_true, decide_eq_true_eq]

end IntType

/-! ### Sequences -/

/-- The element types of a sequence of variable length. -/
inductive SeqType where
  | bytes
  | vecU8
  | vecU16
  | utf8
  deriving DecidableEq, Repr

namespace SeqType

/-- The size of one element in bytes. -/
def elementSize : SeqType → Nat
  | vecU16 => 2
  | bytes | vecU8 | utf8 => 1

/-- The keyword of the type. -/
def name : SeqType → String
  | bytes => "bytes"
  | vecU8 => "vec_u8"
  | vecU16 => "vec_u16"
  | utf8 => "utf8"

/-- Every element type, in the order of the declaration. -/
def all : List SeqType :=
  [bytes, vecU8, vecU16, utf8]

/-- The element type of a keyword. -/
def ofName? (s : String) : Option SeqType :=
  all.find? fun t => t.name == s

theorem ofName?_name (t : SeqType) : ofName? t.name = some t := by
  cases t <;> decide

theorem elementSize_pos (t : SeqType) : 0 < t.elementSize := by
  cases t <;> decide

end SeqType

/-- The types of the element count that is stored before a sequence which is not the last field. -/
inductive CountType where
  | u8
  | u16
  deriving DecidableEq, Repr

namespace CountType

/-- The width of the count on the wire. -/
def width : CountType → ByteWidth
  | u8 => .one
  | u16 => .two

/-- The largest count. -/
def maxCount (t : CountType) : Nat :=
  t.width.capacity - 1

/-- The name of the type. -/
def name : CountType → String
  | u8 => "u8"
  | u16 => "u16"

/-- The count type of a name. -/
def ofName? (s : String) : Option CountType :=
  if s = "u8" then some u8 else if s = "u16" then some u16 else none

theorem ofName?_name (t : CountType) : ofName? t.name = some t := by
  cases t <;> decide

end CountType

/-! ### All keywords -/

/-- What a type keyword stands for. -/
inductive Keyword where
  | integer (type : IntType)
  | flags
  | sequence (type : SeqType)
  | records
  deriving DecidableEq, Repr

/-- The keyword of a name. -/
def Keyword.ofName? (s : String) : Option Keyword :=
  match IntType.ofName? s, SeqType.ofName? s with
  | some t, _ => some (.integer t)
  | none, some t => some (.sequence t)
  | none, none => if s = "flags" then some .flags else if s = "struct" then some .records else none

end WireSchema
