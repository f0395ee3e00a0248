import WireSchema.Schema.Declaration

/-!
# Text formats of numbers

A number in a text command is written plainly, in hexadecimal, or divided by a fixed divisor.
-/

namespace WireSchema

/-- A divisor: positive, and small enough for 32 bits. -/
structure Divisor where
  value : Nat
  pos : 0 < value
  lt : value < 0x100000000
  deriving DecidableEq, Repr

/-- How a number is written as text. -/
inductive Format where
  | plain
  | div (divisor : Divisor)
  | hex
  deriving DecidableEq, Repr

/-- The divisor of a decimal numeral, which may have a plus sign. -/
def Divisor.ofText? (s : List Char) : Option Divisor :=
  match Text.readBelow 10 0x100000000 s with
  | some n => if h : 0 < n ∧ n < 0x100000000 then some ⟨n, h.1, h.2⟩ else none
  | none => none

/-- The format of a format text: nothing, `hex`, or `div` and a divisor. -/
def Format.ofText (owner s : String) : Except SchemaError Format :=
  if s = "" then .ok .plain
  else if s = "hex" then .ok .hex
  else
    match s.toList with
    | 'd' :: 'i' :: 'v' :: digits =>
      match Divisor.ofText? digits with
      | some d => .ok (.div d)
      | none => .error (.invalidAttribute owner "format" (.divisor s))
    | _ => .error (.invalidAttribute owner "format" (.unknownFormat s))

/-- The format of a declared field: the attribute if there is one, else the type parameter. -/
def FieldDecl.format (d : FieldDecl) (name : String) : Except SchemaError Format :=
  match d.attributes.format, d.params with
  | some format, _ => Format.ofText name format
  | none, some (.format format) => Format.ofText name format
  | none, some (.names _) => .error (.invalidAttribute name "_type_params" .paramsNotOfFlags)
  | none, none => .ok .plain

end WireSchema
