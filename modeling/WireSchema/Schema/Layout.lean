import WireSchema.Schema.Field

/-!
# Layouts

The fields of a message in order, with bounds on the length of a payload. Field names are distinct.
The upper bound is the sum of the fields' upper bounds, but never above what a frame can carry.
-/

namespace WireSchema

/-- The fields of a message and the bounds on its payload length. -/
structure Layout where
  fields : List Field
  minLen : Nat
  maxLen : Nat
  deriving DecidableEq, Repr

namespace Layout

/-- The layout without fields. -/
def empty : Layout := ⟨[], 0, 0⟩

/-- The field with a name. -/
def field? (l : Layout) (name : String) : Option Field :=
  l.fields.find? fun f => f.name == name

/-- The layout with one more field at its end. -/
def add (l : Layout) (f : Field) : Layout :=
  ⟨l.fields ++ [f], l.minLen + f.minLen, min (l.maxLen + f.maxLen) maxPayload⟩

/-- The layout of fields declared after those of `l`. -/
def extend (owner : String) (l : Layout) : List FieldDecl → Except SchemaError Layout
  | [] => .ok l
  | d :: rest =>
    match Field.ofDecl d rest.isEmpty l.minLen l.maxLen with
    | .error e => .error e
    | .ok f =>
      if (l.field? f.name).isSome then .error (.duplicateField owner f.name)
      else extend owner (l.add f) rest

/-- The layout of declared fields. -/
def ofDecls (owner : String) (decls : List FieldDecl) : Except SchemaError Layout :=
  extend owner empty decls

/-- Whether every payload has the same length. -/
def isFixed (l : Layout) : Bool :=
  l.minLen == l.maxLen

/-- Whether the bounds exclude any length that a frame can carry. -/
def hasBounds (l : Layout) : Bool :=
  0 < l.minLen || l.maxLen < maxPayload

/-- The total length of the fields of fixed length. -/
def fixedLen (l : Layout) : Nat :=
  l.fields.foldl (fun n f => if f.isFixed then n + f.minLen else n) 0

/-- The array of records at the end, if there is one. -/
def recordsField? (l : Layout) : Option Field :=
  l.fields.getLast?.filter Field.isRecords

/-- The largest number of records. -/
def maxItems? (l : Layout) : Option Nat :=
  l.recordsField?.bind Field.maxItems?

end Layout

end WireSchema
