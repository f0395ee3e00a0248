import WireSchema.Schema.Error
import WireSchema.Text.Blank

/-!
# Declarations

Messages and fields as a schema declares them, before anything about them has been checked. A field
is declared in a short form, the two words `name type`, or in a long form: the same two words as a
key with optional type parameters, and attributes beside it.
-/

namespace WireSchema

/-- The parameters of a type: a format, or the names of flags. -/
inductive TypeParams where
  | format (text : String)
  | names (list : List String)
  deriving DecidableEq, Repr

/-- The attributes of a field in long form; `α` is the type of the subfields of a record. -/
structure FieldAttributes (α : Type) where
  format : Option String := none
  minLen : Option Nat := none
  maxLen : Option Nat := none
  countType : Option String := none
  length : Option Nat := none
  recordName : Option String := none
  fields : Option (List α) := none

/-- A field as declared. -/
inductive FieldDecl where
  | short (spec : String)
  | long (key : String) (params : Option TypeParams) (attributes : FieldAttributes FieldDecl)

/-- What a message declares: its own fields, or another message whose layout it shares. -/
inductive MessageBody where
  | fields (list : List FieldDecl)
  | aliasOf (target : String)

/-- A message as declared. The command defaults to the lower-cased name. -/
structure MessageDecl where
  name : String
  id : Nat
  command : Option String := none
  comment : String := ""
  body : MessageBody

namespace FieldDecl

/-- The type parameters, if any. -/
def params : FieldDecl → Option TypeParams
  | short _ => none
  | long _ params _ => params

/-- The attributes; a short form has none. -/
def attributes : FieldDecl → FieldAttributes FieldDecl
  | short _ => {}
  | long _ _ attributes => attributes

/-- The text that holds the name and the type. -/
def spec : FieldDecl → String
  | short spec => spec
  | long key _ _ => key

/-- The name and the type keyword: the two words of the declaration. -/
def nameAndType (d : FieldDecl) : Except SchemaError (String × String) :=
  match Text.words d.spec.toList, d with
  | [name, type], _ => .ok (String.ofList name, String.ofList type)
  | _, short spec => .error (.invalidShortForm spec)
  | _, long key _ _ => .error (.invalidLongForm key)

end FieldDecl

end WireSchema
