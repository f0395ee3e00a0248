import WireSchema.Schema.Layout
import WireSchema.Text.LowerCase

/-!
# Catalogues

The messages of a protocol, checked against each other and sorted by number. Names, commands and
numbers are distinct, every number fits one byte, and an alias shares the layout of a message with
fields of its own, wherever that is declared.
-/

namespace WireSchema

/-- A message of a catalogue. -/
structure MessageDef where
  name : String
  command : String
  id : UInt8
  comment : String
  aliasOf : Option String
  layout : Layout
  deriving DecidableEq, Repr

/-- The messages of a protocol, sorted by number. -/
structure Catalogue where
  version : String
  messages : List MessageDef
  deriving DecidableEq, Repr

/-- The command of a message: the declared one, or the lower-cased name. -/
def MessageDecl.commandName (d : MessageDecl) : String :=
  d.command.getD (String.ofList (Text.lowerCase d.name.toList))

namespace Catalogue

/-! ### Building -/

/-- Checks that a message differs from earlier ones in name, command and number, and that its number
fits one byte. -/
def checkAgainst (earlier : List MessageDecl) (d : MessageDecl) : Except SchemaError Unit :=
  if earlier.any fun e => e.name = d.name then .error (.duplicateMessage d.name)
  else if earlier.any fun e => e.commandName = d.commandName then
    .error (.duplicateCommand d.name d.commandName)
  else if 256 ≤ d.id then .error (.invalidAttribute d.name "id" (.idBeyondByte d.id))
  else if earlier.any fun e => e.id = d.id then .error (.duplicateId d.name d.id)
  else .ok ()

/-- Checks each message against the ones before it. -/
def checkDistinct (earlier : List MessageDecl) : List MessageDecl → Except SchemaError Unit
  | [] => .ok ()
  | d :: rest =>
    match checkAgainst earlier d with
    | .error e => .error e
    | .ok () => checkDistinct (d :: earlier) rest

/-- The layouts of the messages with fields of their own, by name. -/
def layouts (done : List (String × Layout)) :
    List MessageDecl → Except SchemaError (List (String × Layout))
  | [] => .ok done
  | d :: rest =>
    match d.body with
    | .aliasOf _ => layouts done rest
    | .fields fields =>
      match Layout.ofDecls d.name fields with
      | .error e => .error e
      | .ok layout => layouts ((d.name, layout) :: done) rest

/-- The message of a declaration, given the layouts by name. -/
def messageOf (known : List (String × Layout)) (d : MessageDecl) : Except SchemaError MessageDef :=
  let (aliasOf, target) := match d.body with
    | .fields _ => (none, d.name)
    | .aliasOf target => (some target, target)
  match known.lookup target with
  | none => .error (.unknownAlias d.name target)
  | some layout => .ok ⟨d.name, d.commandName, UInt8.ofNat d.id, d.comment, aliasOf, layout⟩

/-- The catalogue of declared messages. -/
def ofDecls (version : String) (decls : List MessageDecl) : Except SchemaError Catalogue := do
  checkDistinct [] decls
  let known ← layouts [] decls
  let messages ← decls.mapM (messageOf known)
  .ok ⟨version, messages.mergeSort fun a b => a.id ≤ b.id⟩

/-! ### Looking up -/

/-- The message with a number. -/
def byId? (c : Catalogue) (id : UInt8) : Option MessageDef :=
  c.messages.find? fun m => m.id == id

/-- The message with a name. -/
def byName? (c : Catalogue) (name : String) : Option MessageDef :=
  c.messages.find? fun m => m.name == name

/-- The message with a command. -/
def byCommand? (c : Catalogue) (command : String) : Option MessageDef :=
  c.messages.find? fun m => m.command == command

end Catalogue

end WireSchema
