import WireSchema.Schema.Catalogue
import WireSchema.Yaml.Value

/-!
# Schema documents

A schema as a YAML document: one mapping from names to messages, in the order of the text. The entry
`_protocol` carries the version. A message is a mapping of attributes, and a field is a string or a
mapping in which the key with a space in it declares name and type.

* `SchemaDocument.ofValue` — the declarations in a YAML value;
* `SchemaDocument.read` — the declarations in a text;
* `Catalogue.ofText` — the catalogue of a text.
-/

namespace WireSchema

/-- The version and the messages that a schema declares, in the order of the text. -/
structure SchemaDocument where
  version : String
  messages : List MessageDecl

/-! ### Attributes -/

/-- The name of an attribute. -/
def attributeName (owner : String) (key : Yaml.Value) : Except SchemaError String :=
  match key.string? with
  | some s => .ok s
  | none => .error (.invalidAttribute owner "key" .attributeNameNoString)

/-- An attribute that is a string. -/
def stringAttribute (owner key : String) (v : Yaml.Value) : Except SchemaError String :=
  match v.string? with
  | some s => .ok s
  | none => .error (.invalidAttribute owner key .expectedString)

/-- An attribute that is a natural number. -/
def countAttribute (owner key : String) (v : Yaml.Value) : Except SchemaError Nat :=
  match v.natural? with
  | some n => .ok n
  | none => .error (.invalidAttribute owner key .expectedCount)

/-! ### Fields -/

/-- The strings of a list of names. -/
def paramNames (field : String) (items : List Yaml.Value) : Except SchemaError (List String) :=
  items.mapM fun item =>
    match item.string? with
    | some s => .ok s
    | none => .error (.invalidAttribute field "_type_params" .expectedParamStrings)

/-- The type parameters that the value of a field's key gives. -/
def typeParams (field : String) (v : Yaml.Value) : Except SchemaError (Option TypeParams) :=
  match v with
  | .null => .ok none
  | .string s => .ok (some (.format s))
  | .sequence items => (paramNames field items).map fun names => some (.names names)
  | _ => .error (.invalidAttribute field "_type_params" .expectedParams)

/-- What a field in long form has declared so far: its key with type parameters, and attributes. -/
structure LongForm where
  keyed : Option (String × Option TypeParams) := none
  attributes : FieldAttributes FieldDecl := {}

namespace LongForm

/-- The form with one more key that declares name and type. -/
def addKey (f : LongForm) (owner key : String) (v : Yaml.Value) : Except SchemaError LongForm :=
  if f.keyed.isSome then
    .error (.invalidLongForm (owner ++ ": more than one \"<name> <type>\" key"))
  else
    match typeParams key v with
    | .ok params => .ok { f with keyed := some (key, params) }
    | .error e => .error e

/-- The form with one more attribute, subfields apart. -/
def addAttribute (f : LongForm) (owner key : String) (v : Yaml.Value) :
    Except SchemaError LongForm :=
  let a := f.attributes
  if key = "format" then
    (stringAttribute owner key v).map fun s => { f with attributes := { a with format := some s } }
  else if key = "min_len" then
    (countAttribute owner key v).map fun n => { f with attributes := { a with minLen := some n } }
  else if key = "max_len" then
    (countAttribute owner key v).map fun n => { f with attributes := { a with maxLen := some n } }
  else if key = "length" then
    (countAttribute owner key v).map fun n => { f with attributes := { a with length := some n } }
  else if key = "prefix_type" then
    (stringAttribute owner key v).map fun s =>
      { f with attributes := { a with countType := some s } }
  else if key = "name" then
    (stringAttribute owner key v).map fun s =>
      { f with attributes := { a with recordName := some s } }
  else .error (.invalidAttribute owner key .unknownFieldAttribute)

/-- The field that a complete form declares. -/
def finish (f : LongForm) (owner : String) : Except SchemaError FieldDecl :=
  match f.keyed with
  | some (key, params) => .ok (.long key params f.attributes)
  | none => .error (.invalidLongForm (owner ++ ": missing \"<name> <type>\" key"))

end LongForm

mutual

/-- The fields of a list; nothing at all stands for no fields. -/
def fieldList (owner : String) : Yaml.Value → Except SchemaError (List FieldDecl)
  | .sequence items => fieldItems owner items
  | .null => .ok []
  | _ => .error (.invalidAttribute owner "fields" .expectedList)

/-- The fields of the items of a list. -/
def fieldItems (owner : String) : List Yaml.Value → Except SchemaError (List FieldDecl)
  | [] => .ok []
  | v :: rest =>
    match fieldDecl owner v with
    | .error e => .error e
    | .ok d =>
      match fieldItems owner rest with
      | .error e => .error e
      | .ok ds => .ok (d :: ds)

/-- The field of an item. -/
def fieldDecl (owner : String) : Yaml.Value → Except SchemaError FieldDecl
  | .string spec => .ok (.short spec)
  | .mapping entries =>
    match longForm owner {} entries with
    | .ok f => f.finish owner
    | .error e => .error e
  | v => .error (.invalidShortForm (owner ++ ": " ++ v.describe))

/-- The long form with the entries of a mapping. A key with a space declares name and type. -/
def longForm (owner : String) (f : LongForm) :
    List (Yaml.Value × Yaml.Value) → Except SchemaError LongForm
  | [] => .ok f
  | (k, v) :: rest =>
    match attributeName owner k with
    | .error e => .error e
    | .ok key =>
      let next :=
        if key.toList.contains ' ' then f.addKey owner key v
        else if key = "fields" then
          match fieldList owner v with
          | .ok fields => .ok { f with attributes := { f.attributes with fields := some fields } }
          | .error e => .error e
        else f.addAttribute owner key v
      match next with
      | .error e => .error e
      | .ok f => longForm owner f rest

end

/-! ### Messages -/

/-- What a message has declared so far. -/
structure MessageForm where
  id : Option Nat := none
  command : Option String := none
  comment : String := ""
  aliasOf : Option String := none
  fields : Option (List FieldDecl) := none

namespace MessageForm

/-- The form with one more attribute. -/
def add (f : MessageForm) (name : String) (entry : Yaml.Value × Yaml.Value) :
    Except SchemaError MessageForm := do
  let key ← attributeName name entry.1
  let v := entry.2
  if key = "id" then
    (countAttribute name key v).map fun n => { f with id := some n }
  else if key = "name" then
    (stringAttribute name key v).map fun s => { f with command := some s }
  else if key = "comment" then
    (stringAttribute name key v).map fun s =>
      { f with comment := String.ofList (Text.trimEnd s.toList) }
  else if key = "alias" then
    (stringAttribute name key v).map fun s => { f with aliasOf := some s }
  else if key = "fields" then
    (fieldList name v).map fun fields => { f with fields := some fields }
  else .error (.invalidAttribute name key .unknownMessageAttribute)

/-- The message that a complete form declares. Numbers are limited to 32 bits, and an alias has no
fields of its own. -/
def finish (f : MessageForm) (name : String) : Except SchemaError MessageDecl :=
  match f.id with
  | none => .error (.missingAttribute name "id")
  | some id =>
    if 0x100000000 ≤ id then .error (.invalidAttribute name "id" (.idTooLarge id))
    else
      match f.aliasOf, f.fields with
      | some _, some _ => .error (.invalidAttribute name "alias" .aliasWithFields)
      | some target, none => .ok ⟨name, id, f.command, f.comment, .aliasOf target⟩
      | none, fields => .ok ⟨name, id, f.command, f.comment, .fields (fields.getD [])⟩

end MessageForm

/-- The message that an entry of a schema declares. -/
def messageDecl (name : String) (v : Yaml.Value) : Except SchemaError MessageDecl :=
  match v.entries? with
  | none => .error (.invalidAttribute name "message" .expectedMapping)
  | some entries => do
    let f ← entries.foldlM (fun f entry => f.add name entry) ({} : MessageForm)
    f.finish name

/-! ### Schemas -/

/-- The key of the entry that carries the version. -/
def protocolKey : String := "_protocol"

/-- The version of a schema: a string, or a number as it is written. -/
def schemaVersion (v : Yaml.Value) : Except SchemaError String :=
  match v.entries? with
  | none => .error (.invalidAttribute protocolKey "version" .expectedMapping)
  | some entries =>
    match entries.find? fun entry => match entry.1 with
      | .string s => s == "version"
      | _ => false with
    | some (_, .string s) => .ok s
    | some (_, .number n) => .ok n.text
    | some _ => .error (.invalidAttribute protocolKey "version" .expectedString)
    | none => .error (.missingAttribute protocolKey "version")

namespace SchemaDocument

/-- What the entries so far have declared: the version, and the messages with the last one first. -/
structure Partial where
  version : Option String := none
  messages : List MessageDecl := []

/-- The declarations with those of one more entry. -/
def addEntry (p : Partial) (entry : Yaml.Value × Yaml.Value) : Except SchemaError Partial :=
  match entry.1.string? with
  | none => .error (.invalidAttribute "schema" "key" .messageNameNoString)
  | some name =>
    if name = protocolKey then
      (schemaVersion entry.2).map fun version => { p with version := some version }
    else (messageDecl name entry.2).map fun m => { p with messages := m :: p.messages }

/-- The declarations in a YAML value. -/
def ofValue (v : Yaml.Value) : Except SchemaError SchemaDocument :=
  match v.entries? with
  | none => .error (.invalidAttribute "schema" "root" .expectedMapping)
  | some entries => do
    let p ← entries.foldlM addEntry {}
    match p.version with
    | some version => .ok ⟨version, p.messages.reverse⟩
    | none => .error (.missingAttribute protocolKey "version")

/-- The declarations in a text. -/
def read (text : String) : Except SchemaError SchemaDocument :=
  match Yaml.Value.read text with
  | .ok v => ofValue v
  | .error _ => .error .notYaml

end SchemaDocument

/-- The catalogue of a schema in a text. -/
def Catalogue.ofText (text : String) : Except SchemaError Catalogue := do
  let document ← SchemaDocument.read text
  Catalogue.ofDecls document.version document.messages

end WireSchema
