import WireSchema.Crc32c
import WireSchema.Json.Basic
import WireSchema.Schema.Catalogue
import WireSchema.Utf8

/-!
# Digest and checksum

A catalogue as one JSON text, which names everything that two peers must agree on: the version, and
of every message its names, number, comment and layout. The checksum of a catalogue is the CRC-32C
of that text.

* `Field.toJson`, `MessageDef.toJson` — the model of fields and messages;
* `Catalogue.digest`, `Catalogue.checksum` — the text and its checksum.
-/

namespace WireSchema

/-- The model of a format. -/
def Format.toJson : Format → Json
  | plain => .string "plain"
  | hex => .string "hex"
  | div d => .object [("div", .number d.value)]

/-- The members that describe a scalar. -/
def ScalarKind.members : ScalarKind → List (String × Json)
  | integer type format =>
    [("kind", .string "integer"), ("ty", .string type.name), ("format", format.toJson)]
  | flags names width =>
    [("kind", .string "flags"), ("flags", .array (names.map .string)),
      ("width", .number width.bytes)]

/-- A field with its bounds and the members of its kind. -/
def fieldJson (name : String) (minLen maxLen : Nat) (kind : List (String × Json)) : Json :=
  .object
    ([("name", .string name), ("min_len", .number minLen), ("max_len", .number maxLen)] ++ kind)

/-- The model of a column. -/
def Column.toJson (c : Column) : Json :=
  fieldJson c.name c.kind.width.bytes c.kind.width.bytes c.kind.members

/-- The members that describe the kind of a field. -/
def FieldKind.members : FieldKind → List (String × Json)
  | scalar kind => kind.members
  | sequence type count format =>
    [("kind", .string "sequence"), ("ty", .string type.name),
      ("prefix", match count with
        | some t => .string t.name
        | none => .null),
      ("format", format.toJson)]
  | records recordName columns itemLen maxItems =>
    [("kind", .string "struct"), ("struct_name", .string recordName),
      ("subfields", .array (columns.map Column.toJson)), ("item_len", .number itemLen),
      ("max_items", .number maxItems)]

/-- The model of a field. -/
def Field.toJson (f : Field) : Json :=
  fieldJson f.name f.minLen f.maxLen f.kind.members

/-- The model of a layout. -/
def Layout.toJson (l : Layout) : Json :=
  .object [("fields", .array (l.fields.map Field.toJson)), ("min_len", .number l.minLen),
    ("max_len", .number l.maxLen)]

/-- The model of a message; only an alias names another message. -/
def MessageDef.toJson (m : MessageDef) : Json :=
  .object ([("name", .string m.name), ("command", .string m.command), ("id", .number m.id.toNat),
    ("comment", .string m.comment)] ++
    (match m.aliasOf with
      | some target => [("alias", .string target)]
      | none => []) ++
    [("layout", m.layout.toJson)])

namespace Catalogue

/-- The model of the messages. -/
def model (c : Catalogue) : Json :=
  .array (c.messages.map MessageDef.toJson)

/-- The text that the checksum is taken of. -/
def digest (c : Catalogue) : List Char :=
  (Json.object [("version", .string c.version), ("messages", c.model)]).render

/-- The checksum of a catalogue, as eight hexadecimal digits. -/
def checksum (c : Catalogue) : String :=
  String.ofList (Text.paddedNumeral 16 8 (Crc32c.checksum (Utf8.encode c.digest)).toNat)

end Catalogue

end WireSchema
