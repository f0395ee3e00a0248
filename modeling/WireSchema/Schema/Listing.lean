import WireSchema.Schema.Catalogue
import WireSchema.Text.Quoted

/-!
# Listings

A catalogue as a text for people: the version, then each message with its comment, its command, its
number and its bounds, and below it one line for each field.
-/

namespace WireSchema

/-- The type keyword of a scalar; flags are named by the unsigned type of their width. -/
def ScalarKind.typeName : ScalarKind → String
  | integer type _ => type.name
  | flags _ .one => "u8"
  | flags _ .two => "u16"
  | flags _ .four => "u32"

/-- The type keyword of a field. -/
def Field.typeName (f : Field) : String :=
  match f.kind with
  | .scalar kind => kind.typeName
  | .sequence type _ _ => type.name
  | .records .. => "struct"

/-- The bounds and the name of a field. -/
def fieldHeading (name : String) (minLen maxLen : Nat) : String :=
  let bounds :=
    if minLen = maxLen then toString minLen else toString minLen ++ "-" ++ toString maxLen
  "[" ++ bounds ++ "] " ++ name ++ ": "

/-- A scalar without its heading. -/
def ScalarKind.listing : ScalarKind → String
  | integer type _ => type.name
  | flags names width => (flags names width).typeName ++ " " ++ Text.quotedList names

/-- The line of a column. -/
def Column.listing (c : Column) : String :=
  fieldHeading c.name c.kind.width.bytes c.kind.width.bytes ++ c.kind.listing

/-- The line of a field; the columns of records follow on lines of their own. -/
def Field.listing (f : Field) : String :=
  let content := match f.kind with
    | .scalar kind => kind.listing
    | .sequence type (some count) _ => count.name ++ " + " ++ type.name
    | .sequence type none _ => type.name
    | .records recordName columns _ maxItems =>
      "struct " ++ recordName ++ " * 0.." ++ toString maxItems ++
        String.join (columns.map fun c => "\n\t\t" ++ c.listing)
  fieldHeading f.name f.minLen f.maxLen ++ content

/-- The lines of a message: its comment, a heading, and its fields. An alias names the message whose
layout it shares. -/
def MessageDef.listing (m : MessageDef) : String :=
  let comment := String.join
    ((Text.lines m.comment.toList).map fun line => "# " ++ String.ofList line ++ "\n")
  let heading := m.name ++ "(name=\"" ++ m.command ++ "\", id=" ++ toString m.id.toNat
  let rest := match m.aliasOf with
    | some target => ") --> " ++ target
    | none =>
      if m.layout.fields.isEmpty then ")"
      else
        let bounds := if m.layout.isFixed then ", len=" ++ toString m.layout.minLen
          else ", minlen=" ++ toString m.layout.minLen ++ ", maxlen=" ++ toString m.layout.maxLen
        bounds ++ "):" ++ String.join (m.layout.fields.map fun f => "\n\t" ++ f.listing)
  comment ++ heading ++ rest

/-- The lines of a catalogue, with an empty line after each message. -/
def Catalogue.listing (c : Catalogue) : String :=
  "Protocol version: " ++ c.version ++ "\n" ++
    String.join (c.messages.map fun m => m.listing ++ "\n\n")

end WireSchema
