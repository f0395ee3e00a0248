import WireSchema.Text.Numeral

/-!
# Schema errors

Why a schema is refused. Each cause carries what its text names; `SchemaError.message` gives the
text. A schema is either accepted completely or not at all.
-/

namespace WireSchema

/-- What is wrong with the value of an attribute. -/
inductive AttributeFault where
  | countType (given : String)
  | divisor (format : String)
  | unknownFormat (format : String)
  | formatOfBool
  | paramsOfFlags
  | paramsNotOfFlags
  | flagsWidth (width : Nat)
  | scaledSequence
  | hexSequence
  | lengthTooLarge
  | noSubfields
  | idBeyondByte (id : Nat)
  | idTooLarge (id : Nat)
  | aliasWithFields
  | unknownMessageAttribute
  | unknownFieldAttribute
  | expectedMapping
  | expectedString
  | expectedList
  | expectedCount
  | expectedParams
  | expectedParamStrings
  | messageNameNoString
  | attributeNameNoString
  deriving DecidableEq, Repr

/-- The text of a fault. -/
def AttributeFault.message : AttributeFault → String
  | countType given => "prefix type can only be u8 or u16, got '" ++ given ++ "'"
  | divisor format => "invalid divisor in '" ++ format ++ "'"
  | unknownFormat format => "unknown format '" ++ format ++ "'"
  | formatOfBool => "bool fields have no alternative format"
  | paramsOfFlags => "flags field expects a list of flag names"
  | paramsNotOfFlags => "a list parameter is only valid for flags fields"
  | flagsWidth width => "unsupported flags field width " ++ toString width
  | scaledSequence => "scaling is only supported on integer fields"
  | hexSequence => "hex format is only supported on integer and vec_u16 fields"
  | lengthTooLarge => "declared length too large"
  | noSubfields => "struct must have at least one subfield"
  | idBeyondByte id => "message ID " ++ toString id ++ " does not fit in one byte"
  | idTooLarge id => "message ID " ++ toString id ++ " is too large"
  | aliasWithFields => "an alias message cannot declare fields"
  | unknownMessageAttribute => "unknown message attribute"
  | unknownFieldAttribute => "unknown field attribute"
  | expectedMapping => "expected a mapping"
  | expectedString => "expected a string"
  | expectedList => "expected a list"
  | expectedCount => "expected a non-negative integer"
  | expectedParams => "expected a string or a list"
  | expectedParamStrings => "list items must be strings"
  | messageNameNoString => "message names must be strings"
  | attributeNameNoString => "attribute names must be strings"

/-- Why a schema is refused. -/
inductive SchemaError where
  | duplicateField (owner field : String)
  | duplicateMessage (name : String)
  | duplicateId (name : String) (id : Nat)
  | duplicateCommand (name command : String)
  | missingAttribute (owner key : String)
  | invalidAttribute (owner key : String) (fault : AttributeFault)
  | unknownType (field typeName : String)
  | invalidShortForm (text : String)
  | invalidLongForm (text : String)
  | recordsNotLast (field : String)
  | recordsNotSoleVariable (field : String)
  | variableSubfield (owner field : String)
  | tooManyFlags (field : String) (count : Nat)
  | flagsWidthTooSmall (field : String) (width required : Nat)
  | maxBelowMin (field : String) (least most : Nat)
  | unknownAlias (name target : String)
  | notYaml
  deriving DecidableEq, Repr

/-- The text of an error. -/
def SchemaError.message : SchemaError → String
  | duplicateField owner field => "duplicate field name '" ++ field ++ "' in " ++ owner
  | duplicateMessage name => name ++ ": duplicate message name"
  | duplicateId name id => name ++ ": duplicate message ID " ++ toString id
  | duplicateCommand name command => name ++ ": duplicate message command name '" ++ command ++ "'"
  | missingAttribute owner key =>
    owner ++ " is missing required attribute '" ++ key ++ "'"
  | invalidAttribute owner key fault =>
    owner ++ ": invalid attribute '" ++ key ++ "': " ++ fault.message
  | unknownType field typeName => field ++ ": unknown field type '" ++ typeName ++ "'"
  | invalidShortForm text => "invalid short form field '" ++ text ++ "'"
  | invalidLongForm text => "invalid long form field: " ++ text
  | recordsNotLast field => field ++ ": struct field must be the last field"
  | recordsNotSoleVariable field =>
    field ++ ": struct field must be the only variable length field in a message"
  | variableSubfield owner field =>
    owner ++ "." ++ field ++ ": only fixed length fields allowed in structs"
  | tooManyFlags field count => field ++ ": too many flags (" ++ toString count ++ ", max 32)"
  | flagsWidthTooSmall field width required =>
    field ++ ": flags width " ++ toString width ++ " is too short (need " ++ toString required
      ++ ")"
  | maxBelowMin field least most =>
    field ++ ": max length " ++ toString most ++ " smaller than min length " ++ toString least
  | unknownAlias name target => name ++ ": alias target '" ++ target ++ "' not found"
  | notYaml => "YAML error"

end WireSchema
