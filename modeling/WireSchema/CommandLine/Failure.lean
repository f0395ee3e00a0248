import WireSchema.Recording.Error
import WireSchema.Settings
import WireSchema.Text.Quoted

/-!
# Failures on the command line

How a failure that ends a session is shown: the name of the cause, and its data behind it in
brackets, texts in quotes.

* `RecordingError.shown`, `SettingsError.shown` — failures of recordings and of settings;
* `unreadableSchema` — why a schema cannot be read at all.
-/

namespace WireSchema

open WireSchema.Text

/-- Named data in braces behind the name of a cause. -/
def shownRecord (name : String) (data : List (String × String)) : String :=
  name ++ " \x7b " ++ String.intercalate ", " (data.map fun d => d.1 ++ ": " ++ d.2) ++ " \x7d"

/-- Data in parentheses behind the name of a cause. -/
def shownTuple (name : String) (data : List String) : String :=
  name ++ "(" ++ String.intercalate ", " data ++ ")"

/-- A file that cannot be opened. -/
def shownMissingFile : String :=
  shownRecord "Os"
    [("code", "2"), ("kind", "NotFound"), ("message", quoted "No such file or directory")]

/-- Bytes that cannot be read. -/
def InputFault.shown : InputFault → String
  | unexpectedEnd =>
    shownRecord "Error"
      [("kind", "UnexpectedEof"), ("message", quoted "failed to fill whole buffer")]
  | invalidData =>
    shownRecord "Error"
      [("kind", "InvalidData"), ("message", quoted "stream did not contain valid UTF-8")]

/-- A failure to open, to read or to write a recording. Faults of single messages do not end a
session; they are shown by their texts. -/
def RecordingError.shown : RecordingError → String
  | input fault => shownTuple "Io" [fault.shown]
  | badMagic found =>
    let bytes := String.intercalate ", " (found.map fun b => toString b.toNat)
    shownTuple "BadMagic" ["[" ++ bytes ++ "]"]
  | metadataTooLong length => shownTuple "MetadataTooLong" [toString length]
  | line number (.malformed fault) =>
    shownRecord "Line"
      [("line", toString number), ("source", shownTuple "Syntax" [quoted fault.message])]
  | e => e.message

/-- A failure to load settings from a file or the environment. -/
def SettingsError.shown (path : String) (isMissing : Bool) : SettingsError → String
  | unreadable =>
    let cause := if isMissing then shownMissingFile else InputFault.invalidData.shown
    shownTuple "Read" [quoted path, cause]
  | malformed => shownTuple "Parse" [quoted path, quoted "malformed"]
  | noSchemaPath =>
    shownRecord "Invalid"
      [("setting", quoted "schema.path"), ("reason", quoted "must name the protocol schema file")]

/-- Why a schema has no text: its file is missing, or holds other bytes. -/
def unreadableSchema (isMissing : Bool) : String :=
  if isMissing then "I/O error: No such file or directory (os error 2)"
  else "I/O error: stream did not contain valid UTF-8"

end WireSchema
