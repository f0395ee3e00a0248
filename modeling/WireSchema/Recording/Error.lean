import WireSchema.Command.Basic
import WireSchema.Wire.Error

/-!
# Recording errors

Why a recording cannot be opened, or an item of it cannot be read or written.
-/

namespace WireSchema

/-- Why bytes cannot be read: too few are left, or they are no text. -/
inductive InputFault where
  | unexpectedEnd
  | invalidData
  deriving DecidableEq, Repr

/-- What goes wrong with a recording. A command error while reading comes with its line, an overflow
does not. -/
inductive RecordingError where
  | input (fault : InputFault)
  | metadataNotJson
  | badMagic (found : Bytes)
  | metadataTooLong (length : Nat)
  | wire (e : WireError)
  | command (e : CommandError)
  | line (number : Nat) (e : CommandError)
  deriving DecidableEq, Repr

/-- The error of a recording for an error of the command on a line. -/
def RecordingError.ofCommandOn (line : Nat) : CommandError → RecordingError
  | .overflow operation result => .command (.overflow operation result)
  | e => .line line e

/-- The text of an error. -/
def RecordingError.message : RecordingError → String
  | input .unexpectedEnd => "I/O error: failed to fill whole buffer"
  | input .invalidData => "I/O error: stream did not contain valid UTF-8"
  | metadataNotJson => "JSON error"
  | badMagic found =>
    "not a binary recording (bad magic ["
      ++ String.intercalate ", " (found.map fun b => toString b.toNat) ++ "])"
  | metadataTooLong length =>
    "recording metadata too long: " ++ toString length ++ " bytes (max 65535)"
  | wire e => e.message
  | command e => e.message
  | line number e => "line " ++ toString number ++ ": " ++ e.message

end WireSchema
