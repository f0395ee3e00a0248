import WireSchema.Binary64.Text
import WireSchema.Bytes
import WireSchema.Text.LowerCase

/-!
# Text commands

The text form of a message: a sender, the name of a command, arguments as pairs of key and value,
and records of numbers. What a text may leave open is settled by `CommandOptions`.

* `Command` — the text form;
* `LineFault`, `CommandError` — why a text is no command, and why a command is no message, or that
  an operation on integers of 64 bits has no result.
-/

namespace WireSchema

/-- The text form of a message. -/
structure Command where
  userId : UInt8
  name : String
  args : List (String × String) := []
  records : List (List Binary64) := []
  deriving DecidableEq

namespace Command

/-- The command with one more argument; an empty value is left out. -/
def set (c : Command) (key value : String) : Command :=
  if value = "" then c else { c with args := c.args ++ [(key, value)] }

/-- The first value of a key. -/
def get? (c : Command) (key : String) : Option String :=
  c.args.lookup key

end Command

/-! ### Options -/

/-- What to do with the names of flags that are not declared. -/
inductive FlagPolicy where
  | ignore
  | reject
  deriving DecidableEq, Repr

/-- The policy of a name in any case; otherwise the lower-cased name is given back. -/
def FlagPolicy.ofName (s : String) : Except String FlagPolicy :=
  let name := String.ofList (Text.lowerCase s.toList)
  if name = "ignore" then .ok .ignore
  else if name = "reject" then .ok .reject
  else .error name

/-- The text that explains a name which is no policy. -/
def FlagPolicy.unknownMessage (name : String) : String :=
  "unknown flag policy '" ++ name ++ "' (expected ignore or reject)"

/-- How commands are read. A record with the wrong number of values is an error when records are
strict, and left out otherwise. -/
structure CommandOptions where
  unknownFlags : FlagPolicy := .ignore
  strictRecords : Bool := false
  deriving DecidableEq, Repr

/-! ### Errors -/

/-- Why a text is no command. -/
inductive LineFault where
  | metadataWithoutEquals (line : String)
  | expectedCommand (line : String)
  | invalidUserId (word : String)
  | expectedArgument (word : String)
  | invalidRecordValue (word : String)
  | unknownEscape (c : Char)
  | danglingEscape
  | malformedCodePoint
  | unterminatedBlock (command : String)
  | severalMessages
  | unexpectedMetadata (key : String)
  | noMessage
  deriving DecidableEq, Repr

/-- The text of a fault. -/
def LineFault.message : LineFault → String
  | metadataWithoutEquals line => "metadata line without '=': " ++ line
  | expectedCommand line => "expected '<user_id> <command>': " ++ line
  | invalidUserId word => "invalid user ID '" ++ word ++ "'"
  | expectedArgument word => "expected key=value, got '" ++ word ++ "'"
  | invalidRecordValue word => "invalid record value '" ++ word ++ "'"
  | unknownEscape c => "unknown escape '\\" ++ String.singleton c ++ "'"
  | danglingEscape => "dangling '\\' at end of value"
  | malformedCodePoint => "malformed '\\u\x7b..\x7d' escape"
  | unterminatedBlock command => "unterminated record block in '" ++ command ++ "' message"
  | severalMessages => "more than one message"
  | unexpectedMetadata key => "unexpected metadata line '" ++ key ++ "'"
  | noMessage => "no message"

/-- An operation on signed 64-bit integers. -/
inductive Operation where
  | negation
  | subtraction
  | shift
  deriving DecidableEq, Repr

/-- What is said of an operation whose result is out of range. -/
def Operation.overflowMessage : Operation → String
  | negation => "attempt to negate with overflow"
  | subtraction => "attempt to subtract with overflow"
  | shift => "attempt to shift left with overflow"

/-- Why a text or a command is no message, or a message has no text form. An overflow is no answer
about the text: the program stops at an operation on signed 64-bit integers whose exact result is
out of their range. -/
inductive CommandError where
  | unknownType (type : UInt8)
  | unknownCommand (name : String)
  | fieldCount (expected actual : Nat)
  | typeMismatch (field : String)
  | unknownFlag (field flag : String)
  | invalidValue (field value : String)
  | outOfRange (field value : String)
  | recordArity (field : String) (expected actual : Nat)
  | malformed (fault : LineFault)
  | overflow (operation : Operation) (result : Int)
  deriving DecidableEq, Repr

/-- The text of an error. -/
def CommandError.message : CommandError → String
  | unknownType type => "unknown message type " ++ toString type.toNat
  | unknownCommand name => "unknown command '" ++ name ++ "'"
  | fieldCount expected actual =>
    "wrong number of values: expected " ++ toString expected ++ ", got " ++ toString actual
  | typeMismatch field => field ++ ": value does not match the field type"
  | unknownFlag field flag => field ++ ": unknown flag '" ++ flag ++ "'"
  | invalidValue field value => field ++ ": invalid value '" ++ value ++ "'"
  | outOfRange field value => field ++ ": value " ++ value ++ " out of range"
  | recordArity field expected actual =>
    field ++ ": record has " ++ toString actual ++ " values, expected " ++ toString expected
  | malformed fault => "syntax error: " ++ fault.message
  | overflow operation _ => operation.overflowMessage

end WireSchema
