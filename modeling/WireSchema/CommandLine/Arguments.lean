/-!
# Arguments of the command line

What the words of a command line ask for. Options may stand before the subcommand, and the
subcommand has options and operands of its own. A value may be attached to its option or follow it;
after two dashes every word is an operand.

* `Invocation` — what is asked for;
* `Invocation.ofWords` — reading the words.
-/

namespace WireSchema.CommandLine

/-- The texts of help that can be asked for. -/
inductive HelpTopic where
  | general
  | check
  | decode
  | encode
  | help
  deriving DecidableEq, Repr

/-- What is to be done with a schema. -/
inductive Task where
  | check
  | decode (input : String) (output : Option String)
  | encode (input output : String)
  deriving DecidableEq, Repr

/-- A task with the files named for the settings and the schema. -/
structure Request where
  config : Option String
  schema : Option String
  task : Task
  deriving DecidableEq, Repr

/-- What a command line asks for. -/
inductive Invocation where
  | run (r : Request)
  | help (topic : HelpTopic)
  | version
  deriving DecidableEq, Repr

/-- Why a command line cannot be understood. -/
inductive UsageError where
  | noArguments
  | noSubcommand
  | unknownSubcommand (name : String)
  | unexpectedArgument (word : String)
  | missingValue (option : String)
  | repeatedOption (option : String)
  | missingOperands (names : List String)
  deriving DecidableEq, Repr

/-- The text of an error. -/
def UsageError.message : UsageError → String
  | noArguments | noSubcommand => "'protogen' requires a subcommand but one was not provided"
  | unknownSubcommand name => "unrecognized subcommand '" ++ name ++ "'"
  | unexpectedArgument word => "unexpected argument '" ++ word ++ "' found"
  | missingValue option => "a value is required for '" ++ option ++ "' but none was supplied"
  | repeatedOption option => "the argument '" ++ option ++ "' cannot be used multiple times"
  | missingOperands names =>
    "the following required arguments were not provided:\n  " ++ String.intercalate "\n  " names

/-! ### Options -/

/-- An option with a value: its letter, its name, and how it is written in messages. -/
structure OptionName where
  letter : Char
  name : String
  shown : String

/-- The option for the file of the settings. -/
def configOption : OptionName := ⟨'c', "config", "--config <CONFIG>"⟩

/-- The option for the schema. -/
def schemaOption : OptionName := ⟨'s', "schema", "--schema <SCHEMA>"⟩

/-- The option for the output. -/
def outputOption : OptionName := ⟨'o', "output", "--output <OUTPUT>"⟩

/-- What a word is for one option: something else, the option, or the option with its value. -/
inductive OptionMatch where
  | other
  | bare
  | withValue (v : String)

/-- What a word is for an option. A value is attached to the letter, with or without an equals sign,
or to the name with one. -/
def OptionName.matches (o : OptionName) (word : String) : OptionMatch :=
  match word.toList with
  | '-' :: '-' :: rest =>
    if rest = o.name.toList then .bare
    else if (o.name.toList ++ ['=']).isPrefixOf rest then
      .withValue (String.ofList (rest.drop (o.name.length + 1)))
    else .other
  | '-' :: c :: rest =>
    if c ≠ o.letter then .other
    else
      match rest with
      | [] => .bare
      | '=' :: v => .withValue (String.ofList v)
      | v => .withValue (String.ofList v)
  | _ => .other

/-- Whether a word can be the value of the option before it or an operand: it does not start with a
dash, or is a dash alone. -/
def isOperand (word : String) : Bool :=
  match word.toList with
  | '-' :: _ :: _ => false
  | _ => true

/-- The value of an option that has been found, and the words after it. Values are not empty. -/
def optionValue (o : OptionName) (found : Option String) (m : OptionMatch) (rest : List String) :
    Except UsageError (String × List String) :=
  let value := match m, rest with
    | .withValue v, rest => some (v, rest)
    | _, v :: rest => if isOperand v then some (v, rest) else none
    | _, [] => none
  match value with
  | none | some ("", _) => .error (.missingValue o.shown)
  | some (v, rest) => if found.isSome then .error (.repeatedOption o.shown) else .ok (v, rest)

/-- Whether a word starts with a letter option without a value; what follows the letter is never
looked at. -/
def isSwitch (letter : Char) (name word : String) : Bool :=
  word = "--" ++ name || ['-', letter].isPrefixOf word.toList

/-! ### Subcommands -/

/-- The arguments of a subcommand so far: its operands in order, and its output option. -/
structure Operands where
  list : List String := []
  output : Option String := none

/-- The result of reading the arguments of a subcommand. -/
inductive OperandResult where
  | operands (o : Operands)
  | help

/-- The operands with one more, up to the number that the subcommand takes. -/
def Operands.add (o : Operands) (limit : Nat) (word : String) : Except UsageError Operands :=
  if limit ≤ o.list.length then .error (.unexpectedArgument word)
  else if word = "" then .error (.missingValue word)
  else .ok { o with list := o.list ++ [word] }

/-- Reads the arguments of a subcommand that takes at most `limit` operands, and an output option or
none. The number of words bounds the rounds. -/
def readOperands (limit : Nat) (hasOutput : Bool) (onlyOperands : Bool) (o : Operands) :
    Nat → List String → Except UsageError OperandResult
  | 0, _ | _, [] => .ok (.operands o)
  | fuel + 1, word :: rest =>
    if onlyOperands || isOperand word then
      match o.add limit word with
      | .ok o => readOperands limit hasOutput onlyOperands o fuel rest
      | .error e => .error e
    else if word = "--" then readOperands limit hasOutput true o fuel rest
    else if isSwitch 'h' "help" word then .ok .help
    else if !hasOutput then .error (.unexpectedArgument word)
    else
      match outputOption.matches word with
      | .other => .error (.unexpectedArgument word)
      | m =>
        match optionValue outputOption o.output m rest with
        | .ok (v, rest) =>
          readOperands limit hasOutput onlyOperands { o with output := some v } fuel rest
        | .error e => .error e

/-- The topic of a name. -/
def HelpTopic.ofName? (s : String) : Option HelpTopic :=
  if s = "check" then some .check
  else if s = "decode" then some .decode
  else if s = "encode" then some .encode
  else if s = "help" then some .help
  else none

/-- Reads a subcommand with its arguments. -/
def readSubcommand (config schema : Option String) (name : String) (rest : List String) :
    Except UsageError Invocation :=
  match HelpTopic.ofName? name with
  | none | some .general => .error (.unknownSubcommand name)
  | some .help =>
    match rest with
    | [] => .ok (.help .general)
    | name :: more =>
      match HelpTopic.ofName? name, more with
      | some topic, [] => .ok (.help topic)
      | some _, name :: _ => .error (.unknownSubcommand name)
      | none, _ => .error (.unknownSubcommand name)
  | some .check => do
    match ← readOperands 0 false false {} rest.length rest with
    | .help => .ok (.help .check)
    | .operands _ => .ok (.run ⟨config, schema, .check⟩)
  | some .decode => do
    match ← readOperands 1 true false {} rest.length rest with
    | .help => .ok (.help .decode)
    | .operands ⟨[input], output⟩ => .ok (.run ⟨config, schema, .decode input output⟩)
    | .operands _ => .error (.missingOperands ["<INPUT>"])
  | some .encode => do
    match ← readOperands 2 false false {} rest.length rest with
    | .help => .ok (.help .encode)
    | .operands ⟨[input, output], _⟩ => .ok (.run ⟨config, schema, .encode input output⟩)
    | .operands ⟨[_], _⟩ => .error (.missingOperands ["<OUTPUT>"])
    | .operands _ => .error (.missingOperands ["<INPUT>", "<OUTPUT>"])

/-! ### Whole command lines -/

/-- Reads the words before the subcommand, and the subcommand. The number of words bounds the
rounds. -/
def readWords (config schema : Option String) : Nat → List String → Except UsageError Invocation
  | 0, _ | _, [] => .error .noSubcommand
  | fuel + 1, word :: rest =>
    if isOperand word then readSubcommand config schema word rest
    else if isSwitch 'h' "help" word then .ok (.help .general)
    else if isSwitch 'V' "version" word then .ok .version
    else
      match configOption.matches word, schemaOption.matches word with
      | .other, .other => .error (.unexpectedArgument word)
      | .other, m =>
        match optionValue schemaOption schema m rest with
        | .ok (v, rest) => readWords config (some v) fuel rest
        | .error e => .error e
      | m, _ =>
        match optionValue configOption config m rest with
        | .ok (v, rest) => readWords (some v) schema fuel rest
        | .error e => .error e

/-- What the words of a command line ask for. The environment may name the file of the settings. -/
def Invocation.ofWords (env : List (String × String)) (words : List String) :
    Except UsageError Invocation :=
  if words.isEmpty then .error .noArguments
  else
    match readWords none none words.length words with
    | .error e => .error e
    | .ok (.run r) =>
      match r.config, env.lookup "PROTOGEN_CONFIG" with
      | none, some "" => .error (.missingValue configOption.shown)
      | none, some path => .ok (.run { r with config := some path })
      | _, _ => .ok (.run r)
    | .ok i => .ok i

end WireSchema.CommandLine
