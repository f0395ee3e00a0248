import WireSchema.Command.Basic
import WireSchema.Utf8
import WireSchema.Yaml.Value

/-!
# Settings

Where the schema is, and how commands are read. Settings have defaults; a file in YAML may override
them, and the environment overrides both. Entries of the file that are not known are ignored.

* `Settings.ofNode` — the settings in a document;
* `Settings.override` — the settings with those of the environment;
* `Settings.load` — the settings of a file and the environment.
-/

namespace WireSchema

open WireSchema.Yaml (Node ScalarStyle)

/-- The settings of the tool. -/
structure Settings where
  schemaPath : String := "protocol.yaml"
  options : CommandOptions := {}
  deriving DecidableEq, Repr

/-- Why settings cannot be used. -/
inductive SettingsError where
  | unreadable
  | malformed
  | noSchemaPath
  deriving DecidableEq, Repr

/-- The text of an error. -/
def SettingsError.message : SettingsError → String
  | unreadable => "cannot read protogen config"
  | malformed => "protogen config is malformed"
  | noSchemaPath => "protogen setting 'schema.path' must name the protocol schema file"

namespace Settings

/-! ### Documents -/

/-- The node that an alias stands for. -/
def target : Node → Node
  | .shared n => target n
  | n => n

/-- The entries of a mapping; an empty scalar has none. -/
def entries (n : Node) : Except SettingsError (List (Node × Node)) :=
  match target n with
  | .mapping _ entries => .ok entries
  | .scalar _ "" _ => .ok []
  | _ => .error .malformed

/-- The text of a scalar of any kind. -/
def scalarText (n : Node) : Except SettingsError String :=
  match target n with
  | .scalar _ text _ => .ok text
  | _ => .error .malformed

/-- The truth value of a plain scalar, or of a literal one with the tag of truth values. -/
def truth (n : Node) : Except SettingsError Bool :=
  match target n with
  | .scalar tag text style =>
    if style = .plain ∨ style = .literal ∧ tag = some "tag:yaml.org,2002:bool" then
      match Yaml.truth? text with
      | some b => .ok b
      | none => .error .malformed
    else .error .malformed
  | _ => .error .malformed

/-- The policy of an exact name. -/
def policyOfName (s : String) : Except SettingsError FlagPolicy :=
  if s = "ignore" then .ok .ignore else if s = "reject" then .ok .reject else .error .malformed

/-- The policy of a scalar: its text, or its local tag if nothing else stands there. -/
def policy (n : Node) : Except SettingsError FlagPolicy :=
  match target n with
  | .scalar tag text style =>
    match tag.bind Yaml.localTag? with
    | some name =>
      if text = "" ∨ style = .plain ∧ Yaml.isNull text then policyOfName name else .error .malformed
    | none => policyOfName text
  | _ => .error .malformed

/-- Fills known entries in, each at most once. The names of entries seen are given. -/
def fill {α : Type} (known : List String) (put : α → String → Node → Except SettingsError α)
    (seen : List String) (a : α) : List (Node × Node) → Except SettingsError α
  | [] => .ok a
  | (k, v) :: rest =>
    match scalarText k with
    | .error e => .error e
    | .ok key =>
      if !known.contains key then fill known put seen a rest
      else if seen.contains key then .error .malformed
      else
        match put a key v with
        | .ok a => fill known put (key :: seen) a rest
        | .error e => .error e

/-- The settings in a node, in place of given ones. -/
def fillFrom {α : Type} (known : List String) (put : α → String → Node → Except SettingsError α)
    (a : α) (n : Node) : Except SettingsError α := do
  let entries ← entries n
  fill known put [] a entries

/-- The settings with one entry about the schema. -/
def putSchema (s : Settings) (_key : String) (v : Node) : Except SettingsError Settings := do
  let path ← scalarText v
  .ok { s with schemaPath := path }

/-- The options with one entry. -/
def putOption (o : CommandOptions) (key : String) (v : Node) :
    Except SettingsError CommandOptions := do
  if key = "unknown_flags" then
    let p ← policy v
    .ok { o with unknownFlags := p }
  else
    let b ← truth v
    .ok { o with strictRecords := b }

/-- The settings with one section of a document. -/
def putSection (s : Settings) (key : String) (v : Node) : Except SettingsError Settings := do
  if key = "schema" then fillFrom ["path"] putSchema { s with schemaPath := "protocol.yaml" } v
  else
    let o ← fillFrom ["unknown_flags", "strict_records"] putOption {} v
    .ok { s with options := o }

/-- The settings in a document. -/
def ofNode (n : Node) : Except SettingsError Settings :=
  fillFrom ["schema", "text"] putSection {} n

/-- The settings in the content of a file. -/
def ofFile (content : Bytes) : Except SettingsError Settings :=
  match Utf8.decode? content with
  | none => .error .unreadable
  | some text =>
    match Node.read (String.ofList text) with
    | .ok n => ofNode n
    | .error _ => .error .malformed

/-! ### Environment -/

/-- The settings with those that variables of the environment give. A policy that is none is
ignored; records are strict for `1` and `true` in any case, and not strict for any other text. -/
def override (env : List (String × String)) (s : Settings) : Settings :=
  let s := match env.lookup "PROTOGEN_SCHEMA" with
    | some path => { s with schemaPath := path }
    | none => s
  let s := match (env.lookup "PROTOGEN_UNKNOWN_FLAGS").map FlagPolicy.ofName with
    | some (.ok p) => { s with options := { s.options with unknownFlags := p } }
    | _ => s
  match env.lookup "PROTOGEN_STRICT_RECORDS" with
  | some text =>
    let strict := text == "1" || Text.lowerCase text.toList == "true".toList
    { s with options := { s.options with strictRecords := strict } }
  | none => s

/-- The settings if they can be used: the path of the schema is not empty. -/
def validate (s : Settings) : Except SettingsError Settings :=
  if s.schemaPath = "" then .error .noSchemaPath else .ok s

/-- The settings of a file, if one is given, and the environment. A file that cannot be read has no
content. -/
def load (file : Option (Option Bytes)) (env : List (String × String)) :
    Except SettingsError Settings := do
  let s ← match file with
    | none => .ok {}
    | some none => .error .unreadable
    | some (some content) => ofFile content
  (s.override env).validate

end Settings

end WireSchema
