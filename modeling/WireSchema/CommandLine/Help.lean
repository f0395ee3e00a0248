import WireSchema.CommandLine.Arguments

/-!
# Help texts

What the command line says about itself.
-/

namespace WireSchema.CommandLine

/-- Lines as a text. -/
def unlines (lines : List String) : String :=
  String.join (lines.map fun line => line ++ "\n")

/-- The name and the version of the tool. -/
def versionText : String := "protogen 0.1.0\n"

/-- The line that shows how a command is used. -/
def usage : HelpTopic → String
  | .general => "Usage: protogen [OPTIONS] <COMMAND>"
  | .check => "Usage: protogen check"
  | .decode => "Usage: protogen decode [OPTIONS] <INPUT>"
  | .encode => "Usage: protogen encode <INPUT> <OUTPUT>"
  | .help => "Usage: protogen help [COMMAND]..."

/-- The text of a topic. The general one shows the value that the environment gives. -/
def helpText (env : List (String × String)) (topic : HelpTopic) : String :=
  match topic with
  | .general => unlines
    ["Message schema compiler with binary and text codecs", "", usage .general, "", "Commands:",
      "  check   Validate the schema and print the message catalogue",
      "  decode  Convert a binary recording to text",
      "  encode  Convert a text recording to binary",
      "  help    Print this message or the help of the given subcommand(s)", "", "Options:",
      "  -c, --config <CONFIG>  Configuration file [env: PROTOGEN_CONFIG="
        ++ (env.lookup "PROTOGEN_CONFIG").getD "" ++ "]",
      "  -s, --schema <SCHEMA>  Protocol schema (overrides the configured path)",
      "  -h, --help             Print help",
      "  -V, --version          Print version"]
  | .check => unlines
    ["Validate the schema and print the message catalogue", "", usage .check, "", "Options:",
      "  -h, --help  Print help"]
  | .decode => unlines
    ["Convert a binary recording to text", "", usage .decode, "", "Arguments:",
      "  <INPUT>  Binary recording", "", "Options:",
      "  -o, --output <OUTPUT>  Output file (defaults to stdout)",
      "  -h, --help             Print help"]
  | .encode => unlines
    ["Convert a text recording to binary", "", usage .encode, "", "Arguments:",
      "  <INPUT>   Text recording", "  <OUTPUT>  Binary output file", "", "Options:",
      "  -h, --help  Print help"]
  | .help => unlines
    ["Print this message or the help of the given subcommand(s)", "", usage .help, "", "Arguments:",
      "  [COMMAND]...  Print help for the subcommand(s)"]

/-- What is said about a command line that cannot be understood. -/
def usageErrorText (env : List (String × String)) : UsageError → String
  | .noArguments => helpText env .general
  | e =>
    unlines ["error: " ++ e.message, "", usage .general, "", "For more information, try '--help'."]

end WireSchema.CommandLine
