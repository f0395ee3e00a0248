import WireSchema.CommandLine.Failure
import WireSchema.CommandLine.Help
import WireSchema.Recording.Convert
import WireSchema.Schema.Digest
import WireSchema.Schema.Document
import WireSchema.Schema.Listing
import WireSchema.Settings

/-!
# Sessions

What the tool does for a command line, apart from the files themselves: a session asks for the
content of a file, asks for a file to be written, or ends with an exit code and the texts for the
two output streams. `Session.run` carries a session out in any monad that can read and write files.

* `Session.ofWords` — the session of a command line;
* `Session.run` — carrying it out.
-/

namespace WireSchema.CommandLine

/-- How a session ends. The text for the error stream is what the tool says itself: the warnings
that are logged for messages which are skipped are left out, and so is the place in the program
where it stops at an overflow. -/
structure Outcome where
  exitCode : UInt8
  stdout : Bytes := []
  stderr : String := ""
  deriving DecidableEq, Repr

/-- What is left of a session: reading a file, which may fail, writing one, which may fail too, or
the end. -/
inductive Session where
  | read (path : String) (next : Option Bytes → Session)
  | write (path : String) (content : Bytes) (next : Bool → Session)
  | done (o : Outcome)

/-- Carries a session out. -/
def Session.run {m : Type → Type} [Monad m] (readFile : String → m (Option Bytes))
    (writeFile : String → Bytes → m Bool) : Session → m Outcome
  | .done o => pure o
  | .read path next => do
    let content ← readFile path
    run readFile writeFile (next content)
  | .write path content next => do
    let isWritten ← writeFile path content
    run readFile writeFile (next isWritten)

namespace Session

/-- The end of a session that fails. -/
def failed (text : String) : Session :=
  .done { exitCode := 1, stderr := "Error: " ++ text ++ "\n" }

/-- The end of a session that succeeds. -/
def succeeded (stdout : Bytes) (stderr : String) : Session :=
  .done { exitCode := 0, stdout := stdout, stderr := stderr }

/-- What is reported after a conversion. The warnings that were logged for the messages which are
skipped, one for each, are left out. -/
def conversionReport (n : ConversionCount) : String :=
  let skipped := if n.skipped = 0 then "" else " (" ++ toString n.skipped ++ " skipped)"
  "Converted " ++ toString n.written ++ " messages" ++ skipped ++ "\n"

/-- The end of a session after a conversion. An overflow stops the program with an exit code of its
own. -/
def afterConversion (c : Conversion) (stdout : Bytes) : Session :=
  match c.result with
  | .ok n => succeeded stdout (conversionReport n)
  | .error (.command (.overflow operation _)) =>
    .done { exitCode := 101, stdout := stdout, stderr := operation.overflowMessage ++ "\n" }
  | .error e =>
    .done { exitCode := 1, stdout := stdout, stderr := "Error: " ++ e.shown ++ "\n" }

/-- The end of a session for which a file cannot be opened. -/
def missingFile : Session :=
  failed (shownTuple "Io" [shownMissingFile])

/-- Writes what a conversion has written to a file. -/
def writeConversion (output : String) (c : Conversion) : Session :=
  .write output c.output fun isWritten =>
    if isWritten then afterConversion c [] else missingFile

/-- What is printed about a schema that is accepted. -/
def checkReport (path : String) (c : Catalogue) : String :=
  "Valid " ++ path ++ " (" ++ toString c.messages.length ++ " messages)\n  Version:  " ++ c.version
    ++ "\n  Checksum: " ++ c.checksum ++ "\n\n" ++ c.listing

/-- Carries out a task with a catalogue. -/
def ofTask (path : String) (options : CommandOptions) (c : Catalogue) : Task → Session
  | .check => succeeded (Utf8.encode (checkReport path c).toList) ""
  | .decode input output =>
    .read input fun content =>
      match content.map (toTextRecording c) with
      | none => missingFile
      | some (.error e) => failed e.shown
      | some (.ok conversion) =>
        match output with
        | none => afterConversion conversion conversion.output
        | some output => writeConversion output conversion
  | .encode input output =>
    .read input fun content =>
      match content.map (toBinaryRecording c options) with
      | none => missingFile
      | some (.error e) => failed e.shown
      | some (.ok conversion) => writeConversion output conversion

/-- Carries out a task with a schema that is still to be read. -/
def withSchema (path : String) (options : CommandOptions) (task : Task) : Session :=
  .read path fun content =>
    match content.bind Utf8.decode? with
    | none => failed (path ++ ": " ++ unreadableSchema content.isNone)
    | some text =>
      match Catalogue.ofText (String.ofList text) with
      | .error e => failed (path ++ ": " ++ e.message)
      | .ok c => ofTask path options c task

/-- Carries out a request, given the content of the file of its settings. -/
def withSettings (env : List (String × String)) (r : Request) (file : Option (Option Bytes)) :
    Session :=
  match Settings.load file env with
  | .error e => failed (e.shown (r.config.getD "") (file == some none))
  | .ok s => withSchema (r.schema.getD s.schemaPath) s.options r.task

/-- The session of a command line. -/
def ofWords (env : List (String × String)) (words : List String) : Session :=
  match Invocation.ofWords env words with
  | .error e => .done { exitCode := 2, stderr := usageErrorText env e }
  | .ok .version => succeeded (Utf8.encode versionText.toList) ""
  | .ok (.help topic) => succeeded (Utf8.encode (helpText env topic).toList) ""
  | .ok (.run r) =>
    match r.config with
    | none => withSettings env r none
    | some path => .read path fun content => withSettings env r (some content)

end Session

end WireSchema.CommandLine
