import WireSchema.Command.Convert
import WireSchema.Command.Line
import WireSchema.Recording.Error
import WireSchema.Recording.Metadata

/-!
# Text recordings

A text recording starts with its metadata, one line each: an exclamation mark, the key, an equals
sign and the escaped text. Commands follow. Reading goes line by line; a line that is no text ends
the iteration, any other fault costs one item. An overflow stops the program at its item; a reader
that is called again nevertheless goes on behind the line.

* `textHeader`, `textMessage` — the parts that a recording is written from;
* `TextReader.ofBytes` — opening a recording, up to its first command;
* `TextReader.read`, `TextReader.next` — the next message, and iteration over all of them.
-/

namespace WireSchema

open WireSchema.Text

/-! ### Writing -/

/-- The line of one metadata text. -/
def metadataLine (entry : String × String) : List Char :=
  '!' :: (entry.1.toList ++ '=' :: escape entry.2.toList ++ ['\n'])

/-- The metadata lines of a recording. -/
def textHeader (m : Metadata) : List Char :=
  m.entries.flatMap metadataLine

/-- The part of a message in a recording. -/
def textMessage (c : Catalogue) (msg : Message) : Except RecordingError (List Char) :=
  match c.toCommand msg with
  | .ok cmd => .ok (cmd.render ++ ['\n'])
  | .error e => .error (.command e)

/-! ### Lines of bytes -/

/-- The loop of `byteLines`; `line` and `done` hold, reversed, the current line and the lines that
are complete. -/
def byteLinesFrom (line : Bytes) (done : List Bytes) : Bytes → List Bytes
  | [] => (if line.isEmpty then done else line.reverse :: done).reverse
  | b :: rest =>
    if b = 0x0a then byteLinesFrom [] ((b :: line).reverse :: done) rest
    else byteLinesFrom (b :: line) done rest

/-- The lines of a byte string, each with its line feed. -/
def byteLines (s : Bytes) : List Bytes :=
  byteLinesFrom [] [] s

/-! ### Reading -/

/-- A reader of lines: the state of the line reader, the number of lines read as text, whether the
end has been seen, and a command that was read but not yet handed out, with its line. -/
structure TextReader where
  lines : List Bytes
  reader : LineReader := {}
  lineNumber : Nat := 0
  done : Bool := false
  pending : Option (Nat × Command) := none
  deriving DecidableEq

namespace TextReader

/-- What stops the reading of lines: the end, an error, or a line result that is looked for. -/
inductive Stop where
  | atEnd
  | failed (e : RecordingError)
  | found (result : LineResult)

/-- Reads one line. -/
def readLine (r : TextReader) : Stop × TextReader :=
  if r.done then (.atEnd, r)
  else
    match r.lines with
    | [] =>
      match r.reader.finish with
      | (.ok (), reader) => (.atEnd, { r with reader := reader, done := true })
      | (.error e, reader) =>
        (.failed (.line r.lineNumber (.malformed e)), { r with reader := reader, done := true })
    | line :: rest =>
      match Utf8.decode? line with
      | none => (.failed (.input .invalidData), { r with lines := rest })
      | some text =>
        let n := r.lineNumber + 1
        match r.reader.read text with
        | (.ok result, reader) =>
          (.found result, { r with lines := rest, reader := reader, lineNumber := n })
        | (.error e, reader) =>
          (.failed (.line n (.malformed e)),
            { r with lines := rest, reader := reader, lineNumber := n })

/-- The lines that are still to be read. -/
def remaining (r : TextReader) : Nat :=
  r.lines.length

theorem remaining_lt_of_found {r next : TextReader} {result : LineResult}
    (h : r.readLine = (.found result, next)) : next.remaining < r.remaining := by
  unfold readLine at h
  split at h
  · simp at h
  · split at h
    · split at h <;> simp at h
    · rename_i line rest hlines
      split at h
      · simp at h
      · simp only at h
        split at h
        · simp only [Prod.mk.injEq] at h
          rw [← h.2]
          show rest.length < r.lines.length
          rw [hlines]
          simp
        · simp at h

/-- Reads lines up to the first command or error. Metadata lines are collected on the way. -/
def readCommand (m : Metadata) (r : TextReader) :
    Except RecordingError (Option Command) × Metadata × TextReader :=
  match _h : r.readLine with
  | (.atEnd, r) => (.ok none, m, r)
  | (.failed e, r) => (.error e, m, r)
  | (.found (.command c), r) => (.ok (some c), m, r)
  | (.found (.metadata key value), r) => readCommand (m.insert key value) r
  | (.found _, r) => readCommand m r
  termination_by r.remaining
  decreasing_by
    · exact remaining_lt_of_found _h
    · exact remaining_lt_of_found _h

/-- Opens a recording: reads its metadata, and its first command ahead. -/
def ofBytes (s : Bytes) : Except RecordingError (Metadata × TextReader) :=
  match readCommand .empty { lines := byteLines s } with
  | (.error e, _, _) => .error e
  | (.ok none, m, r) => .ok (m, r)
  | (.ok (some c), m, r) => .ok (m, { r with pending := some (r.lineNumber, c) })

/-- The message of a command on a line. -/
def messageOf (c : Catalogue) (options : CommandOptions) (line : Nat) (cmd : Command) :
    Except RecordingError (Option Message) :=
  match c.ofCommand options cmd with
  | .ok msg => .ok (some msg)
  | .error e => .error (.ofCommandOn line e)

/-- The next message, or nothing at the end. Metadata after the first command is ignored. -/
def read (c : Catalogue) (options : CommandOptions) (r : TextReader) :
    Except RecordingError (Option Message) × TextReader :=
  match r.pending with
  | some (line, cmd) => (messageOf c options line cmd, { r with pending := none })
  | none =>
    match readCommand .empty r with
    | (.error e, _, r) => (.error e, r)
    | (.ok none, _, r) => (.ok none, r)
    | (.ok (some cmd), _, r) => (messageOf c options r.lineNumber cmd, r)

/-- The next item of the iteration, which ends after bytes that are no text. -/
def next (c : Catalogue) (options : CommandOptions) (r : TextReader) :
    Option (Except RecordingError Message) × TextReader :=
  match r.read c options with
  | (.ok none, r) => (none, r)
  | (.ok (some msg), r) => (some (.ok msg), r)
  | (.error (.input fault), r) => (some (.error (.input fault)), { r with done := true })
  | (.error e, r) => (some (.error e), r)

end TextReader

end WireSchema
