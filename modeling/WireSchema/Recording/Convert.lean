import WireSchema.Recording.Binary
import WireSchema.Recording.Text

/-!
# Converting recordings

A recording is converted message by message, its metadata first. A message that cannot be read or
written is skipped and counted; bytes that are no text end the conversion, and so does an overflow.
What has been written up to there stays.

* `toTextRecording` — from the binary form to the text form;
* `toBinaryRecording` — from the text form to the binary form.
-/

namespace WireSchema

/-- How many messages were converted, and how many were skipped. -/
structure ConversionCount where
  written : Nat := 0
  skipped : Nat := 0
  deriving DecidableEq, Repr

/-- What a conversion has written, and how it ended. -/
structure Conversion where
  output : Bytes
  result : Except RecordingError ConversionCount

/-! ### From binary to text -/

/-- Converts the items of a reader; `done` holds the parts that are written, last part first. The
number of rounds is bounded. -/
def convertFrames (c : Catalogue) :
    Nat → List Bytes → ConversionCount → BinaryReader →
      List Bytes × Except RecordingError ConversionCount
  | 0, done, count, _ => (done, .ok count)
  | fuel + 1, done, count, r =>
    match r.next c with
    | (none, _) => (done, .ok count)
    | (some (.error _), r) =>
      convertFrames c fuel done { count with skipped := count.skipped + 1 } r
    | (some (.ok msg), r) =>
      match textMessage c msg with
      | .ok text =>
        convertFrames c fuel (Utf8.encode text :: done)
          { count with written := count.written + 1 } r
      | .error e => (done, .error e)

/-- Converts a binary recording to the text form. It is an error if the recording has no proper
header; then nothing is written at all. -/
def toTextRecording (c : Catalogue) (s : Bytes) : Except RecordingError Conversion := do
  let (m, r) ← BinaryReader.ofBytes s
  let (done, result) := convertFrames c (s.length + 2) [Utf8.encode (textHeader m)] {} r
  .ok ⟨done.reverse.flatten, result⟩

/-! ### From text to binary -/

/-- Converts the items of a reader; `done` holds the parts that are written, last part first. The
number of rounds is bounded. -/
def convertCommands (c : Catalogue) (options : CommandOptions) :
    Nat → List Bytes → ConversionCount → TextReader →
      List Bytes × Except RecordingError ConversionCount
  | 0, done, count, _ => (done, .ok count)
  | fuel + 1, done, count, r =>
    match r.next c options with
    | (none, _) => (done, .ok count)
    | (some (.error (.line _ _)), r) =>
      convertCommands c options fuel done { count with skipped := count.skipped + 1 } r
    | (some (.error e), _) => (done, .error e)
    | (some (.ok msg), r) =>
      match binaryMessage c msg with
      | .ok frame =>
        convertCommands c options fuel (frame :: done) { count with written := count.written + 1 } r
      | .error _ =>
        convertCommands c options fuel done { count with skipped := count.skipped + 1 } r

/-- Converts a text recording to the binary form. It is an error if the recording cannot be opened;
then nothing is written at all. Metadata that is too long leaves the output empty. -/
def toBinaryRecording (c : Catalogue) (options : CommandOptions) (s : Bytes) :
    Except RecordingError Conversion := do
  let (m, r) ← TextReader.ofBytes s
  match binaryHeader m with
  | .error e => .ok ⟨[], .error e⟩
  | .ok header =>
    let (done, result) := convertCommands c options (s.length + 2) [header] {} r
    .ok ⟨done.reverse.flatten, result⟩

end WireSchema
