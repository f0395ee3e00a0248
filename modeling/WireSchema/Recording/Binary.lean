import WireSchema.Recording.Error
import WireSchema.Recording.Metadata
import WireSchema.Wire.Stream

/-!
# Binary recordings

A binary recording starts with six magic bytes, the length of its metadata in two bytes, and the
metadata in JSON. Frames follow, one after the other.

* `binaryHeader`, `binaryMessage` — the parts that a recording is written from;
* `BinaryWriter` — writing them one after the other;
* `BinaryReader.ofBytes` — opening a recording;
* `BinaryReader.read`, `BinaryReader.next` — the next message, and iteration over all of them.
-/

namespace WireSchema

/-- The bytes at the start of a binary recording. -/
def magic : Bytes :=
  [0x44, 0x50, 0x52, 0x45, 0x43, 0x00]

/-! ### Writing -/

/-- The header of a recording. -/
def binaryHeader (m : Metadata) : Except RecordingError Bytes :=
  let json := m.encode
  if 0xffff < json.length then .error (.metadataTooLong json.length)
  else .ok (magic ++ ByteWidth.two.put json.length ++ json)

/-- The part of a message in a recording. -/
def binaryMessage (c : Catalogue) (msg : Message) : Except RecordingError Bytes :=
  (c.encode msg).mapError .wire

/-- A writer of recordings, with what it has written. -/
structure BinaryWriter where
  output : Bytes
  deriving DecidableEq, Repr

namespace BinaryWriter

/-- The writer of a new recording. -/
def empty : BinaryWriter := ⟨[]⟩

/-- Writes a part as a whole, or nothing if it could not be made. -/
def writePart (w : BinaryWriter) (part : Except RecordingError Bytes) :
    Except RecordingError Unit × BinaryWriter :=
  match part with
  | .ok s => (.ok (), ⟨w.output ++ s⟩)
  | .error e => (.error e, w)

/-- Writes the header, which stands before the first message. -/
def writeHeader (w : BinaryWriter) (m : Metadata) : Except RecordingError Unit × BinaryWriter :=
  w.writePart (binaryHeader m)

/-- Writes a message. -/
def writeMessage (c : Catalogue) (w : BinaryWriter) (msg : Message) :
    Except RecordingError Unit × BinaryWriter :=
  w.writePart (binaryMessage c msg)

end BinaryWriter

/-! ### Reading -/

/-- Bytes that must be there. -/
def requireBytes (n : Nat) (s : Bytes) : Except RecordingError (Bytes × Bytes) :=
  match takeExactly? n s with
  | some r => .ok r
  | none => .error (.input .unexpectedEnd)

/-- The metadata at the start of a recording, and the bytes after it. -/
def readBinaryHeader (s : Bytes) : Except RecordingError (Metadata × Bytes) := do
  let (found, s) ← requireBytes magic.length s
  if found ≠ magic then throw (.badMagic found)
  match ByteWidth.two.get? s with
  | none => .error (.input .unexpectedEnd)
  | some (length, s) => do
    let (json, s) ← requireBytes length s
    match Metadata.decode? json with
    | some m => .ok (m, s)
    | none => .error .metadataNotJson

/-- A reader of frames: what has arrived, the pieces that are still to arrive, and whether the end
has been seen. -/
structure BinaryReader where
  buffer : FrameBuffer
  input : List Bytes
  done : Bool
  deriving DecidableEq, Repr

namespace BinaryReader

/-- Opens a recording. -/
def ofBytes (s : Bytes) : Except RecordingError (Metadata × BinaryReader) := do
  let (m, s) ← readBinaryHeader s
  .ok (m, ⟨.empty, [s], false⟩)

/-- Reads on from a buffer and pieces. A malformed frame is an error, and the next call goes on
behind it. -/
def readFrom (c : Catalogue) (done : Bool) (buffer : FrameBuffer) :
    List Bytes → Except WireError (Option Message) × BinaryReader
  | [] =>
    match buffer.decode c with
    | (.ok none, _) =>
      let (result, buffer) := buffer.finish
      (result.map fun _ => none, ⟨buffer, [], true⟩)
    | (result, buffer) => (result, ⟨buffer, [], done⟩)
  | piece :: rest =>
    match buffer.decode c with
    | (.ok none, _) => readFrom c done (buffer.extend piece) rest
    | (result, buffer) => (result, ⟨buffer, piece :: rest, done⟩)

/-- The next message, or nothing at the end. -/
def read (c : Catalogue) (r : BinaryReader) : Except WireError (Option Message) × BinaryReader :=
  readFrom c r.done r.buffer r.input

/-- The next item of the iteration, which ends when the end has been seen. -/
def next (c : Catalogue) (r : BinaryReader) :
    Option (Except WireError Message) × BinaryReader :=
  if r.done then (none, r)
  else
    match r.read c with
    | (.ok none, r) => (none, r)
    | (.ok (some msg), r) => (some (.ok msg), r)
    | (.error e, r) => (some (.error e), r)

end BinaryReader

end WireSchema
