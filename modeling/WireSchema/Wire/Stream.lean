import WireSchema.Wire.Codec

/-!
# Streams of frames

Bytes that arrive in pieces are kept until a frame is complete. A frame leaves the buffer before its
payload is read, so that a malformed one is reported once and the next call goes on behind it.
-/

namespace WireSchema

/-- The bytes of a stream that have arrived and not yet been used. -/
structure FrameBuffer where
  bytes : Bytes
  deriving DecidableEq, Repr

namespace FrameBuffer

/-- The buffer of a new stream. -/
def empty : FrameBuffer := ⟨[]⟩

/-- The buffer after more bytes have arrived. -/
def extend (b : FrameBuffer) (s : Bytes) : FrameBuffer :=
  ⟨b.bytes ++ s⟩

/-- The next message, or nothing while its frame is incomplete, and the buffer without the frame. -/
def decode (c : Catalogue) (b : FrameBuffer) : Except WireError (Option Message) × FrameBuffer :=
  match splitFrame? b.bytes with
  | none => (.ok none, b)
  | some ((h, payload), rest) => ((c.decodeFrame h payload).map some, ⟨rest⟩)

/-- Ends a stream, which must be at the end of a frame; what is left is dropped. -/
def finish (b : FrameBuffer) : Except WireError Unit × FrameBuffer :=
  match b.bytes with
  | [] => (.ok (), b)
  | s => (.error (incompleteFrame s), empty)

end FrameBuffer

end WireSchema
