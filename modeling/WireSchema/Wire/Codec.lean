import WireSchema.Wire.Field

/-!
# Messages on the wire

A message is written as one frame: its fields in order, behind a header with their total length. It
is read field by field, after the length of the payload has been checked against the bounds of the
layout. Bytes that the fields do not use are ignored, and so is what follows the frame.

* `Catalogue.encode` — the frame of a message;
* `Catalogue.decode` — the message of the first frame in a byte string.
-/

namespace WireSchema

/-- Checks the length of a payload against the bounds of a message. -/
def MessageDef.checkLength (m : MessageDef) (length : Nat) : Except WireFault Unit :=
  if maxPayload < length ∨
      m.layout.hasBounds ∧ (length < m.layout.minLen ∨ m.layout.maxLen < length) then
    .error (.badLength length m.layout.minLen m.layout.maxLen)
  else .ok ()

/-! ### Reading -/

/-- Reads the values of fields in order, and leaves what they do not use. -/
def readFields (message : String) : List Field → Bytes → Except WireFault (List Value × Bytes)
  | [], s => .ok ([], s)
  | f :: fields, s =>
    match f.read message s with
    | .error e => .error e
    | .ok (v, s) =>
      match readFields message fields s with
      | .error e => .error e
      | .ok (vs, s) => .ok (v :: vs, s)

/-- The values in a payload. A message without fields has none, whatever its payload. -/
def MessageDef.readPayload (m : MessageDef) (payload : Bytes) : Except WireFault (List Value) :=
  let length := if m.layout.fields.isEmpty then .ok () else m.checkLength payload.length
  match length with
  | .error e => .error e
  | .ok () =>
    match readFields m.name m.layout.fields payload with
    | .error e => .error e
    | .ok (values, _) => .ok values

namespace Catalogue

/-- The message of a frame. -/
def decodeFrame (c : Catalogue) (h : FrameHeader) (payload : Bytes) : Except WireError Message :=
  let failed (e : WireFault) : WireError := ⟨h.userId, h.type, h.payloadLen.toNat, e⟩
  match c.byId? h.type with
  | none => .error (failed .unknownType)
  | some m =>
    match m.readPayload payload with
    | .error e => .error (failed e)
    | .ok values => .ok ⟨h.userId, h.type, values⟩

/-- The message of the first frame in a byte string. -/
def decode (c : Catalogue) (s : Bytes) : Except WireError Message :=
  match splitFrame? s with
  | none => .error (incompleteFrame s)
  | some ((h, payload), _) => c.decodeFrame h payload

end Catalogue

/-! ### Writing -/

/-- The bytes of values in the order of their fields. A fault comes with the number of bytes before
it; `done` holds the bytes of earlier fields, last field first. -/
def writeFields (message : String) (done : List Bytes) :
    List Field → List Value → Except (WireFault × Nat) Bytes
  | f :: fields, v :: values =>
    match f.write message v with
    | .error (e, n) => .error (e, done.flatten.length + n)
    | .ok s => writeFields message (s :: done) fields values
  | _, _ => .ok done.reverse.flatten

/-- The payload of values, or a fault with the length it is reported for. -/
def MessageDef.writePayload (m : MessageDef) (values : List Value) :
    Except (WireFault × Nat) Bytes :=
  if values.length ≠ m.layout.fields.length then
    .error (.fieldCount m.layout.fields.length values.length, 0)
  else
    match writeFields m.name [] m.layout.fields values with
    | .error e => .error e
    | .ok payload =>
      match m.checkLength payload.length with
      | .error e => .error (e, payload.length)
      | .ok () => .ok payload

/-- The frame of a message. -/
def Catalogue.encode (c : Catalogue) (msg : Message) : Except WireError Bytes :=
  match c.byId? msg.type with
  | none => .error ⟨msg.userId, msg.type, 0, .unknownType⟩
  | some m =>
    match m.writePayload msg.values with
    | .error (e, n) => .error ⟨msg.userId, msg.type, n, e⟩
    | .ok payload =>
      .ok ((FrameHeader.mk (UInt16.ofNat payload.length) msg.type msg.userId).encode ++ payload)

end WireSchema
