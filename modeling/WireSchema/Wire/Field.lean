import WireSchema.Message.Value
import WireSchema.Utf8
import WireSchema.Wire.Frame

/-!
# Fields on the wire

How the values of fields stand in a payload. Numbers are big-endian, negative ones in two's
complement. A sequence that is not the last field has its element count before it; a last sequence
and an array of records take what is left of the payload.

Reading takes a value from the front of a payload and leaves the rest. Writing gives the bytes of a
value, or a fault together with the number of bytes of the field that precede it.
-/

namespace WireSchema

/-! ### Scalars -/

namespace ScalarKind

/-- The number that stored bits stand for: two's complement for signed types, and one or zero for
`bool`. -/
def ofBits (kind : ScalarKind) (n : Nat) : Int :=
  match kind with
  | integer .bool _ => if n = 0 then 0 else 1
  | integer type _ =>
    if type.isSigned ∧ type.width.capacity / 2 ≤ n then n - type.width.capacity else n
  | flags .. => n

/-- The bits that are stored for a number. -/
def toBits (kind : ScalarKind) (v : Int) : Nat :=
  (v % kind.width.capacity).toNat

/-- Reads a number. -/
def read (kind : ScalarKind) (s : Bytes) : Except WireFault (Int × Bytes) :=
  match kind.width.get? s with
  | some (n, rest) => .ok (kind.ofBits n, rest)
  | none => .error .truncated

/-- Writes a number that can be stored. -/
def write (kind : ScalarKind) (name : String) (v : Int) : Except WireFault Bytes :=
  if kind.holds v then .ok (kind.width.put (kind.toBits v)) else .error (.outOfRange name v)

/-- The value of a field that holds a number. -/
def value (kind : ScalarKind) (v : Int) : Value :=
  match kind with
  | integer .bool _ => .bool (v != 0)
  | _ => .int v

end ScalarKind

/-! ### Sequences -/

/-- The words of a byte string of even length. -/
def wordsOfBytes : Bytes → List UInt16
  | high :: low :: rest => UInt16.ofNat (high.toNat * 0x100 + low.toNat) :: wordsOfBytes rest
  | _ => []

namespace SeqType

/-- The value of the content of a sequence. -/
def value (type : SeqType) (content : Bytes) : Value :=
  match type with
  | bytes | vecU8 => .bytes content
  | vecU16 => .words (wordsOfBytes content)
  | utf8 => .text (String.ofList (Utf8.decodeLossy content))

/-- The content of a value of this type. -/
def content? (type : SeqType) (v : Value) : Option Bytes :=
  match type, v with
  | bytes, .bytes s | vecU8, .bytes s => some s
  | vecU16, .words list => some (list.flatMap bytesOfWord)
  | utf8, .text s => some (Utf8.encode s.toList)
  | _, _ => none

end SeqType

/-- Reads the content of a sequence of at most `most` bytes after its count. -/
def readCounted (tooLong : WireFault) (type : SeqType) (count : CountType) (most : Nat)
    (s : Bytes) : Except WireFault (Bytes × Bytes) :=
  match count.width.get? s with
  | none => .error .truncated
  | some (n, rest) =>
    if most < n * type.elementSize then .error tooLong
    else
      match takeExactly? (n * type.elementSize) rest with
      | some (content, rest) => .ok (content, rest)
      | none => .error tooLong

/-! ### Records -/

/-- Reads one number for each column. -/
def readColumns : List Column → Bytes → Except WireFault (List Int × Bytes)
  | [], s => .ok ([], s)
  | c :: columns, s =>
    match c.kind.read s with
    | .error e => .error e
    | .ok (v, s) =>
      match readColumns columns s with
      | .error e => .error e
      | .ok (vs, s) => .ok (v :: vs, s)

/-- Reads so many records; `done` holds earlier ones, reversed. -/
def readRecords (columns : List Column) (done : List (List Int)) :
    Nat → Bytes → Except WireFault (List (List Int) × Bytes)
  | 0, s => .ok (done.reverse, s)
  | n + 1, s =>
    match readColumns columns s with
    | .error e => .error e
    | .ok (record, s) => readRecords columns (record :: done) n s

/-- Writes one number for each column. -/
def writeColumns : List Column → List Int → Except (WireFault × Nat) Bytes
  | c :: columns, v :: vs =>
    match c.kind.write c.name v with
    | .error e => .error (e, 0)
    | .ok s =>
      match writeColumns columns vs with
      | .error (e, n) => .error (e, s.length + n)
      | .ok rest => .ok (s ++ rest)
  | _, _ => .ok []

/-- Writes records with one number for each column; `done` holds the bytes of earlier ones, last
record first. -/
def writeRecords (field : String) (columns : List Column) (done : List Bytes) :
    List (List Int) → Except (WireFault × Nat) Bytes
  | [] => .ok done.reverse.flatten
  | record :: rest =>
    if record.length ≠ columns.length then .error (.typeMismatch field, done.flatten.length)
    else
      match writeColumns columns record with
      | .error (e, n) => .error (e, done.flatten.length + n)
      | .ok s => writeRecords field columns (s :: done) rest

/-! ### Fields -/

namespace Field

/-- The greatest length of a sequence without its count. -/
def contentMax (f : Field) (count : Option CountType) : Nat :=
  match count with
  | some t => f.maxLen - t.width.bytes
  | none => f.maxLen

/-- Reads the value of a field from the front of a payload. -/
def read (message : String) (f : Field) (s : Bytes) : Except WireFault (Value × Bytes) :=
  match f.kind with
  | .scalar kind =>
    match kind.read s with
    | .ok (v, rest) => .ok (kind.value v, rest)
    | .error e => .error e
  | .sequence type (some count) _ =>
    match readCounted (.fieldTooLong message f.name) type count (f.contentMax (some count)) s with
    | .ok (content, rest) => .ok (type.value content, rest)
    | .error e => .error e
  | .sequence type none _ =>
    if s.length % type.elementSize = 0 then .ok (type.value s, [])
    else .error (.partialItem f.name)
  | .records _ columns itemLen _ =>
    if s.length % itemLen = 0 then
      match readRecords columns [] (s.length / itemLen) s with
      | .ok (records, rest) => .ok (.records records, rest)
      | .error e => .error e
    else .error (.partialItem f.name)

/-- The bytes of a scalar value. -/
def writeScalar (f : Field) (kind : ScalarKind) (v : Value) : Except WireFault Bytes :=
  match kind, v with
  | .integer .bool _, .bool b => .ok [if b then 1 else 0]
  | kind, .int v => kind.write f.name v
  | _, _ => .error (.typeMismatch f.name)

/-- The bytes of a sequence value, with the count before them if there is one. -/
def writeSequence (message : String) (f : Field) (type : SeqType) (count : Option CountType)
    (v : Value) : Except WireFault Bytes :=
  match type.content? v with
  | none => .error (.typeMismatch f.name)
  | some content =>
    if f.contentMax count < content.length then .error (.fieldTooLong message f.name)
    else
      match count with
      | some t => .ok (t.width.put (content.length / type.elementSize) ++ content)
      | none => .ok content

/-- The bytes of a value, or a fault with the number of bytes of this field before it. -/
def write (message : String) (f : Field) (v : Value) : Except (WireFault × Nat) Bytes :=
  match f.kind, v with
  | .scalar kind, v => (f.writeScalar kind v).mapError fun e => (e, 0)
  | .sequence type count _, v => (f.writeSequence message type count v).mapError fun e => (e, 0)
  | .records _ columns _ maxItems, .records records =>
    if maxItems < records.length then .error (.fieldTooLong message f.name, 0)
    else writeRecords f.name columns [] records
  | .records .., _ => .error (.typeMismatch f.name, 0)

end Field

end WireSchema
