import WireSchema.Schema.Format
import WireSchema.Schema.Keyword

/-!
# Fields

A field has a name, a kind and bounds on the bytes that it takes in a payload. Scalars, which are
integers and flags, have one length. A sequence is bounded by its declared limits, by what its count
can express and by the room that the fields before it leave in a payload. An array of records is
bounded by that room alone; its columns are scalars.

* `Field.ofDecl` — the field of a declaration, at its place in a message;
* `SequenceBounds` and `sequenceBounds` — the length algebra of sequences.
-/

namespace WireSchema

/-! ### Kinds of fields -/

/-- A number of fixed width. Flag `i` of a flags field is bit `i`. -/
inductive ScalarKind where
  | integer (type : IntType) (format : Format)
  | flags (names : List String) (width : ByteWidth)
  deriving DecidableEq, Repr

/-- The width on the wire. -/
def ScalarKind.width : ScalarKind → ByteWidth
  | integer type _ => type.width
  | flags _ width => width

/-- The text format; flags have none. -/
def ScalarKind.format : ScalarKind → Format
  | integer _ format => format
  | flags .. => .plain

/-- Whether a number can be stored: the range of the integer type, or every combination of bits. -/
def ScalarKind.holds (kind : ScalarKind) (v : Int) : Bool :=
  match kind with
  | integer type _ => type.contains v
  | flags _ width => 0 ≤ v && v < width.capacity

/-- One number of a record. -/
structure Column where
  name : String
  kind : ScalarKind
  deriving DecidableEq, Repr

/-- What a field holds. A sequence without a count is the last field and takes the rest of the
payload, and so does an array of records. -/
inductive FieldKind where
  | scalar (kind : ScalarKind)
  | sequence (type : SeqType) (count : Option CountType) (format : Format)
  | records (recordName : String) (columns : List Column) (itemLen maxItems : Nat)
  deriving DecidableEq, Repr

/-- A field with the bounds on its length in bytes. -/
structure Field where
  name : String
  minLen : Nat
  maxLen : Nat
  kind : FieldKind
  deriving DecidableEq, Repr

/-- The width of one record. -/
def itemLength : List Column → Nat
  | [] => 0
  | c :: columns => c.kind.width.bytes + itemLength columns

/-- A scalar field. -/
def Field.ofScalar (name : String) (kind : ScalarKind) : Field :=
  ⟨name, kind.width.bytes, kind.width.bytes, .scalar kind⟩

/-! ### Scalars -/

/-- The first entry that an earlier entry equals. -/
def firstRepeat? : List String → List String → Option String
  | _, [] => none
  | seen, s :: rest => if s ∈ seen then some s else firstRepeat? (s :: seen) rest

/-- The least width for so many flags. -/
def flagsWidth? (count : Nat) : Option ByteWidth :=
  if count ≤ 8 then some .one
  else if count ≤ 16 then some .two
  else if count ≤ maxFlags then some .four
  else none

namespace FieldDecl

/-- An integer as declared; `bool` has no format but the plain one. -/
def integerKind (d : FieldDecl) (name : String) (type : IntType) :
    Except SchemaError ScalarKind := do
  let format ← d.format name
  if type = .bool ∧ format ≠ .plain then
    .error (.invalidAttribute name "format" .formatOfBool)
  else
    .ok (.integer type format)

/-- The width of flags: the declared one if it is wide enough and exists, else the least one. -/
def declaredFlagsWidth (name : String) (declared : Option Nat) (required : ByteWidth) :
    Except SchemaError ByteWidth :=
  match declared with
  | none => .ok required
  | some width =>
    if width < required.bytes then .error (.flagsWidthTooSmall name width required.bytes)
    else
      match ByteWidth.ofBytes? width with
      | some w => .ok w
      | none => .error (.invalidAttribute name "length" (.flagsWidth width))

/-- Flags as declared: at most 32 distinct names. -/
def flagsKind (d : FieldDecl) (name : String) : Except SchemaError ScalarKind :=
  match d.params with
  | none => .error (.missingAttribute name "_type_params")
  | some (.format _) => .error (.invalidAttribute name "_type_params" .paramsOfFlags)
  | some (.names names) =>
    match firstRepeat? [] names, flagsWidth? names.length with
    | some flag, _ => .error (.duplicateField name flag)
    | none, none => .error (.tooManyFlags name names.length)
    | none, some required => do
      let width ← declaredFlagsWidth name d.attributes.length required
      .ok (.flags names width)

end FieldDecl

/-! ### Sequences -/

/-- What bounds the length of a sequence: the size of an element, the type of the count, the room
in the payload, and the declared limits, which count elements. -/
structure SequenceBounds where
  elementSize : Nat
  count : Option CountType
  room : Nat
  declaredMin : Option Nat
  declaredMax : Option Nat

namespace SequenceBounds

/-- The width of the count; none is stored before a last field. -/
def countWidth (b : SequenceBounds) : Nat :=
  match b.count with
  | some t => t.width.bytes
  | none => 0

/-- The least length in bytes; nothing when it is no 64-bit number. -/
def minLen? (b : SequenceBounds) : Option Nat :=
  let content := b.declaredMin.getD 0 * b.elementSize
  if content < 0x10000000000000000 ∧ content + b.countWidth < 0x10000000000000000 then
    some (content + b.countWidth)
  else none

/-- A number of elements, limited by the declared maximum. -/
def limited (b : SequenceBounds) (n : Nat) : Nat :=
  match b.declaredMax with
  | some most => min n most
  | none => n

/-- The greatest length in bytes. Where the room does not even hold the count, it is the room. -/
def maxLen (b : SequenceBounds) : Nat :=
  match b.count with
  | none => b.limited (b.room / b.elementSize) * b.elementSize
  | some t =>
    let w := t.width.bytes
    if b.room < w then b.room
    else w + b.limited (min t.maxCount ((b.room - w) / b.elementSize)) * b.elementSize

end SequenceBounds

namespace FieldDecl

/-- The type of the count before a sequence: none before the last field, else the declared one or
one byte. -/
def countType (d : FieldDecl) (name : String) (isLast : Bool) :
    Except SchemaError (Option CountType) :=
  if isLast then .ok none
  else
    match d.attributes.countType with
    | none => .ok (some .u8)
    | some given =>
      match CountType.ofName? given with
      | some t => .ok (some t)
      | none => .error (.invalidAttribute name "prefix_type" (.countType given))

/-- The format of a sequence: plain, or hexadecimal for 16-bit numbers. -/
def sequenceFormat (d : FieldDecl) (name : String) (type : SeqType) :
    Except SchemaError Format := do
  let format ← d.format name
  match format with
  | .div _ => .error (.invalidAttribute name "format" .scaledSequence)
  | .hex =>
    if type = .vecU16 then .ok .hex else .error (.invalidAttribute name "format" .hexSequence)
  | .plain => .ok .plain

/-- A sequence as declared, after fields that take at least `prevMin` bytes. -/
def sequenceField (d : FieldDecl) (name : String) (type : SeqType) (isLast : Bool) (prevMin : Nat) :
    Except SchemaError Field := do
  let format ← d.sequenceFormat name type
  let count ← d.countType name isLast
  let bounds : SequenceBounds :=
    { elementSize := type.elementSize
      count := count
      room := maxPayload - prevMin
      declaredMin := d.attributes.minLen
      declaredMax := d.attributes.maxLen }
  match bounds.minLen? with
  | none => .error (.invalidAttribute name "min_len" .lengthTooLarge)
  | some minLen =>
    if bounds.maxLen < minLen then .error (.maxBelowMin name minLen bounds.maxLen)
    else .ok ⟨name, minLen, bounds.maxLen, .sequence type count format⟩

/-! ### Records -/

/-- What a subfield declares: its name, and its kind if it is a scalar. A sequence is checked like
one that is followed by other fields, but it is no scalar; an array of records is an error. -/
def subfield (d : FieldDecl) (offset : Nat) : Except SchemaError (String × Option ScalarKind) := do
  let (name, type) ← d.nameAndType
  match Keyword.ofName? type with
  | none => .error (.unknownType name type)
  | some (.integer type) => do
    let kind ← d.integerKind name type
    .ok (name, some kind)
  | some .flags => do
    let kind ← d.flagsKind name
    .ok (name, some kind)
  | some (.sequence type) => do
    let _ ← d.sequenceField name type false offset
    .ok (name, none)
  | some .records => .error (.recordsNotLast name)

/-- The columns so far and one more, which must be a scalar with a name of its own. -/
def addColumn (owner : String) (columns : List Column) (d : FieldDecl) :
    Except SchemaError (List Column) := do
  let (name, kind) ← d.subfield (itemLength columns)
  if columns.any fun c => c.name = name then .error (.duplicateField owner name)
  else
    match kind with
    | none => .error (.variableSubfield owner name)
    | some kind => .ok (columns ++ [⟨name, kind⟩])

/-- An array of records as declared: the last field, after fields of fixed length. -/
def recordsField (d : FieldDecl) (name : String) (isLast : Bool) (prevMin prevMax : Nat) :
    Except SchemaError Field := do
  if !isLast then throw (.recordsNotLast name)
  if prevMin ≠ prevMax then throw (.recordsNotSoleVariable name)
  match d.attributes.recordName, d.attributes.fields with
  | none, _ => .error (.missingAttribute name "name")
  | some _, none => .error (.missingAttribute name "fields")
  | some recordName, some fields => do
    let columns ← fields.foldlM (addColumn name) []
    let itemLen := itemLength columns
    if itemLen = 0 then .error (.invalidAttribute name "fields" .noSubfields)
    else
      let maxItems := (maxPayload - prevMin) / itemLen
      .ok ⟨name, 0, maxItems * itemLen, .records recordName columns itemLen maxItems⟩

end FieldDecl

/-! ### Fields of declarations -/

namespace Field

/-- The field of a declaration. The fields before it in its message take at least `prevMin` and at
most `prevMax` bytes. -/
def ofDecl (d : FieldDecl) (isLast : Bool) (prevMin prevMax : Nat) : Except SchemaError Field := do
  let (name, type) ← d.nameAndType
  match Keyword.ofName? type with
  | none => .error (.unknownType name type)
  | some (.integer type) => do
    let kind ← d.integerKind name type
    .ok (ofScalar name kind)
  | some .flags => do
    let kind ← d.flagsKind name
    .ok (ofScalar name kind)
  | some (.sequence type) => d.sequenceField name type isLast prevMin
  | some .records => d.recordsField name isLast prevMin prevMax

/-- Whether the field always takes the same number of bytes. -/
def isFixed (f : Field) : Bool :=
  f.minLen == f.maxLen

/-- The text format; flags and records have none. -/
def format (f : Field) : Format :=
  match f.kind with
  | .scalar kind => kind.format
  | .sequence _ _ format => format
  | .records .. => .plain

/-- The names of the flags, in bit order; no other field has any. -/
def flagNames (f : Field) : List String :=
  match f.kind with
  | .scalar (.flags names _) => names
  | _ => []

/-- The bit of a named flag. -/
def flagMask? (f : Field) (flag : String) : Option Nat :=
  (f.flagNames.idxOf? flag).map fun i => 1 <<< i

/-- The largest number of records. -/
def maxItems? (f : Field) : Option Nat :=
  match f.kind with
  | .records _ _ _ maxItems => some maxItems
  | _ => none

/-- Whether the field is an array of records. -/
def isRecords (f : Field) : Bool :=
  match f.kind with
  | .records .. => true
  | _ => false

end Field

end WireSchema
