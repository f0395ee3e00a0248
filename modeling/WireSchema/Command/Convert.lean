import WireSchema.Base64
import WireSchema.Command.Number
import WireSchema.Message.Value

/-!
# Messages and commands

The text form of a message has one argument for each field, in order, except that fields whose text
is empty are left out and an array of records becomes the records of the command. In the other
direction a missing argument stands for the zero value, and arguments that name no field are
ignored.

* `Catalogue.toCommand` — the text form of a message;
* `Catalogue.ofCommand` — the message of a command, under given options.
-/

namespace WireSchema

open WireSchema.Text

/-! ### Writing -/

/-- The items of a comma list. -/
def joinList (items : List (List Char)) : List Char :=
  List.intercalate [','] items

/-- Whether bit `i` of a number is set. -/
def hasBit (v : Int) (i : Nat) : Bool :=
  (v >>> i) % 2 == 1

/-- The names of the flags that are set. -/
def renderFlags (names : List String) (v : Int) : List Char :=
  joinList ((names.zipIdx.filter fun entry => hasBit v entry.2).map fun entry => entry.1.toList)

/-- The text of a value of a scalar or a sequence; nothing if the value does not match. -/
def FieldKind.render? (kind : FieldKind) (v : Value) : Option (List Char) :=
  match kind, v with
  | .scalar (.integer .bool _), .bool b => some (if b then "true".toList else "false".toList)
  | .scalar (.integer .argb32 .plain), .int v => some (renderColor v)
  | .scalar (.integer type format), .int v => some (type.render format v)
  | .scalar (.flags names _), .int v => some (renderFlags names v)
  | .sequence .utf8 _ _, .text s => some s.toList
  | .sequence .bytes _ _, .bytes s => some (Base64.encode s)
  | .sequence .vecU8 _ _, .bytes s => some (joinList (s.map fun b => numeral 10 b.toNat))
  | .sequence .vecU16 _ .hex, .words list =>
    some (joinList (list.map fun w => ['0', 'x'] ++ paddedNumeral 16 4 w.toNat))
  | .sequence .vecU16 _ _, .words list => some (joinList (list.map fun w => numeral 10 w.toNat))
  | _, _ => none

/-- The command with the text of one more field. -/
def Command.addField (c : Command) (f : Field) (v : Value) : Except CommandError Command :=
  match f.kind, v with
  | .records _ columns _ _, .records records =>
    .ok { c with
      records := records.map fun record =>
        (columns.zip record).map fun entry => entry.1.kind.format.scaleDown entry.2 }
  | kind, v =>
    match kind.render? v with
    | some s => .ok (c.set f.name (String.ofList s))
    | none => .error (.typeMismatch f.name)

/-- The command with the texts of fields in order. -/
def Command.addFields (c : Command) : List (Field × Value) → Except CommandError Command
  | [] => .ok c
  | (f, v) :: rest =>
    match c.addField f v with
    | .ok c => addFields c rest
    | .error e => .error e

/-- The text form of a message. -/
def Catalogue.toCommand (c : Catalogue) (msg : Message) : Except CommandError Command :=
  match c.byId? msg.type with
  | none => .error (.unknownType msg.type)
  | some m =>
    if msg.values.length ≠ m.layout.fields.length then
      .error (.fieldCount m.layout.fields.length msg.values.length)
    else Command.addFields ⟨msg.userId, m.command, [], []⟩ (m.layout.fields.zip msg.values)

/-! ### Reading -/

/-- The bits of named flags so far and of one more name, which stands for a shifted bit. -/
def addFlag (options : CommandOptions) (field : String) (names : List String) (bits : Nat)
    (entry : List Char) : Except CommandError Nat :=
  match names.idxOf? (String.ofList entry) with
  | some i => do
    let bit ← bit64 i
    .ok (bits ||| bit.toNat)
  | none =>
    match options.unknownFlags with
    | .reject => .error (.unknownFlag field (String.ofList entry))
    | .ignore => .ok bits

/-- The flags of a comma list of names. -/
def readFlags (options : CommandOptions) (field : String) (names : List String) (s : List Char) :
    Except CommandError Int := do
  let bits ← (listEntries s).foldlM (addFlag options field names) 0
  .ok bits

/-- The value of a scalar or a sequence that a text denotes. -/
def Field.ofText (options : CommandOptions) (f : Field) (s : List Char) :
    Except CommandError Value :=
  match f.kind with
  | .scalar (.integer .bool _) => .ok (.bool (s == "true".toList))
  | .scalar (.integer .argb32 .plain) => (readColor f.name s).map .int
  | .scalar (.integer type format) => (type.read format f.name s).map .int
  | .scalar (.flags names _) => (readFlags options f.name names s).map .int
  | .sequence .utf8 _ _ => .ok (.text (String.ofList s))
  | .sequence .bytes _ _ =>
    match Base64.decode? s with
    | some bytes => .ok (.bytes bytes)
    | none => .error (.invalidValue f.name (String.ofList s))
  | .sequence .vecU8 _ _ =>
    (readList f.name .u8 s).map fun list => .bytes (list.map fun v => UInt8.ofNat v.toNat)
  | .sequence .vecU16 _ _ =>
    (readList f.name .u16 s).map fun list => .words (list.map fun v => UInt16.ofNat v.toNat)
  | .records .. => .error (.typeMismatch f.name)

/-- The numbers of a record, one for each column. -/
def readRecord (columns : List Column) (record : List Binary64) : Except CommandError (List Int) :=
  (columns.zip record).mapM fun entry => entry.1.scaleUp entry.2

/-- The records of a field. One with the wrong number of values is left out, or refused if records
are strict; `done` holds the records before, reversed. -/
def recordsOf (options : CommandOptions) (field : String) (columns : List Column)
    (done : List (List Int)) : List (List Binary64) → Except CommandError (List (List Int))
  | [] => .ok done.reverse
  | record :: rest =>
    if record.length ≠ columns.length then
      if options.strictRecords then
        .error (.recordArity field columns.length record.length)
      else recordsOf options field columns done rest
    else
      match readRecord columns record with
      | .error e => .error e
      | .ok numbers => recordsOf options field columns (numbers :: done) rest

/-- The value of a field in a command. -/
def Command.value (options : CommandOptions) (c : Command) (f : Field) :
    Except CommandError Value :=
  match f.kind with
  | .records _ columns _ _ => (recordsOf options f.name columns [] c.records).map .records
  | _ =>
    match c.get? f.name with
    | some s => f.ofText options s.toList
    | none => .ok (Value.zero f)

/-- The message of a command. -/
def Catalogue.ofCommand (c : Catalogue) (options : CommandOptions) (cmd : Command) :
    Except CommandError Message :=
  match c.byCommand? cmd.name with
  | none => .error (.unknownCommand cmd.name)
  | some m =>
    match m.layout.fields.mapM (cmd.value options) with
    | .ok values => .ok ⟨cmd.userId, m.id, values⟩
    | .error e => .error e

end WireSchema
