import WireSchema.Schema.Catalogue

/-!
# Messages

A message has a sender, a number that tells its type, and one value for each field of that type.
-/

namespace WireSchema

/-- The value of a field. Integers, colors and flags are numbers; `bytes` and `vec_u8` fields hold
bytes and `vec_u16` fields words; a record holds one number for each column. -/
inductive Value where
  | int (v : Int)
  | bool (b : Bool)
  | bytes (s : Bytes)
  | text (s : String)
  | words (list : List UInt16)
  | records (list : List (List Int))
  deriving DecidableEq, Repr

/-- The value that is zero, false or empty. -/
def Value.zero (f : Field) : Value :=
  match f.kind with
  | .scalar (.integer .bool _) => .bool false
  | .scalar _ => .int 0
  | .sequence .bytes _ _ | .sequence .vecU8 _ _ => .bytes []
  | .sequence .vecU16 _ _ => .words []
  | .sequence .utf8 _ _ => .text ""
  | .records .. => .records []

/-- A message: its values stand in the order of the fields of its type. -/
structure Message where
  userId : UInt8
  type : UInt8
  values : List Value
  deriving DecidableEq, Repr

namespace Message

/-- The message of a type in which every value is zero. -/
def zeroed (m : MessageDef) (userId : UInt8) : Message :=
  ⟨userId, m.id, m.layout.fields.map Value.zero⟩

/-- The position of a field of a type. -/
def position? (m : MessageDef) (field : String) : Option Nat :=
  m.layout.fields.findIdx? fun f => f.name == field

/-- The value of a named field. -/
def get? (msg : Message) (m : MessageDef) (field : String) : Option Value :=
  (position? m field).bind fun i => msg.values[i]?

/-- The message with another value for a named field; nothing if it has no such field or value. -/
def set? (msg : Message) (m : MessageDef) (field : String) (v : Value) : Option Message :=
  match position? m field with
  | some i => if i < msg.values.length then some { msg with values := msg.values.set i v } else none
  | none => none

end Message

end WireSchema
