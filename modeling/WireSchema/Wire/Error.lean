import WireSchema.Bytes

/-!
# Wire errors

Why a frame cannot be read, or a message cannot be written as one. `WireFault` is the cause alone;
`WireError` adds the sender, the type and the payload length of the frame it happened in.
-/

namespace WireSchema

/-- The cause of a failure to read or write a frame. -/
inductive WireFault where
  | headerTooShort
  | truncated
  | unknownType
  | badLength (length least most : Nat)
  | fieldTooLong (message field : String)
  | partialItem (field : String)
  | fieldCount (expected actual : Nat)
  | typeMismatch (field : String)
  | outOfRange (field : String) (value : Int)
  deriving DecidableEq, Repr

/-- The text of a cause. -/
def WireFault.message : WireFault → String
  | headerTooShort => "header too short"
  | truncated => "message truncated"
  | unknownType => "unknown message type"
  | badLength length least most =>
    "invalid payload length " ++ toString length ++ " (expected " ++ toString least ++ "..="
      ++ toString most ++ ")"
  | fieldTooLong message field => message ++ "." ++ field ++ ": field too long"
  | partialItem field => field ++ ": partial item at end of payload"
  | fieldCount expected actual =>
    "wrong number of values: expected " ++ toString expected ++ ", got " ++ toString actual
  | typeMismatch field => field ++ ": value does not match the field type"
  | outOfRange field value => field ++ ": value " ++ toString value ++ " out of range"

/-- A failure with the frame that it happened in. -/
structure WireError where
  userId : UInt8
  type : UInt8
  payloadLen : Nat
  fault : WireFault
  deriving DecidableEq, Repr

/-- The text of a failure. -/
def WireError.message (e : WireError) : String :=
  e.fault.message ++ " (user " ++ toString e.userId.toNat ++ ", type " ++ toString e.type.toNat
    ++ ", payload length " ++ toString e.payloadLen ++ ")"

end WireSchema
