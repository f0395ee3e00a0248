import WireSchema.Text.Numeral

/-!
# JSON values

The JSON values that a catalogue is written as, and their compact form: no blanks, members in the
given order, and in strings only the escapes that are required. Quotes and backslashes are escaped
by a backslash, controls by their letter if they have one and by four lower-case hexadecimal digits
otherwise; every other character stands for itself.
-/

namespace WireSchema

/-- A JSON value; numbers are natural, and the members of an object keep their order. -/
inductive Json where
  | null
  | number (n : Nat)
  | string (s : String)
  | array (items : List Json)
  | object (members : List (String × Json))

namespace Json

/-- One character inside a JSON string. -/
def stringChar (c : Char) : List Char :=
  match c with
  | '"' => ['\\', '"']
  | '\\' => ['\\', '\\']
  | '\u0008' => ['\\', 'b']
  | '\t' => ['\\', 't']
  | '\n' => ['\\', 'n']
  | '\u000c' => ['\\', 'f']
  | '\r' => ['\\', 'r']
  | _ => if c.toNat < 0x20 then ['\\', 'u'] ++ Text.paddedNumeral 16 4 c.toNat else [c]

/-- A JSON string with its quotes. -/
def renderString (s : String) : List Char :=
  '"' :: (s.toList.flatMap stringChar ++ ['"'])

mutual

/-- The compact form of a value. -/
def render : Json → List Char
  | null => ['n', 'u', 'l', 'l']
  | number n => Text.numeral 10 n
  | string s => renderString s
  | array [] => ['[', ']']
  | array (item :: rest) => '[' :: (render item ++ renderItems rest)
  | object [] => ['{', '}']
  | object ((key, value) :: rest) =>
    '{' :: (renderString key ++ ':' :: (render value ++ renderMembers rest))

/-- The items after the first one of an array, and its end. -/
def renderItems : List Json → List Char
  | [] => [']']
  | item :: rest => ',' :: (render item ++ renderItems rest)

/-- The members after the first one of an object, and its end. -/
def renderMembers : List (String × Json) → List Char
  | [] => ['}']
  | (key, value) :: rest => ',' :: (renderString key ++ ':' :: (render value ++ renderMembers rest))

end

end Json

end WireSchema
