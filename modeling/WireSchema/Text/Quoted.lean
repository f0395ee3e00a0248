import WireSchema.Text.CharTable
import WireSchema.Text.Numeral

/-!
# Quoted text

A text between double quotes in which every character is visible: quotes, backslashes and the usual
controls have two-character escapes, and any other character without a visible form of its own, or
one that would join the character before it, is written by its code point in braces.
-/

namespace WireSchema.Text

open CharTable

/-- A code point in hexadecimal: `\u`, an opening brace, the digits, a closing brace. -/
def codePointEscape (c : Char) : List Char :=
  ['\\', 'u', '{'] ++ numeral 16 c.toNat ++ ['}']

/-- One character of a quoted text. -/
def quotedChar (c : Char) : List Char :=
  match c with
  | '\t' => ['\\', 't']
  | '\r' => ['\\', 'r']
  | '\n' => ['\\', 'n']
  | '\u0000' => ['\\', '0']
  | '"' => ['\\', '"']
  | '\\' => ['\\', '\\']
  | _ => if contains graphemeExtend c || contains unprintable c then codePointEscape c else [c]

/-- A text in double quotes. -/
def quoted (s : String) : String :=
  String.ofList ('"' :: s.toList.flatMap quotedChar ++ ['"'])

/-- A list of quoted texts in brackets. -/
def quotedList (items : List String) : String :=
  "[" ++ String.intercalate ", " (items.map quoted) ++ "]"

end WireSchema.Text
