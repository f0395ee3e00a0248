import WireSchema.Binary64.Decimal
import WireSchema.Text.Numeral

/-!
# Floating-point numbers as text

Two written forms of the shortest decimal fraction, and one reader.

* `positional` — all digits before and after a point, never an exponent, no point without digits
  after it;
* `compact` — at least one digit after the point, or an exponent when the number is very large or
  very small;
* `read?` — an optional sign, then digits with an optional point and exponent, or the name of
  infinity or not-a-number in either case.
-/

namespace WireSchema.Binary64

open WireSchema.Text

/-! ### Writing -/

/-- A minus sign before a negative number. -/
def signed (negative : Bool) (s : List Char) : List Char :=
  if negative then '-' :: s else s

/-- A decimal fraction with its digits around the point, which stands only before digits. -/
def positionalDecimal (d : Decimal) : List Char :=
  let digits := numeral 10 d.coefficient
  if 0 ≤ d.exponent then
    digits ++ if d.coefficient = 0 then [] else List.replicate d.exponent.toNat '0'
  else
    let places := (-d.exponent).toNat
    if places < digits.length then
      digits.take (digits.length - places) ++ '.' :: digits.drop (digits.length - places)
    else ['0', '.'] ++ List.replicate (places - digits.length) '0' ++ digits

/-- A number with all its digits and without an exponent. Of two equally near decimal fractions the
larger is written. -/
def positional : Binary64 → List Char
  | .nan => ['N', 'a', 'N']
  | .infinity negative => signed negative ['i', 'n', 'f']
  | .finite negative m e _ => signed negative (positionalDecimal (shortest .larger m e))

/-- A decimal fraction with a point, or with an exponent when the point would stand more than 16
digits after the first digit or more than five places before it. -/
def compactDecimal (d : Decimal) : List Char :=
  let digits := numeral 10 d.coefficient
  let point : Int := digits.length + d.exponent
  if 0 ≤ d.exponent ∧ point ≤ 16 then
    digits ++ List.replicate d.exponent.toNat '0' ++ ['.', '0']
  else if 0 < point ∧ point ≤ 16 then
    digits.take point.toNat ++ '.' :: digits.drop point.toNat
  else if -5 < point ∧ point ≤ 0 then
    ['0', '.'] ++ List.replicate (-point).toNat '0' ++ digits
  else
    let fraction := match digits.drop 1 with
      | [] => []
      | rest => '.' :: rest
    digits.take 1 ++ fraction ++ 'e' :: decimal (point - 1)

/-- A number in the compact form. Of two equally near decimal fractions the even one is written. -/
def compact : Binary64 → List Char
  | .nan => ['.', 'n', 'a', 'n']
  | .infinity negative => signed negative ['.', 'i', 'n', 'f']
  | .finite negative m e _ => signed negative (compactDecimal (shortest .even m e))

/-! ### Reading -/

/-- The digits at the front of a text and what follows them. -/
def spanDigits (s : List Char) : List Char × List Char :=
  s.span fun c => '0' ≤ c && c ≤ '9'

/-- The exponent at the end of a number: nothing, or a letter, an optional sign and digits. -/
def readExponent? : List Char → Option Int
  | [] => some 0
  | c :: rest =>
    if c = 'e' ∨ c = 'E' then
      match rest with
      | '-' :: digits => (readNumeral 10 digits).map fun n => -(n : Int)
      | '+' :: digits => (readNumeral 10 digits).map fun n => (n : Int)
      | digits => (readNumeral 10 digits).map fun n => (n : Int)
    else none

/-- A number without a sign: digits on at least one side of an optional point, and an exponent. -/
def readDecimal? (s : List Char) : Option Decimal :=
  let (whole, rest) := spanDigits s
  let (fraction, rest) := match rest with
    | '.' :: rest => spanDigits rest
    | _ => ([], rest)
  match readNumeral 10 (whole ++ fraction), readExponent? rest with
  | some coefficient, some exponent => some ⟨coefficient, exponent - fraction.length⟩
  | _, _ => none

/-- A number without a sign. -/
def readMagnitude? (negative : Bool) (s : List Char) : Option Binary64 :=
  let word := s.map Char.toLower
  if word = ['i', 'n', 'f'] ∨ word = ['i', 'n', 'f', 'i', 'n', 'i', 't', 'y'] then
    some (.infinity negative)
  else if word = ['n', 'a', 'n'] then some .nan
  else (readDecimal? s).map (ofDecimal negative)

/-- The number that a text denotes. -/
def read? : List Char → Option Binary64
  | '-' :: rest => readMagnitude? true rest
  | '+' :: rest => readMagnitude? false rest
  | s => readMagnitude? false s

end WireSchema.Binary64
