/-!
# Numerals

Natural numbers written in a base up to sixteen, with lower-case digits. `numeral` writes the
shortest numeral, `paddedNumeral` fills it up with zeros on the left, and `readNumeral` reads one or
more digits of either case. Readers with a range take the bound as an argument: `readBelow`.
-/

namespace WireSchema.Text

/-! ### Writing -/

/-- The shortest numeral of `n` in the given base. -/
def numeral (base n : Nat) : List Char :=
  Nat.toDigits base n

/-- The numeral of `n`, with zeros on the left up to the given width. -/
def paddedNumeral (base width n : Nat) : List Char :=
  let digits := numeral base n
  List.replicate (width - digits.length) '0' ++ digits

/-- An integer in decimal. -/
def decimal : Int → List Char
  | .ofNat n => numeral 10 n
  | .negSucc n => '-' :: numeral 10 (n + 1)

/-! ### Reading -/

/-- The value of a digit in bases up to sixteen, in either case. -/
def digitValue (c : Char) : Option Nat :=
  let n := c.toNat
  if 48 ≤ n ∧ n ≤ 57 then some (n - 48)
  else if 97 ≤ n ∧ n ≤ 102 then some (n - 87)
  else if 65 ≤ n ∧ n ≤ 70 then some (n - 55)
  else none

/-- The value of a digit of the given base. -/
def digitOf (base : Nat) (c : Char) : Option Nat :=
  match digitValue c with
  | some d => if d < base then some d else none
  | none => none

/-- The value of digits that follow digits of value `n`. -/
def readDigits (base : Nat) (n : Nat) : List Char → Option Nat
  | [] => some n
  | c :: rest =>
    match digitOf base c with
    | some d => readDigits base (n * base + d) rest
    | none => none

/-- The value of one or more digits and nothing else. -/
def readNumeral (base : Nat) : List Char → Option Nat
  | [] => none
  | s => readDigits base 0 s

/-- A numeral with an optional plus sign, of a value below `bound`. -/
def readBelow (base bound : Nat) (s : List Char) : Option Nat :=
  let digits := match s with
    | '+' :: rest => rest
    | _ => s
  match readNumeral base digits with
  | some n => if n < bound then some n else none
  | none => none

/-- A numeral with an optional sign, of a value in the signed 64-bit range. -/
def readSigned64 (base : Nat) : List Char → Option Int
  | '-' :: digits =>
    match readNumeral base digits with
    | some n => if n ≤ 0x8000000000000000 then some (-(n : Int)) else none
    | none => none
  | s =>
    match readBelow base 0x8000000000000000 s with
    | some n => some n
    | none => none

/-! ### Laws of single digits -/

theorem digitOf_lt {base d : Nat} {c : Char} (h : digitOf base c = some d) : d < base := by
  unfold digitOf at h
  split at h
  · split at h
    · simp_all
    · simp at h
  · simp at h

end WireSchema.Text
