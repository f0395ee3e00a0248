import WireSchema.Binary64.Basic

/-!
# Decimal fractions of binary numbers

A decimal fraction is a coefficient and a power of ten. `ofDecimal` gives the binary number nearest
to it. The other direction looks for few digits: `shortest` takes the smallest number of digits for
which one of the two neighbours on that decimal grid reads back as the same binary number, and of
two such neighbours the nearer; `DecimalTie` settles a tie. A binary number has at most 17 such
digits; should none be found, the exact decimal expansion stands in, which reads back as well.
-/

namespace WireSchema

/-- The decimal fraction `coefficient · 10 ^ exponent`. -/
structure Decimal where
  coefficient : Nat
  exponent : Int
  deriving DecidableEq, Repr

namespace Decimal

/-- The value as numerator and denominator. -/
def ratio (d : Decimal) : Nat × Nat :=
  if 0 ≤ d.exponent then (d.coefficient * Nat.pow 10 d.exponent.toNat, 1)
  else (d.coefficient, Nat.pow 10 (-d.exponent).toNat)

/-- The loop of `normalize`, with a bound on the number of zeros. -/
def stripZeros : Nat → Nat → Int → Decimal
  | 0, c, x => ⟨c, x⟩
  | fuel + 1, c, x => if c ≠ 0 ∧ c % 10 = 0 then stripZeros fuel (c / 10) (x + 1) else ⟨c, x⟩

/-- The same value without zeros at the end of the coefficient. -/
def normalize (d : Decimal) : Decimal :=
  stripZeros d.coefficient.log2 d.coefficient d.exponent

end Decimal

namespace Binary64

/-! ### From decimal to binary -/

/-- The number nearest to a decimal fraction. Powers of ten that put the value out of the format's
range are not computed. -/
def ofDecimal (negative : Bool) (d : Decimal) : Binary64 :=
  if d.coefficient = 0 then zero negative
  else if 310 < d.exponent then .infinity negative
  else if (d.coefficient.log2 : Int) + 1081 < -3 * d.exponent then zero negative
  else ofRatio negative d.ratio.1 d.ratio.2

/-! ### From binary to decimal -/

/-- The first power of ten beyond a positive fraction, from a lower bound for it. -/
def decimalMagnitude (num den : Nat) : Int :=
  let start := ratioLog2 num den * 30103 / 100000
  let isAbove (p : Int) : Bool :=
    if 0 ≤ p then num < den * Nat.pow 10 p.toNat else num * Nat.pow 10 (-p).toNat < den
  ([start, start + 1, start + 2].find? isAbove).getD (start + 3)

/-- Which of two decimal fractions at the same distance is taken: the larger one, or the one with
an even last digit. -/
inductive DecimalTie where
  | larger
  | even
  deriving DecidableEq, Repr

/-- Whether `n / d` is rounded up. -/
def DecimalTie.roundsUp (tie : DecimalTie) (n d : Nat) : Bool :=
  let r := n % d
  d < 2 * r || 2 * r = d && (tie = .larger || n / d % 2 = 1)

/-- The neighbours of a fraction on the grid of multiples of `10 ^ exponent` that round to `target`:
the nearer of two, and on a tie what the rule says. -/
def neighbour? (tie : DecimalTie) (target : Binary64) (num den : Nat) (exponent : Int) :
    Option Decimal :=
  let (n, d) := if 0 ≤ exponent then (num, den * Nat.pow 10 exponent.toNat)
    else (num * Nat.pow 10 (-exponent).toNat, den)
  let below : Decimal := ⟨n / d, exponent⟩
  let above : Decimal := ⟨n / d + 1, exponent⟩
  if ofDecimal false below = target then
    if ofDecimal false above = target ∧ tie.roundsUp n d then some above else some below
  else if ofDecimal false above = target then some above
  else none

/-- The decimal expansion of `mantissa · 2 ^ exponent`, which is always finite. -/
def expansion (mantissa : Nat) (exponent : Int) : Decimal :=
  if 0 ≤ exponent then ⟨mantissa <<< exponent.toNat, 0⟩
  else ⟨mantissa * Nat.pow 5 (-exponent).toNat, exponent⟩

/-- The decimal fraction of fewest digits that rounds to the magnitude of a finite number. -/
def shortest (tie : DecimalTie) (mantissa : Nat) (exponent : Int) : Decimal :=
  if mantissa = 0 then ⟨0, 0⟩
  else
    let target := ofMantissa false mantissa exponent
    let (num, den) := scaled mantissa 1 exponent
    let magnitude := decimalMagnitude num den
    let found := (List.range 17).findSome? fun n =>
      neighbour? tie target num den (magnitude - (n + 1 : Nat))
    (found.getD (expansion mantissa exponent)).normalize

end Binary64

end WireSchema
