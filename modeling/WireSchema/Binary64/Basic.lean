/-!
# Binary floating-point numbers of 64 bits

A finite number is a sign, a mantissa of at most 53 bits and a power of two; the mantissa is as
long as the exponent range allows (`IsCanonical`), so that every number but the two zeros has one
representation. The two infinities and one not-a-number complete the type.

Every arithmetic result is the exact rational result, rounded by `ofRatio`: to the nearest number of
the format, a tie to the even mantissa, and to infinity beyond the largest number.

* `ofRatio` — the number nearest to a fraction;
* `ofInt`, `divNat`, `mulNat` — conversion of an integer, quotient and product with a natural
  number;
* `nearestInt?` — the nearest integer, a half away from zero.
-/

namespace WireSchema

/-- The mantissas and exponents of finite numbers: the mantissa has its full length, or the exponent
is the smallest one. -/
def IsCanonical (mantissa : Nat) (exponent : Int) : Prop :=
  mantissa < 0x20000000000000 ∧ -1074 ≤ exponent ∧ exponent ≤ 971 ∧
    (0x10000000000000 ≤ mantissa ∨ exponent = -1074)

instance (mantissa : Nat) (exponent : Int) : Decidable (IsCanonical mantissa exponent) := by
  unfold IsCanonical
  infer_instance

/-- A binary floating-point number of 64 bits; all not-a-numbers are one. -/
inductive Binary64 where
  | nan
  | infinity (negative : Bool)
  | finite (negative : Bool) (mantissa : Nat) (exponent : Int)
      (canonical : IsCanonical mantissa exponent)
  deriving DecidableEq

namespace Binary64

/-! ### Rounding a fraction -/

/-- Zero with a sign. -/
def zero (negative : Bool) : Binary64 :=
  .finite negative 0 (-1074) (by decide)

/-- A fraction multiplied by a power of two, as numerator and denominator. -/
def scaled (num den : Nat) (power : Int) : Nat × Nat :=
  if 0 ≤ power then (num <<< power.toNat, den) else (num, den <<< (-power).toNat)

/-- The largest `k` with `2 ^ k ≤ num / den`, for a positive fraction. -/
def ratioLog2 (num den : Nat) : Int :=
  let k : Int := (num.log2 : Int) - (den.log2 : Int)
  let (n, d) := scaled num den (-k)
  if d ≤ n then k else k - 1

/-- The integer nearest to a fraction, a tie to the even one. -/
def roundHalfEven (num den : Nat) : Nat :=
  let q := num / den
  let r := num % den
  if 2 * r < den then q else if den < 2 * r then q + 1 else q + q % 2

/-- The number of a mantissa of at most 53 bits or the next one after those; infinity when it lies
beyond the largest exponent. -/
def ofMantissa (negative : Bool) (mantissa : Nat) (exponent : Int) : Binary64 :=
  if h : IsCanonical mantissa exponent then .finite negative mantissa exponent h
  else if h : IsCanonical (mantissa / 2) (exponent + 1) then
    .finite negative (mantissa / 2) (exponent + 1) h
  else .infinity negative

/-- The exponent of the number that a positive fraction rounds to, before a carry. -/
def ratioExponent (num den : Nat) : Int :=
  max (ratioLog2 num den - 52) (-1074)

/-- The number nearest to the fraction `num / den`, with the given sign. -/
def ofRatio (negative : Bool) (num den : Nat) : Binary64 :=
  if num = 0 then zero negative
  else
    let exponent := ratioExponent num den
    let (n, d) := scaled num den (-exponent)
    ofMantissa negative (roundHalfEven n d) exponent

/-! ### Arithmetic with integers -/

/-- The number nearest to an integer. -/
def ofInt (v : Int) : Binary64 :=
  ofRatio (decide (v < 0)) v.natAbs 1

/-- The quotient by a natural number that is positive. -/
def divNat (x : Binary64) (n : Nat) : Binary64 :=
  match x with
  | .finite negative m e _ =>
    let (num, den) := scaled m n e
    ofRatio negative num den
  | _ => x

/-- The product with a natural number that is positive. -/
def mulNat (x : Binary64) (n : Nat) : Binary64 :=
  match x with
  | .finite negative m e _ =>
    let (num, den) := scaled (m * n) 1 e
    ofRatio negative num den
  | _ => x

/-- The integer nearest to a finite number, a half away from zero. -/
def nearestInt? (x : Binary64) : Option Int :=
  match x with
  | .finite negative m e _ =>
    let (num, den) := scaled m 1 e
    let magnitude : Nat := (2 * num + den) / (2 * den)
    some (if negative then -(magnitude : Int) else magnitude)
  | _ => none

/-- Whether a number is neither infinite nor not-a-number. -/
def isFinite : Binary64 → Bool
  | .finite .. => true
  | _ => false

end Binary64

end WireSchema
