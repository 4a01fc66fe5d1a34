/-!
# Binary numbers of double precision

A finite number is a mantissa below 2⁵³ times a power of two. Reading a decimal rounds it to
the nearest such number, a tie going to the even mantissa; what is too large becomes infinite
and what is too small becomes zero.
-/

namespace TypedModule

inductive Binary64
  | nan
  | infinite (negative : Bool)
  | finite (negative : Bool) (mantissa : Nat) (exponent : Int)
deriving DecidableEq

namespace Binary64

/-- The least mantissa of full length, 2⁵². -/
def fullMantissa : Nat := 0x10000000000000

def lowestExponent : Int := -1074

def highestExponent : Int := 971

/-- The quotient rounded to the nearest whole number, a tie going to the even one. -/
def roundedQuotient (num den : Nat) : Nat :=
  let q := num / den
  let r := num % den
  if 2 * r < den then q else if den < 2 * r then q + 1 else q + q % 2

/-- The quotient of two numbers, divided by a power of two, as numerator and denominator. -/
def scaled (num den : Nat) (exponent : Int) : Nat × Nat :=
  (num * Nat.pow 2 (-exponent).toNat, den * Nat.pow 2 exponent.toNat)

/-- The number nearest to `num / den`, for a positive quotient. -/
def ofQuotient (negative : Bool) (num den : Nat) : Binary64 :=
  let low := (num.log2 : Int) - den.log2 - 53
  let wide := scaled num den low
  let exponent := max lowestExponent (if wide.1 / wide.2 < 2 * fullMantissa then low else low + 1)
  let ratio := scaled num den exponent
  let mantissa := roundedQuotient ratio.1 ratio.2
  let carried := mantissa = 2 * fullMantissa
  let exponent := if carried then exponent + 1 else exponent
  if highestExponent < exponent then infinite negative
  else finite negative (if carried then fullMantissa else mantissa) exponent

/-- The number nearest to `digits * 10 ^ exponent`. Decimals far outside the range are settled
by the place of their first digit. -/
def ofDecimal (negative : Bool) (digits : Nat) (exponent : Int) : Binary64 :=
  let place := exponent + (Nat.toDigits 10 digits).length
  if digits = 0 ∨ place < -330 then finite negative 0 lowestExponent
  else if 310 < place then infinite negative
  else ofQuotient negative (digits * Nat.pow 10 exponent.toNat) (Nat.pow 10 (-exponent).toNat)

def isZero : Binary64 → Bool
  | finite _ 0 _ => true
  | _ => false

end Binary64

end TypedModule
