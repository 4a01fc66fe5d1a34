import TypedModule.Number.Binary64

/-!
# Shortest decimal text

The shortest decimal of a number is the one with the fewest digits among those that round back
to it. For each count of digits the two neighbours of the number on the decimal grid are tried
in exact arithmetic; the first grid that has one inside the rounding interval wins, and of two
the nearer one, a tie going to the even digit.
-/

namespace TypedModule.Binary64

/-- The rounding interval of `mantissa * 2 ^ exponent` in units of a quarter of that power. -/
structure Interval where
  low : Nat
  middle : Nat
  high : Nat
  closed : Bool

def interval (mantissa : Nat) (exponent : Int) : Interval where
  low := if mantissa = fullMantissa ∧ lowestExponent < exponent then 4 * mantissa - 1
    else 4 * mantissa - 2
  middle := 4 * mantissa
  high := 4 * mantissa + 2
  closed := mantissa % 2 == 0

/-- Factors that bring `x * 2 ^ (exponent - 2)` and `y * 10 ^ place` to a common scale. -/
def commonScale (exponent place : Int) : Nat × Nat :=
  (Nat.pow 2 (exponent - 2).toNat * Nat.pow 10 (-place).toNat,
    Nat.pow 2 (2 - exponent).toNat * Nat.pow 10 place.toNat)

/-- The best multiple of `10 ^ place` inside the rounding interval, if there is one. -/
def onGrid (mantissa : Nat) (exponent place : Int) : Option Nat :=
  let bounds := interval mantissa exponent
  let (binary, decimal) := commonScale exponent place
  let inside (y : Nat) : Bool :=
    if bounds.closed then
      bounds.low * binary ≤ y * decimal && y * decimal ≤ bounds.high * binary
    else bounds.low * binary < y * decimal && y * decimal < bounds.high * binary
  let below := bounds.middle * binary / decimal
  let above := below + 1
  let downward := bounds.middle * binary - below * decimal
  let upward := above * decimal - bounds.middle * binary
  if inside below && (!inside above || downward < upward ||
      (downward == upward && below % 2 == 0)) then some below
  else if inside above then some above
  else none

/-- The place of the first decimal digit: `p` for a number from `10 ^ p` to below
`10 ^ (p + 1)`. It is read off the whole part of the number times `10 ^ 400`. -/
def leadingPlace (mantissa : Nat) (exponent : Int) : Int :=
  let whole := mantissa * Nat.pow 2 exponent.toNat * Nat.pow 10 400 / Nat.pow 2 (-exponent).toNat
  (Nat.toDigits 10 whole).length - 401

/-- Digits and the place of the last of them, with no zero at the end. -/
def stripZeros : Nat → Nat → Int → Nat × Int
  | 0, digits, place => (digits, place)
  | fuel + 1, digits, place =>
    if digits ≠ 0 ∧ digits % 10 = 0 then stripZeros fuel (digits / 10) (place + 1)
    else (digits, place)

/-- The shortest decimal as digits and the place of the last of them. -/
def shortest (mantissa : Nat) (exponent : Int) : Nat × Int :=
  let first := leadingPlace mantissa exponent
  let found := (List.range 17).findSome? fun (n : Nat) =>
    (onGrid mantissa exponent (first - n)).map fun digits => (digits, first - n)
  match found with
  | some (digits, place) => stripZeros 18 digits place
  | none => (0, 0)

def zeros (n : Nat) : String := String.ofList (List.replicate n '0')

/-- Positional from 10⁻⁴ to below 10¹⁶, always with a point; otherwise with an exponent of a
sign and at least two digits. -/
def layOut (digits : Nat) (place : Int) : String :=
  let shown := Nat.toDigits 10 digits
  let point := place + shown.length
  if -4 < point ∧ point ≤ 16 then
    if 0 ≤ place then String.ofList shown ++ zeros place.toNat ++ ".0"
    else if 0 < point then
      String.ofList (shown.take point.toNat) ++ "." ++ String.ofList (shown.drop point.toNat)
    else "0." ++ zeros (-point).toNat ++ String.ofList shown
  else
    let exponent := point - 1
    let tail := shown.drop 1
    String.ofList (shown.take 1) ++ (if tail.isEmpty then "" else "." ++ String.ofList tail) ++
      "e" ++ (if exponent < 0 then "-" else "+") ++
      String.ofList (List.leftpad 2 '0' (Nat.toDigits 10 exponent.natAbs))

/-- The text of a number: its shortest decimal, and `nan`, `inf` and `-inf`. -/
def text : Binary64 → String
  | nan => "nan"
  | infinite negative => (if negative then "-" else "") ++ "inf"
  | finite negative mantissa exponent =>
    (if negative then "-" else "") ++
      if mantissa = 0 then "0.0"
      else
        let (digits, place) := shortest mantissa exponent
        layOut digits place

end TypedModule.Binary64
