import UtilityCss.Binary64.Basic
import UtilityCss.Text.Blank
/-
  The shortest decimal that reads back as a given number.

  All decimals between the two halves to the neighbours read back as the
  number itself; the halves do so too when the mantissa is even. For one
  digit, two digits and so on, the two decimals with so many digits around
  the number are tried, and the first count of digits that has one inside
  wins; of two inside, the nearer.

  The text has a point and at least one decimal when the first digit is worth
  at least 10^−4 and less than 10^16, and otherwise an exponent with its sign
  and at least two digits.
-/

namespace UtilityCss.Binary64

/-- A decimal: its digits as a number, times a power of ten. -/
structure Decimal where
  digits : Nat
  tens : Int
  deriving DecidableEq, Repr

/-- The power of ten of the first digit of the ratio `num / den`. -/
def firstPower (num den : Nat) : Int :=
  if den ≤ num then digitCount (num / den) - 1
  else -(digitCount ((den + num - 1) / num - 1) : Int)

/-- The ratio `num / den` in units of `10^tens`, as a ratio again. -/
def inTens (num den : Nat) (tens : Int) : Nat × Nat :=
  if tens < 0 then (num * Nat.pow 10 tens.natAbs, den) else (num, den * Nat.pow 10 tens.natAbs)

/-- The bounds within which a decimal reads back, and the number itself, in quarters of the
unit `2^exponent`. Below a power of two the neighbour is half as far. -/
def quarters (mantissa : Nat) (exponent : Int) : Nat × Nat × Nat :=
  let low := if mantissa = fullMantissa ∧ leastExponent < exponent then 1 else 2
  (4 * mantissa - low, 4 * mantissa, 4 * mantissa + 2)

/-- The decimal with the given count of digits that reads back as the number and is nearest to
it, if there is one. -/
def withDigits? (mantissa : Nat) (exponent : Int) (count : Nat) : Option Decimal :=
  let (low, exact, high) := quarters mantissa exponent
  let ratio (n : Nat) : Nat × Nat := inUnits n 4 (-exponent)
  let tens := firstPower (ratio exact).1 (ratio exact).2 + 1 - count
  let (n, d) := inTens (ratio exact).1 (ratio exact).2 tens
  let (l, _) := inTens (ratio low).1 (ratio low).2 tens
  let (h, _) := inTens (ratio high).1 (ratio high).2 tens
  let inside (k : Nat) : Bool :=
    -- A half goes to the even mantissa, which then has its bounds too.
    if mantissa % 2 = 0 then l ≤ k * d && k * d ≤ h else l < k * d && k * d < h
  let below := n / d
  if inside below && inside (below + 1) then
    some ⟨divEven n d, tens⟩
  else if inside below then some ⟨below, tens⟩
  else if inside (below + 1) then some ⟨below + 1, tens⟩
  else none

/-- The shortest decimal of a finite number that is not zero. Seventeen digits always do. -/
def shortest (mantissa : Nat) (exponent : Int) : Decimal :=
  ((List.range 17).findSome? (fun i => withDigits? mantissa exponent (i + 1))).getD ⟨0, 0⟩

/-! ## Text -/

/-- The digits of a decimal without zeros at the end. -/
def significant (d : Decimal) : Text :=
  ((Text.decimal d.digits).reverse.dropWhile (· = .char '0')).reverse

/-- The text of a decimal: with a point, or with an exponent where the first digit is worth less
than 10^−4 or more than 10^15. -/
def Decimal.text (d : Decimal) : Text :=
  let digits := significant d
  let zeros (count : Nat) : Text := List.replicate count '0'
  -- How many digits stand before the point; below zero, how many zeros follow it.
  let point : Int := digitCount d.digits + d.tens
  if -4 < point ∧ point ≤ 0 then "0." ++ zeros point.natAbs ++ digits
  else if 0 < point ∧ point ≤ 16 then
    let whole := point.natAbs
    if digits.length ≤ whole then digits ++ zeros (whole - digits.length) ++ ".0"
    else digits.take whole ++ "." ++ digits.drop whole
  else
    let exponent := point - 1
    let power := Text.decimal exponent.natAbs
    let decimals : Text := if digits.length = 1 then [] else '.' :: digits.drop 1
    let mark : Text := if exponent < 0 then "e-" else "e+"
    let power : Text := if power.length = 1 then '0' :: power else power
    digits.take 1 ++ decimals ++ mark ++ power

/-- The text of a number, the shortest that reads back. -/
def text : Binary64 → Text
  | .nan => "nan"
  | .infinite negative => if negative then "-inf" else "inf"
  | .finite negative mantissa exponent =>
    let size : Text := if mantissa = 0 then "0.0" else (shortest mantissa exponent).text
    if negative then '-' :: size else size

end UtilityCss.Binary64
