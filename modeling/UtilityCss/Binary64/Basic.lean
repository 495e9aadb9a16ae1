/-
  Numbers with a binary mantissa of 53 bits, as the double format holds them,
  and the nearest of them to a decimal.

  A finite number is m · 2^q with m below 2^53 and q no less than −1074; all
  arithmetic here is on whole numbers, so nothing is lost on the way. A value
  half way between two neighbours goes to the one with the even mantissa.
-/

namespace UtilityCss

/-- A number of the double format. A finite one is `mantissa · 2^exponent`. -/
inductive Binary64 where
  | nan
  | infinite (negative : Bool)
  | finite (negative : Bool) (mantissa : Nat) (exponent : Int)
  deriving DecidableEq, Repr

namespace Binary64

def leastExponent : Int := -1074

def greatestExponent : Int := 971

/-- What every mantissa is below. -/
def mantissaBound : Nat := Nat.pow 2 53

/-- The least mantissa of a number that is not too small for 53 bits. -/
def fullMantissa : Nat := Nat.pow 2 52

/-- The whole number next to a quotient; of two that are equally near, the even one. -/
def divEven (num den : Nat) : Nat :=
  let quotient := num / den
  let rest := num % den
  if 2 * rest < den then quotient
  else if den < 2 * rest then quotient + 1
  else quotient + quotient % 2

/-- The ratio `num / den` in units of `2^exponent`, as a ratio again. -/
def inUnits (num den : Nat) (exponent : Int) : Nat × Nat :=
  if exponent < 0 then (num * Nat.pow 2 exponent.natAbs, den)
  else (num, den * Nat.pow 2 exponent.natAbs)

/-- The exponent for a ratio: its quotient in that unit has 53 bits, or fewer at the least
exponent. -/
def exponentFor (num den : Nat) : Int :=
  let guess : Int := (Nat.log2 num : Int) - Nat.log2 den - 53
  let first := if guess < leastExponent then leastExponent else guess
  let (n, d) := inUnits num den first
  if n / d < mantissaBound then first else first + 1

/-- The nearest number to a ratio, with a sign. -/
def ofRatio (negative : Bool) (num den : Nat) : Binary64 :=
  let exponent := exponentFor num den
  let (n, d) := inUnits num den exponent
  let mantissa := divEven n d
  let (mantissa, exponent) :=
    if mantissa = mantissaBound then (fullMantissa, exponent + 1) else (mantissa, exponent)
  if greatestExponent < exponent then .infinite negative else .finite negative mantissa exponent

def digitCount (n : Nat) : Nat := (Nat.toDigits 10 n).length

/-- The nearest number to `digits · 10^tens`, with a sign. Decimals far outside the range are
answered without computing the power of ten. -/
def ofDecimal (negative : Bool) (digits : Nat) (tens : Int) : Binary64 :=
  let magnitude : Int := digitCount digits + tens
  if digits = 0 ∨ magnitude < -400 then .finite negative 0 leastExponent
  else if 400 < magnitude then .infinite negative
  else if tens < 0 then ofRatio negative digits (Nat.pow 10 tens.natAbs)
  else ofRatio negative (digits * Nat.pow 10 tens.natAbs) 1

def isZero : Binary64 → Bool
  | .finite _ mantissa _ => mantissa == 0
  | _ => false

end Binary64

end UtilityCss
