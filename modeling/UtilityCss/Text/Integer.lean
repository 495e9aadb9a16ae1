import UtilityCss.Text.Digit
/-
  Texts that are whole numbers, as they are given to an option.

  A sign may stand before the digits, single underscores may stand between
  them, and blanks may stand around all of it. The digits may be of any
  script. There is a greatest count of digits.
-/

namespace UtilityCss.Text

/-- Whether a character may stand around a number: blank, but no separator of ASCII. -/
def isPadding (c : CodePoint) : Bool := isBlank c && !(28 ≤ c.toNat && c.toNat ≤ 31)

/-- The digits of a number, most significant first; between two there may be one underscore. -/
def digitsOf? : Text → Option (List Nat)
  | [] => none
  | c :: rest =>
    match digitValue? c with
    | none => none
    | some d =>
      match rest with
      | [] => some [d]
      | '_' :: more => (digitsOf? more).map (d :: ·)
      | rest => (digitsOf? rest).map (d :: ·)

/-- The greatest count of digits. -/
def greatestCount : Nat := 4300

/-- The whole number that a text is. -/
def integer? (t : Text) : Option Int :=
  let body := ((t.dropWhile isPadding).reverse.dropWhile isPadding).reverse
  let (negative, digits) :=
    match body with
    | '-' :: digits => (true, digits)
    | '+' :: digits => (false, digits)
    | digits => (false, digits)
  match digitsOf? digits with
  | none => none
  | some ds =>
    if greatestCount < ds.length then none
    else
      let n : Nat := ds.foldl (fun n d => n * 10 + d) 0
      some (if negative then -(n : Int) else n)

end UtilityCss.Text
