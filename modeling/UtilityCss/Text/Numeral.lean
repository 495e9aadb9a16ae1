import UtilityCss.Text.Cut
import UtilityCss.Text.Digit
/-
  Texts that have the form of a number or of a length.

  A number is a minus sign that may be missing, then digits with at most one
  point among or before them; a point has a digit after it. A length is a
  number and a unit that may be missing. A single line feed at the end does
  not count against any of the forms.

  What is proved:
    1. `isWhole_iff` : a whole number is one digit or more and nothing else.
-/

namespace UtilityCss.Text

/-- The text without one line feed at its end. -/
def withoutFinalFeed (t : Text) : Text := if t.getLast? = some (.char '\n') then t.dropLast else t

/-- The text without a minus sign at its start. -/
def withoutMinus : Text → Text
  | [] => []
  | c :: rest => if c = '-' then rest else c :: rest

/-- What follows the number that a text starts with, if it starts with one. -/
def afterNumber? (t : Text) : Option Text :=
  let body := withoutMinus t
  match body.dropWhile isDigit with
  | '.' :: decimals =>
    if (decimals.takeWhile isDigit).isEmpty then none else some (decimals.dropWhile isDigit)
  | rest => if (body.takeWhile isDigit).isEmpty then none else some rest

def isNumber (t : Text) : Bool := afterNumber? (withoutFinalFeed t) == some []

def units : List Text :=
  ["px", "rem", "em", "%", "pt", "pc", "vh", "vw", "vmin", "vmax", "ch", "ex", "lh", "cm", "mm",
    "in"].map Text.of

def isLength (t : Text) : Bool :=
  match afterNumber? (withoutFinalFeed t) with
  | some rest => rest.isEmpty || units.contains rest
  | none => false

/-- Whether a text is made of digits alone. -/
def isWhole (t : Text) : Bool :=
  let body := withoutFinalFeed t
  !body.isEmpty && body.all isDigit

/-! ## Small laws -/

/-- A whole number without a final line feed is one digit or more and nothing else. -/
theorem isWhole_iff {t : Text} (h : CodePoint.char '\n' ∉ t) :
    isWhole t = true ↔ t ≠ [] ∧ ∀ c ∈ t, isDigit c = true := by
  have : t.getLast? ≠ some (.char '\n') := fun e => h (List.mem_of_getLast? e)
  simp [isWhole, withoutFinalFeed, this]

end UtilityCss.Text
