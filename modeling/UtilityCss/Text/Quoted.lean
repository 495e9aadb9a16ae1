import UtilityCss.Text.Hex
import UtilityCss.Text.Printable
/-
  The quoted form of a text, in which messages show it.

  The quotation marks are single ones, unless the text holds a single mark
  and no double one. The mark in use, the backslash, and the ends of lines
  and columns are written with a backslash; any other character that cannot
  be shown is written by its code point, with two, four or eight hexadecimal
  digits.
-/

namespace UtilityCss.Text

def quoteFor (t : Text) : CodePoint := if t.contains '\'' && !t.contains '"' then '"' else '\''

/-- The code point of a character with as many digits as it needs. -/
def escapedCodePoint (c : CodePoint) : Text :=
  let n := c.toNat
  if n < 0x100 then "\\x" ++ hexFixed 2 n
  else if n < 0x10000 then "\\u" ++ hexFixed 4 n
  else "\\U" ++ hexFixed 8 n

/-- A character as it stands between quotation marks. -/
def quotedChar (mark c : CodePoint) : Text :=
  if c = mark ∨ c = '\\' then ['\\', c]
  else if c = '\n' then "\\n"
  else if c = '\r' then "\\r"
  else if c = '\t' then "\\t"
  else if isPrintable c then [c]
  else escapedCodePoint c

/-- The quoted form of a text. -/
def quoted (t : Text) : Text :=
  let mark := quoteFor t
  mark :: t.flatMap (quotedChar mark) ++ [mark]

end UtilityCss.Text
