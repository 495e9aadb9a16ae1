import UtilityCss.Category
import UtilityCss.Text.Numeral
import UtilityCss.Variant
/-
  Which property a utility class governs.

  A class is judged by its utility alone: without variants, without the marks
  `!` for importance, and without one minus sign. The judgement is a row of
  tests on the form of the name, each with the category of what passes it. The
  tests of a row exclude one another, so their order is of no matter.
-/

namespace UtilityCss

/-- A test on a text, and the category of a text that passes it. -/
structure Test where
  passes : Text → Bool
  category : Text → Category

/-- The category that the first test passed gives, or else a default. -/
def firstPassed (default : Category) (tests : List Test) (t : Text) : Category :=
  match tests.find? (fun test => test.passes t) with
  | some test => test.category t
  | none => default

namespace Test

def isWord (words : List String) (t : Text) : Bool := (words.map Text.of).contains t

def starts (start : String) (t : Text) : Bool := (Text.of start).isPrefixOf t

/-- The text after a start of the given length. -/
def after (start : String) (t : Text) : Text := t.drop (Text.of start).length

/-- The test for a start, with one category for all texts that have it. -/
def ofStart (start : String) (category : Category) : Test := ⟨starts start, fun _ => category⟩

/-- The test for words, with one category for all of them. -/
def ofWords (words : List String) (category : Category) : Test := ⟨isWord words, fun _ => category⟩

/-! ## Properties by name -/

/-- The properties with a category of their own. -/
def properties : List (Text × Category) :=
  [Category.fontSize, .fontWeight, .fontStyle, .lineHeight, .letterSpacing, .color,
    .backgroundColor, .width, .height, .opacity, .boxShadow].map (fun c => (c.name, c))

/-- The lower case of a character, as far as it can be met in the name of a property: of the
characters outside ASCII only the Kelvin sign has a lower case in ASCII. -/
def lowerChar (c : CodePoint) : CodePoint := if c = '\u212A' then 'k' else c.toLower

/-- The category of a property, whatever the case of its name and the blanks around it. -/
def categoryOfProperty (property : Text) : Category :=
  let name := (Text.trim property).map lowerChar
  match properties.find? (fun p => p.1 == name) with
  | some p => p.2
  | none =>
    if starts "text-decoration" name || starts "text-underline" name then .textDecoration
    else if starts "border" name then
      if (Text.of "radius").isSuffixOf name then .borderRadius else .border
    else if starts "margin" name || starts "padding" name then .spacing
    else .none

/-! ## Values in brackets -/

/-- What stands between the brackets of a text that is bracketed as a whole. -/
def bracketedInner? (t : Text) : Option Text :=
  if t.head? = some (.char '[') ∧ t.getLast? = some (.char ']') then some (t.drop 1).dropLast
  else none

/-- The tests on a bracketed value after `text-`. -/
def ofBracketedText : List Test :=
  [ofStart "length:" .fontSize, ofStart "color:" .color,
    ⟨fun t => Text.isLength t || starts "calc(" t || starts "clamp(" t || starts "min(" t ||
      starts "max(" t, fun _ => .fontSize⟩]

/-- The tests on what follows `text-`. -/
def ofText : List Test :=
  [ofWords ["xs", "sm", "base", "lg", "xl", "2xl", "3xl", "4xl", "5xl", "6xl", "7xl", "8xl", "9xl"]
      .fontSize,
    -- These set a text without a property of its own; any other word is a colour.
    ofWords ["left", "center", "right", "justify", "start", "end", "ellipsis", "clip", "wrap",
      "nowrap", "balance", "pretty"] .none,
    ⟨fun t => (bracketedInner? t).isSome,
      fun t => firstPassed .color ofBracketedText ((bracketedInner? t).getD [])⟩]

/-- The tests on a bracketed value after `font-`. -/
def ofBracketedFont : List Test :=
  [⟨Text.isWhole, fun _ => .fontWeight⟩,
    ⟨fun t => t == "italic" || starts "oblique" t, fun _ => .fontStyle⟩]

/-- The tests on what follows `font-`. -/
def ofFont : List Test :=
  [ofWords ["thin", "extralight", "light", "normal", "medium", "semibold", "bold", "extrabold", "black"]
      .fontWeight,
    ⟨fun t => (bracketedInner? t).isSome,
      fun t => firstPassed .none ofBracketedFont ((bracketedInner? t).getD [])⟩]

/-! ## Utilities -/

/-- The category of a property in brackets. Without a colon it is no property. -/
def categoryOfBracketed (t : Text) : Category :=
  match Text.breakAt? ':' ((bracketedInner? t).getD []) with
  | some (property, _) => categoryOfProperty property
  | none => .none

/-- The category of a border class. Three names that start like one belong to tables. -/
def categoryOfBorder (t : Text) : Category :=
  if isWord ["collapse", "separate", "spacing"] ((after "border-" t).takeWhile (· ≠ '-')) then .none
  else .border

/-- Whether a utility is a margin or a padding: its letter, a letter for a side, and a hyphen. -/
def isSpacing : Text → Bool
  | letter :: rest =>
    (letter == 'm' || letter == 'p') &&
      -- The hyphen stands after the first letter or after the second.
      match rest with
      | '-' :: _ => true
      | side :: '-' :: _ => (Text.of "trblxyse").contains side
      | _ => false
  | [] => false

/-- The test for a start, behind which a row of tests looks on. -/
def behind (start : String) (default : Category) (row : List Test) : Test where
  passes := starts start
  category t := firstPassed default row (after start t)

/-- The tests on a utility, with rows for what follows `text-` and `font-`. -/
def utilityTests (text font : List Test) : List Test :=
  [⟨fun t => (bracketedInner? t).isSome, categoryOfBracketed⟩,
    ofWords ["italic", "not-italic"] .fontStyle,
    ofWords ["underline", "overline", "line-through", "no-underline"] .textDecoration,
    ⟨fun t => isWord ["rounded"] t || starts "rounded-" t, fun _ => .borderRadius⟩,
    ofWords ["border"] .border,
    ⟨starts "border-", categoryOfBorder⟩,
    ⟨fun t => isWord ["shadow"] t || starts "shadow-" t, fun _ => .boxShadow⟩,
    ⟨fun t => starts "decoration-" t || starts "underline-offset-" t, fun _ => .textDecoration⟩,
    behind "text-" .color text,
    behind "font-" .none font,
    ofStart "leading-" .lineHeight,
    ofStart "tracking-" .letterSpacing,
    ofStart "bg-" .backgroundColor,
    ofStart "opacity-" .opacity,
    ofStart "w-" .width,
    ofStart "h-" .height,
    ⟨isSpacing, fun _ => .spacing⟩]

/-- The tests on a utility. -/
def ofUtility : List Test := utilityTests ofText ofFont

end Test

/-- The utility without the marks of importance before it and without one minus sign. -/
def bareUtility (utility : Text) : Text := Text.withoutMinus (utility.dropWhile (· = '!'))

def categoryOf (cls : Text) : Category := firstPassed .none Test.ofUtility (bareUtility (utilityOf cls))

end UtilityCss
