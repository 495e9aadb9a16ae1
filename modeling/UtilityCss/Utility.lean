import UtilityCss.Declaration
import UtilityCss.Scale
import UtilityCss.Text.Numeral
/-
  The utility classes that express a declaration.

  Each property has a rule: what it makes of the text of a value, and what it
  makes of a dictionary entry that is the whole value. An entry is a class as
  it stands, but for font families. A value without text gives no class. The
  borders have rules of their own (`Border`).

  What is proved:
    1. `withoutPixels_cases`, `withoutPixels_subset` : what a unit left out
       leaves of a text.
-/

namespace UtilityCss

/-- A class with its value in brackets. -/
def bracketed (stem value : Text) : Text := stem ++ "-[" ++ value ++ "]"

/-- A class that names the property itself. -/
def arbitrary (property value : Text) : Text := "[" ++ property ++ ":" ++ value ++ "]"

/-- How a property becomes classes. -/
structure Rule where
  property : Text
  ofText : Text → List Text
  ofEntry : Text → List Text := fun entry => [entry]

namespace Rule

/-- The classes a rule gives for a value. -/
def classes (rule : Rule) (value : Value) : List Text :=
  if value.text = [] then []
  else match value.entry? with
    | some entry => rule.ofEntry entry
    | none => rule.ofText value.text

/-- The classes a rule gives for the value of its property, if that is declared. -/
def ofDeclarations (declarations : Declarations) (rule : Rule) : List Text :=
  match declarations.get? rule.property with
  | some value => rule.classes value
  | none => []

/-- The rule that puts every value in brackets. -/
def passing (property stem : String) : Rule where
  property := Text.of property
  ofText t := [bracketed (Text.of stem) t]

/-- The rule that names the values of a scale and puts every other one in brackets. -/
def scaled (property stem : String) (scale : Scale) : Rule where
  property := Text.of property
  ofText t :=
    match scale.name? t with
    | some name => [Text.of stem ++ "-" ++ name]
    | none => [bracketed (Text.of stem) t]

/-! ## Text -/

def textAlign : Rule where
  property := "text-align"
  ofText t := if t ∈ alignments then ["text-" ++ t] else [arbitrary "text-align" t]

def decorationLine : Rule where
  property := "text-decoration-line"
  ofText t := [(Scale.decorationLine.name? t).getD (bracketed "decoration" t)]

/-- The style of a text decoration; `solid` is what is drawn without a class. -/
def decorationStyle : Rule where
  property := "text-decoration-style"
  ofText t :=
    if t = "solid" then []
    else if t ∈ decorationStyles then ["decoration-" ++ t]
    else [bracketed "decoration" t]

/-- Whether a text decoration leaves out descenders. -/
def decorationSkipInk : Rule where
  property := "text-decoration-skip-ink"
  ofText t :=
    if t = "auto" then ["decoration-skip-ink"]
    else if t = "none" then ["decoration-skip-ink-none"]
    else [bracketed "decoration-skip-ink" t]

/-- The thickness of a text decoration; `auto` is what is drawn without a class. -/
def decorationThickness : Rule where
  property := "text-decoration-thickness"
  ofText t :=
    if t = "auto" then []
    else [(Scale.decorationThickness.name? t).getD (arbitrary "text-decoration-thickness" t)]

/-- How far an underline is from its text. -/
def underlineOffset : Rule where
  property := "text-underline-offset"
  ofText t := if t = "auto" then [] else [bracketed "underline-offset" t]

/-- Where an underline is placed. -/
def underlinePosition : Rule where
  property := "text-underline-position"
  ofText t :=
    if t = "auto" ∨ t = "from-font" then []
    else [arbitrary "text-underline-position" t]

/-! ## Font -/

/-- The text without the unit `px` at its end. -/
def withoutPixels (t : Text) : Text :=
  if (Text.of "px").isSuffixOf t then t.dropLast.dropLast else t

/-- The size of a font. A number without a unit counts pixels. -/
def fontSize : Rule where
  property := "font-size"
  ofText t :=
    let size := withoutPixels t
    match Scale.fontSize.name? size with
    | some name => ["text-" ++ name]
    | none =>
      if Text.isNumber size then ["text-[" ++ size ++ "px]"]
      else [bracketed "text" t]

/-- The family of a font. An entry may be the end of the class or all of it. -/
def fontFamily : Rule where
  property := "font-family"
  ofText t := [bracketed "font" t]
  ofEntry e := if (Text.of "font-").isPrefixOf e then [e] else ["font-" ++ e]

def fontStyle : Rule where
  property := "font-style"
  ofText t := [(Scale.fontStyle.name? t).getD (bracketed "font" t)]

/-! ## Boxes -/

def borderRadius : Rule where
  property := "border-radius"
  ofText t := if t ∈ defaultRadii then ["rounded"] else [bracketed "rounded" t]

/-- The rules for text, in the order of their classes. -/
def forText : List Rule :=
  [passing "color" "text", textAlign, decorationLine, decorationStyle, decorationSkipInk,
    decorationThickness, underlineOffset, underlinePosition]

/-- The rules for fonts, in the order of their classes. -/
def forFont : List Rule :=
  [fontSize, scaled "font-weight" "font" Scale.fontWeight, scaled "line-height" "leading" Scale.lineHeight,
    scaled "letter-spacing" "tracking" Scale.letterSpacing, fontFamily, fontStyle]

/-- The rules for spacing, size and corners, in the order of their classes. -/
def forBox : List Rule :=
  [passing "margin" "m", passing "margin-top" "mt", passing "margin-bottom" "mb",
    passing "margin-left" "ml", passing "margin-right" "mr", passing "padding" "p",
    passing "padding-top" "pt", passing "padding-bottom" "pb", passing "padding-left" "pl",
    passing "padding-right" "pr", passing "width" "w", passing "height" "h", borderRadius]

/-- The rules for what lies behind and around a box, in the order of their classes. -/
def forSurface : List Rule :=
  [passing "background-color" "bg", passing "opacity" "opacity", passing "box-shadow" "shadow"]

/-! ## Small laws -/

theorem withoutPixels_cases (t : Text) :
    t = withoutPixels t ∨ t = withoutPixels t ++ Text.of "px" := by
  unfold withoutPixels
  split
  · next hsuffix =>
    obtain ⟨size, rfl⟩ := List.isSuffixOf_iff_suffix.1 hsuffix
    have hpixels : Text.of "px" = [.char 'p', .char 'x'] := rfl
    simp [hpixels]
  · exact Or.inl rfl

theorem withoutPixels_subset (t : Text) : withoutPixels t ⊆ t := by
  rcases withoutPixels_cases t with h | h
  · rw [← h]
    exact List.Subset.refl t
  · intro c hc
    rw [h]
    exact List.mem_append_left _ hc

end Rule

end UtilityCss
