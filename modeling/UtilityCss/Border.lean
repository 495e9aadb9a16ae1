import UtilityCss.Utility
/-
  The utility classes that express borders, and with them all classes of a
  style.

  The value of a border is cut into tokens: a width, then a style, then a
  colour of one token or more. There is one class of border style for all
  sides, so a style that an earlier side has named is not named again. A
  value that is blank throughout gives no class.
-/

namespace UtilityCss

/-- A border property: all sides or one, and the class it is named by. -/
structure BorderSide where
  property : Text
  stem : Text
  deriving DecidableEq, Repr

namespace BorderSide

/-- The border properties in the order of their classes. -/
def all : List BorderSide :=
  [⟨"border", "border"⟩, ⟨"border-top", "border-t"⟩,
    ⟨"border-bottom", "border-b"⟩, ⟨"border-left", "border-l"⟩,
    ⟨"border-right", "border-r"⟩]

/-- The class for a part of a border: a dictionary entry as it stands, or the text in brackets. -/
def classOf (side : BorderSide) (part : Value) : Text :=
  part.entry?.getD (bracketed side.stem part.text)

def widthClasses (side : BorderSide) (width : Value) : List Text :=
  if width.text ∈ zeroBorderWidths then []
  else if width.text ∈ defaultBorderWidths then [side.stem]
  else [side.classOf width]

/-- The style a border has, if it is one to be drawn. -/
def style? : List Value → Option Text
  | _ :: style :: _ => if style.text = "none" then none else some style.text
  | _ => none

/-- The classes for the style of a border, given the styles that are named already. -/
def styleClasses (named : List Text) : Option Text → List Text
  | some style => if style ∈ named then [] else ["border-" ++ style]
  | none => []

/-- The colour of a border: its one token, or the text of several with single spaces. -/
def color? : List Value → Option Value
  | [] => none
  | [part] => some part
  | parts => some (Value.ofLiteral (Text.joinWith [' '] (parts.map Value.text)))

/-- The classes for the colour of a border. A transparent one needs none. -/
def colorClasses (side : BorderSide) : Option Value → List Text
  | some color => if color.text = "transparent" then [] else [side.classOf color]
  | none => []

/-- The tokens of the value of a border, if it is declared and not blank. -/
def parts (declarations : Declarations) (side : BorderSide) : List Value :=
  match declarations.get? side.property with
  | some value => if Text.trim value.text = [] then [] else value.tokens
  | none => []

/-- The classes for the tokens of a border, given the styles that are named already. -/
def classes (named : List Text) (side : BorderSide) : List Value → List Text
  | [] => []
  | width :: rest =>
    -- A width that is not drawn leaves the classes of style and colour as they are.
    side.widthClasses width ++ styleClasses named (style? (width :: rest)) ++
      side.colorClasses (color? (rest.drop 1))

/-- The classes for several borders in order, given the styles that are named already. -/
def classesFrom (declarations : Declarations) (named : List Text) : List BorderSide → List Text
  | [] => []
  | side :: rest =>
    let parts := side.parts declarations
    -- A style counts as named from the next side on.
    side.classes named parts ++ classesFrom declarations (named ++ (style? parts).toList) rest

end BorderSide

/-- The utility classes that express declarations: text, fonts, boxes, borders, and what lies
behind and around. Properties without a rule are passed over. -/
def utilities (declarations : Declarations) : List Text :=
  Rule.forText.flatMap (Rule.ofDeclarations declarations) ++
    Rule.forFont.flatMap (Rule.ofDeclarations declarations) ++
    Rule.forBox.flatMap (Rule.ofDeclarations declarations) ++
    BorderSide.classesFrom declarations [] BorderSide.all ++
    Rule.forSurface.flatMap (Rule.ofDeclarations declarations)

end UtilityCss
