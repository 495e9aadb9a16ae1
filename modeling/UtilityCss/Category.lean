import UtilityCss.Text.Blank
/-
  Categories: the property that a class governs, as far as merging goes.

  A class of no category (`none`) governs nothing that another class could
  govern too. The four sides of a margin or a border share one category, and
  so do all properties of text decoration.
-/

namespace UtilityCss

/-- The property that a class governs. -/
inductive Category where
  | fontSize
  | fontWeight
  | fontStyle
  | lineHeight
  | letterSpacing
  | textDecoration
  | color
  | backgroundColor
  | border
  | borderRadius
  | width
  | height
  | opacity
  | boxShadow
  | spacing
  | none
  deriving DecidableEq, Repr, Inhabited

namespace Category

/-- The name of a category, which is that of its property where it has only one. -/
def name : Category → Text
  | fontSize => "font-size"
  | fontWeight => "font-weight"
  | fontStyle => "font-style"
  | lineHeight => "line-height"
  | letterSpacing => "letter-spacing"
  | textDecoration => "text-decoration"
  | color => "color"
  | backgroundColor => "background-color"
  | border => "border"
  | borderRadius => "border-radius"
  | width => "width"
  | height => "height"
  | opacity => "opacity"
  | boxShadow => "box-shadow"
  | spacing => "spacing"
  | none => "none"

end Category

end UtilityCss
