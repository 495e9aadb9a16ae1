import UtilityCss.OrderedMap
import UtilityCss.Text.Blank
/-
  The scales of the utility classes: which values of a property have a name
  of their own, and what that name is.

  A scale is a finite table from the text of a value to the end of a class
  name. A value that its scale does not name is written out in brackets by
  the rules of `Utility`.

  What is proved:
    1. `mem_of_name?`, `not_mem_of_name?` : a name is found exactly in a row
       of the scale.
-/

namespace UtilityCss

/-- A finite table from the text of a value to a name. -/
abbrev Scale := List (Text × Text)

namespace Scale

def ofRows (rows : List (String × String)) : Scale := rows.map (fun r => (Text.of r.1, Text.of r.2))

/-- The name of a value, if the scale has one. -/
def name? (scale : Scale) (value : Text) : Option Text := Pairs.get? value scale

/-- Font sizes in pixels. -/
def fontSize : Scale := ofRows
  [("12", "xs"), ("14", "sm"), ("16", "base"), ("18", "lg"), ("20", "xl"), ("24", "2xl"),
    ("30", "3xl"), ("36", "4xl"), ("48", "5xl"), ("60", "6xl"), ("72", "7xl"), ("96", "8xl"),
    ("128", "9xl")]

def fontWeight : Scale := ofRows
  [("100", "thin"), ("200", "extralight"), ("300", "light"), ("400", "normal"), ("500", "medium"),
    ("600", "semibold"), ("700", "bold"), ("800", "extrabold"), ("900", "black")]

/-- Line heights as multiples of the font size. -/
def lineHeight : Scale := ofRows
  [("1", "none"), ("1.25", "tight"), ("1.5", "snug"), ("1.75", "normal"), ("2", "relaxed"),
    ("2.25", "loose")]

def letterSpacing : Scale := ofRows
  [("-0.05em", "tighter"), ("-0.025em", "tight"), ("0em", "normal"), ("0.025em", "wide"),
    ("0.05em", "wider"), ("0.1em", "widest")]

/-- Lines of text decoration, with the whole class. -/
def decorationLine : Scale := ofRows
  [("underline", "underline"), ("overline", "overline"), ("line-through", "line-through"),
    ("none", "no-underline")]

/-- Thicknesses of text decoration, with the whole class. -/
def decorationThickness : Scale := ofRows
  [("0", "decoration-0"), ("0px", "decoration-0"), ("1px", "decoration-1"), ("thin", "decoration-1"),
    ("2px", "decoration-2"), ("medium", "decoration-2"), ("4px", "decoration-4"),
    ("thick", "decoration-4"), ("8px", "decoration-8"), ("from-font", "decoration-from-font")]

/-- Font styles, with the whole class. -/
def fontStyle : Scale := ofRows [("italic", "italic"), ("normal", "not-italic")]

end Scale

/-! ## Sets of values -/

/-- The alignments of text that have a class. -/
def alignments : List Text := ["left", "center", "right", "justify", "start", "end"].map Text.of

/-- The styles of text decoration that have a class. -/
def decorationStyles : List Text := ["double", "dotted", "dashed", "wavy"].map Text.of

/-- The radii of the bare class for rounded corners. -/
def defaultRadii : List Text := ["4px", "0.25rem"].map Text.of

/-- The widths of the bare class for a border. -/
def defaultBorderWidths : List Text := ["1px", "0.0625rem"].map Text.of

/-- The widths of a border that is not drawn. -/
def zeroBorderWidths : List Text := ["0", "0px"].map Text.of

/-! ## Small laws -/

namespace Scale

theorem mem_of_name? {scale : Scale} {value name : Text} (h : scale.name? value = some name) :
    (value, name) ∈ scale := by
  induction scale with
  | nil => cases h
  | cons row rest ih =>
    obtain ⟨k, n⟩ := row
    by_cases hk : k = value
    · subst hk
      have hn : n = name := by simpa [name?, Pairs.get?] using h
      rw [hn]
      exact List.mem_cons_self
    · refine List.mem_cons_of_mem _ (ih ?_)
      simpa [name?, Pairs.get?, hk] using h

theorem not_mem_of_name? {scale : Scale} {value : Text} (h : scale.name? value = none) :
    value ∉ scale.map Prod.fst := by
  induction scale with
  | nil => simp
  | cons row rest ih =>
    obtain ⟨k, n⟩ := row
    by_cases hk : k = value
    · simp [name?, Pairs.get?, hk] at h
    · have hrest : name? rest value = none := by simpa [name?, Pairs.get?, hk] using h
      have hmem := ih hrest
      simp only [List.map_cons, List.mem_cons, not_or]
      exact ⟨fun e => hk e.symm, hmem⟩

end Scale

end UtilityCss
