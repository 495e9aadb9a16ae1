import UtilityCss.Border
import UtilityCss.ClassList
/-
  Conversion: from a style to a list of classes.

  The declarations of the style become classes, the variants are put before
  them, and where a list of classes is given the result is merged into it.
  Without such a list the result stays as it is, repetitions included.

  What is proved:
    1. `merged_of_no_existing` : without a list to merge into, the merged
       classes are the varied ones.
    2. `varied_congr`, `merged_congr` : conversions with the same classes go on
       alike.
-/

namespace UtilityCss

/-- What is converted: a style, the variants to put before its classes, and the classes to merge
them into. -/
structure Conversion where
  style : Text
  variants : Text := []
  existing : Text := []
  deriving DecidableEq, Repr

namespace Conversion

def declarations (lookup : Lookup) (c : Conversion) : Declarations :=
  Declarations.ofStyle lookup c.style

def classes (lookup : Lookup) (c : Conversion) : List Text := utilities (c.declarations lookup)

/-- The classes with the variants before them. -/
def varied (lookup : Lookup) (c : Conversion) : List Text :=
  applyVariants (c.classes lookup) c.variants

/-- The classes that are there before. -/
def existingClasses (c : Conversion) : List Text := ClassList.ofText c.existing

/-- The classes merged into those that are there. -/
def merged (lookup : Lookup) (c : Conversion) : List Text :=
  if c.existingClasses = [] then c.varied lookup
  else ClassList.merge c.existingClasses (c.varied lookup)

/-- The classes that merging drops, each with the class that it duplicates. -/
def dropped (lookup : Lookup) (c : Conversion) : List (Text × Text) :=
  if c.existingClasses = [] then []
  else (ClassList.mergeFates c.existingClasses (c.varied lookup)).filterMap ClassList.Fate.duplicate?

def output (lookup : Lookup) (c : Conversion) : Text := ClassList.render (c.merged lookup)

/-- The outputs of conversions each of which merges into the output of the one before. -/
def chain (existing : Text) : List (Lookup × Text × Text) → List Text
  | [] => []
  | (lookup, style, variants) :: rest =>
    let out := output lookup ⟨style, variants, existing⟩
    out :: chain out rest

/-! ## Small laws -/

/-- Without a list to merge into, the merged classes are the varied ones. -/
theorem merged_of_no_existing (lookup : Lookup) {c : Conversion} (h : c.existingClasses = []) :
    c.merged lookup = c.varied lookup := by simp [merged, h]

section

variable {c c' : Conversion} {lookup lookup' : Lookup}

theorem varied_congr (hclasses : c'.classes lookup' = c.classes lookup)
    (hvariants : c'.variants = c.variants) : c'.varied lookup' = c.varied lookup := by
  rw [varied, varied, hclasses, hvariants]

theorem merged_congr (hvaried : c'.varied lookup' = c.varied lookup)
    (hexisting : c'.existing = c.existing) : c'.merged lookup' = c.merged lookup := by
  have hclasses : c'.existingClasses = c.existingClasses := congrArg ClassList.ofText hexisting
  rw [merged, merged, hvaried, hclasses]

end

end Conversion

end UtilityCss
