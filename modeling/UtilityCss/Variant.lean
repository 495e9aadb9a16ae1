import UtilityCss.Text.Blank
/-
  Variants: the parts before a class that say when it applies.

  A class such as `md:hover:text-sm` has the variants `md` and `hover` and
  the utility `text-sm`. A colon inside brackets belongs to an arbitrary
  value and parts nothing; a closing bracket without an opening one is plain
  text.

  What is proved:
    1. `join_split` : the variants and the utility joined with colons are the
       class.
    2. `utilityOf_of_not_hasVariant` : a class without a variant is its own
       utility.
-/

namespace UtilityCss

/-- A class taken apart: its variants in order and its utility. -/
structure Variants where
  variants : List Text
  utility : Text
  deriving DecidableEq, Repr

namespace Variants

/-- The depth of brackets after a character, never below zero. -/
def depthAfter (depth : Nat) (c : CodePoint) : Nat :=
  if c = '[' then depth + 1 else if c = ']' then depth - 1 else depth

/-- A class taken apart, given the depth of brackets and the reversed characters of a piece
already begun. -/
def splitFrom (depth : Nat) (piece : Text) : Text → Variants
  | [] => ⟨[], piece.reverse⟩
  | c :: rest =>
    if c = ':' ∧ depth = 0 then
      let inner := splitFrom 0 [] rest
      ⟨piece.reverse :: inner.variants, inner.utility⟩
    else splitFrom (depthAfter depth c) (c :: piece) rest

/-- A class taken apart at the colons outside brackets. -/
def split (cls : Text) : Variants := splitFrom 0 [] cls

end Variants

/-- The class without its variants. -/
def utilityOf (cls : Text) : Text := (Variants.split cls).utility

def hasVariant (cls : Text) : Bool := !(Variants.split cls).variants.isEmpty

/-! ## Putting variants before classes -/

/-- A variant with exactly one colon at its end. -/
def withColon (variant : Text) : Text :=
  (variant.reverse.dropWhile (· = .char ':')).reverse ++ [.char ':']

/-- The variants of a text, each with exactly one colon at its end. -/
def variantsOf (text : Text) : List Text := (Text.words text).map withColon

/-- Every class with every variant before it, all variants of a class together. Without
variants the classes stay as they are. -/
def applyVariants (classes : List Text) (text : Text) : List Text :=
  match variantsOf text with
  | [] => classes
  | variants => classes.flatMap (fun cls => variants.map (· ++ cls))

/-! ## Small laws -/

namespace Variants

theorem join_splitFrom (cls : Text) : ∀ depth piece,
    Text.joinWith [':'] ((splitFrom depth piece cls).variants ++ [(splitFrom depth piece cls).utility])
      = piece.reverse ++ cls := by
  induction cls with
  | nil => simp [splitFrom, Text.joinWith]
  | cons c rest ih =>
    intro depth piece
    by_cases h : c = ':' ∧ depth = 0
    · simp only [splitFrom, h, and_self, if_true]
      have tail := ih 0 []
      -- Joining one piece puts no colon, so whether there are more pieces makes a difference.
      cases hv : (splitFrom 0 [] rest).variants with
      | nil =>
        rw [hv] at tail
        simp only [List.nil_append, Text.joinWith, List.reverse_nil] at tail
        simp [Text.joinWith, tail]
      | cons v vs =>
        rw [hv] at tail
        simp only [List.cons_append, List.reverse_nil, List.nil_append] at tail ⊢
        rw [Text.joinWith, tail]
        · simp
        · simp
    · simp [splitFrom, h, ih]

/-- The variants and the utility joined with colons are the class. -/
theorem join_split (cls : Text) :
    Text.joinWith [':'] ((split cls).variants ++ [(split cls).utility]) = cls :=
  join_splitFrom cls 0 []

end Variants

/-- A class without a variant is its own utility. -/
theorem utilityOf_of_not_hasVariant {cls : Text} (h : hasVariant cls = false) :
    utilityOf cls = cls := by
  have hnil : (Variants.split cls).variants = [] := by simpa [hasVariant] using h
  have hjoin := Variants.join_split cls
  rw [hnil] at hjoin
  simpa [Text.joinWith, utilityOf] using hjoin

end UtilityCss
