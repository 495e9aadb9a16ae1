import UtilityCss.Binary64.Shortest
import UtilityCss.OrderedMap
import UtilityCss.Text.Quoted
/-
  JSON values, and their texts where a value stands for a text.

  An object has each name once: where a name is repeated, the first place and
  the last value are kept. Whole numbers are exact, all others are double
  numbers, with the three that are not finite among them.

  What is proved:
    1. `text?_eq_some_iff`, `members?_eq_some_iff` : which values are texts and
       which are objects.
-/

namespace UtilityCss

inductive Json where
  | null
  | bool (value : Bool)
  | whole (value : Int)
  | real (value : Binary64)
  | text (value : Text)
  | array (items : List Json)
  | object (members : List (Text × Json))
  deriving Repr, Inhabited

namespace Json

/-- The text that a value is, if it is one. -/
def text? : Json → Option Text
  | .text t => some t
  | _ => none

def members? : Json → Option (List (Text × Json))
  | .object members => some members
  | _ => none

/-- The member of a name, if the value is an object that has it. -/
def member? (name : Text) : Json → Option Json
  | .object members => Pairs.get? name members
  | _ => none

/-! ## A value as a text -/

/-- Whether a value is empty, zero, false or null. -/
def isEmpty : Json → Bool
  | .null => true
  | .bool value => !value
  | .whole value => value == 0
  | .real value => value.isZero
  | .text value => value.isEmpty
  | .array items => items.isEmpty
  | .object members => members.isEmpty

/-- The digits of a whole number, with its sign. -/
def wholeText (n : Int) : Text :=
  if n < 0 then '-' :: Text.decimal n.natAbs else Text.decimal n.natAbs

mutual

/-- A value as it is shown inside another: texts are quoted. -/
def shown : Json → Text
  | .null => "None"
  | .bool true => "True"
  | .bool false => "False"
  | .whole value => wholeText value
  | .real value => value.text
  | .text value => Text.quoted value
  | .array items => "[" ++ Text.joinWith ", " (shownItems items) ++ "]"
  | .object members => "\x7b" ++ Text.joinWith ", " (shownMembers members) ++ "\x7d"

def shownItems : List Json → List Text
  | [] => []
  | item :: rest => item.shown :: shownItems rest

def shownMembers : List (Text × Json) → List Text
  | [] => []
  | (name, value) :: rest => (Text.quoted name ++ ": " ++ value.shown) :: shownMembers rest

end

/-- A value that stands for a text: a text is itself, and nothing is the empty text. -/
def asText : Json → Text
  | .text value => value
  | value => if value.isEmpty then [] else value.shown

/-! ## Small laws -/

theorem text?_eq_some_iff {value : Json} {t : Text} : value.text? = some t ↔ value = .text t := by
  cases value <;> simp [text?]

theorem members?_eq_some_iff {value : Json} {members : List (Text × Json)} :
    value.members? = some members ↔ value = .object members := by
  cases value <;> simp [members?]

end Json

end UtilityCss
