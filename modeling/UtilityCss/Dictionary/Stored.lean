import UtilityCss.Json.Reader
import UtilityCss.Json.Writer
/-
  The text under which a dictionary is stored: one JSON object of texts.

  A text that is not the object of texts alone holds no dictionary at all; no
  part of it is taken. A text that nests too deep cannot be told to be either.
-/

namespace UtilityCss

/-- The entries of a dictionary: each variable's name with its utility class. -/
abbrev Entries := OrderedMap Text Text

namespace Entries

def stored (entries : Entries) : Text := (Json.ofTexts entries.entries).write .spaced

/-- The members of an object whose values are all texts. -/
def ofMembers? : List (Text × Json) → Option (List (Text × Text))
  | [] => some []
  | (name, value) :: rest =>
    match value.text?, ofMembers? rest with
    | some text, some pairs => some ((name, text) :: pairs)
    | _, _ => none

/-- The entries that a stored text holds, if it holds a dictionary. -/
def ofStored? [Json.Limit] (t : Text) : Except Json.Container (Option Entries) :=
  match Json.read? t with
  | .error container => .error container
  | .ok value => .ok ((value.bind Json.members?).bind ofMembers? |>.map OrderedMap.ofPairs)

end Entries

end UtilityCss
