import UtilityCss.Conversion
import UtilityCss.Database
import UtilityCss.Text.Quoted
/-
  Notices: what the parts of the program report on the way.

  A notice is a warning or a detail. Each has a part that it comes from and a
  message; both are what a reader of the report sees.
-/

namespace UtilityCss

/-- Something to report. -/
inductive Notice where
  | unrecognisedLine (line : Text)
  | duplicateDropped (cls placed : Text)
  | converted (declarations classes merged : Nat)
  | entrySet (name value : Text)
  | entryRemoved (name : Text)
  | cannotRead (fault : Database.Fault)
  | cannotPersist (fault : Database.Fault)
  | malformed (key : Text)
  | skippedNonText (name : Text)
  | skippedBlank (name : Text)
  deriving DecidableEq, Repr

namespace Notice

def isWarning : Notice → Bool
  | .cannotRead _ | .cannotPersist _ | .malformed _ | .skippedNonText _ | .skippedBlank _ => true
  | _ => false

/-- The part of the program that a notice comes from. -/
def source : Notice → Text
  | .unrecognisedLine _ => "figwind.parser.declarations"
  | .duplicateDropped _ _ => "figwind.merge.merger"
  | .converted _ _ _ => "figwind.pipeline"
  | _ => "figwind.store.dictionary"

def message : Notice → Text
  | .unrecognisedLine line => "Skipping unrecognised line: " ++ Text.quoted line
  | .duplicateDropped cls placed =>
    "Dropping " ++ cls ++ ": duplicates " ++ placed
  | .converted declarations classes merged =>
    "Converted " ++ Text.decimal declarations ++ " declarations into " ++
      Text.decimal classes ++ " classes (" ++ Text.decimal merged ++
      " after merge)"
  | .entrySet name value => "Dictionary set " ++ name ++ " -> " ++ value
  | .entryRemoved name => "Dictionary removed " ++ name
  | .cannotRead fault => "Could not read variable dictionary: " ++ fault.message
  | .cannotPersist fault => "Could not persist variable dictionary: " ++ fault.message
  | .malformed key => "Ignoring malformed variable dictionary under " ++ Text.quoted key
  | .skippedNonText name => "Skipping non-string dictionary entry " ++ Text.quoted name
  | .skippedBlank name => "Skipping blank dictionary entry " ++ Text.quoted name

end Notice

/-- What a conversion reports: the lines that are no declarations, the classes that are dropped,
and how much was converted. -/
def Conversion.notices (lookup : Lookup) (c : Conversion) : List Notice :=
  (Declaration.unrecognised c.style).map Notice.unrecognisedLine ++
    (c.dropped lookup).map (fun d => Notice.duplicateDropped d.1 d.2) ++
    [.converted (c.declarations lookup).size (c.classes lookup).length (c.merged lookup).length]

end UtilityCss
