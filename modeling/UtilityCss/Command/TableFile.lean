import UtilityCss.Command.Workspace
import UtilityCss.Dictionary.Stored
import UtilityCss.Text.Utf8
/-
  The file in which a database is kept between two runs of the program: a
  line that names the format, and the rows of the table as one JSON object.
-/

namespace UtilityCss.Command.TableFile

def header : Text := "utility-css table 1\n"

/-- The octets of the file for a table. -/
def encode (table : Table) : List Nat :=
  let rows := table.entries.map (fun row => (row.1.text, row.2))
  Utf8.encode (header ++ (Json.ofTexts rows).write .spaced)

/-- The table with the given rows, if each key can be one. -/
def tableOf? (rows : Entries) : Option Table :=
  let cells := rows.entries.mapM (fun row => (Cell.ofText row.1).map (·, row.2))
  cells.toOption.map OrderedMap.ofPairs

/-- The table that octets hold, if they are of the format. -/
def decode? [Json.Limit] (octets : List Nat) : Option Table :=
  match Utf8.decode octets with
  | .ok text =>
    (Text.stripPrefix? header text).bind (fun stored =>
      (Entries.ofStored? stored).toOption.join.bind tableOf?)
  | .error _ => none

/-- What a file with the given octets holds. -/
def content [Json.Limit] (octets : List Nat) : Content :=
  match decode? octets with
  | some table => .database (some table)
  | none => .document octets

end UtilityCss.Command.TableFile
