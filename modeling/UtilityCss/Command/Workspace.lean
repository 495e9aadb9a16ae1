import UtilityCss.Database
import UtilityCss.Text.Cut
import UtilityCss.Text.Utf8
/-
  The working directory of a command: documents and databases under paths.

  A path is a row of steps. A document is found by walking, and every step
  but the last must lead to a directory. The path of a database is taken as it
  is written: a step and the step back from it cancel, whether or not there is
  a directory between them. The directories are those in which documents lie,
  and those around the working directory. A database is opened from a place
  where there is one, or where there is nothing, or next to nothing; with no
  name, or in memory, it leaves nothing behind.

  While it is open a database keeps files of its own beside it, named like it
  with an ending. Whatever lay there before, a database too, is gone then. Of a
  document that is taken for a database and is none, so is its journal.

  What is proved:
    1. `get?_keep` : a database that is kept is found again.
-/

namespace UtilityCss.Command

/-- What lies at a place: a document with its octets, or a database. -/
inductive Content where
  | document (octets : List Nat)
  | database (table : Option Table)
  deriving DecidableEq

/-- A place: the steps to it from the working directory, steps back first. An empty step at first
leads to the root. -/
abbrev Place := List Text

namespace Place

def start (path : Text) : Place := if path.head? = some (.char '/') then [[]] else []

/-- Whether a step leads to something in a directory, and not to the directory itself or back. -/
def isName (step : Text) : Bool := step != [] && step != "." && step != ".."

/-- The place before a place. There is none before the root. -/
def before (at_ : Place) : Place :=
  match at_.getLast? with
  | none => [Text.of ".."]
  | some last =>
    if last = ".." then at_ ++ [Text.of ".."] else if last = [] then at_ else at_.dropLast

/-- The place after one more step. -/
def next (at_ : Place) (step : Text) : Place :=
  if step = ".." then at_.before else if isName step then at_ ++ [step] else at_

/-- The place that a path leads to as it is written. -/
def ofPath (path : Text) : Place := (Text.cut '/' path).foldl next (start path)

/-- The place beside a place, named like it with an ending. -/
def withEnding (at_ : Place) (ending : Text) : Place := at_.dropLast ++ [at_.getLastD [] ++ ending]

/-- The place of the journal of a database. -/
def journal (at_ : Place) : Place := at_.withEnding "-journal"

/-- The places of the files that a database keeps beside its own. -/
def beside (at_ : Place) : List Place := [at_.withEnding "-wal", at_.journal, at_.withEnding "-shm"]

/-- Whether a place is the working directory or one around it, or the root. -/
def isAround (at_ : Place) : Bool := at_ == [[]] || at_.all (· == "..")

end Place

/-- The working directory: what lies at each place. -/
abbrev Workspace := OrderedMap Place Content

namespace Workspace

def ofDocuments (documents : List (Text × List Nat)) : Workspace :=
  OrderedMap.ofPairs (documents.map (fun d => (Place.ofPath d.1, .document d.2)))

/-- Whether a place is a directory. -/
def hasDirectory (ws : Workspace) (at_ : Place) : Bool :=
  at_.isAround || ws.names.any (fun name => at_.isPrefixOf name && at_ != name)

/-- The place that is reached by walking, if every step leads from a directory. -/
def walk? (ws : Workspace) : (at_ : Place) → (steps : List Text) → Option Place
  | at_, [] => some at_
  | at_, step :: rest => if ws.hasDirectory at_ then ws.walk? (at_.next step) rest else none

/-- What a path names, if that is a document or a database. -/
def content? (ws : Workspace) (path : Text) : Option Content :=
  (ws.walk? (Place.start path) (Text.cut '/' path)).bind ws.get?

/-- The octets that the file of a database starts with, up to the first that is no text: nothing
of a database can be read as a text. -/
def databaseHead : List Nat := List.replicate 102 0 ++ [0xF8]

def document? (ws : Workspace) (path : Text) : Option (List Nat) :=
  (ws.content? path).map (fun content =>
    match content with
    | .document octets => octets
    | .database _ => databaseHead)

/-- Whether a database at a path is not kept. -/
def isPassing (path : Text) : Bool := path == [] || path == ":memory:"

/-- The greatest length of the name of a database, in octets. Files beside it have longer ones. -/
def greatestName : Nat := 247

/-- Whether a path to a database goes on from something that is no directory. -/
def crossesFile (ws : Workspace) : (at_ : Place) → (steps : List Text) → Bool
  | _, [] => false
  | at_, step :: rest => (Place.isName step && ws.contains at_) || ws.crossesFile (at_.next step) rest

/-- Whether there can be a database at a path. -/
def canHold (ws : Workspace) (path : Text) : Bool :=
  let at_ := Place.ofPath path
  !ws.crossesFile (Place.start path) (Text.cut '/' path) && !ws.hasDirectory at_ &&
    ws.hasDirectory at_.dropLast && !at_.beside.any ws.hasDirectory &&
    (Utf8.encode (at_.getLastD [])).length ≤ greatestName

/-- The database that a path names. -/
def openDatabase (ws : Workspace) (path : Text) : Except Database.Fault Database :=
  if path.contains '\x00' then .error .nullInPath
  else if isPassing path then .ok .inMemory
  else if !ws.canHold path then .error .cannotOpen
  else
    match ws.get? (Place.ofPath path) with
    | none => .ok (.connected .file none)
    | some (.database table) => .ok (.connected .file table)
    -- A document of one octet at most counts as an empty database.
    | some (.document octets) =>
      if octets.length < 2 then .ok (.connected .file none) else .error .notADatabase

/-- Whether the journal beside a place is left as it is: it does not begin as one that is to be played
back does, and there is something at the place. -/
def leavesJournal (ws : Workspace) (at_ : Place) : Bool :=
  match ws.get? at_.journal, ws.get? at_ with
  | some (.document journal), some (.document octets) => journal.headD 0 == 0 && 2 ≤ octets.length
  | some (.document journal), some (.database _) => journal.headD 0 == 0
  | _, _ => false

/-- The places of which nothing is left once a database is opened, or has turned out to be none. -/
def taken (ws : Workspace) (path : Text) : List Place :=
  let at_ := Place.ofPath path
  let places :=
    if isPassing path then []
    else match ws.openDatabase path with
      | .ok _ => at_.beside
      | .error .notADatabase => [at_.journal]
      | .error _ => []
  places.filter (fun place => place != at_.journal || !ws.leavesJournal at_)

/-- The working directory without what the database of a path takes when it is opened. -/
def clearFor (ws : Workspace) (path : Text) : Workspace := (ws.taken path).foldl OrderedMap.erase ws

/-- The working directory with the state of a database kept at its path. -/
def keep (ws : Workspace) (path : Text) (db : Database) : Workspace :=
  if isPassing path then ws else ws.put (Place.ofPath path) (.database db.table?)

/-! ## Small laws -/

/-- A database that is kept is found again. -/
theorem get?_keep (ws : Workspace) {path : Text} (h : isPassing path = false) (db : Database) :
    (ws.keep path db).get? (Place.ofPath path) = some (.database db.table?) := by
  simp [keep, h, OrderedMap.get?_put]

end Workspace

end UtilityCss.Command
