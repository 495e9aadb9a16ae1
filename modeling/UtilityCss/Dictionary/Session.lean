import UtilityCss.Dictionary.Stored
import UtilityCss.Notice
/-
  A dictionary of variables at work over a database.

  The entries are held in memory, and written as a whole under the
  dictionary's key after every change. A write that the database refuses is
  reported and otherwise passed over, so the entries in memory are what
  counts; only a database that is not connected makes the operation fail.
  Reading hardly fails on what is stored: a text that holds no dictionary is
  reported and counts as an empty one, unless it nests too deep to be read.

  What is proved:
    1. `set_entries`, `remove_entries` : what setting and removing do to the
       entries, whatever the database does.
-/

namespace UtilityCss

/-- A dictionary: its key in the database, if it uses one at all, and its entries. -/
structure Dictionary where
  persistent : Bool
  key : Cell
  entries : Entries
  deriving DecidableEq

namespace Dictionary

/-- The key under which a dictionary is stored unless another is given. -/
def defaultKey : Cell := "figma-tailwind-var-dict"

end Dictionary

/-- A dictionary together with the database it is stored in. -/
structure Session where
  database : Database
  dictionary : Dictionary
  deriving DecidableEq

namespace Session

/-- Why an operation fails: the trimmed name or value is blank, the database is at fault, or what
is stored nests too deep. -/
inductive Failure where
  | blank (name value : Text)
  | database (fault : Database.Fault)
  | tooDeep (container : Json.Container)
  deriving DecidableEq, Repr

def Failure.message : Failure → Text
  | .blank _ _ => "variable name and value must both be non-blank"
  | .database fault => fault.message
  | .tooDeep container => (Json.Complaint.tooDeep container).message

/-- What an operation comes to: its result, the session after it, and what it reports. -/
structure Outcome (α : Type) where
  result : Except Failure α
  session : Session
  notices : List Notice := []

namespace Outcome

/-- The outcome of an operation that changes and reports nothing. -/
def of {α : Type} (session : Session) (value : α) : Outcome α := ⟨.ok value, session, []⟩

/-- The outcome with another value, where it has one. -/
def map {α β : Type} (f : α → β) (o : Outcome α) : Outcome β := ⟨o.result.map f, o.session, o.notices⟩

/-- The outcome with more to report before it. -/
def after {α : Type} (notices : List Notice) (o : Outcome α) : Outcome α :=
  { o with notices := notices ++ o.notices }

end Outcome

/-- What the entries say of a name. -/
def lookup (s : Session) : Lookup := s.dictionary.entries.get?

def withEntries (s : Session) (entries : Entries) : Session :=
  { s with dictionary := { s.dictionary with entries := entries } }

/-! ## Reading and writing the database -/

section

variable [Json.Limit]

/-- The entries stored under a key, with what is to be reported of them. Fails only on a database
that is not connected, and on a text that nests too deep. -/
def readEntries (db : Database) (key : Cell) : Except Failure (Entries × List Notice) :=
  match db.get? key with
  | .error .notConnected => .error (.database .notConnected)
  -- The dictionary begins empty then, although there may be one in the database.
  | .error fault => .ok (OrderedMap.empty, [.cannotRead fault])
  | .ok none => .ok (OrderedMap.empty, [])
  | .ok (some text) =>
    match Entries.ofStored? text with
    | .ok (some entries) => .ok (entries, [])
    | .ok none => .ok (OrderedMap.empty, [.malformed key])
    | .error container => .error (.tooDeep container)

/-- The entries as they are stored, in place of those in memory. -/
def load (s : Session) : Outcome Unit :=
  if s.dictionary.persistent then
    match readEntries s.database s.dictionary.key with
    | .error failure => ⟨.error failure, s, []⟩
    | .ok (entries, notices) => ⟨.ok (), s.withEntries entries, notices⟩
  else .of (s.withEntries OrderedMap.empty) ()

/-- A dictionary under a key, opened on the session's database in place of its own. -/
def openKey (s : Session) (key : Cell) : Outcome Unit :=
  let o := load { s with dictionary := ⟨s.dictionary.persistent, key, OrderedMap.empty⟩ }
  match o.result with
  | .ok () => o
  -- The dictionary that was open stays, with its key and its entries.
  | .error failure => ⟨.error failure, s, o.notices⟩

/-- The session of a dictionary that is opened on a database. -/
def start (persistent : Bool) (database : Database) (key : Cell) : Outcome Unit :=
  openKey ⟨database, ⟨persistent, key, OrderedMap.empty⟩⟩ key

end

/-- The entries in memory written to the database. -/
def save (s : Session) : Outcome Unit :=
  if s.dictionary.persistent then
    match s.database.put s.dictionary.key s.dictionary.entries.stored with
    | .ok database => .of { s with database := database } ()
    -- The one fault that is not passed over.
    | .error .notConnected => ⟨.error (.database .notConnected), s, []⟩
    | .error fault => ⟨.ok (), s, [.cannotPersist fault]⟩
  else .of s ()

/-! ## Changing the entries -/

/-- The trimmed name and value written to the entries. -/
def set (s : Session) (name value : Text) : Outcome Unit :=
  let name := Text.trim name
  let value := Text.trim value
  if name = [] ∨ value = [] then ⟨.error (.blank name value), s, []⟩
  else
    (save (s.withEntries (s.dictionary.entries.put name value))).after [.entrySet name value]

/-- The entries without a name, and whether it was there. -/
def remove (s : Session) (name : Text) : Outcome Bool :=
  if s.dictionary.entries.contains name then
    ((save (s.withEntries (s.dictionary.entries.erase name))).after [.entryRemoved name]).map
      (fun _ => true)
  else .of s false

/-- The entry that a pair makes, trimmed, if both its parts are texts that are not blank. -/
def entryOf? (pair : Text × Json) : Option (Text × Text) :=
  match pair.2.text? with
  | some value =>
    if Text.trim pair.1 = [] ∨ Text.trim value = [] then none
    else some (Text.trim pair.1, Text.trim value)
  | none => none

/-- What is reported of a pair that makes no entry. -/
def skipped? (pair : Text × Json) : Option Notice :=
  match pair.2.text? with
  | some value =>
    if Text.trim pair.1 = [] ∨ Text.trim value = [] then some (.skippedBlank pair.1) else none
  | none => some (.skippedNonText pair.1)

/-- The entries that pairs make written to the entries, and how many there are. Where there are
none, nothing is written. -/
def update (s : Session) (pairs : List (Text × Json)) : Outcome Nat :=
  let added := pairs.filterMap entryOf?
  let notices := pairs.filterMap skipped?
  if added = [] then ⟨.ok 0, s, notices⟩
  else
    ((save (s.withEntries (s.dictionary.entries.putAll added))).after notices).map
      (fun _ => added.length)

/-! ## Small laws -/

theorem save_dictionary (s : Session) : (save s).session.dictionary = s.dictionary := by
  unfold save
  split
  · split <;> rfl
  · rfl

/-- Setting a name writes it to the entries, whatever the database does, unless a part is blank. -/
theorem set_entries (s : Session) (name value : Text) :
    (set s name value).session.dictionary.entries =
      if Text.trim name = [] ∨ Text.trim value = [] then s.dictionary.entries
      else s.dictionary.entries.put (Text.trim name) (Text.trim value) := by
  unfold set
  simp only
  split
  · rfl
  · rw [Outcome.after, save_dictionary]
    rfl

/-- Removing a name erases it from the entries, whatever the database does. -/
theorem remove_entries (s : Session) (name : Text) :
    (remove s name).session.dictionary.entries =
      if s.dictionary.entries.contains name then s.dictionary.entries.erase name
      else s.dictionary.entries := by
  unfold remove
  split
  · rw [Outcome.map, Outcome.after, save_dictionary]
    rfl
  · rfl

end Session

end UtilityCss
