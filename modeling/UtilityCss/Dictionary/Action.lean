import UtilityCss.Dictionary.Session
/-
  Everything that can be done to a session, one step at a time.

  A step is an operation on the dictionary, or something that happens to the
  database beside it: rows written from outside, a table dropped or made
  again, a connection closed or opened anew to the same database. Every step is answered, also one
  that fails, and leaves a session behind.
-/

namespace UtilityCss

/-- A step of a session. -/
inductive Action where
  | set (name value : Text)
  | get (name : Text)
  | remove (name : Text)
  | update (pairs : List (Text × Json))
  | contains (name : Text)
  | size
  | load
  | save
  | openKey (key : Cell)
  | convert (conversion : Conversion)
  | readRow (key : Cell)
  | writeRow (key text : Cell)
  | dropTable
  | migrate
  | commit
  | closeConnection
  | closeDatabase
  | connect

/-- What a step is answered with. -/
inductive Answer where
  | done
  | text (value : Text)
  | absent
  | flag (value : Bool)
  | count (value : Nat)
  deriving DecidableEq, Repr

namespace Answer

def ofOption : Option Text → Answer
  | some t => .text t
  | none => .absent

end Answer

namespace Session

/-- A step on the database alone, which may fail. -/
def onDatabase (s : Session) (result : Except Database.Fault Database) : Outcome Answer :=
  match result with
  | .ok database => .of { s with database := database } .done
  | .error fault => ⟨.error (.database fault), s, []⟩

variable [Json.Limit]

def step (s : Session) : Action → Outcome Answer
  | .set name value => (set s name value).map (fun _ => .done)
  | .get name => .of s (.ofOption (s.lookup name))
  | .remove name => (remove s name).map .flag
  | .update pairs => (update s pairs).map .count
  | .contains name => .of s (.flag (s.dictionary.entries.contains name))
  | .size => .of s (.count s.dictionary.entries.size)
  | .load => (load s).map (fun _ => .done)
  | .save => (save s).map (fun _ => .done)
  | .openKey key => (openKey s key).map (fun _ => .done)
  | .convert conversion =>
    ⟨.ok (.text (conversion.output s.lookup)), s, conversion.notices s.lookup⟩
  | .readRow key =>
    match s.database.get? key with
    | .ok text => .of s (.ofOption text)
    | .error fault => ⟨.error (.database fault), s, []⟩
  | .writeRow key text => onDatabase s (s.database.put key text)
  | .dropTable => onDatabase s s.database.dropTable
  | .migrate => onDatabase s s.database.migrate
  | .commit => onDatabase s s.database.commit
  | .closeConnection => onDatabase s s.database.closeConnection
  | .closeDatabase => .of { s with database := s.database.close } .done
  | .connect => .of { s with database := s.database.connect } .done

def run (s : Session) (actions : List Action) : Session :=
  actions.foldl (fun s action => (s.step action).session) s

end Session

end UtilityCss
