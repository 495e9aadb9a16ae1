import UtilityCss.OrderedMap
import UtilityCss.Text.Utf8
/-
  A database with one table, from keys to texts, and the states in which it
  can be.

  A database is not connected, or its connection is closed underneath it, or
  it is connected; then the table may be there or not. Each operation says
  what is wrong when the state does not allow it. A database in memory is gone
  with its connection, and a new connection begins without a table. One in a
  file stays: every write is made lasting at once, and the next connection
  finds the table as it was.

  What is proved:
    1. `Cell.ofText_eq_ok_iff` : the cell of a text.
    2. `table_eq_ok_iff`, `put_eq_ok`, `get?_eq_ok` : the states in which an
       operation on rows succeeds.
    3. `get?_put_self`, `get?_put_other` : a write is read back under its key
       and changes no other.
    4. `row?_of_get?` : what is read of a row is what it holds.
    5. `remains_table?`, `table?_connect` : what a connection finds again.
-/

namespace UtilityCss

/-- A text that a cell of the table can hold. A half of a pair of surrogates has no octets, so a text
with one is refused before any row is asked for. -/
@[ext] structure Cell where
  text : Text
  scalar : text.Scalar
  deriving DecidableEq

namespace Cell

instance : Coe Cell Text := ⟨Cell.text⟩

def of (s : String) : Cell := ⟨Text.of s, Text.scalar_of s⟩

instance : Coe String Cell := ⟨Cell.of⟩

/-- The cell of a text, or what is wrong with it. -/
def ofText (t : Text) : Except Utf8.Unencodable Cell :=
  match h : Utf8.unencodable? t with
  | some halves => .error halves
  | none => .ok ⟨t, Utf8.unencodable?_eq_none_iff.1 h⟩

theorem ofText_eq_ok_iff {t : Text} {cell : Cell} : ofText t = .ok cell ↔ t = cell.text := by
  constructor
  · intro h
    unfold ofText at h
    split at h
    · cases h
    · rw [← Except.ok.inj h]
  · rintro rfl
    have hnone := Utf8.unencodable?_eq_none_iff.2 cell.scalar
    unfold ofText
    split
    · next halves hsome =>
      rw [hnone] at hsome
      cases hsome
    · rfl

end Cell

/-- The rows of the table: each key with its text. -/
abbrev Table := OrderedMap Cell Text

/-- Where a database lies. -/
inductive Medium where
  | memory
  | file
  deriving DecidableEq

/-- What is left of a database without its connection: nothing of one in memory, and the table of one
in a file, if it has one. -/
inductive Remains where
  | nothing
  | file (table : Option Table)
  deriving DecidableEq

def Remains.table? : Remains → Option Table
  | .nothing => none
  | .file table => table

/-- The state of a database. Connected to it, there may be no table yet, or no longer. -/
inductive Database where
  | disconnected (remains : Remains)
  | closed (remains : Remains)
  | connected (medium : Medium) (table : Option Table)
  deriving DecidableEq

namespace Database

/-- What can be wrong with an operation on a database. -/
inductive Fault where
  | notConnected
  | closedConnection
  | noTable
  | cannotOpen
  | nullInPath
  | notADatabase
  deriving DecidableEq, Repr

def Fault.message : Fault → Text
  | .notConnected => "Database not connected"
  | .closedConnection => "Cannot operate on a closed database."
  | .noTable => "no such table: kv_store"
  | .cannotOpen => "unable to open database file"
  | .nullInPath => "embedded null byte"
  | .notADatabase => "file is not a database"

/-- Whether there is a connection, be it one that is closed. -/
def isConnected : Database → Bool
  | .disconnected _ => false
  | _ => true

/-- What is left of a database when its connection goes. -/
def remains : Database → Remains
  | .disconnected remains => remains
  | .closed remains => remains
  | .connected .memory _ => .nothing
  | .connected .file table => .file table

/-- The table of a database, whether or not it can be asked just now. -/
def table? : Database → Option Table
  | .connected _ table => table
  | db => db.remains.table?

/-- What the row of a key holds, whether or not it can be asked just now. -/
def row? (db : Database) (key : Cell) : Option Text := db.table?.bind (fun rows => rows.get? key)

/-! ## Operations on rows -/

/-- The table, if the state allows to ask for it and has one. -/
def table : Database → Except Fault Table
  | .disconnected _ => .error .notConnected
  | .closed _ => .error .closedConnection
  | .connected _ none => .error .noTable
  | .connected _ (some rows) => .ok rows

/-- A connected database with another table. -/
def withTable (table : Option Table) : Database → Database
  | .connected medium _ => .connected medium table
  | db => db

def get? (db : Database) (key : Cell) : Except Fault (Option Text) :=
  match db.table with
  | .error fault => .error fault
  | .ok rows => .ok (rows.get? key)

def put (db : Database) (key : Cell) (text : Text) : Except Fault Database :=
  match db.table with
  | .error fault => .error fault
  | .ok rows => .ok (db.withTable (some (rows.put key text)))

/-- The database with its table created, if that is not there. -/
def migrate : Database → Except Fault Database
  | .disconnected _ => .error .notConnected
  | .closed _ => .error .closedConnection
  | .connected medium none => .ok (.connected medium (some OrderedMap.empty))
  | .connected medium (some rows) => .ok (.connected medium (some rows))

def dropTable (db : Database) : Except Fault Database :=
  match db.table with
  | .error fault => .error fault
  | .ok _ => .ok (db.withTable none)

/-- Nothing is left to be made lasting, but the database must be there. -/
def commit : Database → Except Fault Database
  | .disconnected _ => .error .notConnected
  | .closed _ => .error .closedConnection
  | .connected medium table => .ok (.connected medium table)

/-! ## Connections -/

/-- The database with its connection closed underneath it. -/
def closeConnection : Database → Except Fault Database
  | .disconnected _ => .error .notConnected
  | db => .ok (.closed db.remains)

def close (db : Database) : Database := .disconnected db.remains

/-- The database over a new connection: in memory a new one without a table. -/
def connect (db : Database) : Database :=
  match db.remains with
  | .nothing => .connected .memory none
  | .file table => .connected .file table

/-- A new database in memory, without a table. -/
def inMemory : Database := .connected .memory none

def ofRows (rows : List (Cell × Text)) : Database :=
  .connected .memory (some (OrderedMap.ofPairs rows))

/-! ## Small laws -/

theorem table_eq_ok_iff {db : Database} {rows : Table} :
    db.table = .ok rows ↔ ∃ medium, db = .connected medium (some rows) := by
  constructor
  · intro h
    unfold table at h
    split at h
    · cases h
    · cases h
    · cases h
    · next medium found => exact ⟨medium, by rw [Except.ok.inj h]⟩
  · rintro ⟨medium, rfl⟩
    rfl

theorem put_eq_ok {db after : Database} {key : Cell} {text : Text} (h : db.put key text = .ok after) :
    ∃ medium rows, db = .connected medium (some rows) ∧
      after = .connected medium (some (rows.put key text)) := by
  unfold put at h
  split at h
  · cases h
  · next rows hrows =>
    obtain ⟨medium, rfl⟩ := table_eq_ok_iff.1 hrows
    exact ⟨medium, rows, rfl, (Except.ok.inj h).symm⟩

theorem get?_eq_ok {db : Database} {key : Cell} {text : Option Text} (h : db.get? key = .ok text) :
    ∃ medium rows, db = .connected medium (some rows) ∧ rows.get? key = text := by
  unfold get? at h
  split at h
  · cases h
  · next rows hrows =>
    obtain ⟨medium, rfl⟩ := table_eq_ok_iff.1 hrows
    exact ⟨medium, rows, rfl, Except.ok.inj h⟩

/-- A write is read back under its key. -/
theorem get?_put_self {db after : Database} {key : Cell} {text : Text} (h : db.put key text = .ok after) :
    after.get? key = .ok (some text) := by
  obtain ⟨medium, rows, rfl, rfl⟩ := put_eq_ok h
  simp [get?, table, OrderedMap.get?_put]

/-- A write changes no other key. -/
theorem get?_put_other {db after : Database} {key : Cell} {text : Text} (h : db.put key text = .ok after)
    {other : Cell} (hne : key ≠ other) : after.get? other = db.get? other := by
  obtain ⟨medium, rows, rfl, rfl⟩ := put_eq_ok h
  simp [get?, table, OrderedMap.get?_put, hne]

/-- What is left of a database in a file is its table. -/
theorem remains_table? {db : Database} (h : db.remains ≠ .nothing) : db.remains.table? = db.table? := by
  cases db with
  | disconnected remains => rfl
  | closed remains => rfl
  | connected medium table =>
    cases medium with
    | memory => exact absurd rfl h
    | file => rfl

theorem table?_connect (db : Database) : db.connect.table? = db.remains.table? := by
  unfold connect
  split
  · next hnothing => rw [hnothing]; rfl
  · next table hfile => rw [hfile]; rfl

theorem row?_put_other {db after : Database} {key : Cell} {text : Text} (h : db.put key text = .ok after)
    {other : Cell} (hne : key ≠ other) : after.row? other = db.row? other := by
  obtain ⟨medium, rows, rfl, rfl⟩ := put_eq_ok h
  simp [row?, table?, OrderedMap.get?_put, hne]

/-- What is read of a row is what it holds. -/
theorem row?_of_get? {db : Database} {key : Cell} {text : Option Text} (h : db.get? key = .ok text) :
    db.row? key = text := by
  obtain ⟨medium, rows, rfl, hrow⟩ := get?_eq_ok h
  exact hrow

end Database

end UtilityCss
