import UtilityCss.Command.Console
import UtilityCss.Command.Invocation
import UtilityCss.Json.Reader
import UtilityCss.Json.Writer
import UtilityCss.Text.Newline
import UtilityCss.Text.Order
import UtilityCss.Text.Utf8
/-
  Running the program: what it shows, how it ends, and what it leaves behind.

  A task reads what it needs, opens its dictionary, does its work and keeps
  the database. A mistake in use ends the run before anything is done, and so
  does asking for a help page. A key that cannot be one makes a run fail when
  the table is there already. What cannot be shown, since it holds a half of a
  pair of surrogates, makes a run fail after all is done.
-/

namespace UtilityCss.Command

/-- What stops a run without a message of its own. -/
inductive Failure where
  | dictionary (failure : Session.Failure)
  | encoding (fault : Utf8.Fault)
  | tooDeep (container : Json.Container)
  | unencodable (text : Utf8.Unencodable)
  | zeroInPath
  deriving DecidableEq, Repr

def Failure.message : Failure → Text
  | .dictionary failure => failure.message
  | .encoding fault => fault.message
  | .tooDeep container => (Json.Complaint.tooDeep container).message
  | .unencodable text => text.message
  | .zeroInPath => Database.Fault.nullInPath.message

/-- The service that a run has started: its address and its dictionary. -/
structure Started where
  address : Address
  entries : Entries
  deriving DecidableEq

/-- How a run ends: with a mistake in use, with a failure, or by itself with a status. -/
inductive Ending where
  | mistake
  | failure (failure : Failure)
  | status (code : Nat)
  | started (service : Started)
  deriving DecidableEq

/-- What a run comes to. -/
structure Outcome where
  ending : Ending
  output : Text := []
  report : Text := []
  workspace : Workspace
  deriving DecidableEq

def Ending.code : Ending → Nat
  | .mistake => 2
  | .failure _ => 1
  | .status code => code
  | .started _ => 0

/-- What a task shows and how it ends, with the session it leaves and what it reports. -/
structure Work where
  session : Session
  notices : List Notice := []
  output : Text := []
  complaint : Text := []
  ending : Ending := .status 0

def versionLine : Text := "figwind, version 0.1.0"

/-! ## Reading -/

def octetsOf (ws : Workspace) (path : Text) : List Nat := (ws.document? path).getD []

/-- The text of octets, with one line feed at every end of a line. -/
def readText (octets : List Nat) : Except Utf8.Fault Text := (Utf8.decode octets).map Text.unifyNewlines

def styleOf (ws : Workspace) (input : Text) : Source → Except Utf8.Fault Text
  | .given style => .ok style
  | .document path => readText (octetsOf ws path)
  | .input => .ok (Text.unifyNewlines input)

/-- Why a document holds no object. -/
inductive NoObject where
  | encoding (fault : Utf8.Fault)
  | json (text : Text) (fault : Json.Fault)
  | other
  deriving DecidableEq, Repr

def NoObject.message : NoObject → Text
  | .encoding fault => fault.message
  | .json text fault => fault.message text
  | .other => "expected an object"

/-- How a run ends that finds no object: a value that is too deep is not spoken of. -/
def NoObject.outcome (why : NoObject) (ws : Workspace) : Outcome :=
  let spoken : Outcome :=
    { ending := .status 1, report := line ("Invalid JSON: " ++ why.message), workspace := ws }
  match why with
  | .json _ fault =>
    match fault.tooDeep? with
    | some container => { ending := .failure (.tooDeep container), workspace := ws }
    | none => spoken
  | _ => spoken

section

variable [Json.Limit]

/-- The members of the object that a document holds, or why it holds none. -/
def membersOf (octets : List Nat) : Except NoObject (List (Text × Json)) :=
  match readText octets with
  | .error fault => .error (.encoding fault)
  | .ok text =>
    match Json.read text with
    | .error fault => .error (.json text fault)
    | .ok value =>
      match value.members? with
      | some members => .ok members
      | none => .error .other

end

/-! ## Work on an open dictionary -/

/-- The line for a failed operation. -/
def errorLine (failure : Session.Failure) : Text := line ("Error: " ++ failure.message)

def convertWork (s : Session) (conversion : Conversion) : Work where
  session := s
  notices := conversion.notices s.lookup
  output := line (conversion.output s.lookup)

def listWork (s : Session) : Work where
  session := s
  output := line ((Json.ofTexts s.dictionary.entries.sorted).write .indented)

def addWork (s : Session) (name value : Text) : Work :=
  let o := s.set name value
  match o.result with
  | .ok () =>
    { session := o.session, notices := o.notices,
      output := line ("Added " ++ Text.trim name ++ " -> " ++ Text.trim value) }
  | .error failure =>
    { session := o.session, notices := o.notices, complaint := errorLine failure, ending := .status 1 }

def removeWork (s : Session) (name : Text) : Work :=
  let o := s.remove name
  match o.result with
  | .ok true =>
    { session := o.session, notices := o.notices, output := line ("Removed " ++ name) }
  | .ok false =>
    { session := o.session, notices := o.notices,
      complaint := line ("Not found: " ++ name), ending := .status 1 }
  | .error failure =>
    { session := o.session, notices := o.notices, complaint := errorLine failure, ending := .status 1 }

def importWork (s : Session) (members : List (Text × Json)) : Work :=
  let o := s.update members
  match o.result with
  | .ok count =>
    { session := o.session, notices := o.notices,
      output := line ("Imported " ++ Text.decimal count ++ " variables") }
  | .error failure =>
    { session := o.session, notices := o.notices, complaint := errorLine failure, ending := .status 1 }

def serveWork (s : Session) (address : Address) : Work where
  session := s
  output := line ("Starting figwind on " ++ address.host ++ ":" ++ Json.wholeText address.port)
  ending := .started ⟨address, s.dictionary.entries⟩

/-! ## Runs -/

/-- A database opened, with its table. -/
def openTable (ws : Workspace) (path : Text) : Except Database.Fault Database :=
  match ws.openDatabase path with
  | .error fault => .error fault
  | .ok db => db.migrate

/-- What a run comes to by its work, with what was reported before it. -/
def conclude (ws : Workspace) (full : Bool) (before : List Notice) (work : Work) : Outcome :=
  let shown := escapeHalves (report full (before ++ work.notices) ++ work.complaint)
  -- A half can be shown in the report, as an escape, but not in the output.
  match Utf8.unencodable? work.output with
  | some text => { ending := .failure (.unencodable text), report := shown, workspace := ws }
  | none => { ending := work.ending, output := work.output, report := shown, workspace := ws }

variable [Json.Limit]

/-- Work done on the dictionary of a storage. -/
def withDictionary (ws : Workspace) (full : Bool) (storage : Storage) (work : Session → Work) :
    Outcome :=
  let cleared := ws.clearFor storage.path
  match openTable ws storage.path with
  | .error fault => { ending := .failure (.dictionary (.database fault)), workspace := cleared }
  | .ok db =>
    -- From here on the table is there, so the database is kept whatever follows.
    match Cell.ofText storage.key with
    | .error halves =>
      { ending := .failure (.unencodable halves), workspace := cleared.keep storage.path db }
    | .ok key =>
      let opened := Session.start true db key
      match opened.result with
      | .error failure =>
        { ending := .failure (.dictionary failure), workspace := cleared.keep storage.path db }
      | .ok () =>
        let done := work opened.session
        conclude (cleared.keep storage.path done.session.database) full opened.notices done

/-- A task done. What it reads is read before the dictionary is opened. -/
def runTask (ws : Workspace) (input : Text) (full : Bool) (storage : Storage) : Task → Outcome
  | .convert source variants existing =>
    match styleOf ws input source with
    | .error fault => { ending := .failure (.encoding fault), workspace := ws }
    | .ok style => withDictionary ws full storage (convertWork · ⟨style, variants, existing⟩)
  | .list => withDictionary ws full storage listWork
  | .add name value => withDictionary ws full storage (addWork · name value)
  | .remove name => withDictionary ws full storage (removeWork · name)
  | .importFrom path =>
    match membersOf (octetsOf ws path) with
    | .error why => why.outcome ws
    | .ok members => withDictionary ws full storage (importWork · members)
  | .serve address => withDictionary ws full storage (serveWork · address)
  | .lookForZero => { ending := .failure .zeroInPath, workspace := ws }

def run (ws : Workspace) (arguments : List Text) (input : Text) : Outcome :=
  match Invocation.read? ws arguments with
  | none => { ending := .mistake, workspace := ws }
  | some .version => { ending := .status 0, output := line versionLine, workspace := ws }
  | some (.help page) => { ending := .status 0, output := line page.text, workspace := ws }
  | some (.task full storage task) => runTask ws input full storage task

end UtilityCss.Command
