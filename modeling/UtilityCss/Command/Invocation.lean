import UtilityCss.Command.Help
import UtilityCss.Command.Options
import UtilityCss.Command.Workspace
import UtilityCss.Dictionary.Session
import UtilityCss.Text.Integer
/-
  What the arguments of the program ask for.

  The program has three commands, of which `vars` has commands of its own.
  Options of the program stand before the command, options of a command
  anywhere after it. Arguments that ask for nothing known, or for a document
  that is not there, are a mistake in use; but a document cannot even be
  looked for where its path holds a zero character. A command that is asked
  for help looks at no more than its options.
-/

namespace UtilityCss.Command

/-- Where a dictionary is stored: the path of the database, and the key. -/
structure Storage where
  path : Text
  key : Text
  deriving DecidableEq, Repr

/-- Where a style is taken from: the arguments, a document, or the standard input. -/
inductive Source where
  | given (style : Text)
  | document (path : Text)
  | input
  deriving DecidableEq, Repr

/-- The address that the service is to listen on. -/
structure Address where
  host : Text
  port : Int
  debug : Bool
  deriving DecidableEq, Repr

/-- What is to be done with a dictionary; or a document is to be looked for whose path holds a zero
character. -/
inductive Task where
  | convert (source : Source) (variants existing : Text)
  | list
  | add (name value : Text)
  | remove (name : Text)
  | importFrom (path : Text)
  | serve (address : Address)
  | lookForZero
  deriving DecidableEq, Repr

/-- What the arguments ask for: the version of the program, a help page, or a task. -/
inductive Invocation where
  | version
  | help (page : Page)
  | task (full : Bool) (storage : Storage) (task : Task)
  deriving DecidableEq, Repr

def valued (name : String) : OptionForm := { name := Text.of name }

def flag (name : String) (letter : Option CodePoint := none) : OptionForm :=
  { name := Text.of name, letter := letter, takesValue := false }

/-- The option of every command. -/
def helpForm : OptionForm := flag "--help"

/-- The options of the program. -/
def programForms : List OptionForm := [flag "--version", flag "--verbose" 'v', helpForm]

/-- The options of every task. -/
def storageForms : List OptionForm := [valued "--db", valued "--key", helpForm]

def convertForms : List OptionForm :=
  [valued "--css", valued "--file", valued "--prefix", valued "--existing"] ++ storageForms

def serveForms : List OptionForm :=
  [valued "--host", valued "--port", flag "--debug", flag "--no-debug"] ++ storageForms

def storageOf (args : Arguments) : Storage :=
  ⟨(args.last? "--db").getD "figwind.db", (args.last? "--key").getD Dictionary.defaultKey.text⟩

def isThere (ws : Workspace) (path? : Option Text) : Bool :=
  path?.all (fun path => (ws.document? path).isSome)

def holdsZero (path : Text) : Bool := path.contains '\x00'

/-- The conversion that arguments ask for. A style in the arguments comes before a document, and
that before the standard input. -/
def convertTask? (ws : Workspace) (args : Arguments) : Option Task :=
  let source :=
    match args.last? "--css", args.last? "--file" with
    | some style, _ => .given style
    | none, some path => .document path
    | none, none => .input
  -- The document must be there even where the style is in the arguments.
  if (args.last? "--file").any holdsZero then some .lookForZero
  else if args.words = [] ∧ isThere ws (args.last? "--file") then
    some (.convert source ((args.last? "--prefix").getD []) ((args.last? "--existing").getD []))
  else none

/-- Whether the service is to debug: what was said last counts. -/
def debugOf (args : Arguments) : Bool :=
  let said := args.options.filter (fun o => o.1 == Text.of "--debug" || o.1 == Text.of "--no-debug")
  said.getLast?.any (fun o => o.1 == Text.of "--debug")

def serveTask? (args : Arguments) : Option Task :=
  let port? :=
    match args.last? "--port" with
    | some t => Text.integer? t
    | none => some 5000
  match args.words, port? with
  | [], some port => some (.serve ⟨(args.last? "--host").getD "127.0.0.1", port, debugOf args⟩)
  | _, _ => none

/-- The help page of a command on variables. -/
def variablePage? (command : Text) : Option Page :=
  if command = "list" then some .list
  else if command = "add" then some .add
  else if command = "remove" then some .remove
  else if command = "import" then some .importFrom
  else none

/-- The task on variables that a command and its words ask for. -/
def variableTask? (ws : Workspace) (command : Text) (words : List Text) : Option Task :=
  if command = "list" then
    match words with
    | [] => some .list
    | _ => none
  else if command = "add" then
    match words with
    | [name, value] => some (.add name value)
    | _ => none
  else if command = "remove" then
    match words with
    | [name] => some (.remove name)
    | _ => none
  else if command = "import" then
    match words with
    | [] => none
    | path :: more =>
      if holdsZero path then some .lookForZero
      else if isThere ws (some path) && more.isEmpty then some (.importFrom path)
      else none
  else none

/-- What a command asks for with its arguments: its help page, or else a task. -/
def askedOf (full : Bool) (page : Page) (args : Arguments) (task? : Option Task) : Option Invocation :=
  if args.given "--help" then some (.help page) else task?.map (.task full (storageOf args))

/-- What a command on variables and its arguments ask for. -/
def variablesOf? (ws : Workspace) (full : Bool) (command : Text) (rest : List Text) : Option Invocation := do
  let page ← variablePage? command
  let args ← Arguments.read? storageForms false rest
  askedOf full page args (variableTask? ws command args.words)

/-- What a command and its arguments ask for. -/
def commandOf? (ws : Workspace) (full : Bool) (command : Text) (rest : List Text) : Option Invocation :=
  if command = "convert" then do
    let args ← Arguments.read? convertForms false rest
    askedOf full .convert args (convertTask? ws args)
  else if command = "serve" then do
    let args ← Arguments.read? serveForms false rest
    askedOf full .serve args (serveTask? args)
  else if command = "vars" then do
    let outer ← Arguments.read? [helpForm] true rest
    if outer.given "--help" then return .help .vars
    match outer.words with
    | [] => none
    | inner :: more => variablesOf? ws full inner more
  else none

/-- What the arguments of the program ask for, if they ask for something known. Of the version and the
help page, the one that is asked for first is shown. -/
def Invocation.read? (ws : Workspace) (arguments : List Text) : Option Invocation := do
  let args ← Arguments.read? programForms true arguments
  let first := args.options.find? (fun o => o.1 == Text.of "--version" || o.1 == Text.of "--help")
  match first with
  | some (name, _) => return if name = "--version" then .version else .help .program
  | none =>
    match args.words with
    | [] => none
    | command :: rest => commandOf? ws (args.given "--verbose") command rest

end UtilityCss.Command
