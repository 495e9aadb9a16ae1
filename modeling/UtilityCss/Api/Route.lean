import UtilityCss.Text.Cut
/-
  Routes: what the method and the path of a request lead to.

  A variable's name is all that follows `/api/vars/`: it may hold slashes, but
  it does not start with one, and no line feed stands after its first
  character. An endpoint is reached by rules, each with methods of its own.
  Slashes in a row count as one only to find out that the path is to be
  corrected.
-/

namespace UtilityCss.Api

/-! ## Paths -/

inductive Endpoint where
  | convert
  | variables
  | variable (name : Text)
  | asset (name : Text)
  deriving DecidableEq, Repr

/-- Whether a text may be the open end of a path. -/
def isOpenEnd : Text → Bool
  | [] => false
  | c :: rest => c != '/' && !rest.contains '\n'

/-- What a path leads to, if it leads anywhere. -/
def Endpoint.ofPath? (path : Text) : Option Endpoint :=
  if path = "/api/convert" then some .convert
  else if path = "/api/vars" then some .variables
  else
    match Text.stripPrefix? "/api/vars/" path, Text.stripPrefix? "/static/" path with
    | some name, _ => if isOpenEnd name then some (.variable name) else none
    | none, some name => if isOpenEnd name then some (.asset name) else none
    | none, none => none

/-- The path with all slashes in a row made one. -/
def mergeSlashes : Text → Text
  | [] => []
  | c :: rest =>
    if c = .char '/' ∧ rest.head? = some (.char '/') then mergeSlashes rest
    else c :: mergeSlashes rest

/-! ## Methods -/

/-- The method of a request, as far as any endpoint tells them apart. -/
inductive Method where
  | get
  | head
  | post
  | delete
  | options
  | other
  deriving DecidableEq, Repr

/-- The capitals that a letter has. Beside the letters of ASCII there are four more whose capitals
are letters of ASCII. -/
def capitals (c : CodePoint) : Text :=
  match c with
  | 'ı' => "I"
  | 'ſ' => "S"
  | 'ﬅ' => "ST"
  | 'ﬆ' => "ST"
  | .char c => [.char c.toUpper]
  | .half index => [.half index]

/-- The method of a name, in letters of either case. -/
def Method.ofName (name : Text) : Method :=
  let upper := name.flatMap capitals
  if upper = "GET" then .get
  else if upper = "HEAD" then .head
  else if upper = "POST" then .post
  else if upper = "DELETE" then .delete
  else if upper = "OPTIONS" then .options
  else .other

/-! ## Routes -/

/-- The methods of each rule by which an endpoint is reached. -/
def Endpoint.rules : Endpoint → List (List Method)
  | .convert => [[.options], [.post, .options]]
  | .variables => [[.options], [.get, .head, .options], [.post, .options]]
  | .variable _ => [[.options], [.delete, .options]]
  | .asset _ => [[.get, .head, .options]]

def Endpoint.takes (endpoint : Endpoint) (method : Method) : Bool :=
  endpoint.rules.any (·.contains method)

inductive Route where
  | found (endpoint : Endpoint)
  | redirected
  | notAllowed
  | notFound
  | notForSockets
  deriving DecidableEq, Repr

/-- Where a method and a path go. A path that leads nowhere as it stands is tried again with its
slashes merged, and what is found then is answered with a redirection. -/
def Route.of (method : Method) (path : Text) : Route :=
  let tried := Endpoint.ofPath? path
  let merged := Endpoint.ofPath? (mergeSlashes path)
  let takes (endpoint? : Option Endpoint) : Bool := endpoint?.any (·.takes method)
  match tried with
  | some endpoint =>
    if takes tried then .found endpoint else if takes merged then .redirected else .notAllowed
  | none =>
    if takes merged then .redirected else if merged.isSome then .notAllowed else .notFound

/-- Where a method and a path go by way of a web socket, which no rule is for. A rule that does
not take the method counts before that. -/
def Route.ofSocket (method : Method) (path : Text) : Route :=
  match (Endpoint.ofPath? path).or (Endpoint.ofPath? (mergeSlashes path)) with
  | some endpoint =>
    if endpoint.rules.all (·.contains method) then .notForSockets else .notAllowed
  | none => .notFound

end UtilityCss.Api
