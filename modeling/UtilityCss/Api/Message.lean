import UtilityCss.Api.Target
import UtilityCss.Api.Route
import UtilityCss.Json.Reader
import UtilityCss.Json.Writer
import UtilityCss.Text.Encoding
/-
  Requests and responses.

  A body counts only under a media type of JSON: `application/json`, or a
  subtype of `application` that ends in `+json`, in letters of either case and
  with any parameters. Its octets are in any encoding that they show. A
  response to a question about the head alone has no body; only the name of
  the method in capitals asks that question.
-/

namespace UtilityCss.Api

/-- A request. The name of the method is as it was sent. -/
structure Request where
  methodName : Text
  target : Target
  mediaType : Option Text := none
  body : List Nat := []
  deriving DecidableEq, Repr

/-- What keeps a request from being sent: its host, or an end of line in its media type. -/
inductive RequestFault where
  | host (fault : HostFault)
  | mediaType
  deriving DecidableEq, Repr

def RequestFault.message : RequestFault → Text
  | .host fault => fault.message
  | .mediaType => "Header values must not contain newline characters."

namespace Request

def of (methodName target : Text) (mediaType : Option Text) (body : List Nat) :
    Except RequestFault Request :=
  match Target.ofText target with
  | .error fault => .error (.host fault)
  | .ok target =>
    if mediaType.any (fun t => t.contains '\r' || t.contains '\n') then .error .mediaType
    else .ok ⟨methodName, target, mediaType, body⟩

def method (r : Request) : Method := Method.ofName r.methodName

def asksHead (r : Request) : Bool := r.methodName == "HEAD"

def route (r : Request) : Route :=
  if r.target.isSocket then Route.ofSocket r.method r.target.place
  else Route.of r.method r.target.place

end Request

/-- The body of a response: nothing, a JSON text, or a page for people to read. -/
inductive Body where
  | nothing
  | json (text : Text)
  | page
  deriving DecidableEq, Repr

/-- A response. `shared` says that pages of other sites may read it. -/
structure Response where
  status : Nat
  body : Body
  shared : Bool
  deriving DecidableEq, Repr

/-- Whether a media type is one of JSON. -/
def isJsonType (mediaType : Text) : Bool :=
  let essence := (Text.trim (mediaType.takeWhile (· ≠ .char ';'))).map CodePoint.toLower
  essence == "application/json" ||
    ((Text.of "application/").isPrefixOf essence && (Text.of "+json").isSuffixOf essence)

/-- The JSON value that a request brings, if it brings one. Fails only on a value that is too
deep. -/
def Request.value? [Json.Limit] (r : Request) : Except Json.Container (Option Json) :=
  if r.mediaType.any isJsonType then
    match Encoding.read? r.body with
    | some text => Json.read? text
    | none => .ok none
  else .ok none

namespace Response

/-- A value as the body of a response: on one line, names in order. -/
def jsonText (value : Json) : Text := value.write .compact ++ "\n"

def ofJson (status : Nat) (value : Json) : Response := ⟨status, .json (jsonText value), true⟩

def ofError (status : Nat) (message : Text) : Response :=
  ofJson status (Json.ofTexts [("error", message)])

def done : Response := ⟨204, .nothing, true⟩

/-- A response for people to read, from outside the API. -/
def page (status : Nat) : Response := ⟨status, .page, false⟩

/-- A response to a request that an endpoint takes but cannot answer. -/
def failed : Response := ⟨500, .page, true⟩

def headOnly (r : Response) : Response :=
  { r with body := match r.body with
    | .json _ => .json []
    | _ => .nothing }

end Response

end UtilityCss.Api
