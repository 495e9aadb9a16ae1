import UtilityCss.Api.Message
import UtilityCss.Dictionary.Action
import UtilityCss.Text.Order
/-
  The service: what a request is answered and what it does to the dictionary.

  A style is converted with the entries of the dictionary; the dictionary is
  listed, added to, and removed from. A request that brings no value of the
  wanted form is told so and changes nothing; so does one whose value nests
  too deep.

  What is proved:
    1. `respond_session_of_not_found` : a request that no endpoint takes
       changes nothing.
-/

namespace UtilityCss.Api

/-- What a request comes to: its response, the session after it, and what it reports. -/
structure Reply where
  response : Response
  session : Session
  notices : List Notice := []

/-- The text of a member that may be missing. -/
def parameter (name : String) (value : Json) : Text :=
  ((value.member? (Text.of name)).getD .null).asText

/-- The text that a member is. -/
def textMember? (name : String) (value : Json) : Option Text :=
  (value.member? (Text.of name)).bind Json.text?

/-- What a value asks to be converted, if it holds a style. -/
def conversionOf? (value : Json) : Option Conversion :=
  (textMember? "css" value).map (fun style =>
    ⟨style, parameter "prefixes" value, parameter "existing" value⟩)

/-- The name and the value of a variable that a value holds, if it holds both. -/
def variableOf? (value : Json) : Option (Text × Text) :=
  match textMember? "name" value, textMember? "value" value with
  | some name, some text => some (name, text)
  | _, _ => none

section

variable [Json.Limit]

def convert (s : Session) (r : Request) : Reply :=
  match r.value? with
  | .error _ => ⟨.failed, s, []⟩
  | .ok value =>
    match value.bind conversionOf? with
    | none => ⟨.ofError 400 "css required", s, []⟩
    | some c =>
      let answer := Json.object [("classes", .array ((c.merged s.lookup).map Json.text)),
        ("output", .text (c.output s.lookup))]
      ⟨.ofJson 200 answer, s, c.notices s.lookup⟩

def add (s : Session) (r : Request) : Reply :=
  match r.value? with
  | .error _ => ⟨.failed, s, []⟩
  | .ok given =>
    match given.bind variableOf? with
    | none => ⟨.ofError 400 "name and value required", s, []⟩
    | some (name, value) =>
      let o := s.set name value
      match o.result with
      | .ok () =>
        let answer := Json.ofTexts [("name", Text.trim name), ("value", Text.trim value)]
        ⟨.ofJson 201 answer, o.session, o.notices⟩
      -- Only what the sender can put right is said to the sender.
      | .error (.blank name value) =>
        ⟨.ofError 400 (Session.Failure.blank name value).message, o.session, o.notices⟩
      | .error _ => ⟨.failed, o.session, o.notices⟩

def remove (s : Session) (name : Text) : Reply :=
  let o := s.remove name
  match o.result with
  | .ok true => ⟨.done, o.session, o.notices⟩
  | .ok false => ⟨.ofError 404 "not found", o.session, o.notices⟩
  | .error _ => ⟨.failed, o.session, o.notices⟩

def answer (s : Session) (r : Request) (endpoint : Endpoint) : Reply :=
  match endpoint, r.method with
  | .asset _, .options => ⟨⟨200, .nothing, false⟩, s, []⟩
  | .asset _, _ => ⟨.page 404, s, []⟩
  | _, .options => ⟨.done, s, []⟩
  | .convert, _ => convert s r
  | .variables, .post => add s r
  | .variables, _ => ⟨.ofJson 200 (Json.ofTexts s.dictionary.entries.sorted), s, []⟩
  | .variable name, _ => remove s name

def respond (s : Session) (r : Request) : Reply :=
  let reply :=
    match r.route with
    | .found endpoint => answer s r endpoint
    | .redirected => ⟨.page 308, s, []⟩
    | .notAllowed => ⟨.page 405, s, []⟩
    | .notFound => ⟨.page 404, s, []⟩
    | .notForSockets => ⟨.page 400, s, []⟩
  if r.asksHead then { reply with response := reply.response.headOnly } else reply

def run (s : Session) (requests : List Request) : Session :=
  requests.foldl (fun s r => (respond s r).session) s

/-- The service over a database in memory with the given rows. Fails where the text under the key
nests too deep. -/
def start (rows : List (Cell × Text)) (key : Cell) : Session.Outcome Unit :=
  Session.start true (Database.ofRows rows) key

def fresh : Session := (start [] Dictionary.defaultKey).session

end

/-- The variables that the service for demonstration starts with. -/
def samples : List (Text × Json) :=
  [("--Heading-Font", "mackinac"), ("--Border-Medium", "border-gray-400"),
    ("--Text-Primary", "text-gray-900")].map (fun p => (Text.of p.1, .text (Text.of p.2)))

/-- The service for demonstration: the samples are written by one dictionary and read by another. -/
def demonstration [Json.Limit] : Session :=
  (Session.openKey (fresh.update samples).session Dictionary.defaultKey).session

/-! ## Small laws -/

/-- A request that no endpoint takes changes nothing. -/
theorem respond_session_of_not_found [Json.Limit] {s : Session} {r : Request}
    (h : ∀ endpoint, r.route ≠ .found endpoint) : (respond s r).session = s := by
  unfold respond
  cases hr : r.route with
  | found endpoint => exact absurd hr (h endpoint)
  | _ => simp only; split <;> rfl

end UtilityCss.Api
