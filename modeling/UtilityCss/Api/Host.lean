import UtilityCss.Text.Cut
import UtilityCss.Text.Hex
import UtilityCss.Text.Quoted
/-
  The host that the target of a request may name, and what can be wrong with
  it.

  A host may have a user before it, up to the last `@`, and a port after it. It
  is a name, made of labels between points, or an address in brackets: eight
  groups of up to four hexadecimal digits between colons. Two colons in a row
  stand for groups of zeros, the last two groups may be written as four
  decimal numbers, and a zone may follow after a percent sign. A later form
  of address starts with its version.
-/

namespace UtilityCss.Api

inductive HostFault where
  | oneBracket
  | laterAddress
  | fourNumbers
  | noAddress (written : Text)
  | emptyLabel
  | longLabel
  | portNoNumber (written : Text)
  | portTooLarge
  deriving DecidableEq, Repr

namespace HostFault

def message : HostFault → Text
  | .oneBracket => "Invalid IPv6 URL"
  | .laterAddress => "IPvFuture address is invalid"
  | .fourNumbers => "An IPv4 address cannot be in brackets"
  | .noAddress written =>
    Text.quoted written ++ " does not appear to be an IPv4 or IPv6 address"
  | .emptyLabel => "encoding with 'idna' codec failed (UnicodeError: label empty or too long)"
  | .longLabel => "encoding with 'idna' codec failed (UnicodeError: label too long)"
  | .portNoNumber written =>
    "Port could not be cast to integer value as " ++ Text.quoted written
  | .portTooLarge => "Port out of range 0-65535"

end HostFault

namespace Host

/-- The text before the first place of a mark; all of it if the mark is not there. -/
def beforeFirst (mark : CodePoint) (t : Text) : Text := t.takeWhile (· ≠ mark)

/-- The text after the first place of a mark; nothing if the mark is not there. -/
def afterFirst (mark : CodePoint) (t : Text) : Text := (t.dropWhile (· ≠ mark)).drop 1

def number (digits : Text) : Nat := digits.foldl (fun n c => n * 10 + (c.toNat - 48)) 0

/-! ## Addresses -/

/-- Whether a text is a number below 256, without zeros before it. -/
def isSmallNumber (t : Text) : Bool :=
  !t.isEmpty && t.all CodePoint.isAsciiDigit && t.length ≤ 3 && number t < 256 &&
    (t == "0" || t.head? != some (.char '0'))

/-- Whether a text is an address of four numbers between points. -/
def isFourNumbers (t : Text) : Bool :=
  let numbers := Text.cut '.' t
  numbers.length == 4 && numbers.all isSmallNumber

def isGroup (t : Text) : Bool :=
  !t.isEmpty && t.length ≤ 4 && t.all (fun c => (Text.hexValue? c).isSome)

/-- The groups between colons, with two in the place of four numbers at the end. Nothing if there
is a point in the last of them and it is not four numbers. -/
def groups? (t : Text) : Option (List Text) :=
  let groups := Text.cut ':' t
  let last := groups.getLast?.getD []
  if last.contains '.' then
    if isFourNumbers last then some (groups.dropLast ++ [Text.of "0", Text.of "0"]) else none
  else some groups

/-- Whether groups make an address: eight, or fewer with one empty place among them. An empty
place at either end stands beside the other empty place. -/
def isGroups (groups : List Text) : Bool :=
  let inner := groups.drop 1 |>.dropLast
  match inner.findIdx? List.isEmpty with
  | none => groups.length == 8 && groups.all isGroup
  | some place =>
    let before := groups.take (place + 1)
    let after := groups.drop (place + 2)
    -- A colon at either end leaves an empty place of its own, which is no group.
    let before := if before == [[]] then [] else before
    let after := if after == [[]] then [] else after
    before.length + after.length ≤ 7 && before.all isGroup && after.all isGroup

/-- Whether a text is an address of groups, with or without a zone. -/
def isAddress (t : Text) : Bool :=
  let written := beforeFirst '%' t
  let zone := afterFirst '%' t
  let zoned := written.length == t.length || (!zone.isEmpty && !zone.contains '%')
  zoned && !t.contains '/' && 3 ≤ (Text.cut ':' written).length &&
    match groups? written with
    | none => false
    | some groups => isGroups groups

/-- Whether a text is an address of a later form: its version in hexadecimal digits after a
letter, a point, and something on one line. -/
def isLaterAddress (t : Text) : Bool :=
  let version := beforeFirst '.' (t.drop 1)
  let rest := afterFirst '.' t
  !version.isEmpty && version.all (fun c => (Text.hexValue? c).isSome) && !rest.isEmpty &&
    !rest.contains '\n'

/-- What is wrong with the brackets of a host and with what stands between them. -/
def bracketFault? (host : Text) : Option HostFault :=
  if host.contains '[' != host.contains ']' then some .oneBracket
  else if host.contains '[' then
    let address := beforeFirst ']' (afterFirst '[' host)
    if address.head? = some (.char 'v') then
      if isLaterAddress address then none else some .laterAddress
    else if isFourNumbers address then some .fourNumbers
    else if isAddress address then none
    else some (.noAddress address)
  else none

/-! ## Names and ports -/

def withoutUser (host : Text) : Text := (beforeFirst '@' host.reverse).reverse

/-- The name or the address of a host, and its port. -/
def parts (host : Text) : Text × Text :=
  let bare := withoutUser host
  if bare.contains '[' then
    let inner := afterFirst '[' bare
    (beforeFirst ']' inner, afterFirst ':' (afterFirst ']' inner))
  else (beforeFirst ':' bare, afterFirst ':' bare)

def userOf (host : Text) : Text := (afterFirst '@' host.reverse).reverse

/-- A host in its plain form: the name in small letters, the port without zeros before it and
only where it is not zero, and the user only where it has a name. -/
def plain (host : Text) : Text :=
  let name := (parts host).1.map CodePoint.toLower
  let port := number (parts host).2
  let userPart : Text := if beforeFirst ':' (userOf host) = [] then [] else userOf host ++ "@"
  let namePart : Text := if name.contains ':' then "[" ++ name ++ "]" else name
  let portPart : Text := if port = 0 then [] else ":" ++ Text.decimal port
  userPart ++ namePart ++ portPart

/-- What is wrong with the labels of a name: none but the last may be empty, and none may have
more than 63 characters. -/
def labelFault? (name : Text) : Option HostFault :=
  let labels := Text.cut '.' name
  let tooLong (label : Text) : Bool := 63 < label.length
  if name.isEmpty then none
  else if labels.dropLast.any (fun label => label.isEmpty || tooLong label) then some .emptyLabel
  else if labels.getLast?.any tooLong then some .longLabel
  else none

def portFault? (port : Text) : Option HostFault :=
  if port.isEmpty then none
  else if !port.all CodePoint.isAsciiDigit then some (.portNoNumber port)
  else if 65535 < number port then some .portTooLarge
  else none

def nameFault? (host : Text) : Option HostFault :=
  (labelFault? (parts host).1).or (portFault? (parts host).2)

end Host

end UtilityCss.Api
