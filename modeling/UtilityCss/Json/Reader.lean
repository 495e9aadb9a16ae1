import UtilityCss.Json.Basic
import UtilityCss.Text.Cut
import UtilityCss.Text.Hex
/-
  JSON values read from a text, and what is wrong with a text that holds none.

  The reader is strict but for the three numbers `NaN`, `Infinity` and
  `-Infinity`. It goes from left to right and stops at the first fault; a fault
  knows the text that was left when it was met, and so its place. An escape
  for a half of a pair of surrogates is read as that half where the other does
  not follow. Whole numbers have a greatest length, and values a greatest depth;
  how great that is depends on where the program runs.

  What is proved:
    1. `read?_eq_some_iff` : a value is found exactly when the text is read as
       it without a fault.
-/

namespace UtilityCss.Json

/-- A value that holds others. -/
inductive Container where
  | array
  | object
  deriving DecidableEq, Repr

/-- What is wrong with a text. -/
inductive Complaint where
  | byteOrderMark
  | noValue
  | noName
  | noColon
  | noComma
  | extraData
  | unterminated
  | controlCharacter
  | badEscape
  | badCodePoint
  | tooManyDigits (count : Nat)
  | tooDeep (container : Container)
  deriving DecidableEq, Repr

/-- A complaint, and the text that was left where it arose. -/
structure Fault where
  complaint : Complaint
  rest : Text
  deriving DecidableEq, Repr

/-- What is read from the start of a text, and the text after it. -/
abbrev Reading (α : Type) := Except Fault (α × Text)

/-- Blank characters between the parts of a value. -/
def isGap (c : CodePoint) : Bool := c == ' ' || c == '\n' || c == '\r' || c == '\t'

def skipGaps (t : Text) : Text := t.dropWhile isGap

/-! ## Texts -/

/-- The character that a letter after a backslash stands for. -/
def unescape? (letter : CodePoint) : Option CodePoint :=
  if letter = '"' then some (.char '"')
  else if letter = '\\' then some (.char '\\')
  else if letter = '/' then some (.char '/')
  else if letter = 'b' then some (.char '\x08')
  else if letter = 'f' then some (.char '\x0c')
  else if letter = 'n' then some (.char '\n')
  else if letter = 'r' then some (.char '\r')
  else if letter = 't' then some (.char '\t')
  else none

/-- What the letter after a backslash and what follows it stand for, and how many characters
that takes. An escape by code point must have something after it. `start` is the text from the
opening mark on. -/
def readEscape (start : Text) (t : Text) : Except Fault (CodePoint × Nat) :=
  match t with
  | [] => .error ⟨.unterminated, start⟩
  | 'u' :: a :: b :: c :: d :: e :: more =>
    match Text.hexFour? a b c d with
    | none => .error ⟨.badCodePoint, t⟩
    | some high =>
      if Surrogate.isHigh high then
        match e :: more with
        | '\\' :: 'u' :: f :: g :: h :: i :: _ :: _ =>
          match Text.hexFour? f g h i with
          | none => .error ⟨.badCodePoint, more⟩
          | some low =>
            -- The letter and four digits are five characters, and the second escape is six more.
            if Surrogate.isLow low then .ok (CodePoint.ofNat (Surrogate.join high low), 11)
            else .ok (CodePoint.ofNat high, 5)
        | _ => .ok (CodePoint.ofNat high, 5)
      else .ok (CodePoint.ofNat high, 5)
  | letter :: _ =>
    if letter = 'u' then .error ⟨.badCodePoint, t⟩
    else match unescape? letter with
      | some c => .ok (c, 1)
      | none => .error ⟨.badEscape, '\\' :: t⟩

/-- The rest of a text inside quotation marks. The first `skip` characters belong to an escape
already read; `done` holds the characters read so far, in reverse, and `start` is the text from
the opening mark on. -/
def readText (start : Text) : (skip : Nat) → (done : Text) → Text → Reading Text
  | _, _, [] => .error ⟨.unterminated, start⟩
  | skip + 1, done, _ :: rest => readText start skip done rest
  | 0, done, c :: rest =>
    if c = '"' then .ok (done.reverse, rest)
    else if c = '\\' then
      match readEscape start rest with
      | .error fault => .error fault
      | .ok (c, taken) => readText start taken (c :: done) rest
    else if c.toNat < 0x20 then .error ⟨.controlCharacter, c :: rest⟩
    else readText start 0 (c :: done) rest

/-! ## Numbers and names -/

/-- The greatest length of a whole number, in digits. -/
def greatestDigits : Nat := 4300

/-- The number that decimal digits count. -/
def digitsValue (digits : Text) : Nat := digits.foldl (fun n c => n * 10 + (c.toNat - 48)) 0

/-- The decimals after a point and what follows them; none without a digit after the point. -/
def readFraction (t : Text) : Text × Text :=
  match t with
  | '.' :: rest =>
    let digits := rest.takeWhile CodePoint.isAsciiDigit
    if digits.isEmpty then ([], t) else (digits, rest.dropWhile CodePoint.isAsciiDigit)
  | _ => ([], t)

/-- The exponent and what follows it; none without a digit. -/
def readExponent (t : Text) : Option Int × Text :=
  match t with
  | mark :: rest =>
    if mark = 'e' ∨ mark = 'E' then
      let (negative, body) :=
        match rest with
        | '-' :: body => (true, body)
        | '+' :: body => (false, body)
        | body => (false, body)
      let digits := body.takeWhile CodePoint.isAsciiDigit
      if digits.isEmpty then (none, t)
      else
        let n : Int := digitsValue digits
        (some (if negative then -n else n), body.dropWhile CodePoint.isAsciiDigit)
    else (none, t)
  | [] => (none, t)

/-- The digits of a whole number that a text starts with, and what follows: a zero stands
alone. -/
def readDigits? (t : Text) : Option (Text × Text) :=
  match t with
  | '0' :: rest => some (['0'], rest)
  | _ =>
    let digits := t.takeWhile CodePoint.isAsciiDigit
    if digits.isEmpty then none else some (digits, t.dropWhile CodePoint.isAsciiDigit)

/-- The number that a text starts with. -/
def readNumber (t : Text) : Reading Json :=
  let (negative, body) :=
    match t with
    | '-' :: body => (true, body)
    | body => (false, body)
  match readDigits? body with
  | none => .error ⟨.noValue, t⟩
  | some (digits, afterDigits) =>
    let (decimals, afterDecimals) := readFraction afterDigits
    let (exponent?, rest) := readExponent afterDecimals
    match decimals, exponent? with
    | [], none =>
      -- Only a number without a point and an exponent is whole, and only a whole one is bounded.
      if greatestDigits < digits.length then .error ⟨.tooManyDigits digits.length, t⟩
      else
        let n : Int := digitsValue digits
        .ok (.whole (if negative then -n else n), rest)
    | decimals, exponent? =>
      let tens : Int := exponent?.getD 0 - decimals.length
      .ok (.real (Binary64.ofDecimal negative (digitsValue (digits ++ decimals)) tens), rest)

/-- The values that are written as names. -/
def names : List (Text × Json) :=
  [("null", .null), ("true", .bool true), ("false", .bool false),
    ("NaN", .real .nan), ("Infinity", .real (.infinite false)),
    ("-Infinity", .real (.infinite true))]

/-- The name or the number that a text starts with. -/
def readScalar (t : Text) : Reading Json :=
  match names.findSome? (fun p => (Text.stripPrefix? p.1 t).map (p.2, ·)) with
  | some reading => .ok reading
  | none => readNumber t

/-! ## Values -/

/-- How deep values may nest: how many brackets may be open at once. Two of them always may. -/
class Limit where
  greatestDepth : Nat
  two_le : 2 ≤ greatestDepth

/-- The least limit. -/
@[reducible] def Limit.least : Limit := ⟨2, Nat.le_refl 2⟩

mutual

/-- The value that a text starts with. There is room for `room` more open brackets. -/
def readValue : (fuel : Nat) → (room : Nat) → Text → Reading Json
  | 0, _, t => .error ⟨.noValue, t⟩
  | fuel + 1, room, t =>
    match t with
    | '"' :: rest =>
      match readText t 0 [] rest with
      | .error fault => .error fault
      | .ok (value, rest) => .ok (.text value, rest)
    | '[' :: rest =>
      -- The depth is looked at first, so that an empty array can be too deep.
      match room, skipGaps rest with
      | 0, _ => .error ⟨.tooDeep .array, t⟩
      | _, ']' :: rest => .ok (.array [], rest)
      | room + 1, rest => readItems fuel room [] rest
    | '{' :: rest =>
      match room, skipGaps rest with
      | 0, _ => .error ⟨.tooDeep .object, t⟩
      | _, '}' :: rest => .ok (.object [], rest)
      | room + 1, rest => readMembers fuel room [] rest
    | _ => readScalar t

/-- The items of an array up to its end, after those already read, which are in reverse. -/
def readItems : (fuel : Nat) → (room : Nat) → (done : List Json) → Text → Reading Json
  | 0, _, _, t => .error ⟨.noValue, t⟩
  | fuel + 1, room, done, t =>
    match readValue fuel room t with
    | .error fault => .error fault
    | .ok (item, rest) =>
      match skipGaps rest with
      | ']' :: rest => .ok (.array (item :: done).reverse, rest)
      | ',' :: rest => readItems fuel room (item :: done) (skipGaps rest)
      | rest => .error ⟨.noComma, rest⟩

/-- The members of an object up to its end, after those already read. A repeated name keeps its
first place and takes the last value. -/
def readMembers : (fuel : Nat) → (room : Nat) → (done : List (Text × Json)) → Text → Reading Json
  | 0, _, _, t => .error ⟨.noName, t⟩
  | fuel + 1, room, done, t =>
    match t with
    | '"' :: rest =>
      match readText t 0 [] rest with
      | .error fault => .error fault
      | .ok (name, rest) =>
        match skipGaps rest with
        | ':' :: rest =>
          match readValue fuel room (skipGaps rest) with
          | .error fault => .error fault
          | .ok (value, rest) =>
            match skipGaps rest with
            | '}' :: rest => .ok (.object (Pairs.put name value done), rest)
            | ',' :: rest => readMembers fuel room (Pairs.put name value done) (skipGaps rest)
            | rest => .error ⟨.noComma, rest⟩
        | rest => .error ⟨.noColon, rest⟩
    -- Here also a closing brace after a comma is met.
    | _ => .error ⟨.noName, t⟩

end

section

variable [Limit]

/-- The value that a whole text holds. Every value takes a character at least and nests no deeper
than the text is long, so the fuel is enough. -/
def read (t : Text) : Except Fault Json :=
  if t.head? = some (.char '\uFEFF') then .error ⟨.byteOrderMark, t⟩
  else
    match readValue (2 * t.length + 2) Limit.greatestDepth (skipGaps t) with
    | .error fault => .error fault
    | .ok (value, rest) =>
      match skipGaps rest with
      | [] => .ok value
      | rest => .error ⟨.extraData, rest⟩

end

/-! ## Faults in words -/

def Complaint.message : Complaint → Text
  | .byteOrderMark => "Unexpected UTF-8 BOM (decode using utf-8-sig)"
  | .noValue => "Expecting value"
  | .noName => "Expecting property name enclosed in double quotes"
  | .noColon => "Expecting ':' delimiter"
  | .noComma => "Expecting ',' delimiter"
  | .extraData => "Extra data"
  | .unterminated => "Unterminated string starting at"
  | .controlCharacter => "Invalid control character at"
  | .badEscape => "Invalid \\escape"
  | .badCodePoint => "Invalid \\uXXXX escape"
  | .tooManyDigits count =>
    "Exceeds the limit (" ++ Text.decimal greatestDigits ++
      " digits) for integer string conversion: value has " ++ Text.decimal count ++
      " digits; use sys.set_int_max_str_digits() to increase the limit"
  | .tooDeep .array =>
    "maximum recursion depth exceeded while decoding a JSON array from a unicode string"
  | .tooDeep .object =>
    "maximum recursion depth exceeded while decoding a JSON object from a unicode string"

/-- Where in the whole text a fault is: its line, its column and its place, of which only the
last is counted from zero. -/
def Fault.place (whole : Text) (fault : Fault) : Nat × Nat × Nat :=
  let before := whole.take (whole.length - fault.rest.length)
  let line := before.reverse.takeWhile (· ≠ .char '\n')
  (before.count (.char '\n') + 1, line.length + 1, before.length)

/-- Whether a fault is that of a value that is too deep. -/
def Fault.tooDeep? (fault : Fault) : Option Container :=
  match fault.complaint with
  | .tooDeep container => some container
  | _ => none

section

variable [Limit]

/-- The value that a text holds, if it holds one. Fails only on a value that is too deep. -/
def read? (t : Text) : Except Container (Option Json) :=
  match read t with
  | .ok value => .ok (some value)
  | .error fault =>
    match fault.tooDeep? with
    | some container => .error container
    | none => .ok none

/-- A value is found exactly when the text is read as it without a fault. -/
theorem read?_eq_some_iff {t : Text} {value : Json} :
    read? t = .ok (some value) ↔ read t = .ok value := by
  unfold read?
  split
  · next v hv => simp [hv]
  · next fault hfault =>
    rw [hfault]
    split <;> simp

end

/-- A fault in words, with its place unless it concerns a value as a whole. -/
def Fault.message (whole : Text) (fault : Fault) : Text :=
  match fault.complaint with
  | .tooManyDigits _ | .tooDeep _ => fault.complaint.message
  | _ =>
    let (line, column, place) := fault.place whole
    fault.complaint.message ++ ": line " ++ Text.decimal line ++ " column " ++
      Text.decimal column ++ " (char " ++ Text.decimal place ++ ")"

end UtilityCss.Json
