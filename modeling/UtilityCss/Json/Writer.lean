import UtilityCss.Json.Basic
import UtilityCss.Text.Hex
/-
  JSON values written in ASCII.

  A character outside the visible part of ASCII is escaped: by a letter where
  JSON has one, and else by its code point, which takes two escapes above
  U+FFFF. There are three layouts: on one line with blanks after commas and
  colons, on one line without, and with every member on a line of its own.

  What is proved:
    1. `writeChar_visible` : a written character holds visible ASCII alone.
    2. `writeText_visible` : so does a written text.
-/

namespace UtilityCss.Json

/-- The letter that escapes a character, if there is one. -/
def escapeLetter? (c : CodePoint) : Option CodePoint :=
  if c = '"' then some (.char '"')
  else if c = '\\' then some (.char '\\')
  else if c = '\n' then some (.char 'n')
  else if c = '\r' then some (.char 'r')
  else if c = '\t' then some (.char 't')
  else if c = '\x08' then some (.char 'b')
  else if c = '\x0c' then some (.char 'f')
  else none

/-- The escape of a number of sixteen bits. -/
def escapeUnit (n : Nat) : Text := '\\' :: 'u' :: Text.hexFixed 4 n

/-- A character inside a written text. -/
def writeChar (c : CodePoint) : Text :=
  match escapeLetter? c with
  | some letter => ['\\', letter]
  | none =>
    let n := c.toNat
    if 0x20 ≤ n ∧ n < 0x7F then [c]
    else if n < 0x10000 then escapeUnit n
    else escapeUnit (0xD800 + (n - 0x10000) / 0x400) ++ escapeUnit (0xDC00 + (n - 0x10000) % 0x400)

def writeText (t : Text) : Text := .char '"' :: t.flatMap writeChar ++ [.char '"']

/-- How the parts of a value are set apart. -/
inductive Layout where
  | spaced
  | compact
  | indented
  deriving DecidableEq, Repr

namespace Layout

/-- The start of a line at a depth, where there is one. -/
def newLine (layout : Layout) (depth : Nat) : Text :=
  match layout with
  | indented => '\n' :: List.replicate (2 * depth) ' '
  | _ => []

/-- What stands between two parts at a depth. -/
def comma (layout : Layout) (depth : Nat) : Text :=
  match layout with
  | spaced => ", "
  | compact => ","
  | indented => ',' :: indented.newLine depth

/-- What stands between a name and its value. -/
def colon (layout : Layout) : Text :=
  match layout with
  | compact => ":"
  | _ => ": "

/-- Written parts between their brackets, at a depth. -/
def enclose (layout : Layout) (depth : Nat) (opening closing : CodePoint) : List Text → Text
  | [] => [opening, closing]
  | parts =>
    opening :: layout.newLine (depth + 1) ++ Text.joinWith (layout.comma (depth + 1)) parts ++
      layout.newLine depth ++ [closing]

end Layout

def writeReal : Binary64 → Text
  | .nan => "NaN"
  | .infinite negative => if negative then "-Infinity" else "Infinity"
  | x => x.text

mutual

/-- A written value, at a depth. -/
def writeAt (layout : Layout) (depth : Nat) : Json → Text
  | .null => "null"
  | .bool true => "true"
  | .bool false => "false"
  | .whole value => wholeText value
  | .real value => writeReal value
  | .text value => writeText value
  | .array items => layout.enclose depth '[' ']' (writeItems layout (depth + 1) items)
  | .object members => layout.enclose depth '{' '}' (writeMembers layout (depth + 1) members)

def writeItems (layout : Layout) (depth : Nat) : List Json → List Text
  | [] => []
  | item :: rest => writeAt layout depth item :: writeItems layout depth rest

def writeMembers (layout : Layout) (depth : Nat) : List (Text × Json) → List Text
  | [] => []
  | (name, value) :: rest =>
    (writeText name ++ layout.colon ++ writeAt layout depth value) :: writeMembers layout depth rest

end

def write (layout : Layout) (value : Json) : Text := value.writeAt layout 0

/-- The object of a map of texts. -/
def ofTexts (entries : List (Text × Text)) : Json := .object (entries.map (fun e => (e.1, .text e.2)))

/-! ## Small laws -/

theorem escapeLetter?_visible {c letter : CodePoint} (h : escapeLetter? c = some letter) :
    0x20 ≤ letter.toNat ∧ letter.toNat < 0x7F := by
  unfold escapeLetter? at h
  repeat' split at h
  all_goals cases h
  all_goals decide

theorem escapeUnit_visible (n : Nat) : ∀ d ∈ escapeUnit n, 0x20 ≤ d.toNat ∧ d.toNat < 0x7F := by
  intro d hd
  rcases List.mem_cons.1 hd with rfl | hd
  · decide
  · rcases List.mem_cons.1 hd with rfl | hd
    · decide
    · exact Text.hexFixed_visible 4 n d hd

/-- A written character holds visible characters of ASCII alone. -/
theorem writeChar_visible (c : CodePoint) : ∀ d ∈ writeChar c, 0x20 ≤ d.toNat ∧ d.toNat < 0x7F := by
  intro d hd
  unfold writeChar at hd
  split at hd
  · next letter h =>
    rcases List.mem_cons.1 hd with rfl | hd
    · decide
    · rw [List.mem_singleton.1 hd]
      exact escapeLetter?_visible h
  · simp only at hd
    split at hd
    · next h => rwa [List.mem_singleton.1 hd]
    · split at hd
      · exact escapeUnit_visible _ d hd
      · rcases List.mem_append.1 hd with h | h
        · exact escapeUnit_visible _ d h
        · exact escapeUnit_visible _ d h

/-- A written text holds visible characters of ASCII alone. -/
theorem writeText_visible (t : Text) : ∀ d ∈ writeText t, 0x20 ≤ d.toNat ∧ d.toNat < 0x7F := by
  intro d hd
  rcases List.mem_append.1 hd with h | h
  · rcases List.mem_cons.1 h with rfl | h
    · decide
    · obtain ⟨c, _, hc⟩ := List.mem_flatMap.1 h
      exact writeChar_visible c d hc
  · rw [List.mem_singleton.1 h]
    decide

end UtilityCss.Json
