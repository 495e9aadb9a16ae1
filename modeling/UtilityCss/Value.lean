import UtilityCss.Text.Blank
/-
  The value of a declaration once its references are resolved.

  A value is a sequence of segments, so that text that came from the
  dictionary stays apart from literal text. Literal text is cut at blanks,
  text from the dictionary never is.

  What is proved:
    1. `tokens_nonempty` : no token is without segments.
    2. `text_ofLiteral`, `text_ofEntry` : the text of a value of one segment.
-/

namespace UtilityCss

/-- A part of a value: literal text, or the text of a dictionary entry. -/
inductive Segment where
  | literal (text : Text)
  | entry (text : Text)
  deriving DecidableEq, Repr

namespace Segment

/-- The text of a segment, wherever it came from. -/
def text : Segment → Text
  | .literal t => t
  | .entry t => t

/-- Whether a segment is literal text with nothing in it but blanks. -/
def isBlank : Segment → Bool
  | .literal t => t.all Text.isBlank
  | .entry _ => false

end Segment

/-- A value: its segments in order. -/
structure Value where
  segments : List Segment
  deriving DecidableEq, Repr

namespace Value

def ofLiteral (t : Text) : Value := ⟨[.literal t]⟩

def ofEntry (t : Text) : Value := ⟨[.entry t]⟩

/-- The value as plain text, entries in place. -/
def text (v : Value) : Text := v.segments.flatMap Segment.text

/-- The dictionary entry that the whole value is, blank literals aside. -/
def entry? (v : Value) : Option Text :=
  match v.segments.filter (fun s => !s.isBlank) with
  | [.entry t] => some t
  | _ => none

/-! ## Tokens -/

/-- What a value is cut into: gaps, and segments without one. -/
inductive Piece where
  | gap
  | solid (segment : Segment)
  deriving DecidableEq, Repr

/-- The literal run read so far (its characters in reverse), if there is one. -/
def flushRun (run : Text) : List Piece :=
  if run.isEmpty then [] else [.solid (.literal run.reverse)]

/-- The pieces of literal text, given the reversed characters of a run already begun. -/
def literalPieces (run : Text) : Text → List Piece
  | [] => flushRun run
  | c :: rest =>
    if Text.isBlank c then flushRun run ++ .gap :: literalPieces [] rest
    else literalPieces (c :: run) rest

/-- The pieces of a segment: an entry is one piece whatever it holds. -/
def pieces : Segment → List Piece
  | .literal t => literalPieces [] t
  | .entry t => [.solid (.entry t)]

/-- The token read so far (its segments in reverse), if there is one. -/
def flushToken (current : List Segment) : List Value :=
  if current.isEmpty then [] else [⟨current.reverse⟩]

/-- The tokens of a row of pieces, given the reversed segments of a token already begun. -/
def tokensFrom (current : List Segment) : List Piece → List Value
  | [] => flushToken current
  | .gap :: rest => flushToken current ++ tokensFrom [] rest
  | .solid s :: rest => tokensFrom (s :: current) rest

/-- The value cut at the blanks of its literal text. Segments with no blank between them
stay in one token. -/
def tokens (v : Value) : List Value := tokensFrom [] (v.segments.flatMap pieces)

/-! ## Small laws -/

theorem text_ofLiteral (t : Text) : (ofLiteral t).text = t := by simp [ofLiteral, text, Segment.text]

theorem text_ofEntry (t : Text) : (ofEntry t).text = t := by simp [ofEntry, text, Segment.text]

theorem tokensFrom_nonempty (row : List Piece) :
    ∀ current, ∀ t ∈ tokensFrom current row, t.segments ≠ [] := by
  have flush : ∀ current, ∀ t ∈ flushToken current, t.segments ≠ [] := by
    intro current t ht
    cases current with
    | nil => simp [flushToken] at ht
    | cons s rest =>
      simp only [flushToken, List.isEmpty_cons, Bool.false_eq_true, if_false,
        List.mem_singleton] at ht
      simp [ht]
  induction row with
  | nil => exact flush
  | cons p rest ih =>
    intro current t ht
    cases p with
    | gap =>
      rcases List.mem_append.1 ht with h | h
      · exact flush current t h
      · exact ih [] t h
    | solid s => exact ih (s :: current) t ht

/-- No token is without segments. -/
theorem tokens_nonempty (v : Value) : ∀ t ∈ v.tokens, t.segments ≠ [] :=
  tokensFrom_nonempty _ []

end Value

end UtilityCss
