import UtilityCss.Text.Cut
import UtilityCss.Value
/-
  References to variables inside a value, and their resolution.

  A reference is written `var(name,fallback)`: the name runs to the first
  comma and may hold anything else, the fallback runs to the first closing
  parenthesis after it, and neither is empty. A text is read from the left:
  at each place the reference that starts there is taken whole, and a place
  where none starts is plain text.

  What is proved:
    1. `Reference.read?_eq_some_iff` : a text starts with a reference exactly
       when it starts with the written form of one that is well formed.
    2. `Part.written_ofText` : the parts of a text, written one after the
       other, are the text.
-/

namespace UtilityCss

/-- What the dictionary says of a variable's name. -/
abbrev Lookup := Text → Option Text

/-- A reference to a variable: its name and its fallback, as they are written. -/
structure Reference where
  name : Text
  fallback : Text
  deriving DecidableEq, Repr

namespace Reference

/-- The text every reference starts with. -/
def opening : Text := "var("

def written (r : Reference) : Text := opening ++ r.name ++ .char ',' :: r.fallback ++ [.char ')']

/-- Whether a name and a fallback can stand in a reference. -/
def WellFormed (r : Reference) : Prop :=
  r.name ≠ [] ∧ CodePoint.char ',' ∉ r.name ∧ r.fallback ≠ [] ∧ CodePoint.char ')' ∉ r.fallback

instance (r : Reference) : Decidable r.WellFormed := by unfold WellFormed; infer_instance

/-- The name and the fallback after the opening, each up to the mark that ends it. -/
def readBody? (t : Text) : Option Reference :=
  match Text.breakAt? ',' t with
  | none => none
  | some (name, body) =>
    -- Neither mark is looked for again: an empty part makes no reference.
    match Text.breakAt? ')' body with
    | none => none
    | some (fallback, _) => if name = [] ∨ fallback = [] then none else some ⟨name, fallback⟩

/-- The reference that a text starts with. -/
def read? (t : Text) : Option Reference := (Text.stripPrefix? opening t).bind readBody?

end Reference

/-- A part of a text: plain text, or a reference. -/
inductive Part where
  | plain (text : Text)
  | reference (r : Reference)
  deriving DecidableEq, Repr

namespace Part

def written : Part → Text
  | .plain t => t
  | .reference r => r.written

/-- The plain text read so far (its characters in reverse), if there is any. -/
def flush (before : Text) : List Part := if before.isEmpty then [] else [.plain before.reverse]

/-- The parts of a text. The first `skip` characters belong to a reference already taken;
`before` holds the plain text since then, in reverse. -/
def scan : (skip : Nat) → (before : Text) → Text → List Part
  | _, before, [] => flush before
  | skip + 1, before, _ :: rest => scan skip before rest
  | 0, before, c :: rest =>
    match Reference.read? (c :: rest) with
    -- Its first character is read already.
    | some r => flush before ++ .reference r :: scan (r.written.length - 1) [] rest
    | none => scan 0 (c :: before) rest

def ofText (t : Text) : List Part := scan 0 [] t

end Part

/-! ## Resolution -/

def isQuote (c : CodePoint) : Bool := c == '"' || c == '\''

/-- The text without a quotation mark at its start. -/
def dropOpeningQuote : Text → Text
  | [] => []
  | c :: rest => if isQuote c then rest else c :: rest

/-- The text without the blanks around it, and then without one quotation mark at each end. -/
def unquote (t : Text) : Text :=
  (dropOpeningQuote (dropOpeningQuote (Text.trim t)).reverse).reverse

/-- What a reference stands for: the entry of its name, if that is there and not empty, or
else its fallback without quotation marks. -/
def Reference.resolve (lookup : Lookup) (r : Reference) : Segment :=
  match lookup (Text.trim r.name) with
  | some (c :: rest) => .entry (c :: rest)
  -- An empty entry counts as none.
  | _ => .literal (unquote r.fallback)

def Part.resolve (lookup : Lookup) : Part → Segment
  | .plain t => .literal t
  | .reference r => r.resolve lookup

/-- The value of a text whose references are looked up. A text without parts is the empty
literal. -/
def Value.resolve (lookup : Lookup) (raw : Text) : Value :=
  match Part.ofText raw with
  | [] => Value.ofLiteral []
  | parts => ⟨parts.map (Part.resolve lookup)⟩

/-! ## Small laws -/

namespace Reference

theorem readBody?_eq_some_iff {t : Text} {r : Reference} :
    readBody? t = some r ↔
      r.WellFormed ∧ ∃ rest, t = r.name ++ .char ',' :: r.fallback ++ .char ')' :: rest := by
  constructor
  · intro h
    unfold readBody? at h
    split at h
    · exact absurd h (by simp)
    · next name body hn =>
      split at h
      · exact absurd h (by simp)
      · next fallback rest hf =>
        split at h
        · exact absurd h (by simp)
        · next hne =>
          rw [not_or] at hne
          obtain ⟨rfl, hcomma⟩ := Text.breakAt?_eq_some_iff.1 hn
          obtain ⟨rfl, hclose⟩ := Text.breakAt?_eq_some_iff.1 hf
          simp only [Option.some.injEq] at h
          subst h
          exact ⟨⟨hne.1, hcomma, hne.2, hclose⟩, rest, by simp⟩
  · rintro ⟨⟨hn, hn', hf, hf'⟩, rest, rfl⟩
    have h1 : Text.breakAt? ',' (r.name ++ .char ',' :: r.fallback ++ .char ')' :: rest)
        = some (r.name, r.fallback ++ .char ')' :: rest) :=
      Text.breakAt?_eq_some_iff.2 ⟨by simp, hn'⟩
    have h2 : Text.breakAt? ')' (r.fallback ++ .char ')' :: rest) = some (r.fallback, rest) :=
      Text.breakAt?_eq_some_iff.2 ⟨rfl, hf'⟩
    simp only [readBody?, h1, h2]
    rw [if_neg (by rw [not_or]; exact ⟨hn, hf⟩)]

/-- A text starts with a reference exactly when it starts with the written form of one that
is well formed. -/
theorem read?_eq_some_iff {t : Text} {r : Reference} :
    read? t = some r ↔ r.WellFormed ∧ ∃ rest, t = r.written ++ rest := by
  unfold read?
  rw [Option.bind_eq_some_iff]
  constructor
  · rintro ⟨s, hs, hr⟩
    rw [Text.stripPrefix?_eq_some_iff] at hs
    obtain ⟨w, rest, rfl⟩ := readBody?_eq_some_iff.1 hr
    exact ⟨w, rest, by simp [written, hs]⟩
  · rintro ⟨w, rest, rfl⟩
    refine ⟨r.name ++ .char ',' :: r.fallback ++ .char ')' :: rest, ?_,
      readBody?_eq_some_iff.2 ⟨w, rest, rfl⟩⟩
    exact Text.stripPrefix?_eq_some_iff.2 (by simp [written])

end Reference

namespace Part

theorem written_flush (before : Text) : (flush before).flatMap written = before.reverse := by
  cases before <;> simp [flush, written]

theorem written_scan (t : Text) : ∀ skip before,
    (scan skip before t).flatMap written = before.reverse ++ t.drop skip := by
  induction t with
  | nil => intro skip before; cases skip <;> simp [scan, written_flush]
  | cons c rest ih =>
    intro skip before
    cases skip with
    | succ n => simp [scan, ih]
    | zero =>
      unfold scan
      split
      · next r hr =>
        obtain ⟨_, after, ha⟩ := Reference.read?_eq_some_iff.1 hr
        -- What is skipped is the rest of the reference, which leaves the text after it.
        have hlen : r.written.length = r.written.length - 1 + 1 := by
          simp only [Reference.written, List.length_append, List.length_cons]; omega
        have hdrop : rest.drop (r.written.length - 1) = after := by
          have : (c :: rest).drop r.written.length = after := by rw [ha]; simp
          rw [hlen] at this
          simpa using this
        simp only [List.flatMap_append, List.flatMap_cons, written_flush, ih, hdrop, written]
        simp [ha]
      · simp [ih]

/-- The parts of a text, written one after the other, are the text. -/
theorem written_ofText (t : Text) : (ofText t).flatMap written = t := by
  simp [ofText, written_scan]

end Part

end UtilityCss
