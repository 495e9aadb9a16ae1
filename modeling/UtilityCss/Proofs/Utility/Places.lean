import UtilityCss.Proofs.Value.Origin
/-
  The places that are read of lists on the way from a style to its classes.

  Tokens are told apart by place: the width of a border is the first of them,
  the style the second, and a colour of one token the third. An entry is the
  first segment of those that are not blank, if it is the only one. Here the
  classes are read so, and a place that a list does not have is a fault.

  Each of these places is read behind a look at the length, but for that of
  the width: there the look is at the text, which joins literals and entries,
  while tokens come of the segments one by one. The two differ on one kind of
  value only: with an entry that is blank, among literals that are, there is a
  token although the text is blank. So a border whose text is not blank has a
  width.

  What is proved:
    1. `tokens_eq_nil_iff_blank` : a value has no token exactly when its text
       is blank and no part of it is an entry.
    2. `expand_eq_error_iff` : the tokens of a border are read with a fault
       exactly when there are none, at the place of the width.
    3. `step_eq`, `run_eq` : what one border gives, and several in order.
    4. `utilities_in_range` : a style is read without a fault, and its classes
       are those of `utilities`.
-/

namespace UtilityCss

/-! ## Items by place -/

/-- A place that a list does not have. -/
structure OutOfRange where
  place : Nat
  length : Nat
  deriving DecidableEq, Repr

/-- The item at a place of a list. -/
def itemAt {α : Type} (items : List α) (place : Nat) : Except OutOfRange α :=
  match items[place]? with
  | some item => .ok item
  | none => .error ⟨place, items.length⟩

/-! ## Values without a token -/

namespace Value

/-- A value has no token exactly when its text is blank and no part of it is an entry. -/
theorem tokens_eq_nil_iff_blank (v : Value) :
    v.tokens = [] ↔ Text.trim v.text = [] ∧ ∀ t, .entry t ∉ v.segments := by
  rw [tokens_eq_nil_iff, Text.trim_blank_iff]
  constructor
  · intro h
    refine ⟨?_, fun t ht => nomatch h _ ht⟩
    intro c hc
    obtain ⟨s, hs, hc⟩ := List.mem_flatMap.1 hc
    cases s with
    | literal t => exact List.all_eq_true.1 (h _ hs) c hc
    | entry t => exact nomatch h _ hs
  · rintro ⟨hblank, hentries⟩ s hs
    cases s with
    | literal t => exact List.all_eq_true.2 fun c hc => hblank c (List.mem_flatMap.2 ⟨_, hs, hc⟩)
    | entry t => exact absurd hs (hentries t)

/-- A value whose text is not blank has a first token. -/
theorem exists_tokens_cons {v : Value} (h : Text.trim v.text ≠ []) :
    ∃ width rest, v.tokens = width :: rest :=
  List.exists_cons_of_ne_nil fun hnil => h ((tokens_eq_nil_iff_blank v).1 hnil).1

/-- The entry that a value is: the first segment that is not blank, if there is no other. -/
def entryByPlace (v : Value) : Except OutOfRange (Option Text) :=
  let solid := v.segments.filter (fun s => !s.isBlank)
  if solid.length = 1 then do
    match ← itemAt solid 0 with
    | .entry t => return some t
    | .literal _ => return none
  else return none

theorem entryByPlace_eq (v : Value) : v.entryByPlace = .ok v.entry? := by
  unfold entryByPlace entry?
  generalize v.segments.filter (fun s => !s.isBlank) = solid
  match solid with
  | [] => rfl
  | [.entry _] => rfl
  | [.literal _] => rfl
  | _ :: _ :: _ => simp [pure, Except.pure]

end Value

/-! ## Rules -/

namespace Rule

/-- The classes a rule gives for a value, its entry read by place. -/
def classesByPlace (rule : Rule) (value : Value) : Except OutOfRange (List Text) :=
  if value.text = [] then return []
  else do
    match ← value.entryByPlace with
    | some entry => return rule.ofEntry entry
    | none => return rule.ofText value.text

def ofDeclarationsByPlace (declarations : Declarations) (rule : Rule) : Except OutOfRange (List Text) :=
  match declarations.get? rule.property with
  | some value => rule.classesByPlace value
  | none => return []

/-- The classes of several rules in order. -/
def allByPlace (declarations : Declarations) (rules : List Rule) : Except OutOfRange (List Text) := do
  let classes ← rules.mapM (ofDeclarationsByPlace declarations)
  return classes.flatten

theorem classesByPlace_eq (rule : Rule) (value : Value) :
    rule.classesByPlace value = .ok (rule.classes value) := by
  unfold classesByPlace classes
  split
  · rfl
  · rw [Value.entryByPlace_eq]
    cases value.entry? <;> rfl

theorem ofDeclarationsByPlace_eq (declarations : Declarations) (rule : Rule) :
    rule.ofDeclarationsByPlace declarations = .ok (rule.ofDeclarations declarations) := by
  unfold ofDeclarationsByPlace ofDeclarations
  cases declarations.get? rule.property with
  | none => rfl
  | some value => exact classesByPlace_eq rule value

theorem allByPlace_eq (declarations : Declarations) (rules : List Rule) :
    allByPlace declarations rules = .ok (rules.flatMap (ofDeclarations declarations)) := by
  have hrules : ofDeclarationsByPlace declarations =
      fun rule => pure (rule.ofDeclarations declarations) :=
    funext (ofDeclarationsByPlace_eq declarations)
  rw [allByPlace, hrules, List.mapM_pure, pure_bind, List.flatMap_def]
  rfl

end Rule

/-! ## The tokens of a border -/

namespace BorderSide

def classOfByPlace (side : BorderSide) (part : Value) : Except OutOfRange Text := do
  let entry ← part.entryByPlace
  return entry.getD (bracketed side.stem part.text)

/-- The classes for the first token. Nothing here asks whether there is one. -/
def widthByPlace (side : BorderSide) (parts : List Value) : Except OutOfRange (List Text) := do
  let width ← itemAt parts 0
  if width.text ∈ zeroBorderWidths then return []
  else if width.text ∈ defaultBorderWidths then return [side.stem]
  else
    let widthClass ← side.classOfByPlace width
    return [widthClass]

/-- The style that the second token is, if there are two. -/
def styleByPlace (parts : List Value) : Except OutOfRange (Option Text) :=
  if 2 ≤ parts.length then do
    let style ← itemAt parts 1
    return if style.text = "none" then none else some style.text
  else return none

/-- The colour that the tokens from the third on are, if there are three. -/
def colorByPlace (parts : List Value) : Except OutOfRange (Option Value) :=
  if 3 ≤ parts.length then
    let rest := parts.drop 2
    if rest.length = 1 then do
      let color ← itemAt rest 0
      return some color
    else return some (Value.ofLiteral (Text.joinWith [' '] (rest.map Value.text)))
  else return none

def colorClassesByPlace (side : BorderSide) : Option Value → Except OutOfRange (List Text)
  | some color =>
    if color.text = "transparent" then return []
    else do
      let colorClass ← side.classOfByPlace color
      return [colorClass]
  | none => return []

/-- The classes for the tokens of a border, and the styles that are named behind it. -/
def expand (named : List Text) (side : BorderSide) (parts : List Value) :
    Except OutOfRange (List Text × List Text) := do
  let width ← side.widthByPlace parts
  let style ← styleByPlace parts
  let color ← colorByPlace parts
  let colorClasses ← side.colorClassesByPlace color
  return (width ++ styleClasses named style ++ colorClasses, named ++ style.toList)

theorem classOfByPlace_eq (side : BorderSide) (part : Value) :
    side.classOfByPlace part = .ok (side.classOf part) := by
  rw [classOfByPlace, Value.entryByPlace_eq]
  rfl

theorem widthByPlace_cons (side : BorderSide) (width : Value) (rest : List Value) :
    side.widthByPlace (width :: rest) = .ok (side.widthClasses width) := by
  show (if width.text ∈ zeroBorderWidths then _ else _) = Except.ok (side.widthClasses width)
  rw [widthClasses, classOfByPlace_eq]
  split
  · rfl
  · split <;> rfl

theorem styleByPlace_eq (parts : List Value) : styleByPlace parts = .ok (style? parts) := by
  match parts with
  | [] => rfl
  | [_] => rfl
  | _ :: style :: _ =>
    rw [styleByPlace, if_pos (by simp)]
    rfl

theorem colorByPlace_eq (parts : List Value) : colorByPlace parts = .ok (color? (parts.drop 2)) := by
  match parts with
  | [] => rfl
  | [_] => rfl
  | [_, _] => rfl
  | [_, _, _] => rfl
  | _ :: _ :: _ :: _ :: _ =>
    rw [colorByPlace, if_pos (by simp)]
    exact if_neg (by simp)

theorem colorClassesByPlace_eq (side : BorderSide) (color : Option Value) :
    side.colorClassesByPlace color = .ok (side.colorClasses color) := by
  cases color with
  | none => rfl
  | some color =>
    rw [colorClassesByPlace, colorClasses, classOfByPlace_eq]
    split <;> rfl

theorem expand_cons (named : List Text) (side : BorderSide) (width : Value) (rest : List Value) :
    side.expand named (width :: rest) =
      .ok (side.classes named (width :: rest), named ++ (style? (width :: rest)).toList) := by
  -- With a width there, each of the other places is behind its look at the length.
  rw [expand, widthByPlace_cons, styleByPlace_eq, colorByPlace_eq]
  show (side.colorClassesByPlace _ >>= _) = _
  rw [colorClassesByPlace_eq]
  rfl

/-- The tokens of a border are read with a fault exactly when there are none, and then at the place
of the width. -/
theorem expand_eq_error_iff (named : List Text) (side : BorderSide) (parts : List Value)
    (fault : OutOfRange) :
    side.expand named parts = .error fault ↔ parts = [] ∧ fault = ⟨0, 0⟩ := by
  cases parts with
  | nil =>
    show Except.error ⟨0, 0⟩ = Except.error fault ↔ _
    rw [Except.error.injEq, eq_comm, and_iff_right rfl]
  | cons width rest => simp [expand_cons]

/-- Blank literals have no token, so the tokens of such a border may not be read. -/
example : expand [] ⟨"border", "border"⟩ (Value.tokens ⟨[.literal " ", .literal "", .literal "\t"]⟩) =
    .error ⟨0, 0⟩ := by rfl

/-! ## Borders in order -/

/-- What a border gives, and the styles that are named behind it. A border that is not declared and
one whose text is blank are passed over before there are tokens. -/
def step (declarations : Declarations) (named : List Text) (side : BorderSide) :
    Except OutOfRange (List Text × List Text) :=
  match declarations.get? side.property with
  | some value =>
    if Text.trim value.text = [] then return ([], named)
    else side.expand named value.tokens
  | none => return ([], named)

/-- The classes for several borders in order, given the styles that are named already. -/
def run (declarations : Declarations) (named : List Text) :
    List BorderSide → Except OutOfRange (List Text)
  | [] => return []
  | side :: rest => do
    let (classes, named) ← side.step declarations named
    let more ← run declarations named rest
    return classes ++ more

theorem step_eq (declarations : Declarations) (named : List Text) (side : BorderSide) :
    side.step declarations named =
      .ok (side.classes named (side.parts declarations),
        named ++ (style? (side.parts declarations)).toList) := by
  -- What is passed over gives what no tokens give.
  have hpassed : (return ([], named) : Except OutOfRange (List Text × List Text)) =
      .ok (side.classes named [], named ++ (style? []).toList) := by
    simp [classes, style?, pure, Except.pure]
  unfold step parts
  cases declarations.get? side.property with
  | none => exact hpassed
  | some value =>
    by_cases hblank : Text.trim value.text = []
    · simp only [if_pos hblank]
      exact hpassed
    · obtain ⟨width, rest, htokens⟩ := Value.exists_tokens_cons hblank
      simp only [if_neg hblank, htokens]
      exact expand_cons named side width rest

theorem run_eq (declarations : Declarations) (sides : List BorderSide) : ∀ named,
    run declarations named sides = .ok (classesFrom declarations named sides) := by
  induction sides with
  | nil => exact fun _ => rfl
  | cons side rest ih =>
    intro named
    rw [run, step_eq]
    show (run declarations _ rest >>= _) = _
    rw [ih]
    rfl

end BorderSide

/-! ## All classes of a style -/

/-- The utility classes that express declarations, with every item read by its place. -/
def utilitiesByPlace (declarations : Declarations) : Except OutOfRange (List Text) := do
  let text ← Rule.allByPlace declarations Rule.forText
  let font ← Rule.allByPlace declarations Rule.forFont
  let box ← Rule.allByPlace declarations Rule.forBox
  let borders ← BorderSide.run declarations [] BorderSide.all
  let surface ← Rule.allByPlace declarations Rule.forSurface
  return text ++ font ++ box ++ borders ++ surface

/-- No place is read that a list does not have. A value whose text is not blank has a token, so the
width is there; without a token, and only so, the tokens of a border would be read with a fault; and
whatever a style declares, its classes are read without one. -/
theorem utilities_in_range (declarations : Declarations) :
    (∀ v : Value, Text.trim v.text ≠ [] →
      0 < v.tokens.length ∧ ∃ width, itemAt v.tokens 0 = .ok width) ∧
    (∀ (named : List Text) (side : BorderSide) (parts : List Value) (fault : OutOfRange),
      side.expand named parts = .error fault ↔ parts = [] ∧ fault = ⟨0, 0⟩) ∧
    utilitiesByPlace declarations = .ok (utilities declarations) := by
  refine ⟨?_, BorderSide.expand_eq_error_iff, ?_⟩
  · intro v hsolid
    obtain ⟨width, rest, htokens⟩ := Value.exists_tokens_cons hsolid
    rw [htokens]
    exact ⟨Nat.zero_lt_succ _, width, rfl⟩
  · simp only [utilitiesByPlace, Rule.allByPlace_eq, BorderSide.run_eq]
    rfl

/-- An entry without text is a token where blank literals are none, and the width of the border. -/
theorem empty_entry_in_range :
    let v : Value := ⟨[.literal " ", .entry "", .literal "\t", .entry "a b"]⟩
    Text.trim v.text ≠ [] ∧ itemAt v.tokens 0 = .ok (.ofEntry "") ∧ 0 < v.tokens.length ∧
      utilitiesByPlace (OrderedMap.ofPairs [("border-top", v)]) = .ok ["", "border-a b"] := by
  intro v
  have hrange := utilities_in_range (OrderedMap.ofPairs [("border-top", v)])
  have hsolid : Text.trim v.text ≠ [] := by decide
  refine ⟨hsolid, rfl, (hrange.1 v hsolid).1, ?_⟩
  rw [hrange.2.2]
  exact congrArg Except.ok (by decide)

end UtilityCss
