import UtilityCss.Proofs.Declaration.Grammar
import UtilityCss.Proofs.Dictionary.Lookup
import UtilityCss.Proofs.Reference.Division
/-
  What a conversion reads of the dictionary.

  The dictionary is asked for the names of references, and for nothing else:
  two dictionaries that answer alike for these give the same conversion, from
  the declarations to the merged classes. An entry that is empty answers like
  one that is missing. Which names are asked for is read off the style alone,
  so changes of other names, however many, are not seen.

  What is proved:
    1. `resolve_congr`, `ofStyle_congr` : a value, and what a style declares,
       under lookups that answer alike for the names in it.
    2. `names_iff_mem` : the names in a style, as a list.
    3. `named_entries_decide` : all stages of a conversion under such lookups,
       and after steps of a run that change other names.
-/

namespace UtilityCss

/-! ## The names in a style -/

/-- The references of a division, in order. -/
def Division.references : Division → List Reference
  | .last _ => []
  | .next _ r rest => r :: rest.references

/-- A value refers to a name: the leftmost reading of it has a reference with this name, trimmed. -/
def RefersTo (raw name : Text) : Prop :=
  ∃ d : Division, d.written = raw ∧ d.Leftmost ∧ ∃ r ∈ d.references, Text.trim r.name = name

/-- A style names a variable if one of its declarations has a value that refers to it, also where a
later declaration of the same property counts instead. -/
def Names (css name : Text) : Prop :=
  ∃ lines, Declaration.LinesOf css lines ∧ ∃ line ∈ lines, ∃ d : Declaration,
    d.WrittenAs (Text.trim line) ∧ RefersTo d.value name

/-- Two answers for a name that come to the same. An empty entry counts as none. -/
def AnswerAlike (a b : Option Text) : Prop := a.getD [] = b.getD []

instance (a b : Option Text) : Decidable (AnswerAlike a b) :=
  inferInstanceAs (Decidable (a.getD [] = b.getD []))

theorem names_iff {css name : Text} :
    Names css name ↔ ∃ d ∈ Declaration.all css, RefersTo d.value name := by
  unfold Names
  simp only [Declaration.linesOf_iff, Declaration.all_eq, List.mem_filterMap,
    Declaration.ofLine?_eq_some_iff]
  constructor
  · rintro ⟨lines, rfl, line, hline, d, hd, hname⟩
    exact ⟨d, ⟨line, hline, hd⟩, hname⟩
  · rintro ⟨d, ⟨line, hline, hd⟩, hname⟩
    exact ⟨_, rfl, line, hline, d, hd, hname⟩

/-- The trimmed name of a part that is a reference. -/
def Part.name? : Part → Option Text
  | .plain _ => none
  | .reference r => some (Text.trim r.name)

/-- The names in a style, in order. -/
def namesOf (css : Text) : List Text :=
  (Declaration.all css).flatMap (fun d => (Part.ofText d.value).filterMap Part.name?)

theorem name?_plainParts (plain : Text) :
    (Division.plainParts plain).filterMap Part.name? = [] := by
  unfold Division.plainParts
  split <;> rfl

theorem name?_parts (d : Division) :
    d.parts.filterMap Part.name? = d.references.map (fun r => Text.trim r.name) := by
  induction d with
  | last plain => exact name?_plainParts plain
  | next plain r rest ih =>
    rw [Division.parts, List.filterMap_append, name?_plainParts, List.nil_append]
    show Text.trim r.name :: rest.parts.filterMap Part.name? = _
    rw [ih]
    rfl

theorem refersTo_iff {raw name : Text} :
    RefersTo raw name ↔ name ∈ (Part.ofText raw).filterMap Part.name? := by
  obtain ⟨d, rfl, hd⟩ := Division.exists_leftmost raw
  rw [Division.parts_of_leftmost hd, name?_parts, List.mem_map]
  constructor
  · rintro ⟨e, hwritten, he, hname⟩
    rwa [← Division.leftmost_unique he hd hwritten]
  · exact fun hname => ⟨d, rfl, hd, hname⟩

theorem names_iff_mem {css name : Text} : Names css name ↔ name ∈ namesOf css := by
  simp only [names_iff, refersTo_iff, namesOf, List.mem_flatMap]

instance (css name : Text) : Decidable (Names css name) := decidable_of_iff _ names_iff_mem.symm

/-! ## Lookups that answer alike -/

section

variable {lookup lookup' : Lookup}

theorem Division.segments_congr (d : Division)
    (h : ∀ r ∈ d.references, AnswerAlike (lookup (Text.trim r.name)) (lookup' (Text.trim r.name))) :
    d.segments lookup' = d.segments lookup := by
  induction d with
  | last plain => rfl
  | next plain r rest ih =>
    rw [references, List.forall_mem_cons] at h
    have hmeaning : meaning lookup' r = meaning lookup r := by
      unfold meaning
      rw [h.1]
    rw [segments, segments, hmeaning, ih h.2]

theorem resolve_congr {raw : Text}
    (h : ∀ name, RefersTo raw name → AnswerAlike (lookup name) (lookup' name)) :
    Value.resolve lookup' raw = Value.resolve lookup raw := by
  obtain ⟨d, rfl, hd⟩ := Division.exists_leftmost raw
  have hsegments : d.segments lookup' = d.segments lookup :=
    d.segments_congr (fun r hr => h _ ⟨d, rfl, hd, r, hr, rfl⟩)
  rw [Division.resolve_of_leftmost lookup' hd, Division.resolve_of_leftmost lookup hd,
    Division.value, Division.value, hsegments]

theorem ofStyle_congr {css : Text}
    (h : ∀ name, Names css name → AnswerAlike (lookup name) (lookup' name)) :
    Declarations.ofStyle lookup' css = Declarations.ofStyle lookup css := by
  unfold Declarations.ofStyle
  congr 1
  apply List.map_congr_left
  intro d hd
  have hvalue : Value.resolve lookup' d.value = Value.resolve lookup d.value :=
    resolve_congr (fun name hname => h name (names_iff.2 ⟨d, hd, hname⟩))
  rw [Declaration.resolve, Declaration.resolve, hvalue]

end

/-! ## Conversions -/

namespace Conversion

/-- A conversion is the same under two lookups, stage by stage. -/
structure SameStages (c : Conversion) (lookup lookup' : Lookup) : Prop where
  declarations : c.declarations lookup' = c.declarations lookup
  classes : c.classes lookup' = c.classes lookup
  varied : c.varied lookup' = c.varied lookup
  merged : c.merged lookup' = c.merged lookup

theorem sameStages_of_declarations {c : Conversion} {lookup lookup' : Lookup}
    (h : c.declarations lookup' = c.declarations lookup) : c.SameStages lookup lookup' := by
  have hclasses : c.classes lookup' = c.classes lookup := congrArg utilities h
  have hvaried := varied_congr hclasses rfl
  exact ⟨h, hclasses, hvaried, merged_congr hvaried rfl⟩

/-- All that a conversion reads of the dictionary is what it says of the names in the style. Under
two lookups that answer alike for these every stage is the same; and so it is for a dictionary
before and after a run that sets, removes and imports other names, whatever the database does. -/
theorem named_entries_decide [Json.Limit] (c : Conversion) :
    (∀ lookup lookup' : Lookup,
      (∀ name, Names c.style name → AnswerAlike (lookup name) (lookup' name)) →
        c.SameStages lookup lookup') ∧
    ∀ (s : Session) (events : List Event),
      (∀ event ∈ events, ∀ name ∈ event.changes, ¬ Names c.style name) →
        c.SameStages s.lookup (s.follow events).lookup := by
  constructor
  · intro lookup lookup' h
    exact sameStages_of_declarations (ofStyle_congr h)
  · intro s events h
    apply sameStages_of_declarations
    apply ofStyle_congr
    intro name hname
    rw [Session.lookup_follow (fun event hevent hmem => h event hevent name hmem hname)]
    rfl

attribute [local instance] Json.Limit.least

/-- An empty entry is dropped, and a variable gets one that the style names without a fallback; then
three variables are changed that it does not name, and the table is lost in between. -/
theorem unnamed_entries_unseen :
    let c : Conversion :=
      ⟨"color: var(--A, red);\nwidth: var( --B\t, 1px);\nheight: var(--C);", "lg", "p-4"⟩
    let lookup : Lookup := fun n =>
      if n = Text.of "--A" then some "red-500" else if n = Text.of "--B" then some [] else none
    let lookup' : Lookup := fun n =>
      if n = Text.of "--A" then some "red-500" else if n = Text.of "--C" then some "h-4" else none
    let s : Session :=
      ⟨.inMemory, ⟨true, "k", OrderedMap.ofPairs [("--A", "red-500"), ("--E", "e")]⟩⟩
    let events : List Event := [.call (.set " --D" "d"), .disturb .dropTable,
      .call (.update [("--F", .text "f")]), .call (.remove "--E")]
    (∀ name, Names c.style name → AnswerAlike (lookup name) (lookup' name)) ∧
      (∀ event ∈ events, ∀ name ∈ event.changes, ¬ Names c.style name) ∧
      c.merged lookup' = c.merged lookup ∧
      (s.follow events).ledger = [(Text.of "--A", Text.of "red-500"), (Text.of "--D", Text.of "d"),
        (Text.of "--F", Text.of "f")] ∧
      c.merged (s.follow events).lookup = c.merged s.lookup := by
  intro c lookup lookup' s events
  have hlisted : ∀ name ∈ namesOf c.style, AnswerAlike (lookup name) (lookup' name) := by decide
  have halike : ∀ name, Names c.style name → AnswerAlike (lookup name) (lookup' name) :=
    fun name hname => hlisted name (names_iff_mem.1 hname)
  have hunnamed : ∀ event ∈ events, ∀ name ∈ event.changes, ¬ Names c.style name := by decide
  obtain ⟨hlookups, hruns⟩ := named_entries_decide c
  exact ⟨halike, hunnamed, (hlookups lookup lookup' halike).merged, by decide,
    (hruns s events hunnamed).merged⟩

end Conversion

end UtilityCss
