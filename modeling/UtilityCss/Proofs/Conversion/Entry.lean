import UtilityCss.Proofs.Declaration.Grammar
import UtilityCss.Proofs.Dictionary.Lookup
import UtilityCss.Proofs.Reference.Division
import UtilityCss.Proofs.Utility.Composition
/-
  One entry of the dictionary on its way into a class.

  A name is trimmed when it is set, and again when a reference is looked up, so
  the two meet. A line whose value is one reference declares one property, with
  the entry as a whole; what a property makes of a whole entry is the entry, but
  for font families, and for the borders, where the widths that have classes of
  their own are taken for such. Once the name is removed the line is worth its
  fallback.

  What is proved:
    1. `ofStyle_referenceLine` : what a line with one reference declares.
    2. `classes_ofEntry`, `utilities_entry` : what rules, borders and properties
       make of a whole entry.
    3. `entry_honoured` : the classes of the line after the name is set, and
       after it is removed.
-/

namespace UtilityCss

open Declaration

/-! ## A line with one reference -/

/-- The line that declares a property with a reference and nothing else. -/
def referenceLine (p name fallback : Text) : Text :=
  p ++ ": var(" ++ name ++ ", " ++ fallback ++ ");"

/-- The reference of the line. The blank behind the comma belongs to its fallback. -/
def lineReference (name fallback : Text) : Reference := ⟨name, " " ++ fallback⟩

/-- A name and a fallback that make a reference when they are written in a line. -/
structure Referable (name fallback : Text) : Prop where
  name_ne_nil : name ≠ []
  name_no_comma : .char ',' ∉ name
  name_no_feed : .char '\n' ∉ name
  fallback_no_close : .char ')' ∉ fallback
  fallback_no_feed : .char '\n' ∉ fallback

/-- A property that can be declared. -/
def IsProperty (p : Text) : Prop := p ≠ [] ∧ ∀ c ∈ p, isNameChar c = true

theorem referenceLine_eq (p name fallback : Text) :
    referenceLine p name fallback =
      p ++ ([] ++ .char ':' ::
        ([.char ' '] ++ ((lineReference name fallback).written ++ [.char ';']))) := by
  simp [referenceLine, lineReference, Reference.written, Reference.opening, Text.of]

theorem Referable.wellFormed {name fallback : Text} (h : Referable name fallback) :
    (lineReference name fallback).WellFormed := by
  refine ⟨h.name_ne_nil, h.name_no_comma, by simp [lineReference, Text.of], ?_⟩
  rw [lineReference, List.mem_append, not_or]
  exact ⟨by decide, h.fallback_no_close⟩

theorem writtenAs_referenceLine {p : Text} (hp : IsProperty p) (name fallback : Text) :
    (⟨p, (lineReference name fallback).written⟩ : Declaration).WrittenAs
      (referenceLine p name fallback) where
  property_ne_nil := hp.1
  property_name := hp.2
  value_solid := fun c hc => Option.some.inj hc ▸ by decide
  parts := ⟨[], [.char ' '], by simp, by decide, referenceLine_eq p name fallback⟩

theorem Referable.no_feed {p name fallback : Text} (h : Referable name fallback)
    (hp : IsProperty p) : .char '\n' ∉ referenceLine p name fallback := by
  have hproperty : .char '\n' ∉ p := fun hmem => absurd (hp.2 _ hmem) (by decide)
  simp only [referenceLine, List.mem_append, not_or]
  exact ⟨⟨⟨⟨⟨hproperty, by decide⟩, h.name_no_feed⟩, by decide⟩, h.fallback_no_feed⟩, by decide⟩

/-- A text that is one reference stands for what the reference does. -/
theorem resolve_reference (lookup : Lookup) {r : Reference} (hw : r.WellFormed) :
    Value.resolve lookup r.written = ⟨[r.resolve lookup]⟩ := by
  have hleft : (Division.next [] r (.last [])).Leftmost :=
    ⟨Division.clear_nil _, hw, Division.clear_nil _⟩
  have hresolve := Division.resolve_of_leftmost lookup hleft
  have hwritten : (Division.next [] r (.last [])).written = r.written := by simp [Division.written]
  rw [hwritten] at hresolve
  rw [hresolve, Division.resolve_eq_meaning]
  rfl

/-- The line declares its property and nothing else. -/
theorem ofStyle_referenceLine (lookup : Lookup) {p name fallback : Text} (hp : IsProperty p)
    (h : Referable name fallback) :
    Declarations.ofStyle lookup (referenceLine p name fallback) =
      .only p ⟨[(lineReference name fallback).resolve lookup]⟩ := by
  have hfeed : ∀ line ∈ [referenceLine p name fallback], .char '\n' ∉ line := by
    simpa using h.no_feed hp
  have hall :
      all (referenceLine p name fallback) = [⟨p, (lineReference name fallback).written⟩] := by
    refine (all_styleOf hfeed).trans ?_
    rw [List.filterMap_cons, ofLine?_of_writtenAs (writtenAs_referenceLine hp name fallback)]
    rfl
  rw [Declarations.ofStyle, hall, List.map_singleton, Declaration.resolve,
    resolve_reference lookup h.wellFormed]
  rfl

theorem resolve_lineReference_of_some {lookup : Lookup} {name fallback entry : Text}
    (h : lookup (Text.trim name) = some entry) (hne : entry ≠ []) :
    (lineReference name fallback).resolve lookup = .entry entry := by
  obtain ⟨c, rest, rfl⟩ := List.exists_cons_of_ne_nil hne
  simp [Reference.resolve, lineReference, h]

theorem resolve_lineReference_of_none {lookup : Lookup} {name : Text} (fallback : Text)
    (h : lookup (Text.trim name) = none) :
    (lineReference name fallback).resolve lookup =
      .literal (Division.bare (Text.trim fallback)) := by
  have htrim : Text.trim (" " ++ fallback) = Text.trim fallback :=
    Text.trim_blanks_append (by decide) fallback
  simp [Reference.resolve, lineReference, h, Division.unquote_eq_bare, htrim]

/-! ## Whole entries -/

theorem Value.entry?_ofEntry (t : Text) : entry? (ofEntry t) = some t := rfl

theorem Value.tokens_ofEntry (t : Text) : (ofEntry t).tokens = [ofEntry t] := rfl

theorem Rule.classes_ofEntry (r : Rule) {entry : Text} (h : entry ≠ []) :
    r.classes (.ofEntry entry) = r.ofEntry entry := by
  rw [classes, Value.text_ofEntry, if_neg h, Value.entry?_ofEntry]

/-- Every rule but that of font families leaves a whole entry as it is. -/
theorem Rule.ofEntry_of_mem {r : Rule} (h : Source.rule r ∈ Source.all)
    (hne : r.property ≠ "font-family") (entry : Text) : r.ofEntry entry = [entry] := by
  have hrules : ∀ r ∈ forText ++ forFont ++ forBox ++ forSurface,
      r = fontFamily ∨ r.ofEntry = fun entry => [entry] := by
    simp [forText, forFont, forBox, forSurface, passing, scaled, textAlign, decorationLine,
      decorationStyle, decorationSkipInk, decorationThickness, underlineOffset, underlinePosition,
      fontSize, fontStyle, borderRadius]
  rcases hrules r (by simpa [Source.all, or_assoc] using h) with rfl | hkeeps
  · exact absurd rfl hne
  · rw [hkeeps]

/-- A border takes a whole entry for its width. -/
theorem BorderSide.classes_ofEntry (side : BorderSide) {entry : Text} (h : Text.trim entry ≠ []) :
    side.classes [] (partsOf (.ofEntry entry)) =
      if entry = "0" ∨ entry = "0px" then []
      else if entry = "1px" ∨ entry = "0.0625rem" then [side.stem] else [entry] := by
  have hparts : partsOf (.ofEntry entry) = [.ofEntry entry] := by
    rw [partsOf, Value.text_ofEntry, if_neg h, Value.tokens_ofEntry]
  have hwidth : side.classes [] [.ofEntry entry] = side.widthClasses (.ofEntry entry) := by
    simp [classes, style?, styleClasses, color?, colorClasses]
  rw [hparts, hwidth, widthClasses, Value.text_ofEntry, classOf, Value.entry?_ofEntry]
  simp [zeroBorderWidths, defaultBorderWidths]

section

variable {p entry : Text}

theorem utilities_entry (hp : p ∈ propertyOrder) (hfamily : p ≠ "font-family")
    (hborder : p ∉ borderProperties) (h : entry ≠ []) :
    utilities (.only p (.ofEntry entry)) = [entry] := by
  rw [← Source.map_property_all] at hp
  obtain ⟨x, hx, rfl⟩ := List.mem_map.1 hp
  rw [utilities_only hx]
  cases x with
  | rule r => exact (r.classes_ofEntry h).trans (Rule.ofEntry_of_mem hx hfamily entry)
  | side b => exact absurd (Source.property_mem_of_side hx) hborder

theorem utilities_fontFamily_entry (h : entry ≠ []) :
    utilities (.only "font-family" (.ofEntry entry)) =
      if (Text.of "font-").isPrefixOf entry then [entry] else ["font-" ++ entry] := by
  have hmem : Source.rule Rule.fontFamily ∈ Source.all := by simp [Source.all, Rule.forFont]
  exact (utilities_only hmem (.ofEntry entry)).trans (Rule.fontFamily.classes_ofEntry h)

theorem utilities_side_entry {side : BorderSide} (hside : side ∈ BorderSide.all)
    (h : Text.trim entry ≠ []) :
    utilities (.only side.property (.ofEntry entry)) =
      if entry = "0" ∨ entry = "0px" then []
      else if entry = "1px" ∨ entry = "0.0625rem" then [side.stem] else [entry] := by
  have hmem : Source.side side ∈ Source.all := by simpa [Source.all] using hside
  exact (utilities_only hmem (.ofEntry entry)).trans (side.classes_ofEntry h)

end

/-! ## From the dictionary to the class -/

theorem isProperty_of_mem : ∀ p ∈ propertyOrder, IsProperty p := by
  unfold IsProperty
  decide +kernel

/-- A name is set, and a line declares a property with a reference to it: the class is the value,
trimmed, but that font families and the widths of borders have their own. Then the name is removed,
and the line has the classes of the fallback. -/
theorem entry_honoured (s : Session) {name value : Text}
    (haccepted : ∀ n v, (Session.set s name value).result ≠ .error (.blank n v))
    (hname : .char ',' ∉ Text.trim name ∧ .char '\n' ∉ Text.trim name)
    {fallback : Text} (hfallback : .char ')' ∉ fallback ∧ .char '\n' ∉ fallback)
    {p : Text} (hp : p ∈ propertyOrder) :
    let kept := (Session.set s name value).session
    let dropped := (Session.remove kept (Text.trim name)).session
    let line := referenceLine p (Text.trim name) fallback
    let entry := Text.trim value
    (p ≠ "font-family" → p ∉ borderProperties →
      utilities (Declarations.ofStyle kept.lookup line) = [entry]) ∧
    (p = "font-family" → utilities (Declarations.ofStyle kept.lookup line) =
      if (Text.of "font-").isPrefixOf entry then [entry] else ["font-" ++ entry]) ∧
    (∀ side ∈ BorderSide.all, p = side.property →
      utilities (Declarations.ofStyle kept.lookup line) =
        if entry = "0" ∨ entry = "0px" then []
        else if entry = "1px" ∨ entry = "0.0625rem" then [side.stem] else [entry]) ∧
    utilities (Declarations.ofStyle dropped.lookup line) =
      utilities (.only p (.ofLiteral (Division.bare (Text.trim fallback)))) := by
  intro kept dropped line entry
  have hsolid : ¬ (Text.trim name = [] ∨ Text.trim value = []) := Session.set_of_result haccepted
  rw [not_or] at hsolid
  have hentry : Text.trim entry ≠ [] := by
    rw [Text.trim_trim]
    exact hsolid.2
  have hreferable : Referable (Text.trim name) fallback :=
    ⟨hsolid.1, hname.1, hname.2, hfallback.1, hfallback.2⟩
  have hline := fun lookup => ofStyle_referenceLine lookup (isProperty_of_mem p hp) hreferable
  have hkept : Declarations.ofStyle kept.lookup line = .only p (.ofEntry entry) := by
    have hlookup : kept.lookup (Text.trim (Text.trim name)) = some entry := by
      rw [Text.trim_trim, Session.lookup_set (not_or.2 hsolid), if_pos rfl]
    rw [hline, resolve_lineReference_of_some hlookup hsolid.2]
    rfl
  have hdropped : Declarations.ofStyle dropped.lookup line =
      .only p (.ofLiteral (Division.bare (Text.trim fallback))) := by
    have hlookup : dropped.lookup (Text.trim (Text.trim name)) = none := by
      rw [Text.trim_trim, Session.lookup_remove, if_pos rfl]
    rw [hline, resolve_lineReference_of_none fallback hlookup]
    rfl
  rw [hkept, hdropped]
  refine ⟨fun hfamily hborder => utilities_entry hp hfamily hborder hsolid.2, ?_, ?_, rfl⟩
  · rintro rfl
    exact utilities_fontFamily_entry hsolid.2
  · rintro side hside rfl
    exact utilities_side_entry hside hentry

/-- The name is padded and holds a parenthesis, the value is a width with a class of its own, and
the database refuses to store either. -/
theorem padded_width_honoured :
    let s : Session := ⟨.inMemory, ⟨true, "k", OrderedMap.empty⟩⟩
    let name : Text := " --W)\t"
    let fallback : Text := " 'thin"
    let kept := (Session.set s name "1px ").session
    let dropped := (Session.remove kept (Text.trim name)).session
    let line := referenceLine "border-top" (Text.trim name) fallback
    (∀ n v, (Session.set s name "1px ").result ≠ .error (.blank n v)) ∧
      (.char ',' ∉ Text.trim name ∧ .char '\n' ∉ Text.trim name) ∧
      (.char ')' ∉ fallback ∧ .char '\n' ∉ fallback) ∧ Text.of "border-top" ∈ propertyOrder ∧
      utilities (Declarations.ofStyle kept.lookup line) = ["border-t"] ∧
      utilities (Declarations.ofStyle dropped.lookup line) = ["border-t-[thin]"] := by
  intro s name fallback kept dropped line
  have hdone : (Session.set s name "1px ").result = .ok () := rfl
  have haccepted : ∀ n v, (Session.set s name "1px ").result ≠ .error (.blank n v) := by
    simp [hdone]
  have hname : .char ',' ∉ Text.trim name ∧ .char '\n' ∉ Text.trim name := by decide
  have hfallback : .char ')' ∉ fallback ∧ .char '\n' ∉ fallback := by decide
  have hp : Text.of "border-top" ∈ propertyOrder := by decide
  obtain ⟨-, -, hside, hdropped⟩ := entry_honoured s haccepted hname hfallback hp
  refine ⟨haccepted, hname, hfallback, hp, ?_, ?_⟩
  · exact (hside ⟨"border-top", "border-t"⟩ (by decide) rfl).trans (by decide)
  · exact hdropped.trans (by decide)

end UtilityCss
