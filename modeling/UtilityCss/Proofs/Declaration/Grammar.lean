import UtilityCss.Declaration
import UtilityCss.Proofs.OrderedMap.Writing
/-
  A style as a grammar of lines, and what its declarations come to.

  A style is lines with line feeds between them. A line that is a declaration
  once it is trimmed counts, and any other one is passed over. What the style
  declares is then said of the list of its declarations as a whole: a property
  stands where it is declared first, and has the value of where it is declared
  last. The reader of lines and the map that is written to one pair at a time
  do not occur in this.

  What is proved:
    1. `linesOf_iff`, `listed_iff` : every style has one list of lines, and
       every list of lines one list of declarations.
    2. `get?_ofStyle` : what a property of a style holds.
    3. `ofStyle_of_lines` : what a style declares, from its lines.
-/

namespace UtilityCss

namespace Declaration

/-! ## Lines and their declarations -/

/-- The style that is made of lines. -/
def styleOf (lines : List Text) : Text := Text.joinWith ['\n'] lines

/-- The lines of a style: texts without a line feed that are the style when joined with line feeds.
The empty style has one line, which is empty. -/
structure LinesOf (css : Text) (lines : List Text) : Prop where
  ne_nil : lines ≠ []
  no_feed : ∀ line ∈ lines, .char '\n' ∉ line
  joined : styleOf lines = css

/-- The declarations of lines, in order. A line counts if it is a declaration once it is trimmed. -/
inductive Listed : List Text → List Declaration → Prop
  | nil : Listed [] []
  | declared {line : Text} {lines : List Text} {d : Declaration} {ds : List Declaration} :
    d.WrittenAs (Text.trim line) → Listed lines ds → Listed (line :: lines) (d :: ds)
  | passed {line : Text} {lines : List Text} {ds : List Declaration} :
    (∀ d : Declaration, ¬ d.WrittenAs (Text.trim line)) → Listed lines ds →
      Listed (line :: lines) ds

/-- What declarations come to: each property where it is declared first, with the value that it is
declared with last. -/
def table (lookup : Lookup) (ds : List Declaration) : List (Text × Value) :=
  (ds.map property).eraseDups.filterMap (fun p =>
    (ds.filter (fun d => d.property = p)).getLast?.map (fun d => (p, Value.resolve lookup d.value)))

/-- The declaration that a line holds once it is trimmed, if it is one. -/
def ofLine? (line : Text) : Option Declaration := read? (Text.trim line)

theorem ofLine?_eq_some_iff {line : Text} {d : Declaration} :
    ofLine? line = some d ↔ d.WrittenAs (Text.trim line) := read?_eq_some_iff

theorem ofLine?_eq_none_iff {line : Text} :
    ofLine? line = none ↔ ∀ d : Declaration, ¬ d.WrittenAs (Text.trim line) := by
  rw [Option.eq_none_iff_forall_ne_some]
  exact forall_congr' (fun d => not_congr ofLine?_eq_some_iff)

theorem WrittenAs.unique {line : Text} {d e : Declaration} (hd : d.WrittenAs line)
    (he : e.WrittenAs line) : d = e :=
  Option.some.inj (hd.read?.symm.trans he.read?)

/-- A line that is a declaration as it stands has no blank at either end. -/
theorem WrittenAs.trim {line : Text} {d : Declaration} (h : d.WrittenAs line) :
    Text.trim line = line := by
  obtain ⟨before, after, -, -, hline⟩ := h.parts
  apply Text.trim_of_solid_ends
  · intro c hc
    obtain ⟨first, rest, hproperty⟩ := List.exists_cons_of_ne_nil h.property_ne_nil
    rw [hline, hproperty] at hc
    rw [← Option.some.inj hc]
    exact isBlank_of_isNameChar (h.property_name first (hproperty ▸ List.mem_cons_self))
  · have hlast : line.getLast? = some (.char ';') := by
      rw [hline]
      simp [List.getLast?_cons]
    intro c hc
    rw [hlast] at hc
    rw [← Option.some.inj hc]
    decide

theorem ofLine?_of_writtenAs {line : Text} {d : Declaration} (h : d.WrittenAs line) :
    ofLine? line = some d := by
  rw [ofLine?_eq_some_iff, h.trim]
  exact h

theorem linesOf_iff {css : Text} {lines : List Text} :
    LinesOf css lines ↔ lines = Text.cut '\n' css := by
  constructor
  · rintro ⟨hne, hfeed, rfl⟩
    exact (Text.cut_join hne hfeed).symm
  · rintro rfl
    exact ⟨Text.cutFrom_nonempty '\n' css [], fun line => Text.not_mem_of_mem_cut,
      Text.join_cut '\n' css⟩

theorem listed_iff {lines : List Text} {ds : List Declaration} :
    Listed lines ds ↔ ds = lines.filterMap ofLine? := by
  constructor
  · intro h
    induction h with
    | nil => rfl
    | declared hline _ ih => rw [List.filterMap_cons, ofLine?_eq_some_iff.2 hline, ih]
    | passed hline _ ih => rw [List.filterMap_cons, ofLine?_eq_none_iff.2 hline, ih]
  · rintro rfl
    induction lines with
    | nil => exact .nil
    | cons line lines ih =>
      rw [List.filterMap_cons]
      cases hline : ofLine? line with
      | none => exact .passed (ofLine?_eq_none_iff.1 hline) ih
      | some d => exact .declared (ofLine?_eq_some_iff.1 hline) ih

/-- A line that is empty once it is trimmed is left out early, which makes no difference. -/
theorem all_eq (css : Text) : all css = (Text.cut '\n' css).filterMap ofLine? := by
  have hempty : read? [] = none := rfl
  rw [all, lines, List.filterMap_filter, List.filterMap_map]
  congr 1
  funext line
  by_cases hline : Text.trim line = [] <;> simp [ofLine?, hline, hempty]

theorem all_styleOf {lines : List Text} (h : ∀ line ∈ lines, .char '\n' ∉ line) :
    all (styleOf lines) = lines.filterMap ofLine? := by
  cases lines with
  -- No lines at all are joined to the text of one line that is empty, which is passed over.
  | nil => rfl
  | cons line rest => rw [all_eq, styleOf, Text.cut_join (by simp) h]

end Declaration

open Declaration

/-! ## What a style declares -/

/-- A property of a style holds the value that the last of its declarations has. -/
theorem get?_ofStyle (lookup : Lookup) (css p : Text) :
    (Declarations.ofStyle lookup css).get? p =
      ((all css).filter (fun d => d.property = p)).getLast?.map
        (fun d => Value.resolve lookup d.value) := by
  rw [Declarations.ofStyle, OrderedMap.get?_ofPairs, List.filter_map, List.getLast?_map,
    Option.map_map]
  rfl

theorem entries_ofStyle (lookup : Lookup) (css : Text) :
    (Declarations.ofStyle lookup css).entries = table lookup (all css) := by
  have hnames : (Declarations.ofStyle lookup css).names = ((all css).map property).eraseDups := by
    rw [Declarations.ofStyle, OrderedMap.names_ofPairs, List.map_map]
    rfl
  rw [OrderedMap.entries_eq, hnames, table]
  congr 1
  funext p
  rw [get?_ofStyle, Option.map_map]
  rfl

/-- A style has one list of lines, these have one list of declarations, and no line is more than
one declaration. What the style declares is what the declarations come to. -/
theorem ofStyle_of_lines (lookup : Lookup) (css : Text) :
    ∃ lines ds, (LinesOf css lines ∧ Listed lines ds) ∧
      (∀ lines' ds', LinesOf css lines' ∧ Listed lines' ds' → lines' = lines ∧ ds' = ds) ∧
      (∀ (line : Text) (d e : Declaration), d.WrittenAs line → e.WrittenAs line → d = e) ∧
      (Declarations.ofStyle lookup css).entries = table lookup ds := by
  refine ⟨Text.cut '\n' css, all css, ⟨linesOf_iff.2 rfl, listed_iff.2 (all_eq css)⟩, ?_,
    fun line d e => WrittenAs.unique, entries_ofStyle lookup css⟩
  rintro lines ds ⟨hlines, hds⟩
  refine ⟨linesOf_iff.1 hlines, ?_⟩
  rw [listed_iff.1 hds, ← hlines.joined, all_styleOf hlines.no_feed]

/-- A value runs to the last semicolon of its line; a line without one, or with nothing before its
colon, is passed over. -/
example : (Declarations.ofStyle (fun _ => none) "a : b: c; ;\r\nd:;\na\n:e;\nd:f;").entries =
    [(Text.of "a", .ofLiteral "b: c; "), (Text.of "d", .ofLiteral "f")] := by decide

end UtilityCss
