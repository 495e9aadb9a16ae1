import UtilityCss.Proofs.Classification.Bracketed
import UtilityCss.Proofs.Utility.Composition
import UtilityCss.Proofs.Value.Tokens
/-
  The classes of a property are classified as the property.

  The rules that write classes and the tests that judge them are separate
  tables. They meet property by property: a value in brackets stands behind a
  name that governs the property, whatever the value is, and the names of a
  scale are judged one by one. Left out are the five properties whose classes
  share the names `text-` and `font-`, where the value decides.

  What is proved:
    1. `agrees_of_mem` : each rule, but for those five properties, writes
       classes of the category of its property.
    2. `BorderSide.categoryOf_of_mem` : so does each side of a border, when
       its style does not read like another class.
    3. `classes_agree_with_property` : so does the whole, and the class that
       names the property itself is of that category too.
-/

namespace UtilityCss

/-! ## Names that govern a category -/

/-- Every value in brackets behind the name makes a class of the category. -/
def Governs (stem : Text) (category : Category) : Prop :=
  ∀ value, Unbracketed value → categoryOf (bracketed stem value) = category

theorem governs_of_test {stem : Text} {category : Category} (test : Test)
    (hmem : test ∈ Test.ofUtility) (hstem : IsStem stem)
    (hpasses : ∀ value, test.passes (bracketed stem value) = true)
    (hcategory : ∀ value, test.category (bracketed stem value) = category) :
    Governs stem category := by
  intro value hvalue
  rw [categoryOf_bracketed hstem hvalue hmem (hpasses value)]
  exact hcategory value

theorem governs_spacing {stem : Text} (hstem : IsStem stem)
    (hpasses : ∀ value, Test.isSpacing (bracketed stem value) = true) : Governs stem .spacing :=
  governs_of_test ⟨Test.isSpacing, fun _ => .spacing⟩ (by simp [Test.ofUtility, Test.utilityTests])
    hstem hpasses (fun _ => rfl)

theorem governs_decoration {stem : Text} (hstem : IsStem stem)
    (hpasses : ∀ value, (Test.starts "decoration-" (bracketed stem value) ||
      Test.starts "underline-offset-" (bracketed stem value)) = true) :
    Governs stem .textDecoration :=
  governs_of_test ⟨fun t => Test.starts "decoration-" t || Test.starts "underline-offset-" t,
    fun _ => .textDecoration⟩ (by simp [Test.ofUtility, Test.utilityTests])
    hstem hpasses (fun _ => rfl)

theorem governs_start {stem : Text} (start : String) (category : Category)
    (hmem : Test.ofStart start category ∈ Test.ofUtility) (hstem : IsStem stem)
    (hpasses : ∀ value, Test.starts start (bracketed stem value) = true) : Governs stem category :=
  governs_of_test (Test.ofStart start category) hmem hstem hpasses (fun _ => rfl)

/-! ## Rules -/

/-- The properties whose classes share the names `text-` and `font-`. -/
def ambiguousProperties : List Text :=
  ["color", "font-size", "font-weight", "font-family", "font-style"].map Text.of

namespace Rule

/-- Every class that the rule writes for a text without brackets has the category. -/
def Agrees (r : Rule) (category : Category) : Prop :=
  ∀ t, Unbracketed t → ∀ cls ∈ r.ofText t, categoryOf cls = category

theorem agrees_passing {property stem : String} {category : Category} (h : Governs stem category) :
    (passing property stem).Agrees category := by
  intro t ht cls hcls
  rw [List.mem_singleton.1 hcls]
  exact h t ht

theorem agrees_scaled {property stem : String} {scale : Scale} {category : Category}
    (h : Governs stem category)
    (hnames : ∀ row ∈ scale, categoryOf (Text.of stem ++ "-" ++ row.2) = category) :
    (scaled property stem scale).Agrees category := by
  intro t ht cls hcls
  simp only [scaled] at hcls
  cases hname : scale.name? t with
  | some name =>
    rw [hname] at hcls
    rw [List.mem_singleton.1 hcls]
    exact hnames (t, name) (Scale.mem_of_name? hname)
  | none =>
    rw [hname] at hcls
    rw [List.mem_singleton.1 hcls]
    exact h t ht

/-- A scale of whole classes, with another class for the values it does not name. -/
theorem categoryOf_name?_getD {scale : Scale} {category : Category} {t other : Text}
    (hnames : ∀ row ∈ scale, categoryOf row.2 = category) (hother : categoryOf other = category) :
    categoryOf ((scale.name? t).getD other) = category := by
  cases hname : scale.name? t with
  | some name => exact hnames (t, name) (Scale.mem_of_name? hname)
  | none => exact hother

theorem agrees_textAlign : textAlign.Agrees .none := by
  intro t ht cls hcls
  have hnames : ∀ name ∈ alignments, categoryOf ("text-" ++ name) = .none := by decide
  have hproperty : Test.categoryOfProperty "text-align" = .none := by decide
  simp only [textAlign] at hcls
  split at hcls
  · next hmem =>
    rw [List.mem_singleton.1 hcls]
    exact hnames t hmem
  · rw [List.mem_singleton.1 hcls, categoryOf_arbitrary (by decide) ht]
    exact hproperty

/-! The rules of text decoration share their names, so the facts about these are stated once. -/

theorem governs_decorationStem : Governs "decoration" .textDecoration :=
  governs_decoration (by decide) (fun _ => rfl)

theorem categoryOf_arbitrary_decoration {property : Text}
    (hmem : property ∈ ["text-decoration-thickness", "text-underline-position"].map Text.of)
    {t : Text} (ht : Unbracketed t) : categoryOf (arbitrary property t) = .textDecoration := by
  have hname : ∀ p ∈ ["text-decoration-thickness", "text-underline-position"].map Text.of,
      (∀ c ∈ p, Declaration.isNameChar c = true) ∧ Test.categoryOfProperty p = .textDecoration := by
    decide
  rw [categoryOf_arbitrary (hname property hmem).1 ht]
  exact (hname property hmem).2

theorem agrees_decorationLine : decorationLine.Agrees .textDecoration := by
  intro t ht cls hcls
  rw [List.mem_singleton.1 hcls]
  exact categoryOf_name?_getD (by decide) (governs_decorationStem t ht)

theorem agrees_decorationStyle : decorationStyle.Agrees .textDecoration := by
  intro t ht cls hcls
  have hnames : ∀ name ∈ decorationStyles, categoryOf ("decoration-" ++ name) = .textDecoration := by
    decide
  simp only [decorationStyle] at hcls
  split at hcls
  · cases hcls
  · split at hcls
    · next hmem =>
      rw [List.mem_singleton.1 hcls]
      exact hnames t hmem
    · rw [List.mem_singleton.1 hcls]
      exact governs_decorationStem t ht

theorem agrees_decorationSkipInk : decorationSkipInk.Agrees .textDecoration := by
  intro t ht cls hcls
  have hstem : Governs "decoration-skip-ink" .textDecoration :=
    governs_decoration (by decide) (fun _ => rfl)
  have hnames : ∀ name ∈ ["decoration-skip-ink", "decoration-skip-ink-none"].map Text.of,
      categoryOf name = .textDecoration := by
    decide
  simp only [decorationSkipInk] at hcls
  split at hcls
  · rw [List.mem_singleton.1 hcls]
    exact hnames _ (by simp)
  · split at hcls
    · rw [List.mem_singleton.1 hcls]
      exact hnames _ (by simp)
    · rw [List.mem_singleton.1 hcls]
      exact hstem t ht

theorem agrees_decorationThickness : decorationThickness.Agrees .textDecoration := by
  intro t ht cls hcls
  simp only [decorationThickness] at hcls
  split at hcls
  · cases hcls
  · rw [List.mem_singleton.1 hcls]
    exact categoryOf_name?_getD (by decide) (categoryOf_arbitrary_decoration (by simp) ht)

theorem agrees_underlineOffset : underlineOffset.Agrees .textDecoration := by
  intro t ht cls hcls
  have hstem : Governs "underline-offset" .textDecoration :=
    governs_decoration (by decide) (fun _ => rfl)
  simp only [underlineOffset] at hcls
  split at hcls
  · cases hcls
  · rw [List.mem_singleton.1 hcls]
    exact hstem t ht

theorem agrees_underlinePosition : underlinePosition.Agrees .textDecoration := by
  intro t ht cls hcls
  simp only [underlinePosition] at hcls
  split at hcls
  · cases hcls
  · rw [List.mem_singleton.1 hcls]
    exact categoryOf_arbitrary_decoration (by simp) ht

theorem agrees_borderRadius : borderRadius.Agrees .borderRadius := by
  intro t ht cls hcls
  have hstem : Governs "rounded" .borderRadius :=
    governs_of_test ⟨fun t => Test.isWord ["rounded"] t || Test.starts "rounded-" t,
      fun _ => .borderRadius⟩ (by simp [Test.ofUtility, Test.utilityTests])
      (by decide) (fun _ => rfl) (fun _ => rfl)
  have hname : categoryOf "rounded" = .borderRadius := by decide
  simp only [borderRadius] at hcls
  split at hcls
  · rw [List.mem_singleton.1 hcls]
    exact hname
  · rw [List.mem_singleton.1 hcls]
    exact hstem t ht

/-- The rules whose classes have one category, with that category. -/
def judged : List (Rule × Category) :=
  [(textAlign, .none), (decorationLine, .textDecoration), (decorationStyle, .textDecoration),
    (decorationSkipInk, .textDecoration), (decorationThickness, .textDecoration),
    (underlineOffset, .textDecoration), (underlinePosition, .textDecoration),
    (scaled "line-height" "leading" Scale.lineHeight, .lineHeight),
    (scaled "letter-spacing" "tracking" Scale.letterSpacing, .letterSpacing),
    (passing "margin" "m", .spacing), (passing "margin-top" "mt", .spacing),
    (passing "margin-bottom" "mb", .spacing), (passing "margin-left" "ml", .spacing),
    (passing "margin-right" "mr", .spacing), (passing "padding" "p", .spacing),
    (passing "padding-top" "pt", .spacing), (passing "padding-bottom" "pb", .spacing),
    (passing "padding-left" "pl", .spacing), (passing "padding-right" "pr", .spacing),
    (passing "width" "w", .width), (passing "height" "h", .height), (borderRadius, .borderRadius),
    (passing "background-color" "bg", .backgroundColor), (passing "opacity" "opacity", .opacity),
    (passing "box-shadow" "shadow", .boxShadow)]

theorem filter_ambiguous : (forText ++ forFont ++ forBox ++ forSurface).filter
    (fun r => r.property ∉ ambiguousProperties) = judged.map Prod.fst := by
  rfl

theorem agrees_judged : ∀ row ∈ judged, row.1.Agrees row.2 := by
  have hleading : Governs "leading" .lineHeight :=
    governs_start "leading-" .lineHeight (by simp [Test.ofUtility, Test.utilityTests])
      (by decide) (fun _ => rfl)
  have htracking : Governs "tracking" .letterSpacing :=
    governs_start "tracking-" .letterSpacing (by simp [Test.ofUtility, Test.utilityTests])
      (by decide) (fun _ => rfl)
  have hwidth : Governs "w" .width :=
    governs_start "w-" .width (by simp [Test.ofUtility, Test.utilityTests])
      (by decide) (fun _ => rfl)
  have hheight : Governs "h" .height :=
    governs_start "h-" .height (by simp [Test.ofUtility, Test.utilityTests])
      (by decide) (fun _ => rfl)
  have hbackground : Governs "bg" .backgroundColor :=
    governs_start "bg-" .backgroundColor (by simp [Test.ofUtility, Test.utilityTests])
      (by decide) (fun _ => rfl)
  have hopacity : Governs "opacity" .opacity :=
    governs_start "opacity-" .opacity (by simp [Test.ofUtility, Test.utilityTests])
      (by decide) (fun _ => rfl)
  have hshadow : Governs "shadow" .boxShadow :=
    governs_of_test ⟨fun t => Test.isWord ["shadow"] t || Test.starts "shadow-" t,
      fun _ => .boxShadow⟩ (by simp [Test.ofUtility, Test.utilityTests])
      (by decide) (fun _ => rfl) (fun _ => rfl)
  simp only [judged, List.forall_mem_cons]
  refine ⟨agrees_textAlign, agrees_decorationLine, agrees_decorationStyle, agrees_decorationSkipInk,
    agrees_decorationThickness, agrees_underlineOffset, agrees_underlinePosition,
    agrees_scaled hleading (by decide), agrees_scaled htracking (by decide),
    ?_, ?_, ?_, ?_, ?_, ?_, ?_, ?_, ?_, ?_,
    agrees_passing hwidth, agrees_passing hheight, agrees_borderRadius,
    agrees_passing hbackground, agrees_passing hopacity, agrees_passing hshadow, by simp⟩
  -- The margins and the paddings, all by one test.
  all_goals exact agrees_passing (governs_spacing (by decide) (fun _ => rfl))

theorem categoryOfProperty_judged :
    ∀ row ∈ judged, Test.categoryOfProperty row.1.property = row.2 := by
  decide

/-- Every rule but the ambiguous ones writes classes of the category of its property. -/
theorem agrees_of_mem {r : Rule} (hr : r ∈ forText ++ forFont ++ forBox ++ forSurface)
    (hproperty : r.property ∉ ambiguousProperties) :
    r.Agrees (Test.categoryOfProperty r.property) := by
  have hmem : r ∈ judged.map Prod.fst := by
    rw [← filter_ambiguous, List.mem_filter]
    exact ⟨hr, by simpa using hproperty⟩
  obtain ⟨row, hrow, rfl⟩ := List.mem_map.1 hmem
  rw [categoryOfProperty_judged row hrow]
  exact agrees_judged row hrow

end Rule

/-! ## Borders -/

/-- A style whose class is one of a border: it has no colon, and its part before a hyphen is none
of the names that belong to tables. -/
def PlainStyle (style : Text) : Prop :=
  .char ':' ∉ style ∧
    style.takeWhile (· ≠ .char '-') ∉ ["collapse", "separate", "spacing"].map Text.of

instance (style : Text) : Decidable (PlainStyle style) :=
  inferInstanceAs (Decidable (_ ∧ _))

theorem governs_border {stem : Text} (hstem : IsStem stem)
    (hpasses : ∀ value, Test.starts "border-" (bracketed stem value) = true)
    (hcategory : ∀ value, Test.categoryOfBorder (bracketed stem value) = .border) :
    Governs stem .border :=
  governs_of_test ⟨Test.starts "border-", Test.categoryOfBorder⟩
    (by simp [Test.ofUtility, Test.utilityTests]) hstem hpasses hcategory

theorem categoryOf_borderStyle {style : Text} (hplain : Unbracketed style)
    (hstyle : PlainStyle style) : categoryOf ("border-" ++ style) = .border := by
  have hfront : Text.of "border-" = ['b', 'o', 'r', 'd', 'e', 'r', '-'].map CodePoint.char := rfl
  have hbare : bareUtility (utilityOf ("border-" ++ style)) = "border-" ++ style := by
    rw [utilityOf_plain]
    · exact bareUtility_of_head (by simp [hfront]) (by simp [hfront])
    · exact unbracketed_append.2 ⟨by decide, hplain⟩
    · have hcolon : CodePoint.char ':' ∉ Text.of "border-" := by decide
      simp [hcolon, hstyle.1]
  have hmem : (⟨Test.starts "border-", Test.categoryOfBorder⟩ : Test) ∈ Test.ofUtility := by
    simp [Test.ofUtility, Test.utilityTests]
  have hstarts : Test.starts "border-" ("border-" ++ style) = true :=
    List.isPrefixOf_iff_prefix.2 (List.prefix_append _ _)
  rw [categoryOf_of_passes hbare hmem hstarts]
  show Test.categoryOfBorder ("border-" ++ style) = .border
  have hafter : Test.after "border-" ("border-" ++ style) = style := by simp [Test.after]
  have htables : Test.isWord ["collapse", "separate", "spacing"]
      (style.takeWhile (· ≠ .char '-')) = false := by
    have h := hstyle.2
    simpa [Test.isWord] using h
  rw [Test.categoryOfBorder, hafter, htables]
  rfl

theorem Unbracketed.joinWith {separator : Text} (hseparator : Unbracketed separator)
    {texts : List Text} (h : ∀ t ∈ texts, Unbracketed t) :
    Unbracketed (Text.joinWith separator texts) := by
  induction texts with
  | nil => intro c hc; cases hc
  | cons t rest ih =>
    have ht : Unbracketed t := h t (by simp)
    have hrest := ih (fun u hu => h u (List.mem_cons_of_mem t hu))
    cases rest with
    | nil => exact ht
    | cons u rest =>
      exact unbracketed_append.2 ⟨unbracketed_append.2 ⟨ht, hseparator⟩, hrest⟩

namespace BorderSide

theorem governs_stem : ∀ side ∈ all, Governs side.stem .border := by
  simp only [all, List.forall_mem_cons]
  refine ⟨?_, ?_, ?_, ?_, ?_, by simp⟩
  all_goals exact governs_border (by decide) (fun _ => rfl) (fun _ => rfl)

theorem categoryOf_stem : ∀ side ∈ all, categoryOf side.stem = .border := by
  decide

theorem categoryOf_classOf {side : BorderSide} (hside : side ∈ all) {t : Text} (ht : Unbracketed t) :
    categoryOf (side.classOf (.ofLiteral t)) = .border := by
  rw [classOf, Value.entry?_ofLiteral, Value.text_ofLiteral]
  exact governs_stem side hside t ht

theorem categoryOf_width {side : BorderSide} (hside : side ∈ all) {t : Text} (ht : Unbracketed t) :
    ∀ cls ∈ side.widthClasses (.ofLiteral t), categoryOf cls = .border := by
  intro cls hcls
  unfold widthClasses at hcls
  split at hcls
  · cases hcls
  · split at hcls
    · rw [List.mem_singleton.1 hcls]
      exact categoryOf_stem side hside
    · rw [List.mem_singleton.1 hcls]
      exact categoryOf_classOf hside ht

/-- The colour of a border of literal tokens is literal text made of them. -/
theorem color?_ofLiteral {tokens : List Text} (h : ∀ t ∈ tokens, Unbracketed t) {color : Value}
    (hcolor : color? (tokens.map .ofLiteral) = some color) :
    ∃ t, color = .ofLiteral t ∧ Unbracketed t := by
  cases tokens with
  | nil => cases hcolor
  | cons t rest =>
    cases rest with
    | nil => exact ⟨t, (Option.some.inj hcolor).symm, h t (by simp)⟩
    | cons u rest =>
      have htexts : ((t :: u :: rest).map Value.ofLiteral).map Value.text = t :: u :: rest := by
        simp [Value.text_ofLiteral, Function.comp_def]
      have hjoined : some (Value.ofLiteral (Text.joinWith [.char ' ']
          (((t :: u :: rest).map Value.ofLiteral).map Value.text))) = some color := hcolor
      rw [htexts] at hjoined
      exact ⟨_, (Option.some.inj hjoined).symm, Unbracketed.joinWith (by decide) h⟩

theorem categoryOf_color {side : BorderSide} (hside : side ∈ all) {tokens : List Text}
    (h : ∀ t ∈ tokens, Unbracketed t) :
    ∀ cls ∈ side.colorClasses (color? (tokens.map .ofLiteral)), categoryOf cls = .border := by
  intro cls hcls
  cases hcolor : color? (tokens.map Value.ofLiteral) with
  | none =>
    rw [hcolor] at hcls
    cases hcls
  | some color =>
    obtain ⟨t, rfl, ht⟩ := color?_ofLiteral h hcolor
    rw [hcolor] at hcls
    simp only [colorClasses] at hcls
    split at hcls
    · cases hcls
    · rw [List.mem_singleton.1 hcls]
      exact categoryOf_classOf hside ht

/-- The classes of a border of literal tokens are border classes. -/
theorem categoryOf_classes {side : BorderSide} (hside : side ∈ all) {tokens : List Text}
    (h : ∀ t ∈ tokens, Unbracketed t) (hstyle : ∀ style, tokens[1]? = some style → PlainStyle style) :
    ∀ cls ∈ side.classes [] (tokens.map .ofLiteral), categoryOf cls = .border := by
  intro cls hcls
  cases tokens with
  | nil => cases hcls
  | cons width rest =>
    rw [List.map_cons, classes, List.mem_append, List.mem_append] at hcls
    have hrest : ∀ t ∈ rest, Unbracketed t := fun t ht => h t (List.mem_cons_of_mem width ht)
    rcases hcls with (hcls | hcls) | hcls
    · exact categoryOf_width hside (h width (by simp)) cls hcls
    · cases rest with
      | nil => cases hcls
      | cons style rest =>
        simp only [List.map_cons, style?, Value.text_ofLiteral] at hcls
        split at hcls
        · cases hcls
        · rw [styleClasses, if_neg (by simp), List.mem_singleton] at hcls
          rw [hcls]
          exact categoryOf_borderStyle (hrest style (by simp)) (hstyle style rfl)
    · rw [← List.map_drop] at hcls
      exact categoryOf_color hside (fun t ht => hrest t (List.mem_of_mem_drop ht)) cls hcls

/-- The classes of a border of literal text are border classes, unless its style reads like another
class. -/
theorem categoryOf_of_mem {side : BorderSide} (hside : side ∈ all) {v : Text} (hv : Unbracketed v)
    (hstyle : ∀ style, (Text.words v)[1]? = some style → PlainStyle style) :
    ∀ cls ∈ side.classes [] (partsOf (.ofLiteral v)), categoryOf cls = .border := by
  unfold partsOf
  split
  · intro cls hcls
    cases hcls
  · rw [Value.tokens_ofLiteral]
    apply categoryOf_classes hside _ hstyle
    intro t ht
    exact hv.subset (fun c hc => Text.mem_of_mem_words ht hc)

theorem categoryOfProperty_all : ∀ side ∈ all, Test.categoryOfProperty side.property = .border := by
  decide

end BorderSide

/-! ## All properties -/

/-- The classes that a literal value has under a property are of the category of the property, and so
is the class that names the property itself. -/
theorem classes_agree_with_property {p v : Text} (hname : ∀ c ∈ p, Declaration.isNameChar c = true)
    (hp : p ∉ ambiguousProperties) (hv : Unbracketed v)
    (hborder : p ∈ borderProperties → ∀ style, (Text.words v)[1]? = some style → PlainStyle style) :
    (∀ cls ∈ utilities (.only p (.ofLiteral v)), categoryOf cls = Test.categoryOfProperty p) ∧
      categoryOf (arbitrary p v) = Test.categoryOfProperty p := by
  refine ⟨?_, categoryOf_arbitrary hname hv⟩
  intro cls hcls
  by_cases horder : p ∈ propertyOrder
  · rw [← Source.map_property_all] at horder
    obtain ⟨x, hx, rfl⟩ := List.mem_map.1 horder
    rw [utilities_only hx] at hcls
    cases x with
    | rule r =>
      have hr : r ∈ Rule.forText ++ Rule.forFont ++ Rule.forBox ++ Rule.forSurface := by
        simpa [Source.all, or_assoc] using hx
      have hagrees := Rule.agrees_of_mem hr hp
      change cls ∈ r.classes (.ofLiteral v) at hcls
      rw [Rule.classes_ofLiteral] at hcls
      split at hcls
      · cases hcls
      · exact hagrees v hv cls hcls
    | side b =>
      have hb : b ∈ BorderSide.all := by simpa [Source.all] using hx
      have hstyle := hborder (Source.property_mem_of_side hx)
      show categoryOf cls = Test.categoryOfProperty b.property
      rw [BorderSide.categoryOfProperty_all b hb]
      exact BorderSide.categoryOf_of_mem hb hv hstyle cls hcls
  · rw [utilities_only_of_not_mem horder] at hcls
    cases hcls

theorem border_classes_agree :
    utilities (.only "border-top" (.ofLiteral "2px dashed red")) =
        ["border-t-[2px]", "border-dashed", "border-t-[red]"].map Text.of ∧
      (∀ cls ∈ utilities (.only "border-top" (.ofLiteral "2px dashed red")),
        categoryOf cls = Test.categoryOfProperty "border-top") ∧
      categoryOf (arbitrary "border-top" "2px dashed red") = Test.categoryOfProperty "border-top" := by
  constructor
  · have hside : Source.side ⟨"border-top", "border-t"⟩ ∈ Source.all := by
      simp [Source.all, BorderSide.all]
    refine (utilities_only hside (.ofLiteral "2px dashed red")).trans ?_
    show BorderSide.classes [] ⟨"border-top", "border-t"⟩
      (BorderSide.partsOf (.ofLiteral "2px dashed red")) = _
    decide
  · apply classes_agree_with_property (by decide) (by decide) (by decide)
    intro _ style hstyle
    have hword : (Text.words "2px dashed red")[1]? = some (Text.of "dashed") := by decide
    rw [hword] at hstyle
    rw [← Option.some.inj hstyle]
    decide

end UtilityCss
