import Mathlib.Data.List.Nodup
import UtilityCss.Border
import UtilityCss.Proofs.OrderedMap.Writing
import UtilityCss.Proofs.Value.Tokens
/-
  The classes of a style are those of its properties, one after the other.

  Every property has one source of classes, a rule or a side of a border, and
  the sources stand in a fixed order. A rule looks at its own property alone.
  The sides of a border share one thing, the styles that are named already; so
  all that a side gives next to other sides, and not by itself, is that its
  style is left out where a side before it has asked for the same.

  What is proved:
    1. `classesFrom_eq` : the styles named before a side are those asked for
       by the sides before it.
    2. `utilities_eq_flatMap`, `utilities_only` : the classes of a style by
       source, and those of one property alone.
    3. `utilities_compositional` : the first put together from the second.
-/

namespace UtilityCss

/-! ## The order of properties, and the styles of borders -/

/-- The properties that give classes, in the order of their classes. -/
def propertyOrder : List Text :=
  ["color", "text-align", "text-decoration-line", "text-decoration-style",
    "text-decoration-skip-ink", "text-decoration-thickness", "text-underline-offset",
    "text-underline-position",
    "font-size", "font-weight", "line-height", "letter-spacing", "font-family", "font-style",
    "margin", "margin-top", "margin-bottom", "margin-left", "margin-right",
    "padding", "padding-top", "padding-bottom", "padding-left", "padding-right",
    "width", "height", "border-radius",
    "border", "border-top", "border-bottom", "border-left", "border-right",
    "background-color", "opacity", "box-shadow"].map Text.of

def borderProperties : List Text :=
  ["border", "border-top", "border-bottom", "border-left", "border-right"].map Text.of

/-- A property declared by itself. -/
def Declarations.only (p : Text) (v : Value) : Declarations := OrderedMap.ofPairs [(p, v)]

/-- The style that a border asks for: the text of its second token, unless that is `none`. A blank
value asks for nothing. -/
def borderStyle? (v : Value) : Option Text :=
  if Text.trim v.text = [] then none
  else (v.tokens[1]?.map Value.text).filter (fun style => style ≠ "none")

/-- Where the class of its style stands among the classes of a border: behind the class of the
width, if there is one. -/
def stylePlace (v : Value) : Nat :=
  if (v.tokens.head?.map Value.text).any (fun width => width ∈ zeroBorderWidths) then 0 else 1

/-- The styles that properties ask for, in order. -/
def stylesOf (d : Declarations) (properties : List Text) : List Text :=
  properties.filterMap (fun p => (d.get? p).bind borderStyle?)

/-- Whether a border asks for a style that one before it asks for too. -/
def repeatsStyle (d : Declarations) (p : Text) (v : Value) : Bool :=
  p ∈ borderProperties &&
    (borderStyle? v).any (fun style => style ∈ stylesOf d (borderProperties.takeWhile (· ≠ p)))

/-- What a property adds to the classes of a style: its classes alone, but for the class of a
repeated border style. -/
def contribution (d : Declarations) (p : Text) : List Text :=
  match d.get? p with
  | none => []
  | some v =>
    if repeatsStyle d p v then (utilities (.only p v)).eraseIdx (stylePlace v)
    else utilities (.only p v)

theorem Text.of_inj {s t : String} : Text.of s = Text.of t ↔ s = t := by
  constructor
  · intro h
    exact String.toList_inj.1 (List.map_injective_iff.2 (fun _ _ => CodePoint.char.inj) h)
  · exact congrArg Text.of

theorem propertyOrder_nodup : propertyOrder.Nodup := by
  simp [propertyOrder, Text.of_inj]

theorem borderProperties_nodup : borderProperties.Nodup := by
  simp [borderProperties, Text.of_inj]

theorem borderProperties_subset : borderProperties ⊆ propertyOrder := by
  simp [borderProperties, propertyOrder, Text.of_inj]

/-! ## Looking up a property -/

theorem get?_only (p q : Text) (v : Value) :
    (Declarations.only p v).get? q = if p = q then some v else none := rfl

/-! ## The sides of a border -/

namespace BorderSide

theorem map_property_all : all.map property = borderProperties := rfl

/-- The tokens of a value, if it is not blank. -/
def partsOf (v : Value) : List Value := if Text.trim v.text = [] then [] else v.tokens

theorem parts_eq (d : Declarations) (side : BorderSide) :
    side.parts d = ((d.get? side.property).map partsOf).getD [] := by
  unfold parts partsOf
  cases d.get? side.property <;> rfl

theorem style?_partsOf (v : Value) : style? (partsOf v) = borderStyle? v := by
  unfold partsOf borderStyle?
  split
  · rfl
  · match v.tokens with
    | [] => rfl
    | [_] => rfl
    | _ :: style :: _ =>
      by_cases h : style.text = "none" <;> simp [style?, h, Option.filter]

theorem style?_parts (d : Declarations) (side : BorderSide) :
    style? (side.parts d) = (d.get? side.property).bind borderStyle? := by
  rw [parts_eq]
  cases d.get? side.property with
  | none => rfl
  | some v => exact style?_partsOf v

/-- The styles that count as named at a side are those that the sides before it ask for. -/
theorem classesFrom_eq (d : Declarations) (before sides : List BorderSide)
    (h : ((before ++ sides).map property).Nodup) :
    classesFrom d (stylesOf d (before.map property)) sides =
      sides.flatMap (fun side => side.classes
        (stylesOf d (((before ++ sides).map property).takeWhile (· ≠ side.property)))
        (side.parts d)) := by
  induction sides generalizing before with
  | nil => rfl
  | cons side rest ih =>
    have hnew : ∀ p ∈ before.map property, p ≠ side.property := by
      intro p hp
      rw [List.map_append, List.nodup_append] at h
      exact h.2.2 p hp side.property (by simp)
    have hbefore : ((before ++ side :: rest).map property).takeWhile (· ≠ side.property) =
        before.map property := by
      rw [List.map_append, List.takeWhile_append_of_pos (by simpa using hnew)]
      simp
    have hnamed : stylesOf d (before.map property) ++ (style? (side.parts d)).toList =
        stylesOf d ((before ++ [side]).map property) := by
      rw [style?_parts, List.map_append, stylesOf, stylesOf, List.filterMap_append]
      cases hstyle : (d.get? side.property).bind borderStyle? <;> simp [hstyle]
    have hsame : before ++ side :: rest = (before ++ [side]) ++ rest := by simp
    rw [classesFrom, List.flatMap_cons, hbefore, hnamed, ih (before ++ [side]) (hsame ▸ h), hsame]

theorem length_widthClasses (side : BorderSide) (width : Value) :
    (side.widthClasses width).length = if width.text ∈ zeroBorderWidths then 0 else 1 := by
  unfold widthClasses
  split
  · rfl
  · split <;> rfl

/-- The classes of a border that asks for a style, with the class of the style in its place. -/
theorem classes_of_style (side : BorderSide) {v : Value} {style : Text}
    (h : borderStyle? v = some style) :
    ∃ front back : List Text, front.length = stylePlace v ∧ ∀ named,
      side.classes named (partsOf v) =
        front ++ ((if style ∈ named then [] else ["border-" ++ style]) ++ back) := by
  rw [← style?_partsOf] at h
  have hblank : ¬ Text.trim v.text = [] := by
    intro hblank
    simp [partsOf, hblank, style?] at h
  have hparts : partsOf v = v.tokens := if_neg hblank
  rw [hparts] at h ⊢
  cases htokens : v.tokens with
  | nil => simp [htokens, style?] at h
  | cons width rest =>
    rw [htokens] at h
    refine ⟨side.widthClasses width, side.colorClasses (color? (rest.drop 1)), ?_, ?_⟩
    · rw [length_widthClasses, stylePlace, htokens]
      simp
    · intro named
      rw [classes, h, styleClasses, List.append_assoc]

theorem classes_of_no_style {side : BorderSide} {v : Value} (h : borderStyle? v = none)
    (named : List Text) : side.classes named (partsOf v) = side.classes [] (partsOf v) := by
  rw [← style?_partsOf] at h
  cases hparts : partsOf v with
  | nil => rfl
  | cons width rest =>
    rw [hparts] at h
    rw [classes, classes, h]
    rfl

/-- Next to others, a side gives what it gives by itself, but for a style that is named. -/
theorem classes_named (named : List Text) (side : BorderSide) (v : Value) :
    side.classes named (partsOf v) =
      if (borderStyle? v).any (fun style => style ∈ named) then
        (side.classes [] (partsOf v)).eraseIdx (stylePlace v)
      else side.classes [] (partsOf v) := by
  cases hstyle : borderStyle? v with
  | none => exact classes_of_no_style hstyle named
  | some style =>
    obtain ⟨front, back, hlength, hclasses⟩ := classes_of_style side hstyle
    have halone : side.classes [] (partsOf v) = front ++ ("border-" ++ style) :: back := by
      rw [hclasses]
      simp
    rw [hclasses, halone, ← hlength]
    by_cases hmem : style ∈ named
    · simp [hmem, List.eraseIdx_append_of_length_le]
    · simp [hmem]

end BorderSide

/-! ## Sources of classes -/

/-- What gives the classes of a property. -/
inductive Source where
  | rule (r : Rule)
  | side (b : BorderSide)

namespace Source

def property : Source → Text
  | rule r => r.property
  | side b => b.property

/-- The classes for the value of a source's property, given the styles that are named already. -/
def classes (named : List Text) (v : Value) : Source → List Text
  | rule r => r.classes v
  | side b => b.classes named (BorderSide.partsOf v)

/-- All sources, in the order of their classes. -/
def all : List Source :=
  (Rule.forText ++ Rule.forFont ++ Rule.forBox).map rule ++ BorderSide.all.map side ++
    Rule.forSurface.map rule

theorem map_property_all : all.map property = propertyOrder := by rfl

/-- No two sources have one property, so that of a rule is not one of a border. -/
theorem eq_of_property_eq {x y : Source} (hx : x ∈ all) (hy : y ∈ all)
    (h : x.property = y.property) : x = y :=
  List.inj_on_of_nodup_map (map_property_all ▸ propertyOrder_nodup) hx hy h

theorem property_mem_of_side {b : BorderSide} (h : side b ∈ all) : b.property ∈ borderProperties := by
  rw [← BorderSide.map_property_all]
  apply List.mem_map_of_mem
  simpa [all] using h

theorem property_not_mem_of_rule {r : Rule} (h : rule r ∈ all) : r.property ∉ borderProperties := by
  intro hmem
  rw [← BorderSide.map_property_all] at hmem
  obtain ⟨b, hb, hproperty⟩ := List.mem_map.1 hmem
  have hside : side b ∈ all := by simpa [all] using hb
  have hsame : rule r = side b := eq_of_property_eq h hside hproperty.symm
  cases hsame

/-- What a source adds to the classes of a style. -/
def ofDeclarations (d : Declarations) (x : Source) : List Text :=
  ((d.get? x.property).map (fun v =>
    x.classes (stylesOf d (borderProperties.takeWhile (· ≠ x.property))) v)).getD []

end Source

theorem utilities_eq_flatMap (d : Declarations) :
    utilities d = Source.all.flatMap (Source.ofDeclarations d) := by
  have hrules : ∀ rules : List Rule, rules.flatMap (Rule.ofDeclarations d) =
      (rules.map Source.rule).flatMap (Source.ofDeclarations d) := by
    intro rules
    rw [List.flatMap_map]
    congr 1
    funext r
    unfold Rule.ofDeclarations Source.ofDeclarations
    cases hd : d.get? r.property <;> simp [Source.property, hd, Source.classes]
  have hsides : BorderSide.classesFrom d [] BorderSide.all =
      (BorderSide.all.map Source.side).flatMap (Source.ofDeclarations d) := by
    have hfrom := BorderSide.classesFrom_eq d [] BorderSide.all borderProperties_nodup
    rw [List.nil_append, BorderSide.map_property_all] at hfrom
    rw [List.flatMap_map]
    refine hfrom.trans ?_
    congr 1
    funext side
    rw [BorderSide.parts_eq]
    unfold Source.ofDeclarations Source.property
    cases d.get? side.property <;> rfl
  unfold utilities Source.all
  simp only [List.flatMap_append, List.map_append, hrules, hsides, List.append_assoc]

/-! ## One property alone -/

theorem ofDeclarations_only_self (x : Source) (v : Value) :
    x.ofDeclarations (.only x.property v) = x.classes [] v := by
  have hnone : stylesOf (.only x.property v) (borderProperties.takeWhile (· ≠ x.property)) = [] := by
    apply List.filterMap_eq_nil_iff.2
    intro q hq
    have hall := List.all_takeWhile (p := fun q => decide (q ≠ x.property)) (l := borderProperties)
    have hne : x.property ≠ q := by
      rintro rfl
      simpa using List.all_eq_true.1 hall _ hq
    rw [get?_only, if_neg hne]
    rfl
  rw [Source.ofDeclarations, hnone, get?_only, if_pos rfl]
  rfl

theorem ofDeclarations_only_of_ne {x : Source} {p : Text} (h : p ≠ x.property) (v : Value) :
    x.ofDeclarations (.only p v) = [] := by
  rw [Source.ofDeclarations, get?_only, if_neg h]
  rfl

theorem utilities_only_of_not_mem {p : Text} (h : p ∉ propertyOrder) (v : Value) :
    utilities (.only p v) = [] := by
  rw [utilities_eq_flatMap, List.flatMap_eq_nil_iff]
  intro x hx
  apply ofDeclarations_only_of_ne
  rintro rfl
  exact h (Source.map_property_all ▸ List.mem_map_of_mem hx)

/-- Among sources of different properties, only that of the declared one gives classes. -/
theorem flatMap_only {sources : List Source} (h : (sources.map Source.property).Nodup) {x : Source}
    (hx : x ∈ sources) (v : Value) :
    sources.flatMap (Source.ofDeclarations (.only x.property v)) = x.classes [] v := by
  induction sources with
  | nil => cases hx
  | cons y rest ih =>
    rw [List.map_cons, List.nodup_cons] at h
    rw [List.flatMap_cons]
    rcases List.mem_cons.1 hx with rfl | hx
    · have hrest : rest.flatMap (Source.ofDeclarations (.only x.property v)) = [] := by
        apply List.flatMap_eq_nil_iff.2
        intro z hz
        apply ofDeclarations_only_of_ne
        intro hxz
        exact h.1 (List.mem_map.2 ⟨z, hz, hxz.symm⟩)
      rw [hrest, List.append_nil, ofDeclarations_only_self]
    · have hne : x.property ≠ y.property := fun e => h.1 (e ▸ List.mem_map_of_mem hx)
      rw [ofDeclarations_only_of_ne hne, List.nil_append, ih h.2 hx]

theorem utilities_only {x : Source} (hx : x ∈ Source.all) (v : Value) :
    utilities (.only x.property v) = x.classes [] v := by
  rw [utilities_eq_flatMap]
  apply flatMap_only _ hx
  rw [Source.map_property_all]
  exact propertyOrder_nodup

theorem Rule.classes_ofLiteral (r : Rule) (t : Text) :
    r.classes (.ofLiteral t) = if t = [] then [] else r.ofText t := by
  rw [classes, Value.entry?_ofLiteral, Value.text_ofLiteral]

/-- The classes of one property that is declared with literal text. -/
theorem utilities_only_literal {r : Rule} (hr : Source.rule r ∈ Source.all) {t : Text} (ht : t ≠ []) :
    utilities (.only r.property (.ofLiteral t)) = r.ofText t := by
  rw [← if_neg ht (t := []) (e := r.ofText t), ← Rule.classes_ofLiteral]
  exact utilities_only hr _

/-! ## All properties together -/

theorem ofDeclarations_eq_contribution (d : Declarations) {x : Source} (hx : x ∈ Source.all) :
    x.ofDeclarations d = contribution d x.property := by
  have halone := utilities_only hx
  unfold contribution Source.ofDeclarations
  cases d.get? x.property with
  | none => rfl
  | some v =>
    show x.classes _ v = if repeatsStyle d x.property v then _ else _
    rw [halone]
    cases x with
    | rule r =>
      have hrule : r.property ∉ borderProperties := Source.property_not_mem_of_rule hx
      rw [if_neg (by simp [repeatsStyle, Source.property, hrule])]
      rfl
    | side b =>
      have hside : b.property ∈ borderProperties := Source.property_mem_of_side hx
      have hrepeats : repeatsStyle d b.property v = (borderStyle? v).any (fun style =>
          style ∈ stylesOf d (borderProperties.takeWhile (· ≠ b.property))) := by
        simp [repeatsStyle, hside]
      show b.classes _ (BorderSide.partsOf v) = if repeatsStyle d b.property v then _ else _
      rw [hrepeats, BorderSide.classes_named]
      rfl

/-- The classes of a style are read off what the properties of the order hold, and nothing else. -/
theorem utilities_congr {d d' : Declarations} (h : ∀ p ∈ propertyOrder, d'.get? p = d.get? p) :
    utilities d' = utilities d := by
  rw [utilities_eq_flatMap, utilities_eq_flatMap]
  apply List.flatMap_congr
  intro x hx
  have hstyles : stylesOf d' (borderProperties.takeWhile (· ≠ x.property)) =
      stylesOf d (borderProperties.takeWhile (· ≠ x.property)) := by
    apply List.filterMap_congr
    intro q hq
    rw [h q (borderProperties_subset ((List.takeWhile_sublist _).subset hq))]
  rw [Source.ofDeclarations, Source.ofDeclarations, hstyles,
    h x.property (Source.map_property_all ▸ List.mem_map_of_mem hx)]

/-- The class that a border leaves out when its style is repeated is that of its style. -/
theorem getElem?_stylePlace {p style : Text} {v : Value} (hp : p ∈ borderProperties)
    (h : borderStyle? v = some style) :
    (utilities (.only p v))[stylePlace v]? = some ("border-" ++ style) := by
  rw [← BorderSide.map_property_all] at hp
  obtain ⟨b, hb, rfl⟩ := List.mem_map.1 hp
  have hall : Source.side b ∈ Source.all := by simpa [Source.all] using hb
  obtain ⟨front, back, hlength, hclasses⟩ := BorderSide.classes_of_style b h
  have halone : utilities (.only b.property v) = front ++ (([] ++ ["border-" ++ style]) ++ back) :=
    (utilities_only hall v).trans (hclasses [])
  rw [halone, ← hlength]
  simp

/-- The classes of a style are those of each of its properties by itself, in the fixed order, but
that a border leaves out the class of a style for which a border before it asks too. Properties
outside the order give nothing, and where in the style a property stands is of no matter. -/
theorem utilities_compositional (d : Declarations) :
    utilities d = propertyOrder.flatMap (contribution d) ∧
    (∀ p ∈ borderProperties, ∀ v style, borderStyle? v = some style →
      (utilities (.only p v))[stylePlace v]? = some ("border-" ++ style)) ∧
    (∀ p ∉ propertyOrder, ∀ v, utilities (.only p v) = []) ∧
    (∀ d' : Declarations, (∀ p ∈ propertyOrder, d'.get? p = d.get? p) → utilities d' = utilities d) ∧
    ∀ d' : Declarations, d'.entries.Perm d.entries → utilities d' = utilities d := by
  refine ⟨?_, fun p hp v style => getElem?_stylePlace hp, fun p => utilities_only_of_not_mem,
    fun d' => utilities_congr, ?_⟩
  · rw [utilities_eq_flatMap, ← Source.map_property_all, List.flatMap_map]
    apply List.flatMap_congr
    exact fun x hx => ofDeclarations_eq_contribution d hx
  · intro d' hperm
    exact utilities_congr (fun p _ => OrderedMap.get?_of_perm hperm p)

end UtilityCss
