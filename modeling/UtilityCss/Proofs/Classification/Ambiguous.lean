import UtilityCss.Proofs.Classification.Bracketed
import UtilityCss.Proofs.Text.Number
import UtilityCss.Proofs.Utility.Composition
/-
  The classes that are judged by their value.

  A colour and the size of a font share the name `text-`, and the weight, the
  style and the family of a font share the name `font-`. Which of them a class
  governs is read off the value in its brackets, and the rules that write the
  class look at the value in ways of their own: a size is looked up in its
  scale without its unit, and a number is given one. What is proved here says
  for each of the five properties what becomes of its class.

  What is proved:
    1. `categoryOf_bracketed_text`, `categoryOf_bracketed_font` : behind the
       two names, the value in brackets gives the category.
    2. `lengthLike_of_isNumber` : a size that is a number without its unit is
       read as a length.
    3. `judged_by_value` : the categories for the five properties.
-/

namespace UtilityCss

/-! ## What a value is taken for -/

/-- A value that is taken for a length behind `text-`. -/
def LengthLike (v : Text) : Prop :=
  Text.of "length:" <+: v ∨
    ¬ Text.of "color:" <+: v ∧
      (Text.LengthForm v ∨ ∃ start ∈ ["calc(", "clamp(", "min(", "max("], Text.of start <+: v)

/-- A value that is taken for a weight behind `font-`. -/
def AllDigits (v : Text) : Prop := ∀ c ∈ v, Text.isDigit c = true

/-- A value that is taken for a style behind `font-`. -/
def Slanted (v : Text) : Prop := v = Text.of "italic" ∨ Text.of "oblique" <+: v

theorem lengthLike_of_lengthForm {v : Text} (h : Text.LengthForm v) : LengthLike v := by
  refine Or.inr ⟨?_, Or.inl h⟩
  obtain ⟨n, unit, rfl, -⟩ := h
  obtain ⟨c, rest, htext, hc⟩ := n.text_head
  rintro ⟨tail, htail⟩
  have hfirst : c = .char 'c' := by
    rw [htext] at htail
    exact (List.cons.inj htail).1.symm
  rw [hfirst] at hc
  revert hc
  decide

theorem not_slanted_of_allDigits {v : Text} (h : AllDigits v) : ¬ Slanted v := by
  rintro (rfl | ⟨tail, rfl⟩)
  · have hletter : Text.isDigit (.char 'i') = true := h _ (by decide)
    revert hletter
    decide
  · have hmem : CodePoint.char 'o' ∈ Text.of "oblique" := by decide
    have hletter : Text.isDigit (.char 'o') = true := h _ (List.mem_append_left tail hmem)
    revert hletter
    decide

/-! ## Behind `text-` and `font-` -/

namespace Test

/-- Among tests that exclude one another, a value in brackets is judged by what stands in them. -/
theorem firstPassed_enclosed {tests inner : List Test} (hexclusive : Exclusive tests)
    {other : Category} (hmem : (⟨fun t => (bracketedInner? t).isSome,
      fun t => firstPassed other inner ((bracketedInner? t).getD [])⟩ : Test) ∈ tests)
    (default : Category) (v : Text) :
    firstPassed default tests (enclosed [] v) = firstPassed other inner v := by
  have hinner := bracketedInner?_enclosed v
  rw [firstPassed_of_passes hexclusive hmem (by simp [hinner])]
  simp [hinner]

theorem lengthTest_iff {v : Text} (hfeed : CodePoint.char '\n' ∉ v) :
    (Text.isLength v || starts "calc(" v || starts "clamp(" v || starts "min(" v ||
        starts "max(" v) = true ↔
      Text.LengthForm v ∨ ∃ start ∈ ["calc(", "clamp(", "min(", "max("], Text.of start <+: v := by
  simp [Text.isLength_iff hfeed, starts_iff, or_assoc]

theorem firstPassed_ofBracketedText {v : Text} (hfeed : CodePoint.char '\n' ∉ v) :
    (LengthLike v → firstPassed .color ofBracketedText v = .fontSize) ∧
      (¬ LengthLike v → firstPassed .color ofBracketedText v = .color) := by
  by_cases hlength : starts "length:" v = true
  · have hlike : LengthLike v := Or.inl (starts_iff.1 hlength)
    have hcategory : firstPassed .color ofBracketedText v = .fontSize := by
      simp [firstPassed, ofBracketedText, ofStart, hlength]
    exact ⟨fun _ => hcategory, fun h => absurd hlike h⟩
  · have hno : ¬ Text.of "length:" <+: v := fun h => hlength (starts_iff.2 h)
    by_cases hcolor : starts "color:" v = true
    · have hlike : ¬ LengthLike v := by
        rintro (h | h)
        · exact hno h
        · exact h.1 (starts_iff.1 hcolor)
      have hcategory : firstPassed .color ofBracketedText v = .color := by
        simp [firstPassed, ofBracketedText, ofStart, List.find?, hlength, hcolor]
      exact ⟨fun h => absurd h hlike, fun _ => hcategory⟩
    · have hnocolor : ¬ Text.of "color:" <+: v := fun h => hcolor (starts_iff.2 h)
      by_cases hform : (Text.isLength v || starts "calc(" v || starts "clamp(" v || starts "min(" v ||
          starts "max(" v) = true
      · have hlike : LengthLike v := Or.inr ⟨hnocolor, (lengthTest_iff hfeed).1 hform⟩
        have hcategory : firstPassed .color ofBracketedText v = .fontSize := by
          simp only [firstPassed, ofBracketedText, ofStart, List.find?, hlength, hcolor, hform]
        exact ⟨fun _ => hcategory, fun h => absurd hlike h⟩
      · have hlike : ¬ LengthLike v := by
          rintro (h | h)
          · exact hno h
          · exact hform ((lengthTest_iff hfeed).2 h.2)
        have hcategory : firstPassed .color ofBracketedText v = .color := by
          simp only [firstPassed, ofBracketedText, ofStart, List.find?, hlength, hcolor, hform]
        exact ⟨fun h => absurd h hlike, fun _ => hcategory⟩

theorem firstPassed_ofBracketedFont {v : Text} (hne : v ≠ []) (hfeed : CodePoint.char '\n' ∉ v) :
    (firstPassed .none ofBracketedFont v = .fontWeight ↔ AllDigits v) ∧
      (firstPassed .none ofBracketedFont v = .fontStyle ↔ Slanted v) ∧
      (¬ AllDigits v → ¬ Slanted v → firstPassed .none ofBracketedFont v = .none) := by
  have hwhole : Text.isWhole v = true ↔ AllDigits v := by
    rw [Text.isWhole_iff hfeed]
    exact ⟨fun h => h.2, fun h => ⟨hne, h⟩⟩
  have hslant : (v == "italic" || starts "oblique" v) = true ↔ Slanted v := by
    rw [Bool.or_eq_true_iff, beq_iff_eq, starts_iff]
    rfl
  by_cases hdigits : AllDigits v
  · have hcategory : firstPassed .none ofBracketedFont v = .fontWeight := by
      simp [firstPassed, ofBracketedFont, hwhole.2 hdigits]
    have hnot := not_slanted_of_allDigits hdigits
    simp [hcategory, hdigits, hnot]
  · have hfails : Text.isWhole v = false := by
      simpa using fun h => hdigits (hwhole.1 h)
    by_cases hslanted : Slanted v
    · have hcategory : firstPassed .none ofBracketedFont v = .fontStyle := by
        simp only [firstPassed, ofBracketedFont, List.find?, hfails, hslant.2 hslanted]
      simp [hcategory, hdigits, hslanted]
    · have hplain : (v == "italic" || starts "oblique" v) = false := by
        simpa using fun h => hslanted (hslant.1 h)
      have hcategory : firstPassed .none ofBracketedFont v = .none := by
        simp only [firstPassed, ofBracketedFont, List.find?, hfails, hplain]
      simp [hcategory, hdigits, hslanted]

end Test

/-- Behind a name whose test looks on, a value in brackets is judged by what stands in them. -/
theorem categoryOf_bracketed_of_inner (start : String) (default : Category) {stem : Text}
    {tests inner : List Test} {other : Category} (hstem : IsStem stem)
    (hexclusive : Exclusive tests)
    (hmem : (⟨Test.starts start, fun t => firstPassed default tests (Test.after start t)⟩ : Test) ∈
      Test.ofUtility)
    (hinner : (⟨fun t => (Test.bracketedInner? t).isSome,
      fun t => firstPassed other inner ((Test.bracketedInner? t).getD [])⟩ : Test) ∈ tests)
    (hstart : ∀ v, bracketed stem v = Text.of start ++ enclosed [] v) {v : Text}
    (hv : Unbracketed v) : categoryOf (bracketed stem v) = firstPassed other inner v := by
  have hpasses : Test.starts start (bracketed stem v) = true := by
    rw [Test.starts_iff, hstart]
    exact List.prefix_append _ _
  have hafter : Test.after start (bracketed stem v) = enclosed [] v := by
    rw [Test.after, hstart, List.drop_left]
  have hcategory : categoryOf (bracketed stem v) =
      firstPassed default tests (Test.after start (bracketed stem v)) :=
    categoryOf_bracketed hstem hv hmem hpasses
  rw [hcategory, hafter]
  exact Test.firstPassed_enclosed hexclusive hinner default v

theorem categoryOf_bracketed_text {v : Text} (hv : Unbracketed v) :
    categoryOf (bracketed "text" v) = firstPassed .color Test.ofBracketedText v :=
  categoryOf_bracketed_of_inner "text-" .color (by decide) Test.exclusive_ofText
    (by simp [Test.ofUtility, Test.utilityTests, Test.behind]) (by simp [Test.ofText]) (fun _ => rfl) hv

theorem categoryOf_bracketed_font {v : Text} (hv : Unbracketed v) :
    categoryOf (bracketed "font" v) = firstPassed .none Test.ofBracketedFont v :=
  categoryOf_bracketed_of_inner "font-" .none (by decide) Test.exclusive_ofFont
    (by simp [Test.ofUtility, Test.utilityTests, Test.behind]) (by simp [Test.ofFont]) (fun _ => rfl) hv

/-! ## The size of a font -/

namespace Rule

/-- A size that is a number without its unit is taken for a length, and stays one with the unit. -/
theorem lengthLike_of_isNumber {v : Text} (hfeed : CodePoint.char '\n' ∉ v)
    (h : Text.isNumber (withoutPixels v) = true) :
    LengthLike v ∧ LengthLike (withoutPixels v ++ Text.of "px") := by
  have hsize : CodePoint.char '\n' ∉ withoutPixels v := fun hmem => hfeed (withoutPixels_subset v hmem)
  obtain ⟨n, hn⟩ := (Text.isNumber_iff hsize).1 h
  have hpixels : LengthLike (n.text ++ Text.of "px") :=
    lengthLike_of_lengthForm ⟨n, Text.of "px", rfl, Or.inr (by simp [Text.units])⟩
  have hbare : LengthLike n.text :=
    lengthLike_of_lengthForm ⟨n, [], (List.append_nil _).symm, Or.inl rfl⟩
  refine ⟨?_, hn ▸ hpixels⟩
  rcases withoutPixels_cases v with hv | hv
  · rw [hv, hn]
    exact hbare
  · rw [hv, hn]
    exact hpixels

theorem isNumber_of_fontSize : ∀ row ∈ Scale.fontSize, Text.isNumber row.1 = true := by
  decide

theorem fontSize_ofText (v : Text) : fontSize.ofText v =
    match Scale.fontSize.name? (withoutPixels v) with
    | some name => ["text-" ++ name]
    | none =>
      if Text.isNumber (withoutPixels v) then ["text-[" ++ withoutPixels v ++ "px]"]
      else [bracketed "text" v] :=
  rfl

theorem pixels_eq_bracketed (size : Text) :
    Text.of "text-[" ++ size ++ Text.of "px]" = bracketed "text" (size ++ Text.of "px") := by
  have hopen : Text.of "text-[" = Text.of "text" ++ Text.of "-[" := rfl
  have hclose : Text.of "px]" = Text.of "px" ++ Text.of "]" := rfl
  rw [bracketed, hopen, hclose]
  simp only [List.append_assoc]

theorem categoryOf_fontSize {v : Text} (hfeed : CodePoint.char '\n' ∉ v) (hv : Unbracketed v) :
    ∃ cls, fontSize.ofText v = [cls] ∧ (LengthLike v → categoryOf cls = .fontSize) ∧
      (¬ LengthLike v → categoryOf cls = .color) := by
  have hnames : ∀ row ∈ Scale.fontSize, categoryOf ("text-" ++ row.2) = .fontSize := by decide
  rw [fontSize_ofText]
  cases hname : Scale.fontSize.name? (withoutPixels v) with
  | some name =>
    have hmem : (withoutPixels v, name) ∈ Scale.fontSize := Scale.mem_of_name? hname
    have hcategory : categoryOf ("text-" ++ name) = .fontSize := hnames (withoutPixels v, name) hmem
    have hnumber : Text.isNumber (withoutPixels v) = true :=
      isNumber_of_fontSize (withoutPixels v, name) hmem
    have hlike : LengthLike v := (lengthLike_of_isNumber hfeed hnumber).1
    exact ⟨"text-" ++ name, rfl, fun _ => hcategory, fun h => absurd hlike h⟩
  | none =>
    by_cases hnumber : Text.isNumber (withoutPixels v) = true
    · obtain ⟨hlike, hpixels⟩ := lengthLike_of_isNumber hfeed hnumber
      have hsize : CodePoint.char '\n' ∉ withoutPixels v ++ Text.of "px" := by
        rw [List.mem_append, not_or]
        exact ⟨fun hmem => hfeed (withoutPixels_subset v hmem), by decide⟩
      have hplain : Unbracketed (withoutPixels v ++ Text.of "px") :=
        unbracketed_append.2 ⟨hv.subset (withoutPixels_subset v), by decide⟩
      refine ⟨_, if_pos hnumber, fun _ => ?_, fun h => absurd hlike h⟩
      rw [pixels_eq_bracketed, categoryOf_bracketed_text hplain]
      exact (Test.firstPassed_ofBracketedText hsize).1 hpixels
    · refine ⟨bracketed "text" v, if_neg hnumber, ?_⟩
      rw [categoryOf_bracketed_text hv]
      exact Test.firstPassed_ofBracketedText hfeed

/-! ## The weight and the style of a font -/

theorem categoryOf_fontWeight {v : Text} (hne : v ≠ []) (hfeed : CodePoint.char '\n' ∉ v)
    (hv : Unbracketed v) : ∃ cls, (scaled "font-weight" "font" Scale.fontWeight).ofText v = [cls] ∧
      (categoryOf cls = .fontWeight ↔ AllDigits v) := by
  have hrows : ∀ row ∈ Scale.fontWeight,
      categoryOf ("font" ++ "-" ++ row.2) = .fontWeight ∧ ∀ c ∈ row.1, Text.isDigit c = true := by
    decide
  cases hname : Scale.fontWeight.name? v with
  | some name =>
    obtain ⟨hcategory, hdigits⟩ := hrows _ (Scale.mem_of_name? hname)
    refine ⟨"font" ++ "-" ++ name, ?_, fun _ => hdigits, fun _ => hcategory⟩
    simp only [scaled, hname]
  | none =>
    refine ⟨bracketed "font" v, by simp only [scaled, hname], ?_⟩
    rw [categoryOf_bracketed_font hv]
    exact (Test.firstPassed_ofBracketedFont hne hfeed).1

theorem categoryOf_fontStyle {v : Text} (hne : v ≠ []) (hfeed : CodePoint.char '\n' ∉ v)
    (hv : Unbracketed v) : ∃ cls, fontStyle.ofText v = [cls] ∧
      (categoryOf cls = .fontStyle ↔ Slanted v ∨ v = Text.of "normal") := by
  have hrows : ∀ row ∈ Scale.fontStyle,
      categoryOf row.2 = .fontStyle ∧ (row.1 = Text.of "italic" ∨ row.1 = Text.of "normal") := by
    decide
  cases hname : Scale.fontStyle.name? v with
  | some name =>
    obtain ⟨hcategory, hvalue⟩ := hrows _ (Scale.mem_of_name? hname)
    refine ⟨name, by simp only [fontStyle, hname, Option.getD_some], fun _ => ?_, fun _ => hcategory⟩
    rcases hvalue with h | h
    · exact Or.inl (Or.inl h)
    · exact Or.inr h
  | none =>
    have hnormal : v ≠ Text.of "normal" := by
      rintro rfl
      exact Scale.not_mem_of_name? hname (by decide)
    refine ⟨bracketed "font" v, by simp only [fontStyle, hname, Option.getD_none], ?_⟩
    rw [categoryOf_bracketed_font hv, (Test.firstPassed_ofBracketedFont hne hfeed).2.1]
    simp [hnormal]

end Rule

/-! ## The five properties -/

/-- How the one class of each of the five properties is judged, for a literal value. -/
structure JudgedByValue (v : Text) : Prop where
  size_and_color : ∀ p ∈ ["font-size", "color"].map Text.of,
    ∃ cls, utilities (.only p (.ofLiteral v)) = [cls] ∧
      (LengthLike v → categoryOf cls = .fontSize) ∧ (¬ LengthLike v → categoryOf cls = .color)
  scale_or_number : (Scale.fontSize.name? (Rule.withoutPixels v)).isSome ∨
    Text.isNumber (Rule.withoutPixels v) = true → LengthLike v
  weight : ∃ cls, utilities (.only "font-weight" (.ofLiteral v)) = [cls] ∧
    (categoryOf cls = .fontWeight ↔ AllDigits v)
  style : ∃ cls, utilities (.only "font-style" (.ofLiteral v)) = [cls] ∧
    (categoryOf cls = .fontStyle ↔ Slanted v ∨ v = Text.of "normal")
  family : ∃ cls, utilities (.only "font-family" (.ofLiteral v)) = [cls] ∧
    (categoryOf cls = .fontWeight ↔ AllDigits v) ∧ (categoryOf cls = .fontStyle ↔ Slanted v) ∧
      (¬ AllDigits v → ¬ Slanted v → categoryOf cls = .none)

theorem judged_by_value {v : Text} (hne : v ≠ []) (hfeed : CodePoint.char '\n' ∉ v)
    (hv : Unbracketed v) : JudgedByValue v where
  size_and_color := by
    intro p hp
    rcases List.mem_cons.1 hp with rfl | hp
    · have hsize := utilities_only_literal (r := .fontSize) (by simp [Source.all, Rule.forFont]) hne
      change utilities (.only "font-size" (.ofLiteral v)) = _ at hsize
      rw [hsize]
      exact Rule.categoryOf_fontSize hfeed hv
    · rw [List.mem_singleton.1 hp]
      have hcolor := utilities_only_literal (r := .passing "color" "text")
        (by simp [Source.all, Rule.forText]) hne
      refine ⟨bracketed "text" v, hcolor, ?_⟩
      rw [categoryOf_bracketed_text hv]
      exact Test.firstPassed_ofBracketedText hfeed
  scale_or_number := by
    rintro (hscale | hnumber)
    · obtain ⟨name, hname⟩ := Option.isSome_iff_exists.1 hscale
      have hnumber : Text.isNumber (Rule.withoutPixels v) = true :=
        Rule.isNumber_of_fontSize (Rule.withoutPixels v, name) (Scale.mem_of_name? hname)
      exact (Rule.lengthLike_of_isNumber hfeed hnumber).1
    · exact (Rule.lengthLike_of_isNumber hfeed hnumber).1
  weight := by
    have hweight := utilities_only_literal (r := .scaled "font-weight" "font" Scale.fontWeight)
      (by simp [Source.all, Rule.forFont]) hne
    change utilities (.only "font-weight" (.ofLiteral v)) = _ at hweight
    rw [hweight]
    exact Rule.categoryOf_fontWeight hne hfeed hv
  style := by
    have hstyle := utilities_only_literal (r := .fontStyle) (by simp [Source.all, Rule.forFont]) hne
    change utilities (.only "font-style" (.ofLiteral v)) = _ at hstyle
    rw [hstyle]
    exact Rule.categoryOf_fontStyle hne hfeed hv
  family := by
    have hfamily := utilities_only_literal (r := .fontFamily) (by simp [Source.all, Rule.forFont])
      hne
    refine ⟨bracketed "font" v, hfamily, ?_⟩
    rw [categoryOf_bracketed_font hv]
    exact Test.firstPassed_ofBracketedFont hne hfeed

theorem pointed_length_judged : Text.LengthForm ".5rem" ∧ JudgedByValue ".5rem" := by
  have hfeed : CodePoint.char '\n' ∉ Text.of ".5rem" := by decide
  refine ⟨(Text.isLength_iff hfeed).1 (by decide), ?_⟩
  exact judged_by_value (by decide) hfeed (by decide)

end UtilityCss
