import UtilityCss.Proofs.Classification.Exclusion
import UtilityCss.Proofs.Text.Number
/-
  The order of the tests is of no matter.

  Of tests that exclude one another at most one is passed, so a row of them
  gives the same category in any order. The tests on a utility do exclude one
  another, and so do those on what stands behind `text-` and `font-`, where
  the tests on a value in brackets stand in one row with those on words. A
  value is told apart by what it opens with: no length and no whole number
  opens with a letter, whatever line feed may end it.

  What is proved:
    1. `Exclusive.countP_le_one`, `firstPassed_perm` : at most one test is
       passed, and a row in another order gives the same category.
    2. `exclusive_ofBracketedText`, `exclusive_ofBracketedFont` : the tests on
       a value in brackets exclude one another.
    3. `exclusive_spread`, `firstPassed_spread` : the tests on a value in
       brackets may stand in one row with those on words.
    4. `tests_in_any_order` : at most one test of each row is passed, and the
       rows in any order give a class its category.
-/

namespace UtilityCss

/-! ## Rows in another order -/

/-- If what passes one test fails another, what passes that one fails the first. -/
theorem fails_of_passes {p q : Bool} (h : p = true → q = false) (hq : q = true) : p = false := by
  cases p with
  | false => rfl
  | true =>
    rw [h rfl] at hq
    cases hq

theorem Exclusive.perm {tests other : List Test} (h : Exclusive tests) (hperm : other.Perm tests) :
    Exclusive other :=
  hperm.symm.pairwise h (fun hab t => fails_of_passes (hab t))

theorem exclusive_append {front back : List Test} : Exclusive (front ++ back) ↔
    Exclusive front ∧ Exclusive back ∧
      ∀ a ∈ front, ∀ b ∈ back, ∀ t, a.passes t = true → b.passes t = false :=
  List.pairwise_append

/-- At most one of the tests that exclude one another is passed. -/
theorem Exclusive.countP_le_one {tests : List Test} (h : Exclusive tests) (t : Text) :
    tests.countP (fun test => test.passes t) ≤ 1 := by
  induction tests with
  | nil => simp
  | cons first rest ih =>
    obtain ⟨hfirst, hrest⟩ := List.pairwise_cons.1 h
    by_cases hpasses : first.passes t = true
    · have hnone : rest.countP (fun test => test.passes t) = 0 := by
        rw [List.countP_eq_zero]
        intro test hmem
        simp [hfirst test hmem t hpasses]
      rw [List.countP_cons, if_pos hpasses, hnone]
    · rw [List.countP_cons, if_neg hpasses]
      exact ih hrest

theorem firstPassed_of_none {tests : List Test} {t : Text}
    (h : ∀ test ∈ tests, test.passes t = false) (default : Category) :
    firstPassed default tests t = default := by
  have hfind : tests.find? (fun test => test.passes t) = none := by
    rw [List.find?_eq_none]
    intro test hmem
    simp [h test hmem]
  rw [firstPassed, hfind]

/-- Tests that exclude one another give one category in any order. -/
theorem firstPassed_perm {tests other : List Test} (h : Exclusive tests) (hperm : other.Perm tests)
    (default : Category) (t : Text) : firstPassed default other t = firstPassed default tests t := by
  by_cases hsome : ∃ test ∈ tests, test.passes t = true
  · obtain ⟨test, hmem, hpasses⟩ := hsome
    rw [firstPassed_of_passes h hmem hpasses,
      firstPassed_of_passes (h.perm hperm) (hperm.mem_iff.2 hmem) hpasses]
  · have hnone : ∀ test ∈ tests, test.passes t = false := by
      intro test hmem
      simpa using fun hpasses => hsome ⟨test, hmem, hpasses⟩
    rw [firstPassed_of_none hnone,
      firstPassed_of_none (fun test hmem => hnone test (hperm.mem_iff.1 hmem))]

theorem firstPassed_append (front back : List Test) (default : Category) (t : Text) :
    firstPassed default (front ++ back) t = firstPassed (firstPassed default back t) front t := by
  rw [firstPassed, firstPassed, List.find?_append]
  cases front.find? (fun test => test.passes t) with
  | none => rfl
  | some test => rfl

namespace Test

/-! ## Values in brackets -/

/-- What opens with a letter is no length. -/
theorem isLength_of_starts {start : String} {c : CodePoint} (hhead : (Text.of start).head? = some c)
    (hletter : c ≠ .char '-' ∧ Text.isDigit c = false ∧ c ≠ .char '.') {t : Text}
    (h : starts start t = true) : Text.isLength t = false := by
  by_contra hne
  obtain ⟨d, hd, hnumber⟩ := Text.head?_of_isLength (by simpa using hne)
  obtain ⟨tail, rfl⟩ := starts_iff.1 h
  rw [List.head?_append, hhead, Option.some_or] at hd
  obtain rfl := Option.some.inj hd
  simp [hletter] at hnumber

theorem exclusive_ofBracketedText : Exclusive ofBracketedText := by
  unfold ofBracketedText
  rw [Exclusive, List.pairwise_cons, List.pairwise_cons, List.forall_mem_cons,
    List.forall_mem_singleton, List.forall_mem_singleton]
  refine ⟨⟨?_, ?_⟩, ?_, List.pairwise_singleton _ _⟩
  · intro t ht
    obtain ⟨tail, rfl⟩ := starts_iff.1 ht
    rfl
  -- Both names open with a letter, as no length does, and neither opens like a function.
  all_goals
    intro t ht
    have hlength : Text.isLength t = false := isLength_of_starts rfl (by decide) ht
    obtain ⟨tail, rfl⟩ := starts_iff.1 ht
    simp only [hlength]
    rfl

theorem exclusive_ofBracketedFont : Exclusive ofBracketedFont := by
  unfold ofBracketedFont
  rw [Exclusive, List.pairwise_cons]
  refine ⟨?_, List.pairwise_singleton _ _⟩
  rw [List.forall_mem_singleton]
  intro t ht
  obtain ⟨c, hhead, hc⟩ := Text.head?_of_isWhole ht
  show (t == "italic" || starts "oblique" t) = false
  rw [Bool.or_eq_false_iff, beq_eq_false_iff_ne]
  constructor
  · rintro rfl
    obtain rfl := Option.some.inj hhead
    exact absurd hc (by decide)
  · by_contra hne
    obtain ⟨tail, rfl⟩ := starts_iff.1 (by simpa using hne)
    obtain rfl := Option.some.inj hhead
    exact absurd hc (by decide)

/-- A test on what stands in the brackets of a text that is bracketed as a whole. -/
def inBrackets (test : Test) : Test where
  passes t := (bracketedInner? t).any test.passes
  category t := test.category ((bracketedInner? t).getD [])

/-- The test for brackets that looks on among tests of its own. -/
def onBrackets (default : Category) (inner : List Test) : Test where
  passes t := (bracketedInner? t).isSome
  category t := firstPassed default inner ((bracketedInner? t).getD [])

theorem passes_inBrackets {test : Test} {t : Text} : (inBrackets test).passes t = true ↔
    ∃ value, bracketedInner? t = some value ∧ test.passes value = true := by
  simp [inBrackets, Option.any_eq_true]

theorem exclusive_inBrackets {tests : List Test} (h : Exclusive tests) :
    Exclusive (tests.map inBrackets) := by
  rw [Exclusive, List.pairwise_map]
  refine h.imp ?_
  intro a b hab t ha
  obtain ⟨value, hvalue, hpasses⟩ := passes_inBrackets.1 ha
  simp [Test.inBrackets, hvalue, hab value hpasses]

/-- Where a test for brackets stands in one row with words, so may tests on the value in them. -/
theorem exclusive_spread {words inner other : List Test} {default : Category}
    (h : Exclusive (words ++ [onBrackets default other])) (hinner : Exclusive inner) :
    Exclusive (words ++ inner.map inBrackets) := by
  obtain ⟨hwords, -, hacross⟩ := exclusive_append.1 h
  refine exclusive_append.2 ⟨hwords, exclusive_inBrackets hinner, ?_⟩
  intro word hword test htest t hpasses
  obtain ⟨test, -, rfl⟩ := List.mem_map.1 htest
  have hplain : (bracketedInner? t).isSome = false :=
    hacross word hword (onBrackets default other) (by simp) t hpasses
  rw [Option.isSome_eq_false_iff, Option.isNone_iff_eq_none] at hplain
  simp [inBrackets, hplain]

/-- Tests that are given the value in brackets one by one judge like the one that looks on. -/
theorem firstPassed_inBrackets (default : Category) (inner : List Test) (t : Text) :
    firstPassed default (inner.map inBrackets) t = firstPassed default [onBrackets default inner] t := by
  cases hvalue : bracketedInner? t with
  | none =>
    rw [firstPassed_of_none, firstPassed_of_none]
    · simp [onBrackets, hvalue]
    · simp [inBrackets, hvalue]
  | some value =>
    have hpasses : (fun test => test.passes t) ∘ inBrackets = fun test : Test => test.passes value := by
      funext test
      simp [inBrackets, hvalue]
    have hlooks : firstPassed default [onBrackets default inner] t = firstPassed default inner value := by
      simp [firstPassed, onBrackets, hvalue]
    rw [hlooks, firstPassed, firstPassed, List.find?_map, hpasses]
    cases inner.find? (fun test => test.passes value) with
    | none => rfl
    | some test => simp [inBrackets, hvalue]

theorem firstPassed_spread (default : Category) (words inner : List Test) (t : Text) :
    firstPassed default (words ++ inner.map inBrackets) t =
      firstPassed default (words ++ [onBrackets default inner]) t := by
  rw [firstPassed_append, firstPassed_append, firstPassed_inBrackets]

/-! ## What passes no test of a row -/

/-- The test for what passes no test of a row, which gives the default of the row. -/
def unpassed (default : Category) (tests : List Test) : Test where
  passes t := tests.all (fun test => !test.passes t)
  category _ := default

theorem passes_unpassed {default : Category} {tests : List Test} {t : Text} :
    (unpassed default tests).passes t = true ↔ ∀ test ∈ tests, test.passes t = false := by
  simp [unpassed]

theorem exclusive_append_unpassed {tests : List Test} (h : Exclusive tests) (default : Category) :
    Exclusive (tests ++ [unpassed default tests]) := by
  refine exclusive_append.2 ⟨h, List.pairwise_singleton _ _, ?_⟩
  intro test hmem other hother t hpasses
  rw [List.mem_singleton.1 hother]
  exact fails_of_passes (fun hnone => passes_unpassed.1 hnone test hmem) hpasses

theorem firstPassed_append_unpassed (default : Category) (tests : List Test) (t : Text) :
    firstPassed default (tests ++ [unpassed default tests]) t = firstPassed default tests t := by
  have hlast : firstPassed default [unpassed default tests] t = default := by
    cases hpasses : (unpassed default tests).passes t with
    | true =>
      simp only [firstPassed, List.find?, hpasses]
      rfl
    | false => simp only [firstPassed, List.find?, hpasses]
  rw [firstPassed_append, hlast]

/-- With the test for what passes none of them, exactly one test of a row is passed. -/
theorem countP_append_unpassed {tests : List Test} (h : Exclusive tests)
    (default : Category) (t : Text) :
    (tests ++ [unpassed default tests]).countP (fun test => test.passes t) = 1 := by
  have hsome : 0 < (tests ++ [unpassed default tests]).countP (fun test => test.passes t) := by
    rw [List.countP_pos_iff]
    by_cases hpassed : ∃ test ∈ tests, test.passes t = true
    · obtain ⟨test, hmem, hpasses⟩ := hpassed
      exact ⟨test, List.mem_append_left _ hmem, hpasses⟩
    · refine ⟨unpassed default tests, by simp, passes_unpassed.2 ?_⟩
      intro test hmem
      simpa using fun hpasses => hpassed ⟨test, hmem, hpasses⟩
  have hone := (exclusive_append_unpassed h default).countP_le_one t
  omega

/-! ## The rows of a utility -/

/-- The tests on a value in brackets behind `text-`, one of which every value passes. -/
def bracketedTextTests : List Test := ofBracketedText ++ [unpassed .color ofBracketedText]

/-- The tests behind `text-`: on words, and on a value in brackets. -/
def textTests : List Test := ofText.dropLast ++ bracketedTextTests.map inBrackets

/-- The tests behind `font-`: on words, and on a value in brackets. -/
def fontTests : List Test := ofFont.dropLast ++ ofBracketedFont.map inBrackets

theorem exclusive_textTests : Exclusive textTests := by
  have hown : Exclusive (ofText.dropLast ++ [onBrackets .color ofBracketedText]) := exclusive_ofText
  exact exclusive_spread hown (exclusive_append_unpassed exclusive_ofBracketedText .color)

theorem exclusive_fontTests : Exclusive fontTests := by
  have hown : Exclusive (ofFont.dropLast ++ [onBrackets .none ofBracketedFont]) := exclusive_ofFont
  exact exclusive_spread hown exclusive_ofBracketedFont

theorem firstPassed_textTests (t : Text) :
    firstPassed .color textTests t = firstPassed .color ofText t := by
  have hlooks : onBrackets .color bracketedTextTests = onBrackets .color ofBracketedText := by
    simp only [onBrackets, bracketedTextTests, firstPassed_append_unpassed]
  rw [textTests, firstPassed_spread, hlooks]
  rfl

theorem firstPassed_fontTests (t : Text) :
    firstPassed .none fontTests t = firstPassed .none ofFont t :=
  firstPassed_spread .none ofFont.dropLast ofBracketedFont t

/-- The rows of tests, each in an order of its own. -/
structure Arrangement where
  text : List Test
  font : List Test
  utility : List Test
  text_perm : text.Perm textTests
  font_perm : font.Perm fontTests
  utility_perm : utility.Perm (utilityTests text font)

namespace Arrangement

/-- The order in which the rows are written. -/
instance : Inhabited Arrangement :=
  ⟨⟨textTests, fontTests, utilityTests textTests fontTests, .refl _, .refl _, .refl _⟩⟩

/-- In any order of their own, the rows behind `text-` and `font-` judge as they do in theirs. -/
theorem utilityTests_eq (order : Arrangement) : utilityTests order.text order.font = ofUtility := by
  have htext : firstPassed .color order.text = firstPassed .color ofText := by
    funext t
    rw [firstPassed_perm exclusive_textTests order.text_perm, firstPassed_textTests]
  have hfont : firstPassed .none order.font = firstPassed .none ofFont := by
    funext t
    rw [firstPassed_perm exclusive_fontTests order.font_perm, firstPassed_fontTests]
  simp only [ofUtility, utilityTests, behind, htext, hfont]

end Arrangement

end Test

open Test

/-- No text passes two of the tests on a utility, or two of those behind `text-` or `font-`; a value
in brackets behind `text-` passes exactly one. So the category of a class is the same whatever the
order in which the tests of each row are made. -/
theorem tests_in_any_order :
    (∀ utility : Text, ofUtility.countP (fun test => test.passes utility) ≤ 1) ∧
      (∀ rest : Text, textTests.countP (fun test => test.passes rest) ≤ 1) ∧
      (∀ value : Text, bracketedTextTests.countP (fun test => test.passes value) = 1) ∧
      (∀ rest : Text, fontTests.countP (fun test => test.passes rest) ≤ 1) ∧
      ∀ (order : Arrangement) (cls : Text),
        firstPassed .none order.utility (bareUtility (utilityOf cls)) = categoryOf cls := by
  refine ⟨exclusive_ofUtility.countP_le_one, exclusive_textTests.countP_le_one,
    countP_append_unpassed exclusive_ofBracketedText .color,
    exclusive_fontTests.countP_le_one, ?_⟩
  intro order cls
  have hperm : order.utility.Perm ofUtility := order.utilityTests_eq ▸ order.utility_perm
  rw [categoryOf, firstPassed_perm exclusive_ofUtility hperm]

end UtilityCss
