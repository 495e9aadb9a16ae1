import Mathlib.Data.List.Forall2
import UtilityCss.Classification
/-
  The tests on a utility exclude one another.

  What passes a test opens with one of a few texts: a start is its own
  opening, and the opening of a word is the word with a mark behind it, which
  stands for the end of the text. No opening of one test is the start of an
  opening of another, and of two openings of one text the shorter starts the
  longer. So no utility passes two tests, and the category of a utility is
  that of any test it passes.

  What is proved:
    1. `firstPassed_of_passes` : among tests that exclude one another, the
       one passed gives the category.
    2. `exclusive_ofUtility`, `exclusive_ofText`, `exclusive_ofFont` : the
       tests on a utility exclude one another, and so do those on what stands
       behind `text-` and `font-`.
-/

namespace UtilityCss

/-! ## Tests that exclude one another -/

/-- No text passes two tests of the row. -/
def Exclusive (tests : List Test) : Prop :=
  tests.Pairwise (fun a b => ∀ t, a.passes t = true → b.passes t = false)

theorem firstPassed_of_passes {tests : List Test} (h : Exclusive tests) {test : Test}
    (hmem : test ∈ tests) {t : Text} (hpasses : test.passes t = true) (default : Category) :
    firstPassed default tests t = test.category t := by
  induction tests with
  | nil => cases hmem
  | cons first rest ih =>
    obtain ⟨hfirst, hrest⟩ := List.pairwise_cons.1 h
    rcases List.mem_cons.1 hmem with rfl | hmem
    · simp [firstPassed, List.find?, hpasses]
    · have hfails : first.passes t = false := by
        by_contra hne
        have hnot : test.passes t = false := hfirst test hmem t (by simpa using hne)
        rw [hpasses] at hnot
        cases hnot
      have hskip : firstPassed default (first :: rest) t = firstPassed default rest t := by
        simp [firstPassed, List.find?, hfails]
      rw [hskip]
      exact ih hrest hmem

/-! ## Openings -/

/-- The mark that stands for the end of a text. -/
def endMark : Text := [.char '.']

/-- Every text that passes opens with one of the given texts. -/
def Opens (openings : List Text) (passes : Text → Bool) : Prop :=
  ∀ t, passes t = true → ∃ s ∈ openings, s <+: t ++ endMark

/-- No text of one row starts a text of the other. -/
def Apart (a b : List Text) : Prop := ∀ s ∈ a, ∀ r ∈ b, ¬ s <+: r ∧ ¬ r <+: s

instance (a b : List Text) : Decidable (Apart a b) :=
  inferInstanceAs (Decidable (∀ s ∈ a, ∀ r ∈ b, ¬ s <+: r ∧ ¬ r <+: s))

theorem Apart.not_both {a b : List Text} (h : Apart a b) {f g : Text → Bool} (hf : Opens a f)
    (hg : Opens b g) {t : Text} (ht : f t = true) : g t = false := by
  by_contra hne
  obtain ⟨s, hs, hst⟩ := hf t ht
  obtain ⟨r, hr, hrt⟩ := hg t (by simpa using hne)
  rcases List.prefix_or_prefix_of_prefix hst hrt with hsr | hrs
  · exact (h s hs r hr).1 hsr
  · exact (h s hs r hr).2 hrs

theorem exclusive_of_opens {rows : List (List Text)} {tests : List Test}
    (hopens : List.Forall₂ (fun row test => Opens row test.passes) rows tests)
    (hapart : rows.Pairwise Apart) : Exclusive tests := by
  induction hopens with
  | nil => exact List.Pairwise.nil
  | @cons row test rows tests hrow hrows ih =>
    obtain ⟨hfirst, hrest⟩ := List.pairwise_cons.1 hapart
    refine List.pairwise_cons.2 ⟨?_, ih hrest⟩
    intro other hother t ht
    -- The row of openings that belongs to the other test.
    obtain ⟨i, hi, rfl⟩ := List.getElem_of_mem hother
    have hi' : i < rows.length := hrows.length_eq ▸ hi
    have hopen : Opens rows[i] tests[i].passes := hrows.get hi' hi
    exact (hfirst rows[i] (List.getElem_mem hi')).not_both hrow hopen ht

theorem Opens.or {a b : List Text} {f g : Text → Bool} (hf : Opens a f) (hg : Opens b g) :
    Opens (a ++ b) (fun t => f t || g t) := by
  intro t ht
  rcases Bool.or_eq_true_iff.1 ht with h | h
  · obtain ⟨s, hs, hst⟩ := hf t h
    exact ⟨s, List.mem_append_left b hs, hst⟩
  · obtain ⟨s, hs, hst⟩ := hg t h
    exact ⟨s, List.mem_append_right a hs, hst⟩

/-! ## The openings of the tests on a utility -/

namespace Test

/-- Words with the mark behind them. -/
def closed (words : List String) : List Text := words.map (fun w => Text.of w ++ endMark)

theorem opens_isWord (words : List String) : Opens (closed words) (isWord words) := by
  intro t ht
  obtain ⟨w, hw, hwt⟩ := List.mem_map.1 (List.contains_iff_mem.1 ht)
  exact ⟨Text.of w ++ endMark, List.mem_map.2 ⟨w, hw, rfl⟩, hwt ▸ List.prefix_refl _⟩

theorem starts_iff {start : String} {t : Text} : starts start t = true ↔ Text.of start <+: t :=
  List.isPrefixOf_iff_prefix

theorem opens_starts (start : String) : Opens [Text.of start] (starts start) := by
  intro t ht
  exact ⟨Text.of start, by simp, (starts_iff.1 ht).trans (List.prefix_append t endMark)⟩

theorem opens_bracketed : Opens [Text.of "["] (fun t => (bracketedInner? t).isSome) := by
  intro t ht
  refine ⟨Text.of "[", by simp, ?_⟩
  have hhead : t.head? = some (.char '[') := by
    by_contra hne
    simp [bracketedInner?, hne] at ht
  obtain ⟨rest, rfl⟩ := List.head?_eq_some_iff.1 hhead
  exact ⟨rest ++ endMark, rfl⟩

/-- The openings of margins and paddings: the letter, a letter for a side that may be missing, and
the hyphen. -/
def spacingOpenings : List Text :=
  [.char 'm', .char 'p'].flatMap (fun letter =>
    [letter, .char '-'] :: (Text.of "trblxyse").map (fun side => [letter, side, .char '-']))

theorem opens_isSpacing : Opens spacingOpenings isSpacing := by
  intro t ht
  match t, ht with
  | letter :: rest, ht =>
    unfold isSpacing at ht
    obtain ⟨hletter, hrest⟩ := (Bool.and_eq_true_iff).1 ht
    have hmem : letter ∈ [CodePoint.char 'm', .char 'p'] := by simpa using hletter
    have hopen : ∀ s ∈ [letter, .char '-'] ::
        (Text.of "trblxyse").map (fun side => [letter, side, .char '-']), s ∈ spacingOpenings :=
      fun s hs => List.mem_flatMap.2 ⟨letter, hmem, hs⟩
    split at hrest
    · next tail => exact ⟨[letter, .char '-'], hopen _ (by simp), tail ++ endMark, rfl⟩
    · next side tail _ =>
      have hside : side ∈ Text.of "trblxyse" := List.contains_iff_mem.1 hrest
      refine ⟨[letter, side, .char '-'], hopen _ ?_, tail ++ endMark, rfl⟩
      exact List.mem_cons_of_mem _ (List.mem_map.2 ⟨side, hside, rfl⟩)
    · cases hrest

/-- The openings of each test on a utility. -/
def utilityOpenings : List (List Text) :=
  [[Text.of "["],
    closed ["italic", "not-italic"],
    closed ["underline", "overline", "line-through", "no-underline"],
    closed ["rounded"] ++ [Text.of "rounded-"],
    closed ["border"],
    [Text.of "border-"],
    closed ["shadow"] ++ [Text.of "shadow-"],
    [Text.of "decoration-"] ++ [Text.of "underline-offset-"],
    [Text.of "text-"],
    [Text.of "font-"],
    [Text.of "leading-"],
    [Text.of "tracking-"],
    [Text.of "bg-"],
    [Text.of "opacity-"],
    [Text.of "w-"],
    [Text.of "h-"],
    spacingOpenings]

theorem opens_ofUtility :
    List.Forall₂ (fun row test => Opens row test.passes) utilityOpenings ofUtility := by
  unfold utilityOpenings ofUtility utilityTests
  exact .cons opens_bracketed <|
    .cons (opens_isWord _) <|
    .cons (opens_isWord _) <|
    .cons ((opens_isWord _).or (opens_starts _)) <|
    .cons (opens_isWord _) <|
    .cons (opens_starts _) <|
    .cons ((opens_isWord _).or (opens_starts _)) <|
    .cons ((opens_starts _).or (opens_starts _)) <|
    .cons (opens_starts _) <|
    .cons (opens_starts _) <|
    .cons (opens_starts _) <|
    .cons (opens_starts _) <|
    .cons (opens_starts _) <|
    .cons (opens_starts _) <|
    .cons (opens_starts _) <|
    .cons (opens_starts _) <|
    .cons opens_isSpacing .nil

theorem apart_utilityOpenings : utilityOpenings.Pairwise Apart := by
  decide

/-- No utility passes two of the tests. -/
theorem exclusive_ofUtility : Exclusive ofUtility :=
  exclusive_of_opens opens_ofUtility apart_utilityOpenings

/-! Behind `text-` and `font-` stand words or a value in brackets. -/

theorem exclusive_ofText : Exclusive ofText :=
  exclusive_of_opens (.cons (opens_isWord _) <| .cons (opens_isWord _) <| .cons opens_bracketed .nil)
    (by decide)

theorem exclusive_ofFont : Exclusive ofFont :=
  exclusive_of_opens (.cons (opens_isWord _) <| .cons opens_bracketed .nil) (by decide)

end Test

/-- A class that is its own utility, without variants and without marks, has the category of any
test that it passes. -/
theorem categoryOf_of_passes {cls : Text} (hbare : bareUtility (utilityOf cls) = cls) {test : Test}
    (hmem : test ∈ Test.ofUtility) (hpasses : test.passes cls = true) :
    categoryOf cls = test.category cls := by
  rw [categoryOf, hbare]
  exact firstPassed_of_passes Test.exclusive_ofUtility hmem hpasses .none

end UtilityCss
