import Mathlib.Data.List.Chain
import UtilityCss.Conversion
import UtilityCss.Proofs.Merging.Repetition
import UtilityCss.Proofs.Text.Words
/-
  Conversions that go on from the outputs of others.

  An output is read as its words, and these need not be the classes that were
  written: a class that holds blanks comes back in several words. What was
  there before is made of words, though, and is written first; so the words of
  an output begin with those of the existing text, and along a chain of
  conversions they are only ever added to. Where the classes themselves are
  words, an output is read as the very classes written, and converting onto it
  once more finds them all there.

  What is proved:
    1. `words_output` : the words of an output are those of its classes.
    2. `existing_prefix_output`, `outputs_accumulate` : what was there stays in
       front, in one conversion and along a chain of them.
    3. `ofText_render` : words that are written as classes are read back.
    4. `output_onto_itself` : a conversion onto its own output.
-/

namespace UtilityCss

namespace ClassList

theorem words_render (classes : List Text) :
    Text.words (render classes) = classes.flatMap Text.words :=
  Text.words_joinWith (by decide) classes

theorem ofText_render {classes : List Text} (h : ∀ cls ∈ classes, cls.IsWord) :
    ofText (render classes) = classes := by
  rw [ofText, words_render, Text.flatMap_words h]

/-- Merging a list into itself changes nothing. -/
theorem merge_self (classes : List Text) : merge classes classes = classes :=
  merge_eq_self_iff.2 (fun _ hcls => Or.inl hcls)

end ClassList

namespace Conversion

theorem words_output (lookup : Lookup) (c : Conversion) :
    Text.words (c.output lookup) = (c.merged lookup).flatMap Text.words :=
  ClassList.words_render (c.merged lookup)

/-! ## What was there before -/

/-- The classes that are there come first among the merged ones, whether there are any or not. -/
theorem existingClasses_prefix_merged (lookup : Lookup) (c : Conversion) :
    c.existingClasses <+: c.merged lookup := by
  unfold merged
  split
  · next hnil =>
    rw [hnil]
    exact List.nil_prefix
  · obtain ⟨added, -, hmerge⟩ := ClassList.merge_eq_append c.existingClasses (c.varied lookup)
    rw [hmerge]
    exact List.prefix_append _ _

/-- The words of the existing text are the first words of the output. -/
theorem existing_prefix_output (lookup : Lookup) (c : Conversion) :
    Text.words c.existing <+: Text.words (c.output lookup) := by
  obtain ⟨added, hmerged⟩ := existingClasses_prefix_merged lookup c
  -- What is read off a text is made of words, so reading it a second time changes nothing.
  have hwords : c.existingClasses.flatMap Text.words = Text.words c.existing :=
    Text.flatMap_words (fun _ hcls => Text.isWord_of_mem_words hcls)
  rw [words_output, ← hmerged, List.flatMap_append, hwords]
  exact List.prefix_append _ _

theorem length_chain (existing : Text) (steps : List (Lookup × Text × Text)) :
    (chain existing steps).length = steps.length := by
  induction steps generalizing existing with
  | nil => rfl
  | cons step rest ih =>
    obtain ⟨lookup, style, variants⟩ := step
    rw [chain, List.length_cons, List.length_cons, ih]

/-- Every output of a chain begins with the words of the text that its conversion merges into. -/
theorem isChain_chain (existing : Text) (steps : List (Lookup × Text × Text)) :
    (existing :: chain existing steps).IsChain
      (fun earlier later => Text.words earlier <+: Text.words later) := by
  induction steps generalizing existing with
  | nil => exact .singleton existing
  | cons step rest ih =>
    obtain ⟨lookup, style, variants⟩ := step
    exact .cons_cons (existing_prefix_output lookup ⟨style, variants, existing⟩) (ih _)

/-- In a conversion the words of the existing text are the first words of the output. Along a chain
of conversions, each of which goes on from the output of the one before, every output begins with
the words of the text that the chain started from and of every earlier output. -/
theorem outputs_accumulate :
    (∀ (lookup : Lookup) (c : Conversion), Text.words c.existing <+: Text.words (c.output lookup)) ∧
    ∀ (existing : Text) (steps : List (Lookup × Text × Text)),
      (chain existing steps).length = steps.length ∧
      (existing :: chain existing steps).Pairwise
        (fun earlier later => Text.words earlier <+: Text.words later) := by
  refine ⟨existing_prefix_output, ?_⟩
  intro existing steps
  refine ⟨length_chain existing steps, ?_⟩
  have htrans : IsTrans Text (fun earlier later => Text.words earlier <+: Text.words later) :=
    ⟨fun _ _ _ hab hbc => hab.trans hbc⟩
  exact (isChain_chain existing steps).pairwise

/-! ## Conversions onto their own output -/

/-- If the classes of a conversion are words, its output is read as the classes merged, with their
repetitions, and the same conversion onto that output gives it again. -/
theorem output_onto_itself (lookup : Lookup) (style variants : Text)
    (h : ∀ cls ∈ varied lookup ⟨style, variants, []⟩, cls.IsWord) :
    let first : Conversion := ⟨style, variants, []⟩
    ClassList.ofText (first.output lookup) = first.merged lookup ∧
      output lookup ⟨style, variants, first.output lookup⟩ = first.output lookup := by
  intro first
  have hmerged : first.merged lookup = first.varied lookup := merged_of_no_existing lookup rfl
  have hread : ClassList.ofText (first.output lookup) = first.merged lookup := by
    rw [output, hmerged]
    exact ClassList.ofText_render h
  refine ⟨hread, ?_⟩
  -- The second run merges the classes into themselves, or there are none and it does not merge.
  have hagain : merged lookup ⟨style, variants, first.output lookup⟩ = first.merged lookup := by
    show (if ClassList.ofText (first.output lookup) = [] then first.varied lookup
      else ClassList.merge (ClassList.ofText (first.output lookup)) (first.varied lookup)) = _
    rw [hread, hmerged]
    split
    · rfl
    · exact ClassList.merge_self (first.varied lookup)
  rw [output, hagain, output]

/-- A class that the dictionary gives for two properties stays twice, under each variant. -/
theorem repeated_classes_stay :
    let lookup : Lookup := fun _ => some "flex"
    let style : Text := "width: var(--A, 0);\nheight: var(--B, 0);\nopacity: 1;"
    let first : Conversion := ⟨style, "lg hover:", []⟩
    (∀ cls ∈ first.varied lookup, cls.IsWord) ∧
      first.output lookup = "lg:flex hover:flex lg:flex hover:flex lg:opacity-[1] hover:opacity-[1]" ∧
      output lookup ⟨style, "lg hover:", first.output lookup⟩ = first.output lookup := by
  intro lookup style first
  have hwords : ∀ cls ∈ first.varied lookup, cls.IsWord := by decide +kernel
  exact ⟨hwords, by decide +kernel, (output_onto_itself lookup style "lg hover:" hwords).2⟩

end Conversion

end UtilityCss
