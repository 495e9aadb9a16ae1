import UtilityCss.Conversion
import UtilityCss.Proofs.Merging.Repetition
/-
  Merging where no class can be dropped.

  A new class is dropped for the last class of its category, and only if both
  have a variant or neither has. So nothing can drop a class without a variant
  but that class itself, and nothing at all a class whose category does not
  count: no category, or one that was not there before. Where all new classes
  are of these kinds, in any mixture, the index of last classes has no say. A
  merge is then the ordered union: what is there, and behind it each other
  class where it comes first.

  What is proved:
    1. `mem_of_clashes` : a class that nothing opposes clashes with itself
       alone.
    2. `additions_of_unopposed` : what a merge in progress still appends of
       such classes.
    3. `merge_union` : the same of whole lists, of conversions, and of a merge
       into no classes.
    4. `present_class_passed_over` : the classes that are there have to be taken
       out first. A class of no category can be in both lists without a
       category in common, and comes once then.
-/

namespace UtilityCss.ClassList

/-- No class of a list opposes a new one: it has no variant, or no category, or one that no class
of the list has. -/
def Unopposed (existing : List Text) (cls : Text) : Prop :=
  hasVariant cls = false ∨ categoryOf cls = .none ∨
    ∀ c ∈ existing, categoryOf c ≠ categoryOf cls

instance (existing : List Text) (cls : Text) : Decidable (Unopposed existing cls) :=
  inferInstanceAs (Decidable (_ ∨ _ ∨ _))

/-! ## Merges in progress -/

/-- What an unopposed class is to a merge in progress: it has no variant, or its category does not
count. -/
def Unindexed (latest : Latest) (cls : Text) : Prop :=
  hasVariant cls = false ∨ latest.get? (categoryOf cls) = none

theorem Unopposed.unindexed {existing : List Text} {cls : Text} (h : Unopposed existing cls) :
    Unindexed (Latest.ofList existing) cls := by
  refine h.imp_right (fun hcategory => ?_)
  rw [get?_ofList]
  split
  · rfl
  · next hk =>
    have hnone : within (categoryOf cls) existing = [] := by
      apply List.filter_eq_nil_iff.2
      intro c hc
      simpa using hcategory.resolve_left hk c hc
    rw [hnone]
    rfl

/-- A category that does not count does not come to count when a class is placed. -/
theorem Unindexed.place {latest : Latest} {cls : Text} (h : Unindexed latest cls) (c : Text) :
    Unindexed (latest.place c) cls := by
  refine h.imp_right (fun hnone => ?_)
  rw [get?_place, hnone]
  split <;> rfl

theorem mem_of_clashes {there : List Text} {latest : Latest} {cls : Text}
    (hvalid : Valid there latest) (h : Unindexed latest cls) (hclash : clashes latest cls = true) :
    cls ∈ there := by
  rcases h with hfree | hnone
  · obtain ⟨-, placed, hmem, hdup⟩ := hvalid.of_clashes hclash
    exact eq_of_duplicates hdup hfree ▸ hmem
  · simp [clashes, hnone] at hclash

/-- Of unopposed classes a merge in progress appends those that are not there, each where it comes
first. -/
theorem additions_of_unopposed (new : List Text) {there : List Text} {latest : Latest}
    (hvalid : Valid there latest) (h : ∀ cls ∈ new, Unindexed latest cls) :
    additions there latest new = (new.filter (· ∉ there)).eraseDups := by
  induction new generalizing there latest with
  | nil => rfl
  | cons cls rest ih =>
    rw [List.forall_mem_cons] at h
    obtain ⟨hcls, hrest⟩ := h
    rw [additions_cons]
    by_cases hmem : cls ∈ there
    · rw [if_pos (Or.inl hmem), List.filter_cons_of_neg (by simpa using hmem)]
      exact ih hvalid hrest
    · have hpass : ¬ (cls ∈ there ∨ clashes latest cls = true) :=
        fun h => h.elim hmem (fun hclash => hmem (mem_of_clashes hvalid hcls hclash))
      -- What is appended here is there for the rest, which is what erasing its repetitions says.
      have hfilter : (rest.filter (· ∉ there)).filter (fun c => !c == cls) =
          rest.filter (· ∉ cls :: there) := by
        rw [List.filter_filter]
        apply List.filter_congr
        intro c _
        rw [Bool.eq_iff_iff]
        simp
      rw [if_neg hpass, List.filter_cons_of_pos (by simpa using hmem), List.eraseDups_cons, hfilter,
        ih (hvalid.place cls) (fun c hc => (hrest c hc).place cls)]

/-! ## Whole merges -/

theorem merge_of_unopposed {existing new : List Text} (h : ∀ cls ∈ new, Unopposed existing cls) :
    merge existing new = existing ++ (new.filter (· ∉ existing)).eraseDups := by
  rw [merge_eq, additions_of_unopposed new (valid_ofList existing) (fun cls hc => (h cls hc).unindexed)]

/-- Merging classes that nothing opposes gives the classes that are there and, behind them, the new
ones that are not, each where it comes first. So does a conversion whose classes share no category
with those that are there; if it shares no class with them either, all its classes come, each once.
Merged into no classes, the new ones lose their repetitions and nothing else. -/
theorem merge_union (existing new : List Text) (lookup : Lookup) (c : Conversion) :
    ((∀ cls ∈ new, Unopposed existing cls) →
      merge existing new = existing ++ (new.filter (· ∉ existing)).eraseDups) ∧
    (Text.allBlank c.existing = false →
      (∀ cls ∈ c.varied lookup, ∀ e ∈ c.existingClasses,
        categoryOf e = categoryOf cls → categoryOf cls = .none) →
      c.merged lookup = c.existingClasses ++
          ((c.varied lookup).filter (· ∉ c.existingClasses)).eraseDups ∧
        ((∀ cls ∈ c.varied lookup, cls ∉ c.existingClasses) →
          c.merged lookup = c.existingClasses ++ (c.varied lookup).eraseDups)) ∧
    merge [] new = new.eraseDups := by
  refine ⟨merge_of_unopposed, ?_, ?_⟩
  · intro hblank hshared
    have hne : c.existingClasses ≠ [] := by
      intro hnil
      rw [(Text.words_nil_iff c.existing).1 hnil] at hblank
      cases hblank
    have hunopposed : ∀ cls ∈ c.varied lookup, Unopposed c.existingClasses cls := by
      intro cls hcls
      by_cases hnone : categoryOf cls = .none
      · exact Or.inr (Or.inl hnone)
      · exact Or.inr (Or.inr (fun e he hcategory => hnone (hshared cls hcls e he hcategory)))
    have hmerged : c.merged lookup = c.existingClasses ++
        ((c.varied lookup).filter (· ∉ c.existingClasses)).eraseDups := by
      rw [Conversion.merged, if_neg hne, merge_of_unopposed hunopposed]
    refine ⟨hmerged, fun hnew => ?_⟩
    rw [hmerged, List.filter_eq_self.2 (fun cls hcls => by simpa using hnew cls hcls)]
  · have hunopposed : ∀ cls ∈ new, Unopposed [] cls := fun cls _ => Or.inr (Or.inr (by simp))
    rw [merge_of_unopposed hunopposed, List.nil_append, List.filter_eq_self.2 (by simp)]

/-- Each of the three kinds, with repetitions, beside classes of a category that counts; and a
conversion to a class of no category that is there already. -/
theorem plain_classes_united :
    let existing : List Text := ["md:text-sm", "flex", "p-4"]
    let new : List Text := ["text-lg", "lg:flex", "hover:w-2", "text-lg", "p-4", "lg:w-2", "hover:w-2"]
    let lookup : Lookup := fun _ => none
    let c : Conversion := ⟨"text-align: center;\nmargin: 4px;", "", " text-center flex "⟩
    (∀ cls ∈ new, Unopposed existing cls) ∧
      merge existing new =
        existing ++ [Text.of "text-lg", Text.of "lg:flex", Text.of "hover:w-2", Text.of "lg:w-2"] ∧
    Text.allBlank c.existing = false ∧
      (∀ cls ∈ c.varied lookup, ∀ e ∈ c.existingClasses,
        categoryOf e = categoryOf cls → categoryOf cls = .none) ∧
      c.merged lookup = [Text.of "text-center", Text.of "flex", Text.of "m-[4px]"] := by
  intro existing new lookup c
  have hnew : ∀ cls ∈ new, Unopposed existing cls := by decide +kernel
  have hblank : Text.allBlank c.existing = false := by decide
  have hshared : ∀ cls ∈ c.varied lookup, ∀ e ∈ c.existingClasses,
      categoryOf e = categoryOf cls → categoryOf cls = .none := by decide +kernel
  obtain ⟨hmerge, hconversion, -⟩ := merge_union existing new lookup c
  exact ⟨hnew, (hmerge hnew).trans (by decide +kernel), hblank, hshared,
    (hconversion hblank hshared).1.trans (by decide +kernel)⟩

/-- Centred text among classes that have `text-center` already: the one class of the conversion has
no category to share, and is not put behind them a second time. -/
theorem present_class_passed_over :
    let lookup : Lookup := fun _ => none
    let c : Conversion := ⟨"text-align: center;", "", "text-center"⟩
    Text.allBlank c.existing = false ∧
      (∀ cls ∈ c.varied lookup, ∀ e ∈ c.existingClasses,
        categoryOf e = categoryOf cls → categoryOf cls = .none) ∧
      c.merged lookup = [Text.of "text-center"] ∧
      c.merged lookup ≠ c.existingClasses ++ (c.varied lookup).eraseDups := by
  decide +kernel

end UtilityCss.ClassList
