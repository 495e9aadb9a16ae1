import UtilityCss.Proofs.Merging.Conservation
import UtilityCss.Proofs.Merging.Resumption
/-
  The same classes merged a second time.

  What the first merge appends is there when the second begins, so only a
  class that the first one dropped can still be appended. It is dropped again
  if it duplicates the last class of its category, which need not be the class
  that it was dropped for: another may have been placed since.

  What is proved:
    1. `merge_eq_self_iff` : when a merge appends nothing.
    2. `left_out` : a class that a merge leaves out has a variant and a
       category, and the result has a duplicate of it.
    3. `within_additions_eq_nil` : duplicates of the last class of a category
       are all dropped.
    4. `merge_twice` : what a second merge appends, when that is nothing, and
       a condition on the new classes that is enough for it.
-/

namespace UtilityCss.ClassList

/-! ## Duplicates -/

theorem duplicates_trans {a b c : Text} (hab : duplicates a b = true) (hbc : duplicates b c = true) :
    duplicates a c = true := by
  obtain ⟨hvariant, hutility⟩ := duplicates_iff.1 hab
  obtain ⟨hvariant', hutility'⟩ := duplicates_iff.1 hbc
  exact duplicates_iff.2 ⟨hvariant.trans hvariant', hutility.trans hutility'⟩

/-- A class without a variant has no duplicate but itself. -/
theorem eq_of_duplicates {a b : Text} (h : duplicates a b = true) (hfree : hasVariant a = false) :
    a = b := by
  obtain ⟨hvariant, hutility⟩ := duplicates_iff.1 h
  rwa [utilityOf_of_not_hasVariant hfree, utilityOf_of_not_hasVariant (hvariant ▸ hfree)] at hutility

/-! ## Merges that append nothing -/

theorem additions_eq_nil_iff (new there : List Text) (latest : Latest) :
    additions there latest new = [] ↔ ∀ cls ∈ new, cls ∈ there ∨ clashes latest cls = true := by
  induction new with
  | nil => simp [additions_nil]
  | cons cls rest ih =>
    rw [additions_cons, List.forall_mem_cons]
    split
    · next hpass => rw [ih, and_iff_right hpass]
    · next hpass => simp [hpass]

theorem clashes_ofList_iff {classes : List Text} {cls : Text} :
    clashes (Latest.ofList classes) cls = true ↔
      categoryOf cls ≠ .none ∧
        ∃ last, (within (categoryOf cls) classes).getLast? = some last ∧ duplicates cls last = true := by
  rw [clashes, get?_ofList, Option.any_eq_true]
  by_cases hnone : categoryOf cls = .none <;> simp [hnone]

theorem merge_eq_self_iff {existing new : List Text} :
    merge existing new = existing ↔
      ∀ cls ∈ new, cls ∈ existing ∨ clashes (Latest.ofList existing) cls = true := by
  rw [merge_eq, List.append_right_eq_self, additions_eq_nil_iff]

/-! ## Classes that a merge leaves out -/

theorem left_out {existing new : List Text} {cls : Text} (hcls : cls ∈ new)
    (hout : cls ∉ merge existing new) :
    hasVariant cls = true ∧ categoryOf cls ≠ .none ∧
      ∃ placed ∈ merge existing new, duplicates cls placed = true := by
  have hfate := kept_or_duplicated new (valid_ofList existing) cls hcls
  rw [← merge_eq] at hfate
  obtain ⟨hk, placed, hmem, hdup⟩ := hfate.resolve_left hout
  refine ⟨?_, hk, placed, hmem, hdup⟩
  by_contra hfree
  exact hout (eq_of_duplicates hdup (by simpa using hfree) ▸ hmem)

/-- As long as the new classes of a category duplicate its last class, they are all dropped. -/
theorem within_additions_eq_nil {k : Category} {placed : Text} (new there : List Text)
    {latest : Latest} (hlast : latest.get? k = some placed)
    (h : ∀ cls ∈ new, categoryOf cls = k → duplicates cls placed = true) :
    within k (additions there latest new) = [] := by
  induction new generalizing there latest with
  | nil => rfl
  | cons cls rest ih =>
    have hrest : ∀ c ∈ rest, categoryOf c = k → duplicates c placed = true :=
      fun c hc => h c (List.mem_cons_of_mem cls hc)
    rw [additions_cons]
    split
    · exact ih there hlast hrest
    · next hpass =>
      have hk : categoryOf cls ≠ k := by
        rintro rfl
        have hdup := h cls List.mem_cons_self rfl
        exact hpass (Or.inr (by simpa [clashes, hlast] using hdup))
      rw [within_cons, if_neg hk]
      exact ih (cls :: there) (by rw [get?_place, if_neg hk, hlast]) hrest

/-- A class that a merge leaves out duplicates the last class of its category in the result, if
the new classes of the category that come after it duplicate it. -/
theorem left_out_duplicates_last {existing before after : List Text} {cls : Text}
    (hout : cls ∉ merge existing (before ++ cls :: after))
    (h : (∃ c ∈ existing, categoryOf c = categoryOf cls) →
      ∀ later ∈ after, categoryOf later = categoryOf cls → duplicates later cls = true) :
    ∃ last, (within (categoryOf cls) (merge existing (before ++ cls :: after))).getLast? = some last ∧
      duplicates cls last = true := by
  rw [merge_append_eq, additions_cons] at hout ⊢
  have hpass : cls ∈ thereAfter existing (Latest.ofList existing) before ∨
      clashes (latestAfter existing (Latest.ofList existing) before) cls = true := by
    by_contra hpass
    rw [if_neg hpass] at hout
    exact hout (List.mem_append_right _ List.mem_cons_self)
  rw [if_pos hpass] at hout ⊢
  have hnew : cls ∉ thereAfter existing (Latest.ofList existing) before :=
    fun hmem => hout (List.mem_append_left _ (mem_thereAfter.1 hmem))
  obtain ⟨placed, hplaced, hdup⟩ := (Option.any_eq_true _ _).1 (hpass.resolve_left hnew)
  -- The class that it was dropped for is the last of the category, and stays the last.
  have hlast := hplaced
  rw [get?_latestAfter] at hlast
  split at hlast
  · cases hlast
  · next hcounts =>
    have hthere : ∃ c ∈ existing, categoryOf c = categoryOf cls := by
      obtain ⟨c, hc⟩ := List.exists_mem_of_ne_nil _ (not_or.1 hcounts).2
      exact ⟨c, mem_within.1 hc⟩
    have hrest := within_additions_eq_nil after (thereAfter existing (Latest.ofList existing) before)
      hplaced (fun later hlater hk => duplicates_trans (h hthere later hlater hk) hdup)
    rw [within_append, hrest, List.append_nil]
    exact ⟨placed, hlast, hdup⟩

/-- A second merge of the same classes appends only classes that the first one dropped: each has a
variant, a category, and a duplicate in the list. It appends nothing exactly when every class left
out duplicates the last class of its category in the result, and so whenever in the new classes no
class with a variant stands before one of its category that does not duplicate it. -/
theorem merge_twice (existing new : List Text) :
    (∃ again, merge (merge existing new) new = merge existing new ++ again ∧ again.Sublist new ∧
      ∀ cls ∈ again, cls ∉ merge existing new ∧ hasVariant cls = true ∧ categoryOf cls ≠ .none ∧
        ∃ placed ∈ merge existing new, duplicates cls placed = true) ∧
    (merge (merge existing new) new = merge existing new ↔
      ∀ cls ∈ new, cls ∉ merge existing new →
        ∃ last, (within (categoryOf cls) (merge existing new)).getLast? = some last ∧
          duplicates cls last = true) ∧
    (new.Pairwise (fun cls later => hasVariant cls = true → categoryOf cls ≠ .none →
        (∃ c ∈ existing, categoryOf c = categoryOf cls) → categoryOf later = categoryOf cls →
          duplicates later cls = true) →
      merge (merge existing new) new = merge existing new) := by
  have hiff : merge (merge existing new) new = merge existing new ↔
      ∀ cls ∈ new, cls ∉ merge existing new →
        ∃ last, (within (categoryOf cls) (merge existing new)).getLast? = some last ∧
          duplicates cls last = true := by
    rw [merge_eq_self_iff]
    refine forall₂_congr fun cls hcls => ?_
    rw [or_iff_not_imp_left]
    refine forall_congr' fun hout => ?_
    rw [clashes_ofList_iff, and_iff_right (left_out hcls hout).2.1]
  refine ⟨?_, hiff, ?_⟩
  · have hsublist := additions_sublist new (merge existing new) (Latest.ofList (merge existing new))
    refine ⟨_, merge_eq (merge existing new) new, hsublist, ?_⟩
    intro cls hcls
    have hout := (additions_new new _ _).2 cls hcls
    exact ⟨hout, left_out (hsublist.subset hcls) hout⟩
  · intro hpairs
    rw [hiff]
    intro cls hcls hout
    obtain ⟨hvariant, hk, -⟩ := left_out hcls hout
    obtain ⟨before, after, rfl⟩ := List.append_of_mem hcls
    have hafter := (List.pairwise_cons.1 (List.pairwise_append.1 hpairs).2.1).1
    exact left_out_duplicates_last hout
      (fun hthere later hlater hcategory => hafter later hlater hvariant hk hthere hcategory)

/-- Two classes dropped for one, with others between them: the second merge drops them again. -/
theorem sizes_dropped_twice :
    let existing : List Text := ["md:text-sm", "p-4"]
    let new : List Text := ["lg:text-sm", "w-2", "hover:text-sm", "flex"]
    new.Pairwise (fun cls later => hasVariant cls = true → categoryOf cls ≠ .none →
        (∃ c ∈ existing, categoryOf c = categoryOf cls) → categoryOf later = categoryOf cls →
          duplicates later cls = true) ∧
      merge (merge existing new) new = merge existing new := by
  intro existing new
  have h : new.Pairwise (fun cls later => hasVariant cls = true → categoryOf cls ≠ .none →
      (∃ c ∈ existing, categoryOf c = categoryOf cls) → categoryOf later = categoryOf cls →
        duplicates later cls = true) := by
    decide
  exact ⟨h, (merge_twice existing new).2.2 h⟩

/-- A class that the first merge dropped is appended by the second, since another class of its
category has been placed in between. -/
theorem dropped_class_comes_back :
    merge (merge ["md:text-sm"] ["lg:text-sm", "md:text-lg"]) ["lg:text-sm", "md:text-lg"] ≠
      merge ["md:text-sm"] ["lg:text-sm", "md:text-lg"] := by
  decide

end UtilityCss.ClassList
