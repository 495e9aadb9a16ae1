import UtilityCss.Proofs.Merging.Categories
/-
  A merge that is broken off and taken up again.

  A merge goes on from the classes that are there and the last class of each
  category that counts. A new merge into its result starts from the same
  classes, and counts every category that the result has. The two go the same
  way where no category has come in since: in a category that counts, the last
  class placed is the last one of the result (`get?_latestAfter`).

  What is proved:
    1. `additions_append` : a merge of two lists of new classes is a merge of
       the first that goes on with the second.
    2. `get?_latestAfter` : which class of a category is the last after a
       merge.
    3. `merge_append` : two merges one after the other are one, when the first
       brings in no category.
-/

namespace UtilityCss.ClassList

/-- The classes that are there after a merge in progress has gone through new classes. -/
def thereAfter (there : List Text) (latest : Latest) (new : List Text) : List Text :=
  (additions there latest new).reverse ++ there

/-- The last classes after a merge in progress has gone through new classes. -/
def latestAfter (there : List Text) (latest : Latest) (new : List Text) : Latest :=
  (additions there latest new).foldl Latest.place latest

theorem additions_append (a b there : List Text) (latest : Latest) :
    additions there latest (a ++ b) =
      additions there latest a ++ additions (thereAfter there latest a) (latestAfter there latest a) b := by
  unfold thereAfter latestAfter
  induction a generalizing there latest with
  | nil => rfl
  | cons cls rest ih =>
    rw [List.cons_append, additions_cons, additions_cons]
    split
    · exact ih there latest
    · rw [ih]
      simp

/-- A merge of two lists of new classes goes on with the second after the first. -/
theorem merge_append_eq (existing a b : List Text) :
    merge existing (a ++ b) = merge existing a ++
      additions (thereAfter existing (Latest.ofList existing) a)
        (latestAfter existing (Latest.ofList existing) a) b := by
  rw [merge_eq, additions_append, ← List.append_assoc, ← merge_eq]

theorem mem_thereAfter {existing new : List Text} {cls : Text} :
    cls ∈ thereAfter existing (Latest.ofList existing) new ↔ cls ∈ merge existing new := by
  rw [merge_eq, thereAfter, List.mem_append, List.mem_append, List.mem_reverse, or_comm]

/-! ## The last class of a category after a merge -/

theorem get?_foldl_place (added : List Text) (latest : Latest) (k : Category) :
    (added.foldl Latest.place latest).get? k =
      (latest.get? k).map (fun placed => (within k added).getLast?.getD placed) := by
  induction added generalizing latest with
  | nil => simp [within]
  | cons cls rest ih =>
    rw [List.foldl_cons, ih, get?_place, within_cons]
    by_cases hk : categoryOf cls = k
    · rw [if_pos hk, if_pos hk, Option.map_map, List.getLast?_cons]
      rfl
    · rw [if_neg hk, if_neg hk]

/-- After a merge the last class of a category is the last one of the result, if the category
counts: if it is a proper one that was there before the merge. -/
theorem get?_latestAfter (existing new : List Text) (k : Category) :
    (latestAfter existing (Latest.ofList existing) new).get? k =
      if k = .none ∨ within k existing = [] then none
      else (within k (merge existing new)).getLast? := by
  rw [latestAfter, get?_foldl_place, get?_ofList, merge_eq, within_append, List.getLast?_append]
  by_cases hnone : k = .none
  · simp [hnone]
  · rw [if_neg hnone]
    cases hlast : (within k existing).getLast? with
    | none => simp [List.getLast?_eq_none_iff.1 hlast]
    | some last =>
      have hne : within k existing ≠ [] := fun hnil => by simp [hnil] at hlast
      rw [if_neg (not_or.2 ⟨hnone, hne⟩)]
      cases (within k (additions existing (Latest.ofList existing) new)).getLast? <;> rfl

/-! ## Two merges in progress that go the same way -/

theorem additions_congr (new : List Text) {there there' : List Text} {latest latest' : Latest}
    (h : ∀ k, Agree k there there' latest latest') :
    additions there latest new = additions there' latest' new := by
  induction new generalizing there there' latest latest' with
  | nil => rfl
  | cons cls rest ih =>
    have hpass := (h (categoryOf cls)).passed_iff rfl
    rw [additions_cons, additions_cons]
    by_cases hleft : cls ∈ there ∨ clashes latest cls = true
    · rw [if_pos hleft, if_pos (hpass.1 hleft)]
      exact ih h
    · rw [if_neg hleft, if_neg (fun hright => hleft (hpass.2 hright)),
        ih (fun k => (h k).place_same)]

/-- A merge that brings in no category leaves what a new merge into its result starts from. -/
theorem agree_after {existing new : List Text}
    (h : ∀ cls ∈ new, categoryOf cls ≠ .none → ∃ c ∈ existing, categoryOf c = categoryOf cls)
    (k : Category) :
    Agree k (thereAfter existing (Latest.ofList existing) new) (merge existing new)
      (latestAfter existing (Latest.ofList existing) new) (Latest.ofList (merge existing new)) := by
  constructor
  · intro cls _
    exact mem_thereAfter
  · rw [get?_latestAfter, get?_ofList]
    by_cases hnone : k = .none
    · rw [if_pos (Or.inl hnone), if_pos hnone]
    · rw [if_neg hnone]
      by_cases hnil : within k existing = []
      · -- What was not there before the merge is not there after it.
        have hmerged : within k (merge existing new) = [] := by
          apply List.eq_nil_iff_forall_not_mem.2
          intro cls hcls
          obtain ⟨hmem, rfl⟩ := mem_within.1 hcls
          have hold : ∃ c ∈ existing, categoryOf c = categoryOf cls := by
            rw [merge_eq] at hmem
            rcases List.mem_append.1 hmem with hmem | hmem
            · exact ⟨cls, hmem, rfl⟩
            · exact h cls ((additions_sublist new _ _).subset hmem) hnone
          obtain ⟨c, hc, hcategory⟩ := hold
          exact List.ne_nil_of_mem (mem_within.2 ⟨hc, hcategory⟩) hnil
        rw [if_pos (Or.inr hnil), hmerged]
        rfl
      · rw [if_neg (not_or.2 ⟨hnone, hnil⟩)]

/-- Merging two lists of new classes at once is merging one after the other, if every category of
the first is one of the classes that are there. -/
theorem merge_append (existing new₁ new₂ : List Text)
    (h : ∀ cls ∈ new₁, categoryOf cls ≠ .none → ∃ c ∈ existing, categoryOf c = categoryOf cls) :
    merge existing (new₁ ++ new₂) = merge (merge existing new₁) new₂ := by
  calc merge existing (new₁ ++ new₂)
      = merge existing new₁ ++ additions (thereAfter existing (Latest.ofList existing) new₁)
          (latestAfter existing (Latest.ofList existing) new₁) new₂ :=
        merge_append_eq existing new₁ new₂
    _ = merge existing new₁ ++
          additions (merge existing new₁) (Latest.ofList (merge existing new₁)) new₂ := by
        rw [additions_congr new₂ (agree_after h)]
    _ = merge (merge existing new₁) new₂ := (merge_eq _ new₂).symm

/-- Dropped, appended and passed over in both merges, and a class of no category between them. -/
theorem merge_sizes_append :
    let existing : List Text := ["md:text-sm", "p-4"]
    let new₁ : List Text := ["lg:text-sm", "flex", "md:text-lg"]
    let new₂ : List Text := ["lg:text-lg", "lg:text-sm", "p-4", "w-2"]
    (∀ cls ∈ new₁, categoryOf cls ≠ .none → ∃ c ∈ existing, categoryOf c = categoryOf cls) ∧
    merge existing (new₁ ++ new₂) = merge (merge existing new₁) new₂ := by
  intro existing new₁ new₂
  have h : ∀ cls ∈ new₁, categoryOf cls ≠ .none → ∃ c ∈ existing, categoryOf c = categoryOf cls := by
    decide
  exact ⟨h, merge_append existing new₁ new₂ h⟩

/-- A category that the first merge brings in counts in the second one only. -/
example : merge [] ["md:text-sm", "lg:text-sm"] ≠ merge (merge [] ["md:text-sm"]) ["lg:text-sm"] := by
  decide

end UtilityCss.ClassList
