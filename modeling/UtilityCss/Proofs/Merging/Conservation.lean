import UtilityCss.Proofs.Merging.Run
/-
  Merging keeps what is there and loses nothing that is asked for.

  A new class is passed over for one of two reasons: it is there, or a class
  that is there duplicates it. The second needs that every class that counts as
  the last of its category is there (`Valid`), which each step keeps. So every
  new class has one in the result that does the same, and in a category that
  counts no appended class duplicates the one placed before it.

  What is proved:
    1. `additions_new` : the classes appended are distinct and were not there.
    2. `kept_or_duplicated` : what becomes of a new class.
    3. `isChain_additions` : no class appended in a category that counts
       duplicates the one before it.
    4. `merge_conserves` : the three together, for whole lists.
-/

namespace UtilityCss.ClassList

theorem additions_new (new : List Text) (there : List Text) (latest : Latest) :
    (additions there latest new).Nodup ∧ ∀ cls ∈ additions there latest new, cls ∉ there := by
  induction new generalizing there latest with
  | nil => simp [additions_nil]
  | cons cls rest ih =>
    rw [additions_cons]
    split
    · exact ih there latest
    · next hpass =>
      obtain ⟨hnodup, hnew⟩ := ih (cls :: there) (latest.place cls)
      refine ⟨List.nodup_cons.2 ⟨?_, hnodup⟩, ?_⟩
      · intro hmem
        exact hnew cls hmem List.mem_cons_self
      · intro c hc
        rcases List.mem_cons.1 hc with rfl | hc
        · exact fun h => hpass (Or.inl h)
        · exact fun h => hnew c hc (List.mem_cons_of_mem cls h)

/-! ## What becomes of a new class -/

/-- Every class that counts as the last of its category is there, and the category is a proper
one. -/
def Valid (there : List Text) (latest : Latest) : Prop :=
  ∀ k placed, latest.get? k = some placed → placed ∈ there ∧ k ≠ .none

theorem valid_ofList (existing : List Text) : Valid existing (Latest.ofList existing) := by
  intro k placed hplaced
  rw [get?_ofList] at hplaced
  split at hplaced
  · exact absurd hplaced (by simp)
  · next hk => exact ⟨(mem_within.1 (List.mem_of_getLast? hplaced)).1, hk⟩

theorem Valid.place {there : List Text} {latest : Latest} (h : Valid there latest) (cls : Text) :
    Valid (cls :: there) (latest.place cls) := by
  intro k placed hplaced
  rw [get?_place] at hplaced
  split at hplaced
  · obtain ⟨before, hbefore, rfl⟩ := Option.map_eq_some_iff.1 hplaced
    exact ⟨List.mem_cons_self, (h k before hbefore).2⟩
  · obtain ⟨hmem, hk⟩ := h k placed hplaced
    exact ⟨List.mem_cons_of_mem cls hmem, hk⟩

theorem Valid.of_clashes {there : List Text} {latest : Latest} {cls : Text}
    (h : Valid there latest) (hclash : clashes latest cls = true) :
    categoryOf cls ≠ .none ∧ ∃ placed ∈ there, duplicates cls placed = true := by
  obtain ⟨placed, hplaced, hdup⟩ := (Option.any_eq_true _ _).1 hclash
  obtain ⟨hmem, hk⟩ := h _ placed hplaced
  exact ⟨hk, placed, hmem, hdup⟩

/-- A new class is in the result, or it has a category and a class in the result duplicates
it. -/
theorem kept_or_duplicated (new : List Text) {there : List Text} {latest : Latest}
    (h : Valid there latest) : ∀ cls ∈ new,
    cls ∈ there ++ additions there latest new ∨
      categoryOf cls ≠ .none ∧
        ∃ placed ∈ there ++ additions there latest new, duplicates cls placed = true := by
  induction new generalizing there latest with
  | nil => simp
  | cons c rest ih =>
    intro cls hcls
    rw [additions_cons]
    split
    · next hpass =>
      rcases List.mem_cons.1 hcls with rfl | hcls
      · rcases hpass with hmem | hclash
        · exact Or.inl (List.mem_append_left _ hmem)
        · obtain ⟨hk, placed, hmem, hdup⟩ := h.of_clashes hclash
          exact Or.inr ⟨hk, placed, List.mem_append_left _ hmem, hdup⟩
      · exact ih h cls hcls
    · -- The appended class is counted among those that are there from the next step on.
      have hmove : ∀ x, x ∈ (c :: there) ++ additions (c :: there) (latest.place c) rest →
          x ∈ there ++ c :: additions (c :: there) (latest.place c) rest := by
        intro x hx
        simpa [or_left_comm] using hx
      rcases List.mem_cons.1 hcls with rfl | hcls
      · exact Or.inl (hmove cls (by simp))
      · rcases ih (h.place c) cls hcls with hmem | ⟨hk, placed, hmem, hdup⟩
        · exact Or.inl (hmove cls hmem)
        · exact Or.inr ⟨hk, placed, hmove placed hmem, hdup⟩

theorem duplicates_iff {a b : Text} :
    duplicates a b = true ↔ hasVariant a = hasVariant b ∧ utilityOf a = utilityOf b := by
  simp [duplicates]

/-! ## Neighbours in a category -/

theorem isChain_additions {k : Category} (new : List Text) {there : List Text} {latest : Latest}
    {placed : Text} (h : latest.get? k = some placed) :
    (placed :: within k (additions there latest new)).IsChain
      (fun before after => duplicates after before = false) := by
  induction new generalizing there latest placed with
  | nil => exact .singleton placed
  | cons cls rest ih =>
    rw [additions_cons]
    split
    · exact ih h
    · next hpass =>
      by_cases hk : categoryOf cls = k
      · have hdup : duplicates cls placed = false := by
          rw [not_or] at hpass
          simpa [clashes, hk, h] using hpass.2
        have hplace : (latest.place cls).get? k = some cls := by
          rw [get?_place, if_pos hk, h]
          rfl
        rw [within_cons, if_pos hk]
        exact .cons_cons hdup (ih hplace)
      · have hplace : (latest.place cls).get? k = some placed := by
          rw [get?_place, if_neg hk, h]
        rw [within_cons, if_neg hk]
        exact ih hplace

/-- Merging appends a part of the new classes, each once and none that was there. Every new class
has one in the result with its utility and with a variant exactly if it has one; without a variant
or without a category it is in the result itself. Behind the last class of a category, no class of
it that is appended duplicates the one before it. -/
theorem merge_conserves (existing new : List Text) :
    ∃ added, merge existing new = existing ++ added ∧ added.Sublist new ∧ added.Nodup ∧
      (∀ cls ∈ added, cls ∉ existing) ∧
      (∀ cls ∈ new, ∃ d ∈ merge existing new,
        utilityOf d = utilityOf cls ∧ hasVariant d = hasVariant cls) ∧
      (∀ cls ∈ new, hasVariant cls = false ∨ categoryOf cls = .none → cls ∈ merge existing new) ∧
      (∀ k, k ≠ .none → ∀ last, (within k existing).getLast? = some last →
        (last :: within k added).IsChain (fun before after => duplicates after before = false)) := by
  obtain ⟨hnodup, hnew⟩ := additions_new new existing (Latest.ofList existing)
  have hfate := kept_or_duplicated new (valid_ofList existing)
  rw [← merge_eq] at hfate
  refine ⟨additions existing (Latest.ofList existing) new, merge_eq existing new,
    additions_sublist new existing (Latest.ofList existing), hnodup, hnew, ?_, ?_, ?_⟩
  · intro cls hcls
    rcases hfate cls hcls with hmem | ⟨-, placed, hmem, hdup⟩
    · exact ⟨cls, hmem, rfl, rfl⟩
    · obtain ⟨hvariant, hutility⟩ := duplicates_iff.1 hdup
      exact ⟨placed, hmem, hutility.symm, hvariant.symm⟩
  · intro cls hcls hplain
    rcases hfate cls hcls with hmem | ⟨hk, placed, hmem, hdup⟩
    · exact hmem
    · -- Without a variant the duplicate is the class itself.
      obtain ⟨hvariant, hutility⟩ := duplicates_iff.1 hdup
      have hfree : hasVariant cls = false := hplain.resolve_right hk
      rw [utilityOf_of_not_hasVariant hfree,
        utilityOf_of_not_hasVariant (hvariant.symm.trans hfree)] at hutility
      rw [hutility]
      exact hmem
  · intro k hk last hlast
    apply isChain_additions new
    rw [get?_ofList, if_neg hk, hlast]

end UtilityCss.ClassList
