import UtilityCss.Proofs.Merging.Run
/-
  Merging treats every category by itself.

  All classes go through one list, one set of classes that are there and one
  index of last classes. Still, what happens to the classes of one category is
  what would happen if there were no others: two merges in progress that agree
  on the category, as to which of its classes are there and which is the last,
  keep agreeing on it.

  What is proved:
    1. `within_additions` : the classes of a category that a merge appends are
       those that a merge of the category alone appends.
    2. `within_merge` : the same of whole lists, for every category.
-/

namespace UtilityCss.ClassList

/-- Two merges in progress that agree on a category: the same classes of it are there, and the
same one is its last. -/
structure Agree (k : Category) (there there' : List Text) (latest latest' : Latest) : Prop where
  mem_iff : ∀ cls, categoryOf cls = k → (cls ∈ there ↔ cls ∈ there')
  last_eq : latest.get? k = latest'.get? k

namespace Agree

variable {k : Category} {there there' : List Text} {latest latest' : Latest} {cls : Text}

/-- A class of another category that one of the two appends is of no matter. -/
theorem place_other (h : Agree k there there' latest latest') (hk : categoryOf cls ≠ k) :
    Agree k (cls :: there) there' (latest.place cls) latest' := by
  constructor
  · intro c hc
    have hne : c ≠ cls := fun e => hk (e ▸ hc)
    rw [List.mem_cons, or_iff_right hne]
    exact h.mem_iff c hc
  · rw [get?_place, if_neg hk]
    exact h.last_eq

/-- A class of the category is appended by both. -/
theorem place_same (h : Agree k there there' latest latest') :
    Agree k (cls :: there) (cls :: there') (latest.place cls) (latest'.place cls) := by
  constructor
  · intro c hc
    rw [List.mem_cons, List.mem_cons, h.mem_iff c hc]
  · rw [get?_place, get?_place, h.last_eq]

/-- A class of the category is passed over by both or by neither. -/
theorem passed_iff (h : Agree k there there' latest latest') (hk : categoryOf cls = k) :
    (cls ∈ there ∨ clashes latest cls = true) ↔ (cls ∈ there' ∨ clashes latest' cls = true) := by
  unfold clashes
  rw [h.mem_iff cls hk, hk, h.last_eq]

end Agree

theorem within_additions {k : Category} (new : List Text) {there there' : List Text}
    {latest latest' : Latest} (h : Agree k there there' latest latest') :
    within k (additions there latest new) = additions there' latest' (within k new) := by
  induction new generalizing there there' latest latest' with
  | nil => rfl
  | cons cls rest ih =>
    by_cases hk : categoryOf cls = k
    · -- Both runs see the class, and do the same with it.
      rw [within_cons, if_pos hk, additions_cons, additions_cons]
      by_cases hpass : cls ∈ there ∨ clashes latest cls = true
      · rw [if_pos hpass, if_pos ((h.passed_iff hk).1 hpass)]
        exact ih h
      · rw [if_neg hpass, if_neg (fun hp => hpass ((h.passed_iff hk).2 hp)), within_cons, if_pos hk,
          ih h.place_same]
    · -- Only the first run sees the class.
      rw [within_cons, if_neg hk, additions_cons]
      split
      · exact ih h
      · rw [within_cons, if_neg hk]
        exact ih (h.place_other hk)

/-- A list and its classes of one category agree on that category. -/
theorem agree_within (k : Category) (existing : List Text) :
    Agree k existing (within k existing) (Latest.ofList existing)
      (Latest.ofList (within k existing)) := by
  constructor
  · intro cls hcls
    rw [mem_within]
    exact ⟨fun h => ⟨h, hcls⟩, fun h => h.1⟩
  · rw [get?_ofList, get?_ofList, within_within]

/-- The classes of a category after a merge are those of a merge of its classes alone. So lists
with the same classes of a category have the same ones after the merge, whatever other classes
stand between them. -/
theorem within_merge (k : Category) (existing new : List Text) :
    within k (merge existing new) = merge (within k existing) (within k new) ∧
    ∀ existing' new', within k existing' = within k existing → within k new' = within k new →
      within k (merge existing' new') = within k (merge existing new) := by
  have key : ∀ there new,
      within k (merge there new) = merge (within k there) (within k new) := by
    intro there new
    rw [merge_eq, merge_eq, within_append, within_additions new (agree_within k there)]
  refine ⟨key existing new, ?_⟩
  intro existing' new' hexisting hnew
  rw [key, key, hexisting, hnew]

end UtilityCss.ClassList
