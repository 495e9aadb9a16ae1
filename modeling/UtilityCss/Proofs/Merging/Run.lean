import Mathlib.Data.List.Induction
import UtilityCss.ClassList
/-
  What one new class does to a merge in progress.

  A merge in progress is the classes that are there and the last class of each
  category that counts. A new class that is there already, or that duplicates
  the last of its category, changes nothing; any other one is appended, and
  becomes the last of its category if that counts. All that is said of merging
  elsewhere follows from this one step (`additions_cons`) and from what counts
  before the first (`get?_ofList`).

  What is proved:
    1. `additions_cons` : the step.
    2. `get?_place`, `get?_ofList` : the last class of a category after a step,
       and before the first one.
-/

namespace UtilityCss.ClassList

/-- The classes of one category, in order. -/
def within (k : Category) (classes : List Text) : List Text :=
  classes.filter (fun cls => categoryOf cls = k)

/-- Whether a new class duplicates the last one of its category. -/
def clashes (latest : Latest) (cls : Text) : Bool :=
  (latest.get? (categoryOf cls)).any (duplicates cls)

/-- The last classes after a class is appended: only a category that counts has a new one. -/
def Latest.place (latest : Latest) (cls : Text) : Latest :=
  if (latest.get? (categoryOf cls)).isSome then latest.put (categoryOf cls) cls else latest

/-- The classes that a merge in progress still appends. -/
def additions (there : List Text) (latest : Latest) (new : List Text) : List Text :=
  (fates there latest new).filterMap Fate.addition?

theorem merge_eq (existing new : List Text) :
    merge existing new = existing ++ additions existing (Latest.ofList existing) new := rfl

theorem additions_nil (there : List Text) (latest : Latest) : additions there latest [] = [] := rfl

theorem additions_cons (there : List Text) (latest : Latest) (cls : Text) (rest : List Text) :
    additions there latest (cls :: rest) =
      if cls ∈ there ∨ clashes latest cls = true then additions there latest rest
      else cls :: additions (cls :: there) (latest.place cls) rest := by
  unfold additions
  rw [fates]
  by_cases hmem : cls ∈ there
  · rw [if_pos hmem, if_pos (Or.inl hmem)]
    rfl
  · cases hlatest : latest.get? (categoryOf cls) with
    | none => simp [hmem, clashes, hlatest, Latest.place, Fate.addition?]
    | some placed =>
      by_cases hdup : duplicates cls placed = true
      · rw [if_neg hmem, if_pos (Or.inr (by simpa [clashes, hlatest] using hdup))]
        simp only [hdup, if_true]
        rfl
      · simp [hmem, clashes, hlatest, hdup, Latest.place, Fate.addition?]

/-! ## The classes of one category -/

theorem mem_within {k : Category} {classes : List Text} {cls : Text} :
    cls ∈ within k classes ↔ cls ∈ classes ∧ categoryOf cls = k := by
  simp [within]

theorem within_cons (k : Category) (cls : Text) (rest : List Text) :
    within k (cls :: rest) =
      if categoryOf cls = k then cls :: within k rest else within k rest := by
  simp [within, List.filter_cons]

theorem within_append (k : Category) (a b : List Text) :
    within k (a ++ b) = within k a ++ within k b := List.filter_append ..

theorem within_within (k : Category) (classes : List Text) :
    within k (within k classes) = within k classes := by
  simp [within]

/-! ## The last class of a category -/

theorem get?_place (latest : Latest) (cls : Text) (k : Category) :
    (latest.place cls).get? k =
      if categoryOf cls = k then (latest.get? k).map (fun _ => cls) else latest.get? k := by
  unfold Latest.place
  by_cases hk : categoryOf cls = k
  · subst hk
    cases hlatest : latest.get? (categoryOf cls) <;> simp [hlatest, OrderedMap.get?_put]
  · rw [if_neg hk]
    split
    · rw [OrderedMap.get?_put, if_neg hk]
    · rfl

theorem get?_note (latest : Latest) (cls : Text) (k : Category) :
    (latest.note cls).get? k =
      if k ≠ .none ∧ categoryOf cls = k then some cls else latest.get? k := by
  unfold Latest.note
  split
  · next hnone =>
    rw [if_neg]
    rintro ⟨hk, rfl⟩
    exact hk hnone
  · next hne =>
    rw [OrderedMap.get?_put]
    by_cases hk : categoryOf cls = k
    · rw [if_pos hk, if_pos ⟨hk ▸ hne, hk⟩]
    · rw [if_neg hk, if_neg (fun h => hk h.2)]

/-- What counts before a merge begins: the last class of each category but that of no
property. -/
theorem get?_ofList (classes : List Text) (k : Category) :
    (Latest.ofList classes).get? k =
      if k = .none then none else (within k classes).getLast? := by
  -- The list is read from the left, so the induction is on its last class.
  induction classes using List.reverseRecOn with
  | nil => simp [Latest.ofList, within, OrderedMap.get?, OrderedMap.empty, Pairs.get?]
  | append_singleton front cls ih =>
    have hstep : Latest.ofList (front ++ [cls]) = (Latest.ofList front).note cls := by
      simp [Latest.ofList]
    rw [hstep, get?_note, ih, within_append, within_cons]
    by_cases hnone : k = .none
    · simp [hnone]
    · by_cases hk : categoryOf cls = k <;> simp [hnone, hk, within]

end UtilityCss.ClassList
