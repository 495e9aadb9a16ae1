import UtilityCss.Classification
import UtilityCss.OrderedMap
/-
  Lists of classes, and the merging of new classes into one.

  The classes that are there stay, in order. A new class is passed over when
  it is there already, and when it duplicates the class placed last in its
  category; a category counts only when the list had a class of it before the
  merging began. All other new classes go to the end, one after the other.

  What is proved:
    1. `merge_eq_append` : merging appends a part of the new classes, in
       order, to the classes that are there.
-/

namespace UtilityCss.ClassList

def ofText (t : Text) : List Text := Text.words t

/-- Classes as one text, with single spaces between them. -/
def render (classes : List Text) : Text := Text.joinWith [' '] classes

/-- Whether two classes of one category duplicate each other: both have a variant or neither
has, and they have the same utility. -/
def duplicates (new placed : Text) : Bool :=
  hasVariant new == hasVariant placed && utilityOf new == utilityOf placed

abbrev Latest := OrderedMap Category Text

/-- The last classes after one more. A class of no category is not counted. -/
def Latest.note (latest : Latest) (cls : Text) : Latest :=
  if categoryOf cls = .none then latest else latest.put (categoryOf cls) cls

def Latest.ofList (classes : List Text) : Latest := classes.foldl Latest.note OrderedMap.empty

/-- What becomes of a new class. -/
inductive Fate where
  | appended (cls : Text)
  | present (cls : Text)
  | dropped (cls : Text) (placed : Text)
  deriving DecidableEq, Repr

/-- What becomes of new classes one after the other, given the classes that are there and the
last of each category that counts. -/
def fates (there : List Text) (latest : Latest) : List Text → List Fate
  | [] => []
  | cls :: rest =>
    if cls ∈ there then .present cls :: fates there latest rest
    else match latest.get? (categoryOf cls) with
      | some placed =>
        if duplicates cls placed then .dropped cls placed :: fates there latest rest
        else .appended cls :: fates (cls :: there) (latest.put (categoryOf cls) cls) rest
      -- A category that does not count at first never does, so nothing of it is dropped.
      | none => .appended cls :: fates (cls :: there) latest rest

def Fate.addition? : Fate → Option Text
  | .appended cls => some cls
  | _ => none

/-- The class that is dropped, with the class that it duplicates, if one is. -/
def Fate.duplicate? : Fate → Option (Text × Text)
  | .dropped cls placed => some (cls, placed)
  | _ => none

/-- What becomes of new classes that are merged into a list. -/
def mergeFates (existing new : List Text) : List Fate := fates existing (Latest.ofList existing) new

def merge (existing new : List Text) : List Text :=
  existing ++ (mergeFates existing new).filterMap Fate.addition?

/-! ## Small laws -/

theorem additions_sublist (new : List Text) : ∀ there latest,
    ((fates there latest new).filterMap Fate.addition?).Sublist new := by
  induction new with
  | nil => intro there latest; simp [fates]
  | cons cls rest ih =>
    intro there latest
    unfold fates
    split
    · rw [List.filterMap_cons_none rfl]; exact (ih there latest).cons cls
    · split
      · split
        · rw [List.filterMap_cons_none rfl]; exact (ih there latest).cons cls
        · simp only [List.filterMap_cons, Fate.addition?]; exact (ih _ _).cons_cons cls
      · simp only [List.filterMap_cons, Fate.addition?]; exact (ih _ _).cons_cons cls

/-- Merging appends a part of the new classes, in order, to the classes that are there. -/
theorem merge_eq_append (existing new : List Text) :
    ∃ additions, additions.Sublist new ∧ merge existing new = existing ++ additions :=
  ⟨_, additions_sublist new existing (Latest.ofList existing), rfl⟩

end UtilityCss.ClassList
