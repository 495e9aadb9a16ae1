import UtilityCss.Declaration
import UtilityCss.Proofs.Classification.Exclusion
import UtilityCss.Utility
/-
  Classes with a value in brackets.

  A value without brackets of its own is passed over in one piece when a class
  is taken apart at its colons: the depth stays what it is until the closing
  bracket. So a class that opens with a plain name and ends with such a value
  in brackets has no variant, whatever colons the value holds, and its
  category is that of the test which its name passes.

  What is proved:
    1. `splitFrom_append` : text without brackets is read in one piece, at a
       depth where its colons do not count.
    2. `utilityOf_enclosed` : a class with a value in brackets is its own
       utility.
    3. `categoryOf_bracketed`, `categoryOf_arbitrary` : its category.
-/

namespace UtilityCss

/-- Text that holds no bracket. -/
def Unbracketed (t : Text) : Prop := ∀ c ∈ t, c ≠ .char '[' ∧ c ≠ .char ']'

instance (t : Text) : Decidable (Unbracketed t) :=
  inferInstanceAs (Decidable (∀ c ∈ t, c ≠ .char '[' ∧ c ≠ .char ']'))

theorem unbracketed_append {s t : Text} : Unbracketed (s ++ t) ↔ Unbracketed s ∧ Unbracketed t :=
  List.forall_mem_append

theorem Unbracketed.subset {s t : Text} (h : Unbracketed t) (hsub : s ⊆ t) : Unbracketed s :=
  fun c hc => h c (hsub hc)

/-! ## Taking a class apart -/

namespace Variants

theorem splitFrom_append (depth : Nat) {t : Text} (hplain : Unbracketed t)
    (hcolon : .char ':' ∈ t → depth ≠ 0) (piece rest : Text) :
    splitFrom depth piece (t ++ rest) = splitFrom depth (t.reverse ++ piece) rest := by
  induction t generalizing piece with
  | nil => rfl
  | cons c t ih =>
    have hmark : ¬ (c = .char ':' ∧ depth = 0) := by
      rintro ⟨rfl, hzero⟩
      exact hcolon (by simp) hzero
    have hdepth : depthAfter depth c = depth := by
      have hc := hplain c (by simp)
      simp [depthAfter, hc.1, hc.2]
    have hrest : Unbracketed t := hplain.subset (List.subset_cons_self c t)
    rw [List.cons_append, splitFrom, if_neg hmark, hdepth,
      ih hrest (fun h => hcolon (List.mem_cons_of_mem c h))]
    simp

end Variants

/-- A name and a value in brackets behind it. -/
def enclosed (name value : Text) : Text := name ++ .char '[' :: (value ++ [.char ']'])

theorem utilityOf_plain {t : Text} (hplain : Unbracketed t) (hcolon : .char ':' ∉ t) :
    utilityOf t = t := by
  have hread := Variants.splitFrom_append 0 hplain (fun h => absurd h hcolon) [] []
  rw [List.append_nil] at hread
  rw [utilityOf, Variants.split, hread]
  simp [Variants.splitFrom]

/-- The colons of a value in brackets part nothing. -/
theorem utilityOf_enclosed {name value : Text} (hname : Unbracketed name) (hcolon : .char ':' ∉ name)
    (hvalue : Unbracketed value) : utilityOf (enclosed name value) = enclosed name value := by
  have hfront := Variants.splitFrom_append 0 hname (fun h => absurd h hcolon) []
    (.char '[' :: (value ++ [.char ']']))
  have hopen : Variants.splitFrom 0 (name.reverse ++ []) (.char '[' :: (value ++ [.char ']'])) =
      Variants.splitFrom 1 (.char '[' :: (name.reverse ++ [])) (value ++ [.char ']']) := rfl
  have hinner := Variants.splitFrom_append 1 hvalue (fun _ => Nat.one_ne_zero)
    (.char '[' :: (name.reverse ++ [])) [.char ']']
  rw [utilityOf, Variants.split, enclosed, hfront, hopen, hinner]
  simp [Variants.splitFrom]

/-- A class has no mark to lose unless it opens with one. -/
theorem bareUtility_of_head {t : Text} (hmark : t.head? ≠ some (.char '!'))
    (hminus : t.head? ≠ some (.char '-')) : bareUtility t = t := by
  cases t with
  | nil => rfl
  | cons c rest =>
    have hc : c ≠ .char '!' := fun e => hmark (e ▸ rfl)
    have hc' : c ≠ .char '-' := fun e => hminus (e ▸ rfl)
    simp [bareUtility, hc, hc', Text.withoutMinus]

/-! ## Names -/

/-- A name of letters and hyphens that does not open with a hyphen. -/
def IsStem (stem : Text) : Prop :=
  (∀ c ∈ stem, Declaration.isNameChar c = true) ∧ stem ≠ [] ∧ stem.head? ≠ some (.char '-')

instance (stem : Text) : Decidable (IsStem stem) :=
  inferInstanceAs (Decidable ((∀ c ∈ stem, Declaration.isNameChar c = true) ∧
    stem ≠ [] ∧ stem.head? ≠ some (.char '-')))

theorem not_mem_name {name : Text} (h : ∀ c ∈ name, Declaration.isNameChar c = true) {c : CodePoint}
    (hc : Declaration.isNameChar c = false) : c ∉ name := by
  intro hmem
  rw [h c hmem] at hc
  cases hc

theorem unbracketed_name {name : Text} (h : ∀ c ∈ name, Declaration.isNameChar c = true) :
    Unbracketed name := by
  intro c hc
  constructor
  · rintro rfl
    exact not_mem_name h (by decide) hc
  · rintro rfl
    exact not_mem_name h (by decide) hc

theorem bracketed_eq (stem value : Text) :
    bracketed stem value = enclosed (stem ++ [.char '-']) value := by
  have hopen : Text.of "-[" = [.char '-', .char '['] := rfl
  have hclose : Text.of "]" = [.char ']'] := rfl
  simp [bracketed, enclosed, hopen, hclose]

theorem arbitrary_eq (property value : Text) :
    arbitrary property value = enclosed [] (property ++ .char ':' :: value) := by
  have hopen : Text.of "[" = [.char '['] := rfl
  have hcolon : Text.of ":" = [.char ':'] := rfl
  have hclose : Text.of "]" = [.char ']'] := rfl
  simp [arbitrary, enclosed, hopen, hcolon, hclose]

theorem bare_bracketed {stem value : Text} (hstem : IsStem stem) (hvalue : Unbracketed value) :
    bareUtility (utilityOf (bracketed stem value)) = bracketed stem value := by
  obtain ⟨hname, hne, hminus⟩ := hstem
  have hchars : ∀ c ∈ stem ++ [.char '-'], Declaration.isNameChar c = true := by
    intro c hc
    rcases List.mem_append.1 hc with hc | hc
    · exact hname c hc
    · rw [List.mem_singleton.1 hc]
      rfl
  rw [bracketed_eq, utilityOf_enclosed (unbracketed_name hchars) (not_mem_name hchars (by decide))
    hvalue]
  obtain ⟨first, tail, rfl⟩ := List.exists_cons_of_ne_nil hne
  have hmark : CodePoint.char '!' ∉ first :: tail := not_mem_name hname (by decide)
  apply bareUtility_of_head
  · intro hfirst
    exact hmark (Option.some.inj hfirst ▸ List.mem_cons_self)
  · exact hminus

/-! ## Categories -/

/-- The category of a class with a value in brackets is that of the test its name passes. -/
theorem categoryOf_bracketed {stem value : Text} (hstem : IsStem stem) (hvalue : Unbracketed value)
    {test : Test} (hmem : test ∈ Test.ofUtility)
    (hpasses : test.passes (bracketed stem value) = true) :
    categoryOf (bracketed stem value) = test.category (bracketed stem value) :=
  categoryOf_of_passes (bare_bracketed hstem hvalue) hmem hpasses

theorem Test.bracketedInner?_enclosed (value : Text) :
    Test.bracketedInner? (enclosed [] value) = some value := by
  rw [enclosed, List.nil_append]
  have hlast : (CodePoint.char '[' :: (value ++ [.char ']'])).getLast? = some (.char ']') := by
    rw [← List.cons_append, List.getLast?_concat]
  rw [Test.bracketedInner?, if_pos ⟨rfl, hlast⟩]
  simp

/-- A class that names the property itself has the category of the property. -/
theorem categoryOf_arbitrary {property value : Text}
    (hname : ∀ c ∈ property, Declaration.isNameChar c = true) (hvalue : Unbracketed value) :
    categoryOf (arbitrary property value) = Test.categoryOfProperty property := by
  have hcolon : CodePoint.char ':' ∉ property := not_mem_name hname (by decide)
  have hinner : Unbracketed (property ++ .char ':' :: value) := by
    apply unbracketed_append.2
    refine ⟨unbracketed_name hname, ?_⟩
    intro c hc
    rcases List.mem_cons.1 hc with rfl | hc
    · decide
    · exact hvalue c hc
  have hbare : bareUtility (utilityOf (enclosed [] (property ++ .char ':' :: value))) =
      enclosed [] (property ++ .char ':' :: value) := by
    rw [utilityOf_enclosed (by decide) (by decide) hinner]
    exact bareUtility_of_head (by simp [enclosed]) (by simp [enclosed])
  have hbreak : Text.breakAt? (.char ':') (property ++ .char ':' :: value) = some (property, value) :=
    Text.breakAt?_eq_some_iff.2 ⟨rfl, hcolon⟩
  have hsome := Test.bracketedInner?_enclosed (property ++ .char ':' :: value)
  rw [arbitrary_eq]
  have hmem : (⟨fun t => (Test.bracketedInner? t).isSome, Test.categoryOfBracketed⟩ : Test) ∈
      Test.ofUtility := List.mem_cons_self
  rw [categoryOf_of_passes hbare hmem (by simp [hsome])]
  simp [Test.categoryOfBracketed, hsome, hbreak]

end UtilityCss
