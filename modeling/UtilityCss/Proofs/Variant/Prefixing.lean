import UtilityCss.Proofs.Classification.Bracketed
/-
  Variants and marks put before a class leave it the class that it is.

  Taking a class apart is a scan that remembers the depth of brackets and the
  piece it is in. At a colon at depth zero it stands as it stood at its start,
  so such a colon cuts the text in two that are taken apart each by itself. A
  variant that closes its brackets ends with such a colon, whatever class comes
  behind it, and whatever brackets that class opens or fails to close.

  What is proved:
    1. `split_append_colon` : the pieces on both sides of a colon at depth
       zero are those of the two sides.
    2. `whole_iff` : a class has no variant exactly when none of its colons is
       at depth zero.
    3. `prefixing_keeps_class` : a class behind variants, or behind the marks
       of importance and a minus sign, keeps its utility and its category.
-/

namespace UtilityCss

namespace Variants

/-- The depth of brackets at the end of a text that begins at the given depth. -/
def depthFrom (depth : Nat) (t : Text) : Nat := t.foldl depthAfter depth

/-- Whether a text closes all brackets that it opens. -/
def Closed (t : Text) : Prop := depthFrom 0 t = 0

instance (t : Text) : Decidable (Closed t) := inferInstanceAs (Decidable (depthFrom 0 t = 0))

/-- Whether no colon of a text is at depth zero, so that none parts it. -/
def Whole (t : Text) : Prop := ∀ front back, t = front ++ .char ':' :: back → ¬ Closed front

theorem depthFrom_cons (depth : Nat) (c : CodePoint) (t : Text) :
    depthFrom depth (c :: t) = depthFrom (depthAfter depth c) t := rfl

theorem depthFrom_append (depth : Nat) (s t : Text) :
    depthFrom depth (s ++ t) = depthFrom (depthFrom depth s) t := List.foldl_append

/-- Colons leave the depth as it is. -/
theorem depthFrom_colons (depth : Nat) {t : Text} (h : ∀ c ∈ t, c = .char ':') :
    depthFrom depth t = depth := by
  induction t with
  | nil => rfl
  | cons c t ih =>
    have hc : depthAfter depth c = depth := by
      rw [h c List.mem_cons_self]
      rfl
    rw [depthFrom_cons, hc, ih (fun d hd => h d (List.mem_cons_of_mem c hd))]

/-! ## The two sides of a colon -/

theorem splitFrom_append_colon (t rest : Text) (depth : Nat) (piece : Text)
    (h : depthFrom depth t = 0) :
    splitFrom depth piece (t ++ .char ':' :: rest) =
      ⟨(splitFrom depth piece t).variants ++ (splitFrom depth piece t).utility :: (split rest).variants,
        (split rest).utility⟩ := by
  induction t generalizing depth piece with
  | nil =>
    have hzero : depth = 0 := h
    subst hzero
    simp [splitFrom, split]
  | cons c t ih =>
    rw [depthFrom_cons] at h
    by_cases hmark : c = .char ':' ∧ depth = 0
    · obtain ⟨rfl, rfl⟩ := hmark
      simp [splitFrom, ih 0 [] h]
    · simp [splitFrom, hmark, ih _ _ h]

/-- The pieces on both sides of a colon at depth zero are those of the two sides. -/
theorem split_append_colon {t : Text} (h : Closed t) (rest : Text) :
    split (t ++ .char ':' :: rest) =
      ⟨(split t).variants ++ (split t).utility :: (split rest).variants, (split rest).utility⟩ :=
  splitFrom_append_colon t rest 0 [] h

/-! ## Classes without variants -/

theorem variants_nil_iff (t : Text) (depth : Nat) (piece : Text) :
    (splitFrom depth piece t).variants = [] ↔
      ∀ front back, t = front ++ .char ':' :: back → depthFrom depth front ≠ 0 := by
  induction t generalizing depth piece with
  | nil => simp [splitFrom]
  | cons c t ih =>
    by_cases hmark : c = .char ':' ∧ depth = 0
    · -- The first character parts the text already.
      obtain ⟨rfl, rfl⟩ := hmark
      simp only [splitFrom, and_self, if_true, reduceCtorEq, false_iff]
      exact fun h => h [] t rfl rfl
    · rw [splitFrom, if_neg hmark, ih]
      constructor
      · intro h front back he
        cases front with
        | nil =>
          obtain ⟨rfl, -⟩ := List.cons.inj he
          exact fun hzero => hmark ⟨rfl, hzero⟩
        | cons d front =>
          obtain ⟨rfl, htail⟩ := List.cons.inj he
          exact h front back htail
      · intro h front back he
        exact h (c :: front) back (by rw [he]; rfl)

/-- A class has no variant exactly when none of its colons is at depth zero. -/
theorem whole_iff {t : Text} : Whole t ↔ hasVariant t = false := by
  have h := variants_nil_iff t 0 []
  rw [hasVariant, Bool.not_eq_false', List.isEmpty_iff]
  exact h.symm

theorem Whole.utilityOf_eq {t : Text} (h : Whole t) : utilityOf t = t :=
  utilityOf_of_not_hasVariant (whole_iff.1 h)

/-- Text without brackets and colons before a class brings in no place where it is parted. -/
theorem Whole.append {marks t : Text} (h : Whole t) (hplain : Unbracketed marks)
    (hcolon : .char ':' ∉ marks) : Whole (marks ++ t) := by
  rw [whole_iff, hasVariant, Bool.not_eq_false', List.isEmpty_iff, split,
    splitFrom_append 0 hplain (fun hmem => absurd hmem hcolon)]
  exact (variants_nil_iff t 0 _).2 h

theorem Whole.replicate_append {t : Text} (h : Whole t) (n : Nat) {c : CodePoint}
    (hbracket : c ≠ .char '[' ∧ c ≠ .char ']') (hcolon : c ≠ .char ':') :
    Whole (List.replicate n c ++ t) := by
  refine h.append ?_ ?_
  · intro d hd
    rw [List.eq_of_mem_replicate hd]
    exact hbracket
  · intro hmem
    exact hcolon (List.eq_of_mem_replicate hmem).symm

end Variants

open Variants

/-! ## Variants before a class -/

theorem withColon_eq (variant : Text) :
    withColon variant = (withColon variant).dropLast ++ [.char ':'] := by
  rw [withColon, List.dropLast_concat]

/-- A variant that closes its brackets still does when the colons at its end are taken off. -/
theorem closed_dropLast_withColon {variant : Text} (h : Closed variant) :
    Closed (withColon variant).dropLast := by
  rw [withColon, List.dropLast_concat]
  have hparts : (variant.reverse.dropWhile (· = .char ':')).reverse ++
      (variant.reverse.takeWhile (· = .char ':')).reverse = variant := by
    rw [← List.reverse_append, List.takeWhile_append_dropWhile, List.reverse_reverse]
  have hcolons : ∀ c ∈ (variant.reverse.takeWhile (· = .char ':')).reverse, c = .char ':' := by
    intro c hc
    simpa using List.all_eq_true.1 List.all_takeWhile c (List.mem_reverse.1 hc)
  rwa [← hparts, Closed, depthFrom_append, depthFrom_colons _ hcolons] at h

theorem split_withColon {variant : Text} (h : Closed variant) (cls : Text) :
    split (withColon variant ++ cls) =
      ⟨(split (withColon variant).dropLast).variants ++
          (split (withColon variant).dropLast).utility :: (split cls).variants,
        (split cls).utility⟩ := by
  rw [← split_append_colon (closed_dropLast_withColon h) cls, withColon_eq variant]
  simp

theorem variantsOf_ne_nil {text : Text} (h : Text.allBlank text = false) : variantsOf text ≠ [] := by
  intro hnil
  rw [variantsOf, List.map_eq_nil_iff, Text.words_nil_iff, h] at hnil
  cases hnil

theorem applyVariants_singleton (cls : Text) {text : Text} (h : variantsOf text ≠ []) :
    applyVariants [cls] text = (variantsOf text).map (· ++ cls) := by
  unfold applyVariants
  cases hvariants : variantsOf text with
  | nil => exact absurd hvariants h
  | cons first rest => simp

theorem categoryOf_eq_of_utilityOf_eq {a b : Text} (h : utilityOf a = utilityOf b) :
    categoryOf a = categoryOf b := by
  rw [categoryOf, categoryOf, h]

/-! ## Marks before a utility -/

theorem bareUtility_marks (marks : Nat) (t : Text) :
    bareUtility (List.replicate marks (.char '!') ++ t) = bareUtility t := by
  have hmarks : ∀ c ∈ List.replicate marks (CodePoint.char '!'), decide (c = .char '!') = true := by
    intro c hc
    simp [List.eq_of_mem_replicate hc]
  rw [bareUtility, List.dropWhile_append_of_pos hmarks, bareUtility]

theorem bareUtility_minus (t : Text) : bareUtility (.char '-' :: t) = t := rfl

theorem bareUtility_marked {t : Text} (hmark : t.head? ≠ some (.char '!'))
    (hminus : t.head? ≠ some (.char '-')) (marks : Nat) {minus : Nat} (hone : minus ≤ 1) :
    bareUtility (List.replicate marks (.char '!') ++ (List.replicate minus (.char '-') ++ t)) =
      bareUtility t := by
  have hzero_or_one : minus = 0 ∨ minus = 1 := by omega
  rw [bareUtility_marks]
  rcases hzero_or_one with rfl | rfl
  · rfl
  · exact (bareUtility_minus t).trans (bareUtility_of_head hmark hminus).symm

theorem utilityOf_marked {t : Text} (h : Whole t) (marks minus : Nat) :
    utilityOf (List.replicate marks (.char '!') ++ (List.replicate minus (.char '-') ++ t)) =
      List.replicate marks (.char '!') ++ (List.replicate minus (.char '-') ++ t) := by
  have hminus : Whole (List.replicate minus (.char '-') ++ t) :=
    h.replicate_append minus (by decide) (by decide)
  have hmarks : Whole (List.replicate marks (.char '!') ++ (List.replicate minus (.char '-') ++ t)) :=
    hminus.replicate_append marks (by decide) (by decide)
  exact hmarks.utilityOf_eq

/-- A class behind the variants of a text keeps its utility and its category, and it is taken
apart into the pieces of the variant and its own. A utility keeps its category behind any number
of marks of importance and at most one minus sign. -/
theorem prefixing_keeps_class (cls : Text) :
    (∀ text, Text.allBlank text = false → (∀ word ∈ Text.words text, Closed word) →
      variantsOf text ≠ [] ∧ applyVariants [cls] text = (variantsOf text).map (· ++ cls) ∧
      ∀ variant ∈ variantsOf text,
        hasVariant (variant ++ cls) = true ∧ utilityOf (variant ++ cls) = utilityOf cls ∧
        categoryOf (variant ++ cls) = categoryOf cls ∧
        ∃ body, variant = body ++ [.char ':'] ∧
          split (variant ++ cls) =
            ⟨(split body).variants ++ (split body).utility :: (split cls).variants,
              (split cls).utility⟩) ∧
    (Whole cls → cls.head? ≠ some (.char '!') → cls.head? ≠ some (.char '-') →
      ∀ marks minus : Nat, minus ≤ 1 →
        categoryOf (List.replicate marks (.char '!') ++ (List.replicate minus (.char '-') ++ cls)) =
          categoryOf cls) := by
  constructor
  · intro text hblank hclosed
    have hne := variantsOf_ne_nil hblank
    refine ⟨hne, applyVariants_singleton cls hne, ?_⟩
    intro variant hvariant
    obtain ⟨word, hword, rfl⟩ := List.mem_map.1 hvariant
    have hsplit := split_withColon (hclosed word hword) cls
    have hutility : utilityOf (withColon word ++ cls) = utilityOf cls := by
      rw [utilityOf, hsplit, utilityOf]
    refine ⟨?_, hutility, categoryOf_eq_of_utilityOf_eq hutility, _, withColon_eq word, hsplit⟩
    simp [hasVariant, hsplit]
  · intro hwhole hmark hminus marks minus hone
    rw [categoryOf, categoryOf, utilityOf_marked hwhole, hwhole.utilityOf_eq,
      bareUtility_marked hmark hminus marks hone]

/-- A variant with brackets and colons of its own, before a class with brackets and a colon. -/
theorem open_state_keeps_length :
    let cls : Text := "text-[length:2px]"
    let text : Text := "[&:hover]:: data-[state=open]"
    (Text.allBlank text = false ∧ (∀ word ∈ Text.words text, Closed word) ∧ Whole cls ∧
      cls.head? ≠ some (.char '!') ∧ cls.head? ≠ some (.char '-')) ∧
    categoryOf ("data-[state=open]:" ++ cls) = categoryOf cls ∧
    categoryOf ("!!-" ++ cls) = categoryOf cls := by
  intro cls text
  have hblank : Text.allBlank text = false := by decide
  have hclosed : ∀ word ∈ Text.words text, Closed word := by decide
  have hwhole : Whole cls := whole_iff.2 (by decide)
  have hmark : cls.head? ≠ some (.char '!') := by decide
  have hminus : cls.head? ≠ some (.char '-') := by decide
  obtain ⟨hvariants, hmarks⟩ := prefixing_keeps_class cls
  obtain ⟨-, -, heach⟩ := hvariants text hblank hclosed
  refine ⟨⟨hblank, hclosed, hwhole, hmark, hminus⟩, ?_, ?_⟩
  · exact (heach "data-[state=open]:" (by decide)).2.2.1
  · exact hmarks hwhole hmark hminus 2 1 (Nat.le_refl 1)

end UtilityCss
