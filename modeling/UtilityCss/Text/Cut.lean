import UtilityCss.Text.Blank
/-
  Cutting a text at a mark, and the tests on its two ends.

  What is proved:
    1. `stripPrefix?_eq_some_iff` : what is left after a prefix, and when.
    2. `breakAt?_eq_some_iff` : a text is broken at the first place of the
       mark, with nothing lost.
    3. `join_cut` : the pieces of a text joined with the mark are the text.
    4. `cut_join`, `not_mem_of_mem_cut` : texts without the mark, joined with
       it, are cut into the same texts, and no piece of a text holds the mark.
-/

namespace UtilityCss.Text

/-- The text after a prefix, if it starts with it. -/
def stripPrefix? : (start t : Text) → Option Text
  | [], t => some t
  | _ :: _, [] => none
  | p :: ps, c :: cs => if p = c then stripPrefix? ps cs else none

/-- The text before and the text after the first place of a mark, if the mark is there. -/
def breakAt? (mark : CodePoint) (t : Text) : Option (Text × Text) :=
  match t.dropWhile (· ≠ mark) with
  | [] => none
  | _ :: after => some (t.takeWhile (· ≠ mark), after)

/-- The pieces of a text between marks, given the reversed characters of a piece already
begun. -/
def cutFrom (mark : CodePoint) (piece : Text) : Text → List Text
  | [] => [piece.reverse]
  | c :: rest =>
    if c = mark then piece.reverse :: cutFrom mark [] rest else cutFrom mark (c :: piece) rest

/-- The pieces of a text between marks, in order: one more than there are marks. -/
def cut (mark : CodePoint) (t : Text) : List Text := cutFrom mark [] t

/-! ## Small laws -/

theorem stripPrefix?_eq_some_iff {start t rest : Text} :
    stripPrefix? start t = some rest ↔ t = start ++ rest := by
  induction start generalizing t with
  | nil => simp [stripPrefix?]
  | cons p ps ih =>
    cases t with
    | nil => simp [stripPrefix?]
    | cons c cs =>
      by_cases h : p = c
      · simp [stripPrefix?, h, ih]
      · simp [stripPrefix?, h, eq_comm]

theorem not_mem_takeWhile_ne (mark : CodePoint) (t : Text) : mark ∉ t.takeWhile (· ≠ mark) := by
  intro h
  have := List.all_takeWhile (p := fun c => decide (c ≠ mark)) (l := t)
  rw [List.all_eq_true] at this
  simpa using this mark h

theorem takeWhile_ne_append (mark : CodePoint) {before : Text} (h : mark ∉ before) (after : Text) :
    (before ++ mark :: after).takeWhile (· ≠ mark) = before := by
  induction before with
  | nil => simp
  | cons c cs ih =>
    simp only [List.mem_cons, not_or] at h
    have hc : c ≠ mark := fun e => h.1 e.symm
    simp only [List.cons_append, List.takeWhile_cons, hc, ne_eq, not_false_eq_true, decide_true,
      if_true]
    rw [ih h.2]

theorem dropWhile_ne_append (mark : CodePoint) {before : Text} (h : mark ∉ before) (after : Text) :
    (before ++ mark :: after).dropWhile (· ≠ mark) = mark :: after := by
  induction before with
  | nil => simp
  | cons c cs ih =>
    simp only [List.mem_cons, not_or] at h
    have hc : c ≠ mark := fun e => h.1 e.symm
    simp only [List.cons_append, List.dropWhile_cons, hc, ne_eq, not_false_eq_true, decide_true,
      if_true]
    rw [ih h.2]

theorem dropWhile_ne_cons {mark d : CodePoint} {t after : Text}
    (h : t.dropWhile (· ≠ mark) = d :: after) :
    d = mark := by
  induction t with
  | nil => simp at h
  | cons e es ih =>
    by_cases he : e = mark
    · simp [he] at h; exact h.1.symm
    · simp only [List.dropWhile_cons, he, ne_eq, not_false_eq_true, decide_true, if_true] at h
      exact ih h

/-- A text is broken at the first place of the mark, with nothing lost. -/
theorem breakAt?_eq_some_iff {mark : CodePoint} {t before after : Text} :
    breakAt? mark t = some (before, after) ↔ t = before ++ mark :: after ∧ mark ∉ before := by
  constructor
  · intro h
    unfold breakAt? at h
    split at h
    · exact absurd h (by simp)
    · next d rest hd =>
      simp only [Option.some.injEq, Prod.mk.injEq] at h
      have split := List.takeWhile_append_dropWhile (p := fun c => decide (c ≠ mark)) (l := t)
      rw [hd, dropWhile_ne_cons hd, h.1, h.2] at split
      exact ⟨split.symm, h.1 ▸ not_mem_takeWhile_ne mark t⟩
  · rintro ⟨rfl, hb⟩
    unfold breakAt?
    rw [dropWhile_ne_append mark hb, takeWhile_ne_append mark hb]

theorem cutFrom_nonempty (mark : CodePoint) (t : Text) : ∀ piece, cutFrom mark piece t ≠ [] := by
  induction t with
  | nil => simp [cutFrom]
  | cons c rest ih =>
    intro piece
    by_cases h : c = mark
    · simp [cutFrom, h]
    · simpa [cutFrom, h] using ih (c :: piece)

theorem join_cutFrom (mark : CodePoint) (t : Text) :
    ∀ piece, joinWith [mark] (cutFrom mark piece t) = piece.reverse ++ t := by
  induction t with
  | nil => simp [cutFrom, joinWith]
  | cons c rest ih =>
    intro piece
    by_cases h : c = mark
    · simp only [cutFrom, h, if_true]
      obtain ⟨p, ps, hp⟩ := List.exists_cons_of_ne_nil (cutFrom_nonempty mark rest [])
      have := ih []
      rw [hp] at this ⊢
      simp [joinWith, this]
    · simp [cutFrom, h, ih]

/-- The pieces of a text joined with the mark are the text. -/
theorem join_cut (mark : CodePoint) (t : Text) : joinWith [mark] (cut mark t) = t :=
  join_cutFrom mark t []

theorem cutFrom_of_not_mem {mark : CodePoint} {t : Text} (h : mark ∉ t) (piece : Text) :
    cutFrom mark piece t = [piece.reverse ++ t] := by
  induction t generalizing piece with
  | nil => simp [cutFrom]
  | cons c rest ih =>
    rw [List.mem_cons, not_or] at h
    have hc : c ≠ mark := fun e => h.1 e.symm
    simp [cutFrom, hc, ih h.2]

theorem cutFrom_append_mark {mark : CodePoint} {t : Text} (h : mark ∉ t) (piece rest : Text) :
    cutFrom mark piece (t ++ mark :: rest) = (piece.reverse ++ t) :: cut mark rest := by
  induction t generalizing piece with
  | nil => simp [cutFrom, cut]
  | cons c more ih =>
    rw [List.mem_cons, not_or] at h
    have hc : c ≠ mark := fun e => h.1 e.symm
    simp [cutFrom, hc, ih h.2]

/-- Texts without the mark, joined with it, are cut into the same texts. -/
theorem cut_join {mark : CodePoint} {pieces : List Text} (hne : pieces ≠ [])
    (h : ∀ piece ∈ pieces, mark ∉ piece) : cut mark (joinWith [mark] pieces) = pieces := by
  induction pieces with
  | nil => exact absurd rfl hne
  | cons piece more ih =>
    rw [List.forall_mem_cons] at h
    cases more with
    | nil => exact cutFrom_of_not_mem h.1 []
    | cons next more =>
      rw [joinWith, cut, List.append_assoc, List.singleton_append, cutFrom_append_mark h.1,
        ih (by simp) h.2]
      · rfl
      · simp

theorem not_mem_of_mem_cutFrom {mark : CodePoint} (t : Text) : ∀ {piece : Text}, mark ∉ piece →
    ∀ p ∈ cutFrom mark piece t, mark ∉ p := by
  induction t with
  | nil =>
    intro piece h p hp
    rw [cutFrom, List.mem_singleton] at hp
    rwa [hp, List.mem_reverse]
  | cons c rest ih =>
    intro piece h p hp
    by_cases hc : c = mark
    · rw [cutFrom, if_pos hc] at hp
      rcases List.mem_cons.1 hp with rfl | hp
      · rwa [List.mem_reverse]
      · exact ih (by simp) p hp
    · rw [cutFrom, if_neg hc] at hp
      refine ih ?_ p hp
      rw [List.mem_cons, not_or]
      exact ⟨fun e => hc e.symm, h⟩

/-- No piece of a text holds the mark. -/
theorem not_mem_of_mem_cut {mark : CodePoint} {t piece : Text} (h : piece ∈ cut mark t) :
    mark ∉ piece :=
  not_mem_of_mem_cutFrom t (by simp) piece h

end UtilityCss.Text
