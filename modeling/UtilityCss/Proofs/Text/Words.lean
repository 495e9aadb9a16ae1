import UtilityCss.Text.Blank
/-
  The words of texts that are put together.

  A blank parts words whatever stands around it, so the words of a text are
  those before any of its blanks and those behind it. Hence texts joined with
  blanks have the words of each in turn; and a list of words, that is of texts
  that are not empty and hold no blank, is read back from its joined text.

  What is proved:
    1. `words_append_blank` : the words before a blank and behind it.
    2. `words_joinWith` : the words of texts with blanks between them.
    3. `flatMap_words` : words are read back, each as it is.
    4. `mem_joinWith`, `subset_of_mem_joinWith` : the characters of joined
       texts.
-/

namespace UtilityCss.Text

/-- A text that is a word: it has a character and holds no blank. -/
def IsWord (t : Text) : Prop := t ≠ [] ∧ ∀ c ∈ t, isBlank c = false

instance (t : Text) : Decidable t.IsWord := inferInstanceAs (Decidable (_ ∧ _))

theorem isWord_of_mem_words {t w : Text} (h : w ∈ words t) : w.IsWord :=
  ⟨words_nonempty t w h, words_solid t w h⟩

/-! ## Words around a blank -/

theorem wordsFrom_append_blank {c : CodePoint} (hc : isBlank c = true) (s t current : Text) :
    wordsFrom current (s ++ c :: t) = wordsFrom current s ++ words t := by
  induction s generalizing current with
  | nil =>
    cases current with
    | nil => simp [wordsFrom, flushWord, hc, words]
    | cons d rest => simp [wordsFrom, flushWord, hc, words]
  | cons d rest ih =>
    rw [List.cons_append, wordsFrom, wordsFrom]
    by_cases hd : isBlank d = true
    · rw [if_pos hd, if_pos hd]
      split
      · exact ih []
      · rw [ih, List.cons_append]
    · rw [if_neg hd, if_neg hd]
      exact ih (d :: current)

theorem words_append_blank {c : CodePoint} (hc : isBlank c = true) (s t : Text) :
    words (s ++ c :: t) = words s ++ words t := wordsFrom_append_blank hc s t []

/-- Texts joined with a blank have the words of each, in order. -/
theorem words_joinWith {c : CodePoint} (hc : isBlank c = true) (parts : List Text) :
    words (joinWith [c] parts) = parts.flatMap words := by
  induction parts with
  | nil => rfl
  | cons p more ih =>
    cases more with
    | nil => simp [joinWith]
    | cons q more =>
      calc words (joinWith [c] (p :: q :: more))
          = words (p ++ c :: joinWith [c] (q :: more)) := by simp [joinWith]
        _ = words p ++ (q :: more).flatMap words := by rw [words_append_blank hc, ih]

/-- A character of joined texts stands in one of them, or in a separator. -/
theorem mem_joinWith {separator : Text} {parts : List Text} {c : CodePoint}
    (h : c ∈ joinWith separator parts) : c ∈ separator ∨ ∃ part ∈ parts, c ∈ part := by
  induction parts with
  | nil => cases h
  | cons p more ih =>
    cases more with
    | nil => exact Or.inr ⟨p, List.mem_cons_self, h⟩
    | cons q more =>
      rw [joinWith, List.mem_append, List.mem_append] at h
      · rcases h with (h | h) | h
        · exact Or.inr ⟨p, List.mem_cons_self, h⟩
        · exact Or.inl h
        · rcases ih h with h | ⟨part, hpart, h⟩
          · exact Or.inl h
          · exact Or.inr ⟨part, List.mem_cons_of_mem p hpart, h⟩
      · exact List.cons_ne_nil q more

theorem subset_of_mem_joinWith {separator part : Text} {parts : List Text} (h : part ∈ parts) :
    part ⊆ joinWith separator parts := by
  induction parts with
  | nil => cases h
  | cons p more ih =>
    cases more with
    | nil =>
      rw [List.mem_singleton.1 h]
      exact List.Subset.refl p
    | cons q more =>
      rw [joinWith]
      · rcases List.mem_cons.1 h with rfl | h
        · exact List.subset_append_of_subset_left _ (List.subset_append_left part separator)
        · exact List.subset_append_of_subset_right _ (ih h)
      · exact List.cons_ne_nil q more

/-! ## Words read back -/

theorem wordsFrom_of_solid {t : Text} (h : ∀ c ∈ t, isBlank c = false) (current : Text) :
    wordsFrom current t = flushWord (t.reverse ++ current) := by
  induction t generalizing current with
  | nil => rfl
  | cons c rest ih =>
    rw [List.forall_mem_cons] at h
    rw [wordsFrom, if_neg (by simp [h.1]), ih h.2]
    simp

theorem IsWord.words_eq {w : Text} (h : w.IsWord) : words w = [w] := by
  have hflush := wordsFrom_of_solid h.2 []
  simpa [words, flushWord, h.1] using hflush

theorem flatMap_words {ws : List Text} (h : ∀ w ∈ ws, w.IsWord) : ws.flatMap words = ws := by
  induction ws with
  | nil => rfl
  | cons w rest ih =>
    rw [List.forall_mem_cons] at h
    rw [List.flatMap_cons, h.1.words_eq, ih h.2, List.singleton_append]

end UtilityCss.Text
