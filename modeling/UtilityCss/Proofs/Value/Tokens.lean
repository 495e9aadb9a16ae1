import UtilityCss.Value
/-
  The tokens of a value.

  Literal text has its words for tokens: a piece of a literal is flushed where
  a word is, and between two pieces of one literal there is a gap.

  What is proved:
    1. `mem_of_mem_words` : the words of a text are made of its characters.
    2. `tokens_ofLiteral` : the tokens of literal text are its words.
-/

namespace UtilityCss

namespace Text

theorem mem_of_mem_wordsFrom {t : Text} : ∀ {current w : Text}, w ∈ wordsFrom current t →
    ∀ c ∈ w, c ∈ current ∨ c ∈ t := by
  induction t with
  | nil =>
    intro current w hw c hc
    cases current with
    | nil => cases hw
    | cons d ds =>
      have hword : w = (d :: ds).reverse := List.mem_singleton.1 hw
      rw [hword, List.mem_reverse] at hc
      exact Or.inl hc
  | cons d rest ih =>
    intro current w hw c hc
    by_cases hd : isBlank d = true
    · rw [wordsFrom, if_pos hd] at hw
      -- Behind a blank the word begins anew, so none of its characters is older.
      have hnew : w ∈ wordsFrom [] rest → c ∈ d :: rest := by
        intro hw
        rcases ih hw c hc with h | h
        · cases h
        · exact List.mem_cons_of_mem d h
      split at hw
      · exact Or.inr (hnew hw)
      · rcases List.mem_cons.1 hw with rfl | hw
        · exact Or.inl (List.mem_reverse.1 hc)
        · exact Or.inr (hnew hw)
    · rw [wordsFrom, if_neg hd] at hw
      rcases ih hw c hc with h | h
      · rcases List.mem_cons.1 h with rfl | h
        · exact Or.inr List.mem_cons_self
        · exact Or.inl h
      · exact Or.inr (List.mem_cons_of_mem d h)

/-- The words of a text are made of its characters. -/
theorem mem_of_mem_words {t w : Text} (hw : w ∈ words t) {c : CodePoint} (hc : c ∈ w) : c ∈ t :=
  (mem_of_mem_wordsFrom hw c hc).resolve_left (by simp)

end Text

namespace Value

theorem tokensFrom_literalPieces (t : Text) : ∀ run,
    tokensFrom [] (literalPieces run t) = (Text.wordsFrom run t).map ofLiteral := by
  induction t with
  | nil =>
    intro run
    cases run <;> rfl
  | cons c rest ih =>
    intro run
    by_cases hc : Text.isBlank c = true
    · rw [literalPieces, if_pos hc, Text.wordsFrom, if_pos hc]
      cases run with
      | nil => exact ih []
      | cons d ds =>
        show ofLiteral (d :: ds).reverse :: tokensFrom [] (literalPieces [] rest) = _
        rw [ih]
        rfl
    · rw [literalPieces, if_neg hc, Text.wordsFrom, if_neg hc]
      exact ih (c :: run)

/-- The tokens of literal text are its words. -/
theorem tokens_ofLiteral (t : Text) : (ofLiteral t).tokens = (Text.words t).map ofLiteral := by
  have hpieces : (ofLiteral t).segments.flatMap pieces = literalPieces [] t := by
    simp [ofLiteral, pieces]
  rw [tokens, hpieces]
  exact tokensFrom_literalPieces t []

theorem entry?_ofLiteral (t : Text) : entry? (ofLiteral t) = none := by
  unfold entry? ofLiteral
  by_cases h : (Segment.literal t).isBlank = true <;> simp [h]

end Value

end UtilityCss
