import UtilityCss.Text.CodePoint
/-
  Blank characters, and what is cut at them.

  Blank is the set of white space characters of Unicode, together
  with the four separators U+001C to U+001F.

  What is proved:
    1. `trim_blank_iff` : trimming leaves nothing exactly when every
       character is blank.
    2. `words_nonempty`, `words_solid` : no word is empty, and no word holds a
       blank character.
    3. `words_nil_iff` : a text has no word exactly when it is blank.
    4. `dropWhile_run`, `takeWhile_run` : a run at the start of a text.
    5. `trim_of_solid_ends`, `trim_trim` : trimming does nothing to a text
       without a blank at either end, and leaves such a text.
-/

namespace UtilityCss.Text

/-- Whether a character separates words. -/
def isBlank (c : CodePoint) : Bool :=
  let n := c.toNat
  (9 ≤ n && n ≤ 13) || (28 ≤ n && n ≤ 32) || n == 0x85 || n == 0xA0 || n == 0x1680 ||
    (0x2000 ≤ n && n ≤ 0x200A) || n == 0x2028 || n == 0x2029 || n == 0x202F || n == 0x205F ||
    n == 0x3000

/-- Whether a text has no character that is not blank. -/
def allBlank (t : Text) : Bool := t.all isBlank

def trimStart (t : Text) : Text := t.dropWhile isBlank

def trimEnd (t : Text) : Text := (t.reverse.dropWhile isBlank).reverse

/-- The text without the blank characters at either end. -/
def trim (t : Text) : Text := trimEnd (trimStart t)

/-- The word read so far (its characters in reverse), if there is one. -/
def flushWord (current : Text) : List Text :=
  if current.isEmpty then [] else [current.reverse]

/-- The words of a text, given the reversed characters of a word already begun. -/
def wordsFrom (current : Text) : Text → List Text
  | [] => flushWord current
  | c :: rest =>
    if isBlank c then
      if current.isEmpty then wordsFrom [] rest else current.reverse :: wordsFrom [] rest
    else wordsFrom (c :: current) rest

/-- The longest pieces of a text that hold no blank character, in order. -/
def words (t : Text) : List Text := wordsFrom [] t

/-- Texts one after the other, with a separator between neighbours. -/
def joinWith (separator : Text) : List Text → Text
  | [] => []
  | [t] => t
  | t :: rest => t ++ separator ++ joinWith separator rest

/-! ## Small laws -/

theorem dropWhile_isBlank_nil (t : Text) : t.dropWhile isBlank = [] ↔ ∀ c ∈ t, isBlank c = true := by
  induction t with
  | nil => simp
  | cons c rest ih => by_cases h : isBlank c = true <;> simp [h, ih]

theorem trimEnd_nil (t : Text) : trimEnd t = [] ↔ ∀ c ∈ t, isBlank c = true := by
  rw [trimEnd, List.reverse_eq_nil_iff, dropWhile_isBlank_nil]
  simp only [List.mem_reverse]

/-- Trimming leaves nothing exactly when every character is blank. -/
theorem trim_blank_iff (t : Text) : trim t = [] ↔ ∀ c ∈ t, isBlank c = true := by
  rw [trim, trimEnd_nil, trimStart]
  constructor
  · intro h
    induction t with
    | nil => simp
    | cons c rest ih =>
      by_cases hc : isBlank c = true
      · simp only [List.dropWhile_cons, hc, if_true] at h
        simpa [hc] using ih h
      · simp only [List.dropWhile_cons, hc] at h
        exact absurd (h c (by simp)) hc
  · intro h c hc
    exact h c ((List.dropWhile_sublist isBlank).subset hc)

theorem wordsFrom_nonempty (t : Text) : ∀ current, ∀ w ∈ wordsFrom current t, w ≠ [] := by
  induction t with
  | nil =>
    intro current w hw
    cases current <;> simp [wordsFrom, flushWord] at hw
    simp [hw]
  | cons c rest ih =>
    intro current w hw
    by_cases hc : isBlank c = true
    · cases current with
      | nil => simp only [wordsFrom, hc, List.isEmpty_nil, if_true] at hw; exact ih [] w hw
      | cons d ds =>
        simp only [wordsFrom, hc, List.isEmpty_cons, if_true, Bool.false_eq_true, if_false,
          List.mem_cons] at hw
        rcases hw with rfl | hw
        · simp
        · exact ih [] w hw
    · simp only [wordsFrom, hc, Bool.false_eq_true, if_false] at hw
      exact ih _ w hw

/-- No word of a text is empty. -/
theorem words_nonempty (t : Text) : ∀ w ∈ words t, w ≠ [] := wordsFrom_nonempty t []

theorem wordsFrom_nil_iff (t : Text) :
    ∀ current, wordsFrom current t = [] ↔ current = [] ∧ allBlank t = true := by
  induction t with
  | nil => intro current; cases current <;> simp [wordsFrom, flushWord, allBlank]
  | cons c rest ih =>
    intro current
    by_cases hc : isBlank c = true
    · cases current with
      | nil => simpa [wordsFrom, hc, allBlank] using ih []
      | cons d ds => simp [wordsFrom, hc]
    · simp [wordsFrom, hc, ih, allBlank]

/-- A text has no word exactly when all its characters are blank. -/
theorem words_nil_iff (t : Text) : words t = [] ↔ allBlank t = true := by
  simp [words, wordsFrom_nil_iff]

theorem wordsFrom_solid (t : Text) : ∀ current, (∀ c ∈ current, isBlank c = false) →
    ∀ w ∈ wordsFrom current t, ∀ c ∈ w, isBlank c = false := by
  induction t with
  | nil =>
    intro current hcur w hw
    by_cases he : current.isEmpty = true
    · simp [wordsFrom, flushWord, he] at hw
    · simp only [wordsFrom, flushWord, he, Bool.false_eq_true, if_false, List.mem_singleton] at hw
      simpa [hw] using hcur
  | cons d rest ih =>
    intro current hcur w hw
    by_cases hd : isBlank d = true
    · by_cases he : current.isEmpty = true
      · simp only [wordsFrom, hd, he, if_true] at hw
        exact ih [] (by simp) w hw
      · simp only [wordsFrom, hd, he, if_true, Bool.false_eq_true, if_false, List.mem_cons] at hw
        rcases hw with rfl | hw
        · simpa using hcur
        · exact ih [] (by simp) w hw
    · simp only [wordsFrom, hd, Bool.false_eq_true, if_false] at hw
      refine ih _ ?_ w hw
      intro c hc
      rcases List.mem_cons.1 hc with rfl | hc
      · simpa using hd
      · exact hcur c hc

/-- No word of a text holds a blank character. -/
theorem words_solid (t : Text) : ∀ w ∈ words t, ∀ c ∈ w, isBlank c = false :=
  wordsFrom_solid t [] (by simp)

/-! ## Runs at the start of a text -/

theorem dropWhile_of_head? {p : CodePoint → Bool} {t : Text} (h : ∀ c ∈ t.head?, p c = false) :
    t.dropWhile p = t := by
  cases t with
  | nil => rfl
  | cons c rest => rw [List.dropWhile_cons_of_neg (by simp [h c rfl])]

theorem head?_dropWhile (p : CodePoint → Bool) (t : Text) :
    ∀ c ∈ (t.dropWhile p).head?, p c = false := by
  intro c hc
  have hnot := List.head?_dropWhile_not p t
  rw [Option.mem_def.1 hc] at hnot
  exact hnot

theorem forall_mem_head?_append {holds : CodePoint → Prop} {s t : Text}
    (hs : ∀ c ∈ s.head?, holds c) (ht : ∀ c ∈ t.head?, holds c) : ∀ c ∈ (s ++ t).head?, holds c := by
  cases s with
  | nil => exact ht
  | cons c s => exact hs

section

variable {p : CodePoint → Bool} {run rest : Text}

/-- What is left behind a run starts where the run ends. -/
theorem dropWhile_run (h : ∀ c ∈ run, p c = true) (hrest : ∀ c ∈ rest.head?, p c = false) :
    (run ++ rest).dropWhile p = rest := by
  rw [List.dropWhile_append_of_pos h, dropWhile_of_head? hrest]

theorem takeWhile_run (h : ∀ c ∈ run, p c = true) (hrest : ∀ c ∈ rest.head?, p c = false) :
    (run ++ rest).takeWhile p = run := by
  rw [List.takeWhile_append_of_pos h]
  cases rest with
  | nil => simp
  | cons c rest => simp [hrest c rfl]

end

/-! ## The ends of a trimmed text -/

/-- A text without a blank at either end is its own trim. -/
theorem trim_of_solid_ends {t : Text} (hfirst : ∀ c ∈ t.head?, isBlank c = false)
    (hlast : ∀ c ∈ t.getLast?, isBlank c = false) : trim t = t := by
  have hreverse : ∀ c ∈ t.reverse.head?, isBlank c = false := by rwa [List.head?_reverse]
  rw [trim, trimStart, dropWhile_of_head? hfirst, trimEnd, dropWhile_of_head? hreverse,
    List.reverse_reverse]

theorem head?_trim (t : Text) : ∀ c ∈ (trim t).head?, isBlank c = false := by
  intro c hc
  -- What is trimmed at the end stands behind the rest, so the first character is still there.
  have hstart : trimStart t = trim t ++ ((trimStart t).reverse.takeWhile isBlank).reverse := by
    rw [trim, trimEnd, ← List.reverse_append, List.takeWhile_append_dropWhile, List.reverse_reverse]
  apply head?_dropWhile isBlank t
  show c ∈ (trimStart t).head?
  rw [hstart, List.head?_append, Option.mem_def.1 hc]
  rfl

theorem getLast?_trim (t : Text) : ∀ c ∈ (trim t).getLast?, isBlank c = false := by
  intro c hc
  rw [trim, trimEnd, List.getLast?_reverse] at hc
  exact head?_dropWhile isBlank _ c hc

/-- Trimming twice is trimming once. -/
theorem trim_trim (t : Text) : trim (trim t) = trim t :=
  trim_of_solid_ends (head?_trim t) (getLast?_trim t)

/-- Blanks before a text are of no matter to its trim. -/
theorem trim_blanks_append {blanks : Text} (h : ∀ c ∈ blanks, isBlank c = true) (t : Text) :
    trim (blanks ++ t) = trim t := by
  rw [trim, trimStart, List.dropWhile_append_of_pos h]
  rfl

end UtilityCss.Text
