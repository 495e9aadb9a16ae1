import UtilityCss.Proofs.Text.Words
import UtilityCss.Proofs.Value.Tokens
/-
  The tokens of a value are what the blanks of its literal text leave.

  A value is read as a row of pieces: a gap for each blank of its literal text,
  and between gaps the longest runs of each literal and the entries as they
  are. The tokens are the pieces of the row in groups, in order and with none
  lost, and two neighbours are in one group exactly when there is no gap
  between them. No other groups are so, since groups that hold something are
  known by their items and by the places between which they end.

  What is proved:
    1. `eq_of_together` : lists in groups with the same items, together at the
       same places, are the same.
    2. `row_iff` : a value has one row, and its pieces are read off it.
    3. `flatten_tokensFrom`, `together_tokensFrom` : the items of the tokens,
       and which of them are in one token.
    4. `texts_of_literals` : the tokens of literals are the words of their text.
    5. `tokens_split_at_blanks` : the tokens are the one way to split a value
       at the blanks of its literal text.
-/

namespace UtilityCss

/-! ## Items in groups -/

section

variable {α : Type}

/-- Whether the item at a place of a list in groups and the one behind it are in one group. -/
def Together (groups : List (List α)) (n : Nat) : Prop :=
  ∃ before group after, groups = before ++ group :: after ∧
    before.flatten.length ≤ n ∧ n + 1 < before.flatten.length + group.length

theorem together_cons_iff {group : List α} {groups : List (List α)} {n : Nat} :
    Together (group :: groups) n ↔
      n + 1 < group.length ∨ ∃ m, n = group.length + m ∧ Together groups m := by
  constructor
  · rintro ⟨before, middle, after, he, hlow, hhigh⟩
    cases before with
    | nil =>
      obtain ⟨rfl, -⟩ := List.cons.inj he
      exact Or.inl (by simpa using hhigh)
    | cons first before =>
      obtain ⟨rfl, htail⟩ := List.cons.inj he
      rw [List.flatten_cons, List.length_append] at hlow hhigh
      exact Or.inr ⟨n - group.length, by omega, before, middle, after, htail, by omega, by omega⟩
  · rintro (h | ⟨m, rfl, before, middle, after, rfl, hlow, hhigh⟩)
    · exact ⟨[], group, groups, rfl, Nat.zero_le n, by simpa using h⟩
    · refine ⟨group :: before, middle, after, rfl, ?_, ?_⟩
      · rw [List.flatten_cons, List.length_append]
        omega
      · rw [List.flatten_cons, List.length_append]
        omega

/-- Behind the last item there is none that could be in its group. -/
theorem not_together_of_length_le {groups : List (List α)} {n : Nat}
    (h : groups.flatten.length ≤ n + 1) : ¬ Together groups n := by
  rintro ⟨before, group, after, rfl, -, hhigh⟩
  simp only [List.flatten_append, List.flatten_cons, List.length_append] at h
  omega

theorem not_together_last {group : List α} {groups : List (List α)} {n : Nat}
    (h : n + 1 = group.length) : ¬ Together (group :: groups) n := by
  rw [together_cons_iff]
  omega

theorem together_behind (group : List α) {groups : List (List α)} {n : Nat} :
    Together (group :: groups) (group.length + n) ↔ Together groups n := by
  rw [together_cons_iff]
  constructor
  · rintro (h | ⟨m, hm, h⟩)
    · omega
    · rwa [Nat.add_left_cancel hm]
  · exact fun h => Or.inr ⟨n, rfl, h⟩

/-- Of two groups that begin lists with the same items, together at the same places, none is
shorter. -/
theorem length_le_of_together {g h : List α} {gs hs : List (List α)} (hg : g ≠ [])
    (htogether : ∀ n, Together (h :: hs) n → Together (g :: gs) n) : h.length ≤ g.length := by
  have hpos : 0 < g.length := List.length_pos_iff.2 hg
  refine Nat.le_of_not_lt fun hlonger => ?_
  have hlast : Together (h :: hs) (g.length - 1) := together_cons_iff.2 (Or.inl (by omega))
  exact not_together_last (by omega) (htogether _ hlast)

/-- Lists in groups that hold something, with the same items and together at the same places, are
the same. -/
theorem eq_of_together {left right : List (List α)} (hleft : ∀ g ∈ left, g ≠ [])
    (hright : ∀ g ∈ right, g ≠ []) (hitems : left.flatten = right.flatten)
    (htogether : ∀ n, Together left n ↔ Together right n) : left = right := by
  induction left generalizing right with
  | nil =>
    cases right with
    | nil => rfl
    | cons h hs =>
      have hempty : h = [] ∧ hs.flatten = [] := by simpa using hitems.symm
      exact absurd hempty.1 (hright h List.mem_cons_self)
  | cons g gs ih =>
    rw [List.forall_mem_cons] at hleft
    cases right with
    | nil =>
      have hempty : g = [] ∧ gs.flatten = [] := by simpa using hitems
      exact absurd hempty.1 hleft.1
    | cons h hs =>
      rw [List.forall_mem_cons] at hright
      have hlength : g.length = h.length := Nat.le_antisymm
        (length_le_of_together hright.1 (fun n => (htogether n).1))
        (length_le_of_together hleft.1 (fun n => (htogether n).2))
      obtain ⟨rfl, hrest⟩ := List.append_inj hitems hlength
      rw [ih hleft.2 hright.2 hrest (fun n => ?_)]
      rw [← together_behind g, htogether, together_behind]

end

/-- What a segment holds but for the blanks of literal text: its characters one by one, or an entry as
it is. -/
def Segment.content : Segment → List (CodePoint ⊕ Text)
  | .literal t => (t.filter (fun c => !Text.isBlank c)).map .inl
  | .entry t => [.inr t]

namespace Value

/-! ## Rows of pieces -/

/-- Literal text as a row: a gap for each blank, and the longest runs without one. -/
inductive LiteralRow : Text → List Piece → Prop
  | nil : LiteralRow [] []
  | gap {c : CodePoint} {t : Text} {row : List Piece} (hc : Text.isBlank c = true)
      (hrest : LiteralRow t row) : LiteralRow (c :: t) (.gap :: row)
  | run {w t : Text} {row : List Piece} (hw : w.IsWord) (hend : ∀ c ∈ t.head?, Text.isBlank c = true)
      (hrest : LiteralRow t row) : LiteralRow (w ++ t) (.solid (.literal w) :: row)

/-- Segments as a row: the rows of the literals one after the other, with the entries between. -/
inductive Row : List Segment → List Piece → Prop
  | nil : Row [] []
  | literal {t : Text} {segments : List Segment} {row more : List Piece} (ht : LiteralRow t row)
      (hmore : Row segments more) : Row (.literal t :: segments) (row ++ more)
  | entry {t : Text} {segments : List Segment} {more : List Piece} (hmore : Row segments more) :
      Row (.entry t :: segments) (.solid (.entry t) :: more)

theorem literalRow_literalPieces (t : Text) : ∀ run : Text, (∀ c ∈ run, Text.isBlank c = false) →
    LiteralRow (run.reverse ++ t) (literalPieces run t) := by
  -- A run that is there is a word, and ends where the text does or where a blank is.
  have hflush : ∀ (run : Text) {t : Text} {row : List Piece}, (∀ c ∈ run, Text.isBlank c = false) →
      (∀ c ∈ t.head?, Text.isBlank c = true) → LiteralRow t row →
      LiteralRow (run.reverse ++ t) (flushRun run ++ row) := by
    intro run t row hrun hend hrow
    cases run with
    | nil => exact hrow
    | cons d ds => exact .run ⟨by simp, fun c hc => hrun c (List.mem_reverse.1 hc)⟩ hend hrow
  induction t with
  | nil =>
    intro run hrun
    simpa [literalPieces] using hflush run hrun (by simp) .nil
  | cons c rest ih =>
    intro run hrun
    by_cases hc : Text.isBlank c = true
    · rw [literalPieces, if_pos hc]
      exact hflush run hrun (by simpa using hc) (.gap hc (ih [] (by simp)))
    · rw [literalPieces, if_neg hc]
      have hnext : ∀ d ∈ c :: run, Text.isBlank d = false := by
        rw [List.forall_mem_cons]
        exact ⟨by simpa using hc, hrun⟩
      simpa using ih (c :: run) hnext

theorem literalPieces_run {w : Text} (hw : ∀ c ∈ w, Text.isBlank c = false) (run t : Text) :
    literalPieces run (w ++ t) = literalPieces (w.reverse ++ run) t := by
  induction w generalizing run with
  | nil => rfl
  | cons c rest ih =>
    rw [List.forall_mem_cons] at hw
    rw [List.cons_append, literalPieces, if_neg (by simp [hw.1]), ih hw.2]
    simp

theorem literalPieces_end {t : Text} (hend : ∀ c ∈ t.head?, Text.isBlank c = true) (run : Text) :
    literalPieces run t = flushRun run ++ literalPieces [] t := by
  cases t with
  | nil => simp [literalPieces, flushRun]
  | cons c rest =>
    have hc : Text.isBlank c = true := hend c rfl
    simp [literalPieces, hc, flushRun]

theorem LiteralRow.eq_literalPieces {t : Text} {row : List Piece} (h : LiteralRow t row) :
    row = literalPieces [] t := by
  induction h with
  | nil => rfl
  | gap hc _ ih =>
    rw [literalPieces, if_pos hc, ← ih]
    rfl
  | @run w t row hw hend _ ih =>
    rw [literalPieces_run hw.2, literalPieces_end hend, ← ih]
    simp [flushRun, hw.1]

theorem row_pieces (segments : List Segment) : Row segments (segments.flatMap pieces) := by
  induction segments with
  | nil => exact .nil
  | cons s rest ih =>
    rw [List.flatMap_cons]
    cases s with
    | literal t => exact .literal (literalRow_literalPieces t [] (by simp)) ih
    | entry t => exact .entry ih

/-- Segments have one row, the one that their pieces make. -/
theorem row_iff {segments : List Segment} {row : List Piece} :
    Row segments row ↔ row = segments.flatMap pieces := by
  constructor
  · intro h
    induction h with
    | nil => rfl
    | literal ht _ ih => rw [List.flatMap_cons, ht.eq_literalPieces, ih, pieces]
    | entry _ ih => rw [List.flatMap_cons, ih, pieces, List.singleton_append]
  · rintro rfl
    exact row_pieces segments

/-! ## The pieces of a row -/

/-- The segment that a piece is, if it is no gap. -/
def Piece.segment? : Piece → Option Segment
  | .gap => none
  | .solid s => some s

/-- The pieces of a row without its gaps. -/
def solids (row : List Piece) : List Segment := row.filterMap Piece.segment?

@[simp] theorem solids_nil : solids [] = [] := rfl

@[simp] theorem solids_gap (row : List Piece) : solids (.gap :: row) = solids row := rfl

@[simp] theorem solids_solid (s : Segment) (row : List Piece) :
    solids (.solid s :: row) = s :: solids row := rfl

@[simp] theorem solids_append (front back : List Piece) :
    solids (front ++ back) = solids front ++ solids back := List.filterMap_append

@[simp] theorem solids_gaps (k : Nat) : solids (List.replicate k .gap) = [] := by
  simp [solids, Piece.segment?]

theorem LiteralRow.words {t : Text} {row : List Piece} (h : LiteralRow t row) :
    ∀ s ∈ solids row, ∃ w : Text, s = .literal w ∧ w.IsWord := by
  induction h with
  | nil => simp
  | gap _ _ ih => exact ih
  | run hw _ _ ih =>
    rw [solids_solid, List.forall_mem_cons]
    exact ⟨⟨_, rfl, hw⟩, ih⟩

theorem Row.words {segments : List Segment} {row : List Piece} (h : Row segments row) :
    ∀ t, .literal t ∈ solids row → t.IsWord := by
  intro t ht
  induction h with
  | nil => simp at ht
  | literal hrow _ ih =>
    rw [solids_append, List.mem_append] at ht
    rcases ht with ht | ht
    · obtain ⟨w, hw, hword⟩ := hrow.words _ ht
      obtain rfl := Segment.literal.inj hw
      exact hword
    · exact ih ht
  | entry _ ih =>
    rw [solids_solid, List.mem_cons] at ht
    rcases ht with ht | ht
    · cases ht
    · exact ih ht

theorem LiteralRow.content {t : Text} {row : List Piece} (h : LiteralRow t row) :
    (solids row).flatMap Segment.content = (Segment.literal t).content := by
  induction h with
  | nil => rfl
  | gap hc _ ih => simpa [Segment.content, hc] using ih
  | @run w t row hw _ _ ih =>
    have hkept : w.filter (fun c => !Text.isBlank c) = w := by
      rw [List.filter_eq_self]
      intro c hc
      simp [hw.2 c hc]
    simpa [Segment.content, hkept] using ih

theorem Row.content {segments : List Segment} {row : List Piece} (h : Row segments row) :
    (solids row).flatMap Segment.content = segments.flatMap Segment.content := by
  induction h with
  | nil => rfl
  | literal ht _ ih => rw [solids_append, List.flatMap_append, ht.content, ih, List.flatMap_cons]
  | entry _ ih => rw [solids_solid, List.flatMap_cons, List.flatMap_cons, ih]

/-- Two neighbours in a row have nothing but gaps between them. -/
theorem exists_neighbours {row : List Piece} {n : Nat} (h : n + 1 < (solids row).length) :
    ∃ front p k q back, row = front ++ .solid p :: (List.replicate k .gap ++ .solid q :: back) ∧
      (solids front).length = n := by
  have hfirst : ∀ row : List Piece, 0 < (solids row).length →
      ∃ k q back, row = List.replicate k .gap ++ .solid q :: back := by
    intro row
    induction row with
    | nil => simp
    | cons piece rest ih =>
      intro h
      cases piece with
      | gap =>
        obtain ⟨k, q, back, rfl⟩ := ih h
        exact ⟨k + 1, q, back, rfl⟩
      | solid q => exact ⟨0, q, rest, rfl⟩
  induction row generalizing n with
  | nil => simp at h
  | cons piece rest ih =>
    cases piece with
    | gap =>
      obtain ⟨front, p, k, q, back, rfl, hn⟩ := ih h
      exact ⟨.gap :: front, p, k, q, back, rfl, hn⟩
    | solid p =>
      rw [solids_solid, List.length_cons] at h
      cases n with
      | zero =>
        obtain ⟨k, q, back, rfl⟩ := hfirst rest (by omega)
        exact ⟨[], p, k, q, back, rfl, rfl⟩
      | succ n =>
        obtain ⟨front, r, k, q, back, rfl, hn⟩ := ih (n := n) (by omega)
        exact ⟨.solid p :: front, r, k, q, back, rfl, by simp [hn]⟩

/-! ## The tokens of a row -/

/-- The items of the tokens are the pieces of the row, behind those of the token begun. -/
theorem flatten_tokensFrom (row : List Piece) : ∀ current : List Segment,
    ((tokensFrom current row).map segments).flatten = current.reverse ++ solids row := by
  have hflush : ∀ current : List Segment,
      ((flushToken current).map segments).flatten = current.reverse := by
    intro current
    cases current <;> simp [flushToken]
  induction row with
  | nil => simpa [tokensFrom] using hflush
  | cons piece rest ih =>
    intro current
    cases piece with
    | gap => simp [tokensFrom, hflush, ih]
    | solid s => simp [tokensFrom, ih]

/-- A token that is begun is the first, with what it holds so far before what comes to it. -/
theorem tokensFrom_begun (row : List Piece) : ∀ {current : List Segment}, current ≠ [] →
    ∃ more after, tokensFrom current row = ⟨current.reverse ++ more⟩ :: after := by
  induction row with
  | nil =>
    intro current hne
    exact ⟨[], [], by simp [tokensFrom, flushToken, hne]⟩
  | cons piece rest ih =>
    intro current hne
    cases piece with
    | gap => exact ⟨[], tokensFrom [] rest, by simp [tokensFrom, flushToken, hne]⟩
    | solid s =>
      obtain ⟨more, after, hrest⟩ := ih (List.cons_ne_nil s current)
      exact ⟨s :: more, after, by simp [tokensFrom, hrest]⟩

/-- Two neighbours are in one token exactly when there is no gap between them. -/
theorem together_tokensFrom (p q : Segment) (k : Nat) (back front : List Piece) :
    ∀ current : List Segment,
      Together ((tokensFrom current
        (front ++ .solid p :: (List.replicate k .gap ++ .solid q :: back))).map segments)
        (current.length + (solids front).length) ↔ k = 0 := by
  induction front with
  | nil =>
    intro current
    show Together ((tokensFrom (p :: current) _).map segments) current.length ↔ k = 0
    cases k with
    | zero =>
      obtain ⟨more, after, htokens⟩ := tokensFrom_begun back (List.cons_ne_nil q (p :: current))
      have hone : Together ((tokensFrom (q :: p :: current) back).map segments) current.length := by
        rw [htokens, List.map_cons, together_cons_iff]
        left
        simp
      exact iff_of_true hone rfl
    | succ k =>
      have hapart : ¬ Together ((tokensFrom (p :: current)
          (.gap :: (List.replicate k .gap ++ .solid q :: back))).map segments) current.length := by
        rw [tokensFrom, flushToken, if_neg (by simp), List.singleton_append, List.map_cons]
        exact not_together_last (by simp)
      exact iff_of_false hapart (Nat.succ_ne_zero k)
  | cons piece rest ih =>
    intro current
    cases piece with
    | gap =>
      rw [List.cons_append, tokensFrom, solids_gap]
      cases current with
      | nil => exact ih []
      | cons s current =>
        have hlength : (s :: current).length = (s :: current).reverse.length := by simp
        rw [flushToken, if_neg (by simp), List.singleton_append, List.map_cons, hlength,
          together_behind]
        simpa using ih []
    | solid s =>
      rw [List.cons_append, tokensFrom, solids_solid, List.length_cons, ← ih (s :: current),
        List.length_cons, Nat.add_assoc, Nat.add_comm 1]

/-! ## The tokens of literals -/

/-- The text of a token begun, reversed as the reader of words keeps it. -/
def begun (current : List Segment) : Text := (current.reverse.flatMap Segment.text).reverse

theorem begun_cons (s : Segment) (current : List Segment) :
    begun (s :: current) = s.text.reverse ++ begun current := by
  simp [begun]

theorem begun_eq_nil {current : List Segment} (h : ∀ s ∈ current, s.text ≠ []) :
    begun current = [] ↔ current = [] := by
  cases current with
  | nil => simp [begun]
  | cons s rest =>
    rw [List.forall_mem_cons] at h
    simp [begun_cons, h.1]

theorem texts_flushToken {current : List Segment} (h : ∀ s ∈ current, s.text ≠ []) :
    (flushToken current).map text = Text.flushWord (begun current) := by
  rw [flushToken, Text.flushWord]
  simp only [List.isEmpty_iff, begun_eq_nil h]
  split
  · rfl
  · simp [begun, text]

/-- A run that is flushed comes to the token begun. -/
theorem tokensFrom_flushRun (run : Text) (row : List Piece) {current : List Segment}
    (h : ∀ s ∈ current, s.text ≠ []) : ∃ next, tokensFrom current (flushRun run ++ row) =
      tokensFrom next row ∧ begun next = run ++ begun current ∧ ∀ s ∈ next, s.text ≠ [] := by
  cases run with
  | nil => exact ⟨current, rfl, rfl, h⟩
  | cons c rest =>
    refine ⟨.literal (c :: rest).reverse :: current, rfl, ?_, ?_⟩
    · simp [begun_cons, Segment.text]
    · rw [List.forall_mem_cons]
      exact ⟨by simp [Segment.text], h⟩

/-- Where the row that follows is read like words, so is literal text before it. -/
theorem texts_literalPieces {row : List Piece} {rest : Text}
    (hrow : ∀ {current : List Segment}, (∀ s ∈ current, s.text ≠ []) →
      (tokensFrom current row).map text = Text.wordsFrom (begun current) rest)
    (t : Text) : ∀ (run : Text) {current : List Segment}, (∀ s ∈ current, s.text ≠ []) →
      (tokensFrom current (literalPieces run t ++ row)).map text =
        Text.wordsFrom (run ++ begun current) (t ++ rest) := by
  induction t with
  | nil =>
    intro run current h
    obtain ⟨next, htokens, hbegun, hnext⟩ := tokensFrom_flushRun run row h
    rw [literalPieces, htokens, hrow hnext, hbegun]
    rfl
  | cons c more ih =>
    intro run current h
    rw [literalPieces, List.cons_append, Text.wordsFrom]
    split
    · obtain ⟨next, htokens, hbegun, hnext⟩ :=
        tokensFrom_flushRun run (.gap :: literalPieces [] more ++ row) h
      rw [List.append_assoc, htokens, List.cons_append, tokensFrom, List.map_append,
        texts_flushToken hnext, ih [] (by simp), hbegun, Text.flushWord]
      split <;> rfl
    · exact ih (c :: run) h

/-- The tokens of a row of literals, behind a token begun, have the words of their text. -/
theorem texts_tokensFrom (literals : List Text) : ∀ {current : List Segment},
    (∀ s ∈ current, s.text ≠ []) →
    (tokensFrom current (literals.flatMap (literalPieces []))).map text =
      Text.wordsFrom (begun current) literals.flatten := by
  induction literals with
  | nil => exact texts_flushToken
  | cons t more ih =>
    intro current h
    rw [List.flatMap_cons, List.flatten_cons]
    exact texts_literalPieces ih t [] h

/-- The tokens of literals, however they are cut, are the words of their text. -/
theorem texts_of_literals (literals : List Text) :
    (tokens ⟨literals.map .literal⟩).map text = Text.words literals.flatten := by
  have hpieces : (literals.map Segment.literal).flatMap pieces = literals.flatMap (literalPieces []) := by
    rw [List.flatMap_map]
    rfl
  rw [tokens, hpieces]
  exact texts_tokensFrom literals (by simp)

/-! ## The one way to split a value -/

/-- Tokens that are the pieces of a value in groups, parted where literal text has a blank. -/
structure SplitAtBlanks (v : Value) (tokens : List Value) : Prop where
  nonempty : ∀ token ∈ tokens, token.segments ≠ []
  words : ∀ token ∈ tokens, ∀ t, .literal t ∈ token.segments → t.IsWord
  content : (tokens.flatMap segments).flatMap Segment.content = v.segments.flatMap Segment.content
  items : ∀ row, Row v.segments row → tokens.flatMap segments = solids row
  together : ∀ front p k q back,
    Row v.segments (front ++ .solid p :: (List.replicate k .gap ++ .solid q :: back)) →
    (Together (tokens.map segments) (solids front).length ↔ k = 0)

theorem flatMap_tokens {v : Value} {row : List Piece} (h : Row v.segments row) :
    v.tokens.flatMap segments = solids row := by
  rw [row_iff.1 h, List.flatMap_def, tokens, flatten_tokensFrom]
  rfl

theorem splitAtBlanks_tokens (v : Value) : v.SplitAtBlanks v.tokens where
  nonempty := tokens_nonempty v
  words := by
    intro token htoken t ht
    have hrow := row_pieces v.segments
    apply hrow.words t
    rw [← flatMap_tokens hrow]
    exact List.mem_flatMap.2 ⟨token, htoken, ht⟩
  content := by
    have hrow := row_pieces v.segments
    rw [flatMap_tokens hrow, hrow.content]
  items := fun row hrow => flatMap_tokens hrow
  together := by
    intro front p k q back hrow
    rw [tokens, ← row_iff.1 hrow]
    simpa using together_tokensFrom p q k back front []

theorem segments_injective (a b : Value) (h : a.segments = b.segments) : a = b := by
  cases a
  cases b
  exact congrArg Value.mk h

theorem SplitAtBlanks.groups_ne_nil {v : Value} {tokens : List Value} (h : v.SplitAtBlanks tokens) :
    ∀ g ∈ tokens.map segments, g ≠ [] := by
  rw [List.forall_mem_map]
  exact h.nonempty

theorem SplitAtBlanks.flatten_groups {v : Value} {tokens : List Value} (h : v.SplitAtBlanks tokens)
    {row : List Piece} (hrow : Row v.segments row) : (tokens.map segments).flatten = solids row := by
  rw [← List.flatMap_def, h.items row hrow]

theorem SplitAtBlanks.eq_tokens {v : Value} {tokens : List Value} (h : v.SplitAtBlanks tokens) :
    tokens = v.tokens := by
  have hown : v.SplitAtBlanks v.tokens := splitAtBlanks_tokens v
  obtain ⟨row, hrow⟩ : ∃ row, Row v.segments row := ⟨_, row_pieces v.segments⟩
  have hitems : (tokens.map segments).flatten = (v.tokens.map segments).flatten :=
    (h.flatten_groups hrow).trans (hown.flatten_groups hrow).symm
  have hgroups : tokens.map segments = v.tokens.map segments := by
    refine eq_of_together h.groups_ne_nil hown.groups_ne_nil hitems ?_
    intro n
    by_cases hn : n + 1 < (solids row).length
    · obtain ⟨front, p, k, q, back, rfl, rfl⟩ := exists_neighbours hn
      rw [h.together front p k q back hrow, hown.together front p k q back hrow]
    · have hlength : (solids row).length ≤ n + 1 := Nat.le_of_not_lt hn
      refine iff_of_false ?_ ?_
      · exact not_together_of_length_le (h.flatten_groups hrow ▸ hlength)
      · exact not_together_of_length_le (hown.flatten_groups hrow ▸ hlength)
  exact (List.map_inj_right segments_injective).1 hgroups

/-- A value is a row of pieces in one way. Its tokens, and no others, are the pieces of the row in
groups, parted where literal text has a blank; each holds something, and its literals are words.
The tokens of literals are the words of their text, however they are cut. -/
theorem tokens_split_at_blanks (v : Value) :
    (∃ row, ∀ other, Row v.segments other ↔ other = row) ∧
      (∀ tokens, v.SplitAtBlanks tokens ↔ tokens = v.tokens) ∧
      ∀ literals : List Text,
        let value : Value := ⟨literals.map .literal⟩
        value.tokens.map text = Text.words value.text := by
  refine ⟨⟨v.segments.flatMap pieces, fun other => row_iff⟩, ?_, ?_⟩
  · intro tokens
    constructor
    · exact SplitAtBlanks.eq_tokens
    · rintro rfl
      exact splitAtBlanks_tokens v
  · intro literals
    have htext : (⟨literals.map .literal⟩ : Value).text = literals.flatten := by
      rw [text, List.flatMap_map]
      exact List.flatMap_id
    show (tokens ⟨literals.map .literal⟩).map text = Text.words (text ⟨literals.map .literal⟩)
    rw [texts_of_literals, htext]

/-- A run goes on into the next literal and into an entry, and a literal that is blank or empty holds no
piece. -/
example : tokens ⟨[.literal " 1p", .literal "x", .literal "", .entry "a b", .literal "\t ",
      .entry "", .literal "c"]⟩ =
    [⟨[.literal "1p", .literal "x", .entry "a b"]⟩, ⟨[.entry "", .literal "c"]⟩] := by decide

end Value

end UtilityCss
