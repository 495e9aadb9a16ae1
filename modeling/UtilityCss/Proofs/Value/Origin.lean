import UtilityCss.Border
import UtilityCss.Proofs.Value.Splitting
/-
  Whether a value comes from the dictionary, judged as a whole and by its
  tokens.

  As a whole a value is an entry when it is one but for literals that are
  blank. By its tokens it is one when it has a single token and that is the
  entry. The two agree, since a literal that is blank has no piece and one
  that is not has a piece that is literal. So the rules, which look at the
  whole value, and the borders, which look at each of its tokens, judge alike.

  What is proved:
    1. `solids_eq_nil_iff`, `solids_eq_entry_iff` : the values without a piece,
       and those whose one piece is an entry.
    2. `tokens_eq_nil_iff` : a value has no token exactly when all of it is
       blank literal text.
    3. `tokens_eq_entry_iff`, `tokens_of_mem` : the values whose one token is an
       entry, and the tokens of a token.
    4. `entry_judged_alike` : the two tests agree, and rules and borders with
       them.
-/

namespace UtilityCss

namespace Value

/-! ## The pieces of a segment -/

theorem LiteralRow.solids_eq_nil_iff {t : Text} {row : List Piece} (h : LiteralRow t row) :
    solids row = [] ↔ ∀ c ∈ t, Text.isBlank c = true := by
  induction h with
  | nil => simp
  | gap hc _ ih =>
    rw [solids_gap, ih, List.forall_mem_cons]
    exact ⟨fun hrest => ⟨hc, hrest⟩, fun hall => hall.2⟩
  | @run w t row hw _ _ _ =>
    refine iff_of_false (List.cons_ne_nil _ _) ?_
    intro hall
    obtain ⟨c, more, rfl⟩ := List.exists_cons_of_ne_nil hw.1
    have hsolid : Text.isBlank c = false := hw.2 c List.mem_cons_self
    rw [hall c (List.mem_append_left t List.mem_cons_self)] at hsolid
    cases hsolid

theorem literalRow_pieces (t : Text) : LiteralRow t (pieces (.literal t)) :=
  literalRow_literalPieces t [] (by simp)

theorem solids_pieces_literal (t : Text) :
    solids (pieces (.literal t)) = [] ↔ (Segment.literal t).isBlank = true := by
  rw [(literalRow_pieces t).solids_eq_nil_iff, Segment.isBlank, List.all_eq_true]

/-- A literal that is not blank has a piece, and that is literal. -/
theorem exists_solid_of_not_blank {t : Text} (h : (Segment.literal t).isBlank = false) :
    ∃ w more, solids (pieces (.literal t)) = .literal w :: more := by
  cases hsolids : solids (pieces (.literal t)) with
  | nil =>
    rw [solids_pieces_literal, h] at hsolids
    cases hsolids
  | cons s more =>
    obtain ⟨w, rfl, -⟩ := (literalRow_pieces t).words s (by simp [hsolids])
    exact ⟨w, more, rfl⟩

/-! ## The pieces of a value -/

theorem solids_eq_nil_iff (segments : List Segment) :
    solids (segments.flatMap pieces) = [] ↔ segments.filter (fun s => !s.isBlank) = [] := by
  induction segments with
  | nil => simp
  | cons s rest ih =>
    rw [List.flatMap_cons, solids_append, List.append_eq_nil_iff, ih]
    cases s with
    | entry t => simp [pieces, Segment.isBlank]
    | literal t =>
      rw [solids_pieces_literal, List.filter_cons]
      cases hblank : (Segment.literal t).isBlank <;> simp

/-- The pieces of a value are one entry exactly when its segments are, but for blank literals. -/
theorem solids_eq_entry_iff (m : Text) (segments : List Segment) :
    solids (segments.flatMap pieces) = [.entry m] ↔
      segments.filter (fun s => !s.isBlank) = [.entry m] := by
  induction segments with
  | nil => simp
  | cons s rest ih =>
    rw [List.flatMap_cons, solids_append, List.filter_cons]
    cases s with
    | entry t =>
      have hpieces : solids (pieces (.entry t)) = [.entry t] := rfl
      have hkept : (!(Segment.entry t).isBlank) = true := rfl
      rw [hpieces, if_pos hkept, List.singleton_append, List.cons.injEq, List.cons.injEq,
        solids_eq_nil_iff]
    | literal t =>
      cases hblank : (Segment.literal t).isBlank with
      | true =>
        rw [(solids_pieces_literal t).2 hblank]
        simpa using ih
      | false =>
        obtain ⟨w, more, hsolids⟩ := exists_solid_of_not_blank hblank
        simp [hsolids]

/-! ## The tokens of a value -/

theorem eq_nil_of_flatMap_segments {tokens : List Value} (hne : ∀ token ∈ tokens, token.segments ≠ [])
    (h : tokens.flatMap segments = []) : tokens = [] := by
  rw [List.flatMap_eq_nil_iff] at h
  exact List.eq_nil_iff_forall_not_mem.2 fun token htoken => hne token htoken (h token htoken)

/-- A value has no token exactly when it is blank literal text. -/
theorem tokens_eq_nil_iff (v : Value) : v.tokens = [] ↔ ∀ s ∈ v.segments, s.isBlank = true := by
  have hitems := flatMap_tokens (row_pieces v.segments)
  have hfilter : v.segments.filter (fun s => !s.isBlank) = [] ↔ ∀ s ∈ v.segments, s.isBlank = true := by
    simp
  rw [← hfilter, ← solids_eq_nil_iff, ← hitems]
  constructor
  · intro h
    rw [h]
    rfl
  · exact eq_nil_of_flatMap_segments (tokens_nonempty v)

theorem tokens_eq_entry_iff (v : Value) (m : Text) :
    v.tokens = [⟨[.entry m]⟩] ↔ solids (v.segments.flatMap pieces) = [.entry m] := by
  rw [← flatMap_tokens (row_pieces v.segments)]
  constructor
  · intro h
    rw [h]
    rfl
  · intro h
    have hnonempty := tokens_nonempty v
    cases htokens : v.tokens with
    | nil => simp [htokens] at h
    | cons token rest =>
      rw [htokens, List.forall_mem_cons] at hnonempty
      rw [htokens, List.flatMap_cons, List.append_eq_singleton_iff] at h
      rcases h with ⟨hempty, -⟩ | ⟨htoken, hrest⟩
      · exact absurd hempty hnonempty.1
      · rw [eq_nil_of_flatMap_segments hnonempty.2 hrest,
          segments_injective token ⟨[.entry m]⟩ htoken]

theorem tokensFrom_solids (segments : List Segment) : ∀ current : List Segment,
    tokensFrom current (segments.map .solid) = flushToken (segments.reverse ++ current) := by
  induction segments with
  | nil => exact fun _ => rfl
  | cons s rest ih =>
    intro current
    rw [List.map_cons, tokensFrom, ih]
    simp

/-- A token is its own only token. -/
theorem tokens_of_mem {v token : Value} (h : token ∈ v.tokens) : token.tokens = [token] := by
  have hwords := (splitAtBlanks_tokens v).words token h
  have hrow : ∀ segments : List Segment, (∀ t, .literal t ∈ segments → t.IsWord) →
      Row segments (segments.map .solid) := by
    intro segments hwords
    induction segments with
    | nil => exact .nil
    | cons s rest ih =>
      have hrest := ih (fun t ht => hwords t (List.mem_cons_of_mem s ht))
      cases s with
      | entry t => exact .entry hrest
      | literal t =>
        have hword : t.IsWord := hwords t List.mem_cons_self
        have hliteral : LiteralRow t [.solid (.literal t)] := by
          simpa using LiteralRow.run hword (t := []) (by simp) .nil
        exact .literal hliteral hrest
  rw [tokens, ← row_iff.1 (hrow token.segments hwords), tokensFrom_solids, flushToken,
    if_neg (by simpa using tokens_nonempty v token h)]
  simp

/-! ## The two tests -/

theorem entry?_eq_some_iff (v : Value) (m : Text) :
    v.entry? = some m ↔ v.segments.filter (fun s => !s.isBlank) = [.entry m] := by
  unfold entry?
  split
  · next t hfilter => simp [hfilter]
  · next hother =>
    refine iff_of_false (by simp) ?_
    exact hother m

theorem entry?_iff_tokens (v : Value) (m : Text) :
    v.entry? = some m ↔ v.tokens = [⟨[.entry m]⟩] := by
  rw [entry?_eq_some_iff, tokens_eq_entry_iff, solids_eq_entry_iff]

/-- A value with one token comes from the dictionary as that token does. -/
theorem entry?_of_tokens {v token : Value} (h : v.tokens = [token]) : token.entry? = v.entry? := by
  have htoken : token.tokens = [token] := tokens_of_mem (v := v) (by simp [h])
  ext m
  rw [entry?_iff_tokens, entry?_iff_tokens, htoken, h]

end Value

open Value

/-- A value comes from the dictionary as a whole exactly when it has one token that is an entry, and a
token when it is an entry itself. The rules could as well look at the tokens; and where a border has
one token, it takes it for an entry exactly when the whole value is one. -/
theorem entry_judged_alike (v : Value) :
    (∀ m, v.entry? = some m ↔ v.tokens = [⟨[.entry m]⟩]) ∧
      (∀ token ∈ v.tokens, ∀ m, token.entry? = some m ↔ token = ⟨[.entry m]⟩) ∧
      (∀ rule : Rule, rule.classes v =
        if v.text = [] then []
        else match v.tokens with
          | [⟨[.entry m]⟩] => rule.ofEntry m
          | _ => rule.ofText v.text) ∧
      ∀ (side : BorderSide) (token : Value), v.tokens = [token] →
        side.classOf token = v.entry?.getD (bracketed side.stem token.text) := by
  refine ⟨entry?_iff_tokens v, ?_, ?_, ?_⟩
  · intro token htoken m
    rw [entry?_iff_tokens, tokens_of_mem htoken, List.cons.injEq, and_iff_left rfl]
  · intro rule
    rw [Rule.classes]
    split
    · rfl
    · cases hentry : v.entry? with
      | some m => rw [(entry?_iff_tokens v m).1 hentry]
      | none =>
        show rule.ofText v.text = _
        split
        · next m htokens =>
          rw [(entry?_iff_tokens v m).2 htokens] at hentry
          cases hentry
        · rfl
  · intro side token htokens
    rw [BorderSide.classOf, entry?_of_tokens htokens]

end UtilityCss
