import UtilityCss.Proofs.Reference.Division
/-
  References without a fallback.

  A name in parentheses with no comma is no reference by itself, and what
  comes after it is resolved as if it stood alone. The name of a reference,
  though, runs to the first comma wherever that is: where the text after the
  bare name has a comma and then a closing parenthesis, with something between
  the two, that text completes the bare name to a reference, and all up to the
  parenthesis is resolved as one.

  What is proved:
    1. `resolve_clear`, `resolve_written` : the value of a text is that of its
       front and that of its rest, where the front is plain text or a
       reference.
    2. `resolve_bare` : what a bare name and the text after it stand for, with
       a completion and without one.
-/

namespace UtilityCss

/-- The dictionary entry that a segment is, as a list. -/
def Segment.entries : Segment → List Text
  | .literal _ => []
  | .entry t => [t]

/-- The dictionary entries of a value, in order. -/
def Value.entries (v : Value) : List Text := v.segments.flatMap Segment.entries

/-- What segments contribute to a value, where one literal contributes what its pieces do. -/
structure JoinsLiterals {α : Type} (part : Segment → List α) : Prop where
  nil : part (.literal []) = []
  append : ∀ s t, part (.literal (s ++ t)) = part (.literal s) ++ part (.literal t)

theorem joinsLiterals_text : JoinsLiterals Segment.text := ⟨rfl, fun _ _ => rfl⟩

theorem joinsLiterals_entries : JoinsLiterals Segment.entries := ⟨rfl, fun _ _ => rfl⟩

namespace Division

/-! ## Values piece by piece -/

section

variable {α : Type} {part : Segment → List α}

theorem flatMap_value (h : JoinsLiterals part) (lookup : Lookup) (d : Division) :
    (d.value lookup).segments.flatMap part = (d.segments lookup).flatMap part := by
  unfold value
  split
  · next hnil => simp [hnil, h.nil]
  · rfl

theorem flatMap_plainSegments (h : JoinsLiterals part) (plain : Text) :
    (plainSegments plain).flatMap part = part (.literal plain) := by
  unfold plainSegments
  split
  · next hnil => simp [hnil, h.nil]
  · simp

theorem flatMap_segments_prepend (h : JoinsLiterals part) (lookup : Lookup) (t : Text) (d : Division) :
    ((d.prepend t).segments lookup).flatMap part =
      part (.literal t) ++ (d.segments lookup).flatMap part := by
  cases d <;> simp [prepend, segments, flatMap_plainSegments h, h.append]

end

end Division

open Division Reference

/-! ## A text and what comes after it -/

section

variable {α : Type} {part : Segment → List α}

/-- Plain text stays as it is, and what comes after it is resolved by itself. -/
theorem resolve_clear (h : JoinsLiterals part) (lookup : Lookup) {plain following : Text}
    (hplain : Clear plain following) :
    (Value.resolve lookup (plain ++ following)).segments.flatMap part =
      part (.literal plain) ++ (Value.resolve lookup following).segments.flatMap part := by
  obtain ⟨d, rfl, hd⟩ := exists_leftmost following
  rw [← written_prepend, resolve_of_leftmost lookup (leftmost_prepend hplain hd),
    resolve_of_leftmost lookup hd, flatMap_value h, flatMap_value h, flatMap_segments_prepend h]

/-- A reference stands for one segment, and what comes after it is resolved by itself. -/
theorem resolve_written (h : JoinsLiterals part) (lookup : Lookup) {r : Reference} (hw : r.WellFormed)
    (following : Text) :
    (Value.resolve lookup (r.written ++ following)).segments.flatMap part =
      part (r.resolve lookup) ++ (Value.resolve lookup following).segments.flatMap part := by
  obtain ⟨d, rfl, hd⟩ := exists_leftmost following
  have hnext : (next [] r d).Leftmost := ⟨clear_nil _, hw, hd⟩
  have hwritten : (next [] r d).written = r.written ++ d.written := rfl
  rw [← hwritten, resolve_of_leftmost lookup hnext, resolve_of_leftmost lookup hd,
    flatMap_value h, flatMap_value h, resolve_eq_meaning]
  simp [segments, plainSegments]

end

/-! ## Where no reference starts -/

/-- A text that lacks a mark and starts another one starts it before the mark. -/
theorem prefix_before_mark {mark : CodePoint} {s t rest : Text} (hmark : mark ∉ s)
    (h : s <+: t ++ mark :: rest) : s <+: t := by
  rcases List.prefix_or_prefix_of_prefix h (List.prefix_append t (mark :: rest)) with hst | ⟨u, rfl⟩
  · exact hst
  · rw [List.prefix_append_right_inj] at h
    cases u with
    | nil => simp
    | cons c u =>
      obtain ⟨rfl, -⟩ := List.cons_prefix_cons.1 h
      exact absurd (List.mem_append_right t List.mem_cons_self) hmark

theorem opening_prefix_of_written {r : Reference} {t : Text} (h : r.written <+: t) :
    opening <+: t := by
  rw [Reference.written, List.append_assoc] at h
  exact (List.prefix_append _ _).trans h

/-- Before an opening nothing opens a reference that does not open one by itself. -/
theorem clear_before_opening {plain : Text} (h : ¬ opening <:+: plain) (rest : Text) :
    Clear plain (opening ++ rest) := by
  intro front back he hne r _ hp
  have hopen := opening_prefix_of_written hp
  obtain ⟨c, back, rfl⟩ := List.exists_cons_of_ne_nil hne
  -- The opening has its first character once, so it ends before the next opening begins.
  obtain ⟨hc, htail⟩ := List.cons_prefix_cons.1 hopen
  have hinside := prefix_before_mark (by decide) htail
  apply h
  rw [he]
  exact (List.cons_prefix_cons.2 ⟨hc, hinside⟩).isInfix.trans (List.suffix_append _ _).isInfix

/-- A name without an opening parenthesis, with its closing one, opens no reference. -/
theorem clear_closed_name {name : Text} (hopen : .char '(' ∉ name) (after : Text) :
    Clear (name ++ [.char ')']) after := by
  intro front back he hne r _ hp
  have hprefix := opening_prefix_of_written hp
  -- The rest of the name ends with the parenthesis too, which no opening has in it.
  obtain ⟨inner, last, rfl⟩ := (List.eq_nil_or_concat back).resolve_left hne
  rw [List.concat_eq_append, ← List.append_assoc] at he
  obtain ⟨hname, hlast⟩ := List.append_inj' he rfl
  rw [List.concat_eq_append, ← hlast, List.append_assoc] at hprefix
  have hinner : opening <+: inner := prefix_before_mark (by decide) hprefix
  apply hopen
  rw [hname]
  exact List.mem_append_right front (hinner.subset (by decide))

/-! ## Bare references -/

/-- A name that can stand in parentheses by itself. -/
def IsBareName (name : Text) : Prop :=
  name ≠ [] ∧ .char ',' ∉ name ∧ .char '(' ∉ name ∧ .char ')' ∉ name

instance (name : Text) : Decidable (IsBareName name) :=
  inferInstanceAs (Decidable (_ ∧ _ ∧ _ ∧ _))

/-- A reference without a fallback, as it is written. -/
def bareReference (name : Text) : Text := opening ++ (name ++ [.char ')'])

/-- What makes a reference of a bare name before a text: the text up to its first comma, and from
there a fallback up to the next closing parenthesis. -/
structure Completion (after : Text) where
  front : Text
  fallback : Text
  rest : Text
  front_no_comma : .char ',' ∉ front
  fallback_ne_nil : fallback ≠ []
  fallback_no_close : .char ')' ∉ fallback
  cut : after = front ++ .char ',' :: (fallback ++ .char ')' :: rest)

namespace Completion

variable {after : Text}

/-- The reference that a bare name and its completion are. The closing parenthesis of the bare
name is part of its name. -/
def reference (c : Completion after) (name : Text) : Reference :=
  ⟨name ++ .char ')' :: c.front, c.fallback⟩

theorem wellFormed_reference (c : Completion after) {name : Text} (hname : IsBareName name) :
    (c.reference name).WellFormed := by
  refine ⟨by simp [reference], ?_, c.fallback_ne_nil, c.fallback_no_close⟩
  rw [reference, List.mem_append, List.mem_cons]
  rintro (hmem | hmem | hmem)
  · exact hname.2.1 hmem
  · exact absurd hmem (by decide)
  · exact c.front_no_comma hmem

theorem written_reference (c : Completion after) (name : Text) :
    (c.reference name).written ++ c.rest = bareReference name ++ after := by
  obtain ⟨front, fallback, rest, -, -, -, rfl⟩ := c
  simp [reference, Reference.written, bareReference]

/-- A reference that starts where a bare name does is completed by the text behind the name. -/
theorem nonempty_of_written {name rest : Text} {r : Reference} (hname : IsBareName name)
    (hw : r.WellFormed) (h : r.written ++ rest = bareReference name ++ after) :
    Nonempty (Completion after) := by
  obtain ⟨-, hcomma, hfallback, hclose⟩ := hw
  have hbody : r.name ++ .char ',' :: (r.fallback ++ .char ')' :: rest) = name ++ .char ')' :: after := by
    simpa [Reference.written, bareReference] using h
  rcases List.append_eq_append_iff.1 hbody with ⟨x, hx, hcut⟩ | ⟨x, hx, hcut⟩
  · -- The first comma would be in the bare name, or be the parenthesis.
    cases x with
    | nil => exact absurd (List.cons.inj hcut).1 (by decide)
    | cons c x =>
      obtain ⟨rfl, -⟩ := List.cons.inj hcut
      rw [hx] at hname
      exact absurd (List.mem_append_right r.name List.mem_cons_self) hname.2.1
  · cases x with
    | nil => exact absurd (List.cons.inj hcut).1 (by decide)
    | cons c front =>
      rw [hx] at hcomma
      have hfront : .char ',' ∉ front :=
        fun hmem => hcomma (List.mem_append_right name (List.mem_cons_of_mem c hmem))
      exact ⟨front, r.fallback, rest, hfront, hfallback, hclose, (List.cons.inj hcut).2⟩

theorem comma_mem (c : Completion after) : .char ',' ∈ after := by
  rw [c.cut]
  simp

end Completion

theorem clear_before_bare {before : Text} (h : ¬ opening <:+: before) (name after : Text) :
    Clear before (bareReference name ++ after) := by
  rw [bareReference, List.append_assoc]
  exact clear_before_opening h _

/-- Without a completion no reference starts in a bare one. -/
theorem clear_bareReference {name after : Text} (hname : IsBareName name)
    (h : ¬ Nonempty (Completion after)) : Clear (bareReference name) after := by
  have hread : read? (bareReference name ++ after) = none := by
    rw [Option.eq_none_iff_forall_not_mem]
    intro r hr
    obtain ⟨hw, rest, hrest⟩ := read?_eq_some_iff.1 hr
    exact h (Completion.nonempty_of_written hname hw hrest.symm)
  -- The opening has its first character once, so only its start can open a reference.
  have hparen : Clear (.char '(' :: (name ++ [.char ')'])) after :=
    clear_cons (clear_closed_name hname.2.2.1 after) rfl
  have hletters : Clear (.char 'a' :: .char 'r' :: .char '(' :: (name ++ [.char ')'])) after :=
    clear_cons (clear_cons hparen rfl) rfl
  exact clear_cons hletters hread

section

variable {α : Type} {part : Segment → List α} {before name after : Text}

theorem resolve_bare_alone (h : JoinsLiterals part) (lookup : Lookup) (hbefore : ¬ opening <:+: before)
    (hname : IsBareName name) (hnone : ¬ Nonempty (Completion after)) :
    (Value.resolve lookup (before ++ (bareReference name ++ after))).segments.flatMap part =
      part (.literal (before ++ bareReference name)) ++
        (Value.resolve lookup after).segments.flatMap part := by
  rw [resolve_clear h lookup (clear_before_bare hbefore name after),
    resolve_clear h lookup (clear_bareReference hname hnone), h.append, List.append_assoc]

theorem resolve_bare_completed (h : JoinsLiterals part) (lookup : Lookup)
    (hbefore : ¬ opening <:+: before) (hname : IsBareName name) (c : Completion after) :
    (Value.resolve lookup (before ++ (bareReference name ++ after))).segments.flatMap part =
      part (.literal before) ++ (part ((c.reference name).resolve lookup) ++
        (Value.resolve lookup c.rest).segments.flatMap part) := by
  rw [resolve_clear h lookup (clear_before_bare hbefore name after), ← c.written_reference name,
    resolve_written h lookup (c.wellFormed_reference hname)]

end

/-- Behind text without an opening, a bare reference stays as it is and what comes after it is
resolved by itself, if that does not complete it. If it does, the two together are one reference,
and only what is left after the completion is resolved by itself. -/
theorem resolve_bare (lookup : Lookup) {before name : Text} (hbefore : ¬ opening <:+: before)
    (hname : IsBareName name) (after : Text) :
    (¬ Nonempty (Completion after) →
      (Value.resolve lookup (before ++ (bareReference name ++ after))).text =
          before ++ bareReference name ++ (Value.resolve lookup after).text ∧
        (Value.resolve lookup (before ++ (bareReference name ++ after))).entries =
          (Value.resolve lookup after).entries) ∧
    (∀ c : Completion after,
      (Value.resolve lookup (before ++ (bareReference name ++ after))).text =
          before ++ (((c.reference name).resolve lookup).text ++ (Value.resolve lookup c.rest).text) ∧
        (Value.resolve lookup (before ++ (bareReference name ++ after))).entries =
          ((c.reference name).resolve lookup).entries ++ (Value.resolve lookup c.rest).entries) := by
  constructor
  · intro hnone
    exact ⟨resolve_bare_alone joinsLiterals_text lookup hbefore hname hnone,
      resolve_bare_alone joinsLiterals_entries lookup hbefore hname hnone⟩
  · intro c
    exact ⟨resolve_bare_completed joinsLiterals_text lookup hbefore hname c,
      resolve_bare_completed joinsLiterals_entries lookup hbefore hname c⟩

/-- A bare width before a colour without a variable, and before one that completes it. -/
theorem bare_width_stays :
    let lookup : Lookup := fun _ => none
    (¬ opening <:+: Text.of "0 " ∧ IsBareName "--W" ∧ ¬ Nonempty (Completion " solid red")) ∧
      (Value.resolve lookup ("0 " ++ (bareReference "--W" ++ " solid red"))).text =
        "0 " ++ bareReference "--W" ++ (Value.resolve lookup " solid red").text ∧
      ∃ c : Completion " solid var(--C, #ABABAB)",
        (Value.resolve lookup ("0 " ++ (bareReference "--W" ++ " solid var(--C, #ABABAB)"))).text =
          "0 " ++ (((c.reference "--W").resolve lookup).text ++ (Value.resolve lookup c.rest).text) := by
  intro lookup
  have hbefore : ¬ opening <:+: Text.of "0 " := by decide
  have hname : IsBareName "--W" := by decide
  have hnone : ¬ Nonempty (Completion " solid red") :=
    fun ⟨c⟩ => absurd c.comma_mem (by decide)
  let completion : Completion " solid var(--C, #ABABAB)" :=
    ⟨" solid var(--C", " #ABABAB", [], by decide, by decide, by decide, by decide⟩
  refine ⟨⟨hbefore, hname, hnone⟩, ?_, completion, ?_⟩
  · exact ((resolve_bare lookup hbefore hname " solid red").1 hnone).1
  · exact ((resolve_bare lookup hbefore hname " solid var(--C, #ABABAB)").2 completion).1

/-- A bare width before a variable colour with a fallback: the width is lost, and so is the entry of
the colour. -/
theorem bare_width_swallows_color :
    let lookup : Lookup := fun name => if name = Text.of "--C" then some "red-500" else none
    let after : Text := " solid var(--C, #ABABAB)"
    ¬ opening <:+: ([] : Text) ∧ IsBareName "--W" ∧
      (Value.resolve lookup ([] ++ (bareReference "--W" ++ after))).text ≠
        [] ++ bareReference "--W" ++ (Value.resolve lookup after).text ∧
      (Value.resolve lookup ([] ++ (bareReference "--W" ++ after))).entries ≠
        (Value.resolve lookup after).entries := by
  decide

end UtilityCss
