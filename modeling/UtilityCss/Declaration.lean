import UtilityCss.OrderedMap
import UtilityCss.Reference
/-
  Declarations, one on a line, as a design tool exports them.

  A line is `property: value;`. The property is of letters and hyphens, the
  value starts after the blanks that follow the colon and ends at the last
  semicolon, which ends the line. Lines of any other form are passed over. Of
  two lines with the same property the first gives the place and the last
  gives the value.

  What is proved:
    1. `read?_eq_some_iff` : a line is read as a declaration exactly when it
       is one as it is written.
-/

namespace UtilityCss

/-- The declarations of a style: each property with its value. -/
abbrev Declarations := OrderedMap Text Value

/-- The property of a line and its value, as they are written. -/
structure Declaration where
  property : Text
  value : Text
  deriving DecidableEq, Repr

namespace Declaration

/-- Whether a character may stand in the name of a property. -/
def isNameChar (c : CodePoint) : Bool := c.isLetter || c == '-'

/-- The declaration that a line holds, if it is one. -/
def read? (line : Text) : Option Declaration :=
  let property := line.takeWhile isNameChar
  match Text.trimStart (line.dropWhile isNameChar) with
  | ':' :: rest =>
    let body := Text.trimStart rest
    if property ≠ [] ∧ body.getLast? = some (.char ';') then some ⟨property, body.dropLast⟩
    else none
  | _ => none

/-- The lines of a style without the blanks around them, but for empty ones. -/
def lines (css : Text) : List Text := ((Text.cut '\n' css).map Text.trim).filter (· ≠ [])

def all (css : Text) : List Declaration := (lines css).filterMap read?

/-- The lines of a style that are no declarations. -/
def unrecognised (css : Text) : List Text := (lines css).filter (fun line => (read? line).isNone)

/-- Each declaration's property with its value, references looked up. -/
def resolve (lookup : Lookup) (d : Declaration) : Text × Value :=
  (d.property, Value.resolve lookup d.value)

end Declaration

/-- The declarations of a style with their references looked up. -/
def Declarations.ofStyle (lookup : Lookup) (css : Text) : Declarations :=
  OrderedMap.ofPairs ((Declaration.all css).map (Declaration.resolve lookup))

/-! ## Small laws -/

namespace Declaration

/-- How a declaration is written in a line: the property, blanks, a colon, blanks, the value, and a
semicolon. The blanks behind the colon are all there are, so no value starts with one. -/
structure WrittenAs (d : Declaration) (line : Text) : Prop where
  property_ne_nil : d.property ≠ []
  property_name : ∀ c ∈ d.property, isNameChar c = true
  value_solid : ∀ c ∈ d.value.head?, Text.isBlank c = false
  parts : ∃ before after : Text,
    (∀ c ∈ before, Text.isBlank c = true) ∧ (∀ c ∈ after, Text.isBlank c = true) ∧
      line = d.property ++ (before ++ .char ':' :: (after ++ (d.value ++ [.char ';'])))

/-- The characters of a name by number: a hyphen, and the letters of ASCII. -/
theorem toNat_of_isNameChar {c : CodePoint} (h : isNameChar c = true) :
    c.toNat = 45 ∨ (65 ≤ c.toNat ∧ c.toNat ≤ 90) ∨ (97 ≤ c.toNat ∧ c.toNat ≤ 122) := by
  rcases Bool.or_eq_true_iff.1 h with h | h
  · cases c with
    | half index => cases h
    | char c =>
      have hletter : (decide (65 ≤ c.val ∧ c.val ≤ 90) ||
          decide (97 ≤ c.val) && decide (c.val ≤ 122)) = true := h
      simp only [Bool.or_eq_true, Bool.and_eq_true, decide_eq_true_eq,
        UInt32.le_iff_toNat_le] at hletter
      exact Or.inr hletter
  · rw [beq_iff_eq.1 h]
    exact Or.inl rfl

theorem isBlank_of_isNameChar {c : CodePoint} (h : isNameChar c = true) : Text.isBlank c = false := by
  have hnumber := toNat_of_isNameChar h
  simp only [Text.isBlank, Bool.or_eq_false_iff, Bool.and_eq_false_iff, beq_eq_false_iff_ne,
    decide_eq_false_iff_not]
  omega

theorem isNameChar_of_isBlank {c : CodePoint} (h : Text.isBlank c = true) : isNameChar c = false := by
  rw [Bool.eq_false_iff]
  intro hname
  rw [isBlank_of_isNameChar hname] at h
  cases h

theorem WrittenAs.of_read? {line : Text} {d : Declaration} (h : read? line = some d) :
    d.WrittenAs line := by
  have hname : ∀ c ∈ line.takeWhile isNameChar, isNameChar c = true :=
    fun c hc => List.all_eq_true.1 List.all_takeWhile c hc
  have hblanks : ∀ t : Text, ∀ c ∈ t.takeWhile Text.isBlank, Text.isBlank c = true :=
    fun t c hc => List.all_eq_true.1 List.all_takeWhile c hc
  have halves : ∀ t : Text, t.takeWhile Text.isBlank ++ Text.trimStart t = t :=
    fun t => List.takeWhile_append_dropWhile
  simp only [read?] at h
  split at h
  · next rest hrest =>
    split at h
    · next hbody =>
      obtain ⟨hne, hlast⟩ := hbody
      obtain ⟨value, hvalue⟩ := List.getLast?_eq_some_iff.1 hlast
      rw [hvalue, List.dropLast_concat, Option.some.injEq] at h
      subst h
      refine ⟨hne, hname, ?_, _, _, hblanks (line.dropWhile isNameChar), hblanks rest, ?_⟩
      · intro c hc
        apply Text.head?_dropWhile Text.isBlank rest
        show c ∈ (Text.trimStart rest).head?
        rw [hvalue, List.head?_append, Option.mem_def.1 hc]
        rfl
      · rw [← hvalue, halves, ← hrest, halves, List.takeWhile_append_dropWhile]
    · exact absurd h (by simp)
  · exact absurd h (by simp)

theorem WrittenAs.read? {line : Text} {d : Declaration} (h : d.WrittenAs line) :
    read? line = some d := by
  obtain ⟨before, after, hbefore, hafter, rfl⟩ := h.parts
  -- Each run ends where the text goes on: with a character that cannot stand in the run.
  have hvalue : ∀ c ∈ (d.value ++ [CodePoint.char ';']).head?, Text.isBlank c = false :=
    Text.forall_mem_head?_append h.value_solid (by decide)
  have hcolon : ∀ c ∈ (CodePoint.char ':' :: (after ++ (d.value ++ [CodePoint.char ';']))).head?,
      Text.isBlank c = false := fun c hc => Option.some.inj hc ▸ by decide
  have hname :
      ∀ c ∈ (before ++ CodePoint.char ':' :: (after ++ (d.value ++ [CodePoint.char ';']))).head?,
        isNameChar c = false :=
    Text.forall_mem_head?_append
      (fun c hc => isNameChar_of_isBlank (hbefore c (List.mem_of_mem_head? hc)))
      (fun c hc => Option.some.inj hc ▸ by decide)
  simp only [Declaration.read?, Text.takeWhile_run h.property_name hname,
    Text.dropWhile_run h.property_name hname, Text.trimStart, Text.dropWhile_run hbefore hcolon,
    Text.dropWhile_run hafter hvalue]
  rw [if_pos ⟨h.property_ne_nil, List.getLast?_concat ..⟩, List.dropLast_concat]

/-- A line is read as a declaration exactly when it is one as it is written. -/
theorem read?_eq_some_iff {line : Text} {d : Declaration} :
    Declaration.read? line = some d ↔ d.WrittenAs line :=
  ⟨WrittenAs.of_read?, WrittenAs.read?⟩

end Declaration

end UtilityCss
