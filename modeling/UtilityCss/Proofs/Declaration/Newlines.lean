import UtilityCss.Conversion
import UtilityCss.Proofs.Declaration.Grammar
import UtilityCss.Text.Newline
/-
  A style means the same with every end of its lines read as one line feed.

  Reading the ends of lines moves a style from where every character counts to
  where lines do. If every carriage return is directly followed by a line feed,
  the two cut a style in the same places, and a piece differs only by the
  carriage return at its end. That is blank, and lines are trimmed.

  What is proved:
    1. `trim_cut_unifyNewlines` : the trimmed lines are the same.
    2. `output_unifyNewlines` : so is what a conversion comes to.
-/

namespace UtilityCss

namespace Text

/-- Every carriage return is directly followed by a line feed. -/
def ReturnsFed : Text → Prop
  | [] => True
  | c :: rest => (c = .char '\r' → rest.head? = some (.char '\n')) ∧ ReturnsFed rest

instance decidableReturnsFed : (t : Text) → Decidable t.ReturnsFed
  | [] => inferInstanceAs (Decidable True)
  | c :: rest =>
    have := decidableReturnsFed rest
    inferInstanceAs (Decidable ((c = .char '\r' → rest.head? = some (.char '\n')) ∧ ReturnsFed rest))

theorem trimEnd_append_blank {c : CodePoint} (hc : isBlank c = true) (t : Text) :
    trimEnd (t ++ [c]) = trimEnd t := by
  rw [trimEnd, List.reverse_append, List.reverse_singleton, List.singleton_append,
    List.dropWhile_cons_of_pos hc, trimEnd]

/-- A blank behind a text is of no matter to its trim. -/
theorem trim_append_blank {c : CodePoint} (hc : isBlank c = true) (t : Text) :
    trim (t ++ [c]) = trim t := by
  rw [trim, trimStart, List.dropWhile_append]
  split
  · next hempty =>
    have hnil : trimStart t = [] := List.isEmpty_iff.1 hempty
    rw [List.dropWhile_cons_of_pos hc, trim, hnil]
    rfl
  · rw [trimEnd_append_blank hc]
    rfl

theorem trim_cutFrom_unifyNewlines {t : Text} (h : t.ReturnsFed) (piece : Text) :
    (cutFrom '\n' piece (unifyNewlines t)).map trim = (cutFrom '\n' piece t).map trim := by
  fun_induction unifyNewlines t generalizing piece with
  | case1 => rfl
  | case2 rest ih =>
    -- The carriage return ends up in the piece before the line feed, and is trimmed there.
    have hpiece : trim (.char '\r' :: piece).reverse = trim piece.reverse := by
      rw [List.reverse_cons]
      exact trim_append_blank (by decide) piece.reverse
    have hrest := ih h.2.2 []
    simp only [cutFrom, if_true, List.map_cons, hrest]
    rw [if_neg (by decide), List.map_cons, hpiece]
  | case3 c rest hr ih =>
    have hc : ¬ c = '\r' := by
      rintro rfl
      obtain ⟨more, hmore⟩ := List.head?_eq_some_iff.1 (h.1 rfl)
      exact hr more rfl hmore
    rw [if_neg hc, cutFrom, cutFrom]
    split
    · rw [List.map_cons, List.map_cons, ih h.2]
    · exact ih h.2 (c :: piece)

theorem trim_cut_unifyNewlines {t : Text} (h : t.ReturnsFed) :
    (cut '\n' (unifyNewlines t)).map trim = (cut '\n' t).map trim := trim_cutFrom_unifyNewlines h []

end Text

theorem Declaration.all_unifyNewlines {css : Text} (h : css.ReturnsFed) :
    all (Text.unifyNewlines css) = all css := by
  rw [all, lines, Text.trim_cut_unifyNewlines h, all, lines]

namespace Conversion

/-- A conversion comes to the same with every end of a line in its style as one line feed. -/
theorem output_unifyNewlines (lookup : Lookup) {css : Text} (h : css.ReturnsFed)
    (variants existing : Text) :
    (⟨Text.unifyNewlines css, variants, existing⟩ : Conversion).output lookup =
      (⟨css, variants, existing⟩ : Conversion).output lookup := by
  have hclasses : (⟨Text.unifyNewlines css, variants, existing⟩ : Conversion).classes lookup =
      (⟨css, variants, existing⟩ : Conversion).classes lookup := by
    rw [classes, classes, declarations, declarations, Declarations.ofStyle, Declarations.ofStyle,
      Declaration.all_unifyNewlines h]
  rw [output, output, merged_congr (varied_congr hclasses rfl) rfl]

end Conversion

end UtilityCss
