import UtilityCss.Text.Blank
/-
  Ends of lines: a carriage return, with or without a line feed after it, is
  read as one line feed.

  What is proved:
    1. `unifyNewlines_of_no_return` : a text without carriage returns stays as
       it is.
-/

namespace UtilityCss.Text

/-- The text with every end of a line as one line feed. -/
def unifyNewlines : Text → Text
  | [] => []
  | '\r' :: '\n' :: rest => '\n' :: unifyNewlines rest
  | c :: rest => (if c = '\r' then '\n' else c) :: unifyNewlines rest

/-- A text without carriage returns stays as it is. -/
theorem unifyNewlines_of_no_return {t : Text} (h : CodePoint.char '\r' ∉ t) :
    unifyNewlines t = t := by
  fun_induction unifyNewlines t with
  | case1 => rfl
  | case2 rest ih => simp at h
  | case3 c rest hr ih =>
    simp only [List.mem_cons, not_or] at h
    have hc : ¬c = '\r' := fun e => h.1 e.symm
    rw [ih h.2, if_neg hc]

end UtilityCss.Text
