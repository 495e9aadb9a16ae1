import UtilityCss.OrderedMap
import UtilityCss.Text.Blank
/-
  The order of texts by code points, and maps in the order of their names.

  What is proved:
    1. `le_total`, `le_trans` : any two texts are in order one way or the
       other, and the order carries over.
    2. `sorted_perm` : sorting a map neither adds nor loses an entry.
    3. `sorted_of_entries_eq` : a map in the order of its names stays as it is.
-/

namespace UtilityCss

namespace Text

/-- Whether a text comes before another or is the same: at the first place where they differ the
code point decides, and a text comes before its continuations. -/
def le : Text → Text → Bool
  | [], _ => true
  | _ :: _, [] => false
  | c :: cs, d :: ds => if c = d then le cs ds else c.toNat ≤ d.toNat

/-- Any two texts are in order one way or the other. -/
theorem le_total (s t : Text) : (le s t || le t s) = true := by
  induction s generalizing t with
  | nil => simp [le]
  | cons c cs ih =>
    cases t with
    | nil => simp [le]
    | cons d ds =>
      by_cases h : c = d
      · subst h; simpa [le] using ih ds
      · have h' : ¬ d = c := fun e => h e.symm
        simp only [le, h, h', if_false, Bool.or_eq_true, decide_eq_true_eq]
        omega

/-- The order carries over. -/
theorem le_trans (s t u : Text) (hst : le s t = true) (htu : le t u = true) : le s u = true := by
  induction s generalizing t u with
  | nil => simp [le]
  | cons c cs ih =>
    cases t with
    | nil => simp [le] at hst
    | cons d ds =>
      cases u with
      | nil => simp [le] at htu
      | cons e es =>
        by_cases hcd : c = d
        · subst hcd
          by_cases hce : c = e
          · subst hce; simp only [le, if_true] at *; exact ih ds es hst htu
          · simp only [le, hce, if_false] at *; exact htu
        · by_cases hde : d = e
          · subst hde; simp only [le, hcd, if_false] at *; exact hst
          · simp only [le, hcd, hde, if_false, decide_eq_true_eq] at hst htu
            by_cases hce : c = e
            · subst hce
              -- The first and the last text agree here, so the one between them does too.
              have : c.toNat = d.toNat := by omega
              exact absurd (CodePoint.toNat_inj this) hcd
            · simp only [le, hce, if_false, decide_eq_true_eq]; omega

end Text

namespace OrderedMap

universe u

/-- The entries of a map in the order of their names. -/
def sorted {α : Type u} (m : OrderedMap Text α) : List (Text × α) :=
  m.entries.mergeSort (fun p q => Text.le p.1 q.1)

/-- Sorting a map neither adds nor loses an entry. -/
theorem sorted_perm {α : Type u} (m : OrderedMap Text α) : m.sorted.Perm m.entries :=
  List.mergeSort_perm _ _

/-- A map in the order of its names stays as it is. -/
theorem sorted_of_entries_eq {α : Type u} {m n : OrderedMap Text α} (h : n.entries = m.sorted) :
    n.sorted = m.sorted := by
  have hsorted : m.sorted.Pairwise (fun p q => Text.le p.1 q.1 = true) :=
    List.pairwise_mergeSort (fun p q r => Text.le_trans p.1 q.1 r.1)
      (fun p q => Text.le_total p.1 q.1) m.entries
  rw [sorted, h]
  exact List.mergeSort_of_pairwise hsorted

end OrderedMap

end UtilityCss
