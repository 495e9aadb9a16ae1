import Mathlib.Data.Fin.VecNotation
import Mathlib.Data.Fintype.Basic
import Mathlib.Data.List.FinRange
import UtilityCss.Conversion
import UtilityCss.Proofs.Declaration.Grammar
import UtilityCss.Proofs.Utility.Composition
/-
  The order of the lines of a style, where it is of no matter.

  Another order of lines changes where the properties stand in what the style
  declares, and with it the order in which a map of them is listed. The classes
  do not depend on that. They depend on what each property holds, which is
  settled by the last of its own declarations; so only the order of the
  declarations of one property has to be kept. Lines that are passed over may
  go anywhere.

  What is proved:
    1. `filter_rearrange` : the lines of one kind stand as they stood, if the
       new order keeps those of this kind in their order.
    2. `get?_rearrange` : each property holds what it held.
    3. `output_rearrange` : the conversion has the same output.
-/

namespace UtilityCss

namespace Declaration

/-! ## Orders of lines -/

/-- Two lines that declare the same property. -/
def SameProperty (a b : Text) : Prop :=
  ∃ d e : Declaration,
    d.WrittenAs (Text.trim a) ∧ e.WrittenAs (Text.trim b) ∧ d.property = e.property

/-- Lines in a new order: at each place the line that stood where the order says. -/
def rearrange (lines : List Text) (order : Equiv.Perm (Fin lines.length)) : List Text :=
  (List.finRange lines.length).map (fun i => lines.get (order i))

/-- A new order in which two lines that declare the same property stand as they stood. -/
def KeepsProperties (lines : List Text) (order : Equiv.Perm (Fin lines.length)) : Prop :=
  ∀ i j, i < j → SameProperty (lines.get (order i)) (lines.get (order j)) → order i < order j

/-- Whether a line declares a property. -/
def declares (p line : Text) : Bool := (ofLine? line).any (fun d => d.property = p)

theorem sameProperty_iff {a b : Text} :
    SameProperty a b ↔ (ofLine? a).any (fun d => declares d.property b) = true := by
  simp only [SameProperty, declares, Option.any_eq_true, decide_eq_true_eq, ← ofLine?_eq_some_iff]
  constructor
  · rintro ⟨d, e, hd, he, h⟩
    exact ⟨d, hd, e, he, h.symm⟩
  · rintro ⟨d, hd, e, he, h⟩
    exact ⟨d, e, hd, he, h.symm⟩

instance (a b : Text) : Decidable (SameProperty a b) := decidable_of_iff _ sameProperty_iff.symm

instance (lines : List Text) (order : Equiv.Perm (Fin lines.length)) :
    Decidable (KeepsProperties lines order) :=
  inferInstanceAs (Decidable (∀ i j, i < j → _))

theorem sameProperty_of_declares {p a b : Text} (ha : declares p a = true)
    (hb : declares p b = true) : SameProperty a b := by
  simp only [declares, Option.any_eq_true, decide_eq_true_eq, ofLine?_eq_some_iff] at ha hb
  obtain ⟨d, hd, hdp⟩ := ha
  obtain ⟨e, he, hep⟩ := hb
  exact ⟨d, e, hd, he, hdp.trans hep.symm⟩

/-! ## Lines of one kind -/

/-- Where a new order keeps the lines of one kind in their order, they are the same list. -/
theorem filter_rearrange {lines : List Text} {order : Equiv.Perm (Fin lines.length)}
    {kind : Text → Bool} (h : ∀ i j, i < j → kind (lines.get (order i)) = true →
      kind (lines.get (order j)) = true → order i < order j) :
    (rearrange lines order).filter kind = lines.filter kind := by
  -- The places that the lines of the kind come from are in ascending order before and after.
  have hafter :
      (((List.finRange lines.length).map order).filter (kind ∘ lines.get)).Pairwise (· < ·) := by
    rw [List.filter_map, List.pairwise_map]
    refine List.Pairwise.imp_of_mem ?_ ((List.pairwise_lt_finRange lines.length).filter _)
    intro i j hi hj hlt
    exact h i j hlt (List.mem_filter.1 hi).2 (List.mem_filter.1 hj).2
  have hbefore : ((List.finRange lines.length).filter (kind ∘ lines.get)).Pairwise (· < ·) :=
    (List.pairwise_lt_finRange lines.length).filter _
  have hperm : (((List.finRange lines.length).map order).filter (kind ∘ lines.get)).Perm
      ((List.finRange lines.length).filter (kind ∘ lines.get)) :=
    order.map_finRange_perm.filter _
  have hplaces := List.Perm.eq_of_pairwise
    (fun i j _ _ hij hji => absurd hij (Fin.lt_asymm hji)) hafter hbefore hperm
  calc (rearrange lines order).filter kind
      = (((List.finRange lines.length).map order).map lines.get).filter kind := by
        rw [rearrange, List.map_map]
        rfl
    _ = (((List.finRange lines.length).map order).filter (kind ∘ lines.get)).map lines.get :=
        List.filter_map
    _ = ((List.finRange lines.length).filter (kind ∘ lines.get)).map lines.get := by rw [hplaces]
    _ = ((List.finRange lines.length).map lines.get).filter kind := List.filter_map.symm
    _ = lines.filter kind := by rw [List.map_get_finRange]

/-- The declarations of a property are those of the lines that declare it. -/
theorem filter_property (p : Text) (lines : List Text) :
    (lines.filterMap ofLine?).filter (fun d => d.property = p) =
      (lines.filter (declares p)).filterMap ofLine? := by
  rw [List.filter_filterMap, List.filterMap_filter]
  congr 1
  funext line
  unfold declares
  cases ofLine? line with
  | none => rfl
  | some d => by_cases h : d.property = p <;> simp [h, Option.filter]

end Declaration

open Declaration

section

variable (lookup : Lookup) {lines : List Text} {order : Equiv.Perm (Fin lines.length)}

theorem get?_rearrange (hfeed : ∀ line ∈ lines, .char '\n' ∉ line) (h : KeepsProperties lines order)
    (p : Text) :
    (Declarations.ofStyle lookup (styleOf (rearrange lines order))).get? p =
      (Declarations.ofStyle lookup (styleOf lines)).get? p := by
  have hfeed' : ∀ line ∈ rearrange lines order, .char '\n' ∉ line := by
    intro line hline
    obtain ⟨i, -, rfl⟩ := List.mem_map.1 hline
    exact hfeed _ (List.get_mem lines (order i))
  have hkeeps : ∀ i j, i < j → declares p (lines.get (order i)) = true →
      declares p (lines.get (order j)) = true → order i < order j :=
    fun i j hlt hi hj => h i j hlt (sameProperty_of_declares hi hj)
  rw [get?_ofStyle, get?_ofStyle, all_styleOf hfeed, all_styleOf hfeed', filter_property,
    filter_property, filter_rearrange hkeeps]

/-- A conversion has the same output when the lines of its style are put in another order, as long
as any two that declare the same property stay in theirs. -/
theorem output_rearrange (hfeed : ∀ line ∈ lines, .char '\n' ∉ line)
    (h : KeepsProperties lines order) (variants existing : Text) :
    Conversion.output lookup ⟨styleOf (rearrange lines order), variants, existing⟩ =
      Conversion.output lookup ⟨styleOf lines, variants, existing⟩ := by
  have hclasses : Conversion.classes lookup ⟨styleOf (rearrange lines order), variants, existing⟩ =
      Conversion.classes lookup ⟨styleOf lines, variants, existing⟩ :=
    utilities_congr (fun p _ => get?_rearrange lookup hfeed h p)
  have hmerged := Conversion.merged_congr (Conversion.varied_congr hclasses rfl) rfl
  exact congrArg ClassList.render hmerged

end

/-- The sides of a border change places, and a line that is no declaration comes between two of one
property. -/
theorem borders_change_places :
    let lookup : Lookup := fun _ => none
    let lines : List Text :=
      ["color: red;", "border-top: 1px solid red;", "color: blue;", "border: 2px solid red;", "on hover"]
    let order : Equiv.Perm (Fin lines.length) :=
      ⟨![0, 4, 3, 2, 1], ![0, 4, 3, 2, 1], by decide, by decide⟩
    (∀ line ∈ lines, .char '\n' ∉ line) ∧ KeepsProperties lines order ∧
      Declarations.ofStyle lookup (styleOf (rearrange lines order)) ≠
        Declarations.ofStyle lookup (styleOf lines) ∧
      Conversion.output lookup ⟨styleOf (rearrange lines order), "md", "flex"⟩ =
        Conversion.output lookup ⟨styleOf lines, "md", "flex"⟩ := by
  intro lookup lines order
  have hfeed : ∀ line ∈ lines, .char '\n' ∉ line := by decide
  have hkeeps : KeepsProperties lines order := by decide
  exact ⟨hfeed, hkeeps, by decide, output_rearrange lookup hfeed hkeeps "md" "flex"⟩

end UtilityCss
