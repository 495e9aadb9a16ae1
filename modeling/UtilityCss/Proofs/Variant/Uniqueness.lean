import UtilityCss.Proofs.Variant.Prefixing
/-
  A class is taken apart in one way only.

  Three things tell the pieces of a class: joined with colons they are the
  class, no piece has a colon at depth zero, and a piece with another one
  behind it closes its brackets. The scan keeps them, since the depth that it
  remembers is that of the piece it is in. Other pieces of which they hold are
  the same: each of them is read to its end before its colon is met.

  What is proved:
    1. `split_join` : pieces that are so, joined with colons, are taken apart
       into themselves.
    2. `takenApart_split` : the pieces that a class is taken apart into are so.
    3. `taken_apart_in_one_way` : there are no others, and a utility is its own
       utility, of the same category.
-/

namespace UtilityCss

namespace Variants

/-- Pieces that are those of a class between its colons at depth zero. -/
structure TakenApart (cls : Text) (parts : Variants) : Prop where
  join : Text.joinWith [.char ':'] (parts.variants ++ [parts.utility]) = cls
  whole : ∀ piece ∈ parts.variants ++ [parts.utility], Whole piece
  closed : ∀ piece ∈ parts.variants, Closed piece

/-! ## Pieces that are joined -/

theorem Whole.split_eq {t : Text} (h : Whole t) : split t = ⟨[], t⟩ := by
  have hvariants : (split t).variants = [] := (variants_nil_iff t 0 []).2 h
  have hutility : (split t).utility = t := h.utilityOf_eq
  calc split t = ⟨(split t).variants, (split t).utility⟩ := rfl
    _ = ⟨[], t⟩ := by rw [hvariants, hutility]

/-- Pieces without a colon at depth zero, all but the last of which close their brackets, are read
back from their joined text. -/
theorem split_join {variants : List Text} {utility : Text}
    (hvariants : ∀ piece ∈ variants, Whole piece ∧ Closed piece) (hutility : Whole utility) :
    split (Text.joinWith [.char ':'] (variants ++ [utility])) = ⟨variants, utility⟩ := by
  induction variants with
  | nil => exact hutility.split_eq
  | cons piece more ih =>
    rw [List.forall_mem_cons] at hvariants
    obtain ⟨⟨hwhole, hclosed⟩, hmore⟩ := hvariants
    have hjoin : Text.joinWith [.char ':'] (piece :: more ++ [utility]) =
        piece ++ .char ':' :: Text.joinWith [.char ':'] (more ++ [utility]) := by
      rw [List.cons_append, Text.joinWith]
      · simp
      · simp
    rw [hjoin, split_append_colon hclosed, hwhole.split_eq, ih hmore]
    rfl

/-! ## The pieces of the scan -/

theorem whole_nil : Whole [] := by
  intro front back he
  simp at he

/-- A character behind a piece brings in no place where it is parted, unless it is a colon at depth
zero. -/
theorem Whole.concat {t : Text} (h : Whole t) {c : CodePoint} (hc : ¬ (c = .char ':' ∧ Closed t)) :
    Whole (t ++ [c]) := by
  intro front back he
  rcases List.eq_nil_or_concat back with rfl | ⟨back, d, rfl⟩
  · obtain ⟨rfl, hlast⟩ := List.append_inj' he rfl
    exact fun hclosed => hc ⟨List.singleton_inj.1 hlast, hclosed⟩
  · have he' : t ++ [c] = (front ++ .char ':' :: back) ++ [d] := by simpa using he
    exact h front back (List.append_inj' he' rfl).1

/-- What the scan leaves, when the piece it is in has no colon at depth zero and ends at the depth
that the scan remembers. -/
theorem splitFrom_pieces (cls : Text) : ∀ (depth : Nat) (piece : Text), Whole piece.reverse →
    depthFrom 0 piece.reverse = depth →
    (∀ part ∈ (splitFrom depth piece cls).variants, Whole part ∧ Closed part) ∧
      Whole (splitFrom depth piece cls).utility := by
  induction cls with
  | nil =>
    intro depth piece hwhole _
    exact ⟨by simp [splitFrom], hwhole⟩
  | cons c rest ih =>
    intro depth piece hwhole hdepth
    by_cases hmark : c = .char ':' ∧ depth = 0
    · -- The piece ends here, and the next one begins at depth zero.
      obtain ⟨hvariants, hutility⟩ := ih 0 [] whole_nil rfl
      simp only [splitFrom, hmark, and_self, if_true]
      refine ⟨?_, hutility⟩
      rw [List.forall_mem_cons]
      exact ⟨⟨hwhole, hdepth.trans hmark.2⟩, hvariants⟩
    · rw [splitFrom, if_neg hmark]
      have hnext : depthFrom 0 (c :: piece).reverse = depthAfter depth c := by
        rw [List.reverse_cons, depthFrom_append, hdepth]
        rfl
      refine ih (depthAfter depth c) (c :: piece) ?_ hnext
      rw [List.reverse_cons]
      refine hwhole.concat ?_
      rintro ⟨hcolon, hclosed⟩
      exact hmark ⟨hcolon, hdepth.symm.trans hclosed⟩

theorem takenApart_split (cls : Text) : TakenApart cls (split cls) := by
  obtain ⟨hvariants, hutility⟩ := splitFrom_pieces cls 0 [] whole_nil rfl
  refine ⟨join_split cls, ?_, fun piece hpiece => (hvariants piece hpiece).2⟩
  intro piece hpiece
  rcases List.mem_append.1 hpiece with hpiece | hpiece
  · exact (hvariants piece hpiece).1
  · rw [List.mem_singleton.1 hpiece]
    exact hutility

theorem TakenApart.eq_split {cls : Text} {parts : Variants} (h : TakenApart cls parts) :
    parts = split cls := by
  have hvariants : ∀ piece ∈ parts.variants, Whole piece ∧ Closed piece := fun piece hpiece =>
    ⟨h.whole piece (List.mem_append_left _ hpiece), h.closed piece hpiece⟩
  have hutility : Whole parts.utility := h.whole parts.utility (by simp)
  rw [← h.join, split_join hvariants hutility]

theorem whole_utilityOf (cls : Text) : Whole (utilityOf cls) :=
  (takenApart_split cls).whole (utilityOf cls) (by simp [utilityOf])

end Variants

open Variants

/-- A class is joined from the pieces that it is taken apart into, none of which has a colon at depth
zero and of which the variants close their brackets, and from no others. Its utility has no
variants, and it has the category of its utility. -/
theorem taken_apart_in_one_way (cls : Text) :
    (∀ parts : Variants, TakenApart cls parts ↔ parts = split cls) ∧
      split (utilityOf cls) = ⟨[], utilityOf cls⟩ ∧ categoryOf cls = categoryOf (utilityOf cls) := by
  have hwhole : Whole (utilityOf cls) := whole_utilityOf cls
  refine ⟨fun parts => ⟨TakenApart.eq_split, ?_⟩, hwhole.split_eq, ?_⟩
  · rintro rfl
    exact takenApart_split cls
  · exact (categoryOf_eq_of_utilityOf_eq hwhole.utilityOf_eq).symm

/-- Brackets that nest, that are stray and that stay open, and pieces without a character. -/
example : split "a]:[[b]:]::[c:d" = ⟨["a]", "[[b]:]", ""].map Text.of, "[c:d"⟩ := by decide

end UtilityCss
