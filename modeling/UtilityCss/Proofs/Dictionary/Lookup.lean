import UtilityCss.Proofs.Dictionary.Refinement
import UtilityCss.Proofs.OrderedMap.Writing
/-
  What a dictionary says of one name, before and after a change.

  A call writes or erases the names that it is given and leaves what the
  dictionary says of every other name as it was. The database has no part in
  this, whether it takes the change or refuses it.

  What is proved:
    1. `lookup_set`, `lookup_remove` : what is said of a name after it is set
       and after it is removed.
    2. `lookup_advance`, `lookup_follow` : what is said of a name that a step
       does not change, and that no step of a run changes.
-/

namespace UtilityCss

/-- The names that a call may write or erase. -/
def Call.changes : Call → List Text
  | .set name _ => [Text.trim name]
  | .remove name => [name]
  | .update pairs => pairs.map (fun p => Text.trim p.1)
  | _ => []

/-- The names that a step of a run may write or erase. -/
def Event.changes : Event → List Text
  | .call c => c.changes
  | .disturb _ => []

namespace Session

/-! ## Setting and removing -/

theorem lookup_set {s : Session} {name value : Text} (h : ¬ Ledger.Blank name value) (n : Text) :
    (set s name value).session.lookup n =
      if Text.trim name = n then some (Text.trim value) else s.lookup n := by
  have hentries := (set_entries s name value).trans (if_neg h)
  rw [lookup, hentries]
  exact OrderedMap.get?_put s.dictionary.entries (Text.trim name) n (Text.trim value)

theorem set_of_result {s : Session} {name value : Text}
    (h : ∀ n v, (set s name value).result ≠ .error (.blank n v)) : ¬ Ledger.Blank name value := by
  intro hblank
  apply h (Text.trim name) (Text.trim value)
  rw [set_of_blank hblank]

theorem lookup_remove (s : Session) (name n : Text) :
    (remove s name).session.lookup n = if name = n then none else s.lookup n := by
  rw [lookup, remove_entries, lookup]
  split
  · exact OrderedMap.get?_erase s.dictionary.entries name n
  · next hnot =>
    -- A name that is not there is not looked up either.
    have hnone : s.dictionary.entries.get? name = none := by
      simpa [OrderedMap.contains] using hnot
    split
    · next hname => rw [← hname, hnone]
    · rfl

/-! ## Names that are not changed -/

theorem lookup_update {s : Session} {pairs : List (Text × Json)} {n : Text}
    (h : n ∉ pairs.map (fun p => Text.trim p.1)) :
    (update s pairs).session.lookup n = s.lookup n := by
  have hadded : n ∉ (pairs.filterMap entryOf?).map Prod.fst := by
    intro hmem
    obtain ⟨entry, hentry, rfl⟩ := List.mem_map.1 hmem
    obtain ⟨⟨name, value⟩, hpair, hof⟩ := List.mem_filterMap.1 hentry
    apply h
    cases value with
    | text value =>
      rw [Ledger.entryOf?_text] at hof
      split at hof
      · cases hof
      · rw [← Option.some.inj hof]
        exact List.mem_map.2 ⟨_, hpair, rfl⟩
    | _ => cases hof
  by_cases hnone : pairs.filterMap entryOf? = []
  · rw [update_of_none hnone]
  · rw [update_of_some hnone, Outcome.map, Outcome.after, lookup, save_dictionary]
    exact OrderedMap.get?_putAll_of_not_mem s.dictionary.entries hadded

variable [Json.Limit]

/-- A step leaves alone what is said of a name that it does not change. -/
theorem lookup_advance {s : Session} {event : Event} {n : Text} (h : n ∉ event.changes) :
    (s.advance event).lookup n = s.lookup n := by
  cases event with
  | disturb d =>
    show ((s.step d.action).session).lookup n = s.lookup n
    rw [lookup, dictionary_disturb, lookup]
  | call c =>
    cases c with
    | set name value =>
      have hname : Text.trim name ≠ n := fun e => h (e ▸ List.mem_singleton_self _)
      show ((set s name value).session).lookup n = s.lookup n
      by_cases hblank : Ledger.Blank name value
      · rw [set_of_blank hblank]
      · rw [lookup_set hblank, if_neg hname]
    | remove name =>
      have hname : name ≠ n := fun e => h (e ▸ List.mem_singleton_self _)
      show ((remove s name).session).lookup n = s.lookup n
      rw [lookup_remove, if_neg hname]
    | update pairs => exact lookup_update h
    | save =>
      show ((save s).session).lookup n = s.lookup n
      rw [lookup, save_dictionary, lookup]
    | get name => rfl
    | contains name => rfl
    | size => rfl
    | all => rfl
    | convert conversion => rfl

/-- A run leaves alone what is said of a name that none of its steps changes. -/
theorem lookup_follow {s : Session} {events : List Event} {n : Text}
    (h : ∀ event ∈ events, n ∉ event.changes) : (s.follow events).lookup n = s.lookup n := by
  induction events generalizing s with
  | nil => rfl
  | cons event rest ih =>
    rw [List.forall_mem_cons] at h
    show ((s.advance event).follow rest).lookup n = s.lookup n
    rw [ih h.2, lookup_advance h.1]

end Session

end UtilityCss
