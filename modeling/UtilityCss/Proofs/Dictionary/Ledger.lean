import UtilityCss.Dictionary.Action
import UtilityCss.Proofs.OrderedMap.Writing
/-
  What a dictionary is meant to be, without any database.

  A ledger is a list of names and values in the order in which the names were
  first written. It is changed by three operations on lists, and says for each
  call on a dictionary what the entries are after it, what it gives back, and
  whether it would have something to store.

  What is proved:
    1. `entries_put`, `entries_erase`, `get?_eq_value?` : on ordered maps the
       three operations are those of the ledger.
    2. `entries_putAll_entryOf?` : the entries that pairs make, written one
       after the other, are what the ledger makes of the pairs.
    3. `mem_upsert`, `mem_foldl_enterPair` : where the entries after a write
       come from.
-/

namespace UtilityCss

/-- A call on a dictionary, except for those that read it anew or open another one. -/
inductive Call where
  | set (name value : Text)
  | get (name : Text)
  | remove (name : Text)
  | update (pairs : List (Text × Json))
  | contains (name : Text)
  | size
  | all
  | save
  | convert (conversion : Conversion)

/-- What a call gives back: an answer, or all entries. -/
inductive Reply where
  | answer (a : Answer)
  | entries (pairs : List (Text × Text))
  deriving DecidableEq, Repr

/-- Names and values, in the order in which the names were first written. -/
abbrev Ledger := List (Text × Text)

namespace Ledger

/-- A name that is there keeps its place; a new one goes to the end. -/
def upsert (l : Ledger) (name value : Text) : Ledger :=
  if name ∈ l.map Prod.fst then l.map (fun e => if e.1 = name then (name, value) else e)
  else l ++ [(name, value)]

def delete (l : Ledger) (name : Text) : Ledger := l.filter (fun e => e.1 ≠ name)

def value? (l : Ledger) (name : Text) : Option Text :=
  (l.find? (fun e => e.1 = name)).map Prod.snd

/-- Whether nothing is left of the name or of the value once they are trimmed. -/
def Blank (name value : Text) : Prop := Text.trim name = [] ∨ Text.trim value = []

instance (name value : Text) : Decidable (Blank name value) := inferInstanceAs (Decidable (_ ∨ _))

/-- The trimmed name and value written, unless one of them is blank. -/
def enter (l : Ledger) (name value : Text) : Ledger :=
  if Blank name value then l else l.upsert (Text.trim name) (Text.trim value)

/-- Whether a pair makes an entry: its value is a text, and no part is blank. -/
def makesEntry : Text × Json → Bool
  | (name, .text value) => ¬ Blank name value
  | _ => false

def enterPair (l : Ledger) : Text × Json → Ledger
  | (name, .text value) => l.enter name value
  | _ => l

/-- The entries after a call. -/
def after (l : Ledger) : Call → Ledger
  | .set name value => l.enter name value
  | .remove name => l.delete name
  | .update pairs => pairs.foldl enterPair l
  | _ => l

/-- What a call gives back. -/
def reply (l : Ledger) : Call → Except Session.Failure Reply
  | .set name value =>
    if Blank name value then .error (.blank (Text.trim name) (Text.trim value))
    else .ok (.answer .done)
  | .get name => .ok (.answer (.ofOption (l.value? name)))
  | .remove name => .ok (.answer (.flag (name ∈ l.map Prod.fst)))
  | .update pairs => .ok (.answer (.count (pairs.countP makesEntry)))
  | .contains name => .ok (.answer (.flag (name ∈ l.map Prod.fst)))
  | .size => .ok (.answer (.count l.length))
  | .all => .ok (.entries l)
  | .save => .ok (.answer .done)
  | .convert conversion => .ok (.answer (.text (conversion.output l.value?)))

/-- Whether a call has something to store. -/
def stores (l : Ledger) : Call → Bool
  | .set name value => ¬ Blank name value
  | .remove name => name ∈ l.map Prod.fst
  | .update pairs => pairs.any makesEntry
  | .save => true
  | _ => false

/-! ## Ordered maps as ledgers -/

theorem put_eq_upsert (name value : Text) {pairs : Ledger} (h : (pairs.map Prod.fst).Nodup) :
    Pairs.put name value pairs = upsert pairs name value := by
  induction pairs with
  | nil => rfl
  | cons p rest ih =>
    obtain ⟨k, v⟩ := p
    rw [List.map_cons, List.nodup_cons] at h
    obtain ⟨hk, hrest⟩ := h
    by_cases he : k = name
    · -- The name is met here, and by distinctness nowhere else.
      subst he
      have hkeep : rest.map (fun e => if e.1 = k then (k, value) else e) = rest := by
        rw [List.map_congr_left (g := id), List.map_id]
        intro e hmem
        have hne : e.1 ≠ k := fun h => hk (List.mem_map.2 ⟨e, hmem, h⟩)
        exact if_neg hne
      simp [Pairs.put, upsert, hkeep]
    · have he' : ¬ name = k := fun h => he h.symm
      rw [Pairs.put, if_neg he, ih hrest]
      unfold upsert
      rw [List.map_cons, List.map_cons, if_neg he]
      by_cases hmem : name ∈ rest.map Prod.fst
      · rw [if_pos hmem, if_pos (List.mem_cons_of_mem k hmem)]
      · rw [if_neg hmem, if_neg (by simpa [he'] using hmem)]
        rfl

theorem entries_put (m : Entries) (name value : Text) :
    (m.put name value).entries = upsert m.entries name value := put_eq_upsert name value m.distinct

theorem entries_erase (m : Entries) (name : Text) :
    (m.erase name).entries = delete m.entries name := by
  show Pairs.erase name m.entries = delete m.entries name
  induction m.entries with
  | nil => rfl
  | cons p rest ih =>
    obtain ⟨k, v⟩ := p
    by_cases hk : k = name
    · simpa [Pairs.erase, delete, hk] using ih
    · simpa [Pairs.erase, delete, hk] using ih

theorem get?_eq_value? (m : Entries) (name : Text) : m.get? name = value? m.entries name := by
  show Pairs.get? name m.entries = value? m.entries name
  induction m.entries with
  | nil => rfl
  | cons p rest ih =>
    obtain ⟨k, v⟩ := p
    by_cases hk : k = name <;> simp [Pairs.get?, value?, hk, ih]

/-- An entry after a write is the one written or was there before. -/
theorem mem_upsert {l : Ledger} {name value : Text} {e : Text × Text} (h : e ∈ l.upsert name value) :
    e = (name, value) ∨ e ∈ l := by
  unfold upsert at h
  split at h
  · obtain ⟨d, hd, rfl⟩ := List.mem_map.1 h
    split
    · exact Or.inl rfl
    · exact Or.inr hd
  · rcases List.mem_append.1 h with h | h
    · exact Or.inr h
    · exact Or.inl (List.mem_singleton.1 h)

theorem mem_upsert_self (l : Ledger) (name value : Text) : (name, value) ∈ l.upsert name value := by
  unfold upsert
  split
  · next h =>
    obtain ⟨e, he, hname⟩ := List.mem_map.1 h
    exact List.mem_map.2 ⟨e, he, if_pos hname⟩
  · exact List.mem_append_right l (List.mem_singleton_self _)

/-! ## Pairs that make entries -/

theorem entryOf?_text (name value : Text) :
    Session.entryOf? (name, .text value) =
      if Blank name value then none else some (Text.trim name, Text.trim value) := rfl

theorem entryOf?_isSome (pair : Text × Json) :
    (Session.entryOf? pair).isSome = makesEntry pair := by
  obtain ⟨name, value⟩ := pair
  cases value with
  | text value =>
    rw [entryOf?_text, makesEntry]
    by_cases h : Blank name value <;> simp [h]
  | _ => rfl

/-- A pair is entered by writing the entry that it makes. -/
theorem enterPair_eq (m : Entries) (pair : Text × Json) :
    enterPair m.entries pair =
      ((Session.entryOf? pair).elim m (fun e => m.put e.1 e.2)).entries := by
  obtain ⟨name, value⟩ := pair
  cases value with
  | text value =>
    rw [entryOf?_text, enterPair, enter]
    split
    · rfl
    · exact (entries_put m (Text.trim name) (Text.trim value)).symm
  | _ => rfl

theorem entries_putAll_entryOf? (m : Entries) (pairs : List (Text × Json)) :
    (m.putAll (pairs.filterMap Session.entryOf?)).entries = pairs.foldl enterPair m.entries := by
  induction pairs generalizing m with
  | nil => rfl
  | cons pair rest ih =>
    rw [List.foldl_cons, enterPair_eq, List.filterMap_cons]
    cases hentry : Session.entryOf? pair with
    | none => exact ih m
    | some e => exact ih (m.put e.1 e.2)

/-- An entry after pairs are entered is made by one of them or was there before. -/
theorem mem_foldl_enterPair {l : Ledger} {pairs : List (Text × Json)} {e : Text × Text}
    (h : e ∈ pairs.foldl enterPair l) : e ∈ l ∨ ∃ pair ∈ pairs, Session.entryOf? pair = some e := by
  induction pairs generalizing l with
  | nil => exact Or.inl h
  | cons pair rest ih =>
    rcases ih h with hbefore | ⟨q, hq, hentry⟩
    · obtain ⟨name, value⟩ := pair
      cases value with
      | text value =>
        rw [enterPair, enter] at hbefore
        split at hbefore
        · exact Or.inl hbefore
        · next hblank =>
          rcases mem_upsert hbefore with rfl | hl
          · exact Or.inr ⟨_, List.mem_cons_self, by rw [entryOf?_text, if_neg hblank]⟩
          · exact Or.inl hl
      | _ => exact Or.inl hbefore
    · exact Or.inr ⟨q, List.mem_cons_of_mem _ hq, hentry⟩

theorem length_entryOf? (pairs : List (Text × Json)) :
    (pairs.filterMap Session.entryOf?).length = pairs.countP makesEntry := by
  rw [List.length_filterMap_eq_countP]
  simp only [entryOf?_isSome]

end Ledger

end UtilityCss
