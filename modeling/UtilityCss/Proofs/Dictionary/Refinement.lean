import UtilityCss.Proofs.Dictionary.Ledger
/-
  A dictionary is its ledger, whatever the database does.

  Every change of the entries is followed by an attempt to store them, on a
  database that may have lost its table or its connection. None of that is seen
  in the entries: each call does to them what it does to the ledger, and a step
  on the database alone does nothing. What is stored is not read again, since
  neither reading anew nor opening another dictionary is among the calls.

  What is proved:
    1. `set_succeeds`, `remove_succeeds`, `update_succeeds` : what a change
       gives back where saving does not fail.
    2. `follows_call` : what a call does to the entries and gives back, and the
       one case in which it fails although the ledger's does not.
    3. `dictionary_disturb` : a step on the database alone.
    4. `dictionary_follows_ledger` : the same along every run, and next to a
       dictionary without a database.
-/

namespace UtilityCss

/-- The action that a call is. Listing all entries is none, as it only looks. -/
def Call.action? : Call → Option Action
  | .set name value => some (.set name value)
  | .get name => some (.get name)
  | .remove name => some (.remove name)
  | .update pairs => some (.update pairs)
  | .contains name => some (.contains name)
  | .size => some .size
  | .all => none
  | .save => some .save
  | .convert conversion => some (.convert conversion)

/-- Something that happens to the database beside the dictionary. -/
inductive Disturbance where
  | readRow (key : Cell)
  | writeRow (key text : Cell)
  | dropTable
  | migrate
  | commit
  | closeConnection
  | closeDatabase
  | connect

def Disturbance.action : Disturbance → Action
  | .readRow key => .readRow key
  | .writeRow key text => .writeRow key text
  | .dropTable => .dropTable
  | .migrate => .migrate
  | .commit => .commit
  | .closeConnection => .closeConnection
  | .closeDatabase => .closeDatabase
  | .connect => .connect

/-- A step of a run: a call on the dictionary, or something that happens to the database. -/
inductive Event where
  | call (c : Call)
  | disturb (d : Disturbance)

/-- The calls of a run, in order. -/
def Event.call? : Event → Option Call
  | .call c => some c
  | .disturb _ => none

namespace Session

def call [Json.Limit] (s : Session) (c : Call) : Outcome Reply :=
  match c.action? with
  | some action => (s.step action).map .answer
  | none => .of s (.entries s.dictionary.entries.entries)

/-- The session after one step of a run. -/
def advance [Json.Limit] (s : Session) : Event → Session
  | .call c => (s.call c).session
  | .disturb d => (s.step d.action).session

/-- The session after a run. -/
def follow [Json.Limit] (s : Session) (events : List Event) : Session := events.foldl advance s

/-- The entries as a ledger. -/
def ledger (s : Session) : Ledger := s.dictionary.entries.entries

/-- Whether an attempt to store the entries fails the call that makes it. Any other fault of the
database is passed over. -/
def SavingFails (s : Session) : Prop :=
  s.dictionary.persistent = true ∧ s.database.isConnected = false

instance (s : Session) : Decidable s.SavingFails := inferInstanceAs (Decidable (_ ∧ _))

/-! ## Saving -/

theorem save_result (s : Session) :
    (save s).result = if s.SavingFails then .error (.database .notConnected) else .ok () := by
  obtain ⟨database, persistent, key, entries⟩ := s
  cases persistent with
  | false => simp [save, SavingFails, Outcome.of]
  | true =>
    cases database with
    | disconnected => simp [save, SavingFails, Database.put, Database.table, Database.isConnected]
    | closed => simp [save, SavingFails, Database.put, Database.table, Database.isConnected]
    | connected medium table =>
      cases table <;>
        simp [save, SavingFails, Outcome.of, Database.put, Database.table, Database.isConnected]

/-- An attempt to store the entries does not change whether the next one fails. -/
theorem savingFails_save (s : Session) : (save s).session.SavingFails ↔ s.SavingFails := by
  obtain ⟨database, persistent, key, entries⟩ := s
  cases persistent with
  | false => exact Iff.rfl
  | true =>
    cases database with
    | disconnected => exact Iff.rfl
    | closed => exact Iff.rfl
    | connected medium table => cases table <;> exact Iff.rfl

/-! ## The operations that change the entries -/

theorem set_of_blank {s : Session} {name value : Text} (h : Ledger.Blank name value) :
    set s name value = ⟨.error (.blank (Text.trim name) (Text.trim value)), s, []⟩ := if_pos h

theorem set_of_not_blank {s : Session} {name value : Text} (h : ¬ Ledger.Blank name value) :
    set s name value =
      (save (s.withEntries (s.dictionary.entries.put (Text.trim name) (Text.trim value)))).after
        [.entrySet (Text.trim name) (Text.trim value)] := if_neg h

theorem remove_of_not_mem {s : Session} {name : Text} (h : name ∉ s.ledger.map Prod.fst) :
    remove s name = .of s false := by
  rw [remove, if_neg (mt (OrderedMap.contains_iff_mem s.dictionary.entries name).1 h)]

theorem update_of_none {s : Session} {pairs : List (Text × Json)}
    (h : pairs.filterMap entryOf? = []) :
    update s pairs = ⟨.ok 0, s, pairs.filterMap skipped?⟩ := if_pos h

theorem update_of_some {s : Session} {pairs : List (Text × Json)}
    (h : pairs.filterMap entryOf? ≠ []) :
    update s pairs =
      ((save (s.withEntries (s.dictionary.entries.putAll (pairs.filterMap entryOf?)))).after
        (pairs.filterMap skipped?)).map (fun _ => (pairs.filterMap entryOf?).length) := if_neg h

/-- An operation has changed the entries and tried to store them: they are as given, and its
value is `a` unless saving fails. -/
structure Saved {α : Type} (s : Session) (entries : Entries) (a : α) (o : Outcome α) : Prop where
  dictionary : o.session.dictionary = { s.dictionary with entries := entries }
  result : o.result = if s.SavingFails then .error (.database .notConnected) else .ok a

theorem saved_save (s : Session) (entries : Entries) :
    Saved s entries () (save (s.withEntries entries)) where
  dictionary := save_dictionary (s.withEntries entries)
  result := save_result (s.withEntries entries)

namespace Saved

variable {α β : Type} {s : Session} {entries : Entries} {a : α} {o : Outcome α}

theorem after (h : Saved s entries a o) (notices : List Notice) :
    Saved s entries a (o.after notices) := ⟨h.dictionary, h.result⟩

theorem map (h : Saved s entries a o) (f : α → β) : Saved s entries (f a) (o.map f) := by
  refine ⟨h.dictionary, ?_⟩
  show o.result.map f = _
  rw [h.result]
  split <;> rfl

end Saved

/-! ## Where saving does not fail -/

section

variable {s : Session} (h : ¬ s.SavingFails)

include h

/-- Setting what is not blank succeeds, and saving does not fail after it. -/
theorem set_succeeds {name value : Text} (hblank : ¬ Ledger.Blank name value) :
    (set s name value).result = .ok () ∧ ¬ (set s name value).session.SavingFails := by
  have hsaved := saved_save s (s.dictionary.entries.put (Text.trim name) (Text.trim value))
  have hagain := savingFails_save
    (s.withEntries (s.dictionary.entries.put (Text.trim name) (Text.trim value)))
  rw [set_of_not_blank hblank]
  exact ⟨hsaved.result.trans (if_neg h), fun hfails => h (hagain.1 hfails)⟩

theorem remove_succeeds (name : Text) :
    (remove s name).result = .ok (decide (name ∈ s.ledger.map Prod.fst)) := by
  by_cases hmem : name ∈ s.ledger.map Prod.fst
  · have hsaved := saved_save s (s.dictionary.entries.erase name)
    rw [decide_eq_true hmem, remove,
      if_pos ((OrderedMap.contains_iff_mem s.dictionary.entries name).2 hmem)]
    exact ((hsaved.after _).map (fun _ => true)).result.trans (if_neg h)
  · rw [remove_of_not_mem hmem, decide_eq_false hmem]
    rfl

theorem update_succeeds (pairs : List (Text × Json)) :
    (update s pairs).result = .ok (pairs.countP Ledger.makesEntry) := by
  rw [← Ledger.length_entryOf?]
  by_cases hnone : pairs.filterMap entryOf? = []
  · rw [update_of_none hnone, hnone]
    rfl
  · rw [update_of_some hnone]
    exact (((saved_save s _).after _).map _).result.trans (if_neg h)

end

/-! ## One step -/

theorem lookup_eq_value? (s : Session) : s.lookup = s.ledger.value? := by
  funext name
  exact Ledger.get?_eq_value? s.dictionary.entries name

theorem dictionary_disturb [Json.Limit] (s : Session) (d : Disturbance) :
    (s.step d.action).session.dictionary = s.dictionary := by
  have onDatabase_dictionary : ∀ result, (s.onDatabase result).session.dictionary = s.dictionary := by
    intro result
    cases result <;> rfl
  cases d with
  | readRow key =>
    rw [Disturbance.action, step]
    split <;> rfl
  | closeDatabase => rfl
  | connect => rfl
  | _ => exact onDatabase_dictionary _

/-- A call has done what the ledger says of it. It fails besides only where it has something to
store and saving fails. -/
structure Follows (s : Session) (c : Call) (o : Outcome Reply) : Prop where
  persistent : o.session.dictionary.persistent = s.dictionary.persistent
  ledger : o.session.ledger = s.ledger.after c
  result : o.result =
    if s.SavingFails ∧ s.ledger.stores c = true then .error (.database .notConnected)
    else s.ledger.reply c

/-- A call that changes nothing and stores nothing. -/
theorem Follows.of_quiet {s : Session} {c : Call} {o : Outcome Reply} (hsession : o.session = s)
    (hafter : s.ledger.after c = s.ledger) (hstores : s.ledger.stores c = false)
    (hresult : o.result = s.ledger.reply c) : Follows s c o where
  persistent := by rw [hsession]
  ledger := by rw [hsession, hafter]
  result := by rw [hresult, if_neg (by simp [hstores])]

theorem Saved.follows {s : Session} {c : Call} {entries : Entries} {r : Reply} {o : Outcome Reply}
    (h : Saved s entries r o) (hafter : s.ledger.after c = entries.entries)
    (hstores : s.ledger.stores c = true) (hreply : s.ledger.reply c = .ok r) : Follows s c o where
  persistent := by rw [h.dictionary]
  ledger := by rw [hafter, ledger, h.dictionary]
  result := by
    rw [h.result, hreply]
    simp only [hstores, and_true]

section

variable [Json.Limit]

theorem follows_set (s : Session) (name value : Text) :
    Follows s (.set name value) (s.call (.set name value)) := by
  show Follows s _ (((set s name value).map (fun _ => .done)).map .answer)
  by_cases h : Ledger.Blank name value
  · rw [set_of_blank h]
    apply Follows.of_quiet
    · rfl
    · simp [Ledger.after, Ledger.enter, h]
    · simp [Ledger.stores, h]
    · simp only [Ledger.reply, h, if_true]
      rfl
  · rw [set_of_not_blank h]
    apply ((((saved_save s _).after _).map _).map _).follows
    · rw [Ledger.entries_put, Ledger.after, Ledger.enter, if_neg h, ledger]
    · simp [Ledger.stores, h]
    · simp [Ledger.reply, h]

theorem follows_remove (s : Session) (name : Text) :
    Follows s (.remove name) (s.call (.remove name)) := by
  show Follows s _ (((remove s name).map .flag).map .answer)
  have hcontains := OrderedMap.contains_iff_mem s.dictionary.entries name
  unfold remove
  by_cases h : s.dictionary.entries.contains name = true
  · have hmem : name ∈ s.ledger.map Prod.fst := hcontains.1 h
    rw [if_pos h]
    apply (((((saved_save s _).after _).map _).map _).map _).follows
    · rw [Ledger.entries_erase, Ledger.after, ledger]
    · simpa [Ledger.stores] using hmem
    · simpa [Ledger.reply] using hmem
  · have hmem : name ∉ s.ledger.map Prod.fst := fun hm => h (hcontains.2 hm)
    rw [if_neg h]
    apply Follows.of_quiet
    · rfl
    · apply List.filter_eq_self.2
      intro e he
      simpa using fun hname : e.1 = name => hmem (List.mem_map.2 ⟨e, he, hname⟩)
    · simpa [Ledger.stores] using hmem
    · simp only [Ledger.reply, hmem, decide_false]
      rfl

theorem follows_update (s : Session) (pairs : List (Text × Json)) :
    Follows s (.update pairs) (s.call (.update pairs)) := by
  show Follows s _ (((update s pairs).map .count).map .answer)
  have hentries := Ledger.entries_putAll_entryOf? s.dictionary.entries pairs
  have hcount := Ledger.length_entryOf? pairs
  have hany : pairs.any Ledger.makesEntry = true ↔ pairs.filterMap entryOf? ≠ [] := by
    rw [← List.length_pos_iff, hcount, List.countP_pos_iff, List.any_eq_true]
  by_cases h : pairs.filterMap entryOf? = []
  · rw [update_of_none h]
    rw [h] at hentries hcount
    apply Follows.of_quiet
    · rfl
    · exact hentries.symm
    · simpa [Ledger.stores] using mt hany.1 (not_not_intro h)
    · rw [Ledger.reply, ← hcount]
      rfl
  · rw [update_of_some h]
    apply (((((saved_save s _).after _).map _).map _).map _).follows
    · exact hentries.symm
    · exact hany.2 h
    · rw [Ledger.reply, hcount]

theorem follows_save (s : Session) : Follows s .save (s.call .save) := by
  have h : Saved s s.dictionary.entries () (save s) := saved_save s s.dictionary.entries
  exact ((h.map _).map _).follows rfl rfl rfl

theorem follows_call (s : Session) (c : Call) : Follows s c (s.call c) := by
  cases c with
  | set name value => exact follows_set s name value
  | remove name => exact follows_remove s name
  | update pairs => exact follows_update s pairs
  | save => exact follows_save s
  | get name =>
    refine Follows.of_quiet rfl rfl rfl ?_
    rw [Ledger.reply, ← lookup_eq_value?]
    rfl
  | contains name =>
    refine Follows.of_quiet rfl rfl rfl ?_
    have hcontains : _ ↔ name ∈ s.ledger.map Prod.fst :=
      OrderedMap.contains_iff_mem s.dictionary.entries name
    simp only [Ledger.reply, ← hcontains, Bool.decide_eq_true]
    rfl
  | convert conversion =>
    refine Follows.of_quiet rfl rfl rfl ?_
    rw [Ledger.reply, ← lookup_eq_value?]
    rfl
  | size => exact Follows.of_quiet rfl rfl rfl rfl
  | all => exact Follows.of_quiet rfl rfl rfl rfl

end

/-! ## Runs -/

/-- The ledger after the calls of a run. What happens to the database is left out. -/
def ledgerAfter (l : Ledger) (events : List Event) : Ledger :=
  (events.filterMap Event.call?).foldl Ledger.after l

theorem advance_eq [Json.Limit] (s : Session) (event : Event) :
    (s.advance event).ledger = ledgerAfter s.ledger [event] ∧
      (s.advance event).dictionary.persistent = s.dictionary.persistent := by
  cases event with
  | call c =>
    have h := follows_call s c
    exact ⟨h.ledger, h.persistent⟩
  | disturb d =>
    have h := dictionary_disturb s d
    refine ⟨?_, ?_⟩
    · show (s.step d.action).session.dictionary.entries.entries = s.dictionary.entries.entries
      rw [h]
    · show (s.step d.action).session.dictionary.persistent = s.dictionary.persistent
      rw [h]

theorem ledgerAfter_cons (l : Ledger) (event : Event) (rest : List Event) :
    ledgerAfter l (event :: rest) = ledgerAfter (ledgerAfter l [event]) rest := by
  cases event <;> rfl

theorem follow_eq [Json.Limit] (s : Session) (events : List Event) :
    (s.follow events).ledger = ledgerAfter s.ledger events ∧
      (s.follow events).dictionary.persistent = s.dictionary.persistent := by
  induction events generalizing s with
  | nil => exact ⟨rfl, rfl⟩
  | cons event rest ih =>
    obtain ⟨hledger, hpersistent⟩ := advance_eq s event
    have hrest := ih (s.advance event)
    rw [hledger, hpersistent] at hrest
    rw [ledgerAfter_cons]
    exact hrest

theorem ledgerAfter_calls (l : Ledger) (events : List Event) :
    ledgerAfter l ((events.filterMap Event.call?).map .call) = ledgerAfter l events := by
  unfold ledgerAfter
  rw [List.filterMap_map]
  congr 1
  exact List.filterMap_some

/-- After every run the entries are those of the ledger, and the next call gives back what the
ledger's does; only if it has something to store while the database is not connected does it fail
for that. Any dictionary that begins with the same entries, with a database or without, has the
same ones after the same calls alone. -/
theorem dictionary_follows_ledger [Json.Limit] (s : Session) (events : List Event) :
    (s.follow events).ledger = ledgerAfter s.ledger events ∧
    (∀ c, ((s.follow events).call c).result =
      if (s.dictionary.persistent = true ∧ (s.follow events).database.isConnected = false) ∧
          (ledgerAfter s.ledger events).stores c = true
      then .error (.database .notConnected) else (ledgerAfter s.ledger events).reply c) ∧
    ∀ t : Session, t.ledger = s.ledger →
      (t.follow ((events.filterMap Event.call?).map .call)).ledger = (s.follow events).ledger := by
  obtain ⟨hledger, hpersistent⟩ := follow_eq s events
  refine ⟨hledger, ?_, ?_⟩
  · intro c
    have hresult := (follows_call (s.follow events) c).result
    rw [hledger] at hresult
    rw [hresult]
    simp only [SavingFails, hpersistent]
  · intro t hsame
    rw [(follow_eq t _).1, ledgerAfter_calls, hsame, hledger]

end Session

end UtilityCss
