import UtilityCss.Proofs.Dictionary.Refinement
import UtilityCss.Proofs.Json.RoundTrip
/-
  What is written to the database is what a dictionary opened later begins with.

  A write puts all entries in memory under the key, not only the one that has
  changed. So a write that the database refuses leaves nothing behind that a
  later one does not make good: whatever has been refused before, the first
  write that is taken stores the whole ledger.

  What is proved:
    1. `read_stored`, `ofStored?_stored` : the stored text holds the entries,
       in order, with halves that stand side by side joined.
    2. `call_of_stores` : a call that has something to store ends in saving.
    3. `written_entries_reopen` : after a write that is taken, the stored text
       and a dictionary opened on it have the entries of all calls so far.
-/

namespace UtilityCss

/-- A ledger as it is read when it is written as JSON: where two halves of a pair stand side by side
they are read as one character, and names that become one so are one entry. -/
def Ledger.reread (l : Ledger) : Ledger := Pairs.ofList (l.map Json.joinEntry)

namespace Entries

theorem ofMembers?_textMember (pairs : List (Text × Text)) :
    ofMembers? (pairs.map Json.textMember) = some pairs := by
  induction pairs with
  | nil => rfl
  | cons e rest ih => simp [ofMembers?, Json.textMember, Json.text?, ih]

theorem ofTexts_inj {l m : List (Text × Text)} (h : Json.ofTexts l = Json.ofTexts m) : l = m := by
  have hmembers : l.map Json.textMember = m.map Json.textMember := Json.object.inj h
  have hpairs := congrArg ofMembers? hmembers
  rw [ofMembers?_textMember, ofMembers?_textMember] at hpairs
  exact Option.some.inj hpairs

theorem ofMembers?_eq_some_iff {members : List (Text × Json)} {pairs : List (Text × Text)} :
    ofMembers? members = some pairs ↔ members = pairs.map Json.textMember := by
  refine ⟨fun h => ?_, fun h => h ▸ ofMembers?_textMember pairs⟩
  induction members generalizing pairs with
  | nil =>
    rw [← Option.some.inj h]
    rfl
  | cons m rest ih =>
    obtain ⟨name, value⟩ := m
    rw [ofMembers?] at h
    split at h
    · next text more hvalue hmore =>
      rw [← Option.some.inj h, List.map_cons, ← ih hmore, Json.text?_eq_some_iff.1 hvalue]
      rfl
    · cases h

variable [Json.Limit]

/-- What is stored is read with its halves joined. -/
theorem read_stored (m : Entries) :
    Json.read m.stored = .ok (Json.ofTexts (Ledger.reread m.entries)) := by
  have hread : Json.read (m.stored ++ []) = .ok (Json.ofTexts (Ledger.reread m.entries)) :=
    Json.read_ofTexts .spaced m.entries (by decide)
  rwa [List.append_nil] at hread

/-- The entries of a stored text are the pairs of the object of texts that it is read as. -/
theorem read_of_ofStored? {t : Text} {m : Entries} (h : ofStored? t = .ok (some m)) :
    ∃ pairs, Json.read t = .ok (Json.ofTexts pairs) ∧ m = OrderedMap.ofPairs pairs := by
  unfold ofStored? at h
  split at h
  · cases h
  · next value hread =>
    obtain ⟨pairs, hpairs, rfl⟩ := Option.map_eq_some_iff.1 (Except.ok.inj h)
    obtain ⟨members, hmembers, hof⟩ := Option.bind_eq_some_iff.1 hpairs
    obtain ⟨v, rfl, hv⟩ := Option.bind_eq_some_iff.1 hmembers
    rw [Json.members?_eq_some_iff.1 hv, ofMembers?_eq_some_iff.1 hof] at hread
    exact ⟨pairs, Json.read?_eq_some_iff.1 hread, rfl⟩

/-- A text that is read as the object of entries holds these entries. -/
theorem ofStored?_of_read {t : Text} {m : Entries} (h : Json.read t = .ok (Json.ofTexts m.entries)) :
    ofStored? t = .ok (some m) := by
  have hmembers : ofMembers? (m.entries.map Json.textMember) = some m.entries :=
    ofMembers?_textMember m.entries
  rw [ofStored?, Json.read?_eq_some_iff.2 h]
  show Except.ok ((ofMembers? (m.entries.map Json.textMember)).map OrderedMap.ofPairs) = _
  rw [hmembers, Option.map_some, OrderedMap.ofPairs_entries]

/-- The stored text of entries holds these entries, if they are made of characters. -/
theorem ofStored?_stored {m : Entries} (h : ∀ e ∈ m.entries, e.1.Scalar ∧ e.2.Scalar) :
    ofStored? m.stored = .ok (some m) :=
  ofStored?_of_read (Json.read_write_ofTexts .spaced h m.distinct)

end Entries

namespace Session

theorem save_of_put {s : Session} {db : Database} (hpersistent : s.dictionary.persistent = true)
    (hput : s.database.put s.dictionary.key s.dictionary.entries.stored = .ok db) :
    save s = .of { s with database := db } () := by
  rw [save, if_pos hpersistent, hput]

section

variable [Json.Limit]

/-! ## Opening what is stored -/

/-- A dictionary begins with the entries of the text under its key, or empty. -/
theorem readEntries_cases {db : Database} {key : Cell} {m : Entries} {notices : List Notice}
    (h : readEntries db key = .ok (m, notices)) : m = OrderedMap.empty ∨
      ∃ text, db.get? key = .ok (some text) ∧ Entries.ofStored? text = .ok (some m) := by
  unfold readEntries at h
  split at h
  · cases h
  · exact Or.inl (congrArg Prod.fst (Except.ok.inj h)).symm
  · exact Or.inl (congrArg Prod.fst (Except.ok.inj h)).symm
  · next text hrow =>
    split at h
    · next entries hstored =>
      obtain rfl : entries = m := congrArg Prod.fst (Except.ok.inj h)
      exact Or.inr ⟨text, hrow, hstored⟩
    · exact Or.inl (congrArg Prod.fst (Except.ok.inj h)).symm
    · cases h

/-- A dictionary opened where entries are stored has these entries, and reports nothing. -/
theorem start_of_stored {db : Database} {key : Cell} {m : Entries}
    (hrow : db.get? key = .ok (some m.stored)) (h : ∀ e ∈ m.entries, e.1.Scalar ∧ e.2.Scalar) :
    start true db key = .of ⟨db, ⟨true, key, m⟩⟩ () := by
  have hread : readEntries db key = .ok (m, []) := by
    rw [readEntries, hrow]
    simp only [Entries.ofStored?_stored h]
  simp [start, openKey, load, hread, withEntries, Outcome.of]

/-! ## Calls that write -/

/-- A call writes: the dictionary uses a database, there is something to store, and the database
takes the entries as they are after the call. -/
structure Writes (s : Session) (c : Call) : Prop where
  persistent : s.dictionary.persistent = true
  stores : s.ledger.stores c = true
  accepted : ∃ db, s.database.put s.dictionary.key (s.call c).session.dictionary.entries.stored = .ok db

/-- A call that has something to store changes the entries in memory, and then saves them. -/
theorem saves_of_stores {s : Session} {c : Call} (h : s.ledger.stores c = true) :
    ∃ entries, (s.call c).session = (save (s.withEntries entries)).session := by
  cases c with
  | set name value =>
    have hblank : ¬ Ledger.Blank name value := by simpa [Ledger.stores] using h
    refine ⟨s.dictionary.entries.put (Text.trim name) (Text.trim value), ?_⟩
    show (set s name value).session = _
    rw [set_of_not_blank hblank]
    rfl
  | remove name =>
    have hmem : name ∈ s.ledger.map Prod.fst := by simpa [Ledger.stores] using h
    refine ⟨s.dictionary.entries.erase name, ?_⟩
    show (remove s name).session = _
    rw [remove, if_pos ((OrderedMap.contains_iff_mem s.dictionary.entries name).2 hmem)]
    rfl
  | update pairs =>
    have hsome : pairs.filterMap entryOf? ≠ [] := by
      rw [← List.length_pos_iff, Ledger.length_entryOf?, List.countP_pos_iff, ← List.any_eq_true]
      exact h
    refine ⟨s.dictionary.entries.putAll (pairs.filterMap entryOf?), ?_⟩
    show (update s pairs).session = _
    rw [update_of_some hsome]
    rfl
  | save => exact ⟨s.dictionary.entries, rfl⟩
  | _ => simp [Ledger.stores] at h

theorem call_of_stores {s : Session} {c : Call} (h : s.ledger.stores c = true) :
    (s.call c).session = (save (s.withEntries (s.call c).session.dictionary.entries)).session := by
  obtain ⟨entries, hsession⟩ := saves_of_stores h
  have hentries : (s.call c).session.dictionary.entries = entries := by
    rw [hsession, save_dictionary]
    rfl
  rw [hentries, hsession]

/-- A call that has nothing to store changes nothing. -/
theorem call_of_not_stores {s : Session} {c : Call} (h : s.ledger.stores c = false) :
    (s.call c).session = s := by
  cases c with
  | set name value =>
    have hblank : Ledger.Blank name value := by simpa [Ledger.stores] using h
    show (set s name value).session = s
    rw [set_of_blank hblank]
  | remove name =>
    have hmem : name ∉ s.ledger.map Prod.fst := by simpa [Ledger.stores] using h
    show (remove s name).session = s
    rw [remove_of_not_mem hmem]
    rfl
  | update pairs =>
    have hnone : pairs.filterMap entryOf? = [] := by
      rw [← List.length_eq_zero_iff, Ledger.length_entryOf?, List.countP_eq_zero]
      exact List.any_eq_false.1 h
    show (update s pairs).session = s
    rw [update_of_none hnone]
  | save => simp [Ledger.stores] at h
  | _ => rfl

/-- A call that does not write leaves the database alone. -/
theorem database_call_of_not_writes {s : Session} {c : Call} (h : ¬ s.Writes c) :
    (s.call c).session.database = s.database := by
  cases hstores : s.ledger.stores c with
  | false => rw [call_of_not_stores hstores]
  | true =>
    rw [call_of_stores hstores, save]
    split
    · next hpersistent =>
      split
      · next db hput => exact absurd ⟨hpersistent, hstores, db, hput⟩ h
      · rfl
      · rfl
    · rfl

/-- A call that writes puts the entries under the dictionary's key, and does no more than that and
the change of the entries. -/
theorem Writes.put_eq {s : Session} {c : Call} (h : s.Writes c) :
    (s.call c).session.dictionary =
        { s.dictionary with entries := (s.call c).session.dictionary.entries } ∧
      s.database.put s.dictionary.key (s.call c).session.dictionary.entries.stored =
        .ok (s.call c).session.database := by
  obtain ⟨db, hput⟩ := h.accepted
  have hsave : save (s.withEntries (s.call c).session.dictionary.entries) =
      .of { s.withEntries (s.call c).session.dictionary.entries with database := db } () :=
    save_of_put h.persistent hput
  have hsession := call_of_stores h.stores
  rw [hsave] at hsession
  refine ⟨congrArg Session.dictionary hsession, ?_⟩
  rw [hput]
  exact (congrArg (fun t : Session => Except.ok t.database) hsession).symm

/-- After a call that writes, the row of the dictionary's key holds the entries. -/
theorem Writes.get?_call {s : Session} {c : Call} (h : s.Writes c) :
    (s.call c).session.dictionary.persistent = true ∧
      (s.call c).session.database.get? (s.call c).session.dictionary.key =
        .ok (some (s.call c).session.dictionary.entries.stored) := by
  obtain ⟨hdictionary, hput⟩ := h.put_eq
  have hkey : (s.call c).session.dictionary.key = s.dictionary.key := by rw [hdictionary]
  have hpersistent : (s.call c).session.dictionary.persistent = s.dictionary.persistent := by
    rw [hdictionary]
  rw [hkey, hpersistent]
  exact ⟨h.persistent, Database.get?_put_self hput⟩

/-! ## Runs -/

/-- After any run, and any calls and faults of the database since then, a call that writes stores
all entries: those that the calls have made of the entries before, whichever of them were refused
by the database. What is stored is read as these entries, and a dictionary opened on the same
database under the same key begins with them and reports nothing. -/
theorem written_entries_reopen (first : Session) (actions : List Action) (events : List Event)
    (c : Call) (hwrites : ((first.run actions).follow events).Writes c)
    (hscalar : ∀ e ∈ ledgerAfter (first.run actions).ledger (events ++ [.call c]),
      e.1.Scalar ∧ e.2.Scalar) :
    let after := (((first.run actions).follow events).call c).session
    after.ledger = ledgerAfter (first.run actions).ledger (events ++ [.call c]) ∧
    (∃ text, after.database.get? after.dictionary.key = .ok (some text) ∧
      Json.read text = .ok (Json.ofTexts after.ledger)) ∧
    start true after.database after.dictionary.key = .of after () := by
  intro after
  have hledger : after.ledger = ledgerAfter (first.run actions).ledger (events ++ [.call c]) := by
    have hfollow := (follow_eq (first.run actions) (events ++ [.call c])).1
    rwa [follow, List.foldl_append] at hfollow
  obtain ⟨hpersistent, hrow⟩ := hwrites.get?_call
  rw [← hledger] at hscalar
  refine ⟨hledger, ⟨_, hrow, ?_⟩, ?_⟩
  · exact Json.read_write_ofTexts .spaced hscalar after.dictionary.entries.distinct
  · rw [start_of_stored hrow hscalar]
    show Outcome.of (⟨after.database, ⟨true, _, _⟩⟩ : Session) () = .of after ()
    rw [← hpersistent]

end

attribute [local instance] Json.Limit.least

/-- An entry is set while there is no table, and the write is refused. The next one, of a text with
escapes of every kind, stores both. -/
theorem refused_entry_reopens :
    let s₀ : Session := ⟨.inMemory, ⟨true, "k", OrderedMap.empty⟩⟩
    let s := (s₀.run [.set "a" "b"]).follow [.disturb .migrate]
    let c : Call := .set "\"\\" "é\n\x01\x7f\u212A😀 x"
    s.Writes c ∧
    (∀ e ∈ ledgerAfter (s₀.run [.set "a" "b"]).ledger [.disturb .migrate, .call c],
      e.1.Scalar ∧ e.2.Scalar) ∧
    (s.call c).session.ledger =
      [(Text.of "a", Text.of "b"), (Text.of "\"\\", Text.of "é\n\x01\x7f\u212A😀 x")] ∧
    start true (s.call c).session.database "k" = .of (s.call c).session () := by
  intro s₀ s c
  have hwrites : s.Writes c := ⟨by decide, by decide, ⟨_, rfl⟩⟩
  have hscalar : ∀ e ∈ ledgerAfter (s₀.run [.set "a" "b"]).ledger [.disturb .migrate, .call c],
      e.1.Scalar ∧ e.2.Scalar := by decide
  obtain ⟨hledger, -, hstart⟩ :=
    written_entries_reopen s₀ [.set "a" "b"] [.disturb .migrate] c hwrites hscalar
  refine ⟨hwrites, hscalar, hledger.trans ?_, hstart⟩
  decide

end Session

end UtilityCss
