import UtilityCss.Proofs.Dictionary.Working
import UtilityCss.Proofs.Json.Members
/-
  What a dictionary begins with: all that is stored under its key, or nothing.

  Opening a dictionary and reading it anew ask the database for one row. The
  text in it is read as an object of texts, and then all of it is taken, each
  name once; or it is anything else, and then the dictionary begins empty with
  one warning, whatever part of the text could have been read. The database is
  asked and not changed. Two failures are left: a database that is not
  connected, and a text that nests too deep, which leaves what there was.

  What is proved:
    1. `ofStored?_eq_some_iff`, `ofStored?_eq_none_iff` : when a text holds
       entries, and when it can be told that it holds none.
    2. `loads_of_readEntries` : what a dictionary comes to that begins with
       what is read.
    3. `loads_whole_or_nothing` : reading anew and opening, over every text
       and every state of a database that is connected.
-/

namespace UtilityCss.Session

/-- The messages of the warnings that an operation reports, in order. -/
def Outcome.warnings {α : Type} (o : Outcome α) : List Text :=
  (o.notices.filter Notice.isWarning).map Notice.message

/-! ## What is read of a row -/

section

variable [Json.Limit] {db : Database} {key : Cell} {text : Text}

/-- An object of texts that is read has each name once. -/
theorem distinct_of_ofTexts {l : Ledger} (h : Json.read text = .ok (Json.ofTexts l)) :
    (l.map Prod.fst).Nodup := by
  have hnames : (l.map Json.textMember).map Prod.fst = l.map Prod.fst := by
    rw [List.map_map]
    rfl
  exact hnames ▸ Json.distinct_of_read h

theorem ofStored?_of_deep {fault : Json.Fault} {container : Json.Container}
    (hread : Json.read text = .error fault) (hdeep : fault.tooDeep? = some container) :
    Entries.ofStored? text = .error container := by
  have hread? : Json.read? text = .error container := by
    rw [Json.read?, hread]
    simp only [hdeep]
  rw [Entries.ofStored?, hread?]

/-- It cannot be told what a text holds only where the reader has met a bracket that it has no room
for. -/
theorem deep_of_ofStored? {container : Json.Container}
    (h : Entries.ofStored? text = .error container) :
    ∃ fault, Json.read text = .error fault ∧ fault.tooDeep? = some container := by
  unfold Entries.ofStored? Json.read? at h
  cases hread : Json.read text with
  | ok value => simp [hread] at h
  | error fault =>
    refine ⟨fault, rfl, ?_⟩
    cases hdeep : fault.tooDeep? with
    | none => simp [hread, hdeep] at h
    | some met =>
      simp only [hread, hdeep] at h
      exact congrArg some (Except.error.inj h)

/-- A stored text holds entries exactly when it is read as the object of their texts. -/
theorem ofStored?_eq_some_iff {m : Entries} :
    Entries.ofStored? text = .ok (some m) ↔ Json.read text = .ok (Json.ofTexts m.entries) := by
  refine ⟨fun h => ?_, Entries.ofStored?_of_read⟩
  obtain ⟨pairs, hread, rfl⟩ := Entries.read_of_ofStored? h
  have hdistinct : (pairs.map Prod.fst).Nodup := distinct_of_ofTexts hread
  rwa [OrderedMap.ofPairs_entries ⟨pairs, hdistinct⟩]

/-- A stored text holds no entries exactly when it is no object of texts, and this can be told. -/
theorem ofStored?_eq_none_iff :
    Entries.ofStored? text = .ok none ↔ (∀ l, Json.read text ≠ .ok (Json.ofTexts l)) ∧
      ∀ fault, Json.read text = .error fault → fault.tooDeep? = none := by
  constructor
  · intro h
    refine ⟨fun l hl => ?_, fun fault hfault => ?_⟩
    · have hsome := Entries.ofStored?_of_read (m := ⟨l, distinct_of_ofTexts hl⟩) hl
      rw [h] at hsome
      cases hsome
    · cases hdeep : fault.tooDeep? with
      | none => rfl
      | some container =>
        rw [ofStored?_of_deep hfault hdeep] at h
        cases h
  · rintro ⟨hread, hshallow⟩
    cases hstored : Entries.ofStored? text with
    | error container =>
      obtain ⟨fault, hfault, hdeep⟩ := deep_of_ofStored? hstored
      rw [hshallow fault hfault] at hdeep
      cases hdeep
    | ok entries? =>
      cases entries? with
      | none => rfl
      | some m => exact absurd (ofStored?_eq_some_iff.1 hstored) (hread m.entries)

theorem readEntries_of_read {l : Ledger} (hrow : db.get? key = .ok (some text))
    (hread : Json.read text = .ok (Json.ofTexts l)) :
    ∃ m : Entries, m.entries = l ∧ readEntries db key = .ok (m, []) := by
  have hstored := Entries.ofStored?_of_read (m := ⟨l, distinct_of_ofTexts hread⟩) hread
  refine ⟨⟨l, distinct_of_ofTexts hread⟩, rfl, ?_⟩
  rw [readEntries, hrow]
  simp only [hstored]

theorem readEntries_of_malformed (hrow : db.get? key = .ok (some text))
    (hread : ∀ l, Json.read text ≠ .ok (Json.ofTexts l))
    (hshallow : ∀ fault, Json.read text = .error fault → fault.tooDeep? = none) :
    readEntries db key = .ok (OrderedMap.empty, [.malformed key]) := by
  rw [readEntries, hrow]
  simp only [ofStored?_eq_none_iff.2 ⟨hread, hshallow⟩]

theorem readEntries_of_deep {fault : Json.Fault} {container : Json.Container}
    (hrow : db.get? key = .ok (some text)) (hread : Json.read text = .error fault)
    (hdeep : fault.tooDeep? = some container) :
    readEntries db key = .error (.tooDeep container) := by
  rw [readEntries, hrow]
  simp only [ofStored?_of_deep hread hdeep]

theorem readEntries_of_fault {fault : Database.Fault} (hconnected : db.isConnected = true)
    (hrow : db.get? key = .error fault) :
    readEntries db key = .ok (OrderedMap.empty, [.cannotRead fault]) := by
  cases db with
  | disconnected => cases hconnected
  | closed =>
    obtain rfl := Except.error.inj hrow
    rfl
  | connected medium table =>
    cases table with
    | none =>
      obtain rfl := Except.error.inj hrow
      rfl
    | some rows => cases hrow

theorem readEntries_of_absent (hrow : db.get? key = .ok none) :
    readEntries db key = .ok (OrderedMap.empty, []) := by
  rw [readEntries, hrow]

end

/-! ## Beginning with what is read -/

/-- A dictionary has been loaded under a key: nothing fails, no row is changed, the entries are the
given ones and so are the warnings. -/
structure Loaded (s : Session) (key : Cell) (l : Ledger) (warnings : List Text) (o : Outcome Unit) :
    Prop where
  result : o.result = .ok ()
  database : o.session.database = s.database
  persistent : o.session.dictionary.persistent = s.dictionary.persistent
  key : o.session.dictionary.key = key
  ledger : o.session.ledger = l
  warnings : o.warnings = warnings

/-- An operation begins the dictionary of a key with what is read of its row, or fails as the reading
does and leaves all as it was. -/
structure BeginsWith [Json.Limit] (s : Session) (key : Cell) (o : Outcome Unit) : Prop where
  ok : ∀ m notices, readEntries s.database key = .ok (m, notices) →
    Loaded s key m.entries ((notices.filter Notice.isWarning).map Notice.message) o
  error : ∀ failure, readEntries s.database key = .error failure → o = ⟨.error failure, s, []⟩

section

variable [Json.Limit]

theorem load_beginsWith {s : Session} (hpersistent : s.dictionary.persistent = true) :
    s.BeginsWith s.dictionary.key (load s) where
  ok m notices hread := by
    have hload : load s = ⟨.ok (), s.withEntries m, notices⟩ := by
      simp only [load, hpersistent, if_true, hread]
    rw [hload]
    exact ⟨rfl, rfl, rfl, rfl, rfl, rfl⟩
  error failure hread := by simp only [load, hpersistent, if_true, hread]

theorem openKey_beginsWith {s : Session} (hpersistent : s.dictionary.persistent = true) (key : Cell) :
    s.BeginsWith key (openKey s key) where
  ok m notices hread := by
    have hopen : openKey s key =
        ⟨.ok (), ⟨s.database, ⟨s.dictionary.persistent, key, m⟩⟩, notices⟩ := by
      simp only [openKey, load, hpersistent, if_true, hread, withEntries]
    rw [hopen]
    exact ⟨rfl, rfl, rfl, rfl, rfl, rfl⟩
  error failure hread := by simp only [openKey, load, hpersistent, if_true, hread]

/-! ## Every text and every state -/

/-- What the dictionary of a key is loaded with, by what the database says of the row of the key: all
entries that the text holds, or none and one warning, or none where there is no row. A text that
nests too deep is the one failure, and changes nothing. -/
structure LoadsWhole (s : Session) (key : Cell) (o : Outcome Unit) : Prop where
  entries : ∀ text l, s.database.get? key = .ok (some text) → Json.read text = .ok (Json.ofTexts l) →
    Loaded s key l [] o
  malformed : ∀ text, s.database.get? key = .ok (some text) →
    (∀ l, Json.read text ≠ .ok (Json.ofTexts l)) →
    (∀ fault, Json.read text = .error fault → fault.tooDeep? = none) →
    Loaded s key [] ["Ignoring malformed variable dictionary under " ++ Text.quoted key] o
  absent : s.database.get? key = .ok none → Loaded s key [] [] o
  unreadable : ∀ fault, s.database.get? key = .error fault →
    Loaded s key [] ["Could not read variable dictionary: " ++ fault.message] o
  deep : ∀ text fault container, s.database.get? key = .ok (some text) →
    Json.read text = .error fault → fault.tooDeep? = some container →
    o = ⟨.error (.tooDeep container), s, []⟩

theorem loads_of_readEntries {s : Session} {key : Cell} {o : Outcome Unit}
    (hconnected : s.database.isConnected = true) (h : s.BeginsWith key o) : s.LoadsWhole key o where
  entries text l hrow hread := by
    obtain ⟨m, rfl, hentries⟩ := readEntries_of_read hrow hread
    exact h.ok m [] hentries
  malformed text hrow hread hshallow := h.ok _ _ (readEntries_of_malformed hrow hread hshallow)
  absent hrow := h.ok _ _ (readEntries_of_absent hrow)
  unreadable fault hrow := h.ok _ _ (readEntries_of_fault hconnected hrow)
  deep text fault container hrow hread hdeep := h.error _ (readEntries_of_deep hrow hread hdeep)

/-- The texts of an object of texts are those that are written, and of a repeated name the last value
in the first place. -/
theorem written_of_ofTexts {text : Text} {l : Ledger} (h : Json.read text = .ok (Json.ofTexts l)) :
    ∃ written, Json.Writes text written ∧
      l.map Prod.fst = (written.map Prod.fst).eraseDups ∧
      ∀ e ∈ l, ((written.filter (fun m => m.1 = e.1)).getLast?).map Prod.snd = some (.text e.2) := by
  obtain ⟨written, hwritten, hmembers⟩ := Json.written_of_read h
  rw [Pairs.ofList_eq_entries] at hmembers
  refine ⟨written, hwritten, ?_, ?_⟩
  · rw [← OrderedMap.names_ofPairs, OrderedMap.names, ← hmembers, List.map_map]
    rfl
  · intro e he
    rw [← OrderedMap.get?_ofPairs, OrderedMap.get?_eq_some_iff, ← hmembers]
    exact List.mem_map_of_mem he

/-- Whatever the text under a key, and in every state of a database that is connected, reading the
dictionary anew and opening one take all entries or none. The entries of an object are its members
as they are written, of which a repeated name has its last value in its first place. -/
theorem loads_whole_or_nothing (s : Session) (hpersistent : s.dictionary.persistent = true)
    (hconnected : s.database.isConnected = true) :
    s.LoadsWhole s.dictionary.key (load s) ∧ (∀ key, s.LoadsWhole key (openKey s key)) ∧
    ∀ text l, Json.read text = .ok (Json.ofTexts l) → ∃ written, Json.Writes text written ∧
      l.map Prod.fst = (written.map Prod.fst).eraseDups ∧
      ∀ e ∈ l, ((written.filter (fun m => m.1 = e.1)).getLast?).map Prod.snd = some (.text e.2) :=
  ⟨loads_of_readEntries hconnected (load_beginsWith hpersistent),
    fun key => loads_of_readEntries hconnected (openKey_beginsWith hpersistent key),
    fun _ _ => written_of_ofTexts⟩

end

attribute [local instance] Json.Limit.least

/-- A dictionary has entries. Its own row holds a member that is no text, so none of it is taken; the
row of another key has two names twice, one of them first with a number. -/
theorem repeated_name_loaded_last :
    let mixed : Text := "\x7b\"--A\": \"p-2\", \"--B\": [1]\x7d"
    let twice : Text := " \x7b\"--B\": 1, \"--A\" :\"m-1\",\n\"--B\": \"\\ud83d\\ude00\", \"--A\": \"m-2\"\x7d"
    let s : Session := ⟨.ofRows [("j", mixed), ("k", twice)],
      ⟨true, "j", OrderedMap.ofPairs [("--C", "flex")]⟩⟩
    (s.dictionary.persistent = true ∧ s.database.isConnected = true) ∧
    Loaded s "k" [("--B", "😀"), ("--A", "m-2")] [] (openKey s "k") ∧
    Loaded s "j" [] ["Ignoring malformed variable dictionary under 'j'"] (load s) := by
  intro mixed twice s
  have hconnected : s.database.isConnected = true := by decide
  obtain ⟨hload, hopen, -⟩ := loads_whole_or_nothing s rfl hconnected
  have hmixed : Entries.ofStored? mixed = .ok none := by decide +kernel
  have htwice : Entries.ofStored? twice = .ok (some (OrderedMap.ofPairs [("--B", "😀"), ("--A", "m-2")])) := by
    decide +kernel
  obtain ⟨hnone, hshallow⟩ := ofStored?_eq_none_iff.1 hmixed
  refine ⟨⟨rfl, hconnected⟩, ?_, ?_⟩
  · exact (hopen "k").entries twice _ (by decide +kernel) (ofStored?_eq_some_iff.1 htwice)
  · exact hload.malformed mixed (by decide +kernel) hnone hshallow

end UtilityCss.Session
