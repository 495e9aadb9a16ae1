import UtilityCss.Proofs.Dictionary.Loading
/-
  Many pairs written at once are the pairs set one by one.

  Setting trims and checks each pair and stores the entries every time;
  updating does so in a loop of its own and stores them once. They come to the
  same session, whether the database takes the entries or refuses them,
  because the second of two attempts to store leaves what it would have left
  alone (`save_save`). What updating reports besides are the pairs that it has
  passed over.

  What is proved:
    1. `save_save` : of two attempts to store entries only the second shows.
    2. `update_session` : what an update leaves behind.
    3. `skipping_update` : what is reported of the pairs passed over.
    4. `update_is_settings` : all that an update comes to.
-/

namespace UtilityCss

/-- Where one text can be written another can be, and it then stands in the place of the first. -/
theorem Database.put_put {db after : Database} {key : Cell} {first : Text} (h : db.put key first = .ok after)
    (second : Text) : ∃ last, db.put key second = .ok last ∧ after.put key second = .ok last := by
  obtain ⟨medium, rows, rfl, rfl⟩ := put_eq_ok h
  refine ⟨.connected medium (some (rows.put key second)), rfl, ?_⟩
  rw [← OrderedMap.put_put rows key first second]
  rfl

namespace Session

/-! ## Pairs one by one -/

/-- The action that sets a pair, if its value is a text and neither part of it is blank. -/
def setting? : Text × Json → Option Action
  | (name, .text value) => if Ledger.Blank name value then none else some (.set name value)
  | _ => none

/-- The actions that set, one by one, the pairs that can be set. -/
def settings (pairs : List (Text × Json)) : List Action := pairs.filterMap setting?

/-- What is reported of a pair that cannot be set. -/
def skipping : Text × Json → Text
  | (name, .text _) => "Skipping blank dictionary entry " ++ Text.quoted name
  | (name, _) => "Skipping non-string dictionary entry " ++ Text.quoted name

/-- A warning says that a pair is passed over. -/
def Skips (warning : Text) : Bool := (Text.of "Skipping").isPrefixOf warning

/-! ## Storing twice -/

theorem session_save_of_refused {s : Session} {fault : Database.Fault}
    (h : s.database.put s.dictionary.key s.dictionary.entries.stored = .error fault) :
    (save s).session = s := by
  rw [save, h]
  split
  · cases fault <;> rfl
  · rfl

/-- Of two attempts to store entries only the second shows, whatever the database does. -/
theorem save_save (s : Session) (m n : Entries) :
    (save ((save (s.withEntries m)).session.withEntries n)).session =
      (save (s.withEntries n)).session := by
  cases hpersistent : s.dictionary.persistent with
  | false => simp [save, withEntries, hpersistent, Outcome.of]
  | true =>
    cases hput : s.database.put s.dictionary.key m.stored with
    | error fault =>
      rw [session_save_of_refused (s := s.withEntries m) hput]
      rfl
    | ok after =>
      obtain ⟨last, hlast, hafter⟩ := Database.put_put hput n.stored
      rw [save_of_put (s := s.withEntries m) hpersistent hput]
      have hsecond := save_of_put (s := withEntries { s with database := after } n) hpersistent hafter
      have halone := save_of_put (s := s.withEntries n) hpersistent hlast
      exact (congrArg Outcome.session hsecond).trans (congrArg Outcome.session halone).symm

/-! ## What an update leaves behind -/

theorem update_session_eq (s : Session) (pairs : List (Text × Json)) :
    (update s pairs).session =
      if pairs.filterMap entryOf? = [] then s
      else (save (s.withEntries (s.dictionary.entries.putAll (pairs.filterMap entryOf?)))).session := by
  split
  · next h => rw [update_of_none h]
  · next h =>
    rw [update_of_some h]
    rfl

/-- A pair that can be set is set first, and the others are written after it. -/
theorem update_cons_of_entry {s : Session} {pair : Text × Json} {e : Text × Text}
    (h : entryOf? pair = some e) (rest : List (Text × Json)) :
    (update s (pair :: rest)).session =
      (update (save (s.withEntries (s.dictionary.entries.put e.1 e.2))).session rest).session := by
  have hentries : (save (s.withEntries (s.dictionary.entries.put e.1 e.2))).session.dictionary.entries =
      s.dictionary.entries.put e.1 e.2 := by
    rw [save_dictionary]
    rfl
  rw [update_session_eq, update_session_eq, List.filterMap_cons, h, if_neg (List.cons_ne_nil _ _),
    hentries]
  by_cases hrest : rest.filterMap entryOf? = []
  · rw [if_pos hrest, hrest]
    rfl
  · rw [if_neg hrest, save_save]
    rfl

theorem update_cons_of_none {s : Session} {pair : Text × Json} (h : entryOf? pair = none)
    (rest : List (Text × Json)) : (update s (pair :: rest)).session = (update s rest).session := by
  rw [update_session_eq, update_session_eq, List.filterMap_cons, h]

theorem settings_cons (pair : Text × Json) (rest : List (Text × Json)) :
    settings (pair :: rest) = (setting? pair).toList ++ settings rest := by
  rw [settings, List.filterMap_cons]
  cases setting? pair <;> rfl

/-- An update leaves behind what setting its pairs one by one does. -/
theorem update_session [Json.Limit] (s : Session) (pairs : List (Text × Json)) :
    (update s pairs).session = s.run (settings pairs) := by
  induction pairs generalizing s with
  | nil => rfl
  | cons pair rest ih =>
    obtain ⟨name, value⟩ := pair
    rw [settings_cons]
    cases value with
    | text value =>
      by_cases hblank : Ledger.Blank name value
      · have hentry : entryOf? (name, .text value) = none := if_pos hblank
        rw [update_cons_of_none hentry, setting?, if_pos hblank]
        exact ih s
      · have hentry : entryOf? (name, .text value) = some (Text.trim name, Text.trim value) :=
          if_neg hblank
        rw [update_cons_of_entry hentry, setting?, if_neg hblank, ih]
        show _ = (set s name value).session.run (settings rest)
        rw [set_of_not_blank hblank]
        rfl
    | _ => exact (update_cons_of_none rfl rest).trans (ih s)

/-! ## What an update is answered with -/

theorem length_settings (pairs : List (Text × Json)) :
    (settings pairs).length = pairs.countP Ledger.makesEntry := by
  have hsome : ∀ pair, (setting? pair).isSome = Ledger.makesEntry pair := by
    rintro ⟨name, value⟩
    cases value with
    | text value =>
      rw [setting?, Ledger.makesEntry]
      by_cases h : Ledger.Blank name value <;> simp [h]
    | _ => rfl
  rw [settings, List.length_filterMap_eq_countP]
  simp only [hsome]

theorem exists_of_mem_settings {pairs : List (Text × Json)} {action : Action}
    (h : action ∈ settings pairs) : ∃ name value, action = .set name value ∧ ¬ Ledger.Blank name value := by
  obtain ⟨⟨name, value⟩, -, hsetting⟩ := List.mem_filterMap.1 h
  cases value with
  | text value =>
    rw [setting?] at hsetting
    split at hsetting
    · cases hsetting
    · next hblank => exact ⟨name, value, (Option.some.inj hsetting).symm, hblank⟩
  | _ => cases hsetting

/-- Every one of the settings succeeds after those before it. -/
theorem settings_succeed [Json.Limit] {s : Session} (h : ¬ s.SavingFails) {pairs : List (Text × Json)}
    {front back : List Action} {action : Action} (hpairs : settings pairs = front ++ action :: back) :
    ((s.run front).step action).result = .ok .done := by
  have hset : ∀ a ∈ front ++ [action], ∃ name value, a = .set name value ∧ ¬ Ledger.Blank name value := by
    intro a ha
    apply exists_of_mem_settings
    rw [hpairs]
    exact (List.append_cons front action back ▸ List.mem_append_left back ha)
  clear hpairs
  induction front generalizing s with
  | nil =>
    obtain ⟨name, value, rfl, hblank⟩ := hset action (by simp)
    show ((set s name value).map _).result = _
    rw [Outcome.map, (set_succeeds h hblank).1]
    rfl
  | cons a rest ih =>
    rw [List.cons_append, List.forall_mem_cons] at hset
    obtain ⟨⟨name, value, rfl, hblank⟩, hrest⟩ := hset
    exact ih (set_succeeds h hblank).2 hrest

/-! ## What an update reports -/

/-- The pairs that cannot be set are reported, each once and in order. -/
theorem skipped_eq (pairs : List (Text × Json)) :
    (pairs.filterMap skipped?).map Notice.message =
      (pairs.filter (fun pair => !Ledger.makesEntry pair)).map skipping := by
  induction pairs with
  | nil => rfl
  | cons pair rest ih =>
    obtain ⟨name, value⟩ := pair
    cases value with
    | text value =>
      by_cases h : Ledger.Blank name value
      · have hskipped : skipped? (name, .text value) = some (.skippedBlank name) := if_pos h
        have hmakes : Ledger.makesEntry (name, .text value) = false := by simp [Ledger.makesEntry, h]
        rw [List.filterMap_cons, hskipped, List.filter_cons, hmakes]
        exact congrArg _ ih
      · have hskipped : skipped? (name, .text value) = none := if_neg h
        have hmakes : Ledger.makesEntry (name, .text value) = true := by simp [Ledger.makesEntry, h]
        rw [List.filterMap_cons, hskipped, List.filter_cons, hmakes]
        exact ih
    | _ => exact congrArg _ ih

theorem isWarning_of_skipped {pairs : List (Text × Json)} {notice : Notice}
    (h : notice ∈ pairs.filterMap skipped?) : notice.isWarning = true := by
  obtain ⟨pair, -, hskipped⟩ := List.mem_filterMap.1 h
  unfold skipped? at hskipped
  split at hskipped
  · split at hskipped
    · rw [← Option.some.inj hskipped]
      rfl
    · cases hskipped
  · rw [← Option.some.inj hskipped]
    rfl

theorem skips_skipping (pair : Text × Json) : Skips (skipping pair) = true := by
  obtain ⟨name, value⟩ := pair
  cases value <;> rfl

/-- A failure to store is no report of a pair passed over. -/
theorem skips_warnings_save (s : Session) : (save s).warnings.filter Skips = [] := by
  unfold save
  split
  · split
    · rfl
    · rfl
    · next fault _ _ => cases fault <;> rfl
  · rfl

theorem warnings_after {α : Type} (notices : List Notice) (o : Outcome α) :
    (o.after notices).warnings = (notices.filter Notice.isWarning).map Notice.message ++ o.warnings := by
  simp [Outcome.warnings, Outcome.after]

theorem warnings_skipped (pairs : List (Text × Json)) :
    ((pairs.filterMap skipped?).filter Notice.isWarning).map Notice.message =
      (pairs.filter (fun pair => !Ledger.makesEntry pair)).map skipping := by
  rw [List.filter_eq_self.2 (fun notice h => isWarning_of_skipped h), skipped_eq]

/-- Of the warnings of an update, those of pairs passed over are one for each such pair, in order. -/
theorem skipping_update (s : Session) (pairs : List (Text × Json)) :
    (update s pairs).warnings.filter Skips =
      (pairs.filter (fun pair => !Ledger.makesEntry pair)).map skipping := by
  have hall : ((pairs.filter (fun pair => !Ledger.makesEntry pair)).map skipping).filter Skips =
      (pairs.filter (fun pair => !Ledger.makesEntry pair)).map skipping := by
    apply List.filter_eq_self.2
    intro warning h
    obtain ⟨pair, -, rfl⟩ := List.mem_map.1 h
    exact skips_skipping pair
  by_cases h : pairs.filterMap entryOf? = []
  · rw [update_of_none h, Outcome.warnings, warnings_skipped, hall]
  · rw [update_of_some h]
    show ((save _).after _).warnings.filter Skips = _
    rw [warnings_after, warnings_skipped, List.filter_append, hall, skips_warnings_save,
      List.append_nil]

/-! ## All that an update comes to -/

/-- Where saving does not fail, pairs written at once leave behind what setting them one by one does,
in memory and in the database, and each of these settings succeeds. The answer is how many there are;
every other pair is reported once, in order; and without any pair to set nothing else is done. -/
theorem update_is_settings [Json.Limit] (s : Session) (pairs : List (Text × Json)) (h : ¬ s.SavingFails) :
    (update s pairs).session = s.run (settings pairs) ∧
    (∀ front action back, settings pairs = front ++ action :: back →
      ((s.run front).step action).result = .ok .done) ∧
    (update s pairs).result = .ok (settings pairs).length ∧
    (update s pairs).warnings.filter Skips =
      (pairs.filter (fun pair => !Ledger.makesEntry pair)).map skipping ∧
    (settings pairs = [] → (update s pairs).session = s ∧
      (update s pairs).warnings = pairs.map skipping) := by
  refine ⟨update_session s pairs, fun _ _ _ hpairs => settings_succeed h hpairs, ?_,
    skipping_update s pairs, fun hnone => ⟨?_, ?_⟩⟩
  · rw [length_settings]
    exact update_succeeds h pairs
  · rw [update_session, hnone]
    rfl
  · have hcount := length_settings pairs
    rw [hnone, List.length_nil, eq_comm, List.countP_eq_zero] at hcount
    have hentries : pairs.filterMap entryOf? = [] := by
      rw [← List.length_eq_zero_iff, Ledger.length_entryOf?, List.countP_eq_zero]
      exact hcount
    have hall : pairs.filter (fun pair => !Ledger.makesEntry pair) = pairs :=
      List.filter_eq_self.2 (fun pair hpair => by simpa using hcount pair hpair)
    rw [update_of_none hentries, Outcome.warnings, warnings_skipped, hall]

attribute [local instance] Json.Limit.least

/-- Two names are one after trimming, a name is blank and so is a value, and a value is a number. -/
theorem trimmed_names_collide :
    let s : Session := ⟨.ofRows [("k", "[]")], ⟨true, "k", OrderedMap.ofPairs [("--C", "flex")]⟩⟩
    let pairs : List (Text × Json) := [(" --A", .text "p-2"), ("--B", .whole 5),
      ("--A\n", .text "m-1 "), ("\u3000", .text "w-1"), ("--C", .text "\u2028")]
    ¬ s.SavingFails ∧
    (update s pairs).session = s.run (settings pairs) ∧
    (update s pairs).session.ledger = [(Text.of "--C", Text.of "flex"), (Text.of "--A", Text.of "m-1")] ∧
    (update s pairs).result = .ok 2 ∧
    (update s pairs).warnings.filter Skips =
      [Text.of "Skipping non-string dictionary entry '--B'",
        Text.of "Skipping blank dictionary entry '\\u3000'",
        Text.of "Skipping blank dictionary entry '--C'"] := by
  intro s pairs
  have hsaves : ¬ s.SavingFails := by decide
  obtain ⟨hsession, -, hresult, hskipping, -⟩ := update_is_settings s pairs hsaves
  refine ⟨hsaves, hsession, by decide +kernel, hresult.trans ?_, hskipping.trans ?_⟩
  · rw [length_settings]
    decide +kernel
  · decide +kernel

end Session

end UtilityCss
