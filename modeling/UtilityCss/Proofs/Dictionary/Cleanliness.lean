import UtilityCss.Proofs.Dictionary.Persistence
/-
  A dictionary that can be reached holds nothing blank and nothing to trim.

  Setting and updating trim what they enter and enter nothing blank; opening
  and reading anew take what is stored as it is. So a clean dictionary stays
  clean only if the rows are, and the rows stay clean only if the dictionary
  is: the two are one invariant of a session. It passes through the stored
  text, where two halves of a pair that stand side by side come back as their
  character, which is not blank.

  What is proved:
    1. `Text.Tidy.joinHalves`, `holdsClean_stored` : clean entries are stored
       as a text that is read as clean entries.
    2. `Clean.after` : what a call does to clean entries.
    3. `Sound.step`, `Sound.run` : every step keeps the invariant, and so does
       every run.
    4. `reachable_clean` : the entries, and the rows that the dictionaries of a
       run have written.
-/

namespace UtilityCss

/-! ## Tidy texts -/

/-- A text that is not blank and has nothing to trim. -/
def Text.Tidy (t : Text) : Prop := t ≠ [] ∧ Text.trim t = t

instance (t : Text) : Decidable t.Tidy := inferInstanceAs (Decidable (_ ∧ _))

namespace Text

theorem tidy_trim {t : Text} (h : trim t ≠ []) : (trim t).Tidy := ⟨h, trim_trim t⟩

/-- A character of two halves is not blank. -/
theorem isBlank_join {c d : CodePoint} (h : c.Paired d) :
    isBlank (CodePoint.ofNat (Surrogate.join c.toNat d.toNat)) = false := by
  obtain ⟨hhigh, hlow⟩ := h
  rw [Surrogate.isHigh, Bool.and_eq_true, decide_eq_true_eq, decide_eq_true_eq] at hhigh
  rw [Surrogate.isLow, Bool.and_eq_true, decide_eq_true_eq, decide_eq_true_eq] at hlow
  obtain ⟨n, hn⟩ : ∃ n, n = Surrogate.join c.toNat d.toNat := ⟨_, rfl⟩
  have hbounds : 0x10000 ≤ n ∧ n < 0x110000 := by
    rw [hn]
    unfold Surrogate.join
    omega
  have hnum : (CodePoint.ofNat n).toNat = n := by
    rw [CodePoint.ofNat, dif_neg (by omega)]
    show (Char.ofNat n).toNat = n
    rw [Char.ofNat, dif_pos (Or.inr (by omega))]
    rfl
  rw [← hn, isBlank, hnum]
  simp
  omega

theorem head?_joinHalves {t : Text} (h : ∀ c ∈ t.head?, isBlank c = false) :
    ∀ c ∈ t.joinHalves.head?, isBlank c = false := by
  fun_cases Text.joinHalves t with
  | case1 => exact h
  | case2 c => exact h
  | case3 c d rest hpair =>
    intro e he
    rw [← Option.some.inj he]
    exact isBlank_join hpair
  | case4 c d rest hpair => exact h

theorem joinHalves_eq_nil_iff {t : Text} : t.joinHalves = [] ↔ t = [] := by
  fun_cases Text.joinHalves t <;> simp

theorem solid_getLast?_cons {c : CodePoint} {t : Text} (hc : t = [] → isBlank c = false)
    (ht : ∀ e ∈ t.getLast?, isBlank e = false) : ∀ e ∈ (c :: t).getLast?, isBlank e = false := by
  cases t with
  | nil =>
    intro e he
    rw [← Option.some.inj he]
    exact hc rfl
  | cons d rest =>
    rw [List.getLast?_cons_cons]
    exact ht

theorem getLast?_joinHalves {t : Text} (h : ∀ c ∈ t.getLast?, isBlank c = false) :
    ∀ c ∈ t.joinHalves.getLast?, isBlank c = false := by
  fun_induction Text.joinHalves t with
  | case1 => exact h
  | case2 c => exact h
  | case3 c d rest hpair ih =>
    apply solid_getLast?_cons (fun _ => isBlank_join hpair)
    apply ih
    intro e he
    apply h
    rw [List.getLast?_cons_cons, List.getLast?_cons, Option.mem_def.1 he]
    rfl
  | case4 c d rest hpair ih =>
    rw [List.getLast?_cons_cons] at h
    apply solid_getLast?_cons
    · intro hnil
      exact absurd (joinHalves_eq_nil_iff.1 hnil) (List.cons_ne_nil d rest)
    · exact ih h

/-- A tidy text is tidy with its halves joined. -/
theorem Tidy.joinHalves {t : Text} (h : t.Tidy) : t.joinHalves.Tidy := by
  refine ⟨mt joinHalves_eq_nil_iff.1 h.1, ?_⟩
  apply trim_of_solid_ends
  · apply head?_joinHalves
    rw [← h.2]
    exact head?_trim t
  · apply getLast?_joinHalves
    rw [← h.2]
    exact getLast?_trim t

end Text

/-! ## Clean entries -/

/-- Every name and every value is tidy. -/
def Ledger.Clean (l : Ledger) : Prop := ∀ e ∈ l, e.1.Tidy ∧ e.2.Tidy

instance (l : Ledger) : Decidable l.Clean := inferInstanceAs (Decidable (∀ e ∈ l, _ ∧ _))

theorem Ledger.clean_nil : Ledger.Clean [] := fun _ he => nomatch he

namespace Ledger.Clean

variable {l : Ledger}

theorem upsert_trim (h : l.Clean) {name value : Text} (hblank : ¬ Ledger.Blank name value) :
    (l.upsert (Text.trim name) (Text.trim value)).Clean := by
  rw [Ledger.Blank, not_or] at hblank
  intro e he
  rcases Ledger.mem_upsert he with rfl | he
  · exact ⟨Text.tidy_trim hblank.1, Text.tidy_trim hblank.2⟩
  · exact h e he

theorem enter (h : l.Clean) (name value : Text) : (l.enter name value).Clean := by
  unfold Ledger.enter
  split
  · exact h
  · next hblank => exact h.upsert_trim hblank

theorem enterPairs (h : l.Clean) (pairs : List (Text × Json)) :
    Ledger.Clean (pairs.foldl Ledger.enterPair l) := by
  induction pairs generalizing l with
  | nil => exact h
  | cons pair rest ih =>
    obtain ⟨name, value⟩ := pair
    apply ih
    cases value with
    | text value => exact h.enter name value
    | _ => exact h

/-- A call leaves clean entries clean. -/
theorem after (h : l.Clean) (c : Call) : (l.after c).Clean := by
  cases c with
  | set name value => exact h.enter name value
  | remove name => exact fun e he => h e (List.mem_of_mem_filter he)
  | update pairs => exact h.enterPairs pairs
  | _ => exact h

end Ledger.Clean

section

variable [Json.Limit]

/-! ## Stored texts -/

/-- A stored text holds no entries but clean ones: it is no object of texts, or a clean one. -/
def StoredClean (text : Text) : Prop :=
  ∀ l, Json.read text = .ok (Json.ofTexts l) → Ledger.Clean l

theorem storedClean_iff {text : Text} :
    StoredClean text ↔ ∀ value ∈ (Json.read text).toOption,
      ∀ l ∈ value.members?.bind Entries.ofMembers?, Ledger.Clean l := by
  cases hread : Json.read text with
  | error fault => simp [StoredClean, hread, Except.toOption]
  | ok value =>
    constructor
    · intro h v hv l hl
      obtain rfl : value = v := Option.some.inj hv
      obtain ⟨members, hmembers, hof⟩ := Option.bind_eq_some_iff.1 hl
      rw [Json.members?_eq_some_iff.1 hmembers, Entries.ofMembers?_eq_some_iff.1 hof] at hread
      exact h l hread
    · intro h l hl
      rw [hread] at hl
      obtain rfl : value = Json.ofTexts l := Except.ok.inj hl
      exact h _ rfl l (Entries.ofMembers?_textMember l)

instance (text : Text) : Decidable (StoredClean text) := decidable_of_iff _ storedClean_iff.symm

/-- A stored text is read as an object of texts with each name once, all of it clean. -/
def HoldsClean (text : Text) : Prop :=
  ∃ l, Json.read text = .ok (Json.ofTexts l) ∧ Ledger.Clean l ∧ (l.map Prod.fst).Nodup

theorem HoldsClean.storedClean {text : Text} (h : HoldsClean text) : StoredClean text := by
  obtain ⟨l, hread, hclean, -⟩ := h
  intro m hm
  rw [hread] at hm
  rw [← Entries.ofTexts_inj (Except.ok.inj hm)]
  exact hclean

/-- Clean entries are stored as a text that is read as clean entries, with the halves in them
joined. -/
theorem holdsClean_stored {m : Entries} (h : Ledger.Clean m.entries) : HoldsClean m.stored := by
  refine ⟨_, Entries.read_stored m, ?_, ?_⟩
  · intro e he
    rw [Ledger.reread, Pairs.ofList_eq_entries] at he
    obtain ⟨d, hd, rfl⟩ := List.mem_map.1 (OrderedMap.mem_of_mem_ofPairs he)
    exact ⟨(h d hd).1.joinHalves, (h d hd).2.joinHalves⟩
  · rw [Ledger.reread, Pairs.ofList_eq_entries]
    exact (OrderedMap.ofPairs _).distinct

theorem clean_of_ofStored? {text : Text} (h : StoredClean text) {m : Entries}
    (hm : Entries.ofStored? text = .ok (some m)) : Ledger.Clean m.entries := by
  obtain ⟨pairs, hread, rfl⟩ := Entries.read_of_ofStored? hm
  exact fun e he => h pairs hread e (OrderedMap.mem_of_mem_ofPairs he)

/-! ## Rows -/

namespace Database

/-- The rows of the table, where there is one. -/
def rows (db : Database) : List (Cell × Text) := (db.table?.map OrderedMap.entries).getD []

/-- No row holds entries but clean ones. -/
def Clean (db : Database) : Prop := ∀ row ∈ db.rows, StoredClean row.2

instance (db : Database) : Decidable db.Clean :=
  inferInstanceAs (Decidable (∀ row ∈ db.rows, StoredClean row.2))

theorem Clean.of_table? {db after : Database} (h : db.Clean) (htable : after.table? = db.table?) :
    after.Clean := by
  intro row hrow
  rw [rows, htable] at hrow
  exact h row hrow

theorem clean_of_no_table {db : Database} (h : db.table? = none) : db.Clean := by
  intro row hrow
  rw [rows, h] at hrow
  cases hrow

theorem Clean.of_get? {db : Database} (h : db.Clean) {key : Cell} {text : Text}
    (hget : db.get? key = .ok (some text)) : StoredClean text := by
  obtain ⟨medium, rows, rfl, hrow⟩ := get?_eq_ok hget
  exact h (key, text) ((OrderedMap.get?_eq_some_iff rows key text).1 hrow)

theorem Clean.put {db after : Database} (h : db.Clean) {key : Cell} {text : Text}
    (htext : StoredClean text) (hput : db.put key text = .ok after) : after.Clean := by
  obtain ⟨medium, rows, rfl, rfl⟩ := put_eq_ok hput
  rintro ⟨other, found⟩ hrow
  have hget := (OrderedMap.get?_eq_some_iff (rows.put key text) other found).2 hrow
  rw [OrderedMap.get?_put] at hget
  split at hget
  · rw [← Option.some.inj hget]
    exact htext
  · exact h (other, found) ((OrderedMap.get?_eq_some_iff rows other found).1 hget)

end Database

/-! ## One step -/

/-- The call that an action is, if it is one. -/
def Action.call? : Action → Option Call
  | .set name value => some (.set name value)
  | .get name => some (.get name)
  | .remove name => some (.remove name)
  | .update pairs => some (.update pairs)
  | .contains name => some (.contains name)
  | .size => some .size
  | .save => some .save
  | .convert conversion => some (.convert conversion)
  | _ => none

/-- A text that an action writes to the database from outside holds no entries but clean ones. -/
def Action.BringsClean : Action → Prop
  | .writeRow _ text => StoredClean text
  | _ => True

instance : (action : Action) → Decidable action.BringsClean
  | .writeRow _ text => inferInstanceAs (Decidable (StoredClean text))
  | .set _ _ | .get _ | .remove _ | .update _ | .contains _ | .size | .load | .save | .openKey _
  | .convert _ | .readRow _ | .dropTable | .migrate | .commit | .closeConnection | .closeDatabase
  | .connect => isTrue trivial

namespace Session

instance (s : Session) (c : Call) : Decidable (s.Writes c) :=
  decidable_of_iff (s.dictionary.persistent = true ∧ s.ledger.stores c = true ∧
      (s.database.put s.dictionary.key (s.call c).session.dictionary.entries.stored).isOk = true) (by
    constructor
    · rintro ⟨hpersistent, hstores, hok⟩
      refine ⟨hpersistent, hstores, ?_⟩
      cases hput : s.database.put s.dictionary.key (s.call c).session.dictionary.entries.stored with
      | ok db => exact ⟨db, rfl⟩
      | error fault =>
        rw [hput] at hok
        cases hok
    · rintro ⟨hpersistent, hstores, db, hput⟩
      refine ⟨hpersistent, hstores, ?_⟩
      rw [hput]
      rfl)

/-- The keys whose rows the dictionaries of a run have written, after one more step. A row that is
written from outside is no longer theirs, without the table there are no rows, and with its connection
a database in memory loses them. -/
def ownAfter (s : Session) (own : List Cell) : Action → List Cell
  | .writeRow key _ =>
    match s.database.table with
    | .ok _ => own.filter (· ≠ key)
    | .error _ => own
  | .dropTable =>
    match s.database.table with
    | .ok _ => []
    | .error _ => own
  | .closeConnection | .closeDatabase | .connect =>
    if s.database.remains = .nothing then [] else own
  | action =>
    match action.call? with
    | some c => if s.Writes c then s.dictionary.key :: own else own
    | none => own

/-- The entries are clean, so is what the rows hold, and the rows of the given keys hold entries. -/
structure Sound (s : Session) (own : List Cell) : Prop where
  entries : s.ledger.Clean
  rows : s.database.Clean
  own : ∀ key ∈ own, ∃ text, s.database.row? key = some text ∧ HoldsClean text

namespace Sound

variable {s : Session} {own : List Cell}

theorem of_call (h : s.Sound own) (c : Call) :
    (s.call c).session.Sound (if s.Writes c then s.dictionary.key :: own else own) := by
  have hentries : (s.call c).session.ledger.Clean := by
    rw [(follows_call s c).ledger]
    exact h.entries.after c
  split
  · next hwrites =>
    obtain ⟨-, hput⟩ := hwrites.put_eq
    have hstored : HoldsClean (s.call c).session.dictionary.entries.stored := holdsClean_stored hentries
    refine ⟨hentries, h.rows.put hstored.storedClean hput, ?_⟩
    intro key hkey
    by_cases hsame : s.dictionary.key = key
    · rw [← hsame]
      exact ⟨_, Database.row?_of_get? (Database.get?_put_self hput), hstored⟩
    · rw [Database.row?_put_other hput hsame]
      exact h.own key (List.mem_of_ne_of_mem (Ne.symm hsame) hkey)
  · next hwrites =>
    have hdatabase := database_call_of_not_writes hwrites
    exact ⟨hentries, hdatabase ▸ h.rows, hdatabase ▸ h.own⟩

/-- Where the rows are clean, a dictionary begins with clean entries. -/
theorem clean_of_readEntries {db : Database} (h : db.Clean) {key : Cell} {m : Entries}
    {notices : List Notice} (hread : readEntries db key = .ok (m, notices)) :
    Ledger.Clean m.entries := by
  rcases readEntries_cases hread with rfl | ⟨text, hget, hstored⟩
  · exact Ledger.clean_nil
  · exact clean_of_ofStored? (h.of_get? hget) hstored

theorem of_load (h : s.Sound own) : (load s).session.Sound own := by
  unfold load
  split
  · split
    · exact h
    · next m notices hread => exact ⟨clean_of_readEntries h.rows hread, h.rows, h.own⟩
  · exact ⟨Ledger.clean_nil, h.rows, h.own⟩

theorem of_openKey (h : s.Sound own) (key : Cell) : (openKey s key).session.Sound own := by
  have hempty : ({ s with dictionary := ⟨s.dictionary.persistent, key, OrderedMap.empty⟩ } :
      Session).Sound own := ⟨Ledger.clean_nil, h.rows, h.own⟩
  have hload := hempty.of_load
  unfold openKey
  simp only
  split
  · exact hload
  · exact h

/-- A step that leaves the table as it is. -/
theorem of_table? (h : s.Sound own) {db : Database} (htable : db.table? = s.database.table?) :
    ({ s with database := db } : Session).Sound own := by
  refine ⟨h.entries, h.rows.of_table? htable, fun key hkey => ?_⟩
  show ∃ text, db.row? key = some text ∧ HoldsClean text
  rw [Database.row?, htable]
  exact h.own key hkey

/-- A step that leaves no table. -/
theorem of_no_table (h : s.Sound own) {db : Database} (htable : db.table? = none) :
    ({ s with database := db } : Session).Sound [] :=
  ⟨h.entries, Database.clean_of_no_table htable, fun _ hkey => nomatch hkey⟩

/-- A step that leaves of the database what its connection does not take with it. -/
theorem of_remains (h : s.Sound own) {db : Database} (htable : db.table? = s.database.remains.table?) :
    ({ s with database := db } : Session).Sound (if s.database.remains = .nothing then [] else own) := by
  split
  · next hnothing =>
    rw [hnothing] at htable
    exact h.of_no_table htable
  · next hfile => exact h.of_table? (htable.trans (Database.remains_table? hfile))

theorem of_closeConnection (h : s.Sound own) :
    (s.step .closeConnection).session.Sound (if s.database.remains = .nothing then [] else own) := by
  obtain ⟨database, dictionary⟩ := s
  cases database <;> exact h.of_remains rfl

theorem of_connect (h : s.Sound own) :
    (s.step .connect).session.Sound (if s.database.remains = .nothing then [] else own) :=
  h.of_remains s.database.table?_connect

theorem of_writeRow (h : s.Sound own) {key text : Cell} (htext : StoredClean text) :
    (s.step (.writeRow key text)).session.Sound (s.ownAfter own (.writeRow key text)) := by
  show (s.onDatabase (s.database.put key text)).session.Sound _
  cases htable : s.database.table with
  | error fault =>
    rw [Database.put, ownAfter, htable]
    exact h
  | ok rows =>
    have hput : s.database.put key text =
        .ok (s.database.withTable (some (rows.put key text))) := by rw [Database.put, htable]
    rw [hput, ownAfter, htable]
    refine ⟨h.entries, h.rows.put htext hput, fun k hk => ?_⟩
    obtain ⟨hmem, hne⟩ := List.mem_filter.1 hk
    have hother : key ≠ k := Ne.symm (of_decide_eq_true hne)
    show ∃ found, (s.database.withTable (some (rows.put key text))).row? k = some found ∧
      HoldsClean found
    rw [Database.row?_put_other hput hother]
    exact h.own k hmem

/-- A table is made only where there were no rows. -/
theorem of_migrate (h : s.Sound own) : (s.step .migrate).session.Sound own := by
  obtain ⟨database, dictionary⟩ := s
  cases database with
  | disconnected => exact h
  | closed => exact h
  | connected medium table =>
    cases table with
    | some rows => exact h
    | none =>
      refine ⟨h.entries, ?_, ?_⟩
      · intro row hrow
        cases hrow
      · intro key hkey
        obtain ⟨text, hrow, -⟩ := h.own key hkey
        cases hrow

theorem of_commit (h : s.Sound own) : (s.step .commit).session.Sound own := by
  obtain ⟨database, dictionary⟩ := s
  cases database <;> exact h

theorem of_readRow (h : s.Sound own) (key : Cell) : (s.step (.readRow key)).session.Sound own := by
  rw [step]
  split <;> exact h

theorem of_dropTable (h : s.Sound own) :
    (s.step .dropTable).session.Sound (s.ownAfter own .dropTable) := by
  obtain ⟨database, dictionary⟩ := s
  cases database with
  | disconnected => exact h
  | closed => exact h
  | connected medium table =>
    cases table with
    | none => exact h
    | some rows => exact h.of_no_table rfl

/-- Every step keeps the invariant, if what it brings from outside is clean. -/
theorem step (h : s.Sound own) {action : Action} (hbrings : action.BringsClean) :
    (s.step action).session.Sound (s.ownAfter own action) := by
  cases action with
  | set name value => exact h.of_call (.set name value)
  | get name => exact h.of_call (.get name)
  | remove name => exact h.of_call (.remove name)
  | update pairs => exact h.of_call (.update pairs)
  | contains name => exact h.of_call (.contains name)
  | size => exact h.of_call .size
  | save => exact h.of_call .save
  | convert conversion => exact h.of_call (.convert conversion)
  | load => exact h.of_load
  | openKey key => exact h.of_openKey key
  | readRow key => exact h.of_readRow key
  | writeRow key text => exact h.of_writeRow hbrings
  | dropTable => exact h.of_dropTable
  | migrate => exact h.of_migrate
  | commit => exact h.of_commit
  | closeConnection => exact h.of_closeConnection
  | closeDatabase => exact h.of_remains rfl
  | connect => exact h.of_connect

end Sound

/-! ## Runs -/

/-- The keys whose rows the dictionaries of a run have written and nobody else since. -/
def ownRows (s : Session) (own : List Cell) : List Action → List Cell
  | [] => own
  | action :: rest => ownRows (s.step action).session (s.ownAfter own action) rest

theorem Sound.run {s : Session} {own : List Cell} (h : s.Sound own) {actions : List Action}
    (hbrings : ∀ action ∈ actions, action.BringsClean) :
    (s.run actions).Sound (s.ownRows own actions) := by
  induction actions generalizing s own with
  | nil => exact h
  | cons action rest ih =>
    rw [List.forall_mem_cons] at hbrings
    exact ih (h.step hbrings.1) hbrings.2

/-- After any run over a database in any state, in memory or in a file, whose rows hold no entries but
clean ones, as those that are written from outside do: every name and every value of the dictionary is
tidy, no name is there twice, and each row that the dictionaries of the run have written is read as an
object of such names and values. The row is there also while the database cannot be asked for it, and
is what is read where it can. -/
theorem reachable_clean (persistent : Bool) (db : Database) (key : Cell) (actions : List Action)
    (hdb : db.Clean) (hbrings : ∀ action ∈ actions, action.BringsClean) :
    let first := (start persistent db key).session
    (first.run actions).ledger.Clean ∧ ((first.run actions).ledger.map Prod.fst).Nodup ∧
    ∀ k ∈ first.ownRows [] actions, ∃ text, (first.run actions).database.row? k = some text ∧
      HoldsClean text ∧ ∀ read, (first.run actions).database.get? k = .ok read → read = some text := by
  intro first
  have hbare : (⟨db, ⟨persistent, key, OrderedMap.empty⟩⟩ : Session).Sound [] :=
    ⟨Ledger.clean_nil, hdb, fun _ hk => nomatch hk⟩
  have hrun := (hbare.of_openKey key).run hbrings
  refine ⟨hrun.entries, (first.run actions).dictionary.entries.distinct, fun k hk => ?_⟩
  obtain ⟨text, hrow, hholds⟩ := hrun.own k hk
  exact ⟨text, hrow, hholds, fun read hread => (Database.row?_of_get? hread).symm.trans hrow⟩

end Session

end

namespace Session

attribute [local instance] Json.Limit.least

/-- A database in a file, with one row that holds no dictionary and one with a clean one. Between two
writes the table is dropped, the database is closed and opened again, a row is written from outside,
and another dictionary is opened; a name ends in two halves that meet. The connection is lost in the
end, and made anew. -/
theorem reopened_rows_clean :
    let rows : Table :=
      OrderedMap.ofPairs [("j", "\x7b\"--A\": 1\x7d"), ("k", "\x7b\"--A\": \"p-2\"\x7d")]
    let db : Database := .connected .file (some rows)
    let name : Text := [.char '-', .half 0x3D, .half 0x400]
    let actions : List Action := [.set " --B " "m-1\n", .dropTable, .set "--C" "flex", .migrate, .save,
      .closeDatabase, .set "--E" " p-1 ", .connect,
      .writeRow "l" "\x7b\"--D\": \"w-1\"\x7d", .openKey "l", .set name " x ",
      .closeConnection, .openKey "j", .connect]
    let first := (start true db "k").session
    (db.Clean ∧ ∀ action ∈ actions, action.BringsClean) ∧
    first.ownRows [] actions = [Cell.of "l", Cell.of "k"] ∧
    (first.run actions).ledger = [] ∧
    ∀ k ∈ [Cell.of "l", Cell.of "k"], ∃ text, (first.run actions).database.row? k = some text ∧
      HoldsClean text ∧ ∀ read, (first.run actions).database.get? k = .ok read → read = some text := by
  intro rows db name actions first
  have hdb : db.Clean := by decide +kernel
  have hbrings : ∀ action ∈ actions, action.BringsClean := by decide +kernel
  have hown : first.ownRows [] actions = [Cell.of "l", Cell.of "k"] := by decide +kernel
  obtain ⟨-, -, hrows⟩ := reachable_clean true db "k" actions hdb hbrings
  rw [show (start true db "k").session = first from rfl, hown] at hrows
  exact ⟨⟨hdb, hbrings⟩, hown, by decide +kernel, hrows⟩

end Session

end UtilityCss
