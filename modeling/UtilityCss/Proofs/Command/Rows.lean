import UtilityCss.Command.Invocation
import UtilityCss.Proofs.Dictionary.Working
/-
  The rows that a working directory keeps, and the ledgers that they hold.

  A row is found by a place and a key. Two things are done to a working
  directory when a database is used: the files that it keeps beside its own are
  gone, and with them the rows of a database that is named like one of them;
  and the database is left at its place. The place itself is never beside
  itself, so what the database had there stays until it is kept.

  What is proved:
    1. `rowAt_clearFor`, `rowAt_keep` : the rows after each of the two.
    2. `rowOf_clearFor` : the rows of a path are not beside it.
    3. `sameRows_keep`, `keeps_keep` : the rows after a database is kept that
       has the rows of its path, or another one under one key.
-/

namespace UtilityCss.Command

/-! ## Beside a database -/

namespace Place

theorem withEnding_ne (at_ : Place) {ending : Text} (h : ending ≠ []) : at_.withEnding ending ≠ at_ := by
  intro hsame
  rcases List.eq_nil_or_concat at_ with rfl | ⟨front, last, rfl⟩
  · simp [withEnding] at hsame
  · simp [withEnding, h] at hsame

theorem not_mem_beside (at_ : Place) : at_ ∉ at_.beside := by
  intro hmem
  simp only [beside, journal, List.mem_cons, List.not_mem_nil, or_false] at hmem
  rcases hmem with h | h | h
  all_goals exact withEnding_ne at_ (by decide) h.symm

end Place

namespace Workspace

theorem taken_subset (ws : Workspace) (path : Text) : ws.taken path ⊆ (Place.ofPath path).beside := by
  intro place hmem
  have hplaces := (List.mem_filter.1 hmem).1
  split at hplaces
  · cases hplaces
  · split at hplaces
    · exact hplaces
    · rw [List.mem_singleton.1 hplaces]
      exact List.mem_cons_of_mem _ List.mem_cons_self
    · cases hplaces

/-- What a database takes is not its own place. -/
theorem not_mem_taken (ws : Workspace) (path : Text) : Place.ofPath path ∉ ws.taken path :=
  fun hmem => Place.not_mem_beside _ (ws.taken_subset path hmem)

theorem get?_clearFor (ws : Workspace) (path : Text) (place : Place) :
    (ws.clearFor path).get? place = if place ∈ ws.taken path then none else ws.get? place := by
  unfold clearFor
  induction ws.taken path generalizing ws with
  | nil => rfl
  | cons first rest ih =>
    rw [List.foldl_cons, ih, OrderedMap.get?_erase]
    by_cases hrest : place ∈ rest
    · rw [if_pos hrest, if_pos (List.mem_cons_of_mem _ hrest)]
    · by_cases hfirst : first = place
      · rw [if_neg hrest, if_pos hfirst, hfirst, if_pos List.mem_cons_self]
      · have hne : ¬ place ∈ first :: rest := by simp [hrest, Ne.symm hfirst]
        rw [if_neg hrest, if_neg hfirst, if_neg hne]

theorem keep_of_passing (ws : Workspace) {path : Text} (h : isPassing path = true) (db : Database) :
    ws.keep path db = ws := by
  simp [keep, h]

end Workspace

/-! ## Rows -/

/-- The row of a key in the database at a place. -/
def rowAt (ws : Workspace) (place : Place) (key : Cell) : Option Text :=
  match ws.get? place with
  | some (.database (some rows)) => rows.get? key
  | _ => none

/-- The row of a key in the database that a path names. A database that is not kept has none. -/
def rowOf (ws : Workspace) (path : Text) (key : Cell) : Option Text :=
  if Workspace.isPassing path then none else rowAt ws (Place.ofPath path) key

/-- The rows are texts of characters, as those of a database are. -/
def Workspace.Plain (ws : Workspace) : Prop :=
  ∀ place key text, rowAt ws place key = some text → text.Scalar

/-- Two working directories have the same rows. -/
def SameRows (ws after : Workspace) : Prop := ∀ place key, rowAt after place key = rowAt ws place key

theorem rowAt_clearFor (ws : Workspace) (path : Text) (place : Place) (key : Cell) :
    rowAt (ws.clearFor path) place key =
      if place ∈ ws.taken path then none else rowAt ws place key := by
  rw [rowAt, Workspace.get?_clearFor]
  by_cases hmem : place ∈ ws.taken path
  · rw [if_pos hmem, if_pos hmem]
  · rw [if_neg hmem, if_neg hmem, rowAt]

/-- What a database takes when it is opened is none of its own rows. -/
theorem rowOf_clearFor (ws : Workspace) (path : Text) (key : Cell) :
    rowOf (ws.clearFor path) path key = rowOf ws path key := by
  rw [rowOf, rowAt_clearFor, if_neg (ws.not_mem_taken path), rowOf]

theorem rowAt_keep (ws : Workspace) {path : Text} (h : Workspace.isPassing path = false)
    (medium : Medium) (rows : Table) (place : Place) (key : Cell) :
    rowAt (ws.keep path (.connected medium (some rows))) place key =
      if Place.ofPath path = place then rows.get? key else rowAt ws place key := by
  have hkeep : ws.keep path (.connected medium (some rows)) =
      ws.put (Place.ofPath path) (.database (some rows)) := by simp [Workspace.keep, h, Database.table?]
  rw [hkeep, rowAt, OrderedMap.get?_put]
  by_cases hplace : Place.ofPath path = place
  · rw [if_pos hplace, if_pos hplace]
  · rw [if_neg hplace, if_neg hplace, rowAt]

/-- A database that has the rows of its path is kept without a change to any row. -/
theorem sameRows_keep {ws : Workspace} {path : Text} {db : Database}
    (h : ∀ key, db.get? key = .ok (rowOf ws path key)) : SameRows ws (ws.keep path db) := by
  cases hpath : Workspace.isPassing path with
  | true =>
    rw [ws.keep_of_passing hpath]
    exact fun _ _ => rfl
  | false =>
    intro place key
    obtain ⟨medium, rows, rfl, hrow⟩ := Database.get?_eq_ok (h key)
    rw [rowAt_keep ws hpath]
    split
    · next hplace =>
      rw [hrow, rowOf, hpath, ← hplace]
      rfl
    · rfl

namespace Workspace.Plain

variable {ws : Workspace}

theorem rowOf (h : Workspace.Plain ws) {path : Text} {key : Cell} {text : Text}
    (hrow : rowOf ws path key = some text) : text.Scalar := by
  unfold Command.rowOf at hrow
  split at hrow
  · cases hrow
  · exact h _ _ _ hrow

theorem clearFor (h : Workspace.Plain ws) (path : Text) : (ws.clearFor path).Plain := by
  intro place key text hrow
  rw [rowAt_clearFor] at hrow
  split at hrow
  · cases hrow
  · exact h place key text hrow

end Workspace.Plain

/-! ## Storages -/

/-- A row belongs to a storage, where that is kept. -/
def Storage.Owns (storage : Storage) (place : Place) (key : Cell) : Prop :=
  Workspace.isPassing storage.path = false ∧ Place.ofPath storage.path = place ∧
    storage.key = key.text

instance (storage : Storage) (place : Place) (key : Cell) : Decidable (storage.Owns place key) :=
  inferInstanceAs (Decidable (_ ∧ _ ∧ _))

/-- The rows after a database is kept that has the rows of its path, except for that of the key. -/
theorem rowAt_keep_of_others {ws : Workspace} {storage : Storage} {key : Cell} {db : Database}
    {text? : Option Text} (hkey : storage.key = key.text) (hrow : db.get? key = .ok text?)
    (hothers : ∀ other, key ≠ other → db.get? other = .ok (rowOf ws storage.path other))
    (place : Place) (other : Cell) : rowAt (ws.keep storage.path db) place other =
      if storage.Owns place other then text? else rowAt ws place other := by
  cases hpath : Workspace.isPassing storage.path with
  | true =>
    rw [ws.keep_of_passing hpath, if_neg]
    rintro ⟨hkept, -⟩
    rw [hpath] at hkept
    cases hkept
  | false =>
    obtain ⟨medium, rows, rfl, hget⟩ := Database.get?_eq_ok hrow
    rw [rowAt_keep ws hpath]
    by_cases hplace : Place.ofPath storage.path = place
    · by_cases hsame : key = other
      · rw [if_pos hplace, if_pos ⟨hpath, hplace, hsame ▸ hkey⟩, ← hsame, hget]
      · have hnot : ¬ storage.Owns place other := by
          rintro ⟨-, -, hother⟩
          exact hsame (Cell.ext (hkey.symm.trans hother))
        have hother : rows.get? other = rowOf ws storage.path other :=
          Except.ok.inj (hothers other hsame)
        rw [if_pos hplace, if_neg hnot, hother, rowOf, hpath, ← hplace]
        rfl
    · rw [if_neg hplace, if_neg (fun howns => hplace howns.2.1)]

/-! ## Ledgers that last -/

/-- A ledger for every place of a database and every key in it. -/
abbrev Ledgers := Place → Cell → Ledger

namespace Ledgers

/-- The ledger of a storage. One that is not kept is empty for every run. -/
def read (ledgers : Ledgers) (storage : Storage) : Ledger :=
  if Workspace.isPassing storage.path then []
  else match Cell.ofText storage.key with
    | .ok key => ledgers (Place.ofPath storage.path) key
    | .error _ => []

/-- The ledgers with another one for a storage. -/
def write (ledgers : Ledgers) (storage : Storage) (l : Ledger) : Ledgers := fun place key =>
  if storage.Owns place key then l else ledgers place key

/-- The ledgers without those at some places. -/
def clear (ledgers : Ledgers) (places : List Place) : Ledgers := fun place key =>
  if place ∈ places then [] else ledgers place key

theorem read_of_kept (ledgers : Ledgers) {storage : Storage} {key : Cell}
    (h : Workspace.isPassing storage.path = false) (hkey : storage.key = key.text) :
    ledgers.read storage = ledgers (Place.ofPath storage.path) key := by
  rw [read, h, Cell.ofText_eq_ok_iff.2 hkey]
  rfl

theorem write_read (ledgers : Ledgers) (storage : Storage) :
    ledgers.write storage (ledgers.read storage) = ledgers := by
  funext place key
  rw [write]
  split
  · next howns =>
    obtain ⟨hpath, rfl, hkey⟩ := howns
    exact ledgers.read_of_kept hpath hkey
  · rfl

theorem read_write (ledgers : Ledgers) {storage : Storage} {key : Cell}
    (h : Workspace.isPassing storage.path = false) (hkey : storage.key = key.text) (l : Ledger) :
    (ledgers.write storage l).read storage = l := by
  rw [read_of_kept _ h hkey]
  exact if_pos ⟨h, rfl, hkey⟩

end Ledgers

section

variable [Json.Limit]

/-- The entries that a row holds: none if it is not there or holds no dictionary. -/
def entriesIn : Option Text → Ledger
  | none => []
  | some text =>
    match Entries.ofStored? text with
    | .ok (some m) => m.entries
    | _ => []

/-- What the rows of a working directory hold. -/
def ledgersOf (ws : Workspace) : Ledgers := fun place key => entriesIn (rowAt ws place key)

theorem SameRows.ledgersOf_eq {ws after : Workspace} (h : SameRows ws after) :
    ledgersOf after = ledgersOf ws := by
  funext place key
  rw [ledgersOf, h, ledgersOf]

theorem ledgersOf_clearFor (ws : Workspace) (path : Text) :
    ledgersOf (ws.clearFor path) = (ledgersOf ws).clear (ws.taken path) := by
  funext place key
  rw [ledgersOf, rowAt_clearFor, Ledgers.clear]
  split <;> rfl

theorem entriesIn_rowOf (ws : Workspace) {storage : Storage} {key : Cell} (hkey : storage.key = key.text) :
    entriesIn (rowOf ws storage.path key) = (ledgersOf ws).read storage := by
  cases hpath : Workspace.isPassing storage.path with
  | true =>
    rw [rowOf, hpath, Ledgers.read, hpath]
    rfl
  | false =>
    rw [rowOf, hpath, (ledgersOf ws).read_of_kept hpath hkey]
    rfl

/-- The ledger of a storage is not among those that are taken. -/
theorem read_clearFor (ws : Workspace) (storage : Storage) :
    (ledgersOf (ws.clearFor storage.path)).read storage = (ledgersOf ws).read storage := by
  rw [ledgersOf_clearFor]
  unfold Ledgers.read Ledgers.clear
  simp only [if_neg (ws.not_mem_taken storage.path)]

theorem entriesIn_stored {m : Entries} (h : Ledger.Joined m.entries) :
    entriesIn (some m.stored) = m.entries := by
  rw [entriesIn, Entries.ofStored?_of_joined h]

/-- A working directory has the rows of another one, except that the row of a storage holds the
given ledger. -/
structure Keeps (ws : Workspace) (storage : Storage) (l : Ledger) (after : Workspace) : Prop where
  plain : after.Plain
  ledgers : ledgersOf after = (ledgersOf ws).write storage l
  others : ∀ place key, ¬ storage.Owns place key → rowAt after place key = rowAt ws place key

theorem keeps_of_sameRows {ws after : Workspace} (hplain : ws.Plain) (h : SameRows ws after)
    (storage : Storage) : Keeps ws storage ((ledgersOf ws).read storage) after where
  plain place key text hrow := hplain place key text ((h place key).symm.trans hrow)
  ledgers := by rw [Ledgers.write_read, h.ledgersOf_eq]
  others place key _ := h place key

/-- The rows after work on an opened dictionary are known by what the row of its key holds then. -/
theorem keeps_keep {ws : Workspace} {storage : Storage} {key : Cell} {db : Database}
    {text? : Option Text} (hplain : ws.Plain) (hkey : storage.key = key.text)
    (hrow : db.get? key = .ok text?)
    (hothers : ∀ other, key ≠ other → db.get? other = .ok (rowOf ws storage.path other))
    (hscalar : ∀ text ∈ text?, text.Scalar) :
    Keeps ws storage (entriesIn text?) (ws.keep storage.path db) := by
  have hrows := rowAt_keep_of_others hkey hrow hothers
  refine ⟨?_, ?_, ?_⟩
  · intro place other text htext
    rw [hrows] at htext
    split at htext
    · exact hscalar text htext
    · exact hplain place other text htext
  · funext place other
    rw [ledgersOf, hrows, Ledgers.write]
    split <;> rfl
  · intro place other howns
    rw [hrows, if_neg howns]

end

end UtilityCss.Command
