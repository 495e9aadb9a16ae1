import UtilityCss.Command.Run
import UtilityCss.Proofs.Command.Rows
/-
  The dictionary that a run opens, and how the run ends.

  A run sees of the working directory what lies at the place of its database,
  and leaves there the database as it is when the work is done; what lay beside
  it is gone. To open it may make a table, and so a database where there was
  nothing; but no row is made or lost by that. What the row of the key holds is
  what the dictionary begins with.

  What is proved:
    1. `opened_of_opened?` : the dictionary that is opened is at work, and has
       the entries of its row.
    2. `opened?_of_room` : where a dictionary can be opened.
    3. `withDictionary_of_opened`, `withDictionary_of_not_opened` : a run with
       a dictionary that can be opened, and with one that cannot.
    4. `keeps_call` : the rows after a call on it, when the database is kept.
-/

namespace UtilityCss.Command

/-! ## Opening -/

/-- A database is opened with the rows of its path. -/
theorem rowOf_of_openDatabase {ws : Workspace} {path : Text} {db : Database}
    (h : ws.openDatabase path = .ok db) :
    ∃ medium table, db = .connected medium table ∧
      ∀ key, rowOf ws path key = table.bind (fun rows => rows.get? key) := by
  have hnew : ∀ {medium}, .ok (.connected medium none) = Except.ok (ε := Database.Fault) db →
      (∀ key, rowOf ws path key = none) → ∃ medium table, db = .connected medium table ∧
        ∀ key, rowOf ws path key = table.bind (fun rows => rows.get? key) :=
    fun {medium} hdb hrows => ⟨medium, none, (Except.ok.inj hdb).symm, hrows⟩
  unfold Workspace.openDatabase at h
  split at h
  · cases h
  · split at h
    · next hpath => exact hnew h (fun key => if_pos hpath)
    · next hpath =>
      have hrow : ∀ key, rowOf ws path key = rowAt ws (Place.ofPath path) key := fun key => if_neg hpath
      split at h
      · cases h
      · split at h
        · next hget => exact hnew h (fun key => by rw [hrow, rowAt, hget])
        · next table hget =>
          refine ⟨.file, table, (Except.ok.inj h).symm, ?_⟩
          intro key
          rw [hrow, rowAt, hget]
          cases table <;> rfl
        · next octets hget =>
          split at h
          · exact hnew h (fun key => by rw [hrow, rowAt, hget])
          · cases h

/-- A table is made where there is none, without a row. -/
theorem rowOf_of_openTable {ws : Workspace} {path : Text} {db : Database}
    (h : openTable ws path = .ok db) :
    ∃ medium rows, db = .connected medium (some rows) ∧ ∀ key, rowOf ws path key = rows.get? key := by
  unfold openTable at h
  split at h
  · cases h
  · next before hopen =>
    obtain ⟨medium, table, rfl, hrows⟩ := rowOf_of_openDatabase hopen
    cases table with
    | none => exact ⟨medium, _, (Except.ok.inj h).symm, hrows⟩
    | some rows => exact ⟨medium, rows, (Except.ok.inj h).symm, hrows⟩

theorem openTable_of_room {ws : Workspace} {path : Text} (hnamed : path.contains '\x00' = false)
    (hroom : ws.canHold path = true)
    (hcontent : ∀ octets, ws.get? (Place.ofPath path) = some (.document octets) → octets.length < 2) :
    ∃ medium rows, openTable ws path = .ok (.connected medium (some rows)) := by
  have hopen : ∃ medium table, ws.openDatabase path = .ok (.connected medium table) := by
    unfold Workspace.openDatabase
    rw [hnamed, hroom]
    simp only [Bool.false_eq_true, if_false, Bool.not_true]
    split
    · exact ⟨_, none, rfl⟩
    · split
      · exact ⟨_, none, rfl⟩
      · exact ⟨_, _, rfl⟩
      · next octets hget => exact ⟨.file, none, if_pos (hcontent octets hget)⟩
  obtain ⟨medium, table, hopen⟩ := hopen
  rw [openTable, hopen]
  cases table with
  | none => exact ⟨medium, _, rfl⟩
  | some rows => exact ⟨medium, rows, rfl⟩

section

variable [Json.Limit]

/-- A dictionary begins with what the row of its key holds, or cannot be opened. -/
theorem start_cases (medium : Medium) (rows : Table) (key : Cell) :
    let o := Session.start true (.connected medium (some rows)) key
    (∃ failure, o.result = .error failure) ∨
    ∃ m, o.result = .ok () ∧ o.session = ⟨.connected medium (some rows), ⟨true, key, m⟩⟩ ∧
      m.entries = entriesIn (rows.get? key) := by
  cases hread : Session.readEntries (.connected medium (some rows)) key with
  | error failure =>
    exact Or.inl ⟨failure, by simp [Session.start, Session.openKey, Session.load, hread]⟩
  | ok read =>
    refine Or.inr ⟨read.1, ?_, ?_, ?_⟩
    · simp [Session.start, Session.openKey, Session.load, hread]
    · simp [Session.start, Session.openKey, Session.load, hread, Session.withEntries]
    · have hget : (Database.connected medium (some rows)).get? key = .ok (rows.get? key) := rfl
      rw [Session.readEntries, hget] at hread
      cases hrow : rows.get? key with
      | none =>
        rw [hrow] at hread
        rw [← Except.ok.inj hread]
        rfl
      | some text =>
        rw [hrow] at hread
        simp only at hread
        rw [entriesIn]
        split at hread
        · next m hstored => rw [hstored, ← Except.ok.inj hread]
        · next hstored =>
          rw [hstored, ← Except.ok.inj hread]
          rfl
        · cases hread

/-- The session in which a dictionary is opened, if it can be. -/
def opened? (ws : Workspace) (storage : Storage) : Option Session :=
  match openTable ws storage.path, Cell.ofText storage.key with
  | .ok db, .ok key =>
    match (Session.start true db key).result with
    | .ok () => some (Session.start true db key).session
    | .error _ => none
  | _, _ => none

/-- A session is that of the dictionary of a storage, with the storage's key, and at work. -/
structure Opened (ws : Workspace) (storage : Storage) (key : Cell) (s : Session) : Prop where
  named : storage.key = key.text
  working : s.Working key
  rows : ∀ key, s.database.get? key = .ok (rowOf ws storage.path key)
  ledger : s.ledger = (ledgersOf ws).read storage

theorem opened_of_opened? {ws : Workspace} {storage : Storage} {s : Session}
    (h : opened? ws storage = some s) (hplain : ws.Plain) : ∃ key, Opened ws storage key s := by
  unfold opened? at h
  split at h
  · next db key hopen hof =>
    have hkey := Cell.ofText_eq_ok_iff.1 hof
    obtain ⟨medium, rows, rfl, hrows⟩ := rowOf_of_openTable hopen
    split at h
    · next hresult =>
      have hworking : (Session.start true (.connected medium (some rows)) key).session.Working key :=
        Session.working_start ⟨medium, rows, rfl⟩
          (fun text hrow => hplain.rowOf ((hrows _).trans (Except.ok.inj hrow)))
      rcases start_cases medium rows key with ⟨failure, herror⟩ | ⟨m, -, hsession, hm⟩
      · rw [hresult] at herror
        cases herror
      · rw [Option.some.inj h] at hworking hsession
        refine ⟨key, hkey, hworking, ?_, ?_⟩
        · intro other
          rw [hsession, hrows]
          rfl
        · rw [← entriesIn_rowOf ws hkey, hrows, ← hm, hsession]
          rfl
    · cases h
  · cases h

/-! ## Where a dictionary can be opened -/

/-- A row can be read, if it is there. -/
def Readable (row : Option Text) : Prop := ∀ text ∈ row, ∃ m, Entries.ofStored? text = .ok (some m)

theorem start_of_readable (medium : Medium) {rows : Table} {key : Cell} (hrow : Readable (rows.get? key)) :
    (Session.start true (.connected medium (some rows)) key).result = .ok () := by
  have hget : (Database.connected medium (some rows)).get? key = .ok (rows.get? key) := rfl
  have hread : ∃ read, Session.readEntries (.connected medium (some rows)) key = .ok read := by
    rw [Session.readEntries, hget]
    cases htext : rows.get? key with
    | none => exact ⟨_, rfl⟩
    | some text =>
      obtain ⟨m, hm⟩ := hrow text htext
      simp only [hm]
      exact ⟨_, rfl⟩
  obtain ⟨read, hread⟩ := hread
  simp [Session.start, Session.openKey, Session.load, hread]

/-- A dictionary can be opened where there can be a database, where no document lies that is more
than an empty one, and where the row of the key can be read. -/
theorem opened?_of_room {ws : Workspace} {storage : Storage} {key : Cell} (hkey : storage.key = key.text)
    (hnamed : storage.path.contains '\x00' = false) (hroom : ws.canHold storage.path = true)
    (hcontent : ∀ octets, ws.get? (Place.ofPath storage.path) = some (.document octets) →
      octets.length < 2)
    (hrow : Readable (rowOf ws storage.path key)) : ∃ s, opened? ws storage = some s := by
  obtain ⟨medium, rows, hopen⟩ := openTable_of_room hnamed hroom hcontent
  obtain ⟨same, table, hsame, hrows⟩ := rowOf_of_openTable hopen
  obtain ⟨-, htable⟩ := Database.connected.inj hsame
  obtain rfl : rows = table := Option.some.inj htable
  rw [hrows] at hrow
  have hresult := start_of_readable medium hrow
  exact ⟨(Session.start true (.connected medium (some rows)) key).session,
    by simp only [opened?, hopen, Cell.ofText_eq_ok_iff.2 hkey, hresult]⟩

end

/-! ## How a run ends -/

theorem conclude_workspace (ws : Workspace) (full : Bool) (notices : List Notice) (work : Work) :
    (conclude ws full notices work).workspace = ws := by
  unfold conclude
  simp only
  split <;> rfl

/-- Work whose output holds characters alone ends as it does. -/
theorem conclude_of_scalar (ws : Workspace) (full : Bool) (notices : List Notice) {work : Work}
    (h : work.output.Scalar) :
    (conclude ws full notices work).ending = work.ending ∧
      (conclude ws full notices work).output = work.output := by
  rw [conclude, Utf8.unencodable?_eq_none_iff.2 h]
  exact ⟨rfl, rfl⟩

/-- Work whose output cannot be shown fails. -/
theorem conclude_of_not_scalar (ws : Workspace) (full : Bool) (notices : List Notice) {work : Work}
    (h : ¬ work.output.Scalar) : (conclude ws full notices work).ending.code = 1 := by
  cases hshown : Utf8.unencodable? work.output with
  | none => exact absurd (Utf8.unencodable?_eq_none_iff.1 hshown) h
  | some text =>
    rw [conclude, hshown]
    rfl

theorem conclude_code (ws : Workspace) (full : Bool) (notices : List Notice) (work : Work) :
    (conclude ws full notices work).ending.code = 0 ↔ work.ending.code = 0 ∧ work.output.Scalar := by
  by_cases h : work.output.Scalar
  · rw [(conclude_of_scalar ws full notices h).1]
    simp [h]
  · rw [conclude_of_not_scalar ws full notices h]
    simp [h]

/-! ## Work on what is opened -/

section

variable [Json.Limit] {ws : Workspace} {storage : Storage} (full : Bool) (work : Session → Work)

/-- A run with a dictionary that can be opened does its work on it, and keeps the database. -/
theorem withDictionary_of_opened {s : Session} (h : opened? ws storage = some s) :
    ∃ notices, withDictionary ws full storage work =
      conclude ((ws.clearFor storage.path).keep storage.path (work s).session.database) full notices
        (work s) := by
  unfold opened? at h
  split at h
  · next db key hopen hof =>
    split at h
    · next hresult =>
      obtain rfl := Option.some.inj h
      refine ⟨(Session.start true db key).notices, ?_⟩
      simp only [withDictionary, hopen, hof, hresult]
    · cases h
  · cases h

/-- A run with a dictionary that cannot be opened fails, and what lay beside the database is all that
is gone. -/
theorem withDictionary_of_not_opened (h : opened? ws storage = none) :
    (withDictionary ws full storage work).ending.code = 1 ∧
      SameRows (ws.clearFor storage.path) (withDictionary ws full storage work).workspace := by
  cases hopen : openTable ws storage.path with
  | error fault =>
    simp only [withDictionary, hopen]
    exact ⟨rfl, fun _ _ => rfl⟩
  | ok db =>
    obtain ⟨medium, rows, rfl, hrows⟩ := rowOf_of_openTable hopen
    have hkept : SameRows (ws.clearFor storage.path)
        ((ws.clearFor storage.path).keep storage.path (.connected medium (some rows))) := by
      refine sameRows_keep fun key => ?_
      rw [rowOf_clearFor, hrows]
      rfl
    cases hof : Cell.ofText storage.key with
    | error halves =>
      simp only [withDictionary, hopen, hof]
      exact ⟨rfl, hkept⟩
    | ok key =>
      cases hresult : (Session.start true (.connected medium (some rows)) key).result with
      | error failure =>
        simp only [withDictionary, hopen, hof, hresult]
        exact ⟨rfl, hkept⟩
      | ok _ => simp [opened?, hopen, hof, hresult] at h

end

section

variable [Json.Limit] {ws : Workspace} {storage : Storage} {key : Cell} {s : Session} {c : Call}

theorem sameRows_call (h : Opened ws storage key s) (hquiet : s.ledger.stores c = false) :
    SameRows (ws.clearFor storage.path)
      ((ws.clearFor storage.path).keep storage.path (s.call c).session.database) := by
  rw [Session.call_of_not_stores hquiet]
  refine sameRows_keep fun other => ?_
  rw [rowOf_clearFor, h.rows]

/-- The rows after a call on the dictionary that a storage is opened as. -/
theorem keeps_call (h : Opened ws storage key s) (hplain : ws.Plain)
    (hjoined : (s.ledger.after c).Joined) :
    Keeps (ws.clearFor storage.path) storage (s.ledger.after c)
      ((ws.clearFor storage.path).keep storage.path (s.call c).session.database) := by
  have hcalled := h.working.toReady.call c
  have hcleared := hplain.clearFor storage.path
  cases hstores : s.ledger.stores c with
  | false =>
    have hafter : s.ledger.after c = (ledgersOf (ws.clearFor storage.path)).read storage := by
      rw [← hcalled.ledger, hcalled.quiet hstores, h.ledger, read_clearFor]
    rw [hafter]
    exact keeps_of_sameRows hcleared (sameRows_call h hstores) storage
  | true =>
    have hkeeps := keeps_keep hcleared h.named (hcalled.row hstores)
      (fun other hother => (hcalled.others other hother).trans (by rw [h.rows, rowOf_clearFor]))
      (fun text htext => Option.some.inj htext ▸ Entries.scalar_stored _)
    rw [entriesIn_stored (hcalled.working hjoined).joined] at hkeeps
    rw [← hcalled.ledger]
    exact hkeeps

end

end UtilityCss.Command
