import UtilityCss.Proofs.Command.Refinement
import UtilityCss.Proofs.Dictionary.Cleanliness
/-
  A dictionary that is listed into a document and imported from it is the same
  dictionary, as far as a listing can tell.

  A listing is in the order of the names and a document of its own; imported,
  each of its members is trimmed and judged again. Nothing of that changes a
  clean dictionary: what is written is ASCII, so that decoding and the ends of
  lines leave it alone, a tidy pair makes itself, and pairs entered into an
  empty dictionary stay in their order. The import stores them in that order,
  and the next listing finds nothing left to sort.

  What is proved:
    1. `membersOf_listed` : a document of a listing holds the entries as
       members.
    2. `enterPairs_members`, `countP_members` : members of tidy texts make the
       entries that they are, and as many.
    3. `Storage.Fresh.opened`, `Storage.Fresh.opened_after` : a fresh place
       can be opened, and again after the import.
    4. `import_of_export` : the three runs.
-/

namespace UtilityCss.Command

/-! ## The document of a listing -/

/-- The entries as the members of an object. -/
def members (m : Entries) : List (Text × Json) := m.sorted.map Json.textMember

/-- A text of characters without a carriage return comes back from its octets as it is. -/
theorem readText_encode {t : Text} (hscalar : t.Scalar) (hreturn : CodePoint.char '\r' ∉ t) :
    readText (Utf8.encode t) = .ok t := by
  rw [readText, Utf8.decode_encode hscalar]
  exact congrArg Except.ok (Text.unifyNewlines_of_no_return hreturn)

theorem membersOf_listed [Json.Limit] {m : Entries} (hjoined : Ledger.Joined m.entries) :
    membersOf (Utf8.encode (listed m)) = .ok (members m) := by
  have hreturn : CodePoint.char '\r' ∉ listed m := by
    intro hmem
    rcases shown_listed m _ hmem with h | ⟨h, -⟩
    · cases h
    · exact absurd h (by decide)
  rw [membersOf, readText_encode (scalar_listed m) hreturn]
  simp only [read_listed hjoined]
  rfl

/-! ## Members that are entries -/

theorem not_blank_of_tidy {name value : Text} (hname : name.Tidy) (hvalue : value.Tidy) :
    ¬ Ledger.Blank name value := by
  rw [Ledger.Blank, hname.2, hvalue.2, not_or]
  exact ⟨hname.1, hvalue.1⟩

/-- A member of tidy texts makes the entry that it is. -/
theorem entryOf?_textMember {e : Text × Text} (hname : e.1.Tidy) (hvalue : e.2.Tidy) :
    Session.entryOf? (Json.textMember e) = some e := by
  rw [Json.textMember, Ledger.entryOf?_text, if_neg (not_blank_of_tidy hname hvalue), hname.2, hvalue.2]

section

variable {m : Entries} (h : Ledger.Clean m.entries)

include h

theorem filterMap_members : (members m).filterMap Session.entryOf? = m.sorted := by
  have hentries : ∀ e ∈ m.sorted, (Session.entryOf? ∘ Json.textMember) e = some e := by
    intro e he
    obtain ⟨hname, hvalue⟩ := h e ((OrderedMap.sorted_perm m).mem_iff.1 he)
    exact entryOf?_textMember hname hvalue
  rw [members, List.filterMap_map, List.filterMap_congr hentries, List.filterMap_some]

/-- Entered into an empty dictionary, the members are its entries. -/
theorem enterPairs_members : (members m).foldl Ledger.enterPair [] = m.sorted := by
  have hdistinct : (m.sorted.map Prod.fst).Nodup :=
    ((OrderedMap.sorted_perm m).map Prod.fst).nodup_iff.2 m.distinct
  have hput := Ledger.entries_putAll_entryOf? OrderedMap.empty (members m)
  rw [filterMap_members h] at hput
  exact hput.symm.trans (congrArg OrderedMap.entries (OrderedMap.ofPairs_entries ⟨m.sorted, hdistinct⟩))

theorem countP_members : (members m).countP Ledger.makesEntry = m.size := by
  rw [← Ledger.length_entryOf?, filterMap_members h]
  exact (OrderedMap.sorted_perm m).length_eq

end

/-! ## Fresh places -/

/-- A storage is fresh: there is a place for its database, which is kept there, and no row of its
key, which can be one. The path must lead there still once the database is there, as one does not that
goes on from the database and back. -/
structure Storage.Fresh (storage : Storage) (ws : Workspace) : Prop where
  kept : Workspace.isPassing storage.path = false
  named : storage.path.contains '\x00' = false
  room : ws.canHold storage.path = true
  leads : Workspace.canHold (ws.put (Place.ofPath storage.path) (.database none)) storage.path = true
  content : ∀ octets, ws.get? (Place.ofPath storage.path) = some (.document octets) → octets.length < 2
  row : ∃ key : Cell, storage.key = key.text ∧ rowAt ws (Place.ofPath storage.path) key = none

section

variable {ws after : Workspace}
  (hfewer : ∀ place, after.contains place = true → ws.contains place = true)

include hfewer

theorem hasDirectory_of_fewer {place : Place} (h : after.hasDirectory place = true) :
    ws.hasDirectory place = true := by
  rw [Workspace.hasDirectory, Bool.or_eq_true, List.any_eq_true] at h ⊢
  refine h.imp_right ?_
  rintro ⟨name, hname, hunder⟩
  rw [← OrderedMap.contains_iff_mem] at hname
  exact ⟨name, (OrderedMap.contains_iff_mem ws name).1 (hfewer name hname), hunder⟩

theorem crossesFile_of_fewer {place : Place} {steps : List Text}
    (h : after.crossesFile place steps = true) : ws.crossesFile place steps = true := by
  induction steps generalizing place with
  | nil => cases h
  | cons step rest ih =>
    rw [Workspace.crossesFile, Bool.or_eq_true, Bool.and_eq_true] at h ⊢
    exact h.imp (And.imp_right (hfewer place)) ih

/-- Where there can be a database there can be one when less lies around, as long as its own place is
taken, so that the directory around it is there. -/
theorem canHold_of_fewer {path : Text} (hthere : after.contains (Place.ofPath path) = true)
    (h : ws.canHold path = true) : after.canHold path = true := by
  have hdirectories : ∀ place, ws.hasDirectory place = false → after.hasDirectory place = false :=
    fun place hnot => Bool.eq_false_iff.2 fun hd => by
      rw [hasDirectory_of_fewer hfewer hd] at hnot
      cases hnot
  simp only [Workspace.canHold, Bool.and_eq_true, Bool.not_eq_true'] at h ⊢
  obtain ⟨⟨⟨⟨hcrosses, hplace⟩, -⟩, hbeside⟩, hlength⟩ := h
  refine ⟨⟨⟨⟨?_, hdirectories _ hplace⟩, ?_⟩, ?_⟩, hlength⟩
  · exact Bool.eq_false_iff.2 fun hc => by
      rw [crossesFile_of_fewer hfewer hc] at hcrosses
      cases hcrosses
  · -- The database itself lies in the directory around it.
    have hne : Place.ofPath path ≠ [] := by
      intro hnil
      rw [hnil] at hplace
      cases hplace
    rw [Workspace.hasDirectory, Bool.or_eq_true, List.any_eq_true]
    refine Or.inr ⟨Place.ofPath path, (OrderedMap.contains_iff_mem _ _).1 hthere, ?_⟩
    rw [Bool.and_eq_true, List.isPrefixOf_iff_prefix, bne_iff_ne]
    refine ⟨List.dropLast_prefix _, fun hsame => ?_⟩
    have hlength := congrArg List.length hsame
    have hpos := List.length_pos_iff.2 hne
    rw [List.length_dropLast] at hlength
    omega
  · rw [List.any_eq_false] at hbeside ⊢
    intro place hmem
    have hnot := hdirectories place (Bool.eq_false_iff.2 (hbeside place hmem))
    rw [hnot]
    decide

end

section

variable {ws : Workspace} {storage : Storage}

theorem Storage.Fresh.rowOf (h : storage.Fresh ws) {key : Cell} (hkey : storage.key = key.text) :
    rowOf ws storage.path key = none := by
  obtain ⟨same, hsame, hrow⟩ := h.row
  obtain rfl : same = key := Cell.ext (hsame.symm.trans hkey)
  rw [Command.rowOf, h.kept]
  exact hrow

variable [Json.Limit]

theorem Storage.Fresh.opened (h : storage.Fresh ws) (hplain : ws.Plain) :
    ∃ key s, opened? ws storage = some s ∧ Opened ws storage key s ∧ s.ledger = [] := by
  obtain ⟨key, hkey, -⟩ := h.row
  have hreadable : Readable (Command.rowOf ws storage.path key) := by simp [h.rowOf hkey, Readable]
  obtain ⟨s, hs⟩ := opened?_of_room hkey h.named h.room h.content hreadable
  obtain ⟨same, hopened⟩ := opened_of_opened? hs hplain
  refine ⟨same, s, hs, hopened, ?_⟩
  rw [hopened.ledger, ← entriesIn_rowOf ws hopened.named, h.rowOf hopened.named]
  rfl

/-- After a call on the dictionary that a fresh storage is opened as, the storage can be opened
again. -/
theorem Storage.Fresh.opened_after (h : storage.Fresh ws) {key : Cell} {s : Session}
    (hs : Opened ws storage key s) {c : Call} (hjoined : (s.ledger.after c).Joined) :
    ∃ after, opened? ((ws.clearFor storage.path).keep storage.path (s.call c).session.database) storage =
      some after := by
  have hcalled := hs.working.toReady.call c
  obtain ⟨medium, rows, hrows⟩ := hcalled.ready.table
  have hget : (s.call c).session.database.get? key = .ok (rows.get? key) := by
    rw [hrows]
    rfl
  have hrow : Readable (rows.get? key) := by
    intro text htext
    cases hstores : s.ledger.stores c with
    | false =>
      -- Nothing is stored, and so there is still no row.
      rw [hcalled.quiet hstores, hs.rows, h.rowOf hs.named] at hget
      rw [← Except.ok.inj hget] at htext
      cases htext
    | true =>
      rw [hcalled.row hstores] at hget
      rw [← Except.ok.inj hget] at htext
      rw [← Option.some.inj htext]
      exact ⟨_, Entries.ofStored?_of_joined (hcalled.working hjoined).joined⟩
  rw [hrows]
  have hfound := Workspace.get?_keep (ws.clearFor storage.path) h.kept (.connected medium (some rows))
  apply opened?_of_room hs.named h.named
  · refine canHold_of_fewer ?_ ?_ h.leads
    · intro place hplace
      simp only [OrderedMap.contains, Workspace.keep, h.kept, Bool.false_eq_true, if_false,
        OrderedMap.get?_put, Workspace.get?_clearFor] at hplace ⊢
      split at hplace
      · next hown => rw [if_pos hown]; rfl
      · next hown =>
        rw [if_neg hown]
        split at hplace
        · cases hplace
        · exact hplace
    · rw [OrderedMap.contains, hfound]
      rfl
  · intro octets hdocument
    rw [hfound] at hdocument
    cases hdocument
  · rw [Command.rowOf, h.kept]
    show Readable (rowAt _ _ _)
    rw [rowAt_keep _ h.kept, if_pos rfl]
    exact hrow

/-! ## Listing, importing, listing again -/

/-- A listing succeeds where the dictionary can be opened, and shows its entries. -/
theorem on_list {listing : Launch} {s : Session} (hs : opened? ws storage = some s)
    (hasks : listing.Asks ws storage .list) :
    (listing.on ws).ending.code = 0 ∧ (listing.on ws).output = listed s.dictionary.entries := by
  obtain ⟨full, hread⟩ := hasks
  obtain ⟨notices, hrun⟩ := withDictionary_of_opened full listWork hs
  obtain ⟨hending, houtput⟩ := conclude_of_scalar
    ((ws.clearFor storage.path).keep storage.path (listWork s).session.database) full notices
    (scalar_listWork s)
  rw [on_of_asks hread, runTask, hrun, hending, houtput, listWork_output]
  exact ⟨rfl, rfl⟩

end

/-- The report of an import has nothing in it that steers a terminal. -/
theorem line_imported (n : Nat) : line ("Imported " ++ Text.decimal n ++ " variables") =
    "Imported " ++ Text.decimal n ++ " variables" ++ "\n" := by
  have hdecimal : CodePoint.char '\x1b' ∉ Text.decimal n := by
    intro hmem
    obtain ⟨c, hc, hescape⟩ := List.mem_map.1 hmem
    have hdigit := Nat.isDigit_of_mem_toDigits (by decide) (by decide) hc
    rw [CodePoint.char.inj hescape] at hdigit
    exact absurd hdigit (by decide)
  have hwords : CodePoint.char '\x1b' ∉ Text.of "Imported " ∧
      CodePoint.char '\x1b' ∉ Text.of " variables" := by decide
  rw [line, plain_of_no_escape]
  rw [List.mem_append, List.mem_append, not_or, not_or]
  exact ⟨⟨hwords.1, hdecimal⟩, hwords.2⟩

section

variable [Json.Limit]

/-- What the import of a listing comes to at a fresh storage. -/
theorem on_import {ws : Workspace} {storage : Storage} {importing : Launch} {file : Text} {m : Entries}
    (hclean : Ledger.Clean m.entries) (hjoined : Ledger.Joined m.entries) (hplain : ws.Plain)
    (hfile : ws.document? file = some (Utf8.encode (listed m))) (hfresh : storage.Fresh ws)
    (hasks : importing.Asks ws storage (.importFrom file)) :
    (importing.on ws).ending.code = 0 ∧
      (importing.on ws).output = "Imported " ++ Text.decimal m.size ++ " variables" ++ "\n" ∧
      ∃ s, opened? (importing.on ws).workspace storage = some s ∧ s.ledger = m.sorted := by
  obtain ⟨full, hread⟩ := hasks
  have hmembers : membersOf (octetsOf ws file) = .ok (members m) := by
    rw [octetsOf, hfile]
    exact membersOf_listed hjoined
  obtain ⟨key, s, hs, hopened, hempty⟩ := hfresh.opened hplain
  have hworks : Works ws importing.input s (.importFrom file) (.update (members m))
      (importWork s (members m)) := works_import hopened.working hmembers
  obtain ⟨notices, hrun⟩ := withDictionary_of_opened full (importWork · (members m)) hs
  have hworkspace : (importing.on ws).workspace =
      (ws.clearFor storage.path).keep storage.path (s.call (.update (members m))).session.database := by
    rw [on_of_asks hread, runTask]
    simp only [hmembers]
    rw [hrun, conclude_workspace, hworks.session]
  obtain ⟨after, hafter⟩ := hfresh.opened_after hopened hworks.joined
  rw [← hworkspace] at hafter
  have hentered : Task.after ws [] (.importFrom file) = m.sorted := by
    rw [Task.after, hmembers]
    exact enterPairs_members hclean
  have hdoes : Does ws importing.input storage (.importFrom file) (importing.on ws) := by
    rw [on_of_asks hread]
    exact does_runTask hplain (List.forall_mem_nil _)
  have hreads : (Task.importFrom file).reads ws importing.input = true := by
    simp [Task.reads, hmembers, Except.isOk, Except.toBool]
  have hshown : (Task.importFrom file).shown? ws importing.input s.ledger =
      some ("Imported " ++ Text.decimal m.size ++ " variables" ++ "\n") := by
    rw [Task.shown?, hmembers, ← line_imported, ← countP_members hclean]
    rfl
  have hdone : ∀ l, (Task.importFrom file).isDone ws importing.input storage l = true := by
    simp [Task.isDone, hreads, hs, Task.applies]
  have hcode : (importing.on ws).ending.code = 0 :=
    hdoes.exits.2 ⟨hdone _, Task.showable_of_scalar (List.forall_mem_nil _) not_false⟩
  have houtput : (importing.on ws).output = "Imported " ++ Text.decimal m.size ++ " variables" ++ "\n" := by
    have hshows := hdoes.shows hcode
    rw [← hopened.ledger] at hshows
    exact Option.some.inj (hshows.symm.trans hshown)
  have hkeeps := hdoes.keeps hreads
  rw [Task.leaves, if_pos (hdone _), ← hopened.ledger, hempty, hentered] at hkeeps
  refine ⟨hcode, houtput, after, hafter, ?_⟩
  obtain ⟨later, hlater⟩ := opened_of_opened? hafter hkeeps.plain
  rw [hlater.ledger, hkeeps.ledgers, Ledgers.read_write _ hfresh.kept hlater.named]

/-- A dictionary whose names and values are tidy texts of characters is listed; the octets of what is
shown lie in a document, in this working directory or another one, and the document is imported at a
fresh storage: that succeeds, reports as many variables as the dictionary has entries, and the next
listing there shows the same text as the first. -/
theorem import_of_export {ws other : Workspace} {listing importing again : Launch}
    {storage fresh : Storage} {s : Session} {file : Text}
    (hs : opened? ws storage = some s) (hclean : s.ledger.Clean)
    (hscalar : ∀ e ∈ s.ledger, e.1.Scalar ∧ e.2.Scalar)
    (hlisting : listing.Asks ws storage .list)
    (hplain : other.Plain) (hfile : other.document? file = some (Utf8.encode (listing.on ws).output))
    (hfresh : fresh.Fresh other) (himporting : importing.Asks other fresh (.importFrom file))
    (hagain : again.Asks (importing.on other).workspace fresh .list) :
    (listing.on ws).ending.code = 0 ∧ (importing.on other).ending.code = 0 ∧
      (importing.on other).output =
        "Imported " ++ Text.decimal s.ledger.length ++ " variables" ++ "\n" ∧
      (again.on (importing.on other).workspace).ending.code = 0 ∧
      (again.on (importing.on other).workspace).output = (listing.on ws).output := by
  obtain ⟨hlisted, houtput⟩ := on_list hs hlisting
  have hjoined : s.ledger.Joined := fun e he => ⟨(hscalar e he).1.joined, (hscalar e he).2.joined⟩
  rw [houtput] at hfile ⊢
  obtain ⟨himported, hreport, after, hafter, hledger⟩ :=
    on_import hclean hjoined hplain hfile hfresh himporting
  obtain ⟨hcode, hshown⟩ := on_list hafter hagain
  refine ⟨hlisted, himported, hreport, hcode, ?_⟩
  rw [hshown, listed, listed, OrderedMap.sorted_of_entries_eq hledger]

end

attribute [local instance] Json.Limit.least

/-- Two entries that are listed in the other order, and with escapes, come back into another
database. -/
theorem accented_entry_exported :
    let entries : Ledger := [(Text.of "--Größe", Text.of "text-sm"), (Text.of "--A", Text.of "p-[2\"]")]
    let stored : Text := "\x7b\"--Größe\": \"text-sm\", \"--A\": \"p-[2\\\"]\"\x7d"
    let rows : Table := OrderedMap.ofPairs [(Dictionary.defaultKey, stored)]
    let ws : Workspace := OrderedMap.ofPairs [(Place.ofPath "a.db", .database (some rows))]
    let listing : Launch := ⟨["vars", "list", "--db", "a.db"], []⟩
    let other := Workspace.ofDocuments [("a.json", Utf8.encode (listing.on ws).output)]
    let importing : Launch := ⟨["vars", "import", "--db", "b.db", "a.json"], []⟩
    let again : Launch := ⟨["vars", "list", "--db=b.db"], []⟩
    (∃ s, opened? ws ⟨"a.db", Dictionary.defaultKey⟩ = some s ∧ s.ledger = entries) ∧
      (importing.on other).output = "Imported 2 variables\n" ∧
      (again.on (importing.on other).workspace).ending.code = 0 ∧
      (again.on (importing.on other).workspace).output = (listing.on ws).output := by
  intro entries stored rows ws listing other importing again
  let s : Session := ⟨.connected .file (some rows), ⟨true, Dictionary.defaultKey, OrderedMap.ofPairs entries⟩⟩
  let storage : Storage := ⟨"a.db", Dictionary.defaultKey⟩
  let fresh : Storage := ⟨"b.db", Dictionary.defaultKey⟩
  have hs : opened? ws storage = some s := by decide +kernel
  have hclean : s.ledger.Clean := by decide +kernel
  have hscalar : ∀ e ∈ s.ledger, e.1.Scalar ∧ e.2.Scalar := by decide +kernel
  have hlisting : listing.Asks ws storage .list := ⟨false, by decide +kernel⟩
  have hplain : other.Plain := plain_ofDocuments _
  have hfile : ∀ octets, (Workspace.ofDocuments [("a.json", octets)]).document? "a.json" = some octets :=
    fun _ => rfl
  have hget : other.get? (Place.ofPath fresh.path) = none := by decide +kernel
  have hfresh : fresh.Fresh other :=
    ⟨by decide, by decide, by decide +kernel, by decide +kernel, by simp [hget],
      ⟨Dictionary.defaultKey, rfl, by simp [rowAt, hget]⟩⟩
  have himporting : importing.Asks other fresh (.importFrom "a.json") := ⟨false, by decide +kernel⟩
  have hagain : again.Asks (importing.on other).workspace fresh .list := ⟨false, by decide +kernel⟩
  obtain ⟨-, -, hreport, hcode, hsame⟩ := import_of_export hs hclean hscalar hlisting hplain
    (hfile _) hfresh himporting hagain
  exact ⟨⟨s, hs, by decide +kernel⟩, hreport.trans (by decide +kernel), hcode, hsame⟩

end UtilityCss.Command
