import UtilityCss.Proofs.Dictionary.Persistence
import UtilityCss.Proofs.Json.Halves
import UtilityCss.Proofs.OrderedMap.Writing
/-
  A dictionary at work: what it holds is what its row holds after each change.

  While the table is there every write is taken. What is written is read again
  as it is, as long as no two halves of a pair stand side by side in a name or
  in a value, and with such halves joined otherwise. A dictionary that is
  opened on a text of characters holds no such halves, and a change brings
  none in unless it is given them.

  What is proved:
    1. `joined_of_ofStored?` : what a text of characters holds can be written
       and read again.
    2. `ready_start`, `working_start` : a dictionary that is opened on a table,
       and one whose row is a text of characters.
    3. `Ready.call` : what any call gives back, and what it does to the
       entries and to the rows.
    4. `Called.stored`, `Called.working` : the row after a call that stores,
       and what keeps a dictionary at work.
-/

namespace UtilityCss

theorem Text.Joined.trim {t : Text} (h : t.Joined) : (Text.trim t).Joined := by
  have hstart : Text.trimStart t <:+ t := List.dropWhile_suffix Text.isBlank
  have hend : Text.trim t <+: Text.trimStart t := by
    rw [Text.trim, Text.trimEnd, ← List.reverse_suffix, List.reverse_reverse]
    exact List.dropWhile_suffix Text.isBlank
  exact List.IsChain.infix h (hend.isInfix.trans hstart.isInfix)

/-! ## Entries that are read again -/

/-- Every name and every value of a ledger can be written and read again. -/
def Ledger.Joined (l : Ledger) : Prop := ∀ e ∈ l, e.1.Joined ∧ e.2.Joined

instance (l : Ledger) : Decidable l.Joined := inferInstanceAs (Decidable (∀ e ∈ l, _ ∧ _))

namespace Ledger.Joined

variable {l : Ledger}

/-- What can be read again is read as it is, each name once. -/
theorem reread (h : l.Joined) (hdistinct : (l.map Prod.fst).Nodup) : l.reread = l := by
  rw [Ledger.reread, Json.map_joinEntry h, Pairs.ofList_of_nodup hdistinct]

theorem upsert (h : l.Joined) {name value : Text} (hname : name.Joined) (hvalue : value.Joined) :
    (l.upsert name value).Joined := by
  intro e he
  rcases Ledger.mem_upsert he with rfl | he
  · exact ⟨hname, hvalue⟩
  · exact h e he

theorem delete (h : l.Joined) (name : Text) : (l.delete name).Joined :=
  fun e he => h e (List.mem_of_mem_filter he)

theorem enter (h : l.Joined) {name value : Text} (hname : name.Joined) (hvalue : value.Joined) :
    (l.enter name value).Joined := by
  unfold Ledger.enter
  split
  · exact h
  · exact h.upsert hname.trim hvalue.trim

theorem enterPairs (h : l.Joined) {pairs : List (Text × Json)} (hpairs : Json.JoinedMembers pairs) :
    Ledger.Joined (pairs.foldl Ledger.enterPair l) := by
  intro e he
  rcases Ledger.mem_foldl_enterPair he with he | ⟨⟨name, value⟩, hpair, hentry⟩
  · exact h e he
  · obtain ⟨hname, hvalue⟩ := hpairs _ hpair
    cases value with
    | text value =>
      rw [Ledger.entryOf?_text] at hentry
      split at hentry
      · cases hentry
      · rw [← Option.some.inj hentry]
        exact ⟨hname.trim, (hvalue value rfl).trim⟩
    | _ => cases hentry

end Ledger.Joined

namespace Entries

theorem scalar_stored (m : Entries) : m.stored.Scalar :=
  fun c hc => (Json.shown_write_ofTexts .spaced m.entries c hc).not_isHalf

variable [Json.Limit]

/-- What a text of characters holds can be written and read again. -/
theorem joined_of_ofStored? {t : Text} {m : Entries} (ht : t.Scalar)
    (h : ofStored? t = .ok (some m)) : Ledger.Joined m.entries := by
  obtain ⟨pairs, hread, rfl⟩ := read_of_ofStored? h
  intro e he
  have hmem := List.mem_map_of_mem (f := Json.textMember) (OrderedMap.mem_of_mem_ofPairs he)
  obtain ⟨hname, hvalue⟩ := Json.joinedMembers_of_read ht hread _ hmem
  exact ⟨hname, hvalue e.2 rfl⟩

theorem ofStored?_of_joined {m : Entries} (h : Ledger.Joined m.entries) :
    ofStored? m.stored = .ok (some m) := by
  have hread := read_stored m
  rw [h.reread m.distinct] at hread
  exact ofStored?_of_read hread

end Entries

namespace Session

/-- A dictionary on a table: it is stored under a key, and the table is there. -/
structure Ready (key : Cell) (s : Session) : Prop where
  persistent : s.dictionary.persistent = true
  key : s.dictionary.key = key
  table : ∃ medium rows, s.database = .connected medium (some rows)

/-- A dictionary at work: it is on a table, and its entries can be written and read again. -/
structure Working (key : Cell) (s : Session) : Prop extends Ready key s where
  joined : s.ledger.Joined

theorem Ready.saves {key : Cell} {s : Session} (h : s.Ready key) : ¬ s.SavingFails := by
  obtain ⟨medium, rows, hrows⟩ := h.table
  rintro ⟨-, hdisconnected⟩
  rw [hrows] at hdisconnected
  cases hdisconnected

/-- What a call comes to at a dictionary on a table. -/
structure Called (key : Cell) (s : Session) (c : Call) (o : Outcome Reply) : Prop where
  ledger : o.session.ledger = s.ledger.after c
  result : o.result = s.ledger.reply c
  ready : o.session.Ready key
  quiet : s.ledger.stores c = false → o.session = s
  row : s.ledger.stores c = true →
    o.session.database.get? key = .ok (some o.session.dictionary.entries.stored)
  others : ∀ other, key ≠ other → o.session.database.get? other = s.database.get? other

/-- A call keeps a dictionary at work as long as its entries can be written and read again. -/
theorem Called.working {key : Cell} {s : Session} {c : Call} {o : Outcome Reply}
    (h : Called key s c o) (hjoined : (s.ledger.after c).Joined) : o.session.Working key :=
  ⟨h.ready, by rwa [h.ledger]⟩

variable [Json.Limit]

/-- The row of a key is read as a ledger. -/
def Stored (key : Cell) (l : Ledger) (s : Session) : Prop :=
  ∃ text, s.database.get? key = .ok (some text) ∧ Json.read text = .ok (Json.ofTexts l)

theorem start_session (db : Database) (key : Cell) :
    ∃ m, (start true db key).session = ⟨db, ⟨true, key, m⟩⟩ ∧ (m = OrderedMap.empty ∨
      ∃ text, db.get? key = .ok (some text) ∧ Entries.ofStored? text = .ok (some m)) := by
  cases hread : readEntries db key with
  | error failure => exact ⟨_, by simp [start, openKey, load, hread], Or.inl rfl⟩
  | ok read =>
    refine ⟨read.1, by simp [start, openKey, load, hread, withEntries], ?_⟩
    exact readEntries_cases hread

section

variable {db : Database} {key : Cell} (htable : ∃ medium rows, db = .connected medium (some rows))

include htable

/-- A dictionary that is opened on a table, with a text of characters under its key if any, is at
work. -/
theorem working_start (htext : ∀ text, db.get? key = .ok (some text) → text.Scalar) :
    (start true db key).session.Working key := by
  obtain ⟨m, hsession, hm⟩ := start_session db key
  rw [hsession]
  refine ⟨⟨rfl, rfl, htable⟩, ?_⟩
  show Ledger.Joined m.entries
  rcases hm with rfl | ⟨text, hrow, hstored⟩
  · simp [Ledger.Joined, OrderedMap.empty]
  · exact Entries.joined_of_ofStored? (htext text hrow) hstored

end

/-! ## Calls -/

theorem Ready.writes {key : Cell} {s : Session} (h : s.Ready key) {c : Call}
    (hstores : s.ledger.stores c = true) : s.Writes c := by
  obtain ⟨medium, rows, hrows⟩ := h.table
  refine ⟨h.persistent, hstores, ?_⟩
  rw [hrows]
  exact ⟨_, rfl⟩

/-- A call does to the entries what it does to the ledger, stores them where it has something to
store, and leaves the dictionary on its table. -/
theorem Ready.call {key : Cell} {s : Session} (h : s.Ready key) (c : Call) :
    Called key s c (s.call c) := by
  obtain ⟨medium, rows, hrows⟩ := h.table
  have hfollows := follows_call s c
  have hresult : (s.call c).result = s.ledger.reply c :=
    hfollows.result.trans (if_neg fun hfails => h.saves hfails.1)
  cases hstores : s.ledger.stores c with
  | false =>
    have hsame := call_of_not_stores hstores
    exact ⟨hfollows.ledger, hresult, by rwa [hsame], fun _ => hsame,
      fun hs => absurd hs (by simp [hstores]), fun other _ => by rw [hsame]⟩
  | true =>
    obtain ⟨hdictionary, hput⟩ := (h.writes hstores).put_eq
    have htable : ∃ medium rows, (s.call c).session.database = .connected medium (some rows) := by
      rw [hrows] at hput
      exact ⟨_, _, (Except.ok.inj hput).symm⟩
    rw [h.key] at hput
    refine ⟨hfollows.ledger, hresult, ⟨hfollows.persistent.trans h.persistent, ?_, htable⟩,
      fun hs => absurd hs (by simp [hstores]), fun _ => Database.get?_put_self hput,
      fun other hother => Database.get?_put_other hput hother⟩
    rw [hdictionary]
    exact h.key

/-- What a call stores is read with its halves joined. -/
theorem Called.stored {key : Cell} {s : Session} {c : Call} {o : Outcome Reply} (h : Called key s c o)
    (hstores : s.ledger.stores c = true) : o.session.Stored key o.session.ledger.reread :=
  ⟨_, h.row hstores, Entries.read_stored o.session.dictionary.entries⟩

end Session

end UtilityCss
