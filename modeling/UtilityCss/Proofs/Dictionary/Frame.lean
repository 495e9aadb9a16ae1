import UtilityCss.Proofs.Dictionary.Cleanliness
import UtilityCss.Proofs.Dictionary.Loading
/-
  What operations on a dictionary leave alone.

  An operation that has nothing to change asks the database for no write, so
  every row stays as it is, whatever it holds: also one that holds no
  dictionary and was loaded as an empty one. An operation that writes puts one
  text under the key of its own dictionary. Over a run the dictionaries change,
  and so do their keys; a row is touched only under the key of a dictionary
  that has written.

  What is proved:
    1. `changesNothing_iff` : the calls that change nothing are those that have
       nothing to store.
    2. `database_load`, `database_openKey` : reading anew and opening.
    3. `get?_operate`, `get?_operateAll` : the rows that one operation leaves
       alone, and those that a run does.
    4. `mem_writtenKeys` : the keys that a run writes under.
    5. `rows_touched_by_key` : all of this, for every session.
-/

namespace UtilityCss

/-- What can be done with a dictionary: a call, reading it anew, or opening one under a key in its
place. -/
inductive Operation where
  | call (c : Call)
  | load
  | openKey (key : Cell)

namespace Session

/-- The session after an operation. -/
def operate [Json.Limit] (s : Session) : Operation → Session
  | .call c => (s.call c).session
  | .load => (load s).session
  | .openKey key => (openKey s key).session

/-- The session after operations, one after the other. -/
def operateAll [Json.Limit] (s : Session) (operations : List Operation) : Session := operations.foldl operate s

/-- A call that changes nothing: one that is refused for a blank part, that removes what is not there,
that brings no pair to enter, or that only looks. -/
inductive ChangesNothing (s : Session) : Call → Prop where
  | refused {name value n v : Text} (h : (set s name value).result = .error (.blank n v)) :
    ChangesNothing s (.set name value)
  | absent {name : Text} (h : name ∉ s.ledger.map Prod.fst) : ChangesNothing s (.remove name)
  | noEntry {pairs : List (Text × Json)} (h : ∀ pair ∈ pairs, Ledger.makesEntry pair = false) :
    ChangesNothing s (.update pairs)
  | get (name : Text) : ChangesNothing s (.get name)
  | contains (name : Text) : ChangesNothing s (.contains name)
  | size : ChangesNothing s .size
  | all : ChangesNothing s .all
  | convert (conversion : Conversion) : ChangesNothing s (.convert conversion)

/-- The keys whose rows an operation writes: that of the dictionary, if it has something to store and
the database takes it. -/
def writtenBy [Json.Limit] (s : Session) : Operation → List Cell
  | .call c => if s.Writes c then [s.dictionary.key] else []
  | .load => []
  | .openKey _ => []

/-- The keys whose rows a run writes. -/
def writtenKeys [Json.Limit] (s : Session) : List Operation → List Cell
  | [] => []
  | operation :: rest => s.writtenBy operation ++ (s.operate operation).writtenKeys rest

/-! ## What changes nothing -/

/-- A setting is refused as blank exactly where a part is blank. -/
theorem blank_iff_refused {s : Session} {name value : Text} :
    Ledger.Blank name value ↔ ∃ n v, (set s name value).result = .error (.blank n v) := by
  constructor
  · intro h
    rw [set_of_blank h]
    exact ⟨_, _, rfl⟩
  · rintro ⟨n, v, h⟩
    apply Decidable.not_not.1
    intro hblank
    rw [set_of_not_blank hblank, Outcome.after, save_result] at h
    split at h <;> cases h

theorem changesNothing_iff {s : Session} {c : Call} :
    s.ChangesNothing c ↔ s.ledger.stores c = false := by
  constructor
  · intro h
    cases h with
    | refused h => simpa [Ledger.stores] using blank_iff_refused.2 ⟨_, _, h⟩
    | absent h => simpa [Ledger.stores] using h
    | noEntry h => simpa [Ledger.stores] using h
    | _ => rfl
  · intro h
    cases c with
    | set name value =>
      have hblank : Ledger.Blank name value := by simpa [Ledger.stores] using h
      obtain ⟨n, v, hresult⟩ := blank_iff_refused.1 hblank
      exact .refused hresult
    | remove name => exact .absent (by simpa [Ledger.stores] using h)
    | update pairs => exact .noEntry (by simpa [Ledger.stores] using h)
    | save => cases h
    | get name => exact .get name
    | contains name => exact .contains name
    | size => exact .size
    | all => exact .all
    | convert conversion => exact .convert conversion

section

variable [Json.Limit]

theorem database_load (s : Session) : (load s).session.database = s.database := by
  unfold load
  split
  · split <;> rfl
  · rfl

theorem database_openKey (s : Session) (key : Cell) :
    (openKey s key).session.database = s.database := by
  unfold openKey
  simp only
  split
  · exact database_load _
  · rfl

/-! ## One operation -/

theorem key_call (s : Session) (c : Call) :
    (s.call c).session.dictionary.key = s.dictionary.key := by
  cases hstores : s.ledger.stores c with
  | false => rw [call_of_not_stores hstores]
  | true =>
    rw [call_of_stores hstores, save_dictionary]
    rfl

theorem key_load (s : Session) : (load s).session.dictionary.key = s.dictionary.key := by
  unfold load
  split
  · split <;> rfl
  · rfl

/-- An operation keeps the key of the dictionary, unless it opens another one. -/
theorem key_operate (s : Session) (operation : Operation) :
    (s.operate operation).dictionary.key = s.dictionary.key ∨
      ∃ key, operation = .openKey key ∧ (s.operate operation).dictionary.key = key := by
  cases operation with
  | call c => exact Or.inl (key_call s c)
  | load => exact Or.inl (key_load s)
  | openKey key =>
    rw [operate, openKey]
    split
    · exact Or.inr ⟨key, rfl, key_load _⟩
    · exact Or.inl rfl

theorem eq_key_of_mem_writtenBy {s : Session} {operation : Operation} {key : Cell}
    (h : key ∈ s.writtenBy operation) : key = s.dictionary.key := by
  cases operation with
  | call c =>
    rw [writtenBy] at h
    split at h
    · exact List.mem_singleton.1 h
    · cases h
  | _ => cases h

/-- An operation leaves alone the rows of all keys but the one that it writes. -/
theorem get?_operate {s : Session} {operation : Operation} {key : Cell}
    (h : key ∉ s.writtenBy operation) :
    (s.operate operation).database.get? key = s.database.get? key := by
  cases operation with
  | load => rw [operate, database_load]
  | openKey other => rw [operate, database_openKey]
  | call c =>
    rw [operate]
    rw [writtenBy] at h
    split at h
    · next hwrites =>
      have hother : s.dictionary.key ≠ key := fun e => h (e ▸ List.mem_singleton_self _)
      exact Database.get?_put_other hwrites.put_eq.2 hother
    · next hwrites => rw [database_call_of_not_writes hwrites]

/-! ## Runs -/

/-- A run leaves alone the rows of all keys that none of its dictionaries writes. -/
theorem get?_operateAll {s : Session} {operations : List Operation} {key : Cell}
    (h : key ∉ s.writtenKeys operations) :
    (s.operateAll operations).database.get? key = s.database.get? key := by
  induction operations generalizing s with
  | nil => rfl
  | cons operation rest ih =>
    rw [writtenKeys, List.mem_append, not_or] at h
    show ((s.operate operation).operateAll rest).database.get? key = s.database.get? key
    rw [ih h.2, get?_operate h.1]

/-- A run writes under the key that the dictionary has and under those of the dictionaries that it
opens. -/
theorem mem_writtenKeys {s : Session} {operations : List Operation} {key : Cell}
    (h : key ∈ s.writtenKeys operations) :
    key = s.dictionary.key ∨ .openKey key ∈ operations := by
  induction operations generalizing s with
  | nil => cases h
  | cons operation rest ih =>
    rw [writtenKeys, List.mem_append] at h
    rcases h with h | h
    · exact Or.inl (eq_key_of_mem_writtenBy h)
    · rcases ih h with hkey | hopened
      · rcases key_operate s operation with hsame | ⟨opened, rfl, hopened⟩
        · exact Or.inl (hkey.trans hsame)
        · rw [hkey, hopened]
          exact Or.inr List.mem_cons_self
      · exact Or.inr (List.mem_cons_of_mem _ hopened)

/-- Whatever the dictionary holds, and whatever the database holds or is: a call that changes nothing
leaves all as it is, and reading anew and opening leave the database as it is. Every other call leaves
the database as it is or writes its entries under the key of the dictionary, and no other row is
touched. Over a run no row is touched but under the keys that are written, and these are the key of
the dictionary and those under which others are opened. -/
theorem rows_touched_by_key (s : Session) :
    (∀ c, s.ChangesNothing c → (s.call c).session = s) ∧
    ((load s).session.database = s.database ∧ ∀ key, (openKey s key).session.database = s.database) ∧
    (∀ c, (¬ s.Writes c → (s.call c).session.database = s.database) ∧
      (s.Writes c → (s.call c).session.database.get? s.dictionary.key =
          .ok (some (s.call c).session.dictionary.entries.stored) ∧
        ∀ key, key ≠ s.dictionary.key →
          (s.call c).session.database.get? key = s.database.get? key)) ∧
    ∀ operations key,
      (key ∉ s.writtenKeys operations →
        (s.operateAll operations).database.get? key = s.database.get? key) ∧
      (key ∈ s.writtenKeys operations → key = s.dictionary.key ∨ .openKey key ∈ operations) := by
  refine ⟨fun c h => call_of_not_stores (changesNothing_iff.1 h),
    ⟨database_load s, database_openKey s⟩,
    fun c => ⟨database_call_of_not_writes, fun hwrites => ⟨?_, fun key hkey => ?_⟩⟩,
    fun _ _ => ⟨get?_operateAll, mem_writtenKeys⟩⟩
  · exact Database.get?_put_self hwrites.put_eq.2
  · exact Database.get?_put_other hwrites.put_eq.2 (Ne.symm hkey)

end

attribute [local instance] Json.Limit.least

/-- A row that holds no dictionary is left as it is until something is set, and the row of another key
after that too. -/
example :
    let db : Database := .ofRows [("k", "[1"), ("l", "\x7b\"--A\": 1\x7d")]
    let s : Session := (start true db "k").session
    let quiet : List Operation := [.call (.set " " "p-2"), .call (.remove "--A"), .load, .openKey "l",
      .call (.update [("--A", .whole 1)]), .openKey "k", .call .all]
    s.ledger = [] ∧ (s.operateAll quiet).database = db ∧ s.writtenKeys quiet = [] ∧
    (s.operateAll (quiet ++ [.call (.set "--A" "p-2")])).database =
      .ofRows [("k", "\x7b\"--A\": \"p-2\"\x7d"), ("l", "\x7b\"--A\": 1\x7d")] := by decide +kernel

end Session

end UtilityCss
