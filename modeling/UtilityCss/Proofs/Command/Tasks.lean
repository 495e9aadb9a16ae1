import UtilityCss.Proofs.Command.Opening
/-
  What a task does to the ledger of its storage, and what it shows.

  A task is done on the dictionary that is opened at its storage, by one call
  on it. So it has a ledger's account: whether it applies to a ledger, what the
  ledger is after it, and what it shows. The program does each task in a few
  lines of its own; that these come to a call, and end and show as the account
  says, is one lemma for each of them (`works_add` and so on), and all else is
  said once for all (`does_withDictionary`). A run ends well when its task is
  done and can be shown: with a half of a pair of surrogates in the output it
  fails, after the task is done.

  What is proved:
    1. `read_listed` : what a listing shows is read back.
    2. `joined_of_membersOf` : no halves that could be joined stand in the
       object that a document holds.
    3. `does_runTask` : every task, on any rows.
-/

namespace UtilityCss.Command

/-! ## What is shown -/

theorem mem_of_mem_plainFrom {skip : Nat} {t : Text} {c : CodePoint} (h : c ∈ plainFrom skip t) :
    c ∈ t := by
  fun_induction plainFrom skip t with
  | case1 => exact h
  | case2 skip d rest ih => exact List.mem_cons_of_mem d (ih h)
  | case3 rest length hlength ih => exact List.mem_cons_of_mem _ (ih h)
  | case4 rest hlength ih =>
    rcases List.mem_cons.1 h with rfl | h
    · exact List.mem_cons_self
    · exact List.mem_cons_of_mem _ (ih h)
  | case5 d rest hd ih =>
    rcases List.mem_cons.1 h with rfl | h
    · exact List.mem_cons_self
    · exact List.mem_cons_of_mem _ (ih h)

theorem scalar_line {t : Text} (h : t.Scalar) : (line t).Scalar := by
  apply Text.Scalar.append
  · exact fun c hc => h c (mem_of_mem_plainFrom hc)
  · exact Text.scalar_of "\n"

/-- What a listing of entries shows: the written object and a line feed. -/
def listed (m : Entries) : Text := (Json.ofTexts m.sorted).write .indented ++ "\n"

theorem shown_listed (m : Entries) : ∀ c ∈ listed m, Json.Shown c := by
  intro c hc
  rcases List.mem_append.1 hc with hc | hc
  · exact Json.shown_write_ofTexts _ _ c hc
  · exact Or.inl (List.mem_singleton.1 hc)

theorem scalar_listed (m : Entries) : (listed m).Scalar := fun c hc => (shown_listed m c hc).not_isHalf

/-- A listing is read as the entries in the order of their names. -/
theorem read_listed [Json.Limit] {m : Entries} (h : Ledger.Joined m.entries) :
    Json.read (listed m) = .ok (Json.ofTexts m.sorted) := by
  have hperm := OrderedMap.sorted_perm m
  apply Json.read_written
  · exact fun e he => h e (hperm.mem_iff.1 he)
  · exact (hperm.map Prod.fst).nodup_iff.2 m.distinct
  · decide

theorem listWork_output (s : Session) : (listWork s).output = listed s.dictionary.entries := by
  show line _ = _
  rw [line, plain_of_no_escape]
  · rfl
  · intro hescape
    rcases Json.shown_write_ofTexts _ _ _ hescape with h | ⟨h, -⟩
    · cases h
    · exact absurd h (by decide)

theorem scalar_listWork (s : Session) : (listWork s).output.Scalar := by
  rw [listWork_output]
  exact scalar_listed s.dictionary.entries

/-! ## Tasks as operations on a ledger -/

namespace Task

/-- The texts that a task is given as words. -/
def words : Task → List Text
  | .add name value => [name, value]
  | .remove name => [name]
  | _ => []

/-- Whether a task can be done on a ledger. -/
def applies (l : Ledger) : Task → Bool
  | .add name value => ¬ Ledger.Blank name value
  | .remove name => name ∈ l.map Prod.fst
  | _ => true

/-- A task only looks at the dictionary. -/
def Looks : Task → Prop
  | .add _ _ => False
  | .remove _ => False
  | .importFrom _ => False
  | _ => True

section

variable [Json.Limit]

/-- Whether a task can read what it reads before the dictionary is opened. -/
def reads (ws : Workspace) (input : Text) : Task → Bool
  | .convert source _ _ => (styleOf ws input source).isOk
  | .importFrom path => (membersOf (octetsOf ws path)).isOk
  | .lookForZero => false
  | _ => true

/-- The ledger after a task that is done. -/
def after (ws : Workspace) (l : Ledger) : Task → Ledger
  | .add name value => l.upsert (Text.trim name) (Text.trim value)
  | .remove name => l.delete name
  | .importFrom path =>
    match membersOf (octetsOf ws path) with
    | .ok members => members.foldl Ledger.enterPair l
    | .error _ => l
  | _ => l

/-- The line that a task shows when it is done. A listing is of many lines. -/
def shown? (ws : Workspace) (input : Text) (l : Ledger) : Task → Option Text
  | .add name value => some (line ("Added " ++ Text.trim name ++ " -> " ++ Text.trim value))
  | .remove name => some (line ("Removed " ++ name))
  | .importFrom path => (membersOf (octetsOf ws path)).toOption.map (fun members =>
      line ("Imported " ++ Text.decimal (members.countP Ledger.makesEntry) ++ " variables"))
  | .list => none
  | .convert source variants existing => (styleOf ws input source).toOption.map (fun style =>
      line ((⟨style, variants, existing⟩ : Conversion).output l.value?))
  | .serve address =>
    some (line ("Starting figwind on " ++ address.host ++ ":" ++ Json.wholeText address.port))
  | .lookForZero => none

/-- What a task shows when it is done: its line, or a listing of the ledger. -/
def Shows (ws : Workspace) (input : Text) (l : Ledger) (output : Text) : Task → Prop
  | .list => ∃ pairs, pairs.Perm l ∧ Json.read output = .ok (Json.ofTexts pairs)
  | task => task.shown? ws input l = some output

/-- What a task shows can be shown. A half of a pair of surrogates cannot. -/
def Showable (ws : Workspace) (input : Text) (l : Ledger) (task : Task) : Prop :=
  ∀ text ∈ task.shown? ws input l, text.Scalar

instance (ws : Workspace) (input : Text) (l : Ledger) (task : Task) :
    Decidable (task.Showable ws input l) :=
  inferInstanceAs (Decidable (∀ text ∈ task.shown? ws input l, text.Scalar))

/-- Whether a task is done on the ledger of a storage: what it reads can be read, the dictionary can
be opened, and the task applies to the ledger. -/
def isDone (ws : Workspace) (input : Text) (storage : Storage) (l : Ledger) (task : Task) : Bool :=
  task.reads ws input && (opened? ws storage).isSome && task.applies l

/-- The ledger of a storage after a run that is to do a task. -/
def leaves (ws : Workspace) (input : Text) (storage : Storage) (l : Ledger) (task : Task) : Ledger :=
  if task.isDone ws input storage l then task.after ws l else l

variable {ws : Workspace} {input : Text} {l : Ledger} {output : Text} {task : Task}

theorem shows_of_shown? (h : task.shown? ws input l = some output) :
    task.Shows ws input l output := by
  cases task with
  | list => cases h
  | _ => exact h

/-- What changes a dictionary can be shown, if its words are made of characters. -/
theorem showable_of_scalar (h : ∀ word ∈ task.words, word.Scalar) (hchanges : ¬ task.Looks) :
    task.Showable ws input l := by
  intro text hshown
  cases task with
  | add name value =>
    have hname : name.Scalar := h name List.mem_cons_self
    have hvalue : value.Scalar := h value (List.mem_cons_of_mem _ List.mem_cons_self)
    rw [← Option.some.inj hshown]
    exact scalar_line ((((Text.scalar_of _).append hname.trim).append (Text.scalar_of _)).append hvalue.trim)
  | remove name =>
    rw [← Option.some.inj hshown]
    exact scalar_line ((Text.scalar_of _).append (h name List.mem_cons_self))
  | importFrom path =>
    obtain ⟨members, -, rfl⟩ := Option.map_eq_some_iff.1 hshown
    exact scalar_line (((Text.scalar_of _).append (Text.scalar_decimal _)).append (Text.scalar_of _))
  | _ => exact absurd trivial hchanges

theorem showable_iff (h : task.shown? ws input l = some output) :
    task.Showable ws input l ↔ output.Scalar := by
  simp [Showable, h]

end

end Task

/-! ## What a task comes to -/

theorem scalar_readText {octets : List Nat} {text : Text} (h : readText octets = .ok text) :
    text.Scalar := by
  unfold readText at h
  cases hdecode : Utf8.decode octets with
  | error fault =>
    rw [hdecode] at h
    cases h
  | ok decoded =>
    rw [hdecode] at h
    rw [← Except.ok.inj h]
    exact (Utf8.scalar_decode hdecode).unifyNewlines

theorem noObject_outcome (why : NoObject) (ws : Workspace) :
    (why.outcome ws).ending.code = 1 ∧ (why.outcome ws).workspace = ws := by
  cases why with
  | encoding fault => exact ⟨rfl, rfl⟩
  | other => exact ⟨rfl, rfl⟩
  | json text fault =>
    cases hdeep : fault.tooDeep? <;> simp [NoObject.outcome, hdeep, Ending.code]

section

variable [Json.Limit]

/-- What a task comes to at a storage. What lies beside the database is gone when it is opened. -/
structure Does (ws : Workspace) (input : Text) (storage : Storage) (task : Task) (o : Outcome) :
    Prop where
  exits : o.ending.code = 0 ↔ task.isDone ws input storage ((ledgersOf ws).read storage) = true ∧
    task.Showable ws input ((ledgersOf ws).read storage)
  unread : task.reads ws input = false → o.workspace = ws
  quiet : task.reads ws input = true →
    task.isDone ws input storage ((ledgersOf ws).read storage) = false ∨ task.Looks →
      SameRows (ws.clearFor storage.path) o.workspace
  keeps : task.reads ws input = true → Keeps (ws.clearFor storage.path) storage
    (task.leaves ws input storage ((ledgersOf ws).read storage)) o.workspace
  shows : o.ending.code = 0 → task.Shows ws input ((ledgersOf ws).read storage) o.output

/-- Work on an opened dictionary is a call on it, and shows and ends as the task does. -/
structure Works (ws : Workspace) (input : Text) (s : Session) (task : Task) (c : Call) (work : Work) :
    Prop where
  session : work.session = (s.call c).session
  joined : (s.ledger.after c).Joined
  ends : work.ending.code = 0 ↔ task.applies s.ledger = true
  scalar : task.applies s.ledger = true → (work.output.Scalar ↔ task.Showable ws input s.ledger)
  quiet : task.applies s.ledger = false ∨ task.Looks → s.ledger.stores c = false
  after : task.applies s.ledger = true → s.ledger.after c = task.after ws s.ledger
  shows : task.applies s.ledger = true → task.Shows ws input s.ledger work.output

variable {ws : Workspace} {input : Text} {full : Bool} {storage : Storage} {task : Task}

/-- Where the dictionary cannot be opened, the task is not done. -/
theorem does_of_not_opened (hplain : ws.Plain) (hreads : task.reads ws input = true)
    (hopened : opened? ws storage = none) (work : Session → Work) :
    Does ws input storage task (withDictionary ws full storage work) := by
  obtain ⟨hcode, hsame⟩ := withDictionary_of_not_opened full work hopened
  have hundone : ∀ l, task.isDone ws input storage l = false := by simp [Task.isDone, hopened]
  have hfailed : ¬ (withDictionary ws full storage work).ending.code = 0 := by
    rw [hcode]
    decide
  refine ⟨iff_of_false hfailed ?_, ?_, fun _ _ => hsame, fun _ => ?_, fun h => absurd h hfailed⟩
  · rintro ⟨hdone, -⟩
    rw [hundone] at hdone
    cases hdone
  · rw [hreads]
    exact fun h => absurd h (by decide)
  · rw [Task.leaves, hundone, ← read_clearFor]
    exact keeps_of_sameRows (hplain.clearFor _) hsame storage

theorem does_withDictionary (hplain : ws.Plain) (hreads : task.reads ws input = true)
    {work : Session → Work}
    (hwork : ∀ key s, Opened ws storage key s → ∃ c, Works ws input s task c (work s)) :
    Does ws input storage task (withDictionary ws full storage work) := by
  cases hopened : opened? ws storage with
  | none => exact does_of_not_opened hplain hreads hopened work
  | some s =>
    obtain ⟨key, hs⟩ := opened_of_opened? hopened hplain
    obtain ⟨c, hworks⟩ := hwork key s hs
    obtain ⟨notices, hrun⟩ := withDictionary_of_opened full work hopened
    have hdone : task.isDone ws input storage s.ledger = task.applies s.ledger := by
      simp [Task.isDone, hreads, hopened]
    have hworkspace : (withDictionary ws full storage work).workspace =
        (ws.clearFor storage.path).keep storage.path (s.call c).session.database := by
      rw [hrun, conclude_workspace, hworks.session]
    have hcode : (withDictionary ws full storage work).ending.code = 0 ↔
        task.applies s.ledger = true ∧ task.Showable ws input s.ledger := by
      rw [hrun, conclude_code, hworks.ends]
      exact and_congr_right hworks.scalar
    constructor
    · rw [← hs.ledger, hdone]
      exact hcode
    · rw [hreads]
      exact fun h => absurd h (by decide)
    · intro _ h
      rw [← hs.ledger, hdone] at h
      rw [hworkspace]
      exact sameRows_call hs (hworks.quiet h)
    · intro _
      rw [hworkspace, ← hs.ledger, Task.leaves, hdone]
      cases happlies : task.applies s.ledger with
      | true =>
        rw [if_pos rfl, ← hworks.after happlies]
        exact keeps_call hs hplain hworks.joined
      | false =>
        rw [if_neg (by decide), hs.ledger, ← read_clearFor]
        exact keeps_of_sameRows (hplain.clearFor _) (sameRows_call hs (hworks.quiet (Or.inl happlies)))
          storage
    · intro h
      obtain ⟨happlies, hshowable⟩ := hcode.1 h
      rw [hrun, (conclude_of_scalar _ full notices ((hworks.scalar happlies).2 hshowable)).2, ← hs.ledger]
      exact hworks.shows happlies

/-! ## One lemma per kind of work -/

section

variable {s : Session} {c : Call} {work : Work} (hsession : work.session = (s.call c).session)
  (hjoined : (s.ledger.after c).Joined)

include hsession hjoined

/-- Work that is done, and shows its line. -/
theorem works_of_done (happlies : task.applies s.ledger = true) (hends : work.ending.code = 0)
    (hquiet : task.Looks → s.ledger.stores c = false)
    (hafter : s.ledger.after c = task.after ws s.ledger)
    (hshown : task.shown? ws input s.ledger = some work.output) : Works ws input s task c work where
  session := hsession
  joined := hjoined
  ends := iff_of_true hends happlies
  scalar _ := (Task.showable_iff hshown).symm
  quiet h := h.elim (fun hnot => by simp [happlies] at hnot) hquiet
  after _ := hafter
  shows _ := Task.shows_of_shown? hshown

/-- Work that is refused, with nothing written. -/
theorem works_of_refused (hnot : task.applies s.ledger = false) (hends : work.ending.code ≠ 0)
    (hquiet : s.ledger.stores c = false) : Works ws input s task c work where
  session := hsession
  joined := hjoined
  ends := iff_of_false hends (by simp [hnot])
  scalar h := by simp [hnot] at h
  quiet _ := hquiet
  after h := by simp [hnot] at h
  shows h := by simp [hnot] at h

end

variable {s : Session} {key : Cell}

theorem works_add (h : s.Working key) {name value : Text} (hname : name.Joined)
    (hvalue : value.Joined) :
    Works ws input s (.add name value) (.set name value) (addWork s name value) := by
  have hsession : (addWork s name value).session = (s.call (.set name value)).session := by
    unfold addWork
    simp only
    split <;> rfl
  have hjoined : (s.ledger.after (.set name value)).Joined := h.joined.enter hname hvalue
  by_cases hblank : Ledger.Blank name value
  · apply works_of_refused hsession hjoined
    · simp [Task.applies, hblank]
    · rw [addWork, Session.set_of_blank hblank]
      exact Nat.one_ne_zero
    · simp [Ledger.stores, hblank]
  · have hresult := (Session.set_succeeds h.saves hblank).1
    apply works_of_done hsession hjoined
    · simp [Task.applies, hblank]
    · simp only [addWork, hresult]
      rfl
    · exact False.elim
    · simp only [Ledger.after, Ledger.enter, if_neg hblank, Task.after]
    · simp only [addWork, hresult]
      rfl

theorem works_remove (h : s.Working key) (name : Text) :
    Works ws input s (.remove name) (.remove name) (removeWork s name) := by
  have hsession : (removeWork s name).session = (s.call (.remove name)).session := by
    unfold removeWork
    simp only
    split <;> rfl
  have hjoined : (s.ledger.after (.remove name)).Joined := h.joined.delete name
  have hresult := Session.remove_succeeds h.saves name
  by_cases hmem : name ∈ s.ledger.map Prod.fst
  · rw [decide_eq_true hmem] at hresult
    apply works_of_done hsession hjoined
    · exact decide_eq_true hmem
    · simp only [removeWork, hresult]
      rfl
    · exact False.elim
    · rfl
    · simp only [removeWork, hresult]
      rfl
  · rw [decide_eq_false hmem] at hresult
    apply works_of_refused hsession hjoined
    · exact decide_eq_false hmem
    · simp only [removeWork, hresult]
      exact Nat.one_ne_zero
    · simpa [Ledger.stores] using hmem

/-- No halves that could be joined stand in the object that a document holds. -/
theorem joined_of_membersOf {octets : List Nat} {members : List (Text × Json)}
    (h : membersOf octets = .ok members) : Json.JoinedMembers members := by
  unfold membersOf at h
  split at h
  · cases h
  · next text htext =>
    split at h
    · cases h
    · next value hread =>
      split at h
      · next found hfound =>
        obtain rfl : found = members := Except.ok.inj h
        rw [Json.members?_eq_some_iff.1 hfound] at hread
        exact Json.joinedMembers_of_read (scalar_readText htext) hread
      · cases h

theorem works_import (h : s.Working key) {path : Text} {members : List (Text × Json)}
    (hmembers : membersOf (octetsOf ws path) = .ok members) :
    Works ws input s (.importFrom path) (.update members) (importWork s members) := by
  have hsession : (importWork s members).session = (s.call (.update members)).session := by
    unfold importWork
    simp only
    split <;> rfl
  have hresult := Session.update_succeeds h.saves members
  apply works_of_done hsession (h.joined.enterPairs (joined_of_membersOf hmembers))
  · rfl
  · simp only [importWork, hresult]
    rfl
  · exact False.elim
  · rw [Task.after, hmembers]
    rfl
  · simp only [importWork, hresult, Task.shown?, hmembers]
    rfl

theorem works_list (h : s.Working key) : Works ws input s .list .all (listWork s) where
  session := rfl
  joined := h.joined
  ends := iff_of_true rfl rfl
  scalar _ := iff_of_true (scalar_listWork s) (fun _ hmem => by cases hmem)
  quiet _ := rfl
  after _ := rfl
  shows _ := by
    rw [listWork_output]
    exact ⟨_, OrderedMap.sorted_perm s.dictionary.entries, read_listed h.joined⟩

theorem works_convert (h : s.Working key) {source : Source} {style variants existing : Text}
    (hstyle : styleOf ws input source = .ok style) :
    Works ws input s (.convert source variants existing) (.convert ⟨style, variants, existing⟩)
      (convertWork s ⟨style, variants, existing⟩) := by
  have hjoined : (s.ledger.after (.convert ⟨style, variants, existing⟩)).Joined := h.joined
  apply works_of_done rfl hjoined rfl rfl (fun _ => rfl) rfl
  rw [Task.shown?, hstyle, ← Session.lookup_eq_value?]
  rfl

theorem works_serve (h : s.Working key) (address : Address) :
    Works ws input s (.serve address) .all (serveWork s address) := by
  have hjoined : (s.ledger.after .all).Joined := h.joined
  exact works_of_done rfl hjoined rfl rfl (fun _ => rfl) rfl rfl

/-! ## Tasks -/

theorem does_of_unread {o : Outcome} (hcode : o.ending.code = 1) (hworkspace : o.workspace = ws)
    (hunread : task.reads ws input = false) : Does ws input storage task o := by
  have hfailed : ¬ o.ending.code = 0 := by
    rw [hcode]
    decide
  have hreads : ¬ task.reads ws input = true := by simp [hunread]
  refine ⟨iff_of_false hfailed ?_, fun _ => hworkspace, fun h => absurd h hreads,
    fun h => absurd h hreads, fun h => absurd h hfailed⟩
  rintro ⟨hdone, -⟩
  simp [Task.isDone, hunread] at hdone

theorem does_runTask (hplain : ws.Plain) (hwords : ∀ word ∈ task.words, word.Joined) :
    Does ws input storage task (runTask ws input full storage task) := by
  unfold runTask
  cases task with
  | convert source variants existing =>
    simp only
    cases hstyle : styleOf ws input source with
    | error fault => exact does_of_unread rfl rfl (by simp [Task.reads, hstyle, Except.isOk, Except.toBool])
    | ok style =>
      exact does_withDictionary hplain (by simp [Task.reads, hstyle, Except.isOk, Except.toBool])
        (fun key s hs => ⟨_, works_convert hs.working hstyle⟩)
  | list => exact does_withDictionary hplain rfl (fun key s hs => ⟨_, works_list hs.working⟩)
  | add name value =>
    have hname : name.Joined := hwords name List.mem_cons_self
    have hvalue : value.Joined := hwords value (List.mem_cons_of_mem _ List.mem_cons_self)
    exact does_withDictionary hplain rfl (fun key s hs => ⟨_, works_add hs.working hname hvalue⟩)
  | remove name =>
    exact does_withDictionary hplain rfl (fun key s hs => ⟨_, works_remove hs.working name⟩)
  | importFrom path =>
    simp only
    cases hmembers : membersOf (octetsOf ws path) with
    | error why =>
      obtain ⟨hcode, hworkspace⟩ := noObject_outcome why ws
      exact does_of_unread hcode hworkspace (by simp [Task.reads, hmembers, Except.isOk, Except.toBool])
    | ok members =>
      exact does_withDictionary hplain (by simp [Task.reads, hmembers, Except.isOk, Except.toBool])
        (fun key s hs => ⟨_, works_import hs.working hmembers⟩)
  | serve address =>
    exact does_withDictionary hplain rfl (fun key s hs => ⟨_, works_serve hs.working address⟩)
  | lookForZero => exact does_of_unread rfl rfl rfl

end

end UtilityCss.Command
