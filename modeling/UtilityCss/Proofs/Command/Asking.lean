import UtilityCss.Proofs.Command.Refinement
/-
  Every task can be asked for, whatever texts it is about.

  A task can be asked for in many ways. One of them serves for all texts: each
  option has its value behind it, where it is taken even if it looks like an
  option, and the words stand behind two hyphens, where none of them is taken
  for one. Arguments that are written so are read as what they were written
  from.

  What is proved:
    1. `read?_written` : options and words that are written are read again.
    2. `asks_convert` : a conversion of a style from any source.
    3. `asks_list`, `asks_add`, `asks_remove`, `asks_import` : the tasks on
       variables.
-/

namespace UtilityCss.Command

/-! ## Writing arguments -/

namespace Arguments

/-- Options as arguments, each with its value behind it. -/
def writtenOptions (options : List (Text × Text)) : List Text := options.flatMap (fun o => [o.1, o.2])

/-- Words as arguments, behind two hyphens. -/
def writtenWords : List Text → List Text
  | [] => []
  | word :: more => "--" :: word :: more

/-- Options and words as arguments. -/
def written (args : Arguments) : List Text := writtenOptions args.options ++ writtenWords args.words

/-- A name is that of an option that takes a value. -/
def Valued (forms : List OptionForm) (name : Text) : Prop :=
  take forms name = .valueMissing name ∧ isOption name = true ∧ name ≠ "--"

instance (forms : List OptionForm) (name : Text) : Decidable (Valued forms name) :=
  inferInstanceAs (Decidable (_ ∧ _ ∧ _))

variable {forms : List OptionForm} {handsOn : Bool}

theorem read?_value {name : Text} (h : Valued forms name) (value : Text) (rest : List Text) :
    read? forms handsOn (name :: value :: rest) =
      (read? forms handsOn rest).map (withOption name value) := by
  obtain ⟨htake, hoption, hdashes⟩ := h
  rw [read?]
  simp only [hdashes, if_false, hoption, if_true, htake]

theorem read?_writtenWords (words : List Text) :
    read? forms handsOn (writtenWords words) = some ⟨[], words⟩ := by
  cases words with
  | nil => rfl
  | cons word more =>
    rw [writtenWords, read?]
    exact if_pos rfl

/-- What is written of options and words is read as them. -/
theorem read?_written {args : Arguments} (h : ∀ name ∈ args.options.map Prod.fst, Valued forms name) :
    read? forms handsOn args.written = some args := by
  obtain ⟨options, words⟩ := args
  induction options with
  | nil => exact read?_writtenWords words
  | cons o rest ih =>
    rw [List.map_cons, List.forall_mem_cons] at h
    show read? forms handsOn (o.1 :: o.2 :: written ⟨rest, words⟩) = _
    rw [read?_value h.1, ih h.2]
    rfl

/-- A word is handed on with all that follows it. -/
theorem read?_handsOn {word : Text} (hdashes : word ≠ "--") (hoption : isOption word = false)
    (rest : List Text) : read? forms true (word :: rest) = some ⟨[], word :: rest⟩ := by
  rw [read?]
  simp [hdashes, hoption]

end Arguments

/-- The options that name a storage. -/
def Storage.options (storage : Storage) : List (Text × Text) :=
  [(Text.of "--db", storage.path), (Text.of "--key", storage.key)]

/-- A command is handed on with its arguments. -/
theorem read?_of_command (ws : Workspace) {command : Text} (hdashes : command ≠ "--")
    (hoption : isOption command = false) (rest : List Text) :
    Invocation.read? ws (command :: rest) = commandOf? ws false command rest := by
  rw [Invocation.read?, Arguments.read?_handsOn hdashes hoption]
  rfl

/-! ## Conversions -/

/-- The option that names a source. The standard input needs none. -/
def Source.options : Source → List (Text × Text)
  | .given style => [(Text.of "--css", style)]
  | .document path => [(Text.of "--file", path)]
  | .input => []

/-- The arguments of a conversion. -/
def convertArguments (storage : Storage) (source : Source) (variants existing : Text) : Arguments :=
  ⟨source.options ++ [(Text.of "--prefix", variants), (Text.of "--existing", existing)] ++
    storage.options, []⟩

section

variable {ws : Workspace} {storage : Storage} {source : Source} {variants existing : Text}

theorem read?_convertArguments :
    Arguments.read? convertForms false (convertArguments storage source variants existing).written =
      some (convertArguments storage source variants existing) := by
  have hsource : ∀ name ∈ source.options.map Prod.fst, Arguments.Valued convertForms name := by
    cases source with
    | given style =>
      show ∀ name ∈ [Text.of "--css"], Arguments.Valued convertForms name
      decide
    | document path =>
      show ∀ name ∈ [Text.of "--file"], Arguments.Valued convertForms name
      decide
    | input => exact List.forall_mem_nil _
  have hothers : ∀ name ∈ ["--prefix", "--existing", "--db", "--key"].map Text.of,
      Arguments.Valued convertForms name := by decide
  apply Arguments.read?_written
  intro name hname
  rw [convertArguments, List.append_assoc, List.map_append, List.mem_append] at hname
  exact hname.elim (hsource name) (hothers name)

theorem convertTask?_convertArguments
    (h : ∀ path, source = .document path → holdsZero path = false ∧ isThere ws (some path) = true) :
    convertTask? ws (convertArguments storage source variants existing) =
      some (.convert source variants existing) := by
  cases source with
  | given style => rfl
  | input => rfl
  | document path =>
    obtain ⟨hzero, hthere⟩ := h path rfl
    have hfile : (convertArguments storage (.document path) variants existing).last? "--file" =
      some path := rfl
    have hstyle : (convertArguments storage (.document path) variants existing).last? "--css" =
      none := rfl
    simp only [convertTask?, hfile, hstyle, Option.any_some, hzero, hthere]
    rfl

end

/-- A conversion is asked for at any storage, if its document is there. -/
theorem asks_convert (ws : Workspace) (storage : Storage) {source : Source}
    (variants existing input : Text)
    (h : ∀ path, source = .document path → holdsZero path = false ∧ isThere ws (some path) = true) :
    Launch.Asks ⟨"convert" :: (convertArguments storage source variants existing).written, input⟩ ws
      storage (.convert source variants existing) := by
  have hstorage : storageOf (convertArguments storage source variants existing) = storage := by
    cases source <;> rfl
  have hhelp : (convertArguments storage source variants existing).given "--help" = false := by
    cases source <;> rfl
  refine ⟨false, ?_⟩
  show Invocation.read? ws _ = _
  rw [read?_of_command ws (by decide) (by decide), commandOf?, if_pos rfl, read?_convertArguments]
  simp [askedOf, hhelp, hstorage, convertTask?_convertArguments h]

/-! ## Tasks on variables -/

/-- The arguments of a command on variables. -/
def variableArguments (command : Text) (storage : Storage) (words : List Text) : List Text :=
  "vars" :: command :: Arguments.written ⟨storage.options, words⟩

section

variable {ws : Workspace} {storage : Storage}

/-- A task on variables is asked for at any storage, with any words that make it. -/
theorem asks_of_variableTask? {command : Text} {page : Page} {words : List Text} {task : Task}
    (hpage : variablePage? command = some page) (htask : variableTask? ws command words = some task)
    (hdashes : command ≠ "--") (hoption : isOption command = false) (input : Text) :
    Launch.Asks ⟨variableArguments command storage words, input⟩ ws storage task := by
  have hread : Arguments.read? storageForms false (Arguments.written ⟨storage.options, words⟩) =
      some ⟨storage.options, words⟩ := by
    apply Arguments.read?_written
    show ∀ name ∈ [Text.of "--db", Text.of "--key"], Arguments.Valued storageForms name
    decide
  have hhelp : (Arguments.mk storage.options words).given "--help" = false := rfl
  have hstorage : storageOf ⟨storage.options, words⟩ = storage := rfl
  refine ⟨false, ?_⟩
  show Invocation.read? ws (Text.of "vars" :: _) = _
  rw [read?_of_command ws (by decide) (by decide), commandOf?, if_neg (by decide), if_neg (by decide),
    if_pos rfl, Arguments.read?_handsOn hdashes hoption]
  show variablesOf? ws false command _ = _
  rw [variablesOf?, hpage, hread]
  simp [askedOf, hhelp, hstorage, htask]

theorem asks_list (input : Text) :
    Launch.Asks ⟨variableArguments "list" storage [], input⟩ ws storage .list :=
  asks_of_variableTask? rfl rfl (by decide) rfl input

theorem asks_add (name value input : Text) :
    Launch.Asks ⟨variableArguments "add" storage [name, value], input⟩ ws storage (.add name value) :=
  asks_of_variableTask? rfl rfl (by decide) rfl input

theorem asks_remove (name input : Text) :
    Launch.Asks ⟨variableArguments "remove" storage [name], input⟩ ws storage (.remove name) :=
  asks_of_variableTask? rfl rfl (by decide) rfl input

/-- An import is asked for, if its document is there. -/
theorem asks_import {path : Text} (hzero : holdsZero path = false)
    (hthere : isThere ws (some path) = true) (input : Text) :
    Launch.Asks ⟨variableArguments "import" storage [path], input⟩ ws storage (.importFrom path) := by
  apply asks_of_variableTask? rfl ?_ (by decide) rfl input
  show (if holdsZero path then _ else if isThere ws (some path) && _ then _ else _) = _
  rw [hzero, hthere]
  rfl

end

end UtilityCss.Command
