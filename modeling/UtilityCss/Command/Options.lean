import UtilityCss.Text.Cut
/-
  The arguments of a command, told apart into options and words.

  An option that takes a value has it after an equals sign or as the next
  argument, whatever that looks like. Two hyphens end the options. A command
  that hands its words on to another ends its options at the first word.
-/

namespace UtilityCss.Command

/-- An option: its name with two hyphens, a letter for it, and whether it takes a value. -/
structure OptionForm where
  name : Text
  letter : Option CodePoint := none
  takesValue : Bool := true
  deriving DecidableEq, Repr

/-- Arguments told apart: the options in order, each with its value, and the words. -/
structure Arguments where
  options : List (Text × Text)
  words : List Text
  deriving DecidableEq, Repr

namespace Arguments

/-- The value that was last given for an option. -/
def last? (args : Arguments) (name : String) : Option Text :=
  (args.options.reverse.find? (fun o => o.1 == Text.of name)).map Prod.snd

def given (args : Arguments) (name : String) : Bool := (args.last? name).isSome

def withOption (name value : Text) (args : Arguments) : Arguments :=
  { args with options := (name, value) :: args.options }

def withWord (word : Text) (args : Arguments) : Arguments := { args with words := word :: args.words }

end Arguments

/-- How an argument is taken. -/
inductive Taken where
  | option (name value : Text)
  | valueMissing (name : Text)
  | flags (names : List Text)
  | wrong
  deriving DecidableEq, Repr

/-- The names of the options that letters stand for, if each letter stands for one without a
value. -/
def flagsOf? (forms : List OptionForm) : Text → Option (List Text)
  | [] => some []
  | c :: rest =>
    match forms.find? (fun f => f.letter == some c && !f.takesValue) with
    | some f => (flagsOf? forms rest).map (f.name :: ·)
    | none => none

/-- How an argument that starts with a hyphen is taken. -/
def take (forms : List OptionForm) (arg : Text) : Taken :=
  let (name, value?) :=
    match Text.breakAt? '=' arg with
    | some (name, value) => (name, some value)
    | none => (arg, none)
  match forms.find? (fun f => f.name == name) with
  | some f =>
    match f.takesValue, value? with
    | true, some value => .option f.name value
    | true, none => .valueMissing f.name
    | false, some _ => .wrong
    | false, none => .flags [f.name]
  | none =>
    if (Text.of "--").isPrefixOf arg then .wrong
    else match flagsOf? forms (arg.drop 1) with
      | some names => .flags names
      | none => .wrong

/-- Whether an argument is an option. A lone hyphen is a word. -/
def isOption (arg : Text) : Bool := arg.head? == some (.char '-') && arg.length != 1

/-- Arguments told apart, if every option is known and has its value. With `handsOn` all arguments
from the first word on are words. -/
def Arguments.read? (forms : List OptionForm) (handsOn : Bool) : List Text → Option Arguments
  | [] => some ⟨[], []⟩
  | arg :: rest =>
    if arg = "--" then some ⟨[], rest⟩
    else if isOption arg then
      match take forms arg with
      | .option name value => (read? forms handsOn rest).map (Arguments.withOption name value)
      | .valueMissing name =>
        match rest with
        | [] => none
        -- The value is taken even where it looks like an option.
        | value :: more => (read? forms handsOn more).map (Arguments.withOption name value)
      | .flags names =>
        (read? forms handsOn rest).map (fun args =>
          { args with options := names.map (·, []) ++ args.options })
      | .wrong => none
    else if handsOn then some ⟨[], arg :: rest⟩
    else (read? forms handsOn rest).map (Arguments.withWord arg)

end UtilityCss.Command
