import Tangle.Path.Basic

/-!
# Arguments

The arguments of the program name a command, after the options that hold for all
commands and before its own; the former may also come after it. An option is a
*switch* or a *setting*, which has a value:

* `--name` and `--name=value`, or `--name` with the value as the next argument;
* `-x` and `-xvalue` or `-x=value`, or `-x` with the value as the next argument;
  several letters of switches may share a dash, with a setting as the last.

A value in an argument of its own does not start with a dash, unless it is one.
After `--` all arguments are words. No option comes twice before the command, nor
after it; a setting that comes in both places has its value from the second. No
value and no word is empty.

The arguments are read from left to right: the first one that asks for help or
for the version, or that is a mistake, decides.
-/

namespace Tangle

/-- What the program is asked to do. -/
inductive Command
  /-- Write the output files. -/
  | tangle (output : Option Path) (dryRun naked : Bool) (files : List Path)
  /-- Show the reference trees. -/
  | tree (json : Bool)
  /-- Show the configuration. -/
  | config
deriving DecidableEq

/-- A command, with the options for all commands. -/
structure Invocation where
  /-- The configuration file. -/
  config : Option Path
  /-- The directory that other paths are taken from. -/
  directory : Option Path
  /-- All events are shown. -/
  verbose : Bool
  /-- The directory of the documents. -/
  input : Option Path
  /-- The command. -/
  command : Command
deriving DecidableEq

namespace Command

/-- An option without a value. -/
inductive Switch
  | verbose
  | dryRun
  | naked
  | json
  | help
  | version
deriving DecidableEq, Inhabited

/-- An option with a value. -/
inductive Setting
  | config
  | directory
  | input
  | output
deriving DecidableEq, Inhabited

/-- The name of a switch. -/
def Switch.name : Switch → String
  | verbose => "verbose"
  | dryRun => "dry-run"
  | naked => "naked"
  | json => "json"
  | help => "help"
  | version => "version"

/-- The letter of a switch. -/
def Switch.letter? : Switch → Option Char
  | verbose => some 'v'
  | dryRun => some 'n'
  | help => some 'h'
  | version => some 'V'
  | naked | json => none

/-- The name of a setting. -/
def Setting.name : Setting → String
  | config => "config"
  | directory => "directory"
  | input => "in"
  | output => "out"

/-- The letter of a setting. -/
def Setting.letter? : Setting → Option Char
  | config => some 'c'
  | directory => some 'C'
  | input | output => none

/-- What may be given at some place. -/
structure Scope where
  /-- The switches. -/
  switches : List Switch
  /-- The settings. -/
  settings : List Setting
  /-- Words may be given. -/
  takesWords : Bool := false

/-- A part of the arguments. -/
inductive Item
  /-- A switch. -/
  | switch (s : Switch)
  /-- A setting and its value. -/
  | setting (s : Setting) (value : Text)
  /-- A word. -/
  | word (t : Text)
  /-- A mistake. -/
  | mistake
deriving DecidableEq

namespace Scope

/-- What may be given before a command. -/
def ofAll : Scope := ⟨[.verbose, .help, .version], [.config, .directory], false⟩

/-- What may be given after `tangle`. -/
def ofTangle : Scope :=
  ⟨[.verbose, .dryRun, .naked, .help], [.config, .directory, .input, .output], true⟩

/-- What may be given after `tree`. -/
def ofTree : Scope := ⟨[.verbose, .json, .help], [.config, .directory, .input], false⟩

/-- What may be given after `config`. -/
def ofConfig : Scope := ⟨[.verbose, .help], [.config, .directory], false⟩

/-- Reads the letters after a dash. A setting without a value waits for it. -/
def readLetters (s : Scope) : Text → List Item × Option Setting
  | [] => ([], none)
  | c :: rest =>
    match s.switches.find? (·.letter? == some c), s.settings.find? (·.letter? == some c), rest with
    | some w, _, _ =>
      let (items, waiting) := s.readLetters rest
      (.switch w :: items, waiting)
    | none, some o, [] => ([], some o)
    | none, some o, '=' :: value => ([.setting o value], none)
    | none, some o, value => ([.setting o value], none)
    | none, none, _ => ([.mistake], none)

/-- Reads the text after two dashes. A setting without a value waits for it. -/
def readName (s : Scope) (t : Text) : List Item × Option Setting :=
  let (name, value) := t.span (· != '=')
  match s.switches.find? (·.name.toList == name), s.settings.find? (·.name.toList == name), value with
  | some w, _, [] => ([.switch w], none)
  | none, some o, [] => ([], some o)
  | none, some o, _ :: value => ([.setting o value], none)
  | _, _, _ => ([.mistake], none)

/-- Reads an option, unless the argument is a word. -/
def readOption? (s : Scope) : Text → Option (List Item × Option Setting)
  | '-' :: '-' :: t => some (s.readName t)
  | '-' :: c :: t => some (s.readLetters (c :: t))
  | _ => none

/-- The argument is a word. -/
def isWord : Text → Bool
  | '-' :: _ :: _ => false
  | _ => true

/-- Reads arguments, up to the first word if no words may be given. -/
def read (s : Scope) : List Text → List Item × List Text
  | [] => ([], [])
  | argument :: more =>
    if argument = ['-', '-'] then
      if s.takesWords then (more.map .word, [])
      else (if more = [] then [] else [.mistake], [])
    else
      match s.readOption? argument, more with
      | none, more =>
        if s.takesWords then
          let (items, rest) := s.read more
          (.word argument :: items, rest)
        else ([], argument :: more)
      | some (items, none), more =>
        let (items', rest) := s.read more
        (items ++ items', rest)
      | some (items, some o), value :: more =>
        if isWord value then
          let (items', rest) := s.read more
          (items ++ .setting o value :: items', rest)
        else (items ++ [.mistake], [])
      | some (items, some _), [] => (items ++ [.mistake], [])

end Scope

/-- What arguments that name no command to run ask for. -/
inductive Reply
  /-- How the program is used. -/
  | help
  /-- The version of the program. -/
  | version
  /-- Nothing: they are mistaken. -/
  | misuse
deriving DecidableEq, Inhabited

/-- What was given at some place. -/
structure Given where
  /-- The switches. -/
  switches : List Switch := []
  /-- The settings, with their values. -/
  settings : List (Setting × Path) := []
  /-- The words. -/
  words : List Path := []
deriving DecidableEq, Inhabited

namespace Given

/-- The value of a setting. -/
def value? (g : Given) (s : Setting) : Option Path := g.settings.lookup s

/-- The switch was given. -/
def has (g : Given) (s : Switch) : Bool := s ∈ g.switches

/-- Takes in one more item. -/
def add (g : Given) : Item → Except Reply Given
  | .switch .help => .error .help
  | .switch .version => .error .version
  | .switch s =>
    if g.has s then .error .misuse else .ok { g with switches := g.switches ++ [s] }
  | .setting s value =>
    if value = [] ∨ (g.value? s).isSome then .error .misuse
    else .ok { g with settings := g.settings ++ [(s, ⟨value⟩)] }
  | .word t => if t = [] then .error .misuse else .ok { g with words := g.words ++ [⟨t⟩] }
  | .mistake => .error .misuse

/-- What the items give. -/
def ofItems (items : List Item) : Except Reply Given := items.foldlM add {}

/-- The command that was given after the options for all commands. -/
def invoke (before after : Given) (command : Command) : Invocation where
  config := after.value? .config <|> before.value? .config
  directory := after.value? .directory <|> before.value? .directory
  verbose := before.has .verbose || after.has .verbose
  input := after.value? .input
  command

end Given

/-- What is given in a scope, by arguments that are all read. -/
def readAll (s : Scope) (arguments : List Text) : Except Reply Given := do
  let (items, rest) := s.read arguments
  let given ← Given.ofItems items
  if rest = [] then return given else .error .misuse

/-- The names of the commands. -/
def names : List String := ["tangle", "tree", "config", "help"]

/-- Reads the arguments after the name of a command. -/
def readCommand (before : Given) (name : String) (arguments : List Text) :
    Except Reply Invocation := do
  match name with
  | "tangle" =>
    let g ← readAll .ofTangle arguments
    return before.invoke g
      (.tangle (g.value? .output) (g.has .dryRun) (g.has .naked) g.words)
  | "tree" =>
    let g ← readAll .ofTree arguments
    return before.invoke g (.tree (g.has .json))
  | "config" => return before.invoke (← readAll .ofConfig arguments) .config
  | "help" =>
    match arguments with
    | [] => .error .help
    | [other] => .error (if String.ofList other ∈ names then .help else .misuse)
    | _ => .error .misuse
  | _ => .error .misuse

/-- Reads the arguments of the program. -/
def parse (arguments : List Text) : Except Reply Invocation := do
  let (items, rest) := Scope.ofAll.read arguments
  let before ← Given.ofItems items
  match rest with
  | [] => .error .misuse
  | name :: more => readCommand before (String.ofList name) more

end Command

end Tangle
