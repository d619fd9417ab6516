import TableVault.Text.Pieces

namespace TableVault.CommandLine

/-!
# Command line arguments

* `Invocation` — what a command line asks for;
* `Request.ofArguments` — a command line is a list of options, the name of a command,
  and the options and operands of that command. Global options may stand on either
  side of the name; of two values the one after it counts.

Options are read from left to right, and the first thing that is wrong or that asks for
help or for the version decides. An option that takes a value takes the rest of its
own argument, or else the next argument, unless that one looks like an option. No
option may be repeated on one side. After a double dash everything is an operand.

A value that is an argument of its own is accepted only when the next option or operand
of its side comes, or when the side ends. The side in front ends after that of the
command, so a request for help there comes before the last value in front.
-/

/-- A command with its options and operands. -/
inductive Command where
  | tables (path : Option String) (format : String)
  | keys (table : String) (path : Option String) (format : String)
  | namespaces (path : Option String) (all : Bool) (format : String)
  | cryptReset (confirmed : Bool)
  | version
  deriving DecidableEq, Repr

/-- A command and the database that it is for. -/
structure Invocation where
  file : Option String
  padlock : String
  command : Command
  deriving DecidableEq, Repr

/-- What a command line asks for. -/
inductive Request where
  | run (i : Invocation)
  | help
  | version
  | misuse
  deriving DecidableEq, Repr

/-! ### Options -/

/-- What follows an option. -/
inductive Arity where
  /-- Nothing. -/
  | switch
  /-- A value, which may be empty. -/
  | value
  /-- A value that is not empty. -/
  | nonEmpty
  /-- Nothing, and the command line asks for help. -/
  | help
  /-- Nothing, and the command line asks for the version. -/
  | version
  deriving DecidableEq, Repr

/-- An option, by its long and its short name. -/
structure OptionSpec where
  name : String
  short : Option Char
  arity : Arity
  deriving DecidableEq, Repr

/-- The options that may stand on either side of the command. -/
def globalOptions : List OptionSpec :=
  [⟨"path", some 'p', .nonEmpty⟩, ⟨"padlock", none, .value⟩, ⟨"verbose", some 'v', .switch⟩,
    ⟨"help", some 'h', .help⟩]

/-- The options in front of the command. -/
def rootOptions : List OptionSpec :=
  globalOptions ++ [⟨"version", some 'V', .version⟩]

/-- The option that names a namespace. -/
def namespaceOption : OptionSpec := ⟨"namespace", some 'n', .value⟩

/-- The option that names an output format. -/
def formatOption : OptionSpec := ⟨"format", some 'f', .value⟩

/-- The option that asks for every nested table. -/
def allOption : OptionSpec := ⟨"all", some 'a', .switch⟩

/-- The option that confirms a deletion. -/
def yesOption : OptionSpec := ⟨"yes", none, .switch⟩

/-! ### One side of a command line -/

/-- The options and operands that one side has brought so far, and the option whose value,
    an argument of its own, waits to be accepted. -/
structure Side where
  options : List (String × String) := []
  waiting : Option (OptionSpec × String) := none
  operands : List String := []

namespace Side

/-- The value of an option. -/
def value? (s : Side) (name : String) : Option String :=
  s.options.lookup name

/-- Whether an option has come. -/
def has (s : Side) (name : String) : Bool :=
  (s.value? name).isSome

/-- Accepts an option with its value, unless it has come before or must not be empty. -/
def accept? (s : Side) (spec : OptionSpec) (value : String) : Option Side :=
  if s.has spec.name then none
  else if spec.arity = .nonEmpty ∧ value = "" then none
  else some { s with options := (spec.name, value) :: s.options }

/-- Accepts the option that waits, if there is one. -/
def settle? (s : Side) : Option Side :=
  match s.waiting with
  | none => some s
  | some (spec, value) => { s with waiting := none }.accept? spec value

end Side

/-- What the options of one argument lead to. -/
inductive Step where
  | go (side : Side) (rest : List String)
  | stop (request : Request)

/-- Adds an option whose value is at hand. -/
def addOption (side : Side) (spec : OptionSpec) (value : String) (rest : List String) : Step :=
  match side.settle?.bind fun s => s.accept? spec value with
  | some side => .go side rest
  | none => .stop .misuse

/-- Ends with a request that an option makes. -/
def ask (side : Side) (request : Request) : Step :=
  if side.settle?.isSome then .stop request else .stop .misuse

/-- Whether an argument can be the value of an option in front of it. -/
def isValue (argument : String) : Bool :=
  argument == "-" || argument.toList.head? != some '-'

/-- Lets an option wait whose value is the next argument. -/
def takeNext (side : Side) (spec : OptionSpec) : List String → Step
  | [] => .stop .misuse
  | value :: rest =>
    match side.settle? with
    | none => .stop .misuse
    | some side =>
      if isValue value then .go { side with waiting := some (spec, value) } rest
      else .stop .misuse

/-- A long option, without its dashes, and what follows its equals sign. -/
def longOption (specs : List OptionSpec) (side : Side) (text : List Char) (rest : List String) :
    Step :=
  let name := String.ofList (text.takeWhile (· ≠ '='))
  match specs.find? (·.name == name), text.dropWhile (· ≠ '=') with
  | none, _ => .stop .misuse
  | some spec, [] =>
    match spec.arity with
    | .help => ask side .help
    | .version => ask side .version
    | .switch => addOption side spec "" rest
    | .value => takeNext side spec rest
    | .nonEmpty => takeNext side spec rest
  | some spec, _ :: value =>
    match spec.arity with
    | .value => addOption side spec (String.ofList value) rest
    | .nonEmpty => addOption side spec (String.ofList value) rest
    | _ => .stop .misuse

/-- The value of a short option that takes the rest of its argument. -/
def attached : List Char → List Char
  | '=' :: value => value
  | value => value

/-- The short options of one argument, without its dash. -/
def shortOptions (specs : List OptionSpec) (side : Side) : List Char → List String → Step
  | [], rest => .go side rest
  | c :: cs, rest =>
    match specs.find? (·.short == some c) with
    | none => .stop .misuse
    | some spec =>
      match spec.arity with
      | .help => ask side .help
      | .version => ask side .version
      | .switch =>
        match addOption side spec "" rest with
        | .go side rest => shortOptions specs side cs rest
        | .stop r => .stop r
      | _ =>
        if cs = [] then takeNext side spec rest
        else addOption side spec (String.ofList (attached cs)) rest

/-- An argument that starts an option, read as such. -/
def readOption (specs : List OptionSpec) (side : Side) (argument : String) (rest : List String) :
    Step :=
  match argument.toList with
  | '-' :: '-' :: text => longOption specs side text rest
  | '-' :: text => shortOptions specs side text rest
  | _ => .stop .misuse

/-! ### The side of a command -/

/-- A side that has come to its end. -/
def finish (side : Side) : Except Request Side :=
  match side.settle? with
  | some side => .ok side
  | none => .error .misuse

/-- Reads the arguments after the name of a command that has at most `limit` operands.
    Every step uses up an argument, which bounds the number of steps. -/
def readSide (specs : List OptionSpec) (limit : Nat) :
    (fuel : Nat) → Side → List String → Except Request Side
  | 0, side, _ => finish side
  | _ + 1, side, [] => finish side
  | fuel + 1, side, argument :: rest =>
    if argument = "--" then
      let operands := side.operands ++ rest
      if limit < operands.length then .error .misuse else finish { side with operands }
    else if isValue argument then do
      let side ← finish side
      if side.operands.length < limit then
        readSide specs limit fuel { side with operands := side.operands ++ [argument] } rest
      else throw .misuse
    else
      match readOption specs side argument rest with
      | .go side rest => readSide specs limit fuel side rest
      | .stop r => .error r

/-- The kinds of commands. -/
inductive CommandName where
  | tables
  | keys
  | namespaces
  | cryptReset
  | version
  deriving DecidableEq, Repr

namespace CommandName

/-- The command of a name. -/
def ofString? (name : String) : Option CommandName :=
  if name = "tables" then some tables
  else if name = "keys" then some keys
  else if name = "namespaces" then some namespaces
  else if name = "crypt-reset" then some cryptReset
  else if name = "version" then some version
  else none

/-- The options of a command. -/
def options : CommandName → List OptionSpec
  | tables => globalOptions ++ [namespaceOption, formatOption]
  | keys => globalOptions ++ [namespaceOption, formatOption]
  | namespaces => globalOptions ++ [namespaceOption, allOption, formatOption]
  | cryptReset => globalOptions ++ [yesOption]
  | version => globalOptions

/-- The number of operands of a command. -/
def operands : CommandName → Nat
  | keys => 1
  | _ => 0

/-- The output format that a side asks for. -/
def format (side : Side) : String :=
  (side.value? formatOption.name).getD "text"

/-- The command of a side, if all its operands have come. -/
def command? (name : CommandName) (side : Side) : Option Command :=
  let path := side.value? namespaceOption.name
  match name, side.operands with
  | tables, _ => some (.tables path (format side))
  | keys, [table] => some (.keys table path (format side))
  | keys, _ => none
  | namespaces, _ => some (.namespaces path (side.has allOption.name) (format side))
  | cryptReset, _ => some (.cryptReset (side.has yesOption.name))
  | version, _ => some .version

end CommandName

/-- The invocation of a command, given both sides. -/
def invocation (front side : Side) (command : Command) : Invocation :=
  ⟨(side.value? "path").or (front.value? "path"),
    ((side.value? "padlock").or (front.value? "padlock")).getD "", command⟩

/-- Reads the arguments after the name of a command, given what stood in front of it. -/
def readCommand (front : Side) (name : CommandName) (rest : List String) : Request :=
  match readSide name.options name.operands rest.length {} rest with
  | .error r => r
  | .ok side =>
    match name.command? side, front.settle? with
    | some command, some front => .run (invocation front side command)
    | _, _ => .misuse

/-! ### The side in front -/

/-- What a request for help about some commands leads to: the first name may be that of
    a command or of the request itself, and none of these has commands of its own. -/
def readHelp : List String → Request
  | [] => .help
  | [name] =>
    if (CommandName.ofString? name).isSome ∨ name = "help" then .help else .misuse
  | _ => .misuse

/-- Reads the arguments up to the name of the command, and then the command. Every step
    uses up an argument, which bounds the number of steps. -/
def readFront : (fuel : Nat) → Side → List String → Request
  | 0, _, _ => .misuse
  | _ + 1, _, [] => .misuse
  | fuel + 1, side, argument :: rest =>
    if argument = "--" then .misuse
    else if isValue argument then
      if argument = "help" then readHelp rest
      else
        match CommandName.ofString? argument with
        | some name => readCommand side name rest
        | none => .misuse
    else
      match readOption rootOptions side argument rest with
      | .go side rest => readFront fuel side rest
      | .stop r => r

/-- What a command line asks for. -/
def Request.ofArguments (arguments : List String) : Request :=
  readFront arguments.length {} arguments

end TableVault.CommandLine
