import Schemata.Entity.Options

/-! # Command lines

A command line is a list of arguments: options before or after the name of a command, and at most
one file.  `Invocation.ofArguments` reads it.  The general options may stand on either side of the
command; the one behind the command wins. -/

namespace Schemata.Cli

/-! ### Options -/

/-- What the program is told to do. -/
inductive Command
  | init
  | convert
  | entity
  | inspect
deriving DecidableEq, Repr

/-- An argument that takes a value. -/
inductive Setting
  | config
  | format
  | fromDialect
  | toDialect
  | dialect
  | target
  | package
  | file
deriving DecidableEq, Repr

/-- What can be turned on and off. -/
inductive Toggle
  | tableOptions
  | commentOn
  | packageLines
  | jsonTag
  | tableName
  | getterSetter
  | camelCase
  | nullablePointers
deriving DecidableEq, Repr

/-- An argument without a value. -/
inductive Flag
  | verbose
  | noColor
  | force
  | on (toggle : Toggle)
  | off (toggle : Toggle)
deriving DecidableEq, Repr

/-- What an option stands for. -/
inductive Meaning
  | setting (s : Setting)
  | flag (f : Flag)
  | help
  | version
deriving DecidableEq, Repr

/-- The commands by name. -/
def commands : List (String × Command) :=
  [("init", .init), ("convert", .convert), ("entity", .entity), ("inspect", .inspect)]

/-- The word that asks for help. -/
def helpWord : String := "help"

/-- The two options of a toggle. -/
def toggleOptions (name : String) (toggle : Toggle) : List (String × Meaning) :=
  [(name, .flag (.on toggle)), ("no-" ++ name, .flag (.off toggle))]

/-- The options that every command takes. -/
def generalOptions : List (String × Meaning) :=
  [("config", .setting .config), ("verbose", .flag .verbose), ("no-color", .flag .noColor),
    ("format", .setting .format), ("help", .help), ("version", .version)]

/-- The options of a command. -/
def commandOptions : Command → List (String × Meaning)
  | .init => [("force", .flag .force)]
  | .convert =>
    [("from", .setting .fromDialect), ("to", .setting .toDialect)] ++
      toggleOptions "table-options" .tableOptions ++ toggleOptions "comment-on" .commentOn
  | .entity =>
    [("dialect", .setting .dialect), ("target", .setting .target), ("package", .setting .package)] ++
      toggleOptions "package-lines" .packageLines ++ toggleOptions "json-tag" .jsonTag ++
      toggleOptions "table-name" .tableName ++ toggleOptions "getter-setter" .getterSetter ++
      toggleOptions "camel-case" .camelCase ++ toggleOptions "nullable-pointers" .nullablePointers
  | .inspect => [("dialect", .setting .dialect)]

/-- The options by name, before a command or behind it. -/
def options : Option Command → List (String × Meaning)
  | none => generalOptions
  | some c => generalOptions ++ commandOptions c

/-- The letters that every command takes. -/
def generalLetters : List (Char × Meaning) :=
  [('c', .setting .config), ('v', .flag .verbose), ('h', .help), ('V', .version)]

/-- The letters of a command. -/
def commandLetters : Command → List (Char × Meaning)
  | .init => [('f', .flag .force)]
  | .convert => []
  | .entity => [('d', .setting .dialect), ('t', .setting .target)]
  | .inspect => [('d', .setting .dialect)]

/-- The options by letter, before a command or behind it. -/
def letters : Option Command → List (Char × Meaning)
  | none => generalLetters
  | some c => generalLetters ++ commandLetters c

/-- Whether a file may be given. -/
def takesFile : Option Command → Bool
  | none | some .init => false
  | _ => true

/-! ### Formats -/

/-- How a report is printed. -/
inductive Format
  | text
  | json
deriving DecidableEq, Repr

/-- The formats by name. -/
def formats : List (String × Format) := [("text", .text), ("json", .json)]

/-! ### Errors -/

/-- Why a command line is not run. -/
inductive UsageError
  | unknownArgument
  | invalidSubcommand
  | invalidValue
  | tooManyValues
  | argumentConflict
  | missingSubcommand
  | displayHelp
  | displayVersion
  | displayHelpOnMissingArgumentOrSubcommand
deriving DecidableEq, Repr

/-- The name of the kind of error. -/
def UsageError.name : UsageError → String
  | unknownArgument => "UnknownArgument"
  | invalidSubcommand => "InvalidSubcommand"
  | invalidValue => "InvalidValue"
  | tooManyValues => "TooManyValues"
  | argumentConflict => "ArgumentConflict"
  | missingSubcommand => "MissingSubcommand"
  | displayHelp => "DisplayHelp"
  | displayVersion => "DisplayVersion"
  | displayHelpOnMissingArgumentOrSubcommand => "DisplayHelpOnMissingArgumentOrSubcommand"

/-! ### Reading arguments -/

/-- The arguments read so far.  A value is checked when the next option or the end comes, so that the
last setting may be pending, with its value or still without. -/
structure Matches where
  settings : List (Setting × String) := []
  flags : List Flag := []
  pending : Option (Setting × Option String) := none
  /-- All further arguments are files. -/
  onlyFiles : Bool := false
  /-- A file has been given. -/
  hasFile : Bool := false
deriving DecidableEq, Repr

namespace Matches

/-- Whether the next argument is the value of a setting. -/
def awaitsValue (m : Matches) : Bool :=
  match m.pending with
  | some (_, none) => true
  | _ => false

/-- Whether nothing has been given. -/
def isEmpty (m : Matches) : Bool := m.settings.isEmpty && m.flags.isEmpty

/-- Whether a setting takes a value.  A format has to be known, and a path is not empty. -/
def accepts (s : Setting) (value : String) : Bool :=
  match s with
  | .format => (formats.lookup value).isSome
  | .config | .file => !value.isEmpty
  | _ => true

/-- Checks the pending setting. -/
def settle (m : Matches) : Except UsageError Matches :=
  match m.pending with
  | none => .ok m
  | some (_, none) => .error .invalidValue
  | some (s, some value) =>
    if (m.settings.lookup s).isSome then .error .argumentConflict
    else if accepts s value then
      .ok { m with settings := (s, value) :: m.settings, pending := none }
    else .error .invalidValue

/-- The flag that a flag takes the place of. -/
def opposite : Flag → Option Flag
  | .on toggle => some (.off toggle)
  | .off toggle => some (.on toggle)
  | _ => none

/-- Adds a flag, which must not be there already. -/
def addFlag (m : Matches) (f : Flag) : Except UsageError Matches :=
  m.settle.bind fun m =>
    if m.flags.contains f then .error .argumentConflict
    else .ok { m with flags := f :: m.flags.filter (some · != opposite f) }

/-- Adds an option without a value. -/
def addPlain (m : Matches) : Meaning → Except UsageError Matches
  | .setting s => m.settle.map ({ · with pending := some (s, none) })
  | .flag f => m.addFlag f
  | .help => m.settle.bind fun _ => .error .displayHelp
  | .version => m.settle.bind fun _ => .error .displayVersion

/-- Adds an option with a value attached to it, which only a setting takes. -/
def addAttached (m : Matches) (o : Meaning) (value : String) : Except UsageError Matches :=
  match o with
  | .setting s =>
    m.settle.bind fun m => { m with pending := some (s, some value) }.settle
  | _ => .error .tooManyValues

/-- Adds an option that is given by its name, and its value if one is attached. -/
def addNamed (context : Option Command) (m : Matches) (name : String) (value : Option String) :
    Except UsageError Matches :=
  match (options context).lookup name, value with
  | none, _ => .error .unknownArgument
  | some o, none => m.addPlain o
  | some o, some value => m.addAttached o value

/-- Adds options that are given by their letters.  What follows the letter of a setting is its
value, perhaps after an equals sign. -/
def addLetters (context : Option Command) (m : Matches) : List Char → Except UsageError Matches
  | [] => .ok m
  | c :: r =>
    match (letters context).lookup c with
    | none => .error .unknownArgument
    | some (.setting s) =>
      match r with
      | [] => m.addPlain (.setting s)
      | '=' :: value => m.addAttached (.setting s) (String.ofList value)
      | value => m.addAttached (.setting s) (String.ofList value)
    | some o => (m.addPlain o).bind (addLetters context · r)

/-- Adds an argument that is no option. -/
def addFile (context : Option Command) (m : Matches) (path : String) : Except UsageError Matches :=
  if takesFile context && !m.hasFile then
    m.settle.map ({ · with pending := some (.file, some path), hasFile := true })
  else .error .unknownArgument

/-- Gives the pending setting its value. -/
def addValue (m : Matches) (value : String) : Matches :=
  { m with pending := m.pending.map fun (s, _) => (s, some value) }

/-- Adds an argument. -/
def add (context : Option Command) (m : Matches) (argument : String) : Except UsageError Matches :=
  if m.onlyFiles then m.addFile context argument
  else
    match argument.toList with
    | ['-', '-'] => .ok { m with onlyFiles := true }
    | '-' :: '-' :: name =>
      match name.dropWhile (· ≠ '=') with
      | [] => m.addNamed context (String.ofList name) none
      | _ :: value =>
        m.addNamed context (String.ofList (name.takeWhile (· ≠ '='))) (some (String.ofList value))
    | '-' :: c :: r => m.addLetters context (c :: r)
    | _ => if m.awaitsValue then .ok (m.addValue argument) else m.addFile context argument

/-- Adds all arguments and checks the last. -/
def addAll (context : Option Command) (m : Matches) (arguments : List String) :
    Except UsageError Matches :=
  (arguments.foldlM (Matches.add context) m).bind settle

/-- The value of a setting. -/
def value? (m : Matches) (s : Setting) : Option String := m.settings.lookup s

/-- Whether a flag is given. -/
def has (m : Matches) (f : Flag) : Bool := m.flags.contains f

end Matches

/-! ### Invocations -/

/-- What a pair of opposite flags asks for. -/
def choice (on off : Bool) : Option Bool :=
  if on then some true else if off then some false else none

/-- What a command is told. -/
inductive Action
  | init (force : Bool)
  | convert (source target file : Option String) (tableOptions commentStatements : Option Bool)
  | entity (dialect target file : Option String) (overrides : Entity.Overrides)
  | inspect (dialect file : Option String)
deriving DecidableEq, Repr

/-- A command with all that it is told. -/
structure Invocation where
  action : Action
  config : Option String := none
  verbose : Bool := false
  noColor : Bool := false
  format : Format := .text
deriving DecidableEq, Repr

/-- What a command is told by the arguments behind it. -/
def Action.ofMatches (command : Command) (m : Matches) : Action :=
  let chosen := fun toggle => choice (m.has (.on toggle)) (m.has (.off toggle))
  match command with
  | .init => .init (m.has .force)
  | .convert =>
    .convert (m.value? .fromDialect) (m.value? .toDialect) (m.value? .file)
      (chosen .tableOptions) (chosen .commentOn)
  | .entity =>
    .entity (m.value? .dialect) (m.value? .target) (m.value? .file)
      { packageName := m.value? .package
        packageLines := chosen .packageLines
        jsonTag := chosen .jsonTag
        tableName := chosen .tableName
        getterSetter := chosen .getterSetter
        camelCase := chosen .camelCase
        nullablePointers := chosen .nullablePointers }
  | .inspect => .inspect (m.value? .dialect) (m.value? .file)

/-- An invocation by the arguments before the command and behind it. -/
def Invocation.ofMatches (command : Command) (before behind : Matches) : Invocation where
  action := .ofMatches command behind
  config := behind.value? .config <|> before.value? .config
  verbose := behind.has .verbose || before.has .verbose
  noColor := behind.has .noColor || before.has .noColor
  format :=
    ((behind.value? .format <|> before.value? .format).bind fun name => formats.lookup name).getD
      .text

/-- The error of a request for help on a command, or on one that does not exist. -/
def helpOn : List String → UsageError
  | [] => .displayHelp
  | [name] =>
    if (commands.lookup name).isSome || name == helpWord then .displayHelp else .invalidSubcommand
  | _ => .invalidSubcommand

/-- The invocation that a command line asks for, given what stands before. -/
def Invocation.ofArgumentsFrom (before : Matches) : List String → Except UsageError Invocation
  | [] =>
    before.settle.bind fun m =>
      .error (if m.isEmpty then .displayHelpOnMissingArgumentOrSubcommand else .missingSubcommand)
  | argument :: rest =>
    let isHelp := argument == helpWord
    let command := commands.lookup argument
    if before.onlyFiles then
      .error (if isHelp || command.isSome then .unknownArgument else .invalidSubcommand)
    else if before.awaitsValue || !(isHelp || command.isSome) then
      match before.add none argument with
      | .error .unknownArgument =>
        .error (if argument.toList.head? = some '-' ∧ argument ≠ "-" then .unknownArgument
          else .invalidSubcommand)
      | .error e => .error e
      | .ok m => ofArgumentsFrom m rest
    else
      match command with
      | none => .error (helpOn rest)
      | some command =>
        match Matches.addAll (some command) {} rest with
        | .error e => .error e
        | .ok behind => before.settle.map (Invocation.ofMatches command · behind)

/-- The invocation that a command line asks for. -/
def Invocation.ofArguments (arguments : List String) : Except UsageError Invocation :=
  ofArgumentsFrom {} arguments

end Schemata.Cli
