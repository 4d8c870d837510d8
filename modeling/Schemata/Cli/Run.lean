import Schemata.Cli.Arguments
import Schemata.Cli.Files
import Schemata.Config.File
import Schemata.Report.Inspection
import Schemata.Report.Output

/-! # Commands

What the commands do, given their surroundings.  A failure is a cause, and `Failure.message` puts it
into words. -/

namespace Schemata.Cli

open Schemata.Report Schemata.Sql

/-! ### Failures -/

/-- Why a command fails. -/
inductive Failure
  | usage (error : UsageError)
  | unsupported (choice : UnsupportedChoice)
  | script (dialect : Dialect) (error : ParseError)
  | configNotFound (path : String)
  | configUnreadable (path : String) (fault : FileFault)
  | configInvalid (path : String)
  | configFault (fault : ConfigFault)
  | configExists (path : String)
  | configNotWritten (path : String) (fault : FileFault)
  | directoryNotMade (path : String) (fault : FileFault)
  | inputUnreadable (path : String) (fault : FileFault)
deriving DecidableEq, Repr

/-- The message on a script that cannot be read. -/
def scriptMessage (dialect : Dialect) (error : ParseError) : String :=
  "Failed to parse " ++ dialect.name ++ " DDL: " ++ error.message

/-- A message on a file. -/
def fileMessage (what path : String) (fault : FileFault) : String :=
  what ++ ": " ++ quotedPath path ++ ": " ++ fault.message

/-- A message on the loading of the configuration. -/
def loadingMessage (text : String) : String := "Failed to load configuration: " ++ text

/-- The words for a failure. -/
def Failure.message : Failure → String
  | usage error => error.name
  | unsupported choice => choice.message
  | script dialect error => scriptMessage dialect error
  | configNotFound path => loadingMessage ("Config file not found: " ++ quotedPath path)
  | configUnreadable path fault =>
    loadingMessage (fileMessage "Failed to read config file" path fault)
  | configInvalid path =>
    loadingMessage
      ("Invalid config file: " ++ quotedPath path ++ ": " ++ Config.unreadableMessage)
  | configFault fault => loadingMessage fault.message
  | configExists path =>
    "Config file already exists: " ++ quotedPath path ++ ". Use --force option to overwrite it."
  | configNotWritten path fault => fileMessage "Failed to write config file" path fault
  | directoryNotMade path fault => fileMessage "Failed to create directory" path fault
  | inputUnreadable path fault => fileMessage "Failed to read input file" path fault

/-! ### Surroundings -/

/-- What a command prints. -/
structure Printed where
  output : String
  warnings : String := ""
deriving DecidableEq, Repr

section

variable {m : Type → Type} [Monad m] (host : Host m)

/-- A result whose error is a failure. -/
def orFail {ε α : Type} (failure : ε → Failure) (result : Except ε α) : ExceptT Failure m α :=
  ExceptT.mk (pure (result.mapError failure))

/-- A step of the surroundings whose fault is a failure. -/
def stepOrFail {α : Type} (failure : FileFault → Failure) (step : m (Except FileFault α)) :
    ExceptT Failure m α :=
  ExceptT.mk ((·.mapError failure) <$> step)

/-- The name of the configuration file that is read if none is given. -/
def defaultConfigName : String := ".tabula.yaml"

/-- The path of the configuration file. -/
def configPath (given : Option String) : String :=
  joinPath host.directory (given.getD defaultConfigName)

/-- The configuration in a file. -/
def readConfig (path : String) : ExceptT Failure m Config := do
  let text ← stepOrFail (.configUnreadable path) (host.read path)
  match Config.ofYaml text with
  | none => throw (.configInvalid path)
  | some config =>
    match config.fault? with
    | some fault => throw (.configFault fault)
    | none => pure config

/-- The configuration for a command.  Only a file that is asked for has to exist. -/
def loadConfig (given : Option String) : ExceptT Failure m Config := do
  let path := configPath host given
  if ← host.exists? path then readConfig host path
  else if given.isSome then throw (.configNotFound path)
  else pure {}

/-- The script that a command reads: a file, or the standard input. -/
def readScript (file : Option String) : ExceptT Failure m String :=
  match file with
  | some path =>
    if isInputPath path then host.input
    else
      let full := joinPath host.directory path
      stepOrFail (.inputUnreadable full) (host.read full)
  | none => host.input

end

/-! ### Choices -/

/-- The dialect of a name, or the one of the configuration. -/
def chosenDialect (config : Config) : Option String → Except UnsupportedChoice Dialect
  | some name => Dialect.ofName name
  | none => .ok config.sourceDialect

/-- The target of a name, or the one of the configuration. -/
def chosenTarget (config : Config) : Option String → Except UnsupportedChoice Target
  | some name => Target.ofName name
  | none => .ok config.target

/-- The direction between two dialects, the second of which may be left out. -/
def chosenDirection (config : Config) (source target : Option String) :
    Except UnsupportedChoice Direction := do
  let source ← chosenDialect config source
  let target ←
    match target with
    | some name => Dialect.ofName name
    | none => .ok source.other
  Direction.between source target

/-- The options of a conversion. -/
def chosenDdlOptions (config : Config) (tableOptions commentStatements : Option Bool) :
    Ddl.Options where
  tableOptions := tableOptions.getD config.ddl.tableOptions
  commentStatements := commentStatements.getD config.ddl.commentStatements

/-! ### Printing -/

/-- What is printed for written tables.  A document holds the warnings itself. -/
def printed (format : Format) (paint : Paint) (text : String) (json : Json)
    (outputs : List Output) : Printed :=
  match format with
  | .text => ⟨text, String.join (outputs.map (Output.warningsText paint))⟩
  | .json => ⟨json.pretty, ""⟩

/-! ### Commands -/

section

variable {m : Type → Type} [Monad m] (host : Host m)

/-- Writes the configuration file with the usual settings. -/
def runInit (given : Option String) (force : Bool) : ExceptT Failure m Printed := do
  let path := configPath host given
  if (← host.exists? path) && !force then throw (.configExists path)
  let parent := parentPath path
  stepOrFail (.directoryNotMade parent) (host.makeDirectory parent)
  stepOrFail (.configNotWritten path) (host.write path (Config.toYaml {}))
  pure { output := "Created config file: " ++ path }

/-- Runs a command. -/
def run (colors : Bool) (invocation : Invocation) : ExceptT Failure m Printed := do
  let paint : Paint := ⟨colors && !invocation.noColor⟩
  match invocation.action with
  | .init force => runInit host invocation.config force
  | .convert source target file tableOptions commentStatements =>
    let config ← loadConfig host invocation.config
    let direction ← orFail .unsupported (chosenDirection config source target)
    let script ← readScript host file
    let options := chosenDdlOptions config tableOptions commentStatements
    let report ←
      orFail (.script direction.source) (ConversionReport.ofScript direction options script)
    pure (printed invocation.format paint report.text report.json report.outputs)
  | .entity dialect target file overrides =>
    let config ← loadConfig host invocation.config
    let dialect ← orFail .unsupported (chosenDialect config dialect)
    let target ← orFail .unsupported (chosenTarget config target)
    let options := config.entity.override overrides
    let script ← readScript host file
    let report ← orFail (.script dialect) (EntityReport.ofScript dialect target options script)
    pure (printed invocation.format paint report.text report.json report.outputs)
  | .inspect dialect file =>
    let config ← loadConfig host invocation.config
    let dialect ← orFail .unsupported (chosenDialect config dialect)
    let script ← readScript host file
    let tables ← orFail (.script dialect) (parseAll dialect script)
    pure (printed invocation.format paint (summaries paint tables) (tablesJson tables) [])

/-- Runs a command line. -/
def runArguments (colors : Bool) (arguments : List String) : ExceptT Failure m Printed := do
  let invocation ← orFail .usage (Invocation.ofArguments arguments)
  run host colors invocation

end

end Schemata.Cli
