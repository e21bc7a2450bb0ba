/-
**Settings of the command.**

What a run of the command is told: whether errors are coloured, whether types are shown, how much
is logged, and how deep evaluation may recurse. Options of the command line win over the
environment.
-/

import EtaLong.Text.Quoted

namespace EtaLong.Command

/-- How much is logged: messages at the level or above it. -/
inductive Level where
  | notset
  | debug
  | info
  | warning
  | error
  | critical
deriving DecidableEq

namespace Level

/-- The number that orders the levels. -/
def number : Level → Nat
  | notset => 0
  | debug => 10
  | info => 20
  | warning => 30
  | error => 40
  | critical => 50

/-- The names of the levels. -/
def names : List (String × Level) :=
  [("NOTSET", notset), ("DEBUG", debug), ("INFO", info), ("WARNING", warning), ("WARN", warning),
    ("ERROR", error), ("CRITICAL", critical), ("FATAL", critical)]

/-- The upper case of a letter, as far as a level's name can hold it: of the letters outside ASCII
only the dotless i and the long s have a single ASCII letter as their upper case. -/
def upper (c : Char) : Char :=
  if c = 'ı' then 'I' else if c = 'ſ' then 'S' else c.toUpper

/-- The level with a name, in upper or lower case. -/
def ofName? (name : String) : Option Level :=
  names.lookup (String.ofList (name.toList.map upper))

/-- Whether messages of a level are logged. -/
def admits (threshold message : Level) : Bool := threshold.number ≤ message.number

end Level

/-- What the options of a command line choose; there is no recursion limit when the option for it
was given without a number. -/
structure Choices where
  noColor : Bool := false
  noTypes : Bool := false
  logLevel : Option String := none
  recursionLimit : Option Int := some 10000
deriving DecidableEq

/-- A command line: the file to run and what its options choose. -/
structure Options extends Choices where
  file : String
deriving DecidableEq

/-- The variables of the environment. -/
abbrev Environment := List (String × String)

/-- What a run of the command is told. -/
structure Settings where
  color : Bool := true
  showTypes : Bool := true
  logLevel : String := "WARNING"
  level : Level := .warning
  recursionLimit : Int := 10000
deriving DecidableEq

namespace Settings

/-- Why settings are refused. -/
inductive Error where
  | unknownLevel (name : String)
  | recursionLimitTooSmall
  | recursionLimitAbsent
deriving DecidableEq

/-- The wording of a refusal. -/
def Error.message : Error → String
  | .unknownLevel name => "Unknown log level " ++ Text.quoted name
  | .recursionLimitTooSmall => "Recursion limit must be at least 100"
  | .recursionLimitAbsent => "'<' not supported between instances of 'list' and 'int'"

/-- The name of the level to log at: the option unless it is empty, then the environment. -/
def levelName (options : Options) (environment : Environment) : String :=
  match options.logLevel.filter (· ≠ "") with
  | some name => name
  | none => (environment.lookup "STLC_LOG_LEVEL").getD "WARNING"

/-- The settings that options and environment make. -/
def make (options : Options) (environment : Environment) : Except Error Settings :=
  let name := levelName options environment
  match Level.ofName? name, options.recursionLimit with
  | none, _ => .error (.unknownLevel name)
  | some _, none => .error .recursionLimitAbsent
  | some level, some limit =>
    if limit < 100 then .error .recursionLimitTooSmall
    else .ok
      { color := !options.noColor && (environment.lookup "NO_COLOR").isNone
        showTypes := !options.noTypes
        logLevel := name
        level := level
        recursionLimit := limit }

end Settings

end EtaLong.Command
