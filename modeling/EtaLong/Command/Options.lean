/-
**The command line.**

The command takes one file and options. An option may be shortened as long as only one option
starts that way, and its value may stand in the next argument or behind an equals sign. After two
dashes alone every argument is a plain one. The help option ends parsing at once; every other
mistake refuses the whole command line.

* `Command.classify`: what a single argument is;
* `Command.parse`: the options of a command line.
-/

import EtaLong.Command.Settings
import EtaLong.Text.Integer

namespace EtaLong.Command

/-- The options that the command knows. -/
inductive Flag where
  | help
  | noColor
  | noTypes
  | logLevel
  | recursionLimit
deriving DecidableEq

namespace Flag

/-- The spellings of the options; help has a short spelling beside. -/
def spellings : List (String × Flag) :=
  [("--help", help), ("--no-color", noColor), ("--no-types", noTypes), ("--log-level", logLevel),
    ("--recursion-limit", recursionLimit)]

/-- Whether an option takes a value. -/
def takesValue : Flag → Bool
  | logLevel => true
  | recursionLimit => true
  | _ => false

end Flag

/-- Why a command line gives no options. -/
inductive Stop where
  | help
  | invalid
deriving DecidableEq

/-- The exit status of a command that stops. -/
def Stop.code : Stop → Nat
  | .help => 0
  | .invalid => 2

/-- What a single argument is. -/
inductive Arg where
  /-- A plain argument. -/
  | plain (text : String)
  /-- An option, with the value that is attached to it. -/
  | option (flag : Flag) (attached : Option String)
  /-- The short help option with the letters behind it. -/
  | shortHelp (letters : List Char)
  /-- An argument that looks like an option that the command does not know. -/
  | unknown
  /-- Two dashes alone. -/
  | separator
deriving DecidableEq

/-- A text before its first equals sign, and the value behind that sign. -/
def splitValue (text : List Char) : List Char × Option String :=
  let name := text.takeWhile (· != '=')
  match text.drop name.length with
  | [] => (name, none)
  | _ :: value => (name, some (String.ofList value))

/-- The options that start with a text. -/
def startingWith (start : List Char) : List Flag :=
  (Flag.spellings.filter fun entry => start.isPrefixOf entry.1.toList).map Prod.snd

/-- The number of digits at the front, and what follows them. -/
def spanDigits (text : List Char) : Nat × List Char :=
  ((text.takeWhile Text.isDigit).length, text.dropWhile Text.isDigit)

/-- Whether digits and what follows them are a number to its end; a line break may end the text. -/
def endsNumber : Nat × List Char → Bool
  | (count, []) => 0 < count
  | (count, ['\n']) => 0 < count
  | _ => false

/-- Whether what follows a dash makes the argument a negative number. -/
def isNumber (text : List Char) : Bool :=
  match spanDigits text with
  | (_, '.' :: decimals) => endsNumber (spanDigits decimals)
  | whole => endsNumber whole

/-- What an argument with a dash at its front is, if it is no option. -/
def classifyOther (text : List Char) : Arg :=
  if isNumber (text.drop 1) || text.contains ' ' then .plain (String.ofList text) else .unknown

/-- What an argument is, unless it could be several options. -/
def classify (argument : String) : Except Stop Arg :=
  match argument.toList with
  | ['-'] => .ok (.plain argument)
  | ['-', '-'] => .ok .separator
  | '-' :: 'h' :: letters => .ok (.shortHelp letters)
  | '-' :: '-' :: rest =>
    let (name, value) := splitValue ('-' :: '-' :: rest)
    match Flag.spellings.lookup (String.ofList name), startingWith name with
    | some flag, _ => .ok (.option flag value)
    | none, [] => .ok (classifyOther argument.toList)
    | none, [flag] => .ok (.option flag value)
    | none, _ => .error .invalid
  | '-' :: _ => .ok (classifyOther argument.toList)
  | _ => .ok (.plain argument)

/-- What the arguments of a command line are; behind the separator all are plain. -/
def classifyAll : List String → Except Stop (List Arg)
  | [] => .ok []
  | argument :: arguments => do
    match ← classify argument with
    | .separator => return .separator :: arguments.map .plain
    | found => return found :: (← classifyAll arguments)

/-- A command line as far as it is read: the file, if it has come, what the options choose, and
whether there was an argument too many. -/
structure Draft where
  file : Option String := none
  choices : Choices := {}
  surplus : Bool := false

namespace Draft

/-- The options after one that takes no value. -/
def switch (draft : Draft) : Flag → Except Stop Draft
  | .help => .error .help
  | .noColor => .ok { draft with choices := { draft.choices with noColor := true } }
  | .noTypes => .ok { draft with choices := { draft.choices with noTypes := true } }
  | _ => .error .invalid

/-- The options after one with its value; two dashes alone stand for no value. -/
def assign (draft : Draft) (value : String) : Flag → Except Stop Draft
  | .logLevel =>
    let name := if value = "--" then none else some value
    .ok { draft with choices := { draft.choices with logLevel := name } }
  | .recursionLimit =>
    if value = "--" then
      .ok { draft with choices := { draft.choices with recursionLimit := none } }
    else match Text.integer? value with
      | some limit =>
        .ok { draft with choices := { draft.choices with recursionLimit := some limit } }
      | none => .error .invalid
  | _ => .error .invalid

/-- The short help option with the letters behind it: it gives help if it is only repeated, where
an equals sign may stand before the repetitions. -/
def shortHelp (letters : List Char) : Stop :=
  let repeated := match letters with
    | '=' :: first :: more => first :: more
    | other => other
  if repeated.all (· == 'h') then .help else .invalid

/-- The options that were read, if there is a file and no argument too many. -/
def finish (draft : Draft) : Except Stop Options :=
  match draft.file with
  | some file =>
    if draft.surplus then .error .invalid else .ok { draft.choices with file := file }
  | none => .error .invalid

end Draft

/-- The options after the remaining arguments. -/
def parseArgs (draft : Draft) : List Arg → Except Stop Options
  | [] => draft.finish
  | .unknown :: args => parseArgs { draft with surplus := true } args
  | .shortHelp letters :: _ => .error (Draft.shortHelp letters)
  | .option flag (some value) :: args => do parseArgs (← draft.assign value flag) args
  | .option flag none :: args =>
    if flag.takesValue then
      match args with
      | .plain value :: args => do parseArgs (← draft.assign value flag) args
      | _ => .error .invalid
    else do parseArgs (← draft.switch flag) args
  | .plain text :: args =>
    if draft.file.isSome then parseArgs { draft with surplus := true } args
    else match args with
      | .separator :: args => parseArgs { draft with file := some text } args
      | args => parseArgs { draft with file := some text } args
  | .separator :: args =>
    match draft.file, args with
    | none, .plain text :: args => parseArgs { draft with file := some text } args
    | _, args => parseArgs { draft with surplus := true } args

/-- The options of a command line. -/
def parse (arguments : List String) : Except Stop Options := do
  parseArgs {} (← classifyAll arguments)

end EtaLong.Command
