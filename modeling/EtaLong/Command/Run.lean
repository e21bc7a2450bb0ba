/-
**The command.**

The command runs the program in a file: it prints each result, or the mistake that the program
has. What it logs on the way is a stream of its own, apart from its messages. All of it is a function
of the machine, the arguments, the environment and what reading the file gives.

* `Command.runFile`: what the command prints for a file, and its exit status;
* `Command.run`: the whole command.
-/

import EtaLong.Command.Folder
import EtaLong.Command.Machine
import EtaLong.Command.Options

namespace EtaLong.Command

/-- Lines of text. -/
def lines (texts : List String) : String := String.join (texts.map (· ++ "\n"))

/-- The exit status of the command and what it wrote: results, messages and log, one text for each
that was written. -/
structure Output where
  code : Nat
  out : List String := []
  err : List String := []
  log : List String := []
deriving DecidableEq

/-- The text on the output of the command. -/
def Output.outText (output : Output) : String := lines output.out

/-- The text on the error output of the command: the log goes there too, and nothing is logged after
a message. -/
def Output.errText (output : Output) : String := lines (output.log ++ output.err)

/-- Why the command broke off without saying anything of its own. -/
inductive Abort where
  /-- The recursion limit was given without a number. -/
  | limitAbsent
  /-- The recursion limit does not fit the word that counts calls. -/
  | limitTooLarge
  /-- The path holds a character that no path can hold. -/
  | nullInPath
  /-- The file is not text. -/
  | notText
  /-- A number of the program has too many digits. -/
  | numberTooLong
  /-- Calls nest too deep. -/
  | callsTooDeep
deriving DecidableEq

/-- The wording of why the command broke off. -/
def Abort.message : Abort → String
  | .limitAbsent => Settings.Error.recursionLimitAbsent.message
  | .limitTooLarge => "Python int too large to convert to C int"
  | .nullInPath => "embedded null byte"
  | .notText => "the file is not encoded as UTF-8"
  | .numberTooLong => s!"a number has more than {Text.digitBound} digits"
  | .callsTooDeep => "maximum recursion depth exceeded"

/-- How the command ended. -/
inductive Outcome where
  | finished (output : Output)
  /-- The command line ended the command before it began. -/
  | stopped (stop : Stop)
  /-- The command broke off when it had printed so much; what it had logged is left out. -/
  | aborted (abort : Abort) (printed : List String)
  /-- The program did not finish. -/
  | broken (failure : Program.Failure)

/-- Line breaks of every kind as one. -/
def unifyBreaks : List Char → List Char
  | '\r' :: '\n' :: rest => '\n' :: unifyBreaks rest
  | '\r' :: rest => '\n' :: unifyBreaks rest
  | c :: rest => c :: unifyBreaks rest
  | [] => []

/-- The text of a file. -/
def decode? (content : ByteArray) : Option String :=
  (String.fromUTF8? content).map fun text => String.ofList (unifyBreaks text.toList)

/-- A line of the log, if its level is admitted. -/
def logged (settings : Settings) (level : Level) (levelName logger message : String) :
    List String :=
  if settings.level.admits level then [levelName ++ " " ++ logger ++ ": " ++ message] else []

/-- What is logged when a file is run. -/
def logRunning (settings : Settings) (path : String) : List String :=
  logged settings .info "INFO" "stlc.cli" ("running " ++ path)

/-- What is logged of a program. -/
def logProgram (settings : Settings) (message : String) : List String :=
  logged settings .debug "DEBUG" "stlc.elab.program" message

/-- What is logged of an entry. -/
def logEntry (settings : Settings) (entry : Program.Entry) : List String :=
  logProgram settings
    ("elaborated " ++ entry.name.getD "expression" ++ " : " ++ entry.ty.text)

/-- What is logged while a program is run: each entry that is accepted, then how many have normal
forms, if all have. -/
def logRun (settings : Settings) (source : String)
    (results : Except Program.Failure (List Program.Result)) : List String :=
  match Program.parse source with
  | .error _ => []
  | .ok decls =>
    let entries := (Program.Progress.steps {} decls).1.accepted
    entries.flatMap (logEntry settings) ++
      match results with
      | .ok results =>
        logProgram settings ("normalized " ++ toString results.length ++ " declarations")
      | .error _ => []

/-- The results of a program printed one after another, as long as calls do not nest too deep. -/
def printAll (machine : Machine) (settings : Settings) (log : List String)
    (results : List Program.Result) : Outcome :=
  let shown := results.takeWhile (machine.prints settings)
  let printed := shown.map (Report.ofResult settings.showTypes)
  if results.all (machine.prints settings) then .finished { code := 0, out := printed, log := log }
  else .aborted .callsTooDeep printed

/-- What the command prints for the text of a file, and its exit status. -/
def runText (machine : Machine) (fuel : Nat) (settings : Settings) (path source : String) :
    Outcome :=
  if !machine.runs settings source then .aborted .callsTooDeep []
  else if Sexp.meetsLongNumber source then .aborted .numberTooLong []
  else
    let results := Program.run fuel source
    let log := logRunning settings path ++ logRun settings source results
    match results with
    | .ok results => printAll machine settings log results
    | .error (.rejected report) => .finished
        { code := 1
          err := [Report.ofDiagnostic machine.painter settings.color report]
          log := log }
    | .error failure => .broken failure

/-- The largest limit for nested calls. -/
def largestLimit : Int := 2147483647

/-- What the command prints for a file, and its exit status. -/
def runFile (machine : Machine) (fuel : Nat) (settings : Settings) (path : String)
    (content : Except ReadFailure ByteArray) : Outcome :=
  if path.toList.contains '\x00' then .aborted .nullInPath []
  else match content with
    | .error failure =>
      let message := "error: cannot read " ++ path ++ ": " ++ failure.message
      .finished { code := 2, err := [Report.paint machine.painter settings.color .red message] }
    | .ok bytes =>
      match decode? bytes with
      | none => .aborted .notText []
      | some source =>
        if largestLimit < machine.limit settings then .aborted .limitTooLarge []
        else runText machine fuel settings path source

/-- What a command line asks for: settings and a file, or an outcome at once. -/
def prepare (arguments : List String) (environment : Environment) :
    Except Outcome (Settings × String) :=
  match parse arguments with
  | .error stop => .error (.stopped stop)
  | .ok options =>
    match Settings.make options environment with
    | .error .recursionLimitAbsent => .error (.aborted .limitAbsent [])
    | .error error => .error (.finished { code := 2, err := ["error: " ++ error.message] })
    | .ok settings => .ok (settings, options.file)

/-- The whole command, in a folder. -/
def run (machine : Machine) (fuel : Nat) (folder : Folder) (arguments : List String)
    (environment : Environment) : Outcome :=
  match prepare arguments environment with
  | .error outcome => outcome
  | .ok (settings, path) => runFile machine fuel settings path (folder.read path)

/-- Fuel for evaluations that are not meant to stop early: applications cannot nest this deep on
any machine. -/
def ampleFuel : Nat := 1000000000000000

end EtaLong.Command
