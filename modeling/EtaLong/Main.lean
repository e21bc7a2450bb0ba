/-
**The command line tool.**

Reads the arguments, the environment and the file, and prints what the command says.
-/

import EtaLong.Command.Run

namespace EtaLong.Command

/-- The variables of the environment that the command looks at. -/
def environment : IO Environment := do
  let names := ["STLC_LOG_LEVEL", "NO_COLOR"]
  names.filterMapM fun name => do return (← IO.getEnv name).map (name, ·)

/-- The code of the system for reading a directory as a file. -/
def directoryCode : UInt32 := 21

/-- The bytes of a file, or why they could not be read. -/
def readBytes (path : String) : IO (Except ReadFailure ByteArray) := do
  try
    return .ok (← IO.FS.readBinFile path)
  catch failure =>
    match failure with
    | .noFileOrDirectory .. => return .error .missing
    | .inappropriateType _ code _ =>
      return .error (if code = directoryCode then .isDirectory else .notDirectory)
    | other => return .error (.other (toString other))

/-- Red and bold text by the codes of common terminals. -/
def terminalPainter : Report.Painter
  | .red, text => "\x1b[31m" ++ text ++ "\x1b[0m"
  | .boldRed, text => "\x1b[1m\x1b[31m" ++ text ++ "\x1b[0m"

/-- The machine that the tool runs on, where calls may nest as deep as memory allows. -/
def thisMachine : Machine where
  painter := terminalPainter
  callLimit := 0
  runDepth _ _ := 0
  printDepth _ _ := 0

/-- Prints what an outcome holds and gives the exit status. -/
def finish (outcome : Outcome) : IO UInt32 := do
  match outcome with
  | .finished output =>
    (← IO.getStdout).putStr output.outText
    (← IO.getStderr).putStr output.errText
    return output.code.toUInt32
  | .stopped stop =>
    IO.eprintln ("usage: stlc [-h] [--no-color] [--no-types] [--log-level LOG_LEVEL] " ++
      "[--recursion-limit RECURSION_LIMIT] file")
    return stop.code.toUInt32
  | .aborted abort printed =>
    (← IO.getStdout).putStr (lines printed)
    IO.eprintln ("error: " ++ abort.message)
    return 1
  | .broken failure =>
    IO.eprintln ("error: " ++ failure.message)
    return 1

end EtaLong.Command

open EtaLong.Command in
/-- The entry point. -/
def main (arguments : List String) : IO UInt32 := do
  match prepare arguments (← environment) with
  | .error outcome => finish outcome
  | .ok (settings, path) =>
    finish (runFile thisMachine ampleFuel settings path (← readBytes path))
