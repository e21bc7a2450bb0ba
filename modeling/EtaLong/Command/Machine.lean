/-
**The machine under the command.**

What the command prints and whether it ends is also up to the machine. A painter makes text stand out
on the terminal. Calls nest only so deep: the command raises the limit for them to that of its settings,
and breaks off when it is passed. How deep calls nest is a matter of the machine and not of the
language, so it is a parameter. A number is converted as soon as the reader comes to it, and one with too
many digits breaks the command off.

Left out are memory, which is taken to be enough, the few calls of the command around a run,
interruptions from outside, and streams that refuse a text.

* `Command.Machine`: painter and limits, about which nothing is assumed;
* `Sexp.meetsLongNumber`: whether the reader comes to a number with too many digits.
-/

import EtaLong.Command.Settings
import EtaLong.Report
import EtaLong.Text.Integer

namespace EtaLong

/-- What the command finds on a machine. -/
structure Command.Machine where
  /-- Makes text stand out on the terminal. -/
  painter : Report.Painter
  /-- The limit for nested calls when the command starts. -/
  callLimit : Int
  /-- How deep calls nest while the program of a source is run, to its results or to the message about
  its mistake. -/
  runDepth : Command.Settings → String → Nat
  /-- How deep calls nest while a result is printed. -/
  printDepth : Command.Settings → Program.Result → Nat

namespace Command.Machine

/-- The limit for nested calls when a program is run: the command never lowers it. -/
def limit (machine : Machine) (settings : Settings) : Int :=
  max machine.callLimit settings.recursionLimit

/-- Whether the calls that run a source stay within the limit. -/
def runs (machine : Machine) (settings : Settings) (source : String) : Bool :=
  machine.runDepth settings source ≤ machine.limit settings

/-- Whether the calls that print a result stay within the limit. -/
def prints (machine : Machine) (settings : Settings) (result : Program.Result) : Bool :=
  machine.printDepth settings result ≤ machine.limit settings

end Command.Machine

/-- A number with more digits than can be converted. -/
def Token.isLongNumber (token : Token) : Bool :=
  match token.kind with
  | .number _ => Text.digitBound < token.span.stop - token.span.start
  | _ => false

namespace Sexp

/-- Whether the reader comes to a number with too many digits. A token is converted before the reader
takes or refuses it. -/
def Reader.meetsLongNumber (reader : Reader) : List Token → Bool
  | [] => false
  | token :: tokens =>
    token.isLongNumber || match reader.feed token with
      | some next => next.meetsLongNumber tokens
      | none => false

/-- Whether a number with too many digits is met in a source before it is read or refused. -/
def meetsLongNumber (source : String) : Bool :=
  Reader.meetsLongNumber {} (Token.scan source).1

end Sexp

end EtaLong
