/-
**Diagnostics.**

What is reported to the author of a program: the kind of mistake, its description, and, as far as
they are known, the rule that was broken, the place in the source and the source itself.

* `Diagnostic.text`: one line with everything that is known;
* `Diagnostic.withSource`: attaches a source, which never replaces one that is there.
-/

import EtaLong.Span
import EtaLong.Text.Quoted

namespace EtaLong

namespace Diagnostic

/-- The kinds of mistake. -/
inductive Kind where
  | general
  | malformed
  | unbound
  | mismatch
  | arity
deriving DecidableEq

/-- The name under which a kind is reported. -/
def Kind.name : Kind → String
  | .general => "StlcError"
  | .malformed => "MalformedSyntax"
  | .unbound => "UnboundVariable"
  | .mismatch => "TypeMismatch"
  | .arity => "ArityMismatch"

end Diagnostic

/-- A mistake in a program, as it is reported. -/
structure Diagnostic where
  kind : Diagnostic.Kind
  message : String
  span : Option Span := none
  source : Option String := none
  rule : Option String := none
deriving DecidableEq

namespace Diagnostic

/-- The rule that was broken, if it has a name. -/
def namedRule? (report : Diagnostic) : Option String :=
  report.rule.filter (· ≠ "")

/-- The description, with the broken rule in front of it. -/
def head (report : Diagnostic) : String :=
  match report.namedRule? with
  | some rule => "[" ++ rule ++ "] " ++ report.message
  | none => report.message

/-- Everything that is known, in one line. -/
def text (report : Diagnostic) : String :=
  match report.span with
  | none => report.head
  | some span =>
    let place := report.head ++ " @ " ++ toString span.start ++ ":" ++ toString span.stop
    match report.source with
    | none => place
    | some source => place ++ ": " ++ Text.quoted (span.extract source)

/-- The same report with a source, unless it has one. -/
def withSource (report : Diagnostic) (source : String) : Diagnostic :=
  { report with source := report.source.or (some source) }

/-- A source that is attached stays. -/
theorem withSource_withSource (report : Diagnostic) (first second : String) :
    (report.withSource first).withSource second = report.withSource first := by
  cases sourceCase : report.source <;> simp [withSource, sourceCase]

/-- A variable that reaches outside its context. -/
def unboundIndex (index : Int) (length : Nat) : Diagnostic where
  kind := .unbound
  message := s!"Index {index} is not bound in a context of length {length}"
  rule := some "var"

end Diagnostic

end EtaLong
