/-
**Programs.**

A program is a row of claims, definitions and bare expressions. All of it is elaborated before
anything is evaluated. A definition is elaborated where the definitions before it are in scope,
and evaluated where their values are; each normal form is closed.

* `Program.elaborate`: the elaborated declarations of a program;
* `Program.evaluate`: their normal forms;
* `Program.run`: from a source to the normal forms.
-/

import EtaLong.Elaboration
import EtaLong.Expr.Parser
import EtaLong.Expr.Shorthand
import EtaLong.Value.ReadBack

namespace EtaLong

namespace Program

/-- A definition or a bare expression that was elaborated: the name that it defines, its term over
the definitions before it, the type of the term, and where it was written. -/
structure Entry where
  name : Option String
  ty : Ty
  term : Term
  span : Span
deriving DecidableEq

/-- The normal form of an entry. -/
structure Result where
  name : Option String
  ty : Ty
  normal : Term
deriving DecidableEq

/-- Why a declaration was not accepted. -/
inductive Error where
  | alreadyClaimed (span : Span) (name : String)
  | alreadyDefined (rule : String) (span : Span) (name : String)
  | body (error : Elaboration.Error)

/-- The wording of an error in a declaration. -/
def Error.message : Error → String
  | .alreadyClaimed _ name => Text.quoted name ++ " is already claimed"
  | .alreadyDefined _ _ name => Text.quoted name ++ " is already defined"
  | .body error => error.message

/-- The report of an error in a declaration, unless it is no mistake of the program's author. -/
def Error.report? (error : Error) : Option Diagnostic :=
  match error with
  | .alreadyClaimed span _ => some
      { kind := .mismatch, message := error.message, span := some span, rule := some "claim" }
  | .alreadyDefined rule span _ => some
      { kind := .mismatch, message := error.message, span := some span, rule := some rule }
  | .body inner => inner.report?

/-- What the declarations so far have claimed and defined: the types that were claimed, the
definitions in scope, and the entries, the last first. -/
structure Progress where
  claims : List (String × Ty) := []
  scope : Scope := []
  entries : List Entry := []

namespace Progress

/-- The entries in the order of the program. -/
def accepted (progress : Progress) : List Entry := progress.entries.reverse

/-- The progress after a definition. -/
def define (progress : Progress) (span : Span) (name : String) (term : Term) (ty : Ty) :
    Progress :=
  { progress with
    scope := (name, ty) :: progress.scope
    entries := ⟨some name, ty, term, span⟩ :: progress.entries }

/-- The progress after one more declaration. -/
def step (progress : Progress) : Decl → Except Error Progress
  | .claim span name ty =>
    if (progress.claims.lookup name).isSome then .error (.alreadyClaimed span name)
    else if (progress.scope.find? name).isSome then .error (.alreadyDefined "claim" span name)
    else .ok { progress with claims := (name, ty.toTy) :: progress.claims }
  | .define span name body =>
    if (progress.scope.find? name).isSome then .error (.alreadyDefined "define" span name)
    else match progress.claims.lookup name with
      | some ty => do
        let term ← (body.check progress.scope ty "define").mapError .body
        return progress.define span name term ty
      | none => do
        let (term, ty) ← (body.infer progress.scope).mapError .body
        return progress.define span name term ty
  | .eval span body => do
    let (term, ty) ← (body.infer progress.scope).mapError .body
    return { progress with entries := ⟨none, ty, term, span⟩ :: progress.entries }

/-- The progress until the end of the declarations or until the first that is not accepted. -/
def steps (progress : Progress) : List Decl → Progress × Option Error
  | [] => (progress, none)
  | decl :: decls =>
    match progress.step decl with
    | .ok next => next.steps decls
    | .error error => (progress, some error)

end Progress

/-- The elaborated declarations of a program. -/
def elaborate (decls : List Decl) : Except Error (List Entry) :=
  match Progress.steps {} decls with
  | (progress, none) => .ok progress.accepted
  | (_, some error) => .error error

/-- The normal forms of entries over an environment of the definitions before them. -/
def evaluateFrom (fuel : Nat) (env : Env) : List Entry → Except Fault (List Result)
  | [] => .ok []
  | entry :: entries => do
    let value ← entry.term.eval fuel env
    let normal ← readBack fuel [] entry.ty value
    let rest ← evaluateFrom fuel (if entry.name.isSome then value :: env else env) entries
    return ⟨entry.name, entry.ty, normal⟩ :: rest

/-- The normal forms of the entries of a program. -/
def evaluate (fuel : Nat) (entries : List Entry) : Except Fault (List Result) :=
  evaluateFrom fuel [] entries

/-- Why a program gave no results. -/
inductive Failure where
  /-- The author of the program made a mistake. -/
  | rejected (report : Diagnostic)
  /-- Elaboration met what is ruled out before it. -/
  | unprepared (error : Error)
  /-- Evaluation or reading back stopped. -/
  | fault (fault : Fault)

/-- The wording of a failure. -/
def Failure.message : Failure → String
  | .rejected report => report.text
  | .unprepared error => error.message
  | .fault found => found.message

/-- The failure of a program whose declaration was not accepted. -/
def Failure.ofError (source : String) (error : Error) : Failure :=
  match error.report? with
  | some report => .rejected (report.withSource source)
  | none => .unprepared error

/-- The declarations of a source, with shorthand expanded. -/
def parse (source : String) : Except Diagnostic (List Decl) :=
  (Decl.parseAll source).map (·.map Decl.expand)

/-- The normal forms of a program, from its source. -/
def run (fuel : Nat) (source : String) : Except Failure (List Result) := do
  let decls ← (parse source).mapError .rejected
  let entries ← (elaborate decls).mapError (.ofError source)
  (evaluate fuel entries).mapError .fault

end Program

end EtaLong
