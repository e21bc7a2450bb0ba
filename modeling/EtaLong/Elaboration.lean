/-
**Elaboration.**

An expression is elaborated in a scope under a demand: either its type is to be found, or it is
to have a given type. A demand for a type is passed into functions, lists, pairs and recursions;
any other expression finds its type, which must then be the demanded one. Names become indices on
the way. The first judgement that fails is reported, with its rule and the place of the
subexpression that breaks it.

* `Expr.elaborate`: the term of an expression under a demand, with its type;
* `Expr.infer`, `Expr.check`: the two demands.
-/

import EtaLong.Context
import EtaLong.Diagnostic
import EtaLong.Expr

namespace EtaLong

/-- The names in scope with their types, innermost first. -/
abbrev Scope := List (String × Ty)

namespace Scope

/-- The names in scope. -/
def names (scope : Scope) : List String := scope.map Prod.fst

/-- The context of the types in scope. -/
def types (scope : Scope) : Context := scope.map Prod.snd

/-- The innermost entry with a name: its index and its type. -/
def find? (name : String) : Scope → Option (Nat × Ty)
  | [] => none
  | (other, ty) :: scope =>
    if other = name then some (0, ty)
    else (find? name scope).map fun found => (found.1 + 1, found.2)

/-- The scope inside a function and the type of its body: its parameters take the types of its
arguments, of which there must be enough. -/
def enter? (scope : Scope) : List Binder → Ty → Option (Scope × Ty)
  | [], ty => some (scope, ty)
  | binder :: binders, .fn dom cod => enter? ((binder.name, dom) :: scope) binders cod
  | _ :: _, _ => none

end Scope

/-- A function of so many arguments of a type around a body. -/
def Term.lams : Nat → Ty → Term → Term
  | count + 1, .fn dom cod, body => .lam dom (lams count cod body)
  | _, _, body => body

namespace Elaboration

/-- What was wanted of an expression. -/
inductive Wanted where
  | type (ty : Ty)
  | function
  | pair
  | list
deriving DecidableEq

/-- The wording of what was wanted. -/
def Wanted.text : Wanted → String
  | .type ty => ty.text
  | .function => "a function"
  | .pair => "a Pair"
  | .list => "a List"

/-- What an expression turned out to be. -/
inductive Found where
  | type (ty : Ty)
  | lambda
  | nil
  | pair
  | list
deriving DecidableEq

/-- The wording of what was found. -/
def Found.text : Found → String
  | .type ty => ty.text
  | .lambda => "a lambda"
  | .nil => "nil"
  | .pair => "a pair"
  | .list => "a list"

/-- Why an expression was not elaborated. -/
inductive Error where
  | unknownName (span : Span) (name : String)
  | mismatch (rule : String) (span : Span) (wanted : Wanted) (found : Found)
  | tooManyArguments (span : Span) (count : Nat) (fnTy : Ty)
  | tooManyBinders (span : Span) (count : Nat) (expected : Ty)
  | lambdaWithoutType (span : Span)
  | nilWithoutType (span : Span)
  /-- Shorthand has to be expanded before elaboration. -/
  | shorthand (expr : Expr)
  /-- Arguments and parameters have to be counted before each takes an arrow. -/
  | noArrowLeft (span : Span)

namespace Error

/-- The wording of an elaboration error. -/
def message : Error → String
  | unknownName _ name => "Unknown name " ++ Text.quoted name
  | mismatch _ _ wanted found => "Expected " ++ wanted.text ++ ", got " ++ found.text
  | tooManyArguments _ count fnTy =>
    s!"Applied to {count} arguments, but {fnTy.text} takes {fnTy.arity}"
  | tooManyBinders _ count expected =>
    s!"Lambda binds {count} arguments, but {expected.text} takes {expected.arity}"
  | lambdaWithoutType _ => "Cannot infer the type of a lambda; annotate it with (the ...)"
  | nilWithoutType _ => "Cannot infer the element type of nil; annotate it with (the ...)"
  | shorthand expr => "Unexpected surface term in infer: " ++ expr.describe
  | noArrowLeft _ => ""

/-- Where an elaboration error stands. -/
def span : Error → Span
  | unknownName span _ => span
  | mismatch _ span _ _ => span
  | tooManyArguments span _ _ => span
  | tooManyBinders span _ _ => span
  | lambdaWithoutType span => span
  | nilWithoutType span => span
  | shorthand expr => expr.span
  | noArrowLeft span => span

/-- The kind of mistake and the broken rule; what should have been expanded or counted before is
no mistake of the program's author. -/
def kindAndRule? : Error → Option (Diagnostic.Kind × String)
  | unknownName _ _ => some (.unbound, "var")
  | mismatch rule _ _ _ => some (.mismatch, rule)
  | tooManyArguments _ _ _ => some (.arity, "app")
  | tooManyBinders _ _ _ => some (.arity, "lambda")
  | lambdaWithoutType _ => some (.mismatch, "lambda")
  | nilWithoutType _ => some (.mismatch, "nil")
  | shorthand _ => none
  | noArrowLeft _ => none

/-- The report of an elaboration error. -/
def report? (error : Error) : Option Diagnostic :=
  error.kindAndRule?.map fun (kind, rule) =>
    { kind := kind, message := error.message, span := some error.span, rule := some rule }

end Error

/-- What is asked of an expression. -/
inductive Demand where
  /-- Find its type. -/
  | any
  /-- Have this type; `rule` is named when it has another. -/
  | exactly (ty : Ty) (rule : String)

/-- A found type meets the demand, or else is the mismatch that is reported. -/
def Demand.settle (demand : Demand) (span : Span) (found : Term × Ty) :
    Except Error (Term × Ty) :=
  match demand with
  | .any => .ok found
  | .exactly ty rule =>
    if found.2 = ty then .ok found
    else .error (.mismatch rule span (.type ty) (.type found.2))

/-- The same demand, made by another rule. -/
def Demand.within (rule : String) : Demand → Demand
  | .any => .any
  | .exactly ty _ => .exactly ty rule

end Elaboration

open Elaboration

mutual

/-- The term of an expression under a demand, with its type. -/
def Expr.elaborate (scope : Scope) : Expr → Demand → Except Elaboration.Error (Term × Ty)
  | .var span name, demand =>
    match scope.find? name with
    | some (index, ty) => demand.settle span (.var index, ty)
    | none => .error (.unknownName span name)
  | .app span fn args, demand => do
    let (function, fnTy) ← fn.elaborate scope .any
    if fnTy.arity = 0 then .error (.mismatch "app" fn.span .function (.type fnTy))
    else if fnTy.arity < args.length then .error (.tooManyArguments span args.length fnTy)
    else do
      let applied ← Expr.elaborateArgs scope function fnTy args
      demand.settle span applied
  | .the span ty body, demand => do
    let (term, _) ← body.elaborate scope (.exactly ty.toTy "the")
    demand.settle span (.ann ty.toTy term, ty.toTy)
  | .atom span name, demand => demand.settle span (.atom name, .atom)
  | .zero span, demand => demand.settle span (.zero, .nat)
  | .number span value, demand => demand.settle span (Term.numeral value, .nat)
  | .add1 span pred, demand => do
    let (term, _) ← pred.elaborate scope (.exactly .nat "add1")
    demand.settle span (.succ term, .nat)
  | .car span operand, demand => do
    match ← operand.elaborate scope .any with
    | (term, .pair fst _) => demand.settle span (.car term, fst)
    | (_, other) => throw (.mismatch "car" operand.span .pair (.type other))
  | .cdr span operand, demand => do
    match ← operand.elaborate scope .any with
    | (term, .pair _ snd) => demand.settle span (.cdr term, snd)
    | (_, other) => throw (.mismatch "cdr" operand.span .pair (.type other))
  | .lam span _ _, .any => .error (.lambdaWithoutType span)
  | .lam span binders body, .exactly expected rule =>
    if expected.arity = 0 then .error (.mismatch rule span (.type expected) .lambda)
    else if expected.arity < binders.length then
      .error (.tooManyBinders span binders.length expected)
    else match scope.enter? binders expected with
      | none => .error (.noArrowLeft span)
      | some (inner, result) => do
        let (term, _) ← body.elaborate inner (.exactly result "lambda")
        return (Term.lams binders.length expected term, expected)
  | .nil span, .any => .error (.nilWithoutType span)
  | .nil span, .exactly expected rule =>
    match expected with
    | .list elem => .ok (.nil elem, expected)
    | _ => .error (.mismatch rule span (.type expected) .nil)
  | .pair _ fst snd, .any => do
    let (first, fstTy) ← fst.elaborate scope .any
    let (second, sndTy) ← snd.elaborate scope .any
    return (.pair first second, .pair fstTy sndTy)
  | .pair span fst snd, .exactly expected rule =>
    match expected with
    | .pair fstTy sndTy => do
      let (first, _) ← fst.elaborate scope (.exactly fstTy "cons")
      let (second, _) ← snd.elaborate scope (.exactly sndTy "cons")
      return (.pair first second, expected)
    | _ => .error (.mismatch rule span (.type expected) .pair)
  | .cons _ head tail, .any => do
    let (first, elem) ← head.elaborate scope .any
    let (rest, _) ← tail.elaborate scope (.exactly (.list elem) "::")
    return (.cons first rest, .list elem)
  | .cons span head tail, .exactly expected rule =>
    match expected with
    | .list elem => do
      let (first, _) ← head.elaborate scope (.exactly elem "::")
      let (rest, _) ← tail.elaborate scope (.exactly expected "::")
      return (.cons first rest, expected)
    | _ => .error (.mismatch rule span (.type expected) .list)
  | .recNat _ target base step, demand => do
    let (counted, _) ← target.elaborate scope (.exactly .nat "rec-nat")
    let (start, motive) ← base.elaborate scope (.within "rec-nat" demand)
    let (next, _) ← step.elaborate scope (.exactly (Ty.natStep motive) "rec-nat")
    return (.recNat motive counted start next, motive)
  | .recList _ target base step, demand => do
    match ← target.elaborate scope .any with
    | (items, .list elem) =>
      let (start, motive) ← base.elaborate scope (.within "rec-list" demand)
      let (next, _) ← step.elaborate scope (.exactly (Ty.listStep elem motive) "rec-list")
      return (.recList motive items start next, motive)
    | (_, other) => throw (.mismatch "rec-list" target.span .list (.type other))
  | .tuple span first rest, _ => .error (.shorthand (.tuple span first rest))
  | .listLiteral span items, _ => .error (.shorthand (.listLiteral span items))

/-- A function applied to arguments one after another, with the type of the result. -/
def Expr.elaborateArgs (scope : Scope) (function : Term) :
    Ty → List Expr → Except Elaboration.Error (Term × Ty)
  | ty, [] => .ok (function, ty)
  | .fn dom cod, arg :: args => do
    let (argument, _) ← arg.elaborate scope (.exactly dom "app")
    Expr.elaborateArgs scope (.app function argument) cod args
  | _, arg :: _ => .error (.noArrowLeft arg.span)

end

/-- The term of an expression and the type that is found for it. -/
def Expr.infer (scope : Scope) (expr : Expr) : Except Elaboration.Error (Term × Ty) :=
  expr.elaborate scope .any

/-- The term of an expression of the expected type; `rule` is named when it has another. -/
def Expr.check (scope : Scope) (expr : Expr) (expected : Ty) (rule : String) :
    Except Elaboration.Error Term :=
  (expr.elaborate scope (.exactly expected rule)).map Prod.fst

end EtaLong
