/-
**Typing.**

Every term has at most one type in a context, which is inferred from the types that the term
carries. The first operand that does not fit is reported, together with the rule that it breaks.

* `Term.infer`: the type of a term;
* `Term.check`: whether a term has a given type.
-/

import EtaLong.Context
import EtaLong.Diagnostic

namespace EtaLong

namespace Typing

/-- Why a term has no type. -/
inductive Error where
  | unbound (index : Nat) (length : Nat)
  | mismatch (rule : String) (expected actual : Ty)
  | notFunction (actual : Ty)
  | notPair (rule : String) (actual : Ty)
  | tailNotList (actual : Ty)
  | targetNotList (actual : Ty)
deriving DecidableEq

/-- A report of an operand with the wrong type. -/
def wrongOperand (rule what expected : String) (actual : Ty) : Diagnostic where
  kind := .mismatch
  message := what ++ ": expected " ++ expected ++ ", got " ++ actual.text
  rule := some rule

/-- The report of a typing error. -/
def Error.report : Error → Diagnostic
  | .unbound index length => Diagnostic.unboundIndex index length
  | .mismatch rule expected actual => wrongOperand rule "Type mismatch" expected.text actual
  | .notFunction actual =>
    wrongOperand "app" "Applied term is not a function" "a function type" actual
  | .notPair rule actual => wrongOperand rule "Operand is not a pair" "a Pair type" actual
  | .tailNotList actual => wrongOperand "::" "Tail is not a list" "a List type" actual
  | .targetNotList actual => wrongOperand "rec-list" "Target is not a list" "a List type" actual

/-- An inferred type is the expected one. -/
def require (rule : String) (expected actual : Ty) : Except Error Unit :=
  if actual = expected then .ok () else .error (.mismatch rule expected actual)

end Typing

open Typing

/-- What inference finds for a term: the type of the whole, and the type of what follows the list
cells that the term starts with. The latter is found before the heads of those cells are looked
at, which decides what is reported first; a term that is no cell follows itself. -/
structure Typing.Inference where
  whole : Except Typing.Error Ty
  rest : Except Typing.Error Ty

/-- What is found for a term that is no list cell. -/
def Typing.Inference.plain (found : Except Typing.Error Ty) : Typing.Inference := ⟨found, found⟩

/-- What inference finds for a term in a context. -/
def Term.inference (ctx : Context) : Term → Typing.Inference
  | .var index => .plain (match ctx[index]? with
    | some ty => .ok ty
    | none => .error (.unbound index ctx.length))
  | .lam dom body => .plain (do return .fn dom (← (body.inference (dom :: ctx)).whole))
  | .app fn arg => .plain (do
    match ← (fn.inference ctx).whole with
    | .fn dom cod =>
      require "app" dom (← (arg.inference ctx).whole)
      return cod
    | other => throw (.notFunction other))
  | .atom _ => .plain (.ok .atom)
  | .zero => .plain (.ok .nat)
  | .succ pred => .plain (do
    require "add1" .nat (← (pred.inference ctx).whole)
    return .nat)
  | .recNat motive target base step => .plain (do
    require "rec-nat" .nat (← (target.inference ctx).whole)
    require "rec-nat" motive (← (base.inference ctx).whole)
    require "rec-nat" (Ty.natStep motive) (← (step.inference ctx).whole)
    return motive)
  | .pair fst snd => .plain (do
    let first ← (fst.inference ctx).whole
    let second ← (snd.inference ctx).whole
    return .pair first second)
  | .car operand => .plain (do
    match ← (operand.inference ctx).whole with
    | .pair fst _ => return fst
    | other => throw (.notPair "car" other))
  | .cdr operand => .plain (do
    match ← (operand.inference ctx).whole with
    | .pair _ snd => return snd
    | other => throw (.notPair "cdr" other))
  | .nil elem => .plain (.ok (.list elem))
  | .cons head tail =>
    let found := tail.inference ctx
    { rest := found.rest
      whole := do
        match ← found.rest with
        | .list elem =>
          require "::" elem (← (head.inference ctx).whole)
          found.whole
        | other => throw (.tailNotList other) }
  | .recList motive target base step => .plain (do
    match ← (target.inference ctx).whole with
    | .list elem =>
      require "rec-list" motive (← (base.inference ctx).whole)
      require "rec-list" (Ty.listStep elem motive) (← (step.inference ctx).whole)
      return motive
    | other => throw (.targetNotList other))
  | .ann ty body => .plain (do
    require "the" ty (← (body.inference ctx).whole)
    return ty)

/-- The type of a term in a context. -/
def Term.infer (ctx : Context) (term : Term) : Except Typing.Error Ty :=
  (term.inference ctx).whole

/-- A term has the expected type; `rule` is named when it has another. -/
def Term.check (ctx : Context) (term : Term) (expected : Ty) (rule : String) :
    Except Typing.Error Unit := do
  require rule expected (← term.infer ctx)

end EtaLong
