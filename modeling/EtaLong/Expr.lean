/-
**Expressions as they are written.**

Types, expressions and declarations of a program, with names for variables and with the stretch of
source that each was written in. Two forms are shorthand: a tuple stands for nested pairs, and a
bracketed list for its cells.
-/

import EtaLong.Span
import EtaLong.Text.Quoted
import EtaLong.Text.Record
import EtaLong.Ty

namespace EtaLong

/-- A written type. -/
inductive TypeExpr where
  | nat (span : Span)
  | atom (span : Span)
  | arrow (span : Span) (args : List TypeExpr) (result : TypeExpr)
  | pair (span : Span) (fst snd : TypeExpr)
  | list (span : Span) (elem : TypeExpr)

/-- A parameter of a function. -/
structure Binder where
  name : String
  span : Span
deriving DecidableEq

/-- A written expression. -/
inductive Expr where
  | var (span : Span) (name : String)
  | lam (span : Span) (binders : List Binder) (body : Expr)
  | app (span : Span) (fn : Expr) (args : List Expr)
  | atom (span : Span) (name : String)
  | zero (span : Span)
  | add1 (span : Span) (pred : Expr)
  | number (span : Span) (value : Nat)
  | recNat (span : Span) (target base step : Expr)
  | pair (span : Span) (fst snd : Expr)
  | car (span : Span) (operand : Expr)
  | cdr (span : Span) (operand : Expr)
  | nil (span : Span)
  | cons (span : Span) (head tail : Expr)
  | recList (span : Span) (target base step : Expr)
  | the (span : Span) (ty : TypeExpr) (body : Expr)
  | tuple (span : Span) (first : Expr) (rest : List Expr)
  | listLiteral (span : Span) (items : List Expr)

/-- A declaration of a program. -/
inductive Decl where
  | claim (span : Span) (name : String) (ty : TypeExpr)
  | define (span : Span) (name : String) (body : Expr)
  | eval (span : Span) (body : Expr)

namespace TypeExpr

/-- Where a type was written. -/
def span : TypeExpr → Span
  | nat span => span
  | atom span => span
  | arrow span _ _ => span
  | pair span _ _ => span
  | list span _ => span

mutual

/-- The type that is written. -/
def toTy : TypeExpr → Ty
  | nat _ => .nat
  | atom _ => .atom
  | arrow _ args result => Ty.arrow (toTys args) result.toTy
  | pair _ fst snd => .pair fst.toTy snd.toTy
  | list _ elem => .list elem.toTy

/-- The types that are written. -/
def toTys : List TypeExpr → List Ty
  | [] => []
  | ty :: tys => ty.toTy :: toTys tys

end

end TypeExpr

/-- Where an expression was written. -/
def Expr.span : Expr → Span
  | .var span _ => span
  | .lam span _ _ => span
  | .app span _ _ => span
  | .atom span _ => span
  | .zero span => span
  | .add1 span _ => span
  | .number span _ => span
  | .recNat span _ _ _ => span
  | .pair span _ _ => span
  | .car span _ => span
  | .cdr span _ => span
  | .nil span => span
  | .cons span _ _ => span
  | .recList span _ _ _ => span
  | .the span _ _ => span
  | .tuple span _ _ => span
  | .listLiteral span _ => span

/-- Where a declaration was written. -/
def Decl.span : Decl → Span
  | .claim span _ _ => span
  | .define span _ _ => span
  | .eval span _ => span

/-! ## Full descriptions -/

/-- The full description of a span. -/
def Span.describe (span : Span) : String :=
  Text.record "Span" [("start", toString span.start), ("end", toString span.stop)]

/-- The full description of a parameter. -/
def Binder.describe (binder : Binder) : String :=
  Text.record "SBinder" [("name", Text.quoted binder.name), ("span", binder.span.describe)]

mutual

/-- The full description of a written type. -/
def TypeExpr.describe : TypeExpr → String
  | .nat span => Text.record "STNat" [("span", span.describe)]
  | .atom span => Text.record "STAtom" [("span", span.describe)]
  | .arrow span args result => Text.record "STArrow" [("span", span.describe),
      ("args", Text.tuple (TypeExpr.describeAll args)), ("result", result.describe)]
  | .pair span fst snd => Text.record "STPair"
      [("span", span.describe), ("fst", fst.describe), ("snd", snd.describe)]
  | .list span elem => Text.record "STList" [("span", span.describe), ("elem", elem.describe)]

/-- The full descriptions of several written types. -/
def TypeExpr.describeAll : List TypeExpr → List String
  | [] => []
  | ty :: tys => ty.describe :: TypeExpr.describeAll tys

end

mutual

/-- The full description of a written expression. -/
def Expr.describe : Expr → String
  | .var span name => Text.record "SVar" [("span", span.describe), ("name", Text.quoted name)]
  | .lam span binders body => Text.record "SLam" [("span", span.describe),
      ("binders", Text.tuple (binders.map Binder.describe)), ("body", body.describe)]
  | .app span fn args => Text.record "SApp" [("span", span.describe), ("fn", fn.describe),
      ("args", Text.tuple (Expr.describeAll args))]
  | .atom span name => Text.record "SQuote" [("span", span.describe), ("name", Text.quoted name)]
  | .zero span => Text.record "SZero" [("span", span.describe)]
  | .add1 span pred => Text.record "SAdd1" [("span", span.describe), ("n", pred.describe)]
  | .number span value => Text.record "SNum" [("span", span.describe), ("value", toString value)]
  | .recNat span target base step => Text.record "SRecNat" [("span", span.describe),
      ("target", target.describe), ("base", base.describe), ("step", step.describe)]
  | .pair span fst snd => Text.record "SCons"
      [("span", span.describe), ("fst", fst.describe), ("snd", snd.describe)]
  | .car span operand => Text.record "SCar" [("span", span.describe), ("pair", operand.describe)]
  | .cdr span operand => Text.record "SCdr" [("span", span.describe), ("pair", operand.describe)]
  | .nil span => Text.record "SNil" [("span", span.describe)]
  | .cons span head tail => Text.record "SListCons"
      [("span", span.describe), ("head", head.describe), ("tail", tail.describe)]
  | .recList span target base step => Text.record "SRecList" [("span", span.describe),
      ("target", target.describe), ("base", base.describe), ("step", step.describe)]
  | .the span ty body => Text.record "SThe"
      [("span", span.describe), ("ty", ty.describe), ("term", body.describe)]
  | .tuple span first rest => Text.record "STuple" [("span", span.describe),
      ("items", Text.tuple (first.describe :: Expr.describeAll rest))]
  | .listLiteral span items => Text.record "SListLit" [("span", span.describe),
      ("items", Text.tuple (Expr.describeAll items))]

/-- The full descriptions of several written expressions. -/
def Expr.describeAll : List Expr → List String
  | [] => []
  | expr :: exprs => expr.describe :: Expr.describeAll exprs

end

end EtaLong
