/-
**Expressions from symbolic expressions.**

A group is a form when its first item is a keyword, and an application otherwise. Each form says
how many operands it takes and what they are; the first operand that does not fit is reported. In
an application the arguments are looked at before the function.

* `TypeExpr.parse`, `Expr.parse`, `Decl.parseAll`: a type, an expression, a program from a source.
-/

import EtaLong.Expr
import EtaLong.Keyword
import EtaLong.Sexp

namespace EtaLong

namespace Form

/-- What a name is used for. -/
inductive Role where
  | variable
  | parameter
  | name
deriving DecidableEq

/-- The wording of a role. -/
def Role.text : Role → String
  | .variable => "a variable"
  | .parameter => "a parameter name"
  | .name => "a name"

/-- Why a symbolic expression is no type, expression or declaration. -/
inductive Error where
  | wrongCount (span : Span) (form : Keyword) (wanted got : Nat)
  | notName (span : Span) (role : Role)
  | keywordAsName (span : Span) (keyword : Keyword) (role : Role)
  | arrowTooShort (span : Span)
  | notType (span : Span)
  | noParameters (span : Span)
  | tupleTooShort (span : Span)
  | emptyApplication (span : Span)
  | misplaced (span : Span) (form : Keyword)
  | noArguments (span : Span)
deriving DecidableEq

namespace Error

/-- The wording of an error of form. -/
def message : Error → String
  | wrongCount _ form wanted got =>
    let plural := if wanted = 1 then "" else "s"
    s!"({form.name} ...) takes {wanted} argument{plural}, got {got}"
  | notName _ role => "Expected " ++ role.text
  | keywordAsName _ keyword role =>
    "Keyword " ++ Text.quoted keyword.name ++ " cannot be used as " ++ role.text
  | arrowTooShort _ => "(-> ...) needs an argument and a result type"
  | notType _ => "Expected a type"
  | noParameters _ => "(lambda ...) needs a non-empty parameter list"
  | tupleTooShort _ => "(, ...) needs at least two components"
  | emptyApplication _ => "Empty application"
  | misplaced _ form => Text.quoted form.name ++ " cannot be used here"
  | noArguments _ => "Application needs at least one argument"

/-- Where an error of form stands. -/
def span : Error → Span
  | wrongCount span _ _ _ => span
  | notName span _ => span
  | keywordAsName span _ _ => span
  | arrowTooShort span => span
  | notType span => span
  | noParameters span => span
  | tupleTooShort span => span
  | emptyApplication span => span
  | misplaced span _ => span
  | noArguments span => span

/-- The form whose rule is broken. -/
def form? : Error → Option Keyword
  | wrongCount _ form _ _ => some form
  | arrowTooShort _ => some .arrow
  | noParameters _ => some .lambda
  | tupleTooShort _ => some .comma
  | misplaced _ form => some form
  | _ => none

/-- The report of an error of form in a source. -/
def report (error : Error) (source : String) : Diagnostic where
  kind := .malformed
  message := error.message
  span := some error.span
  source := some source
  rule := error.form?.map Keyword.name

end Error

end Form

open Form (Role)

/-- The keyword that an expression is. -/
def Sexp.keyword? : Sexp → Option Keyword
  | .symbol _ name => Keyword.ofName? name
  | _ => none

/-- The name that an expression is, in a role that no keyword can take. -/
def Sexp.toName (role : Role) : Sexp → Except Form.Error String
  | .symbol span name =>
    match Keyword.ofName? name with
    | some keyword => .error (.keywordAsName span keyword role)
    | none => .ok name
  | other => .error (.notName other.span role)

/-- A non-empty row as its items but the last, and the last. -/
def splitLast {α : Type} : α → List α → List α × α
  | first, [] => ([], first)
  | first, second :: rest =>
    let (front, last) := splitLast second rest
    (first :: front, last)

mutual

/-- The type that an expression denotes. -/
def TypeExpr.ofSexp : Sexp → Except Form.Error TypeExpr
  | .symbol span name =>
    match Keyword.ofName? name with
    | some .nat => .ok (.nat span)
    | some .atom => .ok (.atom span)
    | _ => .error (.notType span)
  | .group .round span (head :: operands) =>
    match head.keyword? with
    | some .arrow =>
      match operands with
      | first :: second :: rest => do
        let firstTy ← TypeExpr.ofSexp first
        let restTys ← TypeExpr.ofSexps (second :: rest)
        let (args, result) := splitLast firstTy restTys
        return .arrow span args result
      | _ => .error (.arrowTooShort span)
    | some .pair =>
      match operands with
      | [fst, snd] => do return .pair span (← TypeExpr.ofSexp fst) (← TypeExpr.ofSexp snd)
      | _ => .error (.wrongCount span .pair 2 operands.length)
    | some .list =>
      match operands with
      | [elem] => do return .list span (← TypeExpr.ofSexp elem)
      | _ => .error (.wrongCount span .list 1 operands.length)
    | _ => .error (.notType span)
  | other => .error (.notType other.span)

/-- The types that a row of expressions denotes. -/
def TypeExpr.ofSexps : List Sexp → Except Form.Error (List TypeExpr)
  | [] => .ok []
  | item :: items => do return (← TypeExpr.ofSexp item) :: (← TypeExpr.ofSexps items)

end

/-- The parameters of a function, of which there is at least one. -/
def Binder.ofSexp : Sexp → Except Form.Error (List Binder)
  | .group .round _ (first :: rest) =>
    (first :: rest).mapM fun item => do return ⟨← item.toName .parameter, item.span⟩
  | other => .error (.noParameters other.span)

mutual

/-- The expression that a symbolic expression denotes. -/
def Expr.ofSexp : Sexp → Except Form.Error Expr
  | .symbol span name =>
    match Keyword.ofName? name with
    | none => .ok (.var span name)
    | some .zero => .ok (.zero span)
    | some .nil => .ok (.nil span)
    | some keyword => .error (.keywordAsName span keyword .variable)
  | .number span value => .ok (.number span value)
  | .quoted span name => .ok (.atom span name)
  | .group .square span items => do return .listLiteral span (← Expr.ofSexps items)
  | .group .round span [] => .error (.emptyApplication span)
  | .group .round span (head :: operands) =>
    let wrongCount {α : Type} (form : Keyword) (wanted : Nat) : Except Form.Error α :=
      .error (.wrongCount span form wanted operands.length)
    match head.keyword? with
    | none =>
      match operands with
      | [] => .error (.noArguments span)
      | first :: rest => do
        let args ← Expr.ofSexps (first :: rest)
        return .app span (← Expr.ofSexp head) args
    | some .lambda =>
      match operands with
      | [params, body] => do
        let binders ← Binder.ofSexp params
        return .lam span binders (← Expr.ofSexp body)
      | _ => wrongCount .lambda 2
    | some .the =>
      match operands with
      | [ty, body] => do return .the span (← TypeExpr.ofSexp ty) (← Expr.ofSexp body)
      | _ => wrongCount .the 2
    | some .add1 =>
      match operands with
      | [pred] => do return .add1 span (← Expr.ofSexp pred)
      | _ => wrongCount .add1 1
    | some .car =>
      match operands with
      | [operand] => do return .car span (← Expr.ofSexp operand)
      | _ => wrongCount .car 1
    | some .cdr =>
      match operands with
      | [operand] => do return .cdr span (← Expr.ofSexp operand)
      | _ => wrongCount .cdr 1
    | some .cons =>
      match operands with
      | [fst, snd] => do return .pair span (← Expr.ofSexp fst) (← Expr.ofSexp snd)
      | _ => wrongCount .cons 2
    | some .cell =>
      match operands with
      | [first, rest] => do return .cons span (← Expr.ofSexp first) (← Expr.ofSexp rest)
      | _ => wrongCount .cell 2
    | some .recNat =>
      match operands with
      | [target, base, step] => do
        return .recNat span (← Expr.ofSexp target) (← Expr.ofSexp base) (← Expr.ofSexp step)
      | _ => wrongCount .recNat 3
    | some .recList =>
      match operands with
      | [target, base, step] => do
        return .recList span (← Expr.ofSexp target) (← Expr.ofSexp base) (← Expr.ofSexp step)
      | _ => wrongCount .recList 3
    | some .comma =>
      match operands with
      | first :: second :: rest => do
        let firstExpr ← Expr.ofSexp first
        return .tuple span firstExpr (← Expr.ofSexps (second :: rest))
      | _ => .error (.tupleTooShort span)
    | some keyword => .error (.misplaced span keyword)

/-- The expressions that a row of symbolic expressions denotes. -/
def Expr.ofSexps : List Sexp → Except Form.Error (List Expr)
  | [] => .ok []
  | item :: items => do return (← Expr.ofSexp item) :: (← Expr.ofSexps items)

end

/-- The declaration that a symbolic expression denotes. -/
def Decl.ofSexp : Sexp → Except Form.Error Decl
  | .group .round span (head :: operands) =>
    match head.keyword?, operands with
    | some .claim, [name, ty] => do
      return .claim span (← name.toName .name) (← TypeExpr.ofSexp ty)
    | some .claim, _ => .error (.wrongCount span .claim 2 operands.length)
    | some .define, [name, body] => do
      return .define span (← name.toName .name) (← Expr.ofSexp body)
    | some .define, _ => .error (.wrongCount span .define 2 operands.length)
    | _, _ => do return .eval span (← Expr.ofSexp (.group .round span (head :: operands)))
  | other => do return .eval other.span (← Expr.ofSexp other)

/-- The type that a source denotes. -/
def TypeExpr.parse (source : String) : Except Diagnostic TypeExpr := do
  let item ← (Sexp.readOne source).mapError (·.report source)
  (TypeExpr.ofSexp item).mapError (·.report source)

/-- The declarations of a source. -/
def Decl.parseAll (source : String) : Except Diagnostic (List Decl) := do
  let items ← (Sexp.readAll source).mapError (·.report source)
  (items.mapM Decl.ofSexp).mapError (·.report source)

/-- The report of a source that is not a single expression. -/
def Expr.notSingle (source : String) : Diagnostic where
  kind := .malformed
  message := "Expected a single expression"
  span := some ⟨0, source.length⟩
  source := some source

/-- The expression that a source denotes. -/
def Expr.parse (source : String) : Except Diagnostic Expr := do
  match ← Decl.parseAll source with
  | [.eval _ body] => return body
  | _ => throw (Expr.notSingle source)

end EtaLong
