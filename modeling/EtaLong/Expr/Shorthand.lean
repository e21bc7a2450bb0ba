/-
**Shorthand expanded.**

A tuple becomes nested pairs and a bracketed list becomes its cells. A new node reaches from the
start of its first component to the end of the shorthand it comes from; the empty list that ends a
bracketed list stands at the closing bracket. Functions of several parameters and applications to
several arguments stay as they are.

* `Expr.expand`: an expression without shorthand.
-/

import EtaLong.Expr

namespace EtaLong

namespace Expr

/-- Nested pairs of the components of a tuple that ends at an offset. -/
def nestPairs (stop : Int) : Expr → List Expr → Expr
  | first, [] => first
  | first, second :: rest =>
    .pair ⟨first.span.start, stop⟩ first (nestPairs stop second rest)

mutual

/-- An expression with its shorthand expanded. -/
def expand : Expr → Expr
  | var span name => var span name
  | lam span binders body => lam span binders body.expand
  | app span fn args => app span fn.expand (expandAll args)
  | atom span name => atom span name
  | zero span => zero span
  | add1 span pred => add1 span pred.expand
  | number span value => number span value
  | recNat span target base step => recNat span target.expand base.expand step.expand
  | pair span fst snd => pair span fst.expand snd.expand
  | car span operand => car span operand.expand
  | cdr span operand => cdr span operand.expand
  | nil span => nil span
  | cons span head tail => cons span head.expand tail.expand
  | recList span target base step => recList span target.expand base.expand step.expand
  | the span ty body => the span ty body.expand
  | tuple span first rest => nestPairs span.stop first.expand (expandAll rest)
  | listLiteral span items => expandCells span.stop items

/-- Expressions with their shorthand expanded. -/
def expandAll : List Expr → List Expr
  | [] => []
  | expr :: exprs => expr.expand :: expandAll exprs

/-- The cells of a bracketed list that ends at an offset. -/
def expandCells (stop : Int) : List Expr → Expr
  | [] => nil ⟨stop - 1, stop⟩
  | item :: items => cons ⟨item.span.start, stop⟩ item.expand (expandCells stop items)

end

end Expr

/-- A declaration with its shorthand expanded. -/
def Decl.expand : Decl → Decl
  | .claim span name ty => .claim span name ty
  | .define span name body => .define span name body.expand
  | .eval span body => .eval span body.expand

end EtaLong
