/-
**Expanding leaves no shorthand.**

A plain expression has neither a tuple nor a bracketed list anywhere in it. Expanding an
expression gives a plain one, by induction on the expression, its arguments and its items.

* `Expr.Plain`, `Decl.Plain`: without shorthand;
* `Expr.expand_plain`, `Decl.expand_plain`: what expanding gives;
* `Expr.Plain.expand`: there is nothing to expand in a plain expression.
-/

import EtaLong.Expr.Shorthand

namespace EtaLong

mutual

/-- **An expression without shorthand.** -/
inductive Expr.Plain : Expr → Prop where
  | var {span : Span} {name : String} : Expr.Plain (.var span name)
  | lam {span : Span} {binders : List Binder} {body : Expr} :
      Expr.Plain body → Expr.Plain (.lam span binders body)
  | app {span : Span} {fn : Expr} {args : List Expr} :
      Expr.Plain fn → Expr.PlainAll args → Expr.Plain (.app span fn args)
  | atom {span : Span} {name : String} : Expr.Plain (.atom span name)
  | zero {span : Span} : Expr.Plain (.zero span)
  | add1 {span : Span} {pred : Expr} : Expr.Plain pred → Expr.Plain (.add1 span pred)
  | number {span : Span} {value : Nat} : Expr.Plain (.number span value)
  | recNat {span : Span} {target base step : Expr} :
      Expr.Plain target → Expr.Plain base → Expr.Plain step →
      Expr.Plain (.recNat span target base step)
  | pair {span : Span} {fst snd : Expr} :
      Expr.Plain fst → Expr.Plain snd → Expr.Plain (.pair span fst snd)
  | car {span : Span} {operand : Expr} : Expr.Plain operand → Expr.Plain (.car span operand)
  | cdr {span : Span} {operand : Expr} : Expr.Plain operand → Expr.Plain (.cdr span operand)
  | nil {span : Span} : Expr.Plain (.nil span)
  | cons {span : Span} {head tail : Expr} :
      Expr.Plain head → Expr.Plain tail → Expr.Plain (.cons span head tail)
  | recList {span : Span} {target base step : Expr} :
      Expr.Plain target → Expr.Plain base → Expr.Plain step →
      Expr.Plain (.recList span target base step)
  | the {span : Span} {ty : TypeExpr} {body : Expr} :
      Expr.Plain body → Expr.Plain (.the span ty body)

/-- Expressions without shorthand. -/
inductive Expr.PlainAll : List Expr → Prop where
  | nil : Expr.PlainAll []
  | cons {expr : Expr} {exprs : List Expr} :
      Expr.Plain expr → Expr.PlainAll exprs → Expr.PlainAll (expr :: exprs)

end

/-- A declaration without shorthand. -/
def Decl.Plain : Decl → Prop
  | .claim _ _ _ => True
  | .define _ _ body => body.Plain
  | .eval _ body => body.Plain

namespace Expr

/-- Nested pairs of plain components are plain. -/
theorem nestPairs_plain (stop : Int) : ∀ {first : Expr} {rest : List Expr},
    first.Plain → PlainAll rest → (nestPairs stop first rest).Plain
  | _, _, first, .nil => first
  | _, _, first, .cons second rest => .pair first (nestPairs_plain stop second rest)

mutual

/-- **An expanded expression is plain.** -/
theorem expand_plain : ∀ expr : Expr, expr.expand.Plain
  | var _ _ => .var
  | lam _ _ body => .lam body.expand_plain
  | app _ fn args => .app fn.expand_plain (expandAll_plain args)
  | atom _ _ => .atom
  | zero _ => .zero
  | add1 _ pred => .add1 pred.expand_plain
  | number _ _ => .number
  | recNat _ target base step => .recNat target.expand_plain base.expand_plain step.expand_plain
  | pair _ fst snd => .pair fst.expand_plain snd.expand_plain
  | car _ operand => .car operand.expand_plain
  | cdr _ operand => .cdr operand.expand_plain
  | nil _ => .nil
  | cons _ head tail => .cons head.expand_plain tail.expand_plain
  | recList _ target base step => .recList target.expand_plain base.expand_plain step.expand_plain
  | the _ _ body => .the body.expand_plain
  | tuple span first rest => nestPairs_plain span.stop first.expand_plain (expandAll_plain rest)
  | listLiteral span items => expandCells_plain span.stop items

theorem expandAll_plain : ∀ exprs : List Expr, PlainAll (expandAll exprs)
  | [] => .nil
  | expr :: exprs => .cons expr.expand_plain (expandAll_plain exprs)

theorem expandCells_plain (stop : Int) : ∀ items : List Expr, (expandCells stop items).Plain
  | [] => .nil
  | item :: items => .cons item.expand_plain (expandCells_plain stop items)

end

theorem plainAll_iff {exprs : List Expr} : PlainAll exprs ↔ ∀ expr ∈ exprs, expr.Plain := by
  constructor
  · intro plain expr among
    induction among with
    | head =>
      cases plain with
      | cons first _ => exact first
    | tail _ _ ih =>
      cases plain with
      | cons _ rest => exact ih rest
  · intro each
    induction exprs with
    | nil => exact .nil
    | cons expr exprs ih =>
      obtain ⟨first, others⟩ := List.forall_mem_cons.mp each
      exact .cons first (ih others)

mutual

/-- **Expanding leaves a plain expression as it is.** -/
theorem Plain.expand : {expr : Expr} → expr.Plain → expr.expand = expr
  | _, .var => rfl
  | _, .lam body => by rw [Expr.expand, body.expand]
  | _, .app fn args => by rw [Expr.expand, fn.expand, args.expandAll]
  | _, .atom => rfl
  | _, .zero => rfl
  | _, .add1 pred => by rw [Expr.expand, pred.expand]
  | _, .number => rfl
  | _, .recNat target base step => by rw [Expr.expand, target.expand, base.expand, step.expand]
  | _, .pair fst snd => by rw [Expr.expand, fst.expand, snd.expand]
  | _, .car operand => by rw [Expr.expand, operand.expand]
  | _, .cdr operand => by rw [Expr.expand, operand.expand]
  | _, .nil => rfl
  | _, .cons head tail => by rw [Expr.expand, head.expand, tail.expand]
  | _, .recList target base step => by rw [Expr.expand, target.expand, base.expand, step.expand]
  | _, .the body => by rw [Expr.expand, body.expand]

theorem PlainAll.expandAll : {exprs : List Expr} → PlainAll exprs → Expr.expandAll exprs = exprs
  | _, .nil => rfl
  | _, .cons first rest => by rw [Expr.expandAll, first.expand, rest.expandAll]

end

end Expr

/-- **An expanded declaration is plain.** -/
theorem Decl.expand_plain (decl : Decl) : decl.expand.Plain := by
  cases decl with
  | claim span name ty => exact trivial
  | define span name body => exact body.expand_plain
  | eval span body => exact body.expand_plain

end EtaLong
