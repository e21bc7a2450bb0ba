/-
**Printed terms.**

A term is printed in the parenthesised notation in which programs are written. Nested functions
share one parameter list, applied arguments stand in a row, and numerals are decimal. Free
variables take the names that are given, innermost first, and a number sign with the index beyond.
A new binder takes the first name that is not in scope, so no name is captured.
-/

import EtaLong.Term

namespace EtaLong

/-- The names that binders may take: `x`, `x1`, `x2` and so on. -/
def binderName (attempt : Nat) : String :=
  if attempt = 0 then "x" else "x" ++ toString attempt

/-- The first binder name that is not in scope. -/
def freshName (names : List String) : String :=
  binderName (((List.range (names.length + 1)).find? fun attempt =>
    binderName attempt ∉ names).getD names.length)

namespace Term

/-- The printed form of a variable. -/
def nameOf (names : List String) (index : Nat) : String :=
  names[index]?.getD ("#" ++ toString index)

/-- The printed form of a term whose free variables have the given names. -/
def tree (names : List String) : Term → Text.Tree
  | var index => .word (nameOf names index)
  | lam _ body =>
    let name := freshName names
    match body, body.tree (name :: names) with
    | lam _ _, .group [keyword, .group binders, inner] =>
      .group [keyword, .group (.word name :: binders), inner]
    | _, inner => .form "lambda" [.group [.word name], inner]
  | app fn arg =>
    match fn, fn.tree names with
    | app _ _, .group items => .group (items ++ [arg.tree names])
    | _, head => .group [head, arg.tree names]
  | atom name => .word ("'" ++ name)
  | zero => .word "zero"
  | succ pred =>
    match pred.numeralValue? with
    | some value => .word (toString (value + 1))
    | none => .form "add1" [pred.tree names]
  | recNat _ target base step =>
    .form "rec-nat" [target.tree names, base.tree names, step.tree names]
  | pair fst snd => .form "cons" [fst.tree names, snd.tree names]
  | car operand => .form "car" [operand.tree names]
  | cdr operand => .form "cdr" [operand.tree names]
  | nil _ => .word "nil"
  | cons head tail => .form "::" [head.tree names, tail.tree names]
  | recList _ target base step =>
    .form "rec-list" [target.tree names, base.tree names, step.tree names]
  | ann ty body => .form "the" [ty.tree, body.tree names]

/-- The text of a term whose free variables have the given names. -/
def text (names : List String) (term : Term) : String := (term.tree names).text

end Term

end EtaLong
