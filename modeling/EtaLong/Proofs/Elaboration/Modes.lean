/-
**The two modes of elaboration agree.**

An expression whose type can be found may be checked instead. Most forms are then elaborated as
before and their type is compared; a pair, a list cell and a recursion pass the demanded type on to
their parts instead, and never look for it themselves. Either way the check succeeds at the type
that is found and at no other, and gives the same term.

* `Expr.FindsType`: the forms that find their type under every demand;
* `Expr.elaborate_of_findsType`: what a demand changes for them;
* `Expr.Agrees`, `Expr.agrees_of_elaborate`: what can be found, checked at every type;
* `infer_check_agree`: inferring and checking one expression.
-/

import EtaLong.Proofs.Elaboration

namespace EtaLong

open Elaboration

namespace Elaboration.Demand

/-- A demanded type is settled by that type only. -/
theorem settle_exactly_eq_ok {expected : Ty} {rule : String} {span : Span}
    {found outcome : Term × Ty} :
    (Demand.exactly expected rule).settle span found = .ok outcome ↔
      expected = found.2 ∧ outcome = found := by
  unfold Demand.settle
  by_cases same : found.2 = expected
  · simp [same, eq_comm]
  · simp [same, Ne.symm same]

end Elaboration.Demand

namespace Expr

/-! ### Forms that find their type -/

/-- **The forms that find their type** whether or not one is demanded. -/
def FindsType : Expr → Prop
  | var _ _ | app _ _ _ | the _ _ _ | atom _ _ | zero _ | number _ _ | add1 _ _ | car _ _
  | cdr _ _ => True
  | _ => False

/-- **A demand is settled last**, by the type that is found without it. -/
theorem elaborate_of_findsType {expr : Expr} (finds : expr.FindsType) (scope : Scope)
    (demand : Demand) :
    expr.elaborate scope demand = expr.elaborate scope .any >>= demand.settle expr.span := by
  cases expr with
  | var span name =>
    rw [elaborate, elaborate]
    cases scope.find? name <;> rfl
  | app span fn args =>
    rw [elaborate, elaborate]
    cases fn.elaborate scope .any with
    | error error => rfl
    | ok function =>
      dsimp only [bind, Except.bind]
      by_cases none : function.2.arity = 0
      · rw [if_pos none, if_pos none]
      by_cases tooMany : function.2.arity < args.length
      · rw [if_neg none, if_neg none, if_pos tooMany, if_pos tooMany]
      rw [if_neg none, if_neg none, if_neg tooMany, if_neg tooMany]
      cases elaborateArgs scope function.1 function.2 args <;> rfl
  | the span ty body =>
    rw [elaborate, elaborate]
    cases body.elaborate scope (.exactly ty.toTy "the") <;> rfl
  | atom span name => rfl
  | zero span => rfl
  | number span value => rfl
  | add1 span pred =>
    rw [elaborate, elaborate]
    cases pred.elaborate scope (.exactly .nat "add1") <;> rfl
  | car span operand =>
    rw [elaborate, elaborate]
    cases operand.elaborate scope .any with
    | error error => rfl
    | ok found => obtain ⟨term, _ | _ | _ | _ | _⟩ := found <;> rfl
  | cdr span operand =>
    rw [elaborate, elaborate]
    cases operand.elaborate scope .any with
    | error error => rfl
    | ok found => obtain ⟨term, _ | _ | _ | _ | _⟩ := found <;> rfl
  | _ => exact absurd finds id

/-! ### Checking what can be found -/

/-- **Checking agrees with what is found**: it succeeds at the type of what is found, under every
rule, with the same term, and at no other type. -/
def Agrees (scope : Scope) (expr : Expr) (found : Term × Ty) : Prop :=
  ∀ expected rule outcome, expr.elaborate scope (.exactly expected rule) = .ok outcome ↔
    expected = found.2 ∧ outcome = found

namespace Agrees

variable {scope : Scope} {span : Span} {found : Term × Ty}

theorem of_findsType {expr : Expr} (finds : expr.FindsType)
    (run : expr.elaborate scope .any = .ok found) : Agrees scope expr found := by
  intro expected rule outcome
  rw [elaborate_of_findsType finds, run]
  exact Demand.settle_exactly_eq_ok

/-- The check at the type that is found. -/
theorem at_found {expr : Expr} (agrees : Agrees scope expr found) (rule : String) :
    expr.elaborate scope (.exactly found.2 rule) = .ok found :=
  (agrees found.2 rule found).mpr ⟨rfl, rfl⟩

theorem pair {fst snd : Expr} {first second : Term × Ty} (fstAgrees : Agrees scope fst first)
    (sndAgrees : Agrees scope snd second) :
    Agrees scope (.pair span fst snd) (.pair first.1 second.1, .pair first.2 second.2) := by
  intro expected rule outcome
  constructor
  · intro run
    cases expected with
    | pair fstTy sndTy =>
      rw [elaborate] at run
      obtain ⟨firstRead, fstRun, run⟩ := bind_eq_ok.mp run
      obtain ⟨secondRead, sndRun, done⟩ := bind_eq_ok.mp run
      obtain ⟨rfl, rfl⟩ := (fstAgrees _ _ _).mp fstRun
      obtain ⟨rfl, rfl⟩ := (sndAgrees _ _ _).mp sndRun
      cases done
      exact ⟨rfl, rfl⟩
    | _ => cases run
  · rintro ⟨rfl, rfl⟩
    rw [elaborate, fstAgrees.at_found, sndAgrees.at_found]
    rfl

/-- The tail of a cell is checked at the same type in both modes. -/
theorem cons {head tail : Expr} {first rest : Term × Ty} (headAgrees : Agrees scope head first)
    (tailRun : tail.elaborate scope (.exactly (.list first.2) "::") = .ok rest) :
    Agrees scope (.cons span head tail) (.cons first.1 rest.1, .list first.2) := by
  intro expected rule outcome
  constructor
  · intro run
    cases expected with
    | list elem =>
      rw [elaborate] at run
      obtain ⟨firstRead, headRun, run⟩ := bind_eq_ok.mp run
      obtain ⟨restRead, restRun, done⟩ := bind_eq_ok.mp run
      obtain ⟨rfl, rfl⟩ := (headAgrees _ _ _).mp headRun
      cases tailRun.symm.trans restRun
      cases done
      exact ⟨rfl, rfl⟩
    | _ => cases run
  · rintro ⟨rfl, rfl⟩
    rw [elaborate, headAgrees.at_found, tailRun]
    rfl

/-- **A demand that one part takes over** is met by what that part is found to be; the rest of the
form is elaborated after it as if its type had been found. -/
theorem of_part {expr part : Expr} {inner : String}
    {rest : Term × Ty → Except Error (Term × Ty)} {whole : Term}
    (partAgrees : Agrees scope part found)
    (passes : ∀ expected rule, expr.elaborate scope (.exactly expected rule) =
      part.elaborate scope (.exactly expected inner) >>= rest)
    (restRun : rest found = .ok (whole, found.2)) : Agrees scope expr (whole, found.2) := by
  intro expected rule outcome
  rw [passes, bind_eq_ok]
  constructor
  · rintro ⟨read, partRun, done⟩
    obtain ⟨rfl, rfl⟩ := (partAgrees _ _ _).mp partRun
    cases restRun.symm.trans done
    exact ⟨rfl, rfl⟩
  · rintro ⟨rfl, rfl⟩
    exact ⟨found, partAgrees.at_found inner, restRun⟩

theorem recNat {target base step : Expr} {counted start next : Term × Ty}
    (targetRun : target.elaborate scope (.exactly .nat "rec-nat") = .ok counted)
    (baseAgrees : Agrees scope base start)
    (stepRun : step.elaborate scope (.exactly (Ty.natStep start.2) "rec-nat") = .ok next) :
    Agrees scope (.recNat span target base step)
      (.recNat start.2 counted.1 start.1 next.1, start.2) := by
  have passes (expected : Ty) (rule : String) :
      (Expr.recNat span target base step).elaborate scope (.exactly expected rule) =
        base.elaborate scope (.exactly expected "rec-nat") >>= fun start => do
          let next ← step.elaborate scope (.exactly (Ty.natStep start.2) "rec-nat")
          return (.recNat start.2 counted.1 start.1 next.1, start.2) := by
    rw [elaborate, targetRun]
    rfl
  exact baseAgrees.of_part passes (bind_eq_ok.mpr ⟨next, stepRun, rfl⟩)

theorem recList {target base step : Expr} {items : Term} {elem : Ty} {start next : Term × Ty}
    (targetRun : target.elaborate scope .any = .ok (items, .list elem))
    (baseAgrees : Agrees scope base start)
    (stepRun : step.elaborate scope (.exactly (Ty.listStep elem start.2) "rec-list") = .ok next) :
    Agrees scope (.recList span target base step)
      (.recList start.2 items start.1 next.1, start.2) := by
  have passes (expected : Ty) (rule : String) :
      (Expr.recList span target base step).elaborate scope (.exactly expected rule) =
        base.elaborate scope (.exactly expected "rec-list") >>= fun start => do
          let next ← step.elaborate scope (.exactly (Ty.listStep elem start.2) "rec-list")
          return (.recList start.2 items start.1 next.1, start.2) := by
    rw [elaborate, targetRun]
    rfl
  exact baseAgrees.of_part passes (bind_eq_ok.mpr ⟨next, stepRun, rfl⟩)

end Agrees

/-- **What can be found can be checked**, at its type and at no other. The induction is on the
expression: the parts that a demand is passed on to are found where nothing is demanded. -/
theorem agrees_of_elaborate {scope : Scope} : ∀ {expr : Expr} {found : Term × Ty},
    expr.elaborate scope .any = .ok found → Agrees scope expr found
  | .pair _ _ _, _, run => by
    rw [elaborate] at run
    obtain ⟨first, fstRun, run⟩ := bind_eq_ok.mp run
    obtain ⟨second, sndRun, done⟩ := bind_eq_ok.mp run
    cases done
    exact .pair (agrees_of_elaborate fstRun) (agrees_of_elaborate sndRun)
  | .cons _ _ _, _, run => by
    rw [elaborate] at run
    obtain ⟨first, headRun, run⟩ := bind_eq_ok.mp run
    obtain ⟨rest, tailRun, done⟩ := bind_eq_ok.mp run
    cases done
    exact .cons (agrees_of_elaborate headRun) tailRun
  | .recNat _ _ _ _, _, run => by
    rw [elaborate] at run
    obtain ⟨counted, targetRun, run⟩ := bind_eq_ok.mp run
    obtain ⟨start, baseRun, run⟩ := bind_eq_ok.mp run
    obtain ⟨next, stepRun, done⟩ := bind_eq_ok.mp run
    cases done
    exact .recNat targetRun (agrees_of_elaborate baseRun) stepRun
  | .recList _ _ _ _, _, run => by
    rw [elaborate] at run
    obtain ⟨⟨items, itemsTy⟩, targetRun, run⟩ := bind_eq_ok.mp run
    cases itemsTy with
    | list elem =>
      obtain ⟨start, baseRun, run⟩ := bind_eq_ok.mp run
      obtain ⟨next, stepRun, done⟩ := bind_eq_ok.mp run
      cases done
      exact .recList targetRun (agrees_of_elaborate baseRun) stepRun
    | _ => cases run
  | .lam _ _ _, _, run => by
    rw [elaborate] at run
    cases run
  | .nil _, _, run => by
    rw [elaborate] at run
    cases run
  | .tuple _ _ _, _, run => by
    rw [elaborate] at run
    cases run
  | .listLiteral _ _, _, run => by
    rw [elaborate] at run
    cases run
  | .var _ _, _, run => .of_findsType trivial run
  | .app _ _ _, _, run => .of_findsType trivial run
  | .the _ _ _, _, run => .of_findsType trivial run
  | .atom _ _, _, run => .of_findsType trivial run
  | .zero _, _, run => .of_findsType trivial run
  | .number _ _, _, run => .of_findsType trivial run
  | .add1 _ _, _, run => .of_findsType trivial run
  | .car _ _, _, run => .of_findsType trivial run
  | .cdr _ _, _, run => .of_findsType trivial run

end Expr

/-- **Inferring and checking agree.** Where a type is inferred, a check succeeds at that type only,
whichever rule asks for it, and gives the term that came with the type. What is inferred has no
shorthand in it, so none need be excluded. -/
theorem infer_check_agree {scope : Scope} {expr : Expr} {term : Term} {ty : Ty}
    (found : expr.infer scope = .ok (term, ty)) (expected : Ty) (rule : String) :
    ((∃ checked, expr.check scope expected rule = .ok checked) ↔ expected = ty) ∧
      ∀ checked, expr.check scope expected rule = .ok checked → checked = term := by
  have agrees : ∀ checked, expr.check scope expected rule = .ok checked ↔
      expected = ty ∧ checked = term := by
    intro checked
    rw [Expr.check_eq_ok_iff, Expr.agrees_of_elaborate found]
    constructor
    · rintro ⟨same, read⟩
      exact ⟨same, congrArg Prod.fst read⟩
    · rintro ⟨rfl, rfl⟩
      exact ⟨rfl, rfl⟩
  refine ⟨⟨?_, ?_⟩, ?_⟩
  · rintro ⟨checked, run⟩
    exact ((agrees checked).mp run).1
  · intro same
    exact ⟨term, (agrees term).mpr ⟨same, rfl⟩⟩
  · intro checked run
    exact ((agrees checked).mp run).2

/-- A recursion over a number in scope that starts from a pair, whose step is a function without a
type of its own: inferred, checked at its type for an application, and refused as a number. -/
theorem infer_check_agree_at_recursion_from_pair :
    ∃ (expr : Expr) (term : Term),
      expr.infer [("n", .nat)] = .ok (term, .pair .atom .nat) ∧
      expr.check [("n", .nat)] (.pair .atom .nat) "app" = .ok term ∧
      ¬ ∃ checked, expr.check [("n", .nat)] .nat "app" = .ok checked := by
  let span : Span := ⟨0, 0⟩
  let start : Expr := .pair span (.atom span "a") (.number span 2)
  let step : Expr := .lam span [⟨"k", span⟩, ⟨"so-far", span⟩]
    (.pair span (.car span (.var span "so-far")) (.add1 span (.var span "k")))
  let expr : Expr := .recNat span (.var span "n") start step
  have found : expr.infer [("n", .nat)] = .ok (_, .pair .atom .nat) := rfl
  have atType := infer_check_agree found (.pair .atom .nat) "app"
  have atOther := infer_check_agree found .nat "app"
  obtain ⟨checked, run⟩ := atType.1.mpr rfl
  refine ⟨expr, _, found, ?_, ?_⟩
  · rw [run, atType.2 checked run]
  · intro succeeds
    cases atOther.1.mp succeeds

end EtaLong
