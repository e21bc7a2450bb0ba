/-
**What elaboration fails with.**

An error of elaboration is raised by one node of the expression. There something is really wrong:
the type that was found is not the one that was wanted, or there are more arguments than arrows. The
error stands at the node or at one of its parts. Whatever holds of such errors, and is passed on from
a part to the whole, holds of every error that an expression is refused with.

* `Elaboration.Error.Genuine`, `Elaboration.Error.RaisedBy`: what a node raises;
* `Expr.elaborate_failsOnly`, `Expr.check_failsOnly`: what follows for all errors of an expression;
* `Expr.elaborate_genuine`: only what is wrong is reported.
-/

import EtaLong.Elaboration
import EtaLong.Proofs.Expr.Parts
import EtaLong.Proofs.Outcome

namespace EtaLong

namespace Elaboration

/-- **What is wrong with an expression** when a mismatch or a wrong number of arguments is reported.
Of what was wanted and what was found at least one is a type. -/
def Error.Genuine : Error → Prop
  | .mismatch _ _ (.type expected) (.type actual) => actual ≠ expected
  | .mismatch _ _ .function (.type actual) => actual.arity = 0
  | .mismatch _ _ .pair (.type actual) => ∀ fst snd, actual ≠ .pair fst snd
  | .mismatch _ _ .list (.type actual) => ∀ elem, actual ≠ .list elem
  | .mismatch _ _ (.type expected) .lambda => expected.arity = 0
  | .mismatch _ _ (.type expected) .nil => ∀ elem, expected ≠ .list elem
  | .mismatch _ _ (.type expected) .pair => ∀ fst snd, expected ≠ .pair fst snd
  | .mismatch _ _ (.type expected) .list => ∀ elem, expected ≠ .list elem
  | .mismatch _ _ _ _ => False
  | .tooManyArguments _ count fnTy => fnTy.arity < count
  | .tooManyBinders _ count expected => expected.arity < count
  | _ => True

/-- **An error that an expression raises itself**: something is wrong with it, at the expression or at
one of its parts. -/
structure Error.RaisedBy (expr : Expr) (error : Error) : Prop where
  genuine : error.Genuine
  place : ∃ node ∈ expr :: expr.parts, node.span = error.span

variable {expr : Expr}

theorem Error.RaisedBy.here {error : Error} (genuine : error.Genuine)
    (same : expr.span = error.span) : error.RaisedBy expr :=
  ⟨genuine, expr, List.mem_cons_self, same⟩

theorem Error.RaisedBy.atPart {part : Expr} {error : Error} (among : part ∈ expr.parts)
    (genuine : error.Genuine) (same : part.span = error.span) : error.RaisedBy expr :=
  ⟨genuine, part, .tail expr among, same⟩

/-- A demand that is not met is an error of the expression that was looked at. -/
theorem Demand.settle_raisedBy {span : Span} (same : expr.span = span) (demand : Demand)
    (found : Term × Ty) : FailsOnly (Error.RaisedBy expr) (demand.settle span found) := by
  cases demand with
  | any => exact .ok found
  | exactly ty rule =>
    rw [Demand.settle]
    by_cases met : found.2 = ty
    · rw [if_pos met]
      exact .ok found
    · rw [if_neg met]
      exact .error (.here met same)

end Elaboration

open Elaboration

namespace Expr

/-- Arguments fail as each of them does, or at one that is left over. -/
theorem elaborateArgs_failsOnly {allowed : Elaboration.Error → Prop} (scope : Scope)
    {args : List Expr}
    (each : ∀ arg ∈ args, ∀ demand, FailsOnly allowed (arg.elaborate scope demand))
    (leftOver : ∀ arg ∈ args, allowed (.noArrowLeft arg.span)) (function : Term) (ty : Ty) :
    FailsOnly allowed (elaborateArgs scope function ty args) := by
  induction args generalizing function ty with
  | nil =>
    rw [elaborateArgs]
    exact .ok _
  | cons arg args ih =>
    obtain ⟨argFails, argsFail⟩ := List.forall_mem_cons.mp each
    obtain ⟨argLeft, argsLeft⟩ := List.forall_mem_cons.mp leftOver
    cases ty with
    | fn dom cod =>
      rw [elaborateArgs]
      exact .bind (argFails _) fun _ => ih argsFail argsLeft _ _
    | _ => exact .error argLeft

/-- **What elaboration fails with**: what an expression raises itself, and what its parts pass on. -/
theorem elaborate_failsOnly {allowed : Expr → Elaboration.Error → Prop}
    (own : ∀ expr error, error.RaisedBy expr → allowed expr error)
    (passed : ∀ expr part error, part ∈ expr.parts → allowed part error → allowed expr error)
    (expr : Expr) (scope : Scope) (demand : Demand) :
    FailsOnly (allowed expr) (expr.elaborate scope demand) := by
  induction expr using parts_induction generalizing scope demand with
  | step expr each =>
    have part : ∀ part ∈ expr.parts, ∀ scope demand,
        FailsOnly (allowed expr) (part.elaborate scope demand) :=
      fun part among scope demand => (each part among scope demand).mono fun error fails =>
        passed expr part error among fails
    have here {error : Elaboration.Error} (genuine : error.Genuine)
        (same : expr.span = error.span) : allowed expr error := own expr error (.here genuine same)
    have atPart {part : Expr} {error : Elaboration.Error} (among : part ∈ expr.parts)
        (genuine : error.Genuine) (same : part.span = error.span) : allowed expr error :=
      own expr error (.atPart among genuine same)
    have settle (demand : Demand) (found : Term × Ty) :
        FailsOnly (allowed expr) (demand.settle expr.span found) :=
      (demand.settle_raisedBy rfl found).mono fun error raised => own expr error raised
    cases expr with
    | var span name =>
      rw [elaborate]
      cases scope.find? name with
      | none => exact .error (here trivial rfl)
      | some entry => exact settle demand _
    | app span fn args =>
      rw [elaborate]
      refine .bind (part fn (.head _) _ _) fun found => ?_
      dsimp only
      by_cases none : found.2.arity = 0
      · rw [if_pos none]
        exact .error (atPart (.head _) none rfl)
      rw [if_neg none]
      by_cases tooMany : found.2.arity < args.length
      · rw [if_pos tooMany]
        exact .error (here tooMany rfl)
      rw [if_neg tooMany]
      refine .bind (elaborateArgs_failsOnly scope ?_ ?_ _ _) fun applied => settle demand applied
      · exact fun arg among demand => part arg (.tail fn among) scope demand
      · exact fun arg among => atPart (.tail fn among) trivial rfl
    | the span ty body =>
      rw [elaborate]
      exact .bind (part body (.head _) _ _) fun _ => settle demand _
    | atom span name => exact settle demand _
    | zero span => exact settle demand _
    | number span value => exact settle demand _
    | add1 span pred =>
      rw [elaborate]
      exact .bind (part pred (.head _) _ _) fun _ => settle demand _
    | car span operand =>
      rw [elaborate]
      refine .bind (part operand (.head _) _ _) fun found => ?_
      obtain ⟨term, ty⟩ := found
      cases ty with
      | pair fst snd => exact settle demand _
      | _ => exact .error (atPart (.head _) (by simp [Elaboration.Error.Genuine]) rfl)
    | cdr span operand =>
      rw [elaborate]
      refine .bind (part operand (.head _) _ _) fun found => ?_
      obtain ⟨term, ty⟩ := found
      cases ty with
      | pair fst snd => exact settle demand _
      | _ => exact .error (atPart (.head _) (by simp [Elaboration.Error.Genuine]) rfl)
    | lam span binders body =>
      cases demand with
      | any => exact .error (here trivial rfl)
      | exactly expected rule =>
        rw [elaborate]
        by_cases none : expected.arity = 0
        · rw [if_pos none]
          exact .error (here none rfl)
        rw [if_neg none]
        by_cases tooMany : expected.arity < binders.length
        · rw [if_pos tooMany]
          exact .error (here tooMany rfl)
        rw [if_neg tooMany]
        cases scope.enter? binders expected with
        | none => exact .error (here trivial rfl)
        | some entered => exact .bind (part body (.head _) _ _) fun _ => .ok _
    | nil span =>
      cases demand with
      | any => exact .error (here trivial rfl)
      | exactly expected rule =>
        cases expected with
        | list elem => exact .ok _
        | _ => exact .error (here (by simp [Elaboration.Error.Genuine]) rfl)
    | pair span fst snd =>
      cases demand with
      | any =>
        rw [elaborate]
        exact .bind (part fst (.head _) _ _) fun _ =>
          .bind (part snd (.tail _ (.head _)) _ _) fun _ => .ok _
      | exactly expected rule =>
        cases expected with
        | pair fstTy sndTy =>
          rw [elaborate]
          exact .bind (part fst (.head _) _ _) fun _ =>
            .bind (part snd (.tail _ (.head _)) _ _) fun _ => .ok _
        | _ => exact .error (here (by simp [Elaboration.Error.Genuine]) rfl)
    | cons span head tail =>
      cases demand with
      | any =>
        rw [elaborate]
        exact .bind (part head (.head _) _ _) fun _ =>
          .bind (part tail (.tail _ (.head _)) _ _) fun _ => .ok _
      | exactly expected rule =>
        cases expected with
        | list elem =>
          rw [elaborate]
          exact .bind (part head (.head _) _ _) fun _ =>
            .bind (part tail (.tail _ (.head _)) _ _) fun _ => .ok _
        | _ => exact .error (here (by simp [Elaboration.Error.Genuine]) rfl)
    | recNat span target base step =>
      rw [elaborate]
      exact .bind (part target (.head _) _ _) fun _ =>
        .bind (part base (.tail _ (.head _)) _ _) fun _ =>
          .bind (part step (.tail _ (.tail _ (.head _))) _ _) fun _ => .ok _
    | recList span target base step =>
      rw [elaborate]
      refine .bind (part target (.head _) _ _) fun found => ?_
      obtain ⟨items, ty⟩ := found
      cases ty with
      | list elem =>
        exact .bind (part base (.tail _ (.head _)) _ _) fun _ =>
          .bind (part step (.tail _ (.tail _ (.head _))) _ _) fun _ => .ok _
      | _ => exact .error (atPart (.head _) (by simp [Elaboration.Error.Genuine]) rfl)
    | tuple span first rest => exact .error (here trivial rfl)
    | listLiteral span items => exact .error (here trivial rfl)

/-- A check fails as elaboration under the demand for the type does. -/
theorem check_failsOnly {allowed : Elaboration.Error → Prop} {expr : Expr} {scope : Scope} {ty : Ty}
    {rule : String} (only : FailsOnly allowed (expr.elaborate scope (.exactly ty rule))) :
    FailsOnly allowed (expr.check scope ty rule) := by
  unfold check
  generalize expr.elaborate scope (.exactly ty rule) = run at only
  cases run with
  | ok found => exact .ok _
  | error error => exact .error (only error rfl)

/-- **Elaboration reports only what is wrong.** -/
theorem elaborate_genuine (expr : Expr) (scope : Scope) (demand : Demand) :
    FailsOnly Elaboration.Error.Genuine (expr.elaborate scope demand) :=
  elaborate_failsOnly (fun _ _ raised => raised.genuine) (fun _ _ _ _ genuine => genuine) expr scope
    demand

end Expr

end EtaLong
