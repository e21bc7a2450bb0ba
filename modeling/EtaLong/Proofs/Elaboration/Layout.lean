/-
**Elaboration does not look at places.**

A place is only passed on to the error that is reported there. So an expression that has lost its
places is elaborated to the same term at the same type, or is refused for the same reason.

* `Elaboration.Error.unplaced`: an error without its place;
* `Expr.elaborate_unplaced`: elaboration without places;
* `Elaboration.Error.report?_unplaced`: what is reported is the same but for the place.
-/

import EtaLong.Elaboration
import EtaLong.Proofs.Expr.Layout

namespace EtaLong

/-- A report without the place and the source that it is about. -/
def Diagnostic.unplaced (report : Diagnostic) : Diagnostic :=
  { report with span := none, source := none }

namespace Elaboration

/-- An elaboration error without its place. -/
def Error.unplaced : Error → Error
  | unknownName _ name => unknownName .nowhere name
  | mismatch rule _ wanted found => mismatch rule .nowhere wanted found
  | tooManyArguments _ count fnTy => tooManyArguments .nowhere count fnTy
  | tooManyBinders _ count expected => tooManyBinders .nowhere count expected
  | lambdaWithoutType _ => lambdaWithoutType .nowhere
  | nilWithoutType _ => nilWithoutType .nowhere
  | shorthand expr => shorthand expr.unplaced
  | noArrowLeft _ => noArrowLeft .nowhere

/-- What is reported is the same but for the place. -/
theorem Error.report?_unplaced (error : Error) :
    error.unplaced.report?.map Diagnostic.unplaced = error.report?.map Diagnostic.unplaced := by
  cases error <;> rfl

theorem Demand.settle_unplaced (demand : Demand) (span : Span) (found : Term × Ty) :
    demand.settle .nowhere found = bimap Error.unplaced id (demand.settle span found) := by
  cases demand with
  | any => rfl
  | exactly ty rule =>
    unfold Demand.settle
    by_cases met : found.2 = ty
    · simp [met, bimap]
    · simp [met, bimap, Error.unplaced]

end Elaboration

open Elaboration

/-- Parameters enter a scope by their names. -/
theorem Scope.enter?_unplaced (scope : Scope) (binders : List Binder) (ty : Ty) :
    scope.enter? (binders.map Binder.unplaced) ty = scope.enter? binders ty := by
  induction binders generalizing scope ty with
  | nil => rfl
  | cons binder binders ih =>
    cases ty with
    | fn dom cod => exact ih _ cod
    | _ => rfl

namespace Expr

/-- Arguments are elaborated without a look at places when each of them is. -/
theorem elaborateArgs_unplaced {scope : Scope} {args : List Expr}
    (each : ∀ arg ∈ args, ∀ demand, arg.unplaced.elaborate scope demand =
      bimap Error.unplaced id (arg.elaborate scope demand)) (function : Term) (ty : Ty) :
    elaborateArgs scope function ty (unplacedAll args) =
      bimap Error.unplaced id (elaborateArgs scope function ty args) := by
  induction args generalizing function ty with
  | nil => rfl
  | cons arg args ih =>
    obtain ⟨first, others⟩ := List.forall_mem_cons.mp each
    cases ty with
    | fn dom cod =>
      rw [unplacedAll, elaborateArgs, elaborateArgs, first]
      exact bimap_bind fun found => ih others _ _
    | _ =>
      simp only [unplacedAll, elaborateArgs, span_unplaced]
      rfl

/-- **Elaboration does not look at places.** -/
theorem elaborate_unplaced (expr : Expr) (scope : Scope) (demand : Demand) :
    expr.unplaced.elaborate scope demand =
      bimap Error.unplaced id (expr.elaborate scope demand) := by
  induction expr using parts_induction generalizing scope demand with
  | step expr each =>
    cases expr with
    | var span name =>
      rw [unplaced, elaborate, elaborate]
      cases scope.find? name with
      | none => rfl
      | some entry => exact demand.settle_unplaced span _
    | app span fn args =>
      rw [unplaced, elaborate, elaborate, each fn (.head _)]
      refine bimap_bind fun found => ?_
      obtain ⟨function, fnTy⟩ := found
      have counted : (unplacedAll args).length = args.length := by
        rw [unplacedAll_eq_map, List.length_map]
      dsimp only [id]
      rw [span_unplaced, counted]
      by_cases none : fnTy.arity = 0
      · rw [if_pos none, if_pos none]
        rfl
      rw [if_neg none, if_neg none]
      by_cases tooMany : fnTy.arity < args.length
      · rw [if_pos tooMany, if_pos tooMany]
        rfl
      rw [if_neg tooMany, if_neg tooMany]
      rw [elaborateArgs_unplaced fun arg among demand => each arg (.tail fn among) scope demand]
      exact bimap_bind fun applied => demand.settle_unplaced span applied
    | the span ty body =>
      rw [unplaced, elaborate, elaborate, TypeExpr.toTy_unplaced, each body (.head _)]
      exact bimap_bind fun found => demand.settle_unplaced span _
    | atom span name => exact demand.settle_unplaced span _
    | zero span => exact demand.settle_unplaced span _
    | number span value => exact demand.settle_unplaced span _
    | add1 span pred =>
      rw [unplaced, elaborate, elaborate, each pred (.head _)]
      exact bimap_bind fun found => demand.settle_unplaced span _
    | car span operand =>
      rw [unplaced, elaborate, elaborate, each operand (.head _)]
      refine bimap_bind fun found => ?_
      obtain ⟨term, ty⟩ := found
      cases ty with
      | pair fst snd => exact demand.settle_unplaced span _
      | _ =>
        dsimp only [id]
        rw [span_unplaced]
        rfl
    | cdr span operand =>
      rw [unplaced, elaborate, elaborate, each operand (.head _)]
      refine bimap_bind fun found => ?_
      obtain ⟨term, ty⟩ := found
      cases ty with
      | pair fst snd => exact demand.settle_unplaced span _
      | _ =>
        dsimp only [id]
        rw [span_unplaced]
        rfl
    | lam span binders body =>
      cases demand with
      | any => rfl
      | exactly expected rule =>
        rw [unplaced, elaborate, elaborate, List.length_map, Scope.enter?_unplaced]
        by_cases none : expected.arity = 0
        · rw [if_pos none, if_pos none]
          rfl
        rw [if_neg none, if_neg none]
        by_cases tooMany : expected.arity < binders.length
        · rw [if_pos tooMany, if_pos tooMany]
          rfl
        rw [if_neg tooMany, if_neg tooMany]
        cases scope.enter? binders expected with
        | none => rfl
        | some entered =>
          dsimp only
          rw [each body (.head _)]
          exact bimap_bind fun found => rfl
    | nil span =>
      cases demand with
      | any => rfl
      | exactly expected rule => cases expected <;> rfl
    | pair span fst snd =>
      cases demand with
      | any =>
        rw [unplaced, elaborate, elaborate, each fst (.head _), each snd (.tail _ (.head _))]
        exact bimap_bind fun first => bimap_bind fun second => rfl
      | exactly expected rule =>
        cases expected with
        | pair fstTy sndTy =>
          rw [unplaced, elaborate, elaborate]
          dsimp only
          rw [each fst (.head _), each snd (.tail _ (.head _))]
          exact bimap_bind fun first => bimap_bind fun second => rfl
        | _ => rfl
    | cons span head tail =>
      cases demand with
      | any =>
        rw [unplaced, elaborate, elaborate, each head (.head _)]
        refine bimap_bind fun first => ?_
        dsimp only [id]
        rw [each tail (.tail _ (.head _))]
        exact bimap_bind fun rest => rfl
      | exactly expected rule =>
        cases expected with
        | list elem =>
          rw [unplaced, elaborate, elaborate]
          dsimp only
          rw [each head (.head _), each tail (.tail _ (.head _))]
          exact bimap_bind fun first => bimap_bind fun rest => rfl
        | _ => rfl
    | recNat span target base step =>
      rw [unplaced, elaborate, elaborate, each target (.head _), each base (.tail _ (.head _))]
      refine bimap_bind fun counted => bimap_bind fun start => ?_
      dsimp only [id]
      rw [each step (.tail _ (.tail _ (.head _)))]
      exact bimap_bind fun next => rfl
    | recList span target base step =>
      rw [unplaced, elaborate, elaborate, each target (.head _)]
      refine bimap_bind fun found => ?_
      obtain ⟨items, ty⟩ := found
      cases ty with
      | list elem =>
        dsimp only [id]
        rw [each base (.tail _ (.head _))]
        refine bimap_bind fun start => ?_
        dsimp only [id]
        rw [each step (.tail _ (.tail _ (.head _)))]
        exact bimap_bind fun next => rfl
      | _ =>
        dsimp only [id]
        rw [span_unplaced]
        rfl
    | tuple span first rest => rfl
    | listLiteral span items => rfl

theorem check_unplaced (expr : Expr) (scope : Scope) (ty : Ty) (rule : String) :
    expr.unplaced.check scope ty rule = bimap Error.unplaced id (expr.check scope ty rule) := by
  unfold check
  rw [elaborate_unplaced]
  cases expr.elaborate scope (.exactly ty rule) <;> rfl

end Expr

end EtaLong
