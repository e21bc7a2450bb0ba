/-
**Elaboration errors are at a node.**

Whatever is wrong with an expression is reported at the expression itself or at one inside it,
whatever is in scope and whatever is asked.

* `Elaboration.Error.PointsInto`: an error at a node of an expression;
* `Expr.elaborate_pointsInto`: elaboration fails at a node only.
-/

import EtaLong.Proofs.Elaboration.Errors

namespace EtaLong

namespace Elaboration

/-- **An error points into an expression** when it is at one of its nodes. -/
def Error.PointsInto (expr : Expr) (error : Error) : Prop :=
  ∃ node, Expr.Occurs node expr ∧ node.span = error.span

namespace Error.PointsInto

variable {expr inner : Expr} {error : Error}

theorem here (same : expr.span = error.span) : error.PointsInto expr := ⟨expr, .here, same⟩

theorem part (points : error.PointsInto inner) (among : inner ∈ expr.parts) :
    error.PointsInto expr := by
  obtain ⟨node, occurs, same⟩ := points
  exact ⟨node, .inside among occurs, same⟩

end Error.PointsInto

/-- What an expression raises itself is at a node. -/
theorem Error.RaisedBy.pointsInto {expr : Expr} {error : Error} (raised : error.RaisedBy expr) :
    error.PointsInto expr := by
  obtain ⟨node, among, same⟩ := raised.place
  rcases List.mem_cons.mp among with rfl | inside
  · exact .here same
  · exact (Error.PointsInto.here same).part inside

end Elaboration

open Elaboration

namespace Expr

/-- **Elaboration fails at a node only.** -/
theorem elaborate_pointsInto (expr : Expr) (scope : Scope) (demand : Demand) :
    FailsOnly (Error.PointsInto expr) (expr.elaborate scope demand) :=
  elaborate_failsOnly (fun _ _ raised => raised.pointsInto)
    (fun _ _ _ among points => points.part among) expr scope demand

theorem check_pointsInto (expr : Expr) (scope : Scope) (ty : Ty) (rule : String) :
    FailsOnly (Error.PointsInto expr) (expr.check scope ty rule) :=
  check_failsOnly (expr.elaborate_pointsInto scope (.exactly ty rule))

end Expr

end EtaLong
