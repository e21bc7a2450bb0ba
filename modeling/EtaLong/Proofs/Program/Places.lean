/-
**Where mistakes in programs are reported.**

Declarations that were parsed from a stretch of a source stand in that stretch with all of their
nodes, also after their shorthand is expanded. What is wrong with them is reported at one of them
or at one of their nodes, and so inside the stretch.

* `Decl.Placed`: a declaration with all its nodes between two offsets;
* `Decl.placed_of_mapM`, `Decl.mapM_failsInside`: declarations parsed from a stretch;
* `Program.Progress.steps_failInside`: mistakes found while they are elaborated.
-/

import EtaLong.Proofs.Elaboration.Places
import EtaLong.Proofs.Expr.Parser
import EtaLong.Proofs.Program

namespace EtaLong

variable {low high : Int}

/-! ### Declarations in a stretch of a source -/

/-- **A declaration with all its nodes between two offsets.** -/
def Decl.Placed (low high : Int) (decl : Decl) : Prop :=
  decl.span.Inside low high ∧ ∀ body ∈ decl.bodies, body.Nested ∧ body.span.Inside low high

/-- An error that points into a row stands where the row stands. -/
theorem Form.Error.PointsInto.inside {row : List Sexp} {error : Form.Error}
    (ordered : Span.InOrder low high ((Sexp.tokensAll row).map Token.span))
    (points : error.PointsInto row) : error.span.Inside low high := by
  obtain ⟨part, occurs, same⟩ := points
  rw [← same]
  exact Sexp.reach_of_inOrder (occurs.inOrder ordered)

namespace Decl

/-- Expanding the shorthand of a declaration leaves it in its place. -/
theorem expand_placed {decl : Decl} (inside : decl.span.Inside low high)
    (laid : ∀ body ∈ decl.bodies, body.Laid ∧ body.span.Inside low high) :
    decl.expand.Placed low high := by
  have expanded : ∀ body ∈ decl.bodies, body.expand.Nested ∧ body.expand.span.Inside low high := by
    intro body among
    obtain ⟨bodyLaid, starts, _, stops⟩ := laid body among
    obtain ⟨nested, within⟩ := bodyLaid.expand
    exact ⟨nested, within.mono starts stops⟩
  cases decl with
  | claim span name ty => exact ⟨inside, List.forall_mem_nil _⟩
  | define span name body =>
    exact ⟨inside, List.forall_mem_singleton.mpr (expanded body (List.mem_singleton_self body))⟩
  | eval span body =>
    exact ⟨inside, List.forall_mem_singleton.mpr (expanded body (List.mem_singleton_self body))⟩

variable {row : List Sexp}

/-- **Declarations parsed from a stretch stand in it.** -/
theorem placed_of_mapM {decls : List Decl}
    (ordered : Span.InOrder low high ((Sexp.tokensAll row).map Token.span))
    (parsed : row.mapM Decl.ofSexp = .ok decls) :
    ∀ decl ∈ decls.map Decl.expand, decl.Placed low high := by
  intro decl among
  obtain ⟨written, writtenAmong, rfl⟩ := List.mem_map.mp among
  obtain ⟨item, itemAmong, made⟩ := exists_of_mem_mapM parsed writtenAmong
  obtain ⟨inside, laid⟩ := laid_of_ofSexp ((Sexp.Occurs.here itemAmong).inOrder ordered) made
  exact expand_placed inside laid

/-- **What is no declaration is reported in the stretch.** -/
theorem mapM_failsInside (ordered : Span.InOrder low high ((Sexp.tokensAll row).map Token.span)) :
    FailsOnly (fun error : Form.Error => error.span.Inside low high) (row.mapM Decl.ofSexp) := by
  refine .mapM fun item among => (ofSexp_pointsInto item).mono fun error points => ?_
  exact (points.mono among).inside ordered

end Decl

/-! ### Elaborating them -/

namespace Program

/-- Where an error in a declaration stands. -/
def Error.span : Error → Span
  | .alreadyClaimed span _ => span
  | .alreadyDefined _ span _ => span
  | .body error => error.span

/-- A report is at the place of its error. -/
theorem Error.span_of_report? {error : Error} {report : Diagnostic}
    (reported : error.report? = some report) : report.span = some error.span := by
  cases error with
  | alreadyClaimed span name =>
    cases reported
    rfl
  | alreadyDefined rule span name =>
    cases reported
    rfl
  | body error =>
    obtain ⟨_, _, rfl⟩ := Option.map_eq_some_iff.mp reported
    rfl

namespace Progress

/-- A body that is placed fails in its place. -/
theorem body_failsInside {α : Type} {body : Expr} {run : Except Elaboration.Error α}
    (placed : body.Nested ∧ body.span.Inside low high)
    (only : FailsOnly (Elaboration.Error.PointsInto body) run) :
    FailsOnly (fun error : Error => error.span.Inside low high) (run.mapError .body) := by
  obtain ⟨nested, starts, _, stops⟩ := placed
  cases run with
  | ok value => exact .ok value
  | error error =>
    obtain ⟨node, occurs, same⟩ := only error rfl
    refine .error ?_
    change error.span.Inside low high
    rw [← same]
    exact (nested.inside occurs).mono starts stops

/-- **A declaration fails where it stands.** -/
theorem step_failsInside (progress : Progress) {decl : Decl} (placed : decl.Placed low high) :
    FailsOnly (fun error : Error => error.span.Inside low high) (progress.step decl) := by
  obtain ⟨inside, bodies⟩ := placed
  cases decl with
  | claim span name ty =>
    rw [step]
    by_cases claimed : (progress.claims.lookup name).isSome
    · rw [if_pos claimed]
      exact .error inside
    rw [if_neg claimed]
    by_cases defined : (progress.scope.find? name).isSome
    · rw [if_pos defined]
      exact .error inside
    rw [if_neg defined]
    exact .ok _
  | define span name body =>
    have bodyPlaced := bodies body (List.mem_singleton_self body)
    rw [step]
    by_cases defined : (progress.scope.find? name).isSome
    · rw [if_pos defined]
      exact .error inside
    rw [if_neg defined]
    cases progress.claims.lookup name with
    | none => exact .bind (body_failsInside bodyPlaced (body.elaborate_pointsInto _ _)) fun _ => .ok _
    | some ty => exact .bind (body_failsInside bodyPlaced (body.check_pointsInto _ _ _)) fun _ => .ok _
  | eval span body =>
    have bodyPlaced := bodies body (List.mem_singleton_self body)
    rw [step]
    exact .bind (body_failsInside bodyPlaced (body.elaborate_pointsInto _ _)) fun _ => .ok _

/-- **Declarations fail where they stand.** -/
theorem steps_failInside {progress last : Progress} {decls : List Decl} {error : Error}
    (placed : ∀ decl ∈ decls, decl.Placed low high)
    (ended : progress.steps decls = (last, some error)) : error.span.Inside low high := by
  induction decls generalizing progress with
  | nil => cases ended
  | cons decl decls ih =>
    obtain ⟨first, others⟩ := List.forall_mem_cons.mp placed
    rw [steps] at ended
    cases stepped : progress.step decl with
    | ok next =>
      rw [stepped] at ended
      exact ih others ended
    | error found =>
      rw [stepped] at ended
      cases ended
      exact step_failsInside _ first error stepped

end Progress

end Program

end EtaLong
