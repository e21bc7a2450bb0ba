/-
**Reports point into the source.**

A source is refused while it is read, parsed or elaborated. Whichever it is, the report carries the
source and a stretch of it. The stretch is that of a token, a form or a node, also of a node that
was made when shorthand was expanded, and so it is not empty; only a source that ends too early is
reported at its end.

* `Diagnostic.PointsInto`: a report with a stretch of its source;
* `Program.exists_of_rejected`: the stage that a report comes from;
* `Program.reports_point_into_source`: every report of a program, and every error of elaboration.
-/

import EtaLong.Proofs.Program.Growth

namespace EtaLong

/-! ### What is reported elsewhere than at the end -/

/-- A text that starts with a quoted word is not the message of a source that ends too early. -/
theorem quoted_append_ne (name words : String) :
    Text.quoted name ++ words ≠ "Unexpected end of input" := by
  have mark : (Text.quoted name).toList[0]? = some (Text.quoteMark name.toList) := by
    rw [Text.quoted, String.toList_ofList]
    rfl
  refine Sexp.append_ne 0 mark ?_ words
  unfold Text.quoteMark
  split <;> decide +kernel

/-- What is wrong with a form is described otherwise. -/
theorem Form.Error.message_ne_end (error : Form.Error) :
    error.message ≠ "Unexpected end of input" := by
  cases error with
  | wrongCount span form wanted got =>
    simp only [message, String.append_assoc]
    exact Sexp.append_ne 0 rfl (by decide +kernel) _
  | notName span role => exact Sexp.append_ne 0 rfl (by decide +kernel) _
  | keywordAsName span keyword role =>
    simp only [message, String.append_assoc]
    exact Sexp.append_ne 0 rfl (by decide +kernel) _
  | misplaced span form => exact quoted_append_ne _ _
  | _ =>
    dsimp only [message]
    decide +kernel

/-- What is wrong with an expression is described otherwise. -/
theorem Elaboration.Error.message_ne_end {error : Elaboration.Error} {report : Diagnostic}
    (reported : error.report? = some report) : report.message ≠ "Unexpected end of input" := by
  cases error with
  | unknownName span name =>
    cases reported
    have letter : "Unknown name ".toList[2]? = some 'k' := by decide +kernel
    exact Sexp.append_ne 2 letter (by decide +kernel) _
  | mismatch rule span wanted found =>
    cases reported
    show "Expected " ++ wanted.text ++ ", got " ++ found.text ≠ _
    rw [String.append_assoc, String.append_assoc]
    exact Sexp.append_ne 0 rfl (by decide +kernel) _
  | tooManyArguments span count fnTy =>
    cases reported
    show s!"Applied to {count} arguments, but {fnTy.text} takes {fnTy.arity}" ≠ _
    simp only [String.append_assoc]
    exact Sexp.append_ne 0 rfl (by decide +kernel) _
  | tooManyBinders span count expected =>
    cases reported
    show s!"Lambda binds {count} arguments, but {expected.text} takes {expected.arity}" ≠ _
    simp only [String.append_assoc]
    exact Sexp.append_ne 0 rfl (by decide +kernel) _
  | lambdaWithoutType span =>
    cases reported
    dsimp only [message]
    decide +kernel
  | nilWithoutType span =>
    cases reported
    dsimp only [message]
    decide +kernel
  | shorthand expr => cases reported
  | noArrowLeft span => cases reported

/-- What is wrong with a declaration is described otherwise. -/
theorem Program.Error.message_ne_end {error : Program.Error} {report : Diagnostic}
    (reported : error.report? = some report) : report.message ≠ "Unexpected end of input" := by
  cases error with
  | alreadyClaimed span name =>
    cases reported
    exact quoted_append_ne _ _
  | alreadyDefined rule span name =>
    cases reported
    exact quoted_append_ne _ _
  | body inner => exact Elaboration.Error.message_ne_end reported

/-! ### Reports with a place -/

namespace Diagnostic

/-- **A report points into a source**: it carries the source and a stretch of it. The stretch is not
empty, unless the source ends too early and the stretch is its end. -/
structure PointsInto (source : String) (report : Diagnostic) : Prop where
  carried : report.source = some source
  place : ∃ span, report.span = some span ∧
    0 ≤ span.start ∧ span.start ≤ span.stop ∧ span.stop ≤ source.length ∧
    (report.message ≠ "Unexpected end of input" → span.start < span.stop) ∧
    (report.message = "Unexpected end of input" → span = ⟨source.length, source.length⟩)

variable {source : String} {report : Diagnostic}

/-- A report of anything but the end of the source, at a place in it. -/
theorem PointsInto.inside {span : Span} (carried : report.source = some source)
    (placed : report.span = some span) (inside : span.Inside 0 source.length)
    (other : report.message ≠ "Unexpected end of input") : report.PointsInto source := by
  obtain ⟨starts, nonempty, stops⟩ := inside
  exact ⟨carried, span, placed, starts, Int.le_of_lt nonempty, stops, fun _ => nonempty,
    fun same => absurd same other⟩

end Diagnostic

namespace Program

variable {source : String} {report : Diagnostic}

/-- A source that is not read or not parsed is reported in the source. -/
theorem pointsInto_of_parse (refused : parse source = .error report) :
    report.PointsInto source := by
  cases read : Sexp.readAll source with
  | error error =>
    rw [parse_of_readAll_error read] at refused
    cases refused
    rcases Sexp.place_of_readAll read with rfl | ⟨other, inside⟩
    · have last := Int.natCast_nonneg source.length
      exact ⟨rfl, _, rfl, last, Int.le_refl _, Int.le_refl _, fun other => absurd rfl other,
        fun _ => rfl⟩
    · exact .inside rfl rfl inside other
  | ok row =>
    rw [parse_of_readAll read] at refused
    cases formed : row.mapM Decl.ofSexp with
    | ok written =>
      rw [formed] at refused
      cases refused
    | error error =>
      rw [formed] at refused
      cases refused
      have inside := Decl.mapM_failsInside (Sexp.inOrder_of_readAll read) error formed
      exact .inside rfl rfl inside error.message_ne_end

/-- **The stage that a report comes from**: the source is not parsed, or the first declaration that is
not accepted is reported. -/
theorem exists_of_rejected {fuel : Nat} (rejected : run fuel source = .error (.rejected report)) :
    parse source = .error report ∨
      ∃ decls last error found, parse source = .ok decls ∧
        Progress.steps {} decls = (last, some error) ∧ error.report? = some found ∧
        report = found.withSource source := by
  cases parsed : parse source with
  | error other =>
    rw [run_of_parse_error parsed] at rejected
    cases rejected
    exact .inl rfl
  | ok decls =>
    rw [run_of_parse parsed] at rejected
    cases elaborated : elaborate decls with
    | ok entries =>
      rw [elaborated] at rejected
      change (evaluate fuel entries).mapError Failure.fault = _ at rejected
      cases evaluated : evaluate fuel entries with
      | ok results =>
        rw [evaluated] at rejected
        cases rejected
      | error fault =>
        rw [evaluated] at rejected
        cases rejected
    | error error =>
      rw [elaborated] at rejected
      have failed : Failure.ofError source error = .rejected report := Except.error.inj rejected
      rw [Failure.ofError] at failed
      cases reported : error.report? with
      | none =>
        rw [reported] at failed
        cases failed
      | some found =>
        rw [reported] at failed
        have stopped := elaborate_eq_error.mp elaborated
        refine .inr ⟨decls, _, error, found, rfl, Prod.ext rfl stopped, reported, ?_⟩
        exact (Failure.rejected.inj failed).symm

/-- Reports of elaboration carry no source of their own. -/
theorem Error.source_of_report? {error : Error} (reported : error.report? = some report) :
    report.source = none := by
  cases error with
  | alreadyClaimed span name =>
    cases reported
    rfl
  | alreadyDefined rule span name =>
    cases reported
    rfl
  | body error =>
    obtain ⟨_, _, rfl⟩ := Option.map_eq_some_iff.mp reported
    rfl

/-- A mistake in a declaration is reported in the source. -/
theorem pointsInto_of_steps {decls : List Decl} {last : Progress} {error : Error}
    (parsed : parse source = .ok decls) (ended : Progress.steps {} decls = (last, some error))
    (reported : error.report? = some report) : (report.withSource source).PointsInto source := by
  obtain ⟨row, written, read, formed, rfl⟩ := exists_of_parse parsed
  have placed := Decl.placed_of_mapM (Sexp.inOrder_of_readAll read) formed
  have inside := Progress.steps_failInside placed ended
  have carried : (report.withSource source).source = some source := by
    rw [Diagnostic.withSource, Error.source_of_report? reported, Option.none_or]
  have place : report.span = some error.span := Error.span_of_report? reported
  have other : report.message ≠ "Unexpected end of input" := Error.message_ne_end reported
  exact .inside carried place inside other

end Program

/-- **An error of elaboration is reported at a node** of the expression that is elaborated. -/
def Elaboration.Error.ReportedIn (expr : Expr) (error : Elaboration.Error) : Prop :=
  ∃ report node, error.report? = some report ∧ Expr.Occurs node expr ∧ report.span = some node.span

/-- Elaboration of a plain expression fails with errors that are reported at its nodes. -/
theorem Expr.elaborate_reportedIn {expr : Expr} (plain : expr.Plain) (scope : Scope)
    (demand : Elaboration.Demand) :
    FailsOnly (Elaboration.Error.ReportedIn expr) (expr.elaborate scope demand) := by
  intro error failed
  have fits := Expr.elaborate_fits scope demand plain
  rw [failed] at fits
  cases fits with
  | error reportable =>
    obtain ⟨report, reported, _⟩ := reportable
    obtain ⟨node, occurs, same⟩ := expr.elaborate_pointsInto scope demand error failed
    have reportedBody : (Program.Error.body error).report? = some report := reported
    refine ⟨report, node, reported, occurs, ?_⟩
    rw [same]
    exact Program.Error.span_of_report? reportedBody

/-- **Reports point into the source.** The report of a program that is rejected carries the source and
a place in it. Inferring the type of an expression without shorthand and checking it against a type
fail at a node of the expression. -/
theorem Program.reports_point_into_source :
    (∀ (source : String) (fuel : Nat) (report : Diagnostic),
      run fuel source = .error (.rejected report) → report.PointsInto source) ∧
    ∀ (expr : Expr) (scope : Scope), expr.Plain →
      FailsOnly (Elaboration.Error.ReportedIn expr) (expr.infer scope) ∧
      ∀ ty rule, FailsOnly (Elaboration.Error.ReportedIn expr) (expr.check scope ty rule) := by
  refine ⟨?_, fun expr scope plain => ⟨expr.elaborate_reportedIn plain scope .any, ?_⟩⟩
  · intro source fuel report rejected
    rcases exists_of_rejected rejected with
      refused | ⟨decls, last, error, found, parsed, ended, reported, rfl⟩
    · exact pointsInto_of_parse refused
    · exact pointsInto_of_steps parsed ended reported
  · intro ty rule error failed
    have fails := expr.elaborate_reportedIn plain scope (.exactly ty rule)
    cases elaborated : expr.elaborate scope (.exactly ty rule) with
    | ok found =>
      rw [Expr.check, elaborated] at failed
      cases failed
    | error other =>
      rw [Expr.check, elaborated] at failed
      cases failed
      exact fails error elaborated

/-- An empty list in brackets is reported at the closing bracket, where the end of the list was made
when the shorthand was expanded. -/
theorem Program.reports_point_into_source_at_made_node :
    ∃ report, run 0 "[]" = .error (.rejected report) ∧ report.span = some ⟨1, 2⟩ ∧
      report.PointsInto "[]" ∧ (Expr.nil ⟨1, 2⟩).Plain ∧
      FailsOnly (Elaboration.Error.ReportedIn (.nil ⟨1, 2⟩)) ((Expr.nil ⟨1, 2⟩).infer []) := by
  have read : Sexp.readAll "[]" = .ok [.group .square ⟨0, 2⟩ []] := by
    rw [Sexp.readAll_eq_ok_iff]
    decide +kernel
  have parsed : parse "[]" = .ok [.eval ⟨0, 2⟩ (.nil ⟨1, 2⟩)] := by
    rw [parse_of_readAll read]
    rfl
  have rejected : ∃ report, run 0 "[]" = .error (.rejected report) ∧ report.span = some ⟨1, 2⟩ := by
    rw [run_of_parse parsed]
    exact ⟨_, rfl, rfl⟩
  obtain ⟨report, rejected, place⟩ := rejected
  obtain ⟨points, fails⟩ := reports_point_into_source
  exact ⟨report, rejected, place, points "[]" 0 report rejected, .nil,
    (fails (.nil ⟨1, 2⟩) [] .nil).1⟩

end EtaLong
