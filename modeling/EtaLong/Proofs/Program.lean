/-
**Programs do not go wrong.**

Declarations are elaborated one after another in the scope of the definitions so far, and their
terms are evaluated one after another in the environment of the values so far. Both grow by the
same definitions, so every term is evaluated where the values have the types that it was
elaborated at. Hence a program is either rejected with a report before anything is evaluated, or
has a result for each of its entries.

* `Progress.step_fits`, `Progress.steps_fits`: what one declaration and what all of them do;
* `Program.evaluateFrom_total`: typed entries evaluate;
* `Program.rejected_or_typed`, `Program.rejected_or_yields`: the two ways in which a run can end;
* `Program.run_safe`: what running a source does.
-/

import EtaLong.Proofs.Elaboration
import EtaLong.Proofs.Program.Evaluation

namespace EtaLong

namespace Program

/-! ### Elaboration of declarations -/

/-- **The errors in declarations that are reported.** -/
def Error.Reportable (error : Error) : Prop :=
  ∃ report, error.report? = some report ∧ report.kind ≠ .general

namespace Progress

/-- **Progress whose entries are typed**, and whose scope has the types of the definitions. -/
structure Typed (progress : Progress) : Prop where
  entries : TypedFrom [] progress.accepted
  scope : progress.accepted.foldl Entry.extend [] = progress.scope.types

/-- Progress before the first declaration. -/
theorem Typed.start : Typed {} := ⟨trivial, rfl⟩

variable {progress : Progress}

/-- One more typed entry, with the scope that goes with it. -/
theorem Typed.push {next : Progress} {entry : Entry} (typed : progress.Typed)
    (entryTyped : entry.term.HasType progress.scope.types entry.ty)
    (entries : next.entries = entry :: progress.entries)
    (scope : next.scope.types = entry.extend progress.scope.types) : next.Typed := by
  have accepted : next.accepted = progress.accepted ++ [entry] := by
    unfold Progress.accepted
    rw [entries, List.reverse_cons]
  constructor
  · rw [accepted]
    refine typedFrom_append.mpr ⟨typed.entries, ?_, trivial⟩
    rw [typed.scope]
    exact entryTyped
  · rw [accepted, List.foldl_append, typed.scope, scope]
    rfl

/-- **An outcome of one declaration that fits**: typed progress, or a mistake that is reported. -/
inductive Fits : Except Error Progress → Prop where
  | ok {next : Progress} : next.Typed → Fits (.ok next)
  | error {error : Error} : error.Reportable → Fits (.error error)

/-- A body that is elaborated, and what its term and type are used for. -/
theorem Fits.body {ctx : Context} {demand : Elaboration.Demand}
    {run : Except Elaboration.Error (Term × Ty)} {rest : Term × Ty → Except Error Progress}
    (fits : Elaboration.Fits ctx demand run)
    (after : ∀ term ty, term.HasType ctx ty → demand.Allows ty → Fits (rest (term, ty))) :
    Fits (run.mapError .body >>= rest) := by
  cases fits with
  | ok typed allowed => exact after _ _ typed allowed
  | error reportable => exact .error reportable

/-- **One declaration** keeps progress typed or has a mistake that is reported. -/
theorem step_fits (typed : progress.Typed) {decl : Decl} (plain : decl.Plain) :
    Fits (progress.step decl) := by
  cases decl with
  | claim span name ty =>
    rw [step]
    by_cases claimed : (progress.claims.lookup name).isSome
    · rw [if_pos claimed]
      exact .error ⟨_, rfl, fun impossible => nomatch impossible⟩
    rw [if_neg claimed]
    by_cases defined : (progress.scope.find? name).isSome
    · rw [if_pos defined]
      exact .error ⟨_, rfl, fun impossible => nomatch impossible⟩
    rw [if_neg defined]
    exact .ok ⟨typed.entries, typed.scope⟩
  | define span name body =>
    rw [step]
    by_cases defined : (progress.scope.find? name).isSome
    · rw [if_pos defined]
      exact .error ⟨_, rfl, fun impossible => nomatch impossible⟩
    rw [if_neg defined]
    cases progress.claims.lookup name with
    | none =>
      refine Fits.body (Expr.elaborate_fits progress.scope .any plain) ?_
      exact fun term ty termTyped _ => .ok (typed.push termTyped rfl rfl)
    | some ty =>
      have fits := Expr.elaborate_fits progress.scope (.exactly ty "define") plain
      dsimp only [Expr.check]
      generalize body.elaborate progress.scope (.exactly ty "define") = run at fits ⊢
      cases fits with
      | ok termTyped allowed =>
        cases allowed
        exact .ok (typed.push termTyped rfl rfl)
      | error reportable => exact .error reportable
  | eval span body =>
    rw [step]
    refine Fits.body (Expr.elaborate_fits progress.scope .any plain) ?_
    exact fun term ty termTyped _ => .ok (typed.push termTyped rfl rfl)

/-- **All declarations** end in typed progress or at a mistake that is reported. -/
theorem steps_fits {decls : List Decl} (typed : progress.Typed)
    (plain : ∀ decl ∈ decls, decl.Plain) :
    (∃ last, progress.steps decls = (last, none) ∧ last.Typed) ∨
      ∃ last error, progress.steps decls = (last, some error) ∧ error.Reportable := by
  induction decls generalizing progress with
  | nil => exact .inl ⟨progress, rfl, typed⟩
  | cons decl decls ih =>
    have fits := step_fits typed (plain decl List.mem_cons_self)
    rw [steps]
    generalize progress.step decl = outcome at fits ⊢
    cases fits with
    | ok nextTyped => exact ih nextTyped fun other among => plain other (.tail decl among)
    | error reportable => exact .inr ⟨progress, _, rfl, reportable⟩

/-- Progress at the end of declarations that are all accepted is typed. -/
theorem typed_of_steps {last : Progress} {decls : List Decl} (typed : progress.Typed)
    (plain : ∀ decl ∈ decls, decl.Plain) (ended : progress.steps decls = (last, none)) :
    last.Typed := by
  rcases steps_fits typed plain with ⟨other, same, otherTyped⟩ | ⟨other, error, same, _⟩
  · rw [ended] at same
    cases same
    exact otherTyped
  · rw [ended] at same
    cases same

/-- Declarations in two rows: the second row goes on where the first ends. -/
theorem steps_append {last : Progress} {front : List Decl} (back : List Decl)
    (ended : progress.steps front = (last, none)) :
    progress.steps (front ++ back) = last.steps back := by
  induction front generalizing progress with
  | nil =>
    cases ended
    rfl
  | cons decl front ih =>
    rw [steps] at ended
    rw [List.cons_append, steps]
    cases stepped : progress.step decl with
    | error error =>
      rw [stepped] at ended
      cases ended
    | ok next =>
      rw [stepped] at ended
      exact ih ended

/-- When all of two rows are accepted, so is the first, and the second from where it ends. -/
theorem exists_steps_of_append {last : Progress} {front back : List Decl}
    (ended : progress.steps (front ++ back) = (last, none)) :
    ∃ middle, progress.steps front = (middle, none) ∧ middle.steps back = (last, none) := by
  induction front generalizing progress with
  | nil => exact ⟨progress, rfl, ended⟩
  | cons decl front ih =>
    rw [List.cons_append, steps] at ended
    cases stepped : progress.step decl with
    | error error =>
      rw [stepped] at ended
      cases ended
    | ok next =>
      rw [stepped] at ended
      obtain ⟨middle, frontEnded, backEnded⟩ := ih ended
      refine ⟨middle, ?_, backEnded⟩
      rw [steps, stepped]
      exact frontEnded

end Progress

/-- The entries of a program are what its declarations end with. -/
theorem elaborate_eq_ok {decls : List Decl} {entries : List Entry} :
    elaborate decls = .ok entries ↔
      ∃ last : Progress, Progress.steps {} decls = (last, none) ∧ last.accepted = entries := by
  unfold elaborate
  constructor
  · intro elaborated
    generalize ended : Progress.steps {} decls = outcome at elaborated
    obtain ⟨last, _ | error⟩ := outcome
    · cases elaborated
      exact ⟨last, rfl, rfl⟩
    · cases elaborated
  · rintro ⟨last, ended, rfl⟩
    rw [ended]

/-- The error of a program is the first that its declarations meet. -/
theorem elaborate_eq_error {decls : List Decl} {error : Error} :
    elaborate decls = .error error ↔ (Progress.steps {} decls).2 = some error := by
  unfold elaborate
  generalize Progress.steps {} decls = outcome
  obtain ⟨last, _ | found⟩ := outcome <;> constructor <;> intro same <;> cases same <;> rfl

/-- A program without shorthand has typed entries or a mistake that is reported. -/
theorem elaborate_fits {decls : List Decl} (plain : ∀ decl ∈ decls, decl.Plain) :
    (∃ entries, elaborate decls = .ok entries ∧ TypedFrom [] entries) ∨
      ∃ error, elaborate decls = .error error ∧ error.Reportable := by
  unfold elaborate
  rcases Progress.steps_fits .start plain with
    ⟨last, ended, typed⟩ | ⟨last, error, ended, reportable⟩
  · rw [ended]
    exact .inl ⟨last.accepted, rfl, typed.entries⟩
  · rw [ended]
    exact .inr ⟨error, rfl, reportable⟩

/-! ### Evaluation of entries -/

/-- **Typed entries evaluate**, each to a normal form of its type. -/
theorem evaluateFrom_total {ctx : Context} {env : Env} {entries : List Entry}
    (envTyped : Env.HasType [] env ctx) (typed : TypedFrom ctx entries) :
    ∃ results, Yields (fun fuel => evaluateFrom fuel env entries) results ∧
      results.map (fun result => (result.name, result.ty)) =
        entries.map (fun entry => (entry.name, entry.ty)) ∧
      ∀ result ∈ results, result.normal.infer [] = .ok result.ty := by
  obtain ⟨results, last, run, _, resultsTyped⟩ := typed.exists_run envTyped
  exact ⟨results, run.yields, run.labels, resultsTyped⟩

/-! ### Running a source -/

/-- A source that is not read is reported as malformed. -/
theorem kind_of_parse_error {source : String} {report : Diagnostic}
    (refused : parse source = .error report) : report.kind = .malformed := by
  unfold parse at refused
  cases written : Decl.parseAll source with
  | ok original =>
    rw [written] at refused
    cases refused
  | error found =>
    rw [written] at refused
    cases refused
    unfold Decl.parseAll at written
    cases read : Sexp.readAll source with
    | error error =>
      rw [read] at written
      cases written
      rfl
    | ok items =>
      rw [read] at written
      change (items.mapM Decl.ofSexp).mapError (·.report source) = .error report at written
      cases formed : items.mapM Decl.ofSexp with
      | error error =>
        rw [formed] at written
        cases written
        rfl
      | ok decls =>
        rw [formed] at written
        cases written

/-- What is read has no shorthand left. -/
theorem plain_of_parse {source : String} {decls : List Decl} (read : parse source = .ok decls) :
    ∀ decl ∈ decls, decl.Plain := by
  unfold parse at read
  cases written : Decl.parseAll source with
  | error report =>
    rw [written] at read
    cases read
  | ok original =>
    rw [written] at read
    cases read
    intro decl among
    obtain ⟨before, _, rfl⟩ := List.mem_map.mp among
    exact before.expand_plain

/-- A source that is read runs as its declarations do. -/
theorem run_of_parse {source : String} {decls : List Decl} (read : parse source = .ok decls)
    (fuel : Nat) :
    run fuel source = (elaborate decls).mapError (Failure.ofError source) >>= fun entries =>
      (evaluate fuel entries).mapError Failure.fault := by
  rw [run, read]
  rfl

/-- A source that cannot be parsed is rejected with what is wrong with it. -/
theorem run_of_parse_error {source : String} {report : Diagnostic}
    (refused : parse source = .error report) (fuel : Nat) :
    run fuel source = .error (.rejected report) := by
  unfold run
  rw [refused]
  rfl

/-- A source whose declarations have a mistake is rejected with its report. -/
theorem run_of_reported {source : String} {decls : List Decl} {error : Error} {report : Diagnostic}
    (read : parse source = .ok decls) (failed : elaborate decls = .error error)
    (reported : error.report? = some report) (fuel : Nat) :
    run fuel source = .error (.rejected (report.withSource source)) := by
  have rejected : Failure.ofError source error = .rejected (report.withSource source) := by
    rw [Failure.ofError, reported]
  rw [run_of_parse read, failed, ← rejected]
  rfl

/-- **A source is rejected or elaborated**, to entries that have their types. -/
theorem rejected_or_typed (source : String) :
    (∃ report, report.kind ≠ .general ∧ ∀ fuel, run fuel source = .error (.rejected report)) ∨
    ∃ decls entries, parse source = .ok decls ∧ elaborate decls = .ok entries ∧
      TypedFrom [] entries := by
  cases read : parse source with
  | error report =>
    have malformed : report.kind ≠ .general := by
      rw [kind_of_parse_error read]
      decide
    exact .inl ⟨report, malformed, run_of_parse_error read⟩
  | ok decls =>
    rcases elaborate_fits (plain_of_parse read) with
      ⟨entries, elaborated, typed⟩ | ⟨error, failed, report, reported, own⟩
    · exact .inr ⟨decls, entries, rfl, elaborated, typed⟩
    · exact .inl ⟨report.withSource source, own, run_of_reported read failed reported⟩

/-- A source whose entries have results runs to them. -/
theorem yields_of_evaluate {source : String} {decls : List Decl} {entries : List Entry}
    {results : List Result} (read : parse source = .ok decls)
    (elaborated : elaborate decls = .ok entries)
    (yields : Yields (fun fuel => evaluate fuel entries) results) :
    Yields (fun fuel => run fuel source) results := by
  simp only [run_of_parse read, elaborated]
  exact yields.mapError Failure.fault

/-- **A source is rejected or has results.** -/
theorem rejected_or_yields (source : String) :
    (∃ report, ∀ fuel, run fuel source = .error (.rejected report)) ∨
      ∃ results, Yields (fun fuel => run fuel source) results := by
  rcases rejected_or_typed source with
    ⟨report, _, rejected⟩ | ⟨decls, entries, read, elaborated, typed⟩
  · exact .inl ⟨report, rejected⟩
  · obtain ⟨results, yields, _⟩ := evaluateFrom_total .nil typed
    exact .inr ⟨results, yields_of_evaluate read elaborated yields⟩

end Program

end EtaLong
