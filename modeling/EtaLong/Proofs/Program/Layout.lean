/-
**Layout is irrelevant.**

Two sources whose tokens are of the same kinds differ in blanks, line ends and comments, and so in
the places of all that is read from them. No stage looks at a place but to report it: what is read,
parsed, expanded, elaborated and evaluated is the same up to places.

* `Program.parse_layout`: the declarations of the two sources;
* `Progress.step_unplaced`, `Progress.steps_unplaced`, `Program.elaborate_unplaced`: declarations
  are elaborated without a look at places;
* `Program.run_layout`: the outcomes of the two sources, with the same fuel;
* `Program.run_layout_irrelevant`: they have the same results, or are rejected for the same reason.
-/

import EtaLong.Proofs.Elaboration.Layout
import EtaLong.Proofs.Program.Growth

namespace EtaLong

namespace Program

/-! ### Parsing -/

section Parsing

variable {first second : String} {tokens tokens' : List Token}

/-- **Rows that are the same up to places** are parsed alike. -/
theorem mapM_ofSexp_layout {row row' : List Sexp}
    (same : Sexp.unplacedAll row = Sexp.unplacedAll row') :
    bimap Form.Error.unplaced (List.map Decl.unplaced) (row.mapM Decl.ofSexp) =
      bimap Form.Error.unplaced (List.map Decl.unplaced) (row'.mapM Decl.ofSexp) := by
  rw [Sexp.unplacedAll_eq_map, Sexp.unplacedAll_eq_map] at same
  rw [← mapM_bimap fun item _ => Decl.ofSexp_unplaced item,
    ← mapM_bimap fun item _ => Decl.ofSexp_unplaced item, same]

/-- Errors of form that are the same up to places are reported alike. -/
theorem report_layout {error error' : Form.Error} (same : error.unplaced = error'.unplaced) :
    (error.report first).unplaced = (error'.report second).unplaced := by
  have blind (found : Form.Error) (source : String) :
      (found.report source).unplaced = (found.unplaced.report source).unplaced := by
    cases found <;> rfl
  rw [blind, blind error', same]
  rfl

/-- Declarations that are the same up to places are so when their shorthand is expanded. -/
theorem expand_layout {written written' : List Decl}
    (same : written.map Decl.unplaced = written'.map Decl.unplaced) :
    (written.map Decl.expand).map Decl.unplaced = (written'.map Decl.expand).map Decl.unplaced := by
  have blind (decls : List Decl) : (decls.map Decl.expand).map Decl.unplaced =
      (decls.map Decl.unplaced).map Decl.expand := by
    rw [List.map_map, List.map_map]
    exact List.map_congr_left fun decl _ => decl.expand_unplaced.symm
  rw [blind, blind written', same]

/-- **Sources whose tokens have the same kinds are parsed alike.** -/
theorem parse_layout (scanned : Token.scan first = (tokens, none))
    (scanned' : Token.scan second = (tokens', none))
    (same : tokens.map Token.kind = tokens'.map Token.kind) :
    bimap Diagnostic.unplaced (List.map Decl.unplaced) (parse first) =
      bimap Diagnostic.unplaced (List.map Decl.unplaced) (parse second) := by
  rcases bimap_eq_bimap (Sexp.readAll_layout scanned scanned' same) with
    ⟨row, row', read, read', sameRow⟩ | ⟨error, error', failed, failed', sameError⟩
  · rw [parse_of_readAll read, parse_of_readAll read']
    rcases bimap_eq_bimap (mapM_ofSexp_layout sameRow) with
      ⟨written, written', made, made', sameDecls⟩ | ⟨error, error', refused, refused', sameError⟩
    · rw [made, made']
      exact congrArg Except.ok (expand_layout sameDecls)
    · rw [refused, refused']
      exact congrArg Except.error (report_layout sameError)
  · rw [parse_of_readAll_error failed, parse_of_readAll_error failed']
    have sameMessage : error.message = error'.message := by
      rw [← error.message_unplaced, sameError, error'.message_unplaced]
    simp only [bimap, Sexp.ReadError.report, Diagnostic.unplaced, sameMessage]

end Parsing

/-! ### Elaborating -/

/-- An error in a declaration without its place. -/
def Error.unplaced : Error → Error
  | alreadyClaimed _ name => alreadyClaimed .nowhere name
  | alreadyDefined rule _ name => alreadyDefined rule .nowhere name
  | body error => body error.unplaced

theorem Error.report?_unplaced (error : Error) :
    error.unplaced.report?.map Diagnostic.unplaced = error.report?.map Diagnostic.unplaced := by
  cases error with
  | body inner => exact inner.report?_unplaced
  | _ => rfl

/-- An entry without its place. -/
def Entry.unplaced (entry : Entry) : Entry := { entry with span := .nowhere }

namespace Progress

/-- Progress whose entries have no places. -/
def unplaced (progress : Progress) : Progress :=
  { progress with entries := progress.entries.map Entry.unplaced }

@[simp] theorem claims_unplaced (progress : Progress) : progress.unplaced.claims = progress.claims :=
  rfl

@[simp] theorem scope_unplaced (progress : Progress) : progress.unplaced.scope = progress.scope :=
  rfl

/-- **One declaration** is elaborated without a look at places. -/
theorem step_unplaced (progress : Progress) (decl : Decl) :
    progress.unplaced.step decl.unplaced = bimap Error.unplaced unplaced (progress.step decl) := by
  have body {α : Type} (run : Except Elaboration.Error α) :
      (bimap Elaboration.Error.unplaced id run).mapError Error.body =
        bimap Error.unplaced id (run.mapError Error.body) := by
    cases run <;> rfl
  cases decl with
  | claim span name ty =>
    rw [Decl.unplaced, step, step, TypeExpr.toTy_unplaced]
    rw [claims_unplaced, scope_unplaced]
    by_cases claimed : (progress.claims.lookup name).isSome
    · rw [if_pos claimed, if_pos claimed]
      rfl
    rw [if_neg claimed, if_neg claimed]
    by_cases defined : (progress.scope.find? name).isSome
    · rw [if_pos defined, if_pos defined]
      rfl
    rw [if_neg defined, if_neg defined]
    rfl
  | define span name expr =>
    rw [Decl.unplaced, step, step]
    rw [claims_unplaced, scope_unplaced]
    by_cases defined : (progress.scope.find? name).isSome
    · rw [if_pos defined, if_pos defined]
      rfl
    rw [if_neg defined, if_neg defined]
    cases progress.claims.lookup name with
    | some ty =>
      dsimp only
      rw [Expr.check_unplaced, body]
      exact bimap_bind fun term => rfl
    | none =>
      dsimp only [Expr.infer]
      rw [Expr.elaborate_unplaced, body]
      exact bimap_bind fun found => rfl
  | eval span expr =>
    rw [Decl.unplaced, step, step]
    dsimp only [Expr.infer]
    rw [scope_unplaced, Expr.elaborate_unplaced, body]
    exact bimap_bind fun found => rfl

/-- **All declarations** are elaborated without a look at places. -/
theorem steps_unplaced (progress : Progress) (decls : List Decl) :
    progress.unplaced.steps (decls.map Decl.unplaced) =
      Prod.map unplaced (Option.map Error.unplaced) (progress.steps decls) := by
  induction decls generalizing progress with
  | nil => rfl
  | cons decl decls ih =>
    rw [List.map_cons, steps, steps, step_unplaced]
    cases progress.step decl with
    | error error => rfl
    | ok next => exact ih next

end Progress

/-- Programs are elaborated without a look at places. -/
theorem elaborate_unplaced (decls : List Decl) :
    elaborate (decls.map Decl.unplaced) =
      bimap Error.unplaced (List.map Entry.unplaced) (elaborate decls) := by
  have ended : Progress.steps {} (decls.map Decl.unplaced) = _ := Progress.steps_unplaced {} decls
  unfold elaborate
  rw [ended]
  generalize Progress.steps {} decls = outcome
  obtain ⟨last, _ | error⟩ := outcome
  · exact congrArg Except.ok List.map_reverse.symm
  · rfl

/-- Entries are evaluated without a look at places. -/
theorem evaluateFrom_unplaced (fuel : Nat) (env : Env) (entries : List Entry) :
    evaluateFrom fuel env (entries.map Entry.unplaced) = evaluateFrom fuel env entries := by
  induction entries generalizing env with
  | nil => rfl
  | cons entry entries ih =>
    rw [List.map_cons, evaluateFrom, evaluateFrom]
    simp only [ih]
    rfl

/-! ### Running -/

/-- A failure without the place where it is reported. -/
def Failure.unplaced : Failure → Failure
  | rejected report => rejected report.unplaced
  | unprepared error => unprepared error.unplaced
  | fault found => fault found

/-- Errors that are the same up to places make programs fail alike. -/
theorem Failure.ofError_layout (first second : String) {error error' : Error}
    (same : error.unplaced = error'.unplaced) :
    (Failure.ofError first error).unplaced = (Failure.ofError second error').unplaced := by
  have reports : error.report?.map Diagnostic.unplaced = error'.report?.map Diagnostic.unplaced := by
    rw [← error.report?_unplaced, same, error'.report?_unplaced]
  unfold Failure.ofError
  cases found : error.report? with
  | none =>
    cases found' : error'.report? with
    | none => exact congrArg Failure.unprepared same
    | some report =>
      rw [found, found'] at reports
      cases reports
  | some report =>
    cases found' : error'.report? with
    | none =>
      rw [found, found'] at reports
      cases reports
    | some report' =>
      rw [found, found'] at reports
      exact congrArg Failure.rejected (Option.some.inj reports)

section Running

variable {first second : String} {tokens tokens' : List Token}

/-- **Sources whose tokens have the same kinds have the same outcome** up to places, whatever the
fuel. -/
theorem run_layout (scanned : Token.scan first = (tokens, none))
    (scanned' : Token.scan second = (tokens', none))
    (same : tokens.map Token.kind = tokens'.map Token.kind) (fuel : Nat) :
    bimap Failure.unplaced id (run fuel first) = bimap Failure.unplaced id (run fuel second) := by
  rcases bimap_eq_bimap (parse_layout scanned scanned' same) with
    ⟨decls, decls', parsed, parsed', sameDecls⟩ | ⟨report, report', refused, refused', sameReport⟩
  · rw [run_of_parse parsed, run_of_parse parsed']
    have elaborations : bimap Error.unplaced (List.map Entry.unplaced) (elaborate decls) =
        bimap Error.unplaced (List.map Entry.unplaced) (elaborate decls') := by
      rw [← elaborate_unplaced, sameDecls, elaborate_unplaced]
    rcases bimap_eq_bimap elaborations with
      ⟨entries, entries', accepted, accepted', sameEntries⟩ | ⟨error, error', failed, failed', sameError⟩
    · have evaluations : evaluate fuel entries = evaluate fuel entries' := by
        unfold evaluate
        rw [← evaluateFrom_unplaced, sameEntries, evaluateFrom_unplaced]
      rw [accepted, accepted']
      exact congrArg (fun run => bimap Failure.unplaced id (run.mapError Failure.fault)) evaluations
    · rw [failed, failed']
      exact congrArg Except.error (Failure.ofError_layout first second sameError)
  · rw [run_of_parse_error refused, run_of_parse_error refused']
    exact congrArg (Except.error ∘ Failure.rejected) sameReport

/-- **Sources that run alike**: they have the same results, or are both rejected, with the same
kind of mistake, the same description and the same rule. -/
def RunAlike (first second : String) : Prop :=
  (∃ results, Yields (fun fuel => run fuel first) results ∧
    Yields (fun fuel => run fuel second) results) ∨
  ∃ report report', (∀ fuel, run fuel first = .error (.rejected report)) ∧
    (∀ fuel, run fuel second = .error (.rejected report')) ∧
    report.kind = report'.kind ∧ report.message = report'.message ∧ report.rule = report'.rule

/-- **Layout is irrelevant.** Sources whose tokens have the same kinds, wherever the tokens stand,
run alike. -/
theorem run_layout_irrelevant (scanned : Token.scan first = (tokens, none))
    (scanned' : Token.scan second = (tokens', none))
    (same : tokens.map Token.kind = tokens'.map Token.kind) : RunAlike first second := by
  have outcomes := run_layout scanned scanned' same
  rcases rejected_or_yields second with ⟨report', rejected'⟩ | ⟨results, enough, yields⟩
  · rcases rejected_or_yields first with ⟨report, rejected⟩ | ⟨results, enough, yields⟩
    · have reports := outcomes 0
      rw [rejected, rejected'] at reports
      obtain ⟨kind, message, -, -, rule⟩ :=
        Diagnostic.mk.inj (Failure.rejected.inj (Except.error.inj reports))
      exact .inr ⟨report, report', rejected, rejected', kind, message, rule⟩
    · have ran : run enough first = .ok results := yields enough (Nat.le_refl enough)
      have impossible := outcomes enough
      rw [ran, rejected'] at impossible
      cases impossible
  · refine .inl ⟨results, ⟨enough, fun fuel most => ?_⟩, enough, yields⟩
    have ran : run fuel second = .ok results := yields fuel most
    have reached := outcomes fuel
    rw [ran] at reached
    obtain ⟨found, ranFirst, rfl⟩ := bimap_eq_ok.mp reached
    exact ranFirst

end Running

/-- A refused program on one line, and the same with its words on lines of their own and a bracket
in a comment. -/
theorem run_layout_irrelevant_at_comment : ∃ tokens tokens',
    Token.scan "(car 'a)" = (tokens, none) ∧
      Token.scan "(car ; )\n  ' a\n)" = (tokens', none) ∧
      tokens.map Token.kind = tokens'.map Token.kind ∧
      RunAlike "(car 'a)" "(car ; )\n  ' a\n)" :=
  ⟨_, _, rfl, rfl, rfl, run_layout_irrelevant rfl rfl rfl⟩

end Program

end EtaLong
