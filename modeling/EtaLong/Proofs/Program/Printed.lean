/-
**Printed results as programs.**

A bare result is printed with its type, as an expression that could stand in a program. Its normal
form is closed and typed, and its atoms are words, as all atoms of a program are. So the printed text
is parsed as the expression that was printed, and elaboration recovers the normal form, which is its
own normal form: the text runs to the very result. The one exception is a normal form with a function
or an empty list that no type is asked of, as below a recursion that is applied; then the first of
these is reported.

* `Program.atomsIn_of_parse`, `Program.Progress.steps_atomsIn`: the atoms of a program;
* `Program.Run.atomsIn`, `Program.Run.isNormal`: the normal forms of its results;
* `Program.yields_text`, `Program.rejected_text`: what the text of a closed term does;
* `Program.run_printed_result`: what the text of a bare result runs to.
-/

import EtaLong.Proofs.Elaboration.Atoms
import EtaLong.Proofs.Elaboration.Printed
import EtaLong.Proofs.NormalForm
import EtaLong.Proofs.Program.Growth
import EtaLong.Report

namespace EtaLong

namespace Program

/-! ### The atoms of a program -/

variable {allowed : String → Prop}

/-- **The atoms of a program are words.** -/
theorem atomsIn_of_parse {source : String} {decls : List Decl} (parsed : parse source = .ok decls) :
    ∀ decl ∈ decls, ∀ body ∈ decl.bodies, body.AtomsIn Token.IsWord := by
  obtain ⟨row, written, read, made, rfl⟩ := exists_of_parse parsed
  intro decl among body bodyAmong
  obtain ⟨before, beforeAmong, rfl⟩ := List.mem_map.mp among
  obtain ⟨item, itemAmong, parsedItem⟩ := exists_of_mem_mapM made beforeAmong
  have shaped := Decl.ofSexp_shaped item
  rw [parsedItem] at shaped
  cases shaped with
  | ok _ bodies =>
    have inBefore : ∀ body ∈ before.bodies, body.AtomsIn Token.IsWord := by
      intro body among
      obtain ⟨origin, occurs, parsedBody⟩ := bodies body among
      refine Expr.atomsIn_of_ofSexp parsedBody fun span name quoted => ?_
      exact Sexp.isWord_of_readAll read (quoted.trans (occurs.mono itemAmong))
    cases before with
    | claim span name ty => cases bodyAmong
    | define span name written | eval span written =>
      rw [List.mem_singleton.mp bodyAmong]
      exact (inBefore written (List.mem_singleton_self written)).expand

namespace Progress

/-- **One declaration** adds an entry whose atoms are those of its body. -/
theorem step_atomsIn {progress next : Progress} {decl : Decl} (stepped : progress.step decl = .ok next)
    (inEntries : ∀ entry ∈ progress.entries, entry.term.AtomsIn allowed)
    (inBodies : ∀ body ∈ decl.bodies, body.AtomsIn allowed) :
    ∀ entry ∈ next.entries, entry.term.AtomsIn allowed := by
  cases accepts_of_step stepped with
  | claim _ _ => exact inEntries
  | define _ elaborated =>
    have inBody := (inBodies _ (List.mem_singleton_self _)).elaborate _ _ _ elaborated
    exact List.forall_mem_cons.mpr ⟨inBody, inEntries⟩
  | eval elaborated =>
    have inBody := (inBodies _ (List.mem_singleton_self _)).elaborate _ _ _ elaborated
    exact List.forall_mem_cons.mpr ⟨inBody, inEntries⟩

/-- **All declarations**, until the end or the first mistake. -/
theorem steps_atomsIn {progress last : Progress} {decls : List Decl} {stopped : Option Error}
    (ended : progress.steps decls = (last, stopped))
    (inEntries : ∀ entry ∈ progress.entries, entry.term.AtomsIn allowed)
    (inBodies : ∀ decl ∈ decls, ∀ body ∈ decl.bodies, body.AtomsIn allowed) :
    ∀ entry ∈ last.entries, entry.term.AtomsIn allowed := by
  induction decls generalizing progress with
  | nil =>
    cases ended
    exact inEntries
  | cons decl decls ih =>
    obtain ⟨inFirst, inRest⟩ := List.forall_mem_cons.mp inBodies
    rw [steps] at ended
    cases stepped : progress.step decl with
    | error error =>
      rw [stepped] at ended
      cases ended
      exact inEntries
    | ok next =>
      rw [stepped] at ended
      exact ih ended (step_atomsIn stepped inEntries inFirst) inRest

end Progress

/-! ### The normal forms of results -/

namespace Run

variable {env last : Env} {entries : List Entry} {results : List Result}

/-- **The normal forms of results have the atoms of the entries.** -/
theorem atomsIn (run : Run env entries results last) (inEnv : Env.AtomsIn allowed env)
    (inEntries : ∀ entry ∈ entries, entry.term.AtomsIn allowed) :
    ∀ result ∈ results, result.normal.AtomsIn allowed := by
  induction run with
  | nil => exact List.forall_mem_nil _
  | @cons env last entry entries results value normal evaluates reads _ ih =>
    obtain ⟨inFirst, inRest⟩ := List.forall_mem_cons.mp inEntries
    obtain ⟨evalFuel, evaluated⟩ := evaluates.exists_run
    obtain ⟨readFuel, read⟩ := reads.exists_run
    have inValue : value.AtomsIn allowed :=
      inFirst.evalWith (Value.apply_keepsAtoms evalFuel) inEnv value evaluated
    have inNormal := (readsAtoms_and_readsNeutralAtoms readFuel).1 [] entry.ty inValue normal read
    refine List.forall_mem_cons.mpr ⟨inNormal, ih ?_ inRest⟩
    unfold Entry.bind
    split
    · exact ⟨inValue, inEnv⟩
    · exact inEnv

/-- **The normal forms of results are normal** at their types. -/
theorem isNormal {ctx : Context} (run : Run env entries results last)
    (typed : TypedFrom ctx entries) (envTyped : Env.HasType [] env ctx) :
    ∀ result ∈ results, result.normal.IsNormal [] result.ty := by
  induction run generalizing ctx with
  | nil => exact List.forall_mem_nil _
  | cons evaluates reads _ ih =>
    obtain ⟨value, _, valueEval, valueTyped, _, _⟩ := typed.1.total envTyped
    cases valueEval.unique evaluates
    refine List.forall_mem_cons.mpr ⟨reads.isNormal valueTyped, ?_⟩
    exact ih typed.2 (Entry.bind_typed envTyped valueTyped)

end Run

/-! ### Running what was printed -/

/-- A bare result is printed as its normal form with its type. -/
theorem ofResult_eq_text {result : Result} (bare : result.name = none) (showTypes : Bool) :
    Report.ofResult showTypes result = (Term.ann result.ty result.normal).text [] := by
  have spaced (ty normal : String) :
      "(the " ++ ty ++ " " ++ normal ++ ")" =
        "(" ++ String.intercalate " " ["the", ty, normal] ++ ")" := by
    rw [String.intercalate_cons_cons, String.intercalate_cons_cons, String.intercalate_singleton]
    simp only [← String.append_assoc]
    rfl
  rw [Report.ofResult, bare]
  exact spaced result.ty.text (result.normal.text [])

/-- **The text of a closed term as a program**: a bare expression, which gives the entry of the term,
or is not accepted at the first form that no type is asked of. -/
theorem steps_text {term : Term} {ty : Ty} (typed : term.HasType [] ty)
    (words : term.AtomsIn Token.IsWord) :
    ∃ span body, parse (term.text []) = .ok [.eval span body] ∧
      ((term.bareForms .inferring = [] ∧
          Progress.steps {} [.eval span body] = ({ entries := [⟨none, ty, term, span⟩] }, none)) ∨
        ∃ form others place, term.bareForms .inferring = form :: others ∧
          Progress.steps {} [.eval span body] =
            ({}, some (.body (Elaboration.Bare.error place form)))) := by
  have closed : term.HasType (Scope.types []) ty := typed
  obtain ⟨span, read, parsed, outcomes⟩ := closed.exists_parseAll .nil (List.forall_mem_nil _) words
  refine ⟨span, read.expand, ?_, ?_⟩
  · change Decl.parseAll (term.text []) = _ at parsed
    rw [parse, parsed]
    rfl
  rcases outcomes .any trivial with ⟨none, elaborated⟩ | ⟨form, others, place, met, elaborated⟩
  · refine .inl ⟨none, ?_⟩
    rw [Progress.steps, Progress.step, Expr.infer, elaborated]
    rfl
  · refine .inr ⟨form, others, place, met, ?_⟩
    rw [Progress.steps, Progress.step, Expr.infer, elaborated]
    rfl

section Text

variable {term normal : Term} {ty : Ty} {value : Value} {form : Elaboration.Bare}
  {others : List Elaboration.Bare}

/-- **The text of a closed term runs to its normal form** when a type is asked of all that needs one. -/
theorem yields_text (typed : term.HasType [] ty) (words : term.AtomsIn Token.IsWord)
    (none : term.bareForms .inferring = []) (evaluates : term.Evaluates [] value)
    (reads : value.ReadsBack [] ty normal) :
    Yields (fun fuel => run fuel (term.text [])) [⟨Option.none, ty, normal⟩] := by
  obtain ⟨span, body, parsed, ⟨_, ended⟩ | ⟨form, others, place, met, _⟩⟩ := steps_text typed words
  · exact yields_of_run parsed ended (.cons evaluates reads .nil)
  · rw [none] at met
    cases met

/-- **The text of a closed term is rejected** at the first form that no type is asked of. -/
theorem rejected_text (typed : term.HasType [] ty) (words : term.AtomsIn Token.IsWord)
    (met : term.bareForms .inferring = form :: others) :
    ∃ report, report.kind = .mismatch ∧ report.rule = some form.keyword.name ∧
      "Cannot infer".toList <+: report.message.toList ∧
      ∀ fuel, run fuel (term.text []) = .error (.rejected report) := by
  obtain ⟨span, body, parsed, ⟨none, _⟩ | ⟨found, rest, place, first, ended⟩⟩ := steps_text typed words
  · rw [met] at none
    cases none
  · rw [met] at first
    cases first
    obtain ⟨report, reported, kind, rule, message⟩ := form.report?_error place
    have failed := elaborate_eq_error.mpr (congrArg Prod.snd ended)
    exact ⟨report.withSource _, kind, rule, message, run_of_reported parsed failed reported⟩

end Text

/-- The normal forms of a source that runs are normal, and their atoms are words. -/
theorem normal_of_yields {source : String} {results : List Result}
    (ran : Yields (fun fuel => run fuel source) results) {result : Result} (among : result ∈ results) :
    result.normal.IsNormal [] result.ty ∧ result.normal.AtomsIn Token.IsWord := by
  obtain ⟨decls, last, env, parsed, ended, entriesRun⟩ := exists_run_of_yields ran
  have typed := Progress.typed_of_steps .start (plain_of_parse parsed) ended
  have inEntries := Progress.steps_atomsIn ended (List.forall_mem_nil _) (atomsIn_of_parse parsed)
  have inAccepted : ∀ entry ∈ last.accepted, entry.term.AtomsIn Token.IsWord :=
    fun entry accepted => inEntries entry (List.mem_reverse.mp accepted)
  exact ⟨entriesRun.isNormal typed.entries .nil result among,
    entriesRun.atomsIn trivial inAccepted result among⟩

/-- **A printed result is a program with that result.** The text of a bare result of a program runs to
the very result, unless there are forms in its normal form that no type is asked of; then the text is
rejected, and the first of them is reported as a type that cannot be inferred. -/
theorem run_printed_result {source : String} {results : List Result}
    (ran : Yields (fun fuel => run fuel source) results) {result : Result} (among : result ∈ results)
    (bare : result.name = none) (showTypes : Bool) :
    (result.normal.bareForms .checking = [] ∧
      Yields (fun fuel => run fuel (Report.ofResult showTypes result)) [result]) ∨
    ∃ form others report, result.normal.bareForms .checking = form :: others ∧
      report.kind = .mismatch ∧ report.rule = some form.keyword.name ∧
      "Cannot infer".toList <+: report.message.toList ∧
      ∀ fuel, run fuel (Report.ofResult showTypes result) = .error (.rejected report) := by
  obtain ⟨normal, words⟩ := normal_of_yields ran among
  rw [ofResult_eq_text bare]
  obtain ⟨name, ty, term⟩ := result
  cases bare
  have typed : (Term.ann ty term).HasType [] ty := .ann normal.typed
  cases met : term.bareForms .checking with
  | nil =>
    obtain ⟨value, evaluates, reads⟩ := normal.reads
    exact .inl ⟨rfl, yields_text typed words met (evaluates.ann ty) reads⟩
  | cons form others =>
    obtain ⟨report, kind, rule, message, rejected⟩ := rejected_text typed words met
    exact .inr ⟨form, others, report, rfl, kind, rule, message, rejected⟩

/-- A function in a pair, which is printed eta-expanded, beside an atom. -/
theorem run_printed_result_at_function_in_pair :
    let ty : Ty := .fn (.fn .nat .atom) (.pair (.fn .nat .atom) .atom)
    let result : Result :=
      ⟨none, ty, .lam (.fn .nat .atom) (.pair (.lam .nat (.app (.var 1) (.var 0))) (.atom "red"))⟩
    let source := "(the (-> (-> Nat Atom) (Pair (-> Nat Atom) Atom)) (lambda (x) (cons x 'red)))"
    let text := "(the (-> (-> Nat Atom) (Pair (-> Nat Atom) Atom)) " ++
      "(lambda (x) (cons (lambda (x1) (x x1)) 'red)))"
    Yields (fun fuel => run fuel source) [result] ∧ Report.ofResult true result = text ∧
      Yields (fun fuel => run fuel text) [result] := by
  intro ty result source text
  let term : Term := .ann ty (.lam (.fn .nat .atom) (.pair (.var 0) (.atom "red")))
  have typed : term.HasType [] ty := .of_infer_eq rfl
  have words : term.AtomsIn Token.IsWord := by decide
  have reads : (Value.closure [] (.pair (.var 0) (.atom "red"))).ReadsBack [] ty result.normal := by
    refine ⟨7, fun fuel enough => ?_⟩
    obtain ⟨less, rfl⟩ := Nat.exists_eq_add_of_le' enough
    rfl
  have written : source = term.text [] := by decide +kernel
  have printed : Report.ofResult true result = text := by decide +kernel
  have ran : Yields (fun fuel => run fuel source) [result] := by
    rw [written]
    exact yields_text typed words rfl (.ann ty (.lam [] _ _)) reads
  rcases run_printed_result ran (List.mem_singleton_self result) rfl true with
    ⟨_, yields⟩ | ⟨form, others, _, met, _⟩
  · rw [printed] at yields
    exact ⟨ran, printed, yields⟩
  · cases met

/-- **Not every printed result is a program.** A recursion whose results are functions is stuck below a
binder and applied there. It is written with its type, but the normal form is printed without. -/
theorem printed_result_rejected_at_applied_recursion :
    let ty : Ty := .fn .nat (.fn .nat .nat)
    let result : Result := ⟨none, ty, .lam .nat (.lam .nat (.app
      (.recNat (.fn .nat .nat) (.var 1) (.lam .nat (.var 0))
        (.lam .nat (.lam (.fn .nat .nat) (.lam .nat (.app (.var 1) (.var 0)))))) (.var 0)))⟩
    let source := "(the (-> Nat Nat Nat) (lambda (x x1) " ++
      "((the (-> Nat Nat) (rec-nat x (lambda (x2) x2) (lambda (x2 x3) x3))) x1)))"
    let text := "(the (-> Nat Nat Nat) (lambda (x x1) " ++
      "((rec-nat x (lambda (x2) x2) (lambda (x2 x3 x4) (x3 x4))) x1)))"
    Yields (fun fuel => run fuel source) [result] ∧ Report.ofResult true result = text ∧
      ¬ Yields (fun fuel => run fuel text) [result] := by
  intro ty result source text
  let body : Term := .lam .nat (.app (.ann (.fn .nat .nat) (.recNat (.fn .nat .nat) (.var 1)
    (.lam .nat (.var 0)) (.lam .nat (.lam (.fn .nat .nat) (.var 0))))) (.var 0))
  let term : Term := .ann ty (.lam .nat body)
  have typed : term.HasType [] ty := .of_infer_eq rfl
  have words : term.AtomsIn Token.IsWord := by decide
  have reads : (Value.closure [] body).ReadsBack [] ty result.normal := by
    refine ⟨12, fun fuel enough => ?_⟩
    obtain ⟨less, rfl⟩ := Nat.exists_eq_add_of_le' enough
    rfl
  have written : source = term.text [] := by decide +kernel
  have printed : Report.ofResult true result = text := by decide +kernel
  have ran : Yields (fun fuel => run fuel source) [result] := by
    rw [written]
    exact yields_text typed words rfl (.ann ty (.lam [] _ _)) reads
  refine ⟨ran, printed, fun ⟨enough, ends⟩ => ?_⟩
  obtain ⟨normal, normalWords⟩ := normal_of_yields ran (List.mem_singleton_self result)
  have normalTyped : (Term.ann result.ty result.normal).HasType [] result.ty := .ann normal.typed
  obtain ⟨report, _, _, _, rejected⟩ := rejected_text normalTyped normalWords rfl
  have asText := ofResult_eq_text (show result.name = none from rfl) true
  rw [← asText, printed] at rejected
  cases (rejected enough).symm.trans (ends enough (Nat.le_refl enough))

end Program

end EtaLong
