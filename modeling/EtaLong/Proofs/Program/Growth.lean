/-
**Programs that grow.**

A source that runs leaves nothing open, and its declarations and results do not depend on what
comes after them. So more lines add declarations, entries and results at the end and change none of
those before; or what is wrong is in the new lines and is reported there.

* `Program.parse_join`: the declarations of the longer source;
* `Program.Progress.exists_accepted_append`: entries are only added;
* `Program.exists_yields_append`: results are only added;
* `Program.run_join_lines`: what running the longer source does, and what reading it does.
-/

import EtaLong.Proofs.Program.Coherence
import EtaLong.Proofs.Program.Places
import EtaLong.Proofs.Sexp.Grammar
import EtaLong.Proofs.Sexp.Joined

namespace EtaLong

/-- **A source is refused at its end**, when something in it stays open, or at a token or a
character of it. -/
theorem Sexp.place_of_readAll {source : String} {error : Sexp.ReadError}
    (failed : Sexp.readAll source = .error error) :
    error = .unexpectedEnd source.length ∨
      error.message ≠ "Unexpected end of input" ∧ error.span.Inside 0 source.length := by
  generalize scanned : Token.scan source = found
  obtain ⟨tokens, unknown⟩ := found
  rcases (Sexp.readAll_eq_error_iff scanned).mp failed with
    refused | ⟨_, _, ⟨found, rfl, rfl⟩ | ⟨_, _, rfl⟩⟩
  · obtain ⟨before, token, after, _, rfl, _, _, rfl⟩ :=
      Sexp.Reader.exists_of_feedAll_eq_error refused
    have places := Token.inside_of_scanFrom 0 0 source.toList
    rw [← Token.scan, scanned, String.length_toList, Int.natCast_zero, Int.zero_add] at places
    have differ : "Unexpected token" ≠ "Unexpected end of input" := by decide +kernel
    exact .inr ⟨differ, places token (List.mem_append_right before List.mem_cons_self)⟩
  · obtain ⟨⟨place, far, stands⟩, _⟩ := Token.scanFrom_unknown scanned
    have bound := (List.getElem?_eq_some_iff.mp stands).1
    rw [String.length_toList] at bound
    refine .inr ⟨Sexp.unexpectedCharacter_ne (by decide +kernel) _, Int.natCast_nonneg _, ?_, ?_⟩
    · exact Int.lt_succ found.offset
    · dsimp only [Sexp.ReadError.span]
      omega
  · exact .inl rfl

namespace Program

variable {first : String}

/-! ### Reading -/

/-- A source that is parsed was read and all of it was parsed. -/
theorem exists_of_parse {source : String} {decls : List Decl} (parsed : parse source = .ok decls) :
    ∃ row written, Sexp.readAll source = .ok row ∧ row.mapM Decl.ofSexp = .ok written ∧
      decls = written.map Decl.expand := by
  unfold parse at parsed
  cases all : Decl.parseAll source with
  | error report =>
    rw [all] at parsed
    cases parsed
  | ok written =>
    rw [all] at parsed
    cases parsed
    obtain ⟨row, read, made⟩ := bind_eq_ok.mp all
    exact ⟨row, written, mapError_eq_ok.mp read, mapError_eq_ok.mp made, rfl⟩

/-- The parse of a source, by what was read. -/
theorem parse_of_readAll {source : String} {row : List Sexp}
    (read : Sexp.readAll source = .ok row) :
    parse source = ((row.mapM Decl.ofSexp).mapError (·.report source)).map (·.map Decl.expand) := by
  unfold parse Decl.parseAll
  rw [read]
  rfl

theorem parse_of_readAll_error {source : String} {error : Sexp.ReadError}
    (failed : Sexp.readAll source = .error error) :
    parse source = .error (error.report source) := by
  unfold parse Decl.parseAll
  rw [failed]
  rfl

/-- **The declarations of the longer source** are those of the first and more that stand after it;
or it is refused after the first. -/
theorem parse_join {decls : List Decl} (parsed : parse first = .ok decls) (second : String) :
    (∃ high more, parse (first ++ "\n" ++ second) = .ok (decls ++ more) ∧
        ∀ decl ∈ more, decl.Placed (first.length + 1) high) ∨
      ∃ report span, parse (first ++ "\n" ++ second) = .error report ∧ report.span = some span ∧
        first.length + 1 ≤ span.start := by
  obtain ⟨row, written, read, made, rfl⟩ := exists_of_parse parsed
  cases readSecond : Sexp.readAll second with
  | error error =>
    obtain ⟨moved, failed, _, place⟩ := Sexp.readAll_join_error read readSecond
    refine .inr ⟨_, moved.span, parse_of_readAll_error failed, rfl, ?_⟩
    have starts : 0 ≤ error.span.start := by
      rcases Sexp.place_of_readAll readSecond with rfl | ⟨_, inside⟩
      · exact Int.natCast_nonneg second.length
      · exact inside.1
    rw [place, Span.shift]
    dsimp only
    omega
  | ok later =>
    have joined := Sexp.readAll_join_ok read readSecond
    have ordered : Span.InOrder (first.length + 1) (second.length + (first.length + 1 : Nat))
        ((Sexp.tokensAll (Sexp.shiftAll (first.length + 1 : Nat) later)).map Token.span) := by
      have moved := (Sexp.inOrder_of_readAll readSecond).shift (first.length + 1 : Nat)
      rw [Sexp.tokensAll_shift, List.map_map]
      rw [List.map_map, Int.zero_add] at moved
      exact moved
    rw [parse_of_readAll joined, List.mapM_append, made]
    cases madeLater : (Sexp.shiftAll (first.length + 1 : Nat) later).mapM Decl.ofSexp with
    | error error =>
      have inside := Decl.mapM_failsInside ordered error madeLater
      exact .inr ⟨_, error.span, rfl, rfl, inside.1⟩
    | ok writtenLater =>
      refine .inl ⟨_, writtenLater.map Decl.expand, ?_, Decl.placed_of_mapM ordered madeLater⟩
      rw [← List.map_append]
      rfl

/-! ### Elaborating and evaluating -/

/-- **Entries are only added.** -/
theorem Progress.exists_accepted_append {progress last : Progress} {decls : List Decl}
    {stopped : Option Error} (ended : progress.steps decls = (last, stopped)) :
    ∃ more, last.accepted = progress.accepted ++ more := by
  induction decls generalizing progress with
  | nil =>
    cases ended
    exact ⟨[], (List.append_nil _).symm⟩
  | cons decl decls ih =>
    rw [steps] at ended
    cases stepped : progress.step decl with
    | error error =>
      rw [stepped] at ended
      cases ended
      exact ⟨[], (List.append_nil _).symm⟩
    | ok next =>
      rw [stepped] at ended
      obtain ⟨more, added⟩ := ih ended
      have one : ∃ added, next.accepted = progress.accepted ++ added := by
        cases accepts_of_step stepped with
        | claim _ _ => exact ⟨[], (List.append_nil _).symm⟩
        | define _ _ => exact ⟨[_], List.reverse_cons⟩
        | eval _ => exact ⟨[_], List.reverse_cons⟩
      obtain ⟨entries, grown⟩ := one
      exact ⟨entries ++ more, by rw [added, grown, List.append_assoc]⟩

/-! ### Running -/

/-- A run of the entries of a source is a run of the source. -/
theorem yields_of_run {source : String} {decls : List Decl} {last : Progress} {env : Env}
    {results : List Result} (parsed : parse source = .ok decls)
    (ended : Progress.steps {} decls = (last, none)) (ran : Run [] last.accepted results env) :
    Yields (fun fuel => run fuel source) results :=
  yields_of_evaluate parsed (elaborate_eq_ok.mpr ⟨last, ended, rfl⟩) ran.yields

/-- The entries of a source that was elaborated have a run. -/
theorem exists_run_of_steps {source : String} {decls : List Decl} {last : Progress}
    (parsed : parse source = .ok decls) (ended : Progress.steps {} decls = (last, none)) :
    ∃ results env, Run [] last.accepted results env := by
  have typed := Progress.typed_of_steps .start (plain_of_parse parsed) ended
  obtain ⟨results, env, ran, _⟩ := typed.entries.exists_run .nil
  exact ⟨results, env, ran⟩

/-- A source that runs was parsed and elaborated, and its results are those of its entries. -/
theorem exists_run_of_yields {source : String} {results : List Result}
    (ran : Yields (fun fuel => run fuel source) results) :
    ∃ decls last env, parse source = .ok decls ∧ Progress.steps {} decls = (last, none) ∧
      Run [] last.accepted results env := by
  obtain ⟨enough, ends⟩ := ran
  obtain ⟨decls, read, rest⟩ := bind_eq_ok.mp (ends enough (Nat.le_refl enough))
  obtain ⟨entries, elaborated, _⟩ := bind_eq_ok.mp rest
  have parsed := mapError_eq_ok.mp read
  obtain ⟨last, ended, _⟩ := elaborate_eq_ok.mp (mapError_eq_ok.mp elaborated)
  obtain ⟨others, env, entriesRun⟩ := exists_run_of_steps parsed ended
  have same := Yields.unique ⟨enough, ends⟩ (yields_of_run parsed ended entriesRun)
  exact ⟨decls, last, env, parsed, ended, same ▸ entriesRun⟩

/-- A source is rejected at the place of the first mistake in its declarations. -/
theorem rejected_of_steps {source : String} {decls : List Decl} {last : Progress} {error : Error}
    (parsed : parse source = .ok decls) (ended : Progress.steps {} decls = (last, some error)) :
    ∃ report : Diagnostic, report.kind ≠ .general ∧ report.span = some error.span ∧
      ∀ fuel, run fuel source = .error (.rejected report) := by
  have failed : elaborate decls = .error error := elaborate_eq_error.mpr (by rw [ended])
  rcases elaborate_fits (plain_of_parse parsed) with
    ⟨entries, elaborated, _⟩ | ⟨other, same, report, reported, own⟩
  · rw [failed] at elaborated
    cases elaborated
  · rw [failed] at same
    cases same
    have place : report.span = some error.span := Error.span_of_report? reported
    exact ⟨report.withSource source, own, place, run_of_reported parsed failed reported⟩

/-- **Results are only added.** Declarations that go on where others ended, without a mistake, give
the results of those before and more. -/
theorem exists_yields_append {source : String} {decls more : List Decl} {last final : Progress}
    {results : List Result} {env : Env} (parsed : parse source = .ok (decls ++ more))
    (ended : Progress.steps {} decls = (last, none)) (ran : Run [] last.accepted results env)
    (goesOn : last.steps more = (final, none)) :
    ∃ added, Yields (fun fuel => run fuel source) (results ++ added) := by
  have endedAll : Progress.steps {} (decls ++ more) = (final, none) :=
    (Progress.steps_append more ended).trans goesOn
  obtain ⟨all, _, allRun⟩ := exists_run_of_steps parsed endedAll
  have yields := yields_of_run parsed endedAll allRun
  obtain ⟨added, grown⟩ := Progress.exists_accepted_append goesOn
  rw [grown] at allRun
  obtain ⟨front, back, _, rfl, frontRun, _⟩ := allRun.split
  have same : front = results := frontRun.yields.unique ran.yields
  exact ⟨back, same ▸ yields⟩

/-- **Sources on two lines.** When the first source runs, the longer one gives the results of the
first and more, or is rejected at a place after the first. When the first source can be read, the
longer one is read as the first and then the second at its place, and fails exactly as the second
does, at its place. -/
theorem run_join_lines (first second : String) :
    (∀ results, Yields (fun fuel => run fuel first) results →
      (∃ more, Yields (fun fuel => run fuel (first ++ "\n" ++ second)) (results ++ more)) ∨
        ∃ (report : Diagnostic) (span : Span), report.kind ≠ .general ∧ report.span = some span ∧
          first.length + 1 ≤ span.start ∧
          ∀ fuel, run fuel (first ++ "\n" ++ second) = .error (.rejected report)) ∧
      ∀ row, Sexp.readAll first = .ok row →
        (∀ later, Sexp.readAll second = .ok later →
          Sexp.readAll (first ++ "\n" ++ second) =
            .ok (row ++ Sexp.shiftAll (first.length + 1 : Nat) later)) ∧
        ∀ error, Sexp.readAll second = .error error →
          ∃ moved, Sexp.readAll (first ++ "\n" ++ second) = .error moved ∧
            moved.message = error.message ∧
            moved.span = error.span.shift (first.length + 1 : Nat) := by
  refine ⟨fun results ran => ?_, fun row read => ⟨fun later readLater => ?_, ?_⟩⟩
  · obtain ⟨decls, last, env, parsed, ended, entriesRun⟩ := exists_run_of_yields ran
    rcases parse_join parsed second with
      ⟨high, more, parsedBoth, placed⟩ | ⟨report, span, refused, place, after⟩
    · generalize goesOn : last.steps more = outcome
      obtain ⟨final, _ | error⟩ := outcome
      · exact .inl (exists_yields_append parsedBoth ended entriesRun goesOn)
      · have endedAll := (Progress.steps_append more ended).trans goesOn
        obtain ⟨report, own, place, rejected⟩ := rejected_of_steps parsedBoth endedAll
        have inside := Progress.steps_failInside placed goesOn
        exact .inr ⟨report, error.span, own, place, inside.1, rejected⟩
    · refine .inr ⟨report, span, ?_, place, after, run_of_parse_error refused⟩
      rw [kind_of_parse_error refused]
      decide
  · exact Sexp.readAll_join_ok read readLater
  · exact fun error failed => Sexp.readAll_join_error read failed

/-- A line that ends in a comment with a bracket, before a line that is accepted and before a line
whose own bracket stays open. -/
theorem run_join_lines_at_bracket_in_comment :
    ∃ (results more : List Result) (report : Diagnostic) (span : Span)
      (error moved : Sexp.ReadError),
      Yields (fun fuel => run fuel "zero ; (") results ∧ results.length = 1 ∧
      Yields (fun fuel => run fuel ("zero ; (" ++ "\n" ++ "1")) (results ++ more) ∧
      report.span = some span ∧ 9 ≤ span.start ∧
      (∀ fuel, run fuel ("zero ; (" ++ "\n" ++ "(one") = .error (.rejected report)) ∧
      Sexp.readAll "(one" = .error error ∧ error.span = ⟨4, 4⟩ ∧
      Sexp.readAll ("zero ; (" ++ "\n" ++ "(one") = .error moved ∧ moved.span = ⟨13, 13⟩ := by
  have read : Sexp.readAll "zero ; (" = .ok [.symbol ⟨0, 4⟩ "zero"] := rfl
  have broken : Sexp.readAll "(one" = .error (.unexpectedEnd 4) := rfl
  have parsed : parse "zero ; (" = .ok [.eval ⟨0, 4⟩ (.zero ⟨0, 4⟩)] := rfl
  have parsedBoth : parse ("zero ; (" ++ "\n" ++ "1") =
      .ok [.eval ⟨0, 4⟩ (.zero ⟨0, 4⟩), .eval ⟨9, 10⟩ (.number ⟨9, 10⟩ 1)] := rfl
  have runs (less : Nat) : run (less + 1) "zero ; (" = .ok [⟨none, .nat, .zero⟩] := by
    rw [run_of_parse parsed]
    rfl
  have ran : Yields (fun fuel => run fuel "zero ; (") [⟨none, .nat, .zero⟩] := by
    refine ⟨1, fun fuel enough => ?_⟩
    obtain ⟨less, rfl⟩ := Nat.exists_eq_add_of_le' enough
    exact runs less
  have ranBoth : run 2 ("zero ; (" ++ "\n" ++ "1") =
      .ok [⟨none, .nat, .zero⟩, ⟨none, .nat, .succ .zero⟩] := by
    rw [run_of_parse parsedBoth]
    rfl
  obtain ⟨grows, _⟩ := run_join_lines "zero ; (" "1"
  obtain ⟨stops, reads⟩ := run_join_lines "zero ; (" "(one"
  obtain ⟨moved, failed, _, place⟩ := (reads _ read).2 _ broken
  rcases grows _ ran with ⟨more, yields⟩ | ⟨_, _, _, _, _, rejected⟩
  · rcases stops _ ran with ⟨_, enough, ends⟩ | ⟨report, span, _, reported, after, rejected⟩
    · have refused := run_of_parse_error (parse_of_readAll_error failed) enough
      cases refused.symm.trans (ends enough (Nat.le_refl enough))
    · exact ⟨_, more, report, span, _, moved, ran, rfl, yields, reported, after, rejected, broken,
        rfl, failed, place⟩
  · cases (rejected 2).symm.trans ranBoth

end Program

end EtaLong
