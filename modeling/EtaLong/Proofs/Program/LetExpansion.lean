/-
**Programs as closed terms.**

An entry of a program is a term over the definitions before it. Applied one inside the other to the
terms of those definitions, functions of the defined names make one closed term of it. Evaluating
the closed term goes through the environments that evaluating the program goes through, so the
result of the entry is the normal form of the closed term.

* `Program.letExpand`: a term, closed by the definitions before it;
* `Program.TypedFrom.letExpand`, `Program.Run.letExpand`: its type and its value;
* `Program.evaluate_normalizes_letExpansions`: the results of a program are normal forms of closed
  terms.
-/

import EtaLong.Proofs.Program.Coherence

namespace EtaLong

namespace Program

/-! ### Definitions around a term -/

/-- A term in which an entry may be used: a definition binds it, a bare expression does not. -/
def Entry.letIn (entry : Entry) (body : Term) : Term :=
  if entry.name.isSome then .app (.lam entry.ty body) entry.term else body

/-- **The let-expansion of a term** over the entries before it, the first outermost. -/
def letExpand (entries : List Entry) (term : Term) : Term := entries.foldr Entry.letIn term

theorem Entry.letIn_typed {ctx : Context} {ty : Ty} {entry : Entry} {body : Term}
    (typed : entry.term.HasType ctx entry.ty) (bodyTyped : body.HasType (entry.extend ctx) ty) :
    (entry.letIn body).HasType ctx ty := by
  unfold Entry.extend at bodyTyped
  unfold Entry.letIn
  by_cases named : entry.name.isSome
  · rw [if_pos named] at bodyTyped ⊢
    exact .app (.lam bodyTyped) typed
  · rw [if_neg named] at bodyTyped ⊢
    exact bodyTyped

theorem Entry.letIn_evaluates {env : Env} {value result : Value} {entry : Entry} {body : Term}
    (evaluates : entry.term.Evaluates env value)
    (bodyEvaluates : body.Evaluates (entry.bind env value) result) :
    (entry.letIn body).Evaluates env result := by
  unfold Entry.bind at bodyEvaluates
  unfold Entry.letIn
  by_cases named : entry.name.isSome
  · rw [if_pos named] at bodyEvaluates ⊢
    exact .app (.lam env entry.ty body) evaluates (.closure bodyEvaluates)
  · rw [if_neg named] at bodyEvaluates ⊢
    exact bodyEvaluates

/-- **The type of a let-expansion** is that of the term over the definitions. -/
theorem TypedFrom.letExpand {ctx : Context} {ty : Ty} {entries : List Entry} {term : Term}
    (typed : TypedFrom ctx entries) (termTyped : term.HasType (entries.foldl Entry.extend ctx) ty) :
    (letExpand entries term).HasType ctx ty := by
  induction entries generalizing ctx with
  | nil => exact termTyped
  | cons entry entries ih => exact Entry.letIn_typed typed.1 (ih typed.2 termTyped)

namespace Run

variable {env last : Env} {entries : List Entry} {results : List Result}

/-- **The value of a let-expansion** is that of the term in the environment that a run of the
definitions reaches. -/
theorem letExpand {term : Term} {value : Value} (run : Run env entries results last)
    (evaluates : term.Evaluates last value) : (letExpand entries term).Evaluates env value := by
  induction run with
  | nil => exact evaluates
  | cons entryEvaluates _ _ ih => exact Entry.letIn_evaluates entryEvaluates (ih evaluates)

/-- The result of an entry reads back the value of its term, in the environment that a run of the
entries before it reaches. -/
theorem getElem? {index : Nat} {entry : Entry} (run : Run env entries results last)
    (found : entries[index]? = some entry) :
    ∃ before reached value normal, Run env (entries.take index) before reached ∧
      entry.term.Evaluates reached value ∧ value.ReadsBack [] entry.ty normal ∧
      results[index]? = some ⟨entry.name, entry.ty, normal⟩ := by
  obtain ⟨bound, rfl⟩ := List.getElem?_eq_some_iff.mp found
  rw [← List.take_append_drop index entries, List.drop_eq_getElem_cons bound] at run
  obtain ⟨before, after, reached, rfl, frontRun, backRun⟩ := run.split
  have counted : before.length = index := by
    rw [frontRun.length_eq, List.length_take, Nat.min_eq_left (Nat.le_of_lt bound)]
  cases backRun with
  | cons evaluates reads _ =>
    refine ⟨before, reached, _, _, frontRun, evaluates, reads, ?_⟩
    rw [List.getElem?_append_right (Nat.le_of_eq counted), counted, Nat.sub_self]
    rfl

end Run

/-! ### Results as normal forms -/

/-- **Running a program normalizes closed terms.** A program that is elaborated has a result for
each entry, with the normal form of the let-expansion of the entry over those before it; and the
let-expansion has the type of the entry in the empty context. -/
theorem evaluate_normalizes_letExpansions {decls : List Decl} {entries : List Entry}
    (elaborated : elaborate decls = .ok entries) :
    ∃ results, Yields (fun fuel => evaluate fuel entries) results ∧
      results.length = entries.length ∧
      ∀ (index : Nat) (entry : Entry), entries[index]? = some entry →
        ∃ normal, results[index]? = some ⟨entry.name, entry.ty, normal⟩ ∧
          (letExpand (entries.take index) entry.term).infer [] = .ok entry.ty ∧
          (letExpand (entries.take index) entry.term).NormalizesTo [] normal entry.ty := by
  obtain ⟨_, follows, rfl⟩ := follows_of_elaborate elaborated
  have typed := follows.typed.entries
  obtain ⟨results, last, run, _⟩ := typed.exists_run .nil
  refine ⟨results, run.yields, run.length_eq, fun index entry found => ?_⟩
  obtain ⟨before, reached, value, normal, frontRun, evaluates, reads, given⟩ := run.getElem? found
  have expandedTyped := (typed.take index).letExpand (typed.getElem? found)
  exact ⟨normal, given, expandedTyped.infer_eq,
    .of_reads expandedTyped (frontRun.letExpand evaluates) reads⟩

/-- A function that is claimed and defined, evaluated bare, used in a definition, and applied to
what was defined: the last entry is expanded over the two definitions, without the bare
expression. -/
theorem evaluate_normalizes_letExpansions_at_mixed_entries :
    ∃ (decls : List Decl) (entries : List Entry) (results : List Result) (function three : Term),
      elaborate decls = .ok entries ∧
      entries.map Entry.name = [some "increment", none, some "two", none] ∧
      Yields (fun fuel => evaluate fuel entries) results ∧
      results[1]? = some ⟨none, .fn .nat .nat, function⟩ ∧
      results[3]? = some ⟨none, .nat, three⟩ ∧
      (Term.app (.lam (.fn .nat .nat) (.var 0)) (.lam .nat (.succ (.var 0)))).NormalizesTo []
        function (.fn .nat .nat) ∧
      (Term.app (.lam (.fn .nat .nat) (.app (.lam .nat (.app (.var 1) (.var 0)))
        (.app (.var 0) (.succ .zero)))) (.lam .nat (.succ (.var 0)))).NormalizesTo []
        three .nat := by
  let span : Span := ⟨0, 0⟩
  let increment : Expr := .var span "increment"
  let decls : List Decl :=
    [.claim span "increment" (.arrow span [.nat span] (.nat span)),
      .define span "increment" (.lam span [⟨"n", span⟩] (.add1 span (.var span "n"))),
      .eval span increment,
      .define span "two" (.app span increment [.number span 1]),
      .eval span (.app span increment [.var span "two"])]
  have elaborated : elaborate decls = .ok
      [⟨some "increment", .fn .nat .nat, .lam .nat (.succ (.var 0)), span⟩,
        ⟨none, .fn .nat .nat, .var 0, span⟩,
        ⟨some "two", .nat, .app (.var 0) (.succ .zero), span⟩,
        ⟨none, .nat, .app (.var 1) (.var 0), span⟩] := rfl
  obtain ⟨results, yields, _, normalForms⟩ := evaluate_normalizes_letExpansions elaborated
  obtain ⟨function, given, _, normalizes⟩ := normalForms 1 _ rfl
  obtain ⟨three, givenLast, _, normalizesLast⟩ := normalForms 3 _ rfl
  exact ⟨decls, _, results, function, three, elaborated, rfl, yields, given, givenLast, normalizes,
    normalizesLast⟩

end Program

end EtaLong
