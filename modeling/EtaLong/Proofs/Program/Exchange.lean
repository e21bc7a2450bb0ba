/-
**Independent definitions exchanged.**

Two definitions in a row that do not use each other can change places. What comes after them is then
elaborated over a scope with its two innermost entries exchanged, so its terms have other indices, and
evaluated over an environment in another order, so its closures capture other values; yet the program
is elaborated in both orders or in none, and the results are the same but for the order of those two.

* `Progress.Definable`: what a name can be defined as;
* `Progress.definable_define_iff`: a definition that is not used makes no difference to the next;
* `Progress.alike_exchange`: progress after two definitions in either order;
* `Program.TypedFrom.yields_exchanged`: the results of entries in either order;
* `Program.independent_definitions_exchange`: whole programs.
-/

import EtaLong.Proofs.Program.Unused

namespace EtaLong

/-! ### The two innermost entries exchanged -/

/-- The renaming that exchanges the two innermost variables. -/
def Term.swapMove : Nat → Nat
  | 0 => 1
  | 1 => 0
  | index + 2 => index + 2

/-- **A scope with its two innermost entries exchanged** has every name, at the index that goes with
the exchange, since the two entries have different names. -/
theorem Scope.moved_swap {scope : Scope} {name other : String} (different : name ≠ other)
    (ty ty' : Ty) (mentioned : String) :
    Scope.Moved Term.swapMove ((other, ty') :: (name, ty) :: scope)
      ((name, ty) :: (other, ty') :: scope) mentioned := by
  unfold Scope.Moved
  by_cases isName : name = mentioned
  · subst isName
    rw [find?_cons_self, find?_cons_of_ne (Ne.symm different), find?_cons_self]
    rfl
  by_cases isOther : other = mentioned
  · subst isOther
    rw [find?_cons_of_ne different, find?_cons_self, find?_cons_self]
    rfl
  rw [find?_cons_of_ne isName, find?_cons_of_ne isOther, find?_cons_of_ne isOther,
    find?_cons_of_ne isName]
  cases scope.find? mentioned <;> rfl

/-- When one of two outcomes that differ by a renaming is a term, so is the other. -/
theorem Elaboration.Renames.eq_ok_iff {move : Nat → Nat} {term' : Term} {ty : Ty}
    {first second : Except Elaboration.Error (Term × Ty)} (renames : Renames move first second) :
    second = .ok (term', ty) ↔ ∃ term, first = .ok (term, ty) ∧ term.rename move = term' := by
  cases renames with
  | ok term found => simp [and_comm]
  | error error => simp

namespace Program

/-! ### Two definitions in either order -/

namespace Progress

variable {progress last : Progress} {span span' : Span} {name other : String} {body body' : Expr}
  {term term' : Term} {ty ty' : Ty}

/-- **A name can be defined as a term of a type**: it is new, and its body is elaborated to them under
the demand that its claim makes. -/
structure Definable (progress : Progress) (name : String) (body : Expr) (term : Term) (ty : Ty) :
    Prop where
  fresh : progress.scope.find? name = none
  run : body.elaborate progress.scope (progress.demand name) = .ok (term, ty)

/-- **A definition is accepted** exactly when its name can be defined. -/
theorem step_define_eq_ok {next : Progress} :
    progress.step (.define span name body) = .ok next ↔
      ∃ term ty, progress.Definable name body term ty ∧
        progress.define span name term ty = next := by
  constructor
  · intro stepped
    cases accepts_of_step stepped with
    | define fresh run => exact ⟨_, _, ⟨fresh, run⟩, rfl⟩
  · rintro ⟨term, ty, ⟨fresh, run⟩, rfl⟩
    obtain ⟨_, allowed⟩ := Expr.typed_of_elaborate run
    rw [step, fresh, if_neg (by simp)]
    unfold demand at run allowed
    cases claimed : progress.claims.lookup name with
    | none =>
      rw [claimed] at run
      dsimp only [Expr.infer]
      rw [run]
      rfl
    | some expected =>
      rw [claimed] at run allowed
      cases allowed
      dsimp only [Expr.check]
      rw [run]
      rfl

/-- The first of several declarations is accepted, and then the others. -/
theorem steps_cons_eq {decl : Decl} {decls : List Decl} :
    progress.steps (decl :: decls) = (last, none) ↔
      ∃ next, progress.step decl = .ok next ∧ next.steps decls = (last, none) := by
  rw [steps]
  cases progress.step decl with
  | ok next => simp
  | error error => simp

/-- **A definition that a body does not use** makes no difference to what another name can be defined
as, but for the index of each variable. -/
theorem definable_define_iff (different : name ≠ other) (unused : name ∉ body'.freeNames) :
    (progress.define span name term ty).Definable other body' term' ty' ↔
      ∃ before, progress.Definable other body' before ty' ∧ before.rename (· + 1) = term' := by
  have alike := progress.alike_define span name term ty
  have found : (progress.define span name term ty).scope.find? other = _ :=
    alike.scope other (Ne.symm different)
  have renames := Expr.elaborate_renames body' (progress.demand other) fun used among =>
    alike.scope used (by rintro rfl; exact unused among)
  constructor
  · rintro ⟨fresh, run⟩
    obtain ⟨before, ran, moved⟩ := renames.eq_ok_iff.mp run
    rw [found, Option.map_eq_none_iff] at fresh
    exact ⟨before, ⟨fresh, ran⟩, moved⟩
  · rintro ⟨before, ⟨fresh, ran⟩, moved⟩
    rw [← Option.map_eq_none_iff, ← found] at fresh
    exact ⟨fresh, renames.eq_ok_iff.mpr ⟨before, ran, moved⟩⟩

/-- **Two definitions in a row**, of which the second does not use the first, are accepted when each
name can be defined on its own. -/
theorem steps_define_define (different : name ≠ other) (unused : name ∉ body'.freeNames) :
    progress.steps [.define span name body, .define span' other body'] = (last, none) ↔
      ∃ term ty term' ty', progress.Definable name body term ty ∧
        progress.Definable other body' term' ty' ∧
        (progress.define span name term ty).define span' other (term'.rename (· + 1)) ty' = last := by
  constructor
  · intro ended
    obtain ⟨first, stepped, ended⟩ := steps_cons_eq.mp ended
    obtain ⟨second, stepped', ended⟩ := steps_cons_eq.mp ended
    obtain ⟨term, ty, definable, rfl⟩ := step_define_eq_ok.mp stepped
    obtain ⟨moved, ty', definable', rfl⟩ := step_define_eq_ok.mp stepped'
    obtain ⟨term', before, rfl⟩ := (definable_define_iff different unused).mp definable'
    cases ended
    exact ⟨term, ty, term', ty', definable, before, rfl⟩
  · rintro ⟨term, ty, term', ty', definable, definable', rfl⟩
    have after : (progress.define span name term ty).Definable other body' (term'.rename (· + 1)) ty' :=
      (definable_define_iff different unused).mpr ⟨term', definable', rfl⟩
    exact steps_cons_eq.mpr ⟨_, step_define_eq_ok.mpr ⟨term, ty, definable, rfl⟩,
      steps_cons_eq.mpr ⟨_, step_define_eq_ok.mpr ⟨_, ty', after, rfl⟩, rfl⟩⟩

/-- **Progress after two definitions in either order** is alike, for all names: the two innermost
indices are exchanged. -/
theorem alike_exchange (progress : Progress) (different : name ≠ other) (span span' : Span)
    (first first' second second' : Term) (ty ty' : Ty) :
    Alike Term.swapMove (fun _ => True)
      ((progress.define span name first ty).define span' other second ty')
      ((progress.define span' other second' ty').define span name first' ty) where
  claims := fun _ _ => rfl
  scope := fun mentioned _ => Scope.moved_swap different ty ty' mentioned

end Progress

/-- An entry below one more definition. -/
def Entry.below (entry : Entry) : Entry := { entry with term := entry.term.rename (· + 1) }

/-- **Entries of independent definitions in either order**: after what stands in front of both, each
definition over the other, and then entries that differ by the exchange of the two. -/
def Exchanged (name other : String) (entries entries' : List Entry) : Prop :=
  ∃ (front added : List Entry) (first second : Entry),
    first.name = some name ∧ second.name = some other ∧
    second.term.HasType (front.foldl Entry.extend []) second.ty ∧
    entries = front ++ first :: second.below :: added ∧
    entries' = front ++ second :: first.below :: renameFrom Term.swapMove added

/-- **A program with two independent definitions** that is elaborated is elaborated with them exchanged,
to entries that are exchanged as well. -/
theorem exists_exchanged {front back : List Decl} {span span' : Span} {name other : String}
    {body body' : Expr} {entries : List Entry} (different : name ≠ other)
    (unused : name ∉ body'.freeNames) (unused' : other ∉ body.freeNames)
    (elaborated : elaborate (front ++ [.define span name body, .define span' other body'] ++ back) =
      .ok entries) :
    ∃ entries', elaborate (front ++ [.define span' other body', .define span name body] ++ back) =
      .ok entries' ∧ Exchanged name other entries entries' := by
  obtain ⟨last, ended, rfl⟩ := elaborate_eq_ok.mp elaborated
  obtain ⟨middle, frontEnded, backEnded⟩ := Progress.exists_steps_of_append ended
  obtain ⟨progress, progressEnded, pairEnded⟩ := Progress.exists_steps_of_append frontEnded
  obtain ⟨term, ty, term', ty', definable, definable', rfl⟩ :=
    (Progress.steps_define_define different unused).mp pairEnded
  have swappedEnded : progress.steps [.define span' other body', .define span name body] = _ :=
    (Progress.steps_define_define (Ne.symm different) unused').mpr
      ⟨term', ty', term, ty, definable', definable, rfl⟩
  have frontEnded' := (Progress.steps_append _ progressEnded).trans swappedEnded
  -- The rest of the program mentions what it likes: all names are alike in both orders.
  rcases (progress.alike_exchange different span span' term (term.rename (· + 1))
    (term'.rename (· + 1)) term' ty ty').steps fun decl _ _ _ => trivial with
    ⟨error, stopped, _⟩ | ⟨last', other', added, ended', otherEnded, accepted, accepted'⟩
  · rw [backEnded] at stopped
    cases stopped
  · cases backEnded.symm.trans ended'
    have otherSteps := (Progress.steps_append back frontEnded').trans otherEnded
    refine ⟨_, elaborate_eq_ok.mpr ⟨other', otherSteps, rfl⟩, progress.accepted, added,
      ⟨some name, ty, term, span⟩, ⟨some other, ty', term', span'⟩, rfl, rfl, ?_, ?_, ?_⟩
    · rw [(Progress.Follows.start.steps progressEnded).typed.scope]
      exact (Expr.typed_of_elaborate definable'.run).1
    · rw [accepted]
      simp [Progress.accepted, Progress.define, Entry.below]
    · rw [accepted']
      simp [Progress.accepted, Progress.define, Entry.below]

/-! ### Evaluation in either order -/

/-- A definition leaves its value behind. -/
theorem Run.definition {env last : Env} {entry : Entry} {entries : List Entry}
    {results : List Result} {value : Value} {normal : Term} (named : entry.name.isSome)
    (evaluates : entry.term.Evaluates env value) (reads : value.ReadsBack [] entry.ty normal)
    (rest : Run (value :: env) entries results last) :
    Run env (entry :: entries) (⟨entry.name, entry.ty, normal⟩ :: results) last := by
  refine .cons evaluates reads ?_
  rwa [Entry.bind, if_pos named]

/-- **Environments with their two innermost values exchanged** have the same values up to the
exchange: each of the two stands in either environment, evaluated over the other or not. -/
theorem EnvMoved.swap {ctx : Context} {env : Env} {ty ty' : Ty} {term term' : Term}
    {values : Nat → Term} {first first' second second' : Value}
    (envs : Env.Realize [] ctx values env env) (firsts : Value.Realize [] ty term first first')
    (seconds : Value.Realize [] ty' term' second second') :
    EnvMoved Term.swapMove (ty' :: ty :: ctx) (second' :: first :: env) (first' :: second :: env) := by
  refine ⟨Term.push term' (Term.push term values), fun index entry found => ?_⟩
  cases index with
  | zero =>
    cases found
    exact ⟨second', second, rfl, rfl, seconds.symm⟩
  | succ index =>
    cases index with
    | zero =>
      cases found
      exact ⟨first, first', rfl, rfl, firsts⟩
    | succ index => exact envs index entry found

/-- **Entries in either order have the same results**, but for the order of the two. Each of the two
has values that realize one term, over the other and without it. -/
theorem TypedFrom.yields_exchanged {front added : List Entry} {first second : Entry}
    (typed : TypedFrom [] (front ++ first :: second.below :: added))
    (secondTyped : second.term.HasType (front.foldl Entry.extend []) second.ty)
    (firstNamed : first.name.isSome) (secondNamed : second.name.isSome) :
    ∃ before own own' after, own.name = first.name ∧ own'.name = second.name ∧
      Yields (fun fuel => evaluate fuel (front ++ first :: second.below :: added))
        (before ++ own :: own' :: after) ∧
      Yields (fun fuel => evaluate fuel
        (front ++ second :: first.below :: renameFrom Term.swapMove added))
        (before ++ own' :: own :: after) := by
  obtain ⟨frontTyped, firstTyped, _, addedTyped⟩ := typedFrom_append.mp typed
  obtain ⟨before, reached, frontRun, reachedTyped, _⟩ := frontTyped.exists_run .nil
  obtain ⟨values, envs⟩ := reachedTyped.realized
  obtain ⟨one, _, firstEval, _, _⟩ := firstTyped.meet envs
  obtain ⟨two, _, secondEval, _, _⟩ := secondTyped.meet envs
  obtain ⟨one', firstEval', firsts⟩ := firstTyped.evaluates_under envs firstEval two
  obtain ⟨two', secondEval', seconds⟩ := secondTyped.evaluates_under envs secondEval one
  obtain ⟨normal, firstReads, firstReads', _⟩ := firsts.reify
  obtain ⟨normal', secondReads, secondReads', _⟩ := seconds.reify
  rw [Term.weaken_fresh] at firstEval' secondEval'
  have context : second.below.extend (first.extend (front.foldl Entry.extend [])) =
      second.ty :: first.ty :: front.foldl Entry.extend [] := by
    simp [Entry.extend, Entry.below, firstNamed, secondNamed]
  rw [context] at addedTyped
  obtain ⟨after, last, last', run, run'⟩ := addedTyped.run_renamed (EnvMoved.swap envs firsts seconds)
  have secondRun : Run (one :: reached) (second.below :: added) _ last :=
    .definition secondNamed secondEval' secondReads' run
  have firstRun : Run (two :: reached) (first.below :: renameFrom Term.swapMove added) _ last' :=
    .definition firstNamed firstEval' firstReads' run'
  exact ⟨before, _, _, after, rfl, rfl,
    (frontRun.append (.definition firstNamed firstEval firstReads secondRun)).yields,
    (frontRun.append (.definition secondNamed secondEval secondReads firstRun)).yields⟩

/-! ### Whole programs -/

/-- **The order of independent definitions does not matter.** Let a program have two definitions of
different names in a row that do not use each other. Then it is elaborated exactly when it is with the
two exchanged; and then both have results, the same ones but for the order of those two. -/
theorem independent_definitions_exchange {front back : List Decl} {span span' : Span}
    {name other : String} {body body' : Expr} (different : name ≠ other)
    (unused : name ∉ body'.freeNames) (unused' : other ∉ body.freeNames) :
    ((∃ entries, elaborate
        (front ++ [.define span name body, .define span' other body'] ++ back) = .ok entries) ↔
      ∃ entries, elaborate
        (front ++ [.define span' other body', .define span name body] ++ back) = .ok entries) ∧
    (∀ entries entries',
      elaborate (front ++ [.define span name body, .define span' other body'] ++ back) =
        .ok entries →
      elaborate (front ++ [.define span' other body', .define span name body] ++ back) =
        .ok entries' →
      ∃ before own own' after, own.name = some name ∧ own'.name = some other ∧
        Yields (fun fuel => evaluate fuel entries) (before ++ own :: own' :: after) ∧
        Yields (fun fuel => evaluate fuel entries') (before ++ own' :: own :: after)) := by
  refine ⟨⟨?_, ?_⟩, ?_⟩
  · rintro ⟨entries, elaborated⟩
    obtain ⟨entries', elaborated', _⟩ := exists_exchanged different unused unused' elaborated
    exact ⟨entries', elaborated'⟩
  · rintro ⟨entries, elaborated⟩
    obtain ⟨entries', elaborated', _⟩ :=
      exists_exchanged (Ne.symm different) unused' unused elaborated
    exact ⟨entries', elaborated'⟩
  · intro entries entries' elaborated elaborated'
    obtain ⟨exchanged, reelaborated, front, added, first, second, firstName, secondName,
      secondTyped, rfl, rfl⟩ := exists_exchanged different unused unused' elaborated
    cases reelaborated.symm.trans elaborated'
    obtain ⟨_, follows, accepted⟩ := follows_of_elaborate elaborated
    have typed := follows.typed.entries
    rw [accepted] at typed
    have firstNamed : first.name.isSome := by rw [firstName]; rfl
    have secondNamed : second.name.isSome := by rw [secondName]; rfl
    have yields := typed.yields_exchanged secondTyped firstNamed secondNamed
    rwa [firstName, secondName] at yields

/-- Two definitions over a third, one of them a function with a claim, exchanged in a program that goes
on to use both: the function is applied to the number, and captured by a function of the same
parameter name. -/
theorem independent_definitions_exchange_at_used_later :
    ∃ (program exchanged : List Decl) (entries entries' : List Entry) (before after : List Result)
      (own own' : Result),
      elaborate program = .ok entries ∧ elaborate exchanged = .ok entries' ∧
      entries.map Entry.name = [some "one", some "two", some "next", some "twice", none] ∧
      entries'.map Entry.name = [some "one", some "next", some "two", some "twice", none] ∧
      own.name = some "two" ∧ own'.name = some "next" ∧
      Yields (fun fuel => evaluate fuel entries) (before ++ own :: own' :: after) ∧
      Yields (fun fuel => evaluate fuel entries') (before ++ own' :: own :: after) := by
  let span : Span := ⟨0, 0⟩
  let arrow : TypeExpr := .arrow span [.nat span] (.nat span)
  let next : Expr := .var span "next"
  let front : List Decl := [.claim span "next" arrow, .define span "one" (.number span 1)]
  let two : Expr := .add1 span (.var span "one")
  let increment : Expr := .lam span [⟨"two", span⟩] (.add1 span (.var span "two"))
  let back : List Decl :=
    [.define span "twice" (.the span arrow (.lam span [⟨"n", span⟩]
      (.app span next [.app span next [.var span "n"]]))),
      .eval span (.app span (.var span "twice") [.var span "two"])]
  have different : "two" ≠ "next" := by decide
  have unused : "two" ∉ increment.freeNames := by decide
  have unused' : "next" ∉ two.freeNames := by decide
  obtain ⟨_, accepted⟩ := @independent_definitions_exchange front back span span _ _ _ _ different
    unused unused'
  obtain ⟨before, own, own', after, named, named', yields, yields'⟩ := accepted _ _ rfl rfl
  exact ⟨front ++ [.define span "two" two, .define span "next" increment] ++ back,
    front ++ [.define span "next" increment, .define span "two" two] ++ back, _, _, before, after,
    own, own', rfl, rfl, rfl, rfl, named, named', yields, yields'⟩

end Program

end EtaLong
