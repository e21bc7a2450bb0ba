/-
**Declarations over other definitions.**

Two runs of the same declarations may start over different definitions. If both runs find the names
that the declarations mention at the same types, at indices that a renaming relates, then they take
the same steps: the first error is the same, and the terms of the entries differ by the renaming.
If moreover both environments have values at these indices that realize the same terms, then the
results are the same, though the values are not: closures capture different environments.

* `Decl.names`: the names that a declaration claims, defines or uses;
* `Progress.Alike`: progress over two rows of definitions;
* `Progress.Alike.step`, `Progress.Alike.steps`: one declaration, and all of them;
* `Program.TypedFrom.run_renamed`: the results over both.
-/

import EtaLong.Proofs.Elaboration.Renaming
import EtaLong.Proofs.Program

namespace EtaLong

/-- **The names that a declaration mentions**: what it claims or defines, and what is free in its
expression. -/
def Decl.names : Decl → List String
  | .claim _ name _ => [name]
  | .define _ name body => name :: body.freeNames
  | .eval _ body => body.freeNames

namespace Program

/-! ### Entries renamed -/

/-- The renaming for what follows an entry: a definition is one more binder. -/
def Entry.under (move : Nat → Nat) (entry : Entry) : Nat → Nat :=
  if entry.name.isSome then Term.underMove move else move

/-- **Entries with the variables of their terms moved**, where each definition binds those after
it. -/
def renameFrom (move : Nat → Nat) : List Entry → List Entry
  | [] => []
  | entry :: entries =>
    { entry with term := entry.term.rename move } :: renameFrom (entry.under move) entries

theorem renameFrom_append (move : Nat → Nat) (front back : List Entry) :
    renameFrom move (front ++ back) =
      renameFrom move front ++ renameFrom (front.foldl Entry.under move) back := by
  induction front generalizing move with
  | nil => rfl
  | cons entry front ih =>
    rw [List.cons_append, renameFrom, renameFrom, ih, List.cons_append, List.foldl_cons]

/-! ### Elaboration of declarations -/

namespace Progress

variable {move : Nat → Nat} {known : String → Prop} {progress other : Progress}

/-- **Progress alike up to a renaming**: the known names have the same claims, and are defined in
both at the same types or in neither. -/
structure Alike (move : Nat → Nat) (known : String → Prop) (progress other : Progress) : Prop where
  claims : ∀ name, known name → other.claims.lookup name = progress.claims.lookup name
  scope : ∀ name, known name → Scope.Moved move progress.scope other.scope name

/-- **Outcomes of one declaration in progress that is alike**: the same error, or progress that is
alike, with the same entries added up to the renaming. -/
inductive Together (move : Nat → Nat) (known : String → Prop) (progress other : Progress) :
    Except Error Progress → Except Error Progress → Prop where
  | ok {next next' : Progress} (added : List Entry) :
      Alike (added.foldl Entry.under move) known next next' →
      next.accepted = progress.accepted ++ added →
      next'.accepted = other.accepted ++ renameFrom move added →
      Together move known progress other (.ok next) (.ok next')
  | error (error : Error) : Together move known progress other (.error error) (.error error)

namespace Alike

/-- One more claim in both. -/
theorem claim (alike : Alike move known progress other) (name : String) (ty : Ty) :
    Alike move known { progress with claims := (name, ty) :: progress.claims }
      { other with claims := (name, ty) :: other.claims } where
  claims := by
    intro mentioned isKnown
    rw [List.lookup_cons, List.lookup_cons, alike.claims mentioned isKnown]
  scope := alike.scope

/-- One more definition in both, with terms that differ by the renaming. -/
theorem define (alike : Alike move known progress other) (span : Span) (name : String) (term : Term)
    (ty : Ty) :
    Together move known progress other (.ok (progress.define span name term ty))
      (.ok (other.define span name (term.rename move) ty)) := by
  refine .ok [⟨some name, ty, term, span⟩] ⟨alike.claims, ?_⟩ List.reverse_cons List.reverse_cons
  intro mentioned isKnown
  exact Scope.Moved.push fun _ => alike.scope mentioned isKnown

/-- One more bare expression in both. -/
theorem eval (alike : Alike move known progress other) (span : Span) (term : Term) (ty : Ty) :
    Together move known progress other
      (.ok { progress with entries := ⟨none, ty, term, span⟩ :: progress.entries })
      (.ok { other with entries := ⟨none, ty, term.rename move, span⟩ :: other.entries }) :=
  .ok [⟨none, ty, term, span⟩] ⟨alike.claims, alike.scope⟩ List.reverse_cons List.reverse_cons

/-- **One declaration** that mentions known names only. -/
theorem step (alike : Alike move known progress other) {decl : Decl}
    (mentions : ∀ name ∈ decl.names, known name) :
    Together move known progress other (progress.step decl) (other.step decl) := by
  cases decl with
  | claim span name ty =>
    have isKnown := mentions name List.mem_cons_self
    have found : other.scope.find? name = _ := alike.scope name isKnown
    rw [Progress.step, Progress.step, alike.claims name isKnown, found, Option.isSome_map]
    by_cases claimed : (progress.claims.lookup name).isSome
    · rw [if_pos claimed, if_pos claimed]
      exact .error _
    rw [if_neg claimed, if_neg claimed]
    by_cases defined : (progress.scope.find? name).isSome
    · rw [if_pos defined, if_pos defined]
      exact .error _
    rw [if_neg defined, if_neg defined]
    exact .ok [] (alike.claim name ty.toTy) (List.append_nil _).symm (List.append_nil _).symm
  | define span name body =>
    have isKnown := mentions name List.mem_cons_self
    have found : other.scope.find? name = _ := alike.scope name isKnown
    have finds : ∀ used ∈ body.freeNames, Scope.Moved move progress.scope other.scope used :=
      fun used among => alike.scope used (mentions used (.tail name among))
    rw [Progress.step, Progress.step, alike.claims name isKnown, found, Option.isSome_map]
    by_cases defined : (progress.scope.find? name).isSome
    · rw [if_pos defined, if_pos defined]
      exact .error _
    rw [if_neg defined, if_neg defined]
    -- With a claim the body is checked at its type, without one its type is found.
    cases progress.claims.lookup name with
    | some ty =>
      have renames := Expr.elaborate_renames body (.exactly ty "define") finds
      dsimp only [Expr.check]
      generalize body.elaborate progress.scope (.exactly ty "define") = run at renames ⊢
      generalize body.elaborate other.scope (.exactly ty "define") = run' at renames ⊢
      cases renames with
      | ok term found => exact alike.define span name term ty
      | error error => exact .error _
    | none =>
      have renames := Expr.elaborate_renames body .any finds
      dsimp only [Expr.infer]
      generalize body.elaborate progress.scope .any = run at renames ⊢
      generalize body.elaborate other.scope .any = run' at renames ⊢
      cases renames with
      | ok term ty => exact alike.define span name term ty
      | error error => exact .error _
  | eval span body =>
    have renames := Expr.elaborate_renames body .any fun used among =>
      alike.scope used (mentions used among)
    rw [Progress.step, Progress.step]
    dsimp only [Expr.infer]
    generalize body.elaborate progress.scope .any = run at renames ⊢
    generalize body.elaborate other.scope .any = run' at renames ⊢
    cases renames with
    | ok term ty => exact alike.eval span term ty
    | error error => exact .error _

/-- **All declarations**, when each mentions known names only: both runs stop at the same error, or
both add the same entries up to the renaming. -/
theorem steps (alike : Alike move known progress other) {decls : List Decl}
    (mentions : ∀ decl ∈ decls, ∀ name ∈ decl.names, known name) :
    (∃ error, (progress.steps decls).2 = some error ∧ (other.steps decls).2 = some error) ∨
      ∃ last last' added, progress.steps decls = (last, none) ∧ other.steps decls = (last', none) ∧
        last.accepted = progress.accepted ++ added ∧
        last'.accepted = other.accepted ++ renameFrom move added := by
  induction decls generalizing move progress other with
  | nil =>
    exact .inr ⟨progress, other, [], rfl, rfl, (List.append_nil _).symm, (List.append_nil _).symm⟩
  | cons decl decls ih =>
    have together := alike.step (mentions decl List.mem_cons_self)
    rw [Progress.steps, Progress.steps]
    generalize progress.step decl = outcome at together ⊢
    generalize other.step decl = outcome' at together ⊢
    cases together with
    | error error => exact .inl ⟨error, rfl, rfl⟩
    | ok added nextAlike accepted accepted' =>
      rcases ih nextAlike fun later among => mentions later (.tail decl among) with
        stopped | ⟨last, last', more, ended, ended', lastAccepted, lastAccepted'⟩
      · exact .inl stopped
      · refine .inr ⟨last, last', added ++ more, ended, ended', ?_, ?_⟩
        · rw [lastAccepted, accepted, List.append_assoc]
        · rw [lastAccepted', accepted', renameFrom_append, List.append_assoc]

end Alike

end Progress

/-! ### Evaluation of entries -/

/-- **Environments with the same values up to a renaming**: what stands at an index of the first
and at the moved index of the second realizes one term. -/
def EnvMoved (move : Nat → Nat) (ctx : Context) (env env' : Env) : Prop :=
  ∃ values : Nat → Term, ∀ index ty, ctx[index]? = some ty → ∃ left right,
    env[index]? = some left ∧ env'[move index]? = some right ∧
    Value.Realize [] ty (values index) left right

/-- The environments after one more entry. -/
theorem EnvMoved.bind {move : Nat → Nat} {ctx : Context} {env env' : Env} {entry : Entry}
    {term : Term} {left right : Value} (moved : EnvMoved move ctx env env')
    (real : Value.Realize [] entry.ty term left right) :
    EnvMoved (entry.under move) (entry.extend ctx) (entry.bind env left) (entry.bind env' right) := by
  unfold Entry.under Entry.extend Entry.bind
  by_cases named : entry.name.isSome
  · rw [if_pos named, if_pos named, if_pos named, if_pos named]
    obtain ⟨values, finds⟩ := moved
    refine ⟨Term.push term values, fun index ty found => ?_⟩
    cases index with
    | zero =>
      cases found
      exact ⟨left, right, rfl, rfl, real⟩
    | succ index => exact finds index ty found
  · rw [if_neg named, if_neg named, if_neg named, if_neg named]
    exact moved

/-- **Typed entries have the same results in both environments.** Each term and its renaming
evaluate to values that realize one term, so both read back to one normal form. -/
theorem TypedFrom.run_renamed {move : Nat → Nat} {ctx : Context} {env env' : Env}
    {entries : List Entry} (typed : TypedFrom ctx entries) (moved : EnvMoved move ctx env env') :
    ∃ results last last', Run env entries results last ∧
      Run env' (renameFrom move entries) results last' := by
  induction entries generalizing move ctx env env' with
  | nil => exact ⟨[], env, env', .nil, .nil⟩
  | cons entry entries ih =>
    obtain ⟨values, finds⟩ := moved
    have held : Term.RenamedIn [] ctx values env env' fun index => .var (move index) :=
      ⟨move, rfl, finds⟩
    obtain ⟨left, right, leftEval, rightEval, real⟩ :=
      Term.Meet.of_replaces Term.RenamedIn.replaces typed.1 held
    rw [← Term.rename_eq_subst] at rightEval
    obtain ⟨normal, leftReads, rightReads, _⟩ := real.reify
    obtain ⟨results, last, last', run, run'⟩ := ih typed.2 (EnvMoved.bind ⟨values, finds⟩ real)
    exact ⟨_, last, last', .cons leftEval leftReads run, .cons rightEval rightReads run'⟩

end Program

end EtaLong
