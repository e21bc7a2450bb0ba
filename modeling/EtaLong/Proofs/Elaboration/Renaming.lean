/-
**Elaboration in another scope.**

An expression is elaborated by looking up the names that are free in it. Two scopes that find the
same types under these names, at indices that a renaming relates, give the same term up to the
renaming, or the same error. The types that are demanded and found never depend on indices, so
every judgement on the way is the same in both scopes.

* `Expr.freeNames`: the names that an expression looks up;
* `Scope.Moved`: a name is found in both scopes, at an index that moves;
* `Expr.elaborate_renames`: elaboration in both scopes.
-/

import EtaLong.Proofs.Elaboration
import EtaLong.Proofs.Substitution

namespace EtaLong

/-! ### Free names -/

mutual

/-- **The names that are free in an expression.** -/
def Expr.freeNames : Expr → List String
  | .var _ name => [name]
  | .lam _ binders body => body.freeNames.filter (· ∉ binders.map Binder.name)
  | .app _ fn args => fn.freeNames ++ Expr.freeNamesAll args
  | .atom _ _ => []
  | .zero _ => []
  | .add1 _ pred => pred.freeNames
  | .number _ _ => []
  | .recNat _ target base step => target.freeNames ++ base.freeNames ++ step.freeNames
  | .pair _ fst snd => fst.freeNames ++ snd.freeNames
  | .car _ operand => operand.freeNames
  | .cdr _ operand => operand.freeNames
  | .nil _ => []
  | .cons _ head tail => head.freeNames ++ tail.freeNames
  | .recList _ target base step => target.freeNames ++ base.freeNames ++ step.freeNames
  | .the _ _ body => body.freeNames
  | .tuple _ first rest => first.freeNames ++ Expr.freeNamesAll rest
  | .listLiteral _ items => Expr.freeNamesAll items

/-- The names that are free in some of several expressions. -/
def Expr.freeNamesAll : List Expr → List String
  | [] => []
  | expr :: exprs => expr.freeNames ++ Expr.freeNamesAll exprs

end

/-! ### Scopes -/

namespace Scope

variable {move : Nat → Nat} {scope scope' : Scope} {name other : String} {ty : Ty}

/-- **A name is found in a second scope** where a renaming moves it, with the same type. -/
def Moved (move : Nat → Nat) (scope scope' : Scope) (name : String) : Prop :=
  scope'.find? name = (scope.find? name).map fun found => (move found.1, found.2)

/-- One more entry in front of another name. -/
theorem find?_cons_of_ne (different : other ≠ name) :
    find? name ((other, ty) :: scope) =
      (scope.find? name).map fun found => (found.1 + 1, found.2) :=
  if_neg different

theorem find?_cons_self : find? name ((name, ty) :: scope) = some (0, ty) := if_pos rfl

/-- Below an entry that both scopes have, names move as they do below a binder. -/
theorem Moved.push (moved : name ≠ other → Moved move scope scope' name) :
    Moved (Term.underMove move) ((other, ty) :: scope) ((other, ty) :: scope') name := by
  unfold Moved at moved ⊢
  by_cases same : other = name
  · rw [same, find?_cons_self, find?_cons_self]
    rfl
  · rw [find?_cons_of_ne same, find?_cons_of_ne same, moved (Ne.symm same), Option.map_map,
      Option.map_map]
    rfl

/-- **A function is entered in both scopes alike**: its parameters stand in front of both. -/
theorem enter?_moved {names : List String} {binders : List Binder} (expected : Ty)
    (moved : ∀ name ∈ names, name ∉ binders.map Binder.name → Moved move scope scope' name) :
    scope.enter? binders expected = none ∧ scope'.enter? binders expected = none ∨
      ∃ inner inner' result below, scope.enter? binders expected = some (inner, result) ∧
        scope'.enter? binders expected = some (inner', result) ∧
        (∀ name ∈ names, Moved below inner inner' name) ∧
        ∀ term : Term, (Term.lams binders.length expected term).rename move =
          Term.lams binders.length expected (term.rename below) := by
  induction binders generalizing move scope scope' expected with
  | nil =>
    refine .inr ⟨scope, scope', expected, move, rfl, rfl, ?_, fun term => ?_⟩
    · intro name among
      exact moved name among List.not_mem_nil
    · rw [List.length_nil, Term.lams, Term.lams]
      all_goals exact fun count _ _ zero => absurd zero.symm (Nat.succ_ne_zero count)
  | cons binder binders ih =>
    cases expected with
    | fn dom cod =>
      have movedInside : ∀ name ∈ names, name ∉ binders.map Binder.name →
          Moved (Term.underMove move) ((binder.name, dom) :: scope)
            ((binder.name, dom) :: scope') name := by
        intro name among unbound
        refine Moved.push fun different => moved name among ?_
        rw [List.map_cons, List.mem_cons, not_or]
        exact ⟨different, unbound⟩
      rcases ih cod movedInside with
        ⟨refused, refused'⟩ | ⟨inner, inner', result, below, entered, entered', finds, lams⟩
      · exact .inl ⟨refused, refused'⟩
      · exact .inr ⟨inner, inner', result, below, entered, entered', finds,
          fun term => congrArg (Term.lam dom) (lams term)⟩
    | _ => exact .inl ⟨rfl, rfl⟩

end Scope

/-- A numeral has no variables. -/
theorem Term.rename_numeral (move : Nat → Nat) (value : Nat) :
    (Term.numeral value).rename move = Term.numeral value := by
  induction value with
  | zero => rfl
  | succ value ih => exact congrArg Term.succ ih

namespace Elaboration

/-! ### Outcomes -/

/-- **Two outcomes of elaboration that differ by a renaming**: one error, or one type and terms of
which the second is the first one renamed. -/
inductive Renames (move : Nat → Nat) :
    Except Error (Term × Ty) → Except Error (Term × Ty) → Prop where
  | ok (term : Term) (ty : Ty) : Renames move (.ok (term, ty)) (.ok (term.rename move, ty))
  | error (error : Error) : Renames move (.error error) (.error error)

namespace Renames

variable {move below : Nat → Nat} {first second : Except Error (Term × Ty)}

/-- Sequences differ by a renaming when their parts do. -/
theorem bind {rest rest' : Term × Ty → Except Error (Term × Ty)} (start : Renames below first second)
    (after : ∀ term ty, Renames move (rest (term, ty)) (rest' (term.rename below, ty))) :
    Renames move (first >>= rest) (second >>= rest') := by
  cases start with
  | ok term ty => exact after term ty
  | error error => exact .error error

/-- What is found settles a demand in both outcomes or in none. -/
theorem settle (demand : Demand) (span : Span) (term : Term) (ty : Ty) :
    Renames move (demand.settle span (term, ty)) (demand.settle span (term.rename move, ty)) := by
  cases demand with
  | any => exact .ok term ty
  | exactly expected rule =>
    rw [Demand.settle, Demand.settle]
    by_cases same : ty = expected
    · rw [if_pos same, if_pos same]
      exact .ok term ty
    · rw [if_neg same, if_neg same]
      exact .error _

end Renames

end Elaboration

/-! ### Every expression -/

open Elaboration

mutual

/-- **Elaboration sees a scope only through the names it looks up.** -/
theorem Expr.elaborate_renames : ∀ {move : Nat → Nat} {scope scope' : Scope} (expr : Expr)
    (demand : Demand), (∀ name ∈ expr.freeNames, Scope.Moved move scope scope' name) →
    Renames move (expr.elaborate scope demand) (expr.elaborate scope' demand)
  | move, scope, scope', .var span name, demand, moved => by
    have found : scope'.find? name = _ := moved name List.mem_cons_self
    rw [Expr.elaborate, Expr.elaborate, found]
    cases scope.find? name with
    | none => exact .error _
    | some entry => exact .settle demand span (.var entry.1) entry.2
  | move, scope, scope', .app span fn args, demand, moved => by
    rw [Expr.freeNames, List.forall_mem_append] at moved
    rw [Expr.elaborate, Expr.elaborate]
    refine (Expr.elaborate_renames fn .any moved.1).bind fun function fnTy => ?_
    dsimp only
    by_cases none : fnTy.arity = 0
    · rw [if_pos none, if_pos none]
      exact .error _
    rw [if_neg none, if_neg none]
    by_cases tooMany : fnTy.arity < args.length
    · rw [if_pos tooMany, if_pos tooMany]
      exact .error _
    rw [if_neg tooMany, if_neg tooMany]
    refine (Expr.elaborateArgs_renames function fnTy args moved.2).bind fun term ty => ?_
    exact .settle demand span term ty
  | move, scope, scope', .the span ty body, demand, moved => by
    rw [Expr.elaborate, Expr.elaborate]
    refine (Expr.elaborate_renames body _ moved).bind fun term _ => ?_
    exact .settle demand span (.ann ty.toTy term) ty.toTy
  | _, _, _, .atom span name, demand, _ => by
    rw [Expr.elaborate, Expr.elaborate]
    exact .settle demand span (.atom name) .atom
  | _, _, _, .zero span, demand, _ => by
    rw [Expr.elaborate, Expr.elaborate]
    exact .settle demand span .zero .nat
  | move, _, _, .number span value, demand, _ => by
    rw [Expr.elaborate, Expr.elaborate]
    have settled : Renames move _ _ := .settle demand span (.numeral value) .nat
    rwa [Term.rename_numeral] at settled
  | move, scope, scope', .add1 span pred, demand, moved => by
    rw [Expr.elaborate, Expr.elaborate]
    refine (Expr.elaborate_renames pred _ moved).bind fun term _ => ?_
    exact .settle demand span (.succ term) .nat
  | move, scope, scope', .car span operand, demand, moved => by
    rw [Expr.elaborate, Expr.elaborate]
    refine (Expr.elaborate_renames operand _ moved).bind fun term ty => ?_
    cases ty with
    | pair fstTy sndTy => exact .settle demand span (.car term) fstTy
    | _ => exact .error _
  | move, scope, scope', .cdr span operand, demand, moved => by
    rw [Expr.elaborate, Expr.elaborate]
    refine (Expr.elaborate_renames operand _ moved).bind fun term ty => ?_
    cases ty with
    | pair fstTy sndTy => exact .settle demand span (.cdr term) sndTy
    | _ => exact .error _
  | _, _, _, .lam span binders body, .any, _ => by
    rw [Expr.elaborate, Expr.elaborate]
    exact .error _
  | move, scope, scope', .lam span binders body, .exactly expected rule, moved => by
    rw [Expr.elaborate, Expr.elaborate]
    by_cases none : expected.arity = 0
    · rw [if_pos none, if_pos none]
      exact .error _
    rw [if_neg none, if_neg none]
    by_cases tooMany : expected.arity < binders.length
    · rw [if_pos tooMany, if_pos tooMany]
      exact .error _
    rw [if_neg tooMany, if_neg tooMany]
    -- What is free in the body is a parameter, or free in the function.
    have movedInside : ∀ name ∈ body.freeNames, name ∉ binders.map Binder.name →
        Scope.Moved move scope scope' name := by
      intro name among unbound
      refine moved name ?_
      rw [Expr.freeNames, List.mem_filter]
      exact ⟨among, decide_eq_true unbound⟩
    rcases Scope.enter?_moved expected movedInside with
      ⟨refused, refused'⟩ | ⟨inner, inner', result, below, entered, entered', finds, lams⟩
    · rw [refused, refused']
      exact .error _
    · rw [entered, entered']
      refine (Expr.elaborate_renames body _ finds).bind fun term _ => ?_
      dsimp only
      rw [← lams term]
      exact .ok _ expected
  | _, _, _, .nil span, .any, _ => by
    rw [Expr.elaborate, Expr.elaborate]
    exact .error _
  | move, _, _, .nil span, .exactly expected rule, _ => by
    cases expected with
    | list elem =>
      rw [Expr.elaborate, Expr.elaborate]
      exact .ok (.nil elem) (.list elem)
    | _ => exact .error _
  | move, scope, scope', .pair span fst snd, .any, moved => by
    rw [Expr.freeNames, List.forall_mem_append] at moved
    rw [Expr.elaborate, Expr.elaborate]
    refine (Expr.elaborate_renames fst _ moved.1).bind fun first fstTy => ?_
    refine (Expr.elaborate_renames snd _ moved.2).bind fun second sndTy => ?_
    exact .ok (.pair first second) (.pair fstTy sndTy)
  | move, scope, scope', .pair span fst snd, .exactly expected rule, moved => by
    rw [Expr.freeNames, List.forall_mem_append] at moved
    cases expected with
    | pair fstTy sndTy =>
      rw [Expr.elaborate, Expr.elaborate]
      refine (Expr.elaborate_renames fst _ moved.1).bind fun first _ => ?_
      refine (Expr.elaborate_renames snd _ moved.2).bind fun second _ => ?_
      exact .ok (.pair first second) (.pair fstTy sndTy)
    | _ => exact .error _
  | move, scope, scope', .cons span head tail, .any, moved => by
    rw [Expr.freeNames, List.forall_mem_append] at moved
    rw [Expr.elaborate, Expr.elaborate]
    refine (Expr.elaborate_renames head _ moved.1).bind fun first elem => ?_
    refine (Expr.elaborate_renames tail _ moved.2).bind fun rest _ => ?_
    exact .ok (.cons first rest) (.list elem)
  | move, scope, scope', .cons span head tail, .exactly expected rule, moved => by
    rw [Expr.freeNames, List.forall_mem_append] at moved
    cases expected with
    | list elem =>
      rw [Expr.elaborate, Expr.elaborate]
      refine (Expr.elaborate_renames head _ moved.1).bind fun first _ => ?_
      refine (Expr.elaborate_renames tail _ moved.2).bind fun rest _ => ?_
      exact .ok (.cons first rest) (.list elem)
    | _ => exact .error _
  | move, scope, scope', .recNat span target base step, demand, moved => by
    rw [Expr.freeNames, List.forall_mem_append, List.forall_mem_append] at moved
    rw [Expr.elaborate, Expr.elaborate]
    refine (Expr.elaborate_renames target _ moved.1.1).bind fun counted _ => ?_
    refine (Expr.elaborate_renames base _ moved.1.2).bind fun start motive => ?_
    refine (Expr.elaborate_renames step _ moved.2).bind fun next _ => ?_
    exact .ok (.recNat motive counted start next) motive
  | move, scope, scope', .recList span target base step, demand, moved => by
    rw [Expr.freeNames, List.forall_mem_append, List.forall_mem_append] at moved
    rw [Expr.elaborate, Expr.elaborate]
    refine (Expr.elaborate_renames target _ moved.1.1).bind fun items ty => ?_
    cases ty with
    | list elem =>
      refine (Expr.elaborate_renames base _ moved.1.2).bind fun start motive => ?_
      refine (Expr.elaborate_renames step _ moved.2).bind fun next _ => ?_
      exact .ok (.recList motive items start next) motive
    | _ => exact .error _
  | _, _, _, .tuple span first rest, demand, _ => by
    rw [Expr.elaborate, Expr.elaborate]
    exact .error _
  | _, _, _, .listLiteral span items, demand, _ => by
    rw [Expr.elaborate, Expr.elaborate]
    exact .error _

/-- Arguments are elaborated one after another in both scopes. -/
theorem Expr.elaborateArgs_renames : ∀ {move : Nat → Nat} {scope scope' : Scope} (function : Term)
    (ty : Ty) (args : List Expr),
    (∀ name ∈ Expr.freeNamesAll args, Scope.Moved move scope scope' name) →
    Renames move (Expr.elaborateArgs scope function ty args)
      (Expr.elaborateArgs scope' (function.rename move) ty args)
  | _, _, _, function, ty, [], _ => by
    rw [Expr.elaborateArgs, Expr.elaborateArgs]
    exact .ok function ty
  | move, scope, scope', function, ty, arg :: args, moved => by
    rw [Expr.freeNamesAll, List.forall_mem_append] at moved
    cases ty with
    | fn dom cod =>
      rw [Expr.elaborateArgs, Expr.elaborateArgs]
      refine (Expr.elaborate_renames arg _ moved.1).bind fun argument _ => ?_
      exact Expr.elaborateArgs_renames (.app function argument) cod args moved.2
    | _ => exact .error _

end

end EtaLong
