/-
**Parsing and expanding do not look at places.**

Types, expressions and declarations copy the places of the symbolic expressions that they are
parsed from. What is parsed from a symbolic expression that has lost its places is therefore what
was parsed before, without its places, and what is refused is refused for the same reason. Expanding
shorthand computes new places from old ones, but what is made from lost places is lost as well.

* `TypeExpr.unplaced`, `Expr.unplaced`, `Decl.unplaced`: places forgotten;
* `TypeExpr.ofSexp_unplaced`, `Expr.ofSexp_unplaced`, `Decl.ofSexp_unplaced`: parsing;
* `Expr.expand_unplaced`, `Decl.expand_unplaced`: expanding shorthand.
-/

import EtaLong.Proofs.Expr.Parser
import EtaLong.Proofs.Sexp.Layout

namespace EtaLong

/-! ### Types -/

namespace TypeExpr

mutual

/-- A written type without its places. -/
def unplaced : TypeExpr → TypeExpr
  | nat _ => nat .nowhere
  | atom _ => atom .nowhere
  | arrow _ args result => arrow .nowhere (unplacedAll args) result.unplaced
  | pair _ fst snd => pair .nowhere fst.unplaced snd.unplaced
  | list _ elem => list .nowhere elem.unplaced

/-- Written types without their places. -/
def unplacedAll : List TypeExpr → List TypeExpr
  | [] => []
  | ty :: tys => ty.unplaced :: unplacedAll tys

end

theorem unplacedAll_eq_map (tys : List TypeExpr) : unplacedAll tys = tys.map unplaced := by
  induction tys with
  | nil => rfl
  | cons ty tys ih => rw [unplacedAll, ih, List.map_cons]

mutual

/-- A written type denotes the same wherever it stands. -/
theorem toTy_unplaced : (ty : TypeExpr) → ty.unplaced.toTy = ty.toTy
  | nat _ => rfl
  | atom _ => rfl
  | arrow _ args result => by
    rw [unplaced, toTy, toTy, toTys_unplaced args, toTy_unplaced result]
  | pair _ fst snd => by rw [unplaced, toTy, toTy, toTy_unplaced fst, toTy_unplaced snd]
  | list _ elem => by rw [unplaced, toTy, toTy, toTy_unplaced elem]

theorem toTys_unplaced : (tys : List TypeExpr) → toTys (unplacedAll tys) = toTys tys
  | [] => rfl
  | ty :: tys => by rw [unplacedAll, toTys, toTys, toTy_unplaced ty, toTys_unplaced tys]

end

end TypeExpr

/-- An error of form without its place. -/
def Form.Error.unplaced : Form.Error → Form.Error
  | wrongCount _ form wanted got => wrongCount .nowhere form wanted got
  | notName _ role => notName .nowhere role
  | keywordAsName _ keyword role => keywordAsName .nowhere keyword role
  | arrowTooShort _ => arrowTooShort .nowhere
  | notType _ => notType .nowhere
  | noParameters _ => noParameters .nowhere
  | tupleTooShort _ => tupleTooShort .nowhere
  | emptyApplication _ => emptyApplication .nowhere
  | misplaced _ form => misplaced .nowhere form
  | noArguments _ => noArguments .nowhere

namespace Sexp

theorem keyword?_unplaced (item : Sexp) : item.unplaced.keyword? = item.keyword? := by
  cases item <;> rfl

theorem toName_unplaced (role : Form.Role) (item : Sexp) :
    item.unplaced.toName role = bimap Form.Error.unplaced id (item.toName role) := by
  cases item with
  | symbol span name =>
    rw [unplaced, toName, toName]
    cases Keyword.ofName? name <;> rfl
  | _ => rfl

end Sexp

theorem splitLast_map {α β : Type} (change : α → β) (first : α) (rest : List α) :
    splitLast (change first) (rest.map change) =
      ((splitLast first rest).1.map change, change (splitLast first rest).2) := by
  induction rest generalizing first with
  | nil => rfl
  | cons second rest ih => rw [List.map_cons, splitLast, ih, splitLast, List.map_cons]

/-- **Types are parsed without a look at places.** -/
theorem TypeExpr.ofSexp_unplaced (item : Sexp) :
    TypeExpr.ofSexp item.unplaced =
      bimap Form.Error.unplaced TypeExpr.unplaced (TypeExpr.ofSexp item) := by
  induction item using Sexp.items_induction with
  | step item each =>
    cases item with
    | symbol span name =>
      rw [Sexp.unplaced, TypeExpr.ofSexp, TypeExpr.ofSexp]
      split <;> rfl
    | number span value => rfl
    | quoted span name => rfl
    | group bracket span items =>
      rcases bracket with _ | _
      · rcases items with _ | ⟨head, operands⟩
        · rfl
        have rows (some : List Sexp) (among : ∀ part ∈ some, part ∈ operands) :
            TypeExpr.ofSexps (some.map Sexp.unplaced) =
              bimap Form.Error.unplaced (List.map TypeExpr.unplaced) (TypeExpr.ofSexps some) := by
          rw [TypeExpr.ofSexps_eq_mapM, TypeExpr.ofSexps_eq_mapM]
          exact mapM_bimap fun part found => each part (.tail head (among part found))
        rw [Sexp.unplaced, Sexp.unplacedAll, Sexp.unplacedAll_eq_map]
        unfold TypeExpr.ofSexp
        dsimp only
        rw [Sexp.keyword?_unplaced]
        cases head.keyword? with
        | none => rfl
        | some keyword =>
          cases keyword with
          | arrow =>
            rcases operands with _ | ⟨first, _ | ⟨second, rest⟩⟩
            · rfl
            · rfl
            have later := rows (second :: rest) fun _ found => .tail first found
            simp only [List.map_cons] at later ⊢
            rw [each first (.tail head (.head _)), later]
            refine bimap_bind fun firstTy => bimap_bind fun restTys => ?_
            rw [splitLast_map]
            exact congrArg (fun args => Except.ok (TypeExpr.arrow .nowhere args _))
              (unplacedAll_eq_map _).symm
          | pair =>
            rcases operands with _ | ⟨first, _ | ⟨second, _ | ⟨third, rest⟩⟩⟩
            · rfl
            · rfl
            · simp only [List.map_cons, List.map_nil]
              rw [each first (.tail head (.head _)), each second (.tail head (.tail _ (.head _)))]
              exact bimap_bind fun fst => bimap_bind fun snd => rfl
            · simp [bimap, Form.Error.unplaced]
          | list =>
            rcases operands with _ | ⟨first, _ | ⟨second, rest⟩⟩
            · rfl
            · simp only [List.map_cons, List.map_nil]
              rw [each first (.tail head (.head _))]
              exact bimap_bind fun elem => rfl
            · simp [bimap, Form.Error.unplaced]
          | _ => rfl
      · rfl

/-! ### Expressions -/

/-- A parameter without its place. -/
def Binder.unplaced (binder : Binder) : Binder := { binder with span := .nowhere }

/-- **Parameters are parsed without a look at places.** -/
theorem Binder.ofSexp_unplaced (item : Sexp) :
    Binder.ofSexp item.unplaced =
      bimap Form.Error.unplaced (List.map Binder.unplaced) (Binder.ofSexp item) := by
  cases item with
  | symbol span name => rfl
  | number span value => rfl
  | quoted span name => rfl
  | group bracket span items =>
    rcases bracket with _ | _
    · rcases items with _ | ⟨first, rest⟩
      · rfl
      rw [Sexp.unplaced, Sexp.unplacedAll_eq_map, List.map_cons, Binder.ofSexp, Binder.ofSexp,
        ← List.map_cons]
      refine mapM_bimap fun part _ => ?_
      rw [Sexp.toName_unplaced]
      refine bimap_bind fun name => ?_
      rw [Sexp.span_unplaced]
      rfl
    · rfl

namespace Expr

mutual

/-- **A written expression without its places.** -/
def unplaced : Expr → Expr
  | var _ name => var .nowhere name
  | lam _ binders body => lam .nowhere (binders.map Binder.unplaced) body.unplaced
  | app _ fn args => app .nowhere fn.unplaced (unplacedAll args)
  | atom _ name => atom .nowhere name
  | zero _ => zero .nowhere
  | add1 _ pred => add1 .nowhere pred.unplaced
  | number _ value => number .nowhere value
  | recNat _ target base step => recNat .nowhere target.unplaced base.unplaced step.unplaced
  | pair _ fst snd => pair .nowhere fst.unplaced snd.unplaced
  | car _ operand => car .nowhere operand.unplaced
  | cdr _ operand => cdr .nowhere operand.unplaced
  | nil _ => nil .nowhere
  | cons _ head tail => cons .nowhere head.unplaced tail.unplaced
  | recList _ target base step => recList .nowhere target.unplaced base.unplaced step.unplaced
  | the _ ty body => the .nowhere ty.unplaced body.unplaced
  | tuple _ first rest => tuple .nowhere first.unplaced (unplacedAll rest)
  | listLiteral _ items => listLiteral .nowhere (unplacedAll items)

/-- Written expressions without their places. -/
def unplacedAll : List Expr → List Expr
  | [] => []
  | expr :: exprs => expr.unplaced :: unplacedAll exprs

end

theorem unplacedAll_eq_map (exprs : List Expr) : unplacedAll exprs = exprs.map unplaced := by
  induction exprs with
  | nil => rfl
  | cons expr exprs ih => rw [unplacedAll, ih, List.map_cons]

@[simp] theorem span_unplaced (expr : Expr) : expr.unplaced.span = .nowhere := by
  cases expr <;> rfl

section Forms

variable {operands : List Sexp} {form : Keyword} {span : Span}

/-- A symbolic expression that is parsed without a look at its places. -/
def Blind (part : Sexp) : Prop :=
  Expr.ofSexp part.unplaced = bimap Form.Error.unplaced unplaced (Expr.ofSexp part)

/-- A row that is parsed without a look at its places. -/
theorem ofSexps_unplaced {some : List Sexp} (blind : ∀ part ∈ some, Blind part) :
    Expr.ofSexps (some.map Sexp.unplaced) =
      bimap Form.Error.unplaced (List.map unplaced) (Expr.ofSexps some) := by
  rw [ofSexps_eq_mapM, ofSexps_eq_mapM]
  exact mapM_bimap blind

/-- A wrong number of operands is the same number without their places. -/
theorem wrongCount_unplaced (operands : List Sexp) (wanted : Nat) :
    (.error (.wrongCount .nowhere form wanted (operands.map Sexp.unplaced).length) :
        Except Form.Error Expr) =
      bimap Form.Error.unplaced unplaced
        (.error (.wrongCount span form wanted operands.length)) := by
  rw [List.length_map]
  rfl

/-- Forms of one operand. -/
theorem one_unplaced (make : Span → Expr → Expr)
    (made : ∀ expr, make .nowhere expr.unplaced = (make span expr).unplaced) :
    (∀ part ∈ operands, Blind part) →
    (match operands.map Sexp.unplaced with
      | [only] => do return make .nowhere (← Expr.ofSexp only)
      | _ => .error (.wrongCount .nowhere form 1 (operands.map Sexp.unplaced).length)) =
      bimap Form.Error.unplaced unplaced (match operands with
        | [only] => do return make span (← Expr.ofSexp only)
        | _ => .error (.wrongCount span form 1 operands.length)) := by
  intro blind
  match operands, blind with
  | [], _ => rfl
  | [only], blind =>
    simp only [List.map_cons, List.map_nil]
    rw [blind only (.head _)]
    exact bimap_bind fun expr => congrArg Except.ok (made expr)
  | first :: second :: rest, _ => exact wrongCount_unplaced (first :: second :: rest) 1

/-- Forms of two operands. -/
theorem two_unplaced (make : Span → Expr → Expr → Expr)
    (made : ∀ one other, make .nowhere one.unplaced other.unplaced = (make span one other).unplaced) :
    (∀ part ∈ operands, Blind part) →
    (match operands.map Sexp.unplaced with
      | [one, other] => do return make .nowhere (← Expr.ofSexp one) (← Expr.ofSexp other)
      | _ => .error (.wrongCount .nowhere form 2 (operands.map Sexp.unplaced).length)) =
      bimap Form.Error.unplaced unplaced (match operands with
        | [one, other] => do return make span (← Expr.ofSexp one) (← Expr.ofSexp other)
        | _ => .error (.wrongCount span form 2 operands.length)) := by
  intro blind
  match operands, blind with
  | [], _ => rfl
  | [_], _ => rfl
  | [first, second], blind =>
    simp only [List.map_cons, List.map_nil]
    rw [blind first (.head _), blind second (.tail _ (.head _))]
    exact bimap_bind fun one => bimap_bind fun other => congrArg Except.ok (made one other)
  | first :: second :: third :: rest, _ =>
    exact wrongCount_unplaced (first :: second :: third :: rest) 2

/-- Forms of three operands. -/
theorem three_unplaced (make : Span → Expr → Expr → Expr → Expr)
    (made : ∀ target base step, make .nowhere target.unplaced base.unplaced step.unplaced =
      (make span target base step).unplaced) :
    (∀ part ∈ operands, Blind part) →
    (match operands.map Sexp.unplaced with
      | [target, base, step] => do
        return make .nowhere (← Expr.ofSexp target) (← Expr.ofSexp base) (← Expr.ofSexp step)
      | _ => .error (.wrongCount .nowhere form 3 (operands.map Sexp.unplaced).length)) =
      bimap Form.Error.unplaced unplaced (match operands with
        | [target, base, step] => do
          return make span (← Expr.ofSexp target) (← Expr.ofSexp base) (← Expr.ofSexp step)
        | _ => .error (.wrongCount span form 3 operands.length)) := by
  intro blind
  match operands, blind with
  | [], _ => rfl
  | [_], _ => rfl
  | [_, _], _ => rfl
  | [first, second, third], blind =>
    simp only [List.map_cons, List.map_nil]
    rw [blind first (.head _), blind second (.tail _ (.head _)),
      blind third (.tail _ (.tail _ (.head _)))]
    exact bimap_bind fun target => bimap_bind fun base => bimap_bind fun step =>
      congrArg Except.ok (made target base step)
  | first :: second :: third :: fourth :: rest, _ =>
    exact wrongCount_unplaced (first :: second :: third :: fourth :: rest) 3

end Forms

/-- **Expressions are parsed without a look at places.** -/
theorem ofSexp_unplaced (item : Sexp) : Blind item := by
  induction item using Sexp.items_induction with
  | step item each =>
    unfold Blind
    cases item with
    | symbol span name =>
      rw [Sexp.unplaced]
      unfold Expr.ofSexp
      split <;> rfl
    | number span value => rfl
    | quoted span name => rfl
    | group bracket span items =>
      rcases bracket with _ | _
      · rcases items with _ | ⟨head, operands⟩
        · rfl
        have blind : ∀ part ∈ operands, Blind part := fun part among => each part (.tail head among)
        rw [Sexp.unplaced, Sexp.unplacedAll, Sexp.unplacedAll_eq_map]
        unfold Expr.ofSexp
        dsimp only
        rw [Sexp.keyword?_unplaced]
        cases head.keyword? with
        | none =>
          rcases operands with _ | ⟨first, rest⟩
          · rfl
          have args := ofSexps_unplaced blind
          simp only [List.map_cons] at args ⊢
          rw [args, each head (.head _)]
          refine bimap_bind fun args => bimap_bind fun fn => ?_
          exact congrArg (fun args => Except.ok (app .nowhere fn.unplaced args))
            (unplacedAll_eq_map args).symm
        | some keyword =>
          cases keyword with
          | lambda =>
            rcases operands with _ | ⟨params, _ | ⟨body, _ | ⟨third, rest⟩⟩⟩
            · rfl
            · rfl
            · simp only [List.map_cons, List.map_nil]
              rw [Binder.ofSexp_unplaced, blind body (.tail _ (.head _))]
              exact bimap_bind fun binders => bimap_bind fun body => rfl
            · exact wrongCount_unplaced (params :: body :: third :: rest) 2
          | the =>
            rcases operands with _ | ⟨ty, _ | ⟨body, _ | ⟨third, rest⟩⟩⟩
            · rfl
            · rfl
            · simp only [List.map_cons, List.map_nil]
              rw [TypeExpr.ofSexp_unplaced, blind body (.tail _ (.head _))]
              exact bimap_bind fun ty => bimap_bind fun body => rfl
            · exact wrongCount_unplaced (ty :: body :: third :: rest) 2
          | add1 => exact one_unplaced add1 (fun _ => rfl) blind
          | car => exact one_unplaced car (fun _ => rfl) blind
          | cdr => exact one_unplaced cdr (fun _ => rfl) blind
          | cons => exact two_unplaced pair (fun _ _ => rfl) blind
          | cell => exact two_unplaced cons (fun _ _ => rfl) blind
          | recNat => exact three_unplaced recNat (fun _ _ _ => rfl) blind
          | recList => exact three_unplaced recList (fun _ _ _ => rfl) blind
          | comma =>
            rcases operands with _ | ⟨first, _ | ⟨second, rest⟩⟩
            · rfl
            · rfl
            have others := ofSexps_unplaced fun part among => blind part (.tail first among)
            simp only [List.map_cons] at others ⊢
            rw [blind first (.head _), others]
            refine bimap_bind fun first => bimap_bind fun rest => ?_
            exact congrArg (fun rest => Except.ok (tuple .nowhere first.unplaced rest))
              (unplacedAll_eq_map rest).symm
          | _ => rfl
      · have items := ofSexps_unplaced each
        rw [Sexp.unplaced, Sexp.unplacedAll_eq_map]
        unfold Expr.ofSexp
        dsimp only [Sexp.items] at items ⊢
        rw [items]
        refine bimap_bind fun exprs => ?_
        exact congrArg (Except.ok ∘ listLiteral .nowhere) (unplacedAll_eq_map exprs).symm

/-! ### Shorthand -/

theorem nestPairs_unplaced (stop : Int) (first : Expr) (rest : List Expr) :
    (nestPairs stop first rest).unplaced = nestPairs 1 first.unplaced (unplacedAll rest) := by
  induction rest generalizing first with
  | nil => rfl
  | cons second rest ih =>
    rw [nestPairs, unplaced, ih, unplacedAll, nestPairs, span_unplaced]
    rfl

mutual

/-- **Shorthand is expanded without a look at places.** -/
theorem expand_unplaced : (expr : Expr) → expr.unplaced.expand = expr.expand.unplaced
  | var _ _ => rfl
  | lam _ _ body => by simp only [unplaced, expand, expand_unplaced body]
  | app _ fn args => by simp only [unplaced, expand, expand_unplaced fn, expandAll_unplaced args]
  | atom _ _ => rfl
  | zero _ => rfl
  | add1 _ pred => by simp only [unplaced, expand, expand_unplaced pred]
  | number _ _ => rfl
  | recNat _ target base step => by
    simp only [unplaced, expand, expand_unplaced target, expand_unplaced base, expand_unplaced step]
  | pair _ fst snd => by simp only [unplaced, expand, expand_unplaced fst, expand_unplaced snd]
  | car _ operand => by simp only [unplaced, expand, expand_unplaced operand]
  | cdr _ operand => by simp only [unplaced, expand, expand_unplaced operand]
  | nil _ => rfl
  | cons _ head tail => by simp only [unplaced, expand, expand_unplaced head, expand_unplaced tail]
  | recList _ target base step => by
    simp only [unplaced, expand, expand_unplaced target, expand_unplaced base, expand_unplaced step]
  | the _ _ body => by simp only [unplaced, expand, expand_unplaced body]
  | tuple span first rest => by
    rw [unplaced, expand, expand, nestPairs_unplaced, expand_unplaced first, expandAll_unplaced rest]
    rfl
  | listLiteral span items => by
    rw [unplaced, expand, expand]
    exact expandCells_unplaced span.stop items

theorem expandAll_unplaced :
    (exprs : List Expr) → expandAll (unplacedAll exprs) = unplacedAll (expandAll exprs)
  | [] => rfl
  | expr :: exprs => by
    rw [unplacedAll, expandAll, expandAll, unplacedAll, expand_unplaced expr,
      expandAll_unplaced exprs]

/-- The new cells stand nowhere, and so does the empty list at the closing bracket. -/
theorem expandCells_unplaced (stop : Int) :
    (items : List Expr) → expandCells 1 (unplacedAll items) = (expandCells stop items).unplaced
  | [] => rfl
  | item :: items => by
    rw [unplacedAll, expandCells, expandCells, unplaced, expand_unplaced item,
      expandCells_unplaced stop items, span_unplaced]
    rfl

end

end Expr

/-! ### Declarations -/

namespace Decl

/-- A declaration without its places. -/
def unplaced : Decl → Decl
  | claim _ name ty => claim .nowhere name ty.unplaced
  | define _ name body => define .nowhere name body.unplaced
  | eval _ body => eval .nowhere body.unplaced

/-- **Declarations are parsed without a look at places.** -/
theorem ofSexp_unplaced (item : Sexp) :
    Decl.ofSexp item.unplaced = bimap Form.Error.unplaced unplaced (Decl.ofSexp item) := by
  have bare (item : Sexp) : (do return .eval .nowhere (← Expr.ofSexp item.unplaced)) =
      bimap Form.Error.unplaced unplaced (do return .eval item.span (← Expr.ofSexp item)) := by
    rw [Expr.ofSexp_unplaced item]
    exact bimap_bind fun body => rfl
  cases item with
  | symbol span name => exact bare _
  | number span value => exact bare _
  | quoted span name => exact bare _
  | group bracket span items =>
    rcases bracket with _ | _
    · rcases items with _ | ⟨head, operands⟩
      · exact bare (.group .round span [])
      have whole := bare (.group .round span (head :: operands))
      rw [Sexp.unplaced, Sexp.unplacedAll, Sexp.unplacedAll_eq_map] at whole ⊢
      unfold Decl.ofSexp
      dsimp only
      rw [Sexp.keyword?_unplaced]
      cases head.keyword? with
      | none => exact whole
      | some keyword =>
        cases keyword with
        | claim =>
          rcases operands with _ | ⟨name, _ | ⟨ty, _ | ⟨third, rest⟩⟩⟩
          · rfl
          · rfl
          · simp only [List.map_cons, List.map_nil]
            rw [Sexp.toName_unplaced, TypeExpr.ofSexp_unplaced]
            exact bimap_bind fun name => bimap_bind fun ty => rfl
          · simp [bimap, Form.Error.unplaced]
        | define =>
          rcases operands with _ | ⟨name, _ | ⟨body, _ | ⟨third, rest⟩⟩⟩
          · rfl
          · rfl
          · simp only [List.map_cons, List.map_nil]
            rw [Sexp.toName_unplaced, Expr.ofSexp_unplaced body]
            exact bimap_bind fun name => bimap_bind fun body => rfl
          · simp [bimap, Form.Error.unplaced]
        | _ => exact whole
    · exact bare (.group .square span items)

/-- Shorthand in declarations is expanded without a look at places. -/
theorem expand_unplaced (decl : Decl) : decl.unplaced.expand = decl.expand.unplaced := by
  cases decl with
  | claim span name ty => rfl
  | define span name body => exact congrArg (define .nowhere name) body.expand_unplaced
  | eval span body => exact congrArg (eval .nowhere) body.expand_unplaced

end Decl

end EtaLong
