/-
**Written expressions are parsed back.**

Each form of types and of expressions is written as one symbolic expression. Where the names are
words that are no keywords, and where functions have parameters and arguments, parsing what was
written gives the expression again, and so does parsing its printed text, at new places.

* `TypeExpr.sexp`, `Expr.sexp`: how types and expressions are written;
* `TypeExpr.Full`, `Expr.Clear`: which of them can be parsed back;
* `TypeExpr.Full.ofSexp`, `Expr.Clear.ofSexp`: what is parsed from what was written;
* `Expr.Clear.exists_parseAll`: what is parsed from the printed text.
-/

import EtaLong.Proofs.Expr.Layout
import EtaLong.Proofs.Expr.Shorthand
import EtaLong.Proofs.Sexp.Printed

namespace EtaLong

/-- A form: its keyword and then its operands. -/
def Sexp.form (span : Span) (keyword : Keyword) (operands : List Sexp) : Sexp :=
  .group .round span (.symbol .nowhere keyword.name :: operands)

/-- Keywords but the comma are written as words. -/
theorem Keyword.isWord {keyword : Keyword} (other : keyword ≠ .comma) :
    Token.IsWord keyword.name := by
  cases keyword <;> first | decide | exact absurd rfl other

/-- A form is legible when its operands are. -/
theorem Sexp.Legible.form {span : Span} {keyword : Keyword} {operands : List Sexp}
    (other : keyword ≠ .comma) (each : ∀ operand ∈ operands, Sexp.Legible operand) :
    (Sexp.form span keyword operands).Legible :=
  .group (List.forall_mem_cons.mpr ⟨.symbol (Keyword.isWord other), each⟩)

/-- A row is parsed back when each of its items is. -/
theorem mapM_map_eq_ok {ε α β : Type} {act : β → Except ε α} {undo : α → β} {items : List α}
    (each : ∀ item ∈ items, act (undo item) = .ok item) : (items.map undo).mapM act = .ok items := by
  induction items with
  | nil => rfl
  | cons item items ih =>
    obtain ⟨first, others⟩ := List.forall_mem_cons.mp each
    exact mapM_cons_eq_ok.mpr ⟨item, items, rfl, first, ih others⟩

theorem splitLast_append {α : Type} (first last : α) (rest : List α) :
    splitLast first (rest ++ [last]) = (first :: rest, last) := by
  induction rest generalizing first with
  | nil => rfl
  | cons second rest ih => rw [List.cons_append, splitLast, ih]

/-! ### Types -/

namespace TypeExpr

mutual

/-- How a type is written. -/
def sexp : TypeExpr → Sexp
  | nat span => .symbol span Keyword.nat.name
  | atom span => .symbol span Keyword.atom.name
  | arrow span args result => .form span .arrow (sexps args ++ [result.sexp])
  | pair span fst snd => .form span .pair [fst.sexp, snd.sexp]
  | list span elem => .form span .list [elem.sexp]

/-- How a row of types is written. -/
def sexps : List TypeExpr → List Sexp
  | [] => []
  | ty :: tys => ty.sexp :: sexps tys

end

theorem sexps_eq_map (tys : List TypeExpr) : sexps tys = tys.map sexp := by
  induction tys with
  | nil => rfl
  | cons ty tys ih => rw [sexps, ih, List.map_cons]

/-- **A type whose arrows all have an argument.** -/
inductive Full : TypeExpr → Prop where
  | nat {span : Span} : Full (nat span)
  | atom {span : Span} : Full (atom span)
  | arrow {span : Span} {args : List TypeExpr} {result : TypeExpr} :
      args ≠ [] → (∀ arg ∈ args, Full arg) → Full result → Full (arrow span args result)
  | pair {span : Span} {fst snd : TypeExpr} : Full fst → Full snd → Full (pair span fst snd)
  | list {span : Span} {elem : TypeExpr} : Full elem → Full (list span elem)

variable {ty : TypeExpr}

/-- **A type is parsed back.** -/
theorem Full.ofSexp (full : ty.Full) : TypeExpr.ofSexp ty.sexp = .ok ty := by
  induction full with
  | nat => rfl
  | atom => rfl
  | @arrow span args result nonempty _ _ argsBack resultBack =>
    cases args with
    | nil => exact absurd rfl nonempty
    | cons first rest =>
      obtain ⟨firstBack, restBack⟩ := List.forall_mem_cons.mp argsBack
      have back : TypeExpr.ofSexps (sexps rest ++ [result.sexp]) = .ok (rest ++ [result]) := by
        rw [ofSexps_eq_mapM, sexps_eq_map, ← List.map_singleton, ← List.map_append]
        refine mapM_map_eq_ok fun arg among => ?_
        rcases List.mem_append.mp among with inRest | last
        · exact restBack arg inRest
        · rw [List.mem_singleton.mp last]
          exact resultBack
      obtain ⟨second, others, cut⟩ : ∃ second others, sexps rest ++ [result.sexp] = second :: others := by
        cases sexps rest with
        | nil => exact ⟨_, _, rfl⟩
        | cons second others => exact ⟨_, _, rfl⟩
      rw [sexp, sexps, Sexp.form, List.cons_append, cut]
      rw [cut] at back
      have keyword : (Sexp.symbol .nowhere Keyword.arrow.name).keyword? = some .arrow := rfl
      unfold TypeExpr.ofSexp
      dsimp only
      rw [keyword]
      dsimp only
      rw [firstBack, back]
      show Except.ok (TypeExpr.arrow span (splitLast first (rest ++ [result])).1
        (splitLast first (rest ++ [result])).2) = _
      rw [splitLast_append]
  | @pair span fst snd _ _ fstBack sndBack =>
    show (do return TypeExpr.pair span (← TypeExpr.ofSexp fst.sexp) (← TypeExpr.ofSexp snd.sexp)) = _
    rw [fstBack, sndBack]
    rfl
  | @list span elem _ elemBack =>
    show (do return TypeExpr.list span (← TypeExpr.ofSexp elem.sexp)) = _
    rw [elemBack]
    rfl

/-- A written type is legible. -/
theorem Full.legible (full : ty.Full) : ty.sexp.Legible := by
  induction full with
  | nat => exact .symbol (by decide)
  | atom => exact .symbol (by decide)
  | arrow _ _ _ argsLegible resultLegible =>
    refine .form (by decide) fun operand among => ?_
    rw [sexps_eq_map] at among
    rcases List.mem_append.mp among with inArgs | last
    · obtain ⟨arg, argAmong, rfl⟩ := List.mem_map.mp inArgs
      exact argsLegible arg argAmong
    · rw [List.mem_singleton.mp last]
      exact resultLegible
  | pair _ _ fstLegible sndLegible =>
    refine .form (by decide) ?_
    exact List.forall_mem_cons.mpr ⟨fstLegible, List.forall_mem_singleton.mpr sndLegible⟩
  | list _ elemLegible => exact .form (by decide) (List.forall_mem_singleton.mpr elemLegible)

end TypeExpr

/-! ### Expressions -/

/-- **A name that a variable can take**: a word that is no keyword. -/
def IsName (name : String) : Prop := Token.IsWord name ∧ Keyword.ofName? name = none

instance (name : String) : Decidable (IsName name) := inferInstanceAs (Decidable (_ ∧ _))

/-- How a parameter is written. -/
def Binder.sexp (binder : Binder) : Sexp := .symbol binder.span binder.name

/-- Parameters with names are parsed back. -/
theorem Binder.ofSexp_sexp {span : Span} {binders : List Binder} (nonempty : binders ≠ [])
    (named : ∀ binder ∈ binders, IsName binder.name) :
    Binder.ofSexp (.group .round span (binders.map Binder.sexp)) = .ok binders := by
  cases binders with
  | nil => exact absurd rfl nonempty
  | cons first rest =>
    rw [List.map_cons, Binder.ofSexp, ← List.map_cons]
    refine mapM_map_eq_ok fun binder among => ?_
    have taken : binder.sexp.toName .parameter = .ok binder.name := by
      rw [Binder.sexp, Sexp.toName, (named binder among).2]
    rw [taken]
    rfl

namespace Expr

mutual

/-- How an expression is written. -/
def sexp : Expr → Sexp
  | var span name => .symbol span name
  | lam span binders body =>
    .form span .lambda [.group .round .nowhere (binders.map Binder.sexp), body.sexp]
  | app span fn args => .group .round span (fn.sexp :: sexps args)
  | atom span name => .quoted span name
  | zero span => .symbol span Keyword.zero.name
  | add1 span pred => .form span .add1 [pred.sexp]
  | number span value => .number span value
  | recNat span target base step => .form span .recNat [target.sexp, base.sexp, step.sexp]
  | pair span fst snd => .form span .cons [fst.sexp, snd.sexp]
  | car span operand => .form span .car [operand.sexp]
  | cdr span operand => .form span .cdr [operand.sexp]
  | nil span => .symbol span Keyword.nil.name
  | cons span head tail => .form span .cell [head.sexp, tail.sexp]
  | recList span target base step => .form span .recList [target.sexp, base.sexp, step.sexp]
  | the span ty body => .form span .the [ty.sexp, body.sexp]
  | tuple span first rest => .form span .comma (first.sexp :: sexps rest)
  | listLiteral span items => .group .square span (sexps items)

/-- How a row of expressions is written. -/
def sexps : List Expr → List Sexp
  | [] => []
  | expr :: exprs => expr.sexp :: sexps exprs

end

theorem sexps_eq_map (exprs : List Expr) : sexps exprs = exprs.map sexp := by
  induction exprs with
  | nil => rfl
  | cons expr exprs ih => rw [sexps, ih, List.map_cons]

/-- **An expression that can be parsed back**: it has no shorthand, its names are names of variables,
functions have parameters and arguments, and no keyword is applied. -/
inductive Clear : Expr → Prop where
  | var {span : Span} {name : String} : IsName name → Clear (var span name)
  | lam {span : Span} {binders : List Binder} {body : Expr} :
      binders ≠ [] → (∀ binder ∈ binders, IsName binder.name) → Clear body →
      Clear (lam span binders body)
  | app {span : Span} {fn : Expr} {args : List Expr} :
      fn.sexp.keyword? = none → args ≠ [] → Clear fn → (∀ arg ∈ args, Clear arg) →
      Clear (app span fn args)
  | atom {span : Span} {name : String} : Token.IsWord name → Clear (atom span name)
  | zero {span : Span} : Clear (zero span)
  | add1 {span : Span} {pred : Expr} : Clear pred → Clear (add1 span pred)
  | number {span : Span} {value : Nat} : Clear (number span value)
  | recNat {span : Span} {target base step : Expr} :
      Clear target → Clear base → Clear step → Clear (recNat span target base step)
  | pair {span : Span} {fst snd : Expr} : Clear fst → Clear snd → Clear (pair span fst snd)
  | car {span : Span} {operand : Expr} : Clear operand → Clear (car span operand)
  | cdr {span : Span} {operand : Expr} : Clear operand → Clear (cdr span operand)
  | nil {span : Span} : Clear (nil span)
  | cons {span : Span} {head tail : Expr} : Clear head → Clear tail → Clear (cons span head tail)
  | recList {span : Span} {target base step : Expr} :
      Clear target → Clear base → Clear step → Clear (recList span target base step)
  | the {span : Span} {ty : TypeExpr} {body : Expr} :
      ty.Full → Clear body → Clear (the span ty body)

variable {expr : Expr}

/-- Forms of one operand that is parsed back. -/
theorem ofSexp_one {operand : Expr} {make : Expr → Expr} {item : Sexp}
    (form : Expr.ofSexp item = do return make (← Expr.ofSexp operand.sexp))
    (back : Expr.ofSexp operand.sexp = .ok operand) : Expr.ofSexp item = .ok (make operand) := by
  rw [form, back]
  rfl

/-- Forms of two operands that are parsed back. -/
theorem ofSexp_two {one other : Expr} {make : Expr → Expr → Expr} {item : Sexp}
    (form : Expr.ofSexp item = do return make (← Expr.ofSexp one.sexp) (← Expr.ofSexp other.sexp))
    (oneBack : Expr.ofSexp one.sexp = .ok one) (otherBack : Expr.ofSexp other.sexp = .ok other) :
    Expr.ofSexp item = .ok (make one other) := by
  rw [form, oneBack, otherBack]
  rfl

/-- Forms of three operands that are parsed back. -/
theorem ofSexp_three {target base step : Expr} {make : Expr → Expr → Expr → Expr} {item : Sexp}
    (form : Expr.ofSexp item = do
      return make (← Expr.ofSexp target.sexp) (← Expr.ofSexp base.sexp) (← Expr.ofSexp step.sexp))
    (targetBack : Expr.ofSexp target.sexp = .ok target) (baseBack : Expr.ofSexp base.sexp = .ok base)
    (stepBack : Expr.ofSexp step.sexp = .ok step) :
    Expr.ofSexp item = .ok (make target base step) := by
  rw [form, targetBack, baseBack, stepBack]
  rfl

/-- **An expression is parsed back.** -/
theorem Clear.ofSexp (clear : expr.Clear) : Expr.ofSexp expr.sexp = .ok expr := by
  induction clear with
  | var named =>
    rw [sexp]
    unfold Expr.ofSexp
    rw [named.2]
  | @lam span binders body nonempty named _ back =>
    show (do
      let binders ← Binder.ofSexp (.group .round .nowhere (binders.map Binder.sexp))
      return Expr.lam span binders (← Expr.ofSexp body.sexp)) = _
    rw [Binder.ofSexp_sexp nonempty named, back]
    rfl
  | @app span fn args other nonempty _ _ fnBack argsBack =>
    have back : Expr.ofSexps (sexps args) = .ok args := by
      rw [ofSexps_eq_mapM, sexps_eq_map]
      exact mapM_map_eq_ok argsBack
    cases args with
    | nil => exact absurd rfl nonempty
    | cons first rest =>
      rw [sexps] at back
      rw [sexp, sexps]
      unfold Expr.ofSexp
      dsimp only
      rw [other]
      dsimp only
      rw [back, fnBack]
      rfl
  | atom _ => rfl
  | zero => rfl
  | add1 _ back => exact ofSexp_one rfl back
  | number => rfl
  | recNat _ _ _ targetBack baseBack stepBack => exact ofSexp_three rfl targetBack baseBack stepBack
  | pair _ _ fstBack sndBack => exact ofSexp_two rfl fstBack sndBack
  | car _ back => exact ofSexp_one rfl back
  | cdr _ back => exact ofSexp_one rfl back
  | nil => rfl
  | cons _ _ headBack tailBack => exact ofSexp_two rfl headBack tailBack
  | recList _ _ _ targetBack baseBack stepBack => exact ofSexp_three rfl targetBack baseBack stepBack
  | @the span ty body full _ back =>
    show (do return Expr.the span (← TypeExpr.ofSexp ty.sexp) (← Expr.ofSexp body.sexp)) = _
    rw [full.ofSexp, back]
    rfl

/-- **A written expression is legible.** -/
theorem Clear.legible (clear : expr.Clear) : expr.sexp.Legible := by
  induction clear with
  | var named => exact .symbol named.1
  | @lam span binders body _ named _ legible =>
    refine .form (by decide) (List.forall_mem_cons.mpr ⟨.group fun item among => ?_, ?_⟩)
    · obtain ⟨binder, binderAmong, rfl⟩ := List.mem_map.mp among
      exact .symbol (named binder binderAmong).1
    · exact List.forall_mem_singleton.mpr legible
  | app _ _ _ _ fnLegible argsLegible =>
    refine .group (List.forall_mem_cons.mpr ⟨fnLegible, fun item among => ?_⟩)
    rw [sexps_eq_map] at among
    obtain ⟨arg, argAmong, rfl⟩ := List.mem_map.mp among
    exact argsLegible arg argAmong
  | atom isWord => exact .quoted isWord
  | zero => exact .symbol (by decide)
  | number => exact .number
  | nil => exact .symbol (by decide)
  | add1 _ legible => exact .form (by decide) (List.forall_mem_singleton.mpr legible)
  | car _ legible => exact .form (by decide) (List.forall_mem_singleton.mpr legible)
  | cdr _ legible => exact .form (by decide) (List.forall_mem_singleton.mpr legible)
  | pair _ _ first second =>
    exact .form (by decide) (List.forall_mem_cons.mpr ⟨first, List.forall_mem_singleton.mpr second⟩)
  | cons _ _ first second =>
    exact .form (by decide) (List.forall_mem_cons.mpr ⟨first, List.forall_mem_singleton.mpr second⟩)
  | the full _ legible =>
    exact .form (by decide)
      (List.forall_mem_cons.mpr ⟨full.legible, List.forall_mem_singleton.mpr legible⟩)
  | recNat _ _ _ target base step =>
    exact .form (by decide) (List.forall_mem_cons.mpr
      ⟨target, List.forall_mem_cons.mpr ⟨base, List.forall_mem_singleton.mpr step⟩⟩)
  | recList _ _ _ target base step =>
    exact .form (by decide) (List.forall_mem_cons.mpr
      ⟨target, List.forall_mem_cons.mpr ⟨base, List.forall_mem_singleton.mpr step⟩⟩)

/-- An expression that can be parsed back has no shorthand. -/
theorem Clear.plain (clear : expr.Clear) : expr.Plain := by
  induction clear with
  | var _ => exact .var
  | lam _ _ _ body => exact .lam body
  | app _ _ _ _ fn args => exact .app fn (plainAll_iff.mpr args)
  | atom _ => exact .atom
  | zero => exact .zero
  | add1 _ pred => exact .add1 pred
  | number => exact .number
  | recNat _ _ _ target base step => exact .recNat target base step
  | pair _ _ fst snd => exact .pair fst snd
  | car _ operand => exact .car operand
  | cdr _ operand => exact .cdr operand
  | nil => exact .nil
  | cons _ _ head tail => exact .cons head tail
  | recList _ _ _ target base step => exact .recList target base step
  | the _ _ body => exact .the body

end Expr

/-! ### Printed texts -/

/-- What is an expression is a declaration that evaluates it. -/
theorem Decl.ofSexp_of_expr {item : Sexp} {expr : Expr} (made : Expr.ofSexp item = .ok expr) :
    Decl.ofSexp item = .ok (.eval item.span expr) := by
  unfold Decl.ofSexp
  cases item with
  | group bracket span items =>
    cases bracket with
    | square =>
      dsimp only
      rw [made]
      rfl
    | round =>
      cases items with
      | nil => cases made
      | cons head operands =>
        dsimp only
        cases form : head.keyword? with
        | none =>
          dsimp only
          rw [made]
          rfl
        | some keyword =>
          unfold Expr.ofSexp at made
          dsimp only at made
          rw [form] at made
          cases keyword with
          | claim => cases made
          | define => cases made
          | _ =>
            dsimp only
            unfold Expr.ofSexp
            dsimp only
            rw [form]
            dsimp only at made ⊢
            rw [made]
            rfl
  | _ =>
    dsimp only
    rw [made]
    rfl

/-- **The printed text of an expression is parsed back**, at new places. -/
theorem Expr.Clear.exists_parseAll {expr : Expr} (clear : expr.Clear) :
    ∃ span read, Decl.parseAll expr.sexp.tree.text = .ok [.eval span read] ∧
      read.unplaced = expr.unplaced := by
  obtain ⟨item, read, same⟩ := Sexp.exists_readAll_of_legible clear.legible
  have parsed : bimap Form.Error.unplaced unplaced (Expr.ofSexp item) = .ok expr.unplaced := by
    rw [← show Expr.ofSexp item.unplaced = _ from ofSexp_unplaced item, same,
      show Expr.ofSexp expr.sexp.unplaced = _ from ofSexp_unplaced expr.sexp, clear.ofSexp]
    rfl
  obtain ⟨found, made, sameFound⟩ := bimap_eq_ok.mp parsed
  refine ⟨item.span, found, ?_, sameFound⟩
  unfold Decl.parseAll
  rw [read]
  show ([item].mapM Decl.ofSexp).mapError _ = _
  rw [mapM_cons_eq_ok.mpr ⟨_, [], rfl, Decl.ofSexp_of_expr made, rfl⟩]
  rfl

end EtaLong
