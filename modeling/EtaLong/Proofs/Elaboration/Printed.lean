/-
**Elaborating what was printed.**

A term is printed without the domains of its functions, the element types of its empty lists and the
result types of its recursions. Elaboration recovers all of them from the types that it asks for.
Only a function and the empty list have no type of their own; where none is asked for, the first of
them that elaboration meets is reported. Nothing else can go wrong, and no name is captured.

* `Term.bareForms`: the functions and empty lists that no type is asked of, in the order in which
  elaboration meets them;
* `Expr.elaborate_binding`, `Expr.elaborate_applying`: one parameter, one argument at a time;
* `Term.HasType.recovered`: what elaboration makes of what was printed;
* `Term.HasType.exists_parseAll`: what it makes of the text;
* `printing_faithful`: the printed text, parsed and elaborated.
-/

import EtaLong.Proofs.Elaboration.Currying
import EtaLong.Proofs.Elaboration.Layout
import EtaLong.Proofs.Term.Printed

namespace EtaLong

/-! ### Forms without a type of their own -/

namespace Elaboration

/-- Whether the type of an expression is to be found or is given. -/
inductive Mode where
  | inferring
  | checking
deriving DecidableEq

/-- The mode of a demand. -/
def Demand.mode : Demand → Mode
  | .any => .inferring
  | .exactly _ _ => .checking

@[simp] theorem Demand.mode_within (rule : String) (demand : Demand) :
    (demand.within rule).mode = demand.mode := by
  cases demand <;> rfl

/-- **The forms that have no type of their own.** -/
inductive Bare where
  | lambda
  | nil
deriving DecidableEq

namespace Bare

/-- The keyword of a form. -/
def keyword : Bare → Keyword
  | lambda => .lambda
  | nil => .nil

/-- What is reported where the type of a form is to be found. -/
def error (span : Span) : Bare → Error
  | lambda => .lambdaWithoutType span
  | nil => .nilWithoutType span

/-- **What comes of a result** when these forms were met on the way: the first is reported. -/
def verdict {α : Type} (met : List Bare) (result : α) : Except Error α :=
  match met with
  | [] => .ok result
  | form :: _ => .error (form.error .nowhere)

section Verdict

variable {α β : Type} {first second : List Bare} {value : α} {result : β}
  {rest : α → Except Error β}

/-- The forms that a sequence meets. -/
theorem verdict_bind (after : rest value = verdict second result) :
    verdict first value >>= rest = verdict (first ++ second) result := by
  cases first with
  | nil => exact after
  | cons form first => rfl

/-- A sequence that meets nothing more. -/
theorem verdict_bind_ok (after : rest value = .ok result) :
    verdict first value >>= rest = verdict first result := by
  cases first with
  | nil => exact after
  | cons form first => rfl

theorem of_verdict_eq_ok {found result : α} (same : verdict first result = .ok found) :
    found = result := by
  cases first with
  | nil =>
    cases same
    rfl
  | cons form first => cases same

end Verdict

end Bare

theorem Demand.settle_of_allows {demand : Demand} {term : Term} {ty : Ty} (span : Span)
    (allowed : demand.Allows ty) : demand.settle span (term, ty) = .ok (term, ty) := by
  cases demand with
  | any => rfl
  | exactly expected rule => exact if_pos allowed

end Elaboration

open Elaboration

/-- **The functions and empty lists of a term that no type is asked of**, in the order of
elaboration. -/
def Term.bareForms : Term → Mode → List Bare
  | lam _ body, mode =>
    match mode with
    | .inferring => [.lambda]
    | .checking => body.bareForms .checking
  | nil _, mode =>
    match mode with
    | .inferring => [.nil]
    | .checking => []
  | var _, _ => []
  | atom _, _ => []
  | zero, _ => []
  | succ pred, _ => pred.bareForms .checking
  | app fn arg, _ => fn.bareForms .inferring ++ arg.bareForms .checking
  | pair fst snd, mode => fst.bareForms mode ++ snd.bareForms mode
  | car operand, _ => operand.bareForms .inferring
  | cdr operand, _ => operand.bareForms .inferring
  | cons head tail, mode => head.bareForms mode ++ tail.bareForms .checking
  | recNat _ target base step, mode =>
    target.bareForms .checking ++ (base.bareForms mode ++ step.bareForms .checking)
  | recList _ target base step, mode =>
    target.bareForms .inferring ++ (base.bareForms mode ++ step.bareForms .checking)
  | ann _ body, _ => body.bareForms .checking

/-! ### One parameter at a time -/

namespace Expr

/-- A function of one parameter is elaborated as its body, in the scope of the parameter. -/
theorem elaborate_lam_singleton (scope : Scope) (span : Span) (binder : Binder) (body : Expr)
    (dom cod : Ty) (rule : String) :
    (lam span [binder] body).elaborate scope (.exactly (.fn dom cod) rule) =
      body.elaborate ((binder.name, dom) :: scope) (.exactly cod "lambda") >>= fun found =>
        .ok (.lam dom found.1, .fn dom cod) := by
  have some : (Ty.fn dom cod).arity ≠ 0 := Nat.succ_ne_zero _
  have enough : ¬ (Ty.fn dom cod).arity < [binder].length :=
    Nat.not_lt.mpr (Nat.succ_le_succ (Nat.zero_le _))
  have entered : scope.enter? [binder] (.fn dom cod) = Option.some ((binder.name, dom) :: scope, cod) :=
    rfl
  rw [elaborate, if_neg some, if_neg enough, entered]
  dsimp only
  cases body.elaborate ((binder.name, dom) :: scope) (.exactly cod "lambda") with
  | error error => rfl
  | ok found =>
    have inner : Term.lams 0 cod found.1 = found.1 := by
      cases cod <;> rfl
    exact congrArg (fun term => Except.ok (Term.lam dom term, Ty.fn dom cod)) inner

/-- **The first parameter of several** may as well have a function of its own. -/
theorem elaborate_lam_cons (scope : Scope) (span inside : Span) (binder : Binder)
    {binders : List Binder} (body : Expr) (dom : Ty) {cod : Ty} (rule innerRule : String)
    (nonempty : binders ≠ []) (enough : binders.length ≤ cod.arity) :
    (lam span (binder :: binders) body).elaborate scope (.exactly (.fn dom cod) rule) =
      (lam inside binders body).elaborate ((binder.name, dom) :: scope)
          (.exactly cod innerRule) >>= fun found =>
        .ok (.lam dom found.1, .fn dom cod) := by
  have count := List.length_pos_iff.mpr nonempty
  have outerSome : (Ty.fn dom cod).arity ≠ 0 := Nat.succ_ne_zero _
  have outerEnough : ¬ (Ty.fn dom cod).arity < (binder :: binders).length :=
    Nat.not_lt.mpr (Nat.succ_le_succ enough)
  have innerSome : cod.arity ≠ 0 := by omega
  obtain ⟨inner, result, entered, _⟩ :=
    Scope.enter?_eq_some ((binder.name, dom) :: scope) enough
  have outerEntered : scope.enter? (binder :: binders) (.fn dom cod) = some (inner, result) := entered
  rw [elaborate, elaborate, if_neg outerSome, if_neg outerEnough, if_neg innerSome,
    if_neg (Nat.not_lt.mpr enough), outerEntered, entered]
  dsimp only
  cases body.elaborate inner (.exactly result "lambda") <;> rfl

/-- **One more parameter.** -/
theorem elaborate_binding (scope : Scope) (binder : Binder) {body : Expr} (dom : Ty) {cod : Ty}
    (rule : String) (fits : ∀ span binders inner, body = lam span binders inner →
      binders ≠ [] ∧ binders.length ≤ cod.arity) :
    (binding binder body).elaborate scope (.exactly (.fn dom cod) rule) =
      body.elaborate ((binder.name, dom) :: scope) (.exactly cod "lambda") >>= fun found =>
        .ok (.lam dom found.1, .fn dom cod) := by
  by_cases merges : ∃ span binders inner, body = lam span binders inner
  · obtain ⟨span, binders, inner, rfl⟩ := merges
    obtain ⟨nonempty, enough⟩ := fits span binders inner rfl
    exact elaborate_lam_cons scope _ _ binder inner dom rule _ nonempty enough
  · rw [binding_of_other binder fun span binders inner same => merges ⟨span, binders, inner, same⟩]
    exact elaborate_lam_singleton scope _ binder body dom cod rule

/-! ### One argument at a time -/

/-- The function that an expression applies, and the arguments; an expression that is no
application applies itself to none. -/
def spine : Expr → Expr × List Expr
  | app _ fn args => (fn, args)
  | other => (other, [])

theorem applying_eq_spine (arg fn : Expr) :
    applying arg fn = app .nowhere fn.spine.1 (fn.spine.2 ++ [arg]) := by
  cases fn <;> rfl

/-- **One more argument**, where the function takes more than it is applied to. -/
theorem elaborate_applying (scope : Scope) (arg : Expr) {fn : Expr} (demand : Demand)
    (room : ∀ found, fn.spine.1.elaborate scope .any = .ok found →
      fn.spine.2.length < found.2.arity) :
    (applying arg fn).elaborate scope demand =
      fn.elaborate scope .any >>= fun found =>
        elaborateArgs scope found.1 found.2 [arg] >>= demand.settle .nowhere := by
  by_cases applies : ∃ span head args, fn = app span head args
  · obtain ⟨span, head, args, rfl⟩ := applies
    rw [applying, elaborate, elaborate]
    dsimp only [spine] at room
    cases elaborated : head.elaborate scope .any with
    | error error => rfl
    | ok found =>
      obtain ⟨function, fnTy⟩ := found
      have more : args.length < fnTy.arity := room _ elaborated
      have some : fnTy.arity ≠ 0 := by omega
      have enough : ¬ fnTy.arity < args.length := by omega
      have enoughMore : ¬ fnTy.arity < (args ++ [arg]).length := by
        rw [List.length_append, List.length_singleton]
        omega
      dsimp only [bind, Except.bind]
      rw [if_neg some, if_neg some, if_neg enough, if_neg enoughMore, elaborateArgs_append]
      cases elaborateArgs scope function fnTy args <;> rfl
  · have other : ∀ span head args, fn ≠ app span head args :=
      fun span head args same => applies ⟨span, head, args, same⟩
    have whole : fn.spine = (fn, []) := by
      cases fn with
      | app span head args => exact absurd rfl (other span head args)
      | _ => rfl
    rw [whole] at room
    rw [applying_of_other arg other, elaborate]
    cases elaborated : fn.elaborate scope .any with
    | error error => rfl
    | ok found =>
      obtain ⟨function, fnTy⟩ := found
      have more : 0 < fnTy.arity := room _ elaborated
      have some : fnTy.arity ≠ 0 := Nat.pos_iff_ne_zero.mp more
      have enough : ¬ fnTy.arity < [arg].length := Nat.not_lt.mpr more
      dsimp only [bind, Except.bind]
      rw [if_neg some, if_neg enough]

end Expr

/-! ### Whole terms -/

/-- A name that no other entry has is found where it stands. -/
theorem Scope.find?_nameOf {scope : Scope} {index : Nat} {ty : Ty} (distinct : scope.names.Nodup)
    (found : scope.types[index]? = some ty) :
    scope.find? (Term.nameOf scope.names index) = some (index, ty) := by
  induction scope generalizing index with
  | nil => cases found
  | cons entry later ih =>
    obtain ⟨name, nameTy⟩ := entry
    obtain ⟨new, others⟩ := List.nodup_cons.mp distinct
    rw [Scope.find?]
    cases index with
    | zero =>
      cases found
      exact if_pos rfl
    | succ index =>
      have bound : index < (Scope.names later).length := by
        have inTypes := (List.getElem?_eq_some_iff.mp found).1
        simp only [Scope.types, Scope.names, List.length_map, List.map_cons, List.length_cons]
          at inTypes ⊢
        omega
      have other : name ≠ Term.nameOf (Scope.names later) index := by
        rintro rfl
        exact new (Term.nameOf_mem bound)
      have inner : Term.nameOf (Scope.names ((name, nameTy) :: later)) (index + 1) =
          Term.nameOf (Scope.names later) index := by
        rw [Term.nameOf, List.getElem?_eq_getElem (Nat.succ_lt_succ bound), Term.nameOf,
          List.getElem?_eq_getElem bound]
        rfl
      rw [inner, if_neg other, ih others found]
      rfl

namespace Term

variable {ctx : Context} {term : Term} {ty : Ty} {names : List String}

/-- A numeral is what its value says. -/
theorem eq_numeral_of_numeralValue? {value : Nat} (numeral : term.numeralValue? = some value) :
    term = Term.numeral value := by
  induction term generalizing value with
  | zero =>
    cases numeral
    rfl
  | succ pred ih =>
    obtain ⟨before, found, rfl⟩ := Option.map_eq_some_iff.mp numeral
    rw [ih found]
    rfl
  | _ => cases numeral

theorem bareForms_numeral (mode : Mode) (value : Nat) : (numeral value).bareForms mode = [] := by
  induction value generalizing mode with
  | zero => rfl
  | succ value ih => exact ih .checking

/-- A function has no more parameters in a row than its type has arguments. -/
theorem HasType.binders_le_arity (typed : term.HasType ctx ty) {span : Span} {binders : List Binder}
    {inner : Expr} (shape : term.written names = .lam span binders inner) :
    binders ≠ [] ∧ binders.length ≤ ty.arity := by
  induction typed generalizing names span binders inner with
  | @lam ctx dom cod body _ ih =>
    rw [written] at shape
    by_cases merges : ∃ span binders inner,
        body.written (freshName names :: names) = .lam span binders inner
    · obtain ⟨innerSpan, others, last, innerShape⟩ := merges
      obtain ⟨_, enough⟩ := ih innerShape
      rw [innerShape] at shape
      cases shape
      exact ⟨List.cons_ne_nil _ _, Nat.succ_le_succ enough⟩
    · rw [Expr.binding_of_other _ fun span binders inner same =>
        merges ⟨span, binders, inner, same⟩] at shape
      cases shape
      exact ⟨List.cons_ne_nil _ _, Nat.succ_le_succ (Nat.zero_le _)⟩
  | _ =>
    refine absurd shape (written_ne_lam ?_ _ _ _)
    intro _ _ same
    cases same

/-- **What elaboration makes of a printed term**, whatever is asked that its type allows; and the
function that it applies takes the arguments that it has and those that its type has. -/
structure Recovered (scope : Scope) (term : Term) (ty : Ty) : Prop where
  elaborates : ∀ demand : Demand, demand.Allows ty →
    (term.written scope.names).elaborate scope demand =
      Bare.verdict (term.bareForms demand.mode) (term, ty)
  spine : ∀ found, (term.written scope.names).spine.1.elaborate scope .any = .ok found →
    found.2.arity = (term.written scope.names).spine.2.length + ty.arity

namespace Recovered

variable {scope : Scope}

/-- What is no application applies itself. -/
theorem of_other (other : ∀ fn arg, term ≠ app fn arg)
    (elaborates : ∀ demand : Demand, demand.Allows ty →
      (term.written scope.names).elaborate scope demand =
        Bare.verdict (term.bareForms demand.mode) (term, ty)) : Recovered scope term ty := by
  refine ⟨elaborates, fun found elaborated => ?_⟩
  have whole : (term.written scope.names).spine = (term.written scope.names, []) := by
    cases written : term.written scope.names with
    | app span head args => exact absurd written (written_ne_app other span head args)
    | _ => rfl
  rw [whole] at elaborated ⊢
  rw [elaborates .any trivial] at elaborated
  rw [Bare.of_verdict_eq_ok elaborated]
  exact (Nat.zero_add _).symm

theorem checks (recovered : Recovered scope term ty) (rule : String) :
    (term.written scope.names).elaborate scope (.exactly ty rule) =
      Bare.verdict (term.bareForms .checking) (term, ty) :=
  recovered.elaborates (.exactly ty rule) rfl

theorem infers (recovered : Recovered scope term ty) :
    (term.written scope.names).elaborate scope .any =
      Bare.verdict (term.bareForms .inferring) (term, ty) :=
  recovered.elaborates .any trivial

/-- A function applied to one more argument. -/
theorem app {fn arg : Term} {dom cod : Ty} (fnBack : Recovered scope fn (.fn dom cod))
    (argBack : Recovered scope arg dom) : Recovered scope (.app fn arg) cod := by
  have room : ∀ found, (fn.written scope.names).spine.1.elaborate scope .any = .ok found →
      (fn.written scope.names).spine.2.length < found.2.arity := by
    intro found elaborated
    rw [fnBack.spine found elaborated]
    exact Nat.lt_add_of_pos_right (Nat.succ_pos _)
  refine ⟨fun demand allowed => ?_, fun found elaborated => ?_⟩
  · rw [written, Expr.elaborate_applying scope _ demand room, fnBack.infers]
    refine Bare.verdict_bind ?_
    rw [Expr.elaborateArgs, argBack.checks]
    cases arg.bareForms .checking with
    | nil => exact Demand.settle_of_allows .nowhere allowed
    | cons form others => rfl
  · rw [written, Expr.applying_eq_spine] at elaborated ⊢
    rw [fnBack.spine found elaborated, Ty.arity]
    simp only [Expr.spine, List.length_append, List.length_singleton]
    omega

end Recovered

/-- **Elaboration recovers a printed term**, unless it meets a form whose type is to be found. -/
theorem HasType.recovered (typed : term.HasType ctx ty) (scope : Scope) (types : scope.types = ctx)
    (distinct : scope.names.Nodup) : Recovered scope term ty := by
  induction typed generalizing scope with
  | var found =>
    subst types
    refine .of_other (by simp) fun demand allowed => ?_
    rw [written, Expr.elaborate, Scope.find?_nameOf distinct found]
    exact Demand.settle_of_allows .nowhere allowed
  | @lam ctx dom cod body bodyTyped ih =>
    have bodyBack := ih ((freshName scope.names, dom) :: scope) (congrArg (dom :: ·) types)
      (List.nodup_cons.mpr ⟨freshName_not_mem scope.names, distinct⟩)
    refine .of_other (by simp) fun demand allowed => ?_
    rw [written]
    cases demand with
    | any =>
      obtain ⟨binders, inner, shape⟩ := Expr.exists_binding ⟨freshName scope.names, .nowhere⟩
        (body.written (freshName scope.names :: scope.names))
      rw [shape]
      rfl
    | exactly expected rule =>
      obtain rfl : .fn dom cod = expected := allowed
      rw [Expr.elaborate_binding scope _ dom rule fun _ _ _ shape => bodyTyped.binders_le_arity shape]
      have inner : (body.written (freshName scope.names :: scope.names)).elaborate
          ((freshName scope.names, dom) :: scope) (.exactly cod "lambda") = _ :=
        bodyBack.checks "lambda"
      dsimp only
      rw [inner]
      exact Bare.verdict_bind_ok rfl
  | app _ _ fn arg => exact .app (fn scope types distinct) (arg scope types distinct)
  | atom =>
    refine .of_other (by simp) fun demand allowed => ?_
    exact Demand.settle_of_allows .nowhere allowed
  | zero =>
    refine .of_other (by simp) fun demand allowed => ?_
    exact Demand.settle_of_allows .nowhere allowed
  | @succ ctx pred _ ih =>
    refine .of_other (by simp) fun demand allowed => ?_
    rw [written]
    cases numeral : pred.numeralValue? with
    | some value =>
      obtain rfl := eq_numeral_of_numeralValue? numeral
      rw [show (Term.numeral value).succ.bareForms demand.mode = [] from
        bareForms_numeral .checking value]
      exact Demand.settle_of_allows .nowhere allowed
    | none =>
      dsimp only
      rw [Expr.elaborate, (ih scope types distinct).checks]
      exact Bare.verdict_bind_ok (Demand.settle_of_allows .nowhere allowed)
  | recNat _ _ _ target base step =>
    refine .of_other (by simp) fun demand allowed => ?_
    rw [written, Expr.elaborate, (target scope types distinct).checks]
    refine Bare.verdict_bind ?_
    dsimp only
    rw [(base scope types distinct).elaborates _ (Demand.within_allows.mpr allowed),
      Demand.mode_within]
    refine Bare.verdict_bind ?_
    dsimp only
    rw [(step scope types distinct).checks]
    exact Bare.verdict_bind_ok rfl
  | pair _ _ fst snd =>
    refine .of_other (by simp) fun demand allowed => ?_
    cases demand with
    | any =>
      rw [written, Expr.elaborate, (fst scope types distinct).infers]
      refine Bare.verdict_bind ?_
      dsimp only
      rw [(snd scope types distinct).infers]
      exact Bare.verdict_bind_ok rfl
    | exactly expected rule =>
      obtain rfl : Ty.pair _ _ = expected := allowed
      rw [written, Expr.elaborate]
      dsimp only
      rw [(fst scope types distinct).checks]
      refine Bare.verdict_bind ?_
      dsimp only
      rw [(snd scope types distinct).checks]
      exact Bare.verdict_bind_ok rfl
  | car _ operand =>
    refine .of_other (by simp) fun demand allowed => ?_
    rw [written, Expr.elaborate, (operand scope types distinct).infers]
    exact Bare.verdict_bind_ok (Demand.settle_of_allows .nowhere allowed)
  | cdr _ operand =>
    refine .of_other (by simp) fun demand allowed => ?_
    rw [written, Expr.elaborate, (operand scope types distinct).infers]
    exact Bare.verdict_bind_ok (Demand.settle_of_allows .nowhere allowed)
  | nil =>
    refine .of_other (by simp) fun demand allowed => ?_
    cases demand with
    | any => rfl
    | exactly expected rule =>
      obtain rfl : Ty.list _ = expected := allowed
      rfl
  | cons _ _ head tail =>
    refine .of_other (by simp) fun demand allowed => ?_
    cases demand with
    | any =>
      rw [written, Expr.elaborate, (head scope types distinct).infers]
      refine Bare.verdict_bind ?_
      dsimp only
      rw [(tail scope types distinct).checks]
      exact Bare.verdict_bind_ok rfl
    | exactly expected rule =>
      obtain rfl : Ty.list _ = expected := allowed
      rw [written, Expr.elaborate]
      dsimp only
      rw [(head scope types distinct).checks]
      refine Bare.verdict_bind ?_
      dsimp only
      rw [(tail scope types distinct).checks]
      exact Bare.verdict_bind_ok rfl
  | recList _ _ _ target base step =>
    refine .of_other (by simp) fun demand allowed => ?_
    rw [written, Expr.elaborate, (target scope types distinct).infers]
    refine Bare.verdict_bind ?_
    dsimp only
    rw [(base scope types distinct).elaborates _ (Demand.within_allows.mpr allowed),
      Demand.mode_within]
    refine Bare.verdict_bind ?_
    dsimp only
    rw [(step scope types distinct).checks]
    exact Bare.verdict_bind_ok rfl
  | ann _ body =>
    refine .of_other (by simp) fun demand allowed => ?_
    rw [written, Expr.elaborate, Ty.toTy_written, (body scope types distinct).checks]
    exact Bare.verdict_bind_ok (Demand.settle_of_allows .nowhere allowed)

end Term

/-! ### Printed texts -/

/-- Expressions that are the same up to places are elaborated alike, with their shorthand expanded. -/
theorem Expr.elaborate_expand_layout {read expr : Expr} (plain : expr.Plain)
    (same : read.unplaced = expr.unplaced) (scope : Scope) (demand : Demand) :
    bimap Error.unplaced id (read.expand.elaborate scope demand) =
      bimap Error.unplaced id (expr.elaborate scope demand) := by
  calc bimap Error.unplaced id (read.expand.elaborate scope demand)
      = read.unplaced.expand.elaborate scope demand := by
        rw [expand_unplaced, elaborate_unplaced]
    _ = expr.expand.unplaced.elaborate scope demand := by rw [same, expand_unplaced]
    _ = bimap Error.unplaced id (expr.elaborate scope demand) := by
        rw [plain.expand, elaborate_unplaced]

/-- What is a verdict up to places is one, with the place of the form that is reported. -/
theorem Elaboration.Bare.verdict_cases {α : Type} {run : Except Error α} {met : List Bare} {result : α}
    (same : bimap Error.unplaced id run = bimap Error.unplaced id (verdict met result)) :
    (met = [] ∧ run = .ok result) ∨
      ∃ form others span, met = form :: others ∧ run = .error (form.error span) := by
  cases met with
  | nil =>
    obtain ⟨found, ran, rfl⟩ := bimap_eq_ok.mp same
    exact .inl ⟨rfl, ran⟩
  | cons form others =>
    obtain ⟨error, failed, place⟩ := bimap_eq_error.mp same
    refine .inr ⟨form, others, error.span, rfl, ?_⟩
    rw [failed]
    cases form <;> cases error <;> first | rfl | cases place

/-- What is reported where the type of a form is to be found. -/
theorem Elaboration.Bare.report?_error (form : Bare) (span : Span) :
    ∃ report, (form.error span).report? = some report ∧ report.kind = .mismatch ∧
      report.rule = some form.keyword.name ∧ "Cannot infer".toList <+: report.message.toList := by
  have starts : "Cannot infer".toList <+: (form.error .nowhere).message.toList := by
    cases form <;> decide +kernel
  cases form <;> exact ⟨_, rfl, rfl, rfl, starts⟩

section Printing

variable {term : Term} {ty : Ty}

/-- **The printed text of a term is read back**: it is parsed as one expression, and elaboration under
a demand that allows its type recovers the term, unless it meets a form that no type is asked of. -/
theorem Term.HasType.exists_parseAll {scope : Scope} (typed : term.HasType scope.types ty)
    (distinct : scope.names.Nodup) (named : ∀ name ∈ scope.names, IsName name)
    (words : ∀ name ∈ term.atoms, Token.IsWord name) :
    ∃ span read, Decl.parseAll (term.text scope.names) = .ok [.eval span read] ∧
      ∀ demand : Demand, demand.Allows ty →
        (term.bareForms demand.mode = [] ∧ read.expand.elaborate scope demand = .ok (term, ty)) ∨
        ∃ form others place, term.bareForms demand.mode = form :: others ∧
          read.expand.elaborate scope demand = .error (Bare.error place form) := by
  have sized : scope.names.length = scope.types.length := by
    rw [Scope.names, Scope.types, List.length_map, List.length_map]
  have clear := typed.written_clear scope.names sized named words
  obtain ⟨span, read, parsed, same⟩ := clear.exists_parseAll
  rw [Term.text, Term.tree_eq]
  refine ⟨span, read, parsed, fun demand allowed => Bare.verdict_cases ?_⟩
  rw [Expr.elaborate_expand_layout clear.plain same,
    (typed.recovered scope rfl distinct).elaborates demand allowed]

/-- **Printing is faithful.** A typed term, whose variables are printed with names that are different
from each other and whose atoms are words, is printed as a text that is parsed. Checking the
expression that is parsed against the type of the term gives the very term back, unless there are
forms in the term that no type is asked of; then the first of them is reported as a type that cannot
be inferred. -/
theorem printing_faithful {scope : Scope} (distinct : scope.names.Nodup)
    (named : ∀ name ∈ scope.names, IsName name) (inferred : term.infer scope.types = .ok ty)
    (words : ∀ name ∈ term.atoms, Token.IsWord name) :
    ∃ expr, Expr.parse (term.text scope.names) = .ok expr ∧ ∀ rule,
      (term.bareForms .checking = [] ∧ expr.expand.check scope ty rule = .ok term) ∨
      ∃ form others error report, term.bareForms .checking = form :: others ∧
        expr.expand.check scope ty rule = .error error ∧ error.report? = some report ∧
        report.kind = .mismatch ∧ report.rule = some form.keyword.name ∧
        "Cannot infer".toList <+: report.message.toList := by
  obtain ⟨span, expr, parsed, outcomes⟩ :=
    (Term.HasType.of_infer_eq inferred).exists_parseAll distinct named words
  refine ⟨expr, ?_, fun rule => ?_⟩
  · rw [Expr.parse, parsed]
    rfl
  rcases outcomes (.exactly ty rule) rfl with
    ⟨none, elaborated⟩ | ⟨form, others, place, met, elaborated⟩
  · refine .inl ⟨none, ?_⟩
    rw [Expr.check, elaborated]
    rfl
  · obtain ⟨report, reported, kind, rule', message⟩ := form.report?_error place
    refine .inr ⟨form, others, form.error place, report, met, ?_, reported, kind, rule', message⟩
    rw [Expr.check, elaborated]
    rfl

end Printing

/-- Two functions in a row whose parameters must not take the name in scope, around an application
of it to two arguments. -/
theorem printing_faithful_at_name_in_scope :
    let scope : Scope := [("x", .fn .nat (.fn .nat .atom))]
    let term : Term := .lam .nat (.lam .nat (.app (.app (.var 2) (.var 1)) (.succ (.var 0))))
    scope.names.Nodup ∧ term.infer scope.types = .ok (.fn .nat (.fn .nat .atom)) ∧
      term.text scope.names = "(lambda (x1 x2) (x x1 (add1 x2)))" ∧
      ∃ expr, Expr.parse (term.text scope.names) = .ok expr ∧
        expr.expand.check scope (.fn .nat (.fn .nat .atom)) "the" = .ok term := by
  intro scope term
  have distinct : scope.names.Nodup := by decide
  have inferred : term.infer scope.types = .ok (.fn .nat (.fn .nat .atom)) := rfl
  have named : ∀ name ∈ scope.names, IsName name := by decide
  obtain ⟨expr, parsed, outcome⟩ := printing_faithful distinct named inferred (by decide)
  refine ⟨distinct, inferred, by decide +kernel, expr, parsed, ?_⟩
  rcases outcome "the" with ⟨_, checked⟩ | ⟨form, others, _, _, met, _⟩
  · exact checked
  · cases met

end EtaLong
