/-
**What elaboration does.**

A plain expression is elaborated to a term that has the type it comes with, in the context of the
types in scope, and the type is the demanded one; or else there is a mistake to be reported.
Nothing else can happen: shorthand is not met, and arguments and parameters never run out of
arrows, since both are counted first.

* `Elaboration.Fits`: the two outcomes, as a property that sequences keep;
* `Expr.elaborate_fits`: every plain expression has one of them;
* `Expr.typed_of_elaborate`: what is elaborated is plain and has its type;
* `elaboration_sound`: the outcomes of inferring and of checking.
-/

import EtaLong.Elaboration
import EtaLong.Proofs.Expr.Shorthand
import EtaLong.Proofs.Typing

namespace EtaLong

/-! ### Scopes -/

/-- What a name is found to be is in the context of the types in scope. -/
theorem Scope.getElem?_types_of_find? {scope : Scope} {name : String} {index : Nat} {ty : Ty}
    (found : scope.find? name = some (index, ty)) : scope.types[index]? = some ty := by
  induction scope generalizing index with
  | nil => cases found
  | cons entry scope ih =>
    obtain ⟨other, otherTy⟩ := entry
    rw [Scope.find?] at found
    by_cases same : other = name
    · rw [if_pos same] at found
      cases found
      rfl
    · rw [if_neg same] at found
      obtain ⟨⟨inner, innerTy⟩, innerFound, same⟩ := Option.map_eq_some_iff.mp found
      cases same
      exact ih innerFound

/-- **A function can be entered** with as many parameters as its type has arrows, and a body of
the type inside makes it a function of its type. -/
theorem Scope.enter?_eq_some {binders : List Binder} {expected : Ty} (scope : Scope)
    (enough : binders.length ≤ expected.arity) :
    ∃ inner result, scope.enter? binders expected = some (inner, result) ∧
      ∀ body : Term, body.HasType inner.types result →
        (Term.lams binders.length expected body).HasType scope.types expected := by
  induction binders generalizing scope expected with
  | nil =>
    refine ⟨scope, expected, rfl, fun body typed => ?_⟩
    rw [List.length_nil, Term.lams]
    · exact typed
    · intro count dom cod impossible
      cases impossible
  | cons binder binders ih =>
    cases expected with
    | fn dom cod =>
      obtain ⟨inner, result, entered, typing⟩ :=
        ih ((binder.name, dom) :: scope) (Nat.le_of_succ_le_succ enough)
      exact ⟨inner, result, entered, fun body typed => .lam (typing body typed)⟩
    | _ => exact absurd enough (Nat.not_succ_le_zero _)

/-- A numeral is a number. -/
theorem Term.HasType.numeral (ctx : Context) (value : Nat) :
    (Term.numeral value).HasType ctx .nat := by
  induction value with
  | zero => exact .zero
  | succ value ih => exact .succ ih

namespace Elaboration

/-! ### Outcomes -/

/-- **The mistakes that are reported.** -/
def Error.Reportable (error : Error) : Prop :=
  ∃ report, error.report? = some report ∧ report.kind ≠ .general

/-- A type that a demand allows. -/
def Demand.Allows : Demand → Ty → Prop
  | .any, _ => True
  | .exactly expected _, ty => ty = expected

theorem Demand.within_allows {rule : String} {demand : Demand} {ty : Ty} :
    (demand.within rule).Allows ty ↔ demand.Allows ty := by
  cases demand <;> exact Iff.rfl

/-- **An outcome of elaboration that fits**: a term of the type it comes with, which is allowed, or
a mistake that is reported. -/
inductive Fits (ctx : Context) (demand : Demand) : Except Error (Term × Ty) → Prop where
  | ok {term : Term} {ty : Ty} :
      term.HasType ctx ty → demand.Allows ty → Fits ctx demand (.ok (term, ty))
  | error {error : Error} : error.Reportable → Fits ctx demand (.error error)

namespace Fits

variable {ctx inner : Context} {demand other : Demand} {run : Except Error (Term × Ty)}

/-- **A sequence fits** when its first part does and the rest does after every term that fits. -/
theorem bind {rest : Term × Ty → Except Error (Term × Ty)} (first : Fits inner other run)
    (after : ∀ term ty, term.HasType inner ty → other.Allows ty →
      Fits ctx demand (rest (term, ty))) :
    Fits ctx demand (run >>= rest) := by
  cases first with
  | ok typed allowed => exact after _ _ typed allowed
  | error reportable => exact .error reportable

/-- A mistake of a kind of its own is reported. -/
theorem mistake {error : Error} {kind : Diagnostic.Kind} {rule : String}
    (known : error.kindAndRule? = some (kind, rule)) (own : kind ≠ .general) :
    Fits ctx demand (.error error) := by
  have reported : error.report? = some
      { kind := kind, message := error.message, span := some error.span, rule := some rule } := by
    rw [Error.report?, known, Option.map_some]
  exact .error ⟨_, reported, own⟩

/-- What is found settles a demand. -/
theorem settle {term : Term} {ty : Ty} (demand : Demand) (span : Span)
    (typed : term.HasType ctx ty) : Fits ctx demand (demand.settle span (term, ty)) := by
  cases demand with
  | any => exact .ok typed trivial
  | exactly expected rule =>
    rw [Demand.settle]
    by_cases same : ty = expected
    · rw [if_pos same]
      exact .ok typed same
    · rw [if_neg same]
      exact .mistake rfl (by decide)

end Fits

end Elaboration

/-! ### Every plain expression -/

open Elaboration

mutual

/-- **A plain expression is elaborated to a typed term or has a mistake that is reported.** -/
theorem Expr.elaborate_fits : ∀ (scope : Scope) {expr : Expr} (demand : Demand), expr.Plain →
    Fits scope.types demand (expr.elaborate scope demand)
  | scope, _, demand, @Plain.var span name => by
    rw [Expr.elaborate]
    cases found : scope.find? name with
    | none => exact .mistake rfl (by decide)
    | some entry => exact .settle demand span (.var (Scope.getElem?_types_of_find? found))
  | scope, _, demand, @Plain.app span fn args fnPlain argsPlain => by
    rw [Expr.elaborate]
    refine (Expr.elaborate_fits scope .any fnPlain).bind fun function fnTy fnTyped _ => ?_
    dsimp only
    by_cases none : fnTy.arity = 0
    · rw [if_pos none]
      exact .mistake rfl (by decide)
    rw [if_neg none]
    by_cases tooMany : fnTy.arity < args.length
    · rw [if_pos tooMany]
      exact .mistake rfl (by decide)
    rw [if_neg tooMany]
    refine (Expr.elaborateArgs_fits scope fnTyped argsPlain (Nat.le_of_not_lt tooMany)).bind ?_
    exact fun term ty typed _ => .settle demand span typed
  | scope, _, demand, @Plain.the span ty body bodyPlain => by
    rw [Expr.elaborate]
    refine (Expr.elaborate_fits scope (.exactly ty.toTy "the") bodyPlain).bind ?_
    rintro term _ typed rfl
    exact .settle demand span (.ann typed)
  | scope, _, demand, @Plain.atom span name => by
    rw [Expr.elaborate]
    exact .settle demand span .atom
  | scope, _, demand, @Plain.zero span => by
    rw [Expr.elaborate]
    exact .settle demand span .zero
  | scope, _, demand, @Plain.number span value => by
    rw [Expr.elaborate]
    exact .settle demand span (.numeral _ value)
  | scope, _, demand, @Plain.add1 span pred predPlain => by
    rw [Expr.elaborate]
    refine (Expr.elaborate_fits scope (.exactly .nat "add1") predPlain).bind ?_
    rintro term _ typed rfl
    exact .settle demand span (.succ typed)
  | scope, _, demand, @Plain.car span operand operandPlain => by
    rw [Expr.elaborate]
    refine (Expr.elaborate_fits scope .any operandPlain).bind fun term ty typed _ => ?_
    cases ty with
    | pair fstTy sndTy => exact .settle demand span (.car typed)
    | _ => exact .mistake rfl (by decide)
  | scope, _, demand, @Plain.cdr span operand operandPlain => by
    rw [Expr.elaborate]
    refine (Expr.elaborate_fits scope .any operandPlain).bind fun term ty typed _ => ?_
    cases ty with
    | pair fstTy sndTy => exact .settle demand span (.cdr typed)
    | _ => exact .mistake rfl (by decide)
  | scope, _, .any, @Plain.lam span binders body bodyPlain => by
    rw [Expr.elaborate]
    exact .mistake rfl (by decide)
  | scope, _, .exactly expected rule, @Plain.lam span binders body bodyPlain => by
    rw [Expr.elaborate]
    by_cases none : expected.arity = 0
    · rw [if_pos none]
      exact .mistake rfl (by decide)
    rw [if_neg none]
    by_cases tooMany : expected.arity < binders.length
    · rw [if_pos tooMany]
      exact .mistake rfl (by decide)
    rw [if_neg tooMany]
    obtain ⟨inner, result, entered, typing⟩ :=
      scope.enter?_eq_some (Nat.le_of_not_lt tooMany)
    rw [entered]
    refine (Expr.elaborate_fits inner (.exactly result "lambda") bodyPlain).bind ?_
    rintro term _ typed rfl
    exact .ok (typing term typed) rfl
  | scope, _, .any, @Plain.nil span => by
    rw [Expr.elaborate]
    exact .mistake rfl (by decide)
  | scope, _, .exactly expected rule, @Plain.nil span => by
    cases expected with
    | list elem =>
      rw [Expr.elaborate]
      exact .ok .nil rfl
    | _ => exact .mistake rfl (by decide)
  | scope, _, .any, @Plain.pair span fst snd fstPlain sndPlain => by
    rw [Expr.elaborate]
    refine (Expr.elaborate_fits scope .any fstPlain).bind fun first fstTy fstTyped _ => ?_
    refine (Expr.elaborate_fits scope .any sndPlain).bind fun second sndTy sndTyped _ => ?_
    exact .ok (.pair fstTyped sndTyped) trivial
  | scope, _, .exactly expected rule, @Plain.pair span fst snd fstPlain sndPlain => by
    cases expected with
    | pair fstTy sndTy =>
      rw [Expr.elaborate]
      refine (Expr.elaborate_fits scope (.exactly fstTy "cons") fstPlain).bind ?_
      rintro first _ fstTyped rfl
      refine (Expr.elaborate_fits scope (.exactly sndTy "cons") sndPlain).bind ?_
      rintro second _ sndTyped rfl
      exact .ok (.pair fstTyped sndTyped) rfl
    | _ => exact .mistake rfl (by decide)
  | scope, _, .any, @Plain.cons span head tail headPlain tailPlain => by
    rw [Expr.elaborate]
    refine (Expr.elaborate_fits scope .any headPlain).bind fun first elem headTyped _ => ?_
    refine (Expr.elaborate_fits scope (.exactly (.list elem) "::") tailPlain).bind ?_
    rintro rest _ tailTyped rfl
    exact .ok (.cons headTyped tailTyped) trivial
  | scope, _, .exactly expected rule, @Plain.cons span head tail headPlain tailPlain => by
    cases expected with
    | list elem =>
      rw [Expr.elaborate]
      refine (Expr.elaborate_fits scope (.exactly elem "::") headPlain).bind ?_
      rintro first _ headTyped rfl
      refine (Expr.elaborate_fits scope (.exactly (.list _) "::") tailPlain).bind ?_
      rintro rest _ tailTyped rfl
      exact .ok (.cons headTyped tailTyped) rfl
    | _ => exact .mistake rfl (by decide)
  | scope, _, demand, @Plain.recNat span target base step targetPlain basePlain stepPlain => by
    rw [Expr.elaborate]
    refine (Expr.elaborate_fits scope (.exactly .nat "rec-nat") targetPlain).bind ?_
    rintro counted _ targetTyped rfl
    refine (Expr.elaborate_fits scope (.within "rec-nat" demand) basePlain).bind ?_
    intro start motive baseTyped allowed
    refine (Expr.elaborate_fits scope (.exactly (Ty.natStep motive) "rec-nat") stepPlain).bind ?_
    rintro next _ stepTyped rfl
    exact .ok (.recNat targetTyped baseTyped stepTyped) (Demand.within_allows.mp allowed)
  | scope, _, demand, @Plain.recList span target base step targetPlain basePlain stepPlain => by
    rw [Expr.elaborate]
    refine (Expr.elaborate_fits scope .any targetPlain).bind fun items ty targetTyped _ => ?_
    cases ty with
    | list elem =>
      refine (Expr.elaborate_fits scope (.within "rec-list" demand) basePlain).bind ?_
      intro start motive baseTyped allowed
      refine (Expr.elaborate_fits scope (.exactly (Ty.listStep elem motive) "rec-list")
        stepPlain).bind ?_
      rintro next _ stepTyped rfl
      exact .ok (.recList targetTyped baseTyped stepTyped) (Demand.within_allows.mp allowed)
    | _ => exact .mistake rfl (by decide)

/-- A function is applied to no more arguments than its type has arrows. -/
theorem Expr.elaborateArgs_fits : ∀ (scope : Scope) {function : Term} {ty : Ty} {args : List Expr},
    function.HasType scope.types ty → PlainAll args → args.length ≤ ty.arity →
    Fits scope.types .any (Expr.elaborateArgs scope function ty args)
  | scope, _, ty, _, typed, .nil, _ => by
    rw [Expr.elaborateArgs]
    exact .ok typed trivial
  | scope, _, .fn dom cod, _, typed, .cons argPlain argsPlain, enough => by
    rw [Expr.elaborateArgs]
    refine (Expr.elaborate_fits scope (.exactly dom "app") argPlain).bind ?_
    rintro argument _ argTyped rfl
    exact Expr.elaborateArgs_fits scope (.app typed argTyped) argsPlain
      (Nat.le_of_succ_le_succ enough)

end

/-! ### Elaboration that succeeds -/

mutual

/-- **What is elaborated has no shorthand**, since every part of it is elaborated too. -/
theorem Expr.plain_of_elaborate : ∀ {scope : Scope} {expr : Expr} {demand : Demand}
    {found : Term × Ty}, expr.elaborate scope demand = .ok found → expr.Plain
  | _, .var _ _, _, _, _ => .var
  | _, .app _ fn args, _, _, run => by
    rw [Expr.elaborate] at run
    obtain ⟨⟨function, fnTy⟩, fnRun, run⟩ := bind_eq_ok.mp run
    dsimp only at run
    by_cases none : fnTy.arity = 0
    · rw [if_pos none] at run
      cases run
    rw [if_neg none] at run
    by_cases tooMany : fnTy.arity < args.length
    · rw [if_pos tooMany] at run
      cases run
    rw [if_neg tooMany] at run
    obtain ⟨applied, argsRun, _⟩ := bind_eq_ok.mp run
    exact .app (Expr.plain_of_elaborate fnRun) (Expr.plainAll_of_elaborateArgs argsRun)
  | _, .the _ _ body, _, _, run => by
    rw [Expr.elaborate] at run
    obtain ⟨_, bodyRun, _⟩ := bind_eq_ok.mp run
    exact .the (Expr.plain_of_elaborate bodyRun)
  | _, .atom _ _, _, _, _ => .atom
  | _, .zero _, _, _, _ => .zero
  | _, .number _ _, _, _, _ => .number
  | _, .add1 _ pred, _, _, run => by
    rw [Expr.elaborate] at run
    obtain ⟨_, predRun, _⟩ := bind_eq_ok.mp run
    exact .add1 (Expr.plain_of_elaborate predRun)
  | _, .car _ operand, _, _, run => by
    rw [Expr.elaborate] at run
    obtain ⟨_, operandRun, _⟩ := bind_eq_ok.mp run
    exact .car (Expr.plain_of_elaborate operandRun)
  | _, .cdr _ operand, _, _, run => by
    rw [Expr.elaborate] at run
    obtain ⟨_, operandRun, _⟩ := bind_eq_ok.mp run
    exact .cdr (Expr.plain_of_elaborate operandRun)
  | _, .lam _ _ _, .any, _, run => by
    rw [Expr.elaborate] at run
    cases run
  | scope, .lam _ binders body, .exactly expected _, _, run => by
    rw [Expr.elaborate] at run
    by_cases none : expected.arity = 0
    · rw [if_pos none] at run
      cases run
    rw [if_neg none] at run
    by_cases tooMany : expected.arity < binders.length
    · rw [if_pos tooMany] at run
      cases run
    rw [if_neg tooMany] at run
    cases entered : scope.enter? binders expected with
    | none =>
      rw [entered] at run
      cases run
    | some inside =>
      rw [entered] at run
      obtain ⟨_, bodyRun, _⟩ := bind_eq_ok.mp run
      exact .lam (Expr.plain_of_elaborate bodyRun)
  | _, .nil _, _, _, _ => .nil
  | _, .pair _ fst snd, .any, _, run => by
    rw [Expr.elaborate] at run
    obtain ⟨_, fstRun, run⟩ := bind_eq_ok.mp run
    obtain ⟨_, sndRun, _⟩ := bind_eq_ok.mp run
    exact .pair (Expr.plain_of_elaborate fstRun) (Expr.plain_of_elaborate sndRun)
  | _, .pair _ fst snd, .exactly expected _, _, run => by
    cases expected with
    | pair fstTy sndTy =>
      rw [Expr.elaborate] at run
      obtain ⟨_, fstRun, run⟩ := bind_eq_ok.mp run
      obtain ⟨_, sndRun, _⟩ := bind_eq_ok.mp run
      exact .pair (Expr.plain_of_elaborate fstRun) (Expr.plain_of_elaborate sndRun)
    | _ => cases run
  | _, .cons _ head tail, .any, _, run => by
    rw [Expr.elaborate] at run
    obtain ⟨_, headRun, run⟩ := bind_eq_ok.mp run
    obtain ⟨_, tailRun, _⟩ := bind_eq_ok.mp run
    exact .cons (Expr.plain_of_elaborate headRun) (Expr.plain_of_elaborate tailRun)
  | _, .cons _ head tail, .exactly expected _, _, run => by
    cases expected with
    | list elem =>
      rw [Expr.elaborate] at run
      obtain ⟨_, headRun, run⟩ := bind_eq_ok.mp run
      obtain ⟨_, tailRun, _⟩ := bind_eq_ok.mp run
      exact .cons (Expr.plain_of_elaborate headRun) (Expr.plain_of_elaborate tailRun)
    | _ => cases run
  | _, .recNat _ target base step, _, _, run => by
    rw [Expr.elaborate] at run
    obtain ⟨_, targetRun, run⟩ := bind_eq_ok.mp run
    obtain ⟨_, baseRun, run⟩ := bind_eq_ok.mp run
    obtain ⟨_, stepRun, _⟩ := bind_eq_ok.mp run
    exact .recNat (Expr.plain_of_elaborate targetRun) (Expr.plain_of_elaborate baseRun)
      (Expr.plain_of_elaborate stepRun)
  | _, .recList _ target base step, _, _, run => by
    rw [Expr.elaborate] at run
    obtain ⟨⟨items, itemsTy⟩, targetRun, run⟩ := bind_eq_ok.mp run
    cases itemsTy with
    | list elem =>
      obtain ⟨_, baseRun, run⟩ := bind_eq_ok.mp run
      obtain ⟨_, stepRun, _⟩ := bind_eq_ok.mp run
      exact .recList (Expr.plain_of_elaborate targetRun) (Expr.plain_of_elaborate baseRun)
        (Expr.plain_of_elaborate stepRun)
    | _ => cases run
  | _, .tuple _ _ _, _, _, run => by
    rw [Expr.elaborate] at run
    cases run
  | _, .listLiteral _ _, _, _, run => by
    rw [Expr.elaborate] at run
    cases run

theorem Expr.plainAll_of_elaborateArgs : ∀ {scope : Scope} {function : Term} {ty : Ty}
    {args : List Expr} {found : Term × Ty},
    Expr.elaborateArgs scope function ty args = .ok found → PlainAll args
  | _, _, _, [], _, _ => .nil
  | _, _, ty, arg :: args, _, run => by
    cases ty with
    | fn dom cod =>
      rw [Expr.elaborateArgs] at run
      obtain ⟨_, argRun, argsRun⟩ := bind_eq_ok.mp run
      exact .cons (Expr.plain_of_elaborate argRun) (Expr.plainAll_of_elaborateArgs argsRun)
    | _ => cases run

end

/-- **What is elaborated has its type** in the context of the scope, and the type is allowed. -/
theorem Expr.typed_of_elaborate {scope : Scope} {expr : Expr} {demand : Demand} {term : Term}
    {ty : Ty} (run : expr.elaborate scope demand = .ok (term, ty)) :
    term.HasType scope.types ty ∧ demand.Allows ty := by
  have fits := Expr.elaborate_fits scope demand (Expr.plain_of_elaborate run)
  rw [run] at fits
  cases fits with
  | ok typed allowed => exact ⟨typed, allowed⟩

/-! ### Soundness -/

/-- **A mistake in an expression**: an unknown name, a wrong type, or too many arguments. -/
def Elaboration.Error.IsMistake (error : Elaboration.Error) : Prop :=
  ∃ report, error.report? = some report ∧
    (report.kind = .unbound ∨ report.kind = .mismatch ∨ report.kind = .arity)

/-- What is reported is a mistake in the expression. -/
theorem Elaboration.Error.Reportable.isMistake {error : Elaboration.Error}
    (reportable : error.Reportable) : error.IsMistake := by
  obtain ⟨report, reported, _⟩ := reportable
  refine ⟨report, reported, ?_⟩
  cases error with
  | unknownName span name =>
    cases reported
    exact .inl rfl
  | mismatch rule span wanted found =>
    cases reported
    exact .inr (.inl rfl)
  | tooManyArguments span count fnTy =>
    cases reported
    exact .inr (.inr rfl)
  | tooManyBinders span count expected =>
    cases reported
    exact .inr (.inr rfl)
  | lambdaWithoutType span =>
    cases reported
    exact .inr (.inl rfl)
  | nilWithoutType span =>
    cases reported
    exact .inr (.inl rfl)
  | shorthand expr => cases reported
  | noArrowLeft span => cases reported

/-- What is not elaborated, though it has no shorthand, has a mistake. -/
theorem Expr.isMistake_of_elaborate {scope : Scope} {expr : Expr} {demand : Demand}
    {error : Elaboration.Error} (plain : expr.Plain)
    (run : expr.elaborate scope demand = .error error) : error.IsMistake := by
  have fits := Expr.elaborate_fits scope demand plain
  rw [run] at fits
  cases fits with
  | error reportable => exact reportable.isMistake

/-- A check succeeds when elaboration under the demand for the type does. -/
theorem Expr.check_eq_ok {scope : Scope} {expr : Expr} {expected : Ty} {rule : String}
    {term : Term} (run : expr.check scope expected rule = .ok term) :
    expr.elaborate scope (.exactly expected rule) = .ok (term, expected) := by
  unfold Expr.check at run
  cases elaborated : expr.elaborate scope (.exactly expected rule) with
  | error error =>
    rw [elaborated] at run
    cases run
  | ok found =>
    obtain ⟨other, ty⟩ := found
    obtain ⟨_, allowed⟩ := Expr.typed_of_elaborate elaborated
    cases allowed
    rw [elaborated] at run
    cases run
    rfl

/-- **A check is elaboration** under the demand for the type. -/
theorem Expr.check_eq_ok_iff {scope : Scope} {expr : Expr} {expected : Ty} {rule : String}
    {term : Term} : expr.check scope expected rule = .ok term ↔
      expr.elaborate scope (.exactly expected rule) = .ok (term, expected) := by
  refine ⟨Expr.check_eq_ok, fun run => ?_⟩
  unfold Expr.check
  rw [run]
  rfl

/-- **Elaboration is sound.** In every scope, what an expression without shorthand is inferred or
checked to be has that type by the rules for terms, and an expression that is refused has a
mistake in it. -/
theorem elaboration_sound (scope : Scope) {expr : Expr} (plain : expr.Plain) :
    (∀ term ty, expr.infer scope = .ok (term, ty) → term.infer scope.types = .ok ty) ∧
    (∀ expected rule term, expr.check scope expected rule = .ok term →
      term.infer scope.types = .ok expected) ∧
    (∀ error, expr.infer scope = .error error → error.IsMistake) ∧
    (∀ expected rule error, expr.check scope expected rule = .error error → error.IsMistake) := by
  refine ⟨?_, ?_, ?_, ?_⟩
  · intro term ty run
    exact (Expr.typed_of_elaborate run).1.infer_eq
  · intro expected rule term run
    exact (Expr.typed_of_elaborate (Expr.check_eq_ok run)).1.infer_eq
  · intro error run
    exact Expr.isMistake_of_elaborate plain run
  · intro expected rule error run
    unfold Expr.check at run
    cases elaborated : expr.elaborate scope (.exactly expected rule) with
    | ok found =>
      rw [elaborated] at run
      cases run
    | error found =>
      rw [elaborated] at run
      cases run
      exact Expr.isMistake_of_elaborate plain elaborated

/-- A function of two parameters of one name, applied to one argument in which an outer function of
the same name is used; the function alone, which has no type to be found but can be checked; and
the argument checked against a type that it does not have. -/
theorem elaboration_sound_at_shadowed_name :
    ∃ (applied function argument : Expr) (term body : Term) (bare wrong : Elaboration.Error),
      applied.infer [("f", .fn .nat .nat)] = .ok (term, .fn .nat .nat) ∧
      term.infer [.fn .nat .nat] = .ok (.fn .nat .nat) ∧
      function.check [("f", .fn .nat .nat)] (.fn .nat (.fn .nat .nat)) "the" = .ok body ∧
      body.infer [.fn .nat .nat] = .ok (.fn .nat (.fn .nat .nat)) ∧
      function.infer [("f", .fn .nat .nat)] = .error bare ∧ bare.IsMistake ∧
      argument.check [("f", .fn .nat .nat)] .atom "the" = .error wrong ∧ wrong.IsMistake := by
  let span : Span := ⟨0, 0⟩
  let argument : Expr := .app span (.var span "f") [.number span 2]
  let function : Expr := .lam span [⟨"f", span⟩, ⟨"f", span⟩] (.var span "f")
  let binary : TypeExpr := .arrow span [.nat span, .nat span] (.nat span)
  have argumentPlain : argument.Plain := .app .var (.cons .number .nil)
  have functionPlain : function.Plain := .lam .var
  let applied : Expr := .app span (.the span binary function) [argument]
  have appliedPlain : applied.Plain := .app (.the functionPlain) (.cons argumentPlain .nil)
  obtain ⟨found, _, _, _⟩ := elaboration_sound [("f", .fn .nat .nat)] appliedPlain
  obtain ⟨_, checked, notFound, _⟩ := elaboration_sound [("f", .fn .nat .nat)] functionPlain
  obtain ⟨_, _, _, refused⟩ := elaboration_sound [("f", .fn .nat .nat)] argumentPlain
  exact ⟨applied, function, argument, _, _, _, _, rfl, found _ _ rfl, rfl,
    checked (.fn .nat (.fn .nat .nat)) "the" _ rfl, rfl, notFound _ rfl, rfl,
    refused .atom "the" _ rfl⟩

end EtaLong
