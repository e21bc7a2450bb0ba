/-
**Evaluation and reading back by rules.**

Evaluation and reading back as two systems of rules, with one rule for each constructor of a term, a
value or a neutral. The functions that run go along whole rows of successors and list cells: they
take a row apart first and then work back from its end. The rules know no rows, and they say nothing
of fuel; yet they give the same results, for terms and values with and without a type.

The rules come in two orders. Evaluation is eager: the step of a recursion has to have a value, also
where the target is zero or the empty list and the result is the base. On demand such a step is left
alone. The orders never give two values, and they differ only where evaluation gives none.

* `Rules.Evaluates`, `Rules.Applies`, `Rules.RecursNat`, `Rules.RecursList`: rules of evaluation;
* `Rules.ReadsBack`, `Rules.NeutralReadsBack`: rules of reading back;
* `Rules.Evaluates.onDemand`, `Rules.Evaluates.agree`: the two orders;
* `Rules.Evaluates.runs`, `Rules.ReadsBack.runs`: what the rules give is what runs end with;
* `Term.eval_byRules`, `readBack_byRules`: what runs end with is given by the rules;
* `evaluation_follows_rules`: all together.
-/

import EtaLong.Proofs.Normalization

namespace EtaLong

namespace Rules

/-! ### The rules -/

/-- **When the step of a recursion is evaluated**: before the recursion starts, or only once the
target is not at its end. -/
inductive Order where
  | eager
  | onDemand

mutual

/-- **A term evaluates to a value** in an environment. A recursion at its end needs the value of
its step in the eager order only. -/
inductive Evaluates (order : Order) : Env → Term → Value → Prop where
  | var {env : Env} {index : Nat} {value : Value} :
      env[index]? = some value → Evaluates order env (.var index) value
  | lam {env : Env} {dom : Ty} {body : Term} :
      Evaluates order env (.lam dom body) (.closure env body)
  | app {env : Env} {fn arg : Term} {function argument result : Value} :
      Evaluates order env fn function → Evaluates order env arg argument →
      Applies order function argument result → Evaluates order env (.app fn arg) result
  | atom {env : Env} {name : String} : Evaluates order env (.atom name) (.atom name)
  | zero {env : Env} : Evaluates order env .zero .zero
  | succ {env : Env} {pred : Term} {value : Value} :
      Evaluates order env pred value → Evaluates order env (.succ pred) (.succ value)
  | recNat {env : Env} {motive : Ty} {target base step : Term} {number start next result : Value} :
      Evaluates order env target number → Evaluates order env base start →
      Evaluates order env step next →
      RecursNat order motive number start next result →
      Evaluates order env (.recNat motive target base step) result
  | recNatZero {env : Env} {motive : Ty} {target base step : Term} {start : Value} :
      order = .onDemand → Evaluates order env target .zero → Evaluates order env base start →
      Evaluates order env (.recNat motive target base step) start
  | pair {env : Env} {fst snd : Term} {first second : Value} :
      Evaluates order env fst first → Evaluates order env snd second →
      Evaluates order env (.pair fst snd) (.pair first second)
  | car {env : Env} {operand : Term} {first second : Value} :
      Evaluates order env operand (.pair first second) → Evaluates order env (.car operand) first
  | carStuck {env : Env} {operand : Term} {neutral : Neutral} :
      Evaluates order env operand (.stuck neutral) →
      Evaluates order env (.car operand) (.stuck (.car neutral))
  | cdr {env : Env} {operand : Term} {first second : Value} :
      Evaluates order env operand (.pair first second) → Evaluates order env (.cdr operand) second
  | cdrStuck {env : Env} {operand : Term} {neutral : Neutral} :
      Evaluates order env operand (.stuck neutral) →
      Evaluates order env (.cdr operand) (.stuck (.cdr neutral))
  | nil {env : Env} {elem : Ty} : Evaluates order env (.nil elem) .nil
  | cons {env : Env} {head tail : Term} {first rest : Value} :
      Evaluates order env head first → Evaluates order env tail rest →
      Evaluates order env (.cons head tail) (.cons first rest)
  | recList {env : Env} {motive : Ty} {target base step : Term} {items start next result : Value} :
      Evaluates order env target items → Evaluates order env base start →
      Evaluates order env step next →
      RecursList order motive items start next result →
      Evaluates order env (.recList motive target base step) result
  | recListNil {env : Env} {motive : Ty} {target base step : Term} {start : Value} :
      order = .onDemand → Evaluates order env target .nil → Evaluates order env base start →
      Evaluates order env (.recList motive target base step) start
  | ann {env : Env} {ty : Ty} {body : Term} {value : Value} :
      Evaluates order env body value → Evaluates order env (.ann ty body) value

/-- **A value applied to an argument** gives a result. -/
inductive Applies (order : Order) : Value → Value → Value → Prop where
  | closure {env : Env} {body : Term} {arg result : Value} :
      Evaluates order (arg :: env) body result → Applies order (.closure env body) arg result
  | stuck {neutral : Neutral} {arg : Value} :
      Applies order (.stuck neutral) arg (.stuck (.app neutral arg))

/-- **Recursion over a number**, from its target, base and step to its result: a successor applies
the step to the predecessor and then to the result for the predecessor. -/
inductive RecursNat (order : Order) : Ty → Value → Value → Value → Value → Prop where
  | zero {motive : Ty} {base step : Value} : RecursNat order motive .zero base step base
  | succ {motive : Ty} {pred base step stepped inner result : Value} :
      Applies order step pred stepped → RecursNat order motive pred base step inner →
      Applies order stepped inner result → RecursNat order motive (.succ pred) base step result
  | stuck {motive : Ty} {neutral : Neutral} {base step : Value} :
      RecursNat order motive (.stuck neutral) base step (.stuck (.recNat motive neutral base step))

/-- **Recursion over a list**: a cell applies the step to the head, to the tail and then to the
result for the tail. -/
inductive RecursList (order : Order) : Ty → Value → Value → Value → Value → Prop where
  | nil {motive : Ty} {base step : Value} : RecursList order motive .nil base step base
  | cons {motive : Ty} {head tail base step atHead atTail inner result : Value} :
      Applies order step head atHead → Applies order atHead tail atTail →
      RecursList order motive tail base step inner → Applies order atTail inner result →
      RecursList order motive (.cons head tail) base step result
  | stuck {motive : Ty} {neutral : Neutral} {base step : Value} :
      RecursList order motive (.stuck neutral) base step
        (.stuck (.recList motive neutral base step))

end

mutual

/-- **A value reads back to a term** at a type in a context: a value of a function type is opened
with a new variable, and any other value is read back constructor by constructor. -/
inductive ReadsBack : Context → Ty → Value → Term → Prop where
  | fn {ctx : Context} {dom cod : Ty} {value result : Value} {body : Term} :
      Applies .eager (value.weaken Weakening.fresh) (.ofIndex 0) result →
      ReadsBack (dom :: ctx) cod result body → ReadsBack ctx (.fn dom cod) value (.lam dom body)
  | stuck {ctx : Context} {ty other : Ty} {neutral : Neutral} {term : Term} :
      ty.arity = 0 → NeutralReadsBack ctx neutral term other →
      ReadsBack ctx ty (.stuck neutral) term
  | zero {ctx : Context} : ReadsBack ctx .nat .zero .zero
  | succ {ctx : Context} {value : Value} {term : Term} :
      ReadsBack ctx .nat value term → ReadsBack ctx .nat (.succ value) (.succ term)
  | atom {ctx : Context} {name : String} : ReadsBack ctx .atom (.atom name) (.atom name)
  | pair {ctx : Context} {fstTy sndTy : Ty} {first second : Value} {fst snd : Term} :
      ReadsBack ctx fstTy first fst → ReadsBack ctx sndTy second snd →
      ReadsBack ctx (.pair fstTy sndTy) (.pair first second) (.pair fst snd)
  | nil {ctx : Context} {elem : Ty} : ReadsBack ctx (.list elem) .nil (.nil elem)
  | cons {ctx : Context} {elem : Ty} {first rest : Value} {head tail : Term} :
      ReadsBack ctx elem first head → ReadsBack ctx (.list elem) rest tail →
      ReadsBack ctx (.list elem) (.cons first rest) (.cons head tail)

/-- **A neutral reads back to a term** and its type in a context. -/
inductive NeutralReadsBack : Context → Neutral → Term → Ty → Prop where
  | var {ctx : Context} {index : Nat} {ty : Ty} :
      ctx[index]? = some ty → NeutralReadsBack ctx (.var index) (.var index) ty
  | app {ctx : Context} {dom cod : Ty} {neutral : Neutral} {argument : Value} {fn arg : Term} :
      NeutralReadsBack ctx neutral fn (.fn dom cod) → ReadsBack ctx dom argument arg →
      NeutralReadsBack ctx (.app neutral argument) (.app fn arg) cod
  | recNat {ctx : Context} {motive ty : Ty} {neutral : Neutral} {start next : Value}
      {target base step : Term} :
      NeutralReadsBack ctx neutral target ty → ReadsBack ctx motive start base →
      ReadsBack ctx (Ty.natStep motive) next step →
      NeutralReadsBack ctx (.recNat motive neutral start next)
        (.recNat motive target base step) motive
  | car {ctx : Context} {fstTy sndTy : Ty} {neutral : Neutral} {operand : Term} :
      NeutralReadsBack ctx neutral operand (.pair fstTy sndTy) →
      NeutralReadsBack ctx (.car neutral) (.car operand) fstTy
  | cdr {ctx : Context} {fstTy sndTy : Ty} {neutral : Neutral} {operand : Term} :
      NeutralReadsBack ctx neutral operand (.pair fstTy sndTy) →
      NeutralReadsBack ctx (.cdr neutral) (.cdr operand) sndTy
  | recList {ctx : Context} {motive elem : Ty} {neutral : Neutral} {start next : Value}
      {target base step : Term} :
      NeutralReadsBack ctx neutral target (.list elem) → ReadsBack ctx motive start base →
      ReadsBack ctx (Ty.listStep elem motive) next step →
      NeutralReadsBack ctx (.recList motive neutral start next)
        (.recList motive target base step) motive

end

/-! ### The two orders -/

mutual

/-- **What the eager rules give, the rules on demand give too.** -/
theorem Evaluates.onDemand : ∀ {env : Env} {term : Term} {value : Value},
    Evaluates .eager env term value → Evaluates .onDemand env term value
  | _, _, _, .var found => .var found
  | _, _, _, .lam => .lam
  | _, _, _, .app fn arg applied => .app fn.onDemand arg.onDemand applied.onDemand
  | _, _, _, .atom => .atom
  | _, _, _, .zero => .zero
  | _, _, _, .succ pred => .succ pred.onDemand
  | _, _, _, .recNat target base step recurs =>
    .recNat target.onDemand base.onDemand step.onDemand recurs.onDemand
  | _, _, _, .recNatZero demand _ _ => by cases demand
  | _, _, _, .pair fst snd => .pair fst.onDemand snd.onDemand
  | _, _, _, .car operand => .car operand.onDemand
  | _, _, _, .carStuck operand => .carStuck operand.onDemand
  | _, _, _, .cdr operand => .cdr operand.onDemand
  | _, _, _, .cdrStuck operand => .cdrStuck operand.onDemand
  | _, _, _, .nil => .nil
  | _, _, _, .cons head tail => .cons head.onDemand tail.onDemand
  | _, _, _, .recList target base step recurs =>
    .recList target.onDemand base.onDemand step.onDemand recurs.onDemand
  | _, _, _, .recListNil demand _ _ => by cases demand
  | _, _, _, .ann body => .ann body.onDemand

theorem Applies.onDemand : ∀ {fn arg result : Value},
    Applies .eager fn arg result → Applies .onDemand fn arg result
  | _, _, _, .closure body => .closure body.onDemand
  | _, _, _, .stuck => .stuck

theorem RecursNat.onDemand : ∀ {motive : Ty} {target base step result : Value},
    RecursNat .eager motive target base step result →
    RecursNat .onDemand motive target base step result
  | _, _, _, _, _, .zero => .zero
  | _, _, _, _, _, .succ first inner second =>
    .succ first.onDemand inner.onDemand second.onDemand
  | _, _, _, _, _, .stuck => .stuck

theorem RecursList.onDemand : ∀ {motive : Ty} {target base step result : Value},
    RecursList .eager motive target base step result →
    RecursList .onDemand motive target base step result
  | _, _, _, _, _, .nil => .nil
  | _, _, _, _, _, .cons atHead atTail inner last =>
    .cons atHead.onDemand atTail.onDemand inner.onDemand last.onDemand
  | _, _, _, _, _, .stuck => .stuck

end

section Agree

variable {order order' : Order}

mutual

/-- **The rules give one value at most**, and no other value in the other order. -/
theorem Evaluates.agree : ∀ {env : Env} {term : Term} {value other : Value},
    Evaluates order env term value → Evaluates order' env term other → value = other
  | _, _, _, _, .var found, .var found' => Option.some.inj (found.symm.trans found')
  | _, _, _, _, .lam, .lam => rfl
  | _, _, _, _, .app fn arg applied, .app fn' arg' applied' => by
    cases fn.agree fn'
    cases arg.agree arg'
    exact applied.agree applied'
  | _, _, _, _, .atom, .atom => rfl
  | _, _, _, _, .zero, .zero => rfl
  | _, _, _, _, .succ pred, .succ pred' => congrArg Value.succ (pred.agree pred')
  | _, _, _, _, .recNat target base step recurs, .recNat target' base' step' recurs' => by
    cases target.agree target'
    cases base.agree base'
    cases step.agree step'
    exact recurs.agree recurs'
  | _, _, _, _, .recNat target base _ recurs, .recNatZero _ target' base' => by
    have same := base.agree base'
    cases target.agree target'
    cases recurs
    exact same
  | _, _, _, _, .recNatZero _ target base, .recNat target' base' _ recurs' => by
    have same := base.agree base'
    cases target.agree target'
    cases recurs'
    exact same
  | _, _, _, _, .recNatZero _ _ base, .recNatZero _ _ base' => base.agree base'
  | _, _, _, _, .pair fst snd, .pair fst' snd' => by
    rw [fst.agree fst', snd.agree snd']
  | _, _, _, _, .car operand, .car operand' => (Value.pair.inj (operand.agree operand')).1
  | _, _, _, _, .car operand, .carStuck operand' => by cases operand.agree operand'
  | _, _, _, _, .carStuck operand, .car operand' => by cases operand.agree operand'
  | _, _, _, _, .carStuck operand, .carStuck operand' => by
    cases operand.agree operand'
    rfl
  | _, _, _, _, .cdr operand, .cdr operand' => (Value.pair.inj (operand.agree operand')).2
  | _, _, _, _, .cdr operand, .cdrStuck operand' => by cases operand.agree operand'
  | _, _, _, _, .cdrStuck operand, .cdr operand' => by cases operand.agree operand'
  | _, _, _, _, .cdrStuck operand, .cdrStuck operand' => by
    cases operand.agree operand'
    rfl
  | _, _, _, _, .nil, .nil => rfl
  | _, _, _, _, .cons head tail, .cons head' tail' => by
    rw [head.agree head', tail.agree tail']
  | _, _, _, _, .recList target base step recurs, .recList target' base' step' recurs' => by
    cases target.agree target'
    cases base.agree base'
    cases step.agree step'
    exact recurs.agree recurs'
  | _, _, _, _, .recList target base _ recurs, .recListNil _ target' base' => by
    have same := base.agree base'
    cases target.agree target'
    cases recurs
    exact same
  | _, _, _, _, .recListNil _ target base, .recList target' base' _ recurs' => by
    have same := base.agree base'
    cases target.agree target'
    cases recurs'
    exact same
  | _, _, _, _, .recListNil _ _ base, .recListNil _ _ base' => base.agree base'
  | _, _, _, _, .ann body, .ann body' => body.agree body'

theorem Applies.agree : ∀ {fn arg result other : Value},
    Applies order fn arg result → Applies order' fn arg other → result = other
  | _, _, _, _, .closure body, .closure body' => body.agree body'
  | _, _, _, _, .stuck, .stuck => rfl

theorem RecursNat.agree : ∀ {motive : Ty} {target base step result other : Value},
    RecursNat order motive target base step result →
    RecursNat order' motive target base step other → result = other
  | _, _, _, _, _, _, .zero, .zero => rfl
  | _, _, _, _, _, _, .succ first inner second, .succ first' inner' second' => by
    cases first.agree first'
    cases inner.agree inner'
    exact second.agree second'
  | _, _, _, _, _, _, .stuck, .stuck => rfl

theorem RecursList.agree : ∀ {motive : Ty} {target base step result other : Value},
    RecursList order motive target base step result →
    RecursList order' motive target base step other → result = other
  | _, _, _, _, _, _, .nil, .nil => rfl
  | _, _, _, _, _, _, .cons atHead atTail inner last, .cons atHead' atTail' inner' last' => by
    cases atHead.agree atHead'
    cases atTail.agree atTail'
    cases inner.agree inner'
    exact last.agree last'
  | _, _, _, _, _, _, .stuck, .stuck => rfl

end

end Agree

/-! ### What the rules give is what runs end with -/

mutual

/-- **What the rules give for a term is its value.** -/
theorem Evaluates.runs : ∀ {env : Env} {term : Term} {value : Value},
    Evaluates .eager env term value → term.Evaluates env value
  | _, _, _, .var found => .var found
  | _, _, _, .lam => .lam _ _ _
  | _, _, _, .app fn arg applied => .app fn.runs arg.runs applied.runs
  | _, _, _, .atom => .atom _ _
  | _, _, _, .zero => .zero _
  | _, _, _, .succ pred => .succ pred.runs
  | _, _, _, .recNat target base step recurs =>
    .recNat target.runs base.runs step.runs recurs.runs
  | _, _, _, .recNatZero demand _ _ => by cases demand
  | _, _, _, .pair fst snd => .pair fst.runs snd.runs
  | _, _, _, .car operand => .car operand.runs rfl
  | _, _, _, .carStuck operand => .car operand.runs rfl
  | _, _, _, .cdr operand => .cdr operand.runs rfl
  | _, _, _, .cdrStuck operand => .cdr operand.runs rfl
  | _, _, _, .nil => .nil _ _
  | _, _, _, .cons head tail => .cons head.runs tail.runs
  | _, _, _, .recList target base step recurs =>
    .recList target.runs base.runs step.runs recurs.runs
  | _, _, _, .recListNil demand _ _ => by cases demand
  | _, _, _, .ann body => .ann _ body.runs

theorem Applies.runs : ∀ {fn arg result : Value},
    Applies .eager fn arg result → fn.Applies arg result
  | _, _, _, .closure body => .closure body.runs
  | _, _, _, .stuck => .stuck _ _

theorem RecursNat.runs : ∀ {motive : Ty} {target base step result : Value},
    RecursNat .eager motive target base step result → Value.RecursNat motive target base step result
  | _, _, _, _, _, .zero => .zero
  | _, _, _, _, _, .succ first inner second => .succ inner.runs first.runs second.runs
  | _, _, _, _, _, .stuck => .stuck _

theorem RecursList.runs : ∀ {motive : Ty} {target base step result : Value},
    RecursList .eager motive target base step result →
    Value.RecursList motive target base step result
  | _, _, _, _, _, .nil => .nil
  | _, _, _, _, _, .cons atHead atTail inner last =>
    .cons inner.runs atHead.runs atTail.runs last.runs
  | _, _, _, _, _, .stuck => .stuck _

end

mutual

/-- **What the rules give for a value is what it reads back to.** -/
theorem ReadsBack.runs : ∀ {ctx : Context} {ty : Ty} {value : Value} {term : Term},
    ReadsBack ctx ty value term → value.ReadsBack ctx ty term
  | _, _, _, _, .fn opened body => .fn opened.runs body.runs
  | _, _, _, _, .stuck plain neutral => .stuck plain neutral.runs
  | _, _, _, _, .zero => .zero _
  | _, _, _, _, .succ pred => .succ pred.runs
  | _, _, _, _, .atom => .atom _ _
  | _, _, _, _, .pair fst snd => .pair fst.runs snd.runs
  | _, _, _, _, .nil => .nil _ _
  | _, _, _, _, .cons head tail => .cons head.runs tail.runs

theorem NeutralReadsBack.runs : ∀ {ctx : Context} {neutral : Neutral} {term : Term} {ty : Ty},
    NeutralReadsBack ctx neutral term ty → neutral.ReadsBack ctx term ty
  | _, _, _, _, .var found => .var found
  | _, _, _, _, .app fn arg => .app fn.runs arg.runs
  | _, _, _, _, .recNat target base step => .recNat target.runs base.runs step.runs
  | _, _, _, _, .car operand => .car operand.runs
  | _, _, _, _, .cdr operand => .cdr operand.runs
  | _, _, _, _, .recList target base step => .recList target.runs base.runs step.runs

end

end Rules

/-! ### What runs end with is given by the rules -/

/-- **An application by the rules.** -/
def Application.ByRules (apply : Application) : Prop :=
  ∀ fn arg, EndsOnly (Rules.Applies .eager fn arg) (apply fn arg)

section ByRules

variable {apply : Application} (byRules : apply.ByRules)

include byRules

/-- Recursion over a number goes by the rules, constructor by constructor. -/
theorem Value.recNat_byRules (motive : Ty) (base step : Value) : (target : Value) →
    EndsOnly (Rules.RecursNat .eager motive target base step) (target.recNat apply motive base step)
  | .succ pred => by
    rw [Value.recNat_succ]
    refine .bind (Value.recNat_byRules motive base step pred) fun inner recurs => ?_
    refine .bind (byRules step pred) fun stepped first => ?_
    intro result run
    exact .succ first recurs (byRules stepped inner result run)
  | .zero => .ok .zero
  | .stuck neutral => .ok .stuck
  | .closure _ _ => .error _
  | .pair _ _ => .error _
  | .nil => .error _
  | .cons _ _ => .error _
  | .atom _ => .error _

/-- Recursion over a list goes by the rules, constructor by constructor. -/
theorem Value.recList_byRules (motive : Ty) (base step : Value) : (target : Value) →
    EndsOnly (Rules.RecursList .eager motive target base step)
      (target.recList apply motive base step)
  | .cons head tail => by
    rw [Value.recList_cons]
    refine .bind (Value.recList_byRules motive base step tail) fun inner recurs => ?_
    refine .bind (byRules step head) fun atHead first => ?_
    refine .bind (byRules atHead tail) fun atTail second => ?_
    intro result run
    exact .cons first second recurs (byRules atTail inner result run)
  | .nil => .ok .nil
  | .stuck neutral => .ok .stuck
  | .closure _ _ => .error _
  | .zero => .error _
  | .succ _ => .error _
  | .pair _ _ => .error _
  | .atom _ => .error _

/-- Evaluation goes by the rules when the application that it uses does. -/
theorem Term.evalWith_byRules (env : Env) (term : Term) :
    EndsOnly (Rules.Evaluates .eager env term) (term.evalWith apply env) := by
  induction term with
  | var index =>
    rw [Term.evalWith]
    cases found : env[index]? with
    | none => exact .error _
    | some value => exact .ok (.var found)
  | lam dom body _ => exact .ok .lam
  | app fn arg fnRules argRules =>
    refine .bind fnRules fun function fnEval => .bind argRules fun argument argEval => ?_
    intro result run
    exact .app fnEval argEval (byRules function argument result run)
  | atom name => exact .ok .atom
  | zero => exact .ok .zero
  | succ pred predRules => exact .bind predRules fun value predEval => .ok (.succ predEval)
  | recNat motive target base step targetRules baseRules stepRules =>
    refine .bind targetRules fun number targetEval => ?_
    refine .bind baseRules fun start baseEval => .bind stepRules fun next stepEval => ?_
    intro result run
    have recurs := Value.recNat_byRules byRules motive start next number result run
    exact .recNat targetEval baseEval stepEval recurs
  | pair fst snd fstRules sndRules =>
    refine .bind fstRules fun first fstEval => .bind sndRules fun second sndEval => ?_
    exact .ok (.pair fstEval sndEval)
  | car operand operandRules =>
    refine .bind operandRules fun value operandEval => ?_
    cases value with
    | pair first second => exact .ok (.car operandEval)
    | stuck neutral => exact .ok (.carStuck operandEval)
    | _ => exact .error _
  | cdr operand operandRules =>
    refine .bind operandRules fun value operandEval => ?_
    cases value with
    | pair first second => exact .ok (.cdr operandEval)
    | stuck neutral => exact .ok (.cdrStuck operandEval)
    | _ => exact .error _
  | nil elem => exact .ok .nil
  | cons head tail headRules tailRules =>
    refine .bind tailRules fun rest tailEval => .bind headRules fun first headEval => ?_
    exact .ok (.cons headEval tailEval)
  | recList motive target base step targetRules baseRules stepRules =>
    refine .bind targetRules fun items targetEval => ?_
    refine .bind baseRules fun start baseEval => .bind stepRules fun next stepEval => ?_
    intro result run
    have recurs := Value.recList_byRules byRules motive start next items result run
    exact .recList targetEval baseEval stepEval recurs
  | ann ty body bodyRules => exact fun value run => .ann (bodyRules value run)

end ByRules

/-- **Application goes by the rules**, by induction on how deep applications may nest. -/
theorem Value.apply_byRules (fuel : Nat) : Application.ByRules (Value.apply fuel) := by
  induction fuel with
  | zero =>
    intro fn arg
    cases fn with
    | stuck neutral => exact .ok .stuck
    | _ => exact .error _
  | succ fuel ih =>
    intro fn arg
    cases fn with
    | closure env body =>
      intro result run
      exact .closure (Term.evalWith_byRules ih (arg :: env) body result run)
    | stuck neutral => exact .ok .stuck
    | _ => exact .error _

/-- **Evaluation goes by the rules.** -/
theorem Term.eval_byRules (fuel : Nat) (env : Env) (term : Term) :
    EndsOnly (Rules.Evaluates .eager env term) (term.eval fuel env) :=
  Term.evalWith_byRules (Value.apply_byRules fuel) env term

/-- **With so much fuel, values are read back by the rules.** -/
def ReadsByRules (fuel : Nat) : Prop :=
  ∀ ctx ty value, EndsOnly (Rules.ReadsBack ctx ty value) (readBack fuel ctx ty value)

/-- With so much fuel, neutrals are read back by the rules. -/
def ReadsNeutralByRules (fuel : Nat) : Prop :=
  ∀ ctx neutral, EndsOnly (fun found => Rules.NeutralReadsBack ctx neutral found.1 found.2)
    (readBackNeutral fuel ctx neutral)

section Reading

variable {fuel : Nat} {ctx : Context} {elem : Ty} (reads : ReadsByRules fuel)
  (readsNeutral : ReadsNeutralByRules fuel)

include reads

/-- A row of successors is read back by the rules, one successor at a time. -/
theorem ReadsByRules.succ (pred : Value) :
    EndsOnly (Rules.ReadsBack ctx .nat (.succ pred))
      (readBack (fuel + 1) ctx .nat (.succ pred)) := by
  induction ([] : List Value), pred using Value.predecessors.induct with
  | case1 outer inner ih =>
    rw [Value.readBack_succ_succ]
    exact .bind ih fun read rest => .ok (.succ rest)
  | case2 outer pred ends =>
    rcases Value.predecessors_cases pred with ⟨inner, same⟩ | last
    · exact absurd same (ends inner)
    · rw [Value.readBack_succ_last fuel ctx last]
      exact .bind (reads ctx .nat pred) fun read rest => .ok (.succ rest)

/-- A row of cells is read back by the rules, one cell at a time. -/
theorem ReadsByRules.cons (head tail : Value) :
    EndsOnly (Rules.ReadsBack ctx (.list elem) (.cons head tail))
      (readBack (fuel + 1) ctx (.list elem) (.cons head tail)) := by
  have readHead := reads ctx elem
  induction ([] : List (Value × Value)), tail using Value.cells.induct generalizing head with
  | case1 outer second rest ih =>
    rw [Value.readBack_cons_cons]
    refine .bind (ih second) fun read readTail => ?_
    exact .bind (readHead head) fun first readFirst => .ok (.cons readFirst readTail)
  | case2 outer rest ends =>
    rcases Value.cells_cases rest with ⟨second, others, same⟩ | last
    · exact absurd same (ends second others)
    · rw [Value.readBack_cons_last fuel ctx elem head last]
      refine .bind (reads ctx (.list elem) rest) fun read readTail => ?_
      exact .bind (readHead head) fun first readFirst => .ok (.cons readFirst readTail)

omit reads in
include readsNeutral in
/-- A stuck value of a type that is no function type. -/
theorem ReadsNeutralByRules.stuck {ty : Ty} (plain : ty.arity = 0) (neutral : Neutral) :
    EndsOnly (Rules.ReadsBack ctx ty (.stuck neutral))
      (do return (← readBackNeutral fuel ctx neutral).1) :=
  .bind (readsNeutral ctx neutral) fun _ read => .ok (.stuck plain read)

include readsNeutral

/-- One call of reading a value back. -/
theorem ReadsByRules.step : ReadsByRules (fuel + 1) := by
  intro ctx ty value
  cases ty with
  | fn dom cod =>
    refine .bind (Value.apply_byRules fuel _ _) fun result opened => ?_
    exact .bind (reads (dom :: ctx) cod result) fun body read => .ok (.fn opened read)
  | nat =>
    cases value with
    | stuck neutral => exact readsNeutral.stuck rfl neutral
    | zero => exact .ok .zero
    | succ pred => exact reads.succ pred
    | _ => exact .error _
  | atom =>
    cases value with
    | stuck neutral => exact readsNeutral.stuck rfl neutral
    | atom name => exact .ok .atom
    | _ => exact .error _
  | pair fstTy sndTy =>
    cases value with
    | stuck neutral => exact readsNeutral.stuck rfl neutral
    | pair fst snd =>
      refine .bind (reads ctx fstTy fst) fun first readFst => ?_
      exact .bind (reads ctx sndTy snd) fun second readSnd => .ok (.pair readFst readSnd)
    | _ => exact .error _
  | list elem =>
    cases value with
    | stuck neutral => exact readsNeutral.stuck rfl neutral
    | nil => exact .ok .nil
    | cons head tail => exact reads.cons head tail
    | _ => exact .error _

/-- One call of reading a neutral back. -/
theorem ReadsNeutralByRules.step : ReadsNeutralByRules (fuel + 1) := by
  intro ctx neutral
  cases neutral with
  | var index =>
    rw [readBackNeutral]
    by_cases negative : index < 0
    · rw [if_pos negative]
      exact .error _
    obtain ⟨place, rfl⟩ := Int.eq_ofNat_of_zero_le (Int.not_lt.mp negative)
    rw [if_neg negative, Int.toNat_natCast]
    cases found : ctx[place]? with
    | none => exact .error _
    | some ty => exact .ok (.var found)
  | app fn arg =>
    refine .bind (readsNeutral ctx fn) ?_
    rintro ⟨function, ty⟩ readFn
    cases ty with
    | fn dom cod =>
      exact .bind (reads ctx dom arg) fun argument readArg => .ok (.app readFn readArg)
    | _ => exact .error _
  | recNat motive target base step =>
    refine .bind (readsNeutral ctx target) fun number readTarget => ?_
    refine .bind (reads ctx motive base) fun start readBase => ?_
    refine .bind (reads ctx (Ty.natStep motive) step) fun next readStep => ?_
    exact .ok (.recNat readTarget readBase readStep)
  | car operand =>
    refine .bind (readsNeutral ctx operand) ?_
    rintro ⟨both, ty⟩ readBoth
    cases ty with
    | pair fst snd => exact .ok (.car readBoth)
    | _ => exact .error _
  | cdr operand =>
    refine .bind (readsNeutral ctx operand) ?_
    rintro ⟨both, ty⟩ readBoth
    cases ty with
    | pair fst snd => exact .ok (.cdr readBoth)
    | _ => exact .error _
  | recList motive target base step =>
    refine .bind (readsNeutral ctx target) ?_
    rintro ⟨items, ty⟩ readTarget
    cases ty with
    | list elem =>
      refine .bind (reads ctx motive base) fun start readBase => ?_
      refine .bind (reads ctx (Ty.listStep elem motive) step) fun next readStep => ?_
      exact .ok (.recList readTarget readBase readStep)
    | _ => exact .error _

end Reading

/-- **Reading back goes by the rules**, by induction on the fuel. -/
theorem readBack_byRules (fuel : Nat) : ReadsByRules fuel ∧ ReadsNeutralByRules fuel := by
  induction fuel with
  | zero => exact ⟨fun _ _ _ => .error _, fun _ _ => .error _⟩
  | succ fuel ih => exact ⟨ih.1.step ih.2, ReadsNeutralByRules.step ih.1 ih.2⟩

/-! ### Runs and rules -/

/-- **Evaluation is what the rules say.** -/
theorem Term.evaluates_iff (env : Env) (term : Term) (value : Value) :
    (term.Evaluates env value ↔ Rules.Evaluates .eager env term value) ∧
      ((∃ fuel, term.eval fuel env = .ok value) ↔ Rules.Evaluates .eager env term value) :=
  Yields.iff_of_endsOnly (fun fuel => Term.eval_byRules fuel env term)
    (fun _ rules => rules.runs) value

/-- **Where evaluation ends**, the rules on demand give its value and no other. -/
theorem Term.Evaluates.onDemand_iff {env : Env} {term : Term} {value : Value}
    (evaluates : term.Evaluates env value) (other : Value) :
    Rules.Evaluates .onDemand env term other ↔ other = value := by
  have eager := (Term.evaluates_iff env term value).1.mp evaluates
  constructor
  · intro rules
    exact rules.agree eager
  · rintro rfl
    exact eager.onDemand

/-- **A term of a type is evaluated as the rules on demand say**: its evaluation ends. -/
theorem Term.HasType.evaluates_iff_onDemand {ctx entries : Context} {env : Env} {term : Term}
    {ty : Ty} (typed : term.HasType entries ty) (envTyped : Env.HasType ctx env entries)
    (value : Value) : term.Evaluates env value ↔ Rules.Evaluates .onDemand env term value := by
  obtain ⟨found, _, evaluates, _⟩ := typed.total envTyped
  constructor
  · intro ends
    exact (ends.onDemand_iff value).mpr rfl
  · intro rules
    rw [(evaluates.onDemand_iff value).mp rules]
    exact evaluates

namespace Value

variable {motive : Ty} {base step result : Value}

theorem recursNat_iff {target : Value} :
    RecursNat motive target base step result ↔
      Rules.RecursNat .eager motive target base step result :=
  (Yields.iff_of_endsOnly
    (fun fuel => recNat_byRules (apply_byRules fuel) motive base step target)
    (fun _ rules => rules.runs) result).1

theorem recursList_iff {target : Value} :
    RecursList motive target base step result ↔
      Rules.RecursList .eager motive target base step result :=
  (Yields.iff_of_endsOnly
    (fun fuel => recList_byRules (apply_byRules fuel) motive base step target)
    (fun _ rules => rules.runs) result).1

/-- Recursion over what is stuck is stuck. -/
theorem recursNat_stuck_iff {neutral : Neutral} :
    RecursNat motive (.stuck neutral) base step result ↔
      result = .stuck (.recNat motive neutral base step) := by
  constructor
  · intro recurs
    cases recursNat_iff.mp recurs
    rfl
  · rintro rfl
    exact .stuck neutral

theorem recursList_stuck_iff {neutral : Neutral} :
    RecursList motive (.stuck neutral) base step result ↔
      result = .stuck (.recList motive neutral base step) := by
  constructor
  · intro recurs
    cases recursList_iff.mp recurs
    rfl
  · rintro rfl
    exact .stuck neutral

/-- **Recursion over a successor** applies the step to the predecessor and then to the result for
it. -/
theorem recursNat_succ_iff {pred : Value} :
    RecursNat motive (.succ pred) base step result ↔
      ∃ stepped inner, Applies step pred stepped ∧ RecursNat motive pred base step inner ∧
        Applies stepped inner result := by
  constructor
  · intro recurs
    cases recursNat_iff.mp recurs with
    | succ first inner second => exact ⟨_, _, first.runs, inner.runs, second.runs⟩
  · rintro ⟨stepped, inner, first, recurs, second⟩
    exact .succ recurs first second

/-- **Recursion over a cell** applies the step to the head, to the tail and then to the result for
the tail. -/
theorem recursList_cons_iff {head tail : Value} :
    RecursList motive (.cons head tail) base step result ↔
      ∃ atHead atTail inner, Applies step head atHead ∧ Applies atHead tail atTail ∧
        RecursList motive tail base step inner ∧ Applies atTail inner result := by
  constructor
  · intro recurs
    cases recursList_iff.mp recurs with
    | cons first second inner third =>
      exact ⟨_, _, _, first.runs, second.runs, inner.runs, third.runs⟩
  · rintro ⟨atHead, atTail, inner, first, second, recurs, third⟩
    exact .cons recurs first second third

/-- **Reading back is what the rules say.** -/
theorem readsBack_iff {ctx : Context} {ty : Ty} {value : Value} {term : Term} :
    value.ReadsBack ctx ty term ↔ Rules.ReadsBack ctx ty value term :=
  (Yields.iff_of_endsOnly (fun fuel => (readBack_byRules fuel).1 ctx ty value)
    (fun _ rules => rules.runs) term).1

end Value

theorem Neutral.readsBack_iff {ctx : Context} {neutral : Neutral} {term : Term} {ty : Ty} :
    neutral.ReadsBack ctx term ty ↔ Rules.NeutralReadsBack ctx neutral term ty :=
  (Yields.iff_of_endsOnly (fun fuel => (readBack_byRules fuel).2 ctx neutral)
    (fun _ rules => rules.runs) (term, ty)).1

/-- A row of successors is evaluated in one go, from what it ends in. -/
theorem Term.eval_succs (fuel : Nat) (env : Env) (count : Nat) (inner : Term) :
    (Term.succs count inner).eval fuel env = (do
      return Value.succs count (← inner.eval fuel env)) := by
  induction count with
  | zero => exact (bind_pure _).symm
  | succ count ih =>
    have outermost : (Term.succs (count + 1) inner).eval fuel env = (do
        return .succ (← (Term.succs count inner).eval fuel env)) := rfl
    rw [outermost, ih]
    cases inner.eval fuel env <;> rfl

/-- A row of cells is evaluated in one go, from what it ends in back to the first head. -/
theorem Term.eval_cells (fuel : Nat) (env : Env) (heads : List Term) (last : Term) :
    (heads.foldr Term.cons last).eval fuel env = (do
      let rest ← last.eval fuel env
      heads.foldrM (fun head rest => do return Value.cons (← head.eval fuel env) rest) rest) := by
  induction heads with
  | nil => exact (bind_pure _).symm
  | cons head heads ih =>
    have outermost : ((head :: heads).foldr Term.cons last).eval fuel env = (do
        let rest ← (heads.foldr Term.cons last).eval fuel env
        return Value.cons (← head.eval fuel env) rest) := rfl
    rw [outermost, ih, bind_assoc]
    simp only [List.foldrM_cons]

/-- **A failing step that no recursion uses.** The rules on demand give the base, where evaluation
fails in the step. -/
theorem unused_step_fails :
    let term : Term := .recNat .nat .zero .zero (.car .zero)
    Rules.Evaluates .onDemand [] term .zero ∧ ¬ ∃ fuel value, term.eval fuel [] = .ok value := by
  refine ⟨.recNatZero rfl .zero .zero, ?_⟩
  rintro ⟨fuel, value, run⟩
  cases run

/-- **Evaluation and reading back follow the rules** that take one constructor at a time, in every
environment and for terms and values with or without a type. Evaluation ends with a value exactly
when the eager rules give that value, and recursion over values and reading back do likewise. The
rules on demand give no other value where evaluation ends, and it does end on terms of a type in
environments of their types. Recursion over a successor or a cell is one step from the result for
what is inside, down to an end that may be stuck; and rows of constructors in a term are evaluated
in one go, from their ends. -/
theorem evaluation_follows_rules :
    (∀ (env : Env) (term : Term) (value : Value),
      (term.Evaluates env value ↔ Rules.Evaluates .eager env term value) ∧
      ((∃ fuel, term.eval fuel env = .ok value) ↔ Rules.Evaluates .eager env term value)) ∧
    (∀ (env : Env) (term : Term) (value other : Value), term.Evaluates env value →
      (Rules.Evaluates .onDemand env term other ↔ other = value)) ∧
    (∀ (ctx entries : Context) (env : Env) (term : Term) (ty : Ty) (value : Value),
      Env.HasType ctx env entries → term.infer entries = .ok ty →
      (term.Evaluates env value ↔ Rules.Evaluates .onDemand env term value)) ∧
    (∀ (motive : Ty) (base step result : Value),
      (∀ target, Value.RecursNat motive target base step result ↔
        Rules.RecursNat .eager motive target base step result) ∧
      (∀ pred, Value.RecursNat motive (.succ pred) base step result ↔
        ∃ stepped inner, Value.Applies step pred stepped ∧
          Value.RecursNat motive pred base step inner ∧ Value.Applies stepped inner result) ∧
      (∀ neutral, Value.RecursNat motive (.stuck neutral) base step result ↔
        result = .stuck (.recNat motive neutral base step))) ∧
    (∀ (motive : Ty) (base step result : Value),
      (∀ target, Value.RecursList motive target base step result ↔
        Rules.RecursList .eager motive target base step result) ∧
      (∀ head tail, Value.RecursList motive (.cons head tail) base step result ↔
        ∃ atHead atTail inner, Value.Applies step head atHead ∧ Value.Applies atHead tail atTail ∧
          Value.RecursList motive tail base step inner ∧ Value.Applies atTail inner result) ∧
      (∀ neutral, Value.RecursList motive (.stuck neutral) base step result ↔
        result = .stuck (.recList motive neutral base step))) ∧
    (∀ (ctx : Context) (ty : Ty) (value : Value) (term : Term),
      value.ReadsBack ctx ty term ↔ Rules.ReadsBack ctx ty value term) ∧
    (∀ (ctx : Context) (neutral : Neutral) (term : Term) (ty : Ty),
      neutral.ReadsBack ctx term ty ↔ Rules.NeutralReadsBack ctx neutral term ty) ∧
    (∀ (fuel : Nat) (env : Env) (count : Nat) (inner : Term),
      (Term.succs count inner).eval fuel env = (do
        return Value.succs count (← inner.eval fuel env))) ∧
    (∀ (fuel : Nat) (env : Env) (heads : List Term) (last : Term),
      (heads.foldr Term.cons last).eval fuel env = (do
        let rest ← last.eval fuel env
        heads.foldrM (fun head rest => do return Value.cons (← head.eval fuel env) rest)
          rest)) := by
  refine ⟨Term.evaluates_iff, ?_, ?_, ?_, ?_, ?_, ?_, Term.eval_succs, Term.eval_cells⟩
  · intro env term value other evaluates
    exact evaluates.onDemand_iff other
  · intro ctx entries env term ty value envTyped inferred
    exact (Term.HasType.of_infer_eq inferred).evaluates_iff_onDemand envTyped value
  · intro motive base step result
    exact ⟨fun _ => Value.recursNat_iff, fun _ => Value.recursNat_succ_iff,
      fun _ => Value.recursNat_stuck_iff⟩
  · intro motive base step result
    exact ⟨fun _ => Value.recursList_iff, fun _ _ => Value.recursList_cons_iff,
      fun _ => Value.recursList_stuck_iff⟩
  · intro ctx ty value term
    exact Value.readsBack_iff
  · intro ctx neutral term ty
    exact Neutral.readsBack_iff

/-- Recursion with a variable for its base and for its step. Over an empty list a derivation that
leaves the step alone gives the value. Over two cells in front of a variable the step is applied to
the last cell first, to the recursion that is stuck on the variable, and then to the first cell. In
both cases nothing else is derived. -/
theorem evaluation_follows_rules_at_empty_and_stuck_list :
    let ctx : Context := [.nat, Ty.listStep .atom .nat, .list .atom]
    let env : Env := [.ofIndex 0, .ofIndex 1, .ofIndex 2]
    let empty : Term := .recList .nat (.nil .atom) (.var 0) (.var 1)
    let stuck : Term :=
      .recList .nat (.cons (.atom "a") (.cons (.atom "b") (.var 2))) (.var 0) (.var 1)
    let applied (head tail result : Value) : Value :=
      .stuck (.app (.app (.app (.var 1) head) tail) result)
    let last : Value := .ofIndex 2
    let result : Value := applied (.atom "a") (.cons (.atom "b") last)
      (applied (.atom "b") last (.stuck (.recList .nat (.var 2) (.ofIndex 0) (.ofIndex 1))))
    (empty.Evaluates env (.ofIndex 0) ∧ empty.infer ctx = .ok .nat ∧
      ∀ other, Rules.Evaluates .onDemand env empty other ↔ other = .ofIndex 0) ∧
    (stuck.Evaluates env result ∧ stuck.infer ctx = .ok .nat ∧
      ∀ other, Rules.Evaluates .onDemand env stuck other ↔ other = result) := by
  intro ctx env empty stuck applied last result
  obtain ⟨_, agree, typed, _⟩ := evaluation_follows_rules
  have envTyped : Env.HasType ctx env ctx :=
    .cons (.stuck (.var rfl)) (.cons (.stuck (.var rfl)) (.cons (.stuck (.var rfl)) .nil))
  have atEmpty : Rules.Evaluates .onDemand env empty (.ofIndex 0) :=
    .recListNil rfl .nil (.var rfl)
  have target : Rules.Evaluates .onDemand env (.cons (.atom "a") (.cons (.atom "b") (.var 2)))
      (.cons (.atom "a") (.cons (.atom "b") last)) :=
    .cons .atom (.cons .atom (.var rfl))
  have recurs : Rules.RecursList .onDemand .nat (.cons (.atom "a") (.cons (.atom "b") last))
      (.ofIndex 0) (.ofIndex 1) result :=
    .cons .stuck .stuck (.cons .stuck .stuck .stuck .stuck) .stuck
  have atStuck : Rules.Evaluates .onDemand env stuck result :=
    .recList target (.var rfl) (.var rfl) recurs
  have emptyEnds := (typed _ _ env empty .nat _ envTyped rfl).mpr atEmpty
  have stuckEnds := (typed _ _ env stuck .nat _ envTyped rfl).mpr atStuck
  exact ⟨⟨emptyEnds, rfl, fun other => agree env empty _ other emptyEnds⟩,
    ⟨stuckEnds, rfl, fun other => agree env stuck _ other stuckEnds⟩⟩

end EtaLong
