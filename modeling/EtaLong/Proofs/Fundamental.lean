/-
**What a term evaluates to realizes it.**

In two environments whose values realize the same terms, a term evaluates to values that realize
the term with those terms substituted. More than that holds: the two environments may be given two
terms, as long as they are convertible. Each rule of conversion compares two evaluations; for the
computation rule of functions one side evaluates a body where its argument is bound, the other the
body with the argument substituted.

* `Value.Realize.apply`, `.car`, `.cdr`, `.recNat`, `.recList`: the operations on values;
* `Env.Realize`: environments that realize a substitution;
* `Term.Meet.of_replaces`: a term in one environment and an instance of it in another;
* `Term.HasType.meet`, `Term.Convertible.meet`: the fundamental theorem.
-/

import EtaLong.Proofs.Realizability

namespace EtaLong

open Term (Convertible Supply)

/-! ### Operations on values -/

namespace Value.Realize

variable {ctx : Context} {motive elem fstTy sndTy : Ty} {term base step : Term}
  {left right leftBase rightBase leftStep rightStep : Value}

/-- Functions applied in the context itself. -/
theorem apply {dom cod : Ty} {arg : Term} {leftArg rightArg : Value}
    (fns : Realize ctx (.fn dom cod) term left right)
    (args : Realize ctx dom arg leftArg rightArg) :
    ∃ leftResult rightResult, Applies left leftArg leftResult ∧
      Applies right rightArg rightResult ∧
      Realize ctx cod (.app term arg) leftResult rightResult := by
  have applied := fns.2 [] arg leftArg rightArg args
  rw [List.length_nil, Value.weaken_front_zero, Value.weaken_front_zero,
    Term.weaken_front_zero] at applied
  exact applied

theorem car (operands : Realize ctx (.pair fstTy sndTy) term left right) :
    ∃ leftResult rightResult, left.car = .ok leftResult ∧ right.car = .ok rightResult ∧
      Realize ctx fstTy (.car term) leftResult rightResult := by
  cases operands with
  | pair conv fsts snds =>
    have taken := conv.car.trans (.carPair fsts.typed snds.typed)
    exact ⟨_, _, rfl, rfl, fsts.convert taken.symm⟩
  | stuck neutrals =>
    exact ⟨_, _, rfl, rfl, Neutral.Realize.reflect fun added => (neutrals added).car⟩

theorem cdr (operands : Realize ctx (.pair fstTy sndTy) term left right) :
    ∃ leftResult rightResult, left.cdr = .ok leftResult ∧ right.cdr = .ok rightResult ∧
      Realize ctx sndTy (.cdr term) leftResult rightResult := by
  cases operands with
  | pair conv fsts snds =>
    have taken := conv.cdr.trans (.cdrPair fsts.typed snds.typed)
    exact ⟨_, _, rfl, rfl, snds.convert taken.symm⟩
  | stuck neutrals =>
    exact ⟨_, _, rfl, rfl, Neutral.Realize.reflect fun added => (neutrals added).cdr⟩

/-- **Recursion over realized numbers**, one constructor of the number at a time. -/
theorem recNat (targets : Realize ctx .nat term left right)
    (bases : Realize ctx motive base leftBase rightBase)
    (steps : Realize ctx (Ty.natStep motive) step leftStep rightStep) :
    ∃ leftResult rightResult, RecursNat motive left leftBase leftStep leftResult ∧
      RecursNat motive right rightBase rightStep rightResult ∧
      Realize ctx motive (.recNat motive term base step) leftResult rightResult := by
  have baseRefl := Convertible.refl bases.typed
  have stepRefl := Convertible.refl steps.typed
  change RealizeNumber ctx term left right at targets
  induction targets with
  | zero conv =>
    have computed := (conv.recNat baseRefl stepRefl).trans (.recNatZero bases.typed steps.typed)
    exact ⟨_, _, .zero, .zero, bases.convert computed.symm⟩
  | @succ term pred left right conv preds ih =>
    obtain ⟨leftInner, rightInner, leftRecurs, rightRecurs, inners⟩ := ih
    have preds : Realize ctx .nat pred left right := preds
    obtain ⟨leftFirst, rightFirst, leftOnce, rightOnce, firsts⟩ := steps.apply preds
    obtain ⟨leftResult, rightResult, leftTwice, rightTwice, results⟩ := firsts.apply inners
    have computed := (conv.recNat baseRefl stepRefl).trans
      (.recNatSucc preds.typed bases.typed steps.typed)
    exact ⟨leftResult, rightResult, leftRecurs.succ leftOnce leftTwice,
      rightRecurs.succ rightOnce rightTwice, results.convert computed.symm⟩
  | stuck neutrals =>
    refine ⟨_, _, .stuck _, .stuck _, Neutral.Realize.reflect fun added => ?_⟩
    exact (neutrals added).recNat (bases.weaken added).reify (steps.weaken added).reify

/-- **Recursion over realized lists**, one cell at a time. -/
theorem recList (targets : Realize ctx (.list elem) term left right)
    (bases : Realize ctx motive base leftBase rightBase)
    (steps : Realize ctx (Ty.listStep elem motive) step leftStep rightStep) :
    ∃ leftResult rightResult, RecursList motive left leftBase leftStep leftResult ∧
      RecursList motive right rightBase rightStep rightResult ∧
      Realize ctx motive (.recList motive term base step) leftResult rightResult := by
  have baseRefl := Convertible.refl bases.typed
  have stepRefl := Convertible.refl steps.typed
  change RealizeList ctx elem (Realize ctx elem) term left right at targets
  induction targets with
  | nil conv =>
    have computed := (conv.recList baseRefl stepRefl).trans (.recListNil bases.typed steps.typed)
    exact ⟨_, _, .nil, .nil, bases.convert computed.symm⟩
  | @cons term head tail leftHead rightHead left right conv heads tails ih =>
    obtain ⟨leftInner, rightInner, leftRecurs, rightRecurs, inners⟩ := ih
    have tails : Realize ctx (.list elem) tail left right := tails
    obtain ⟨leftFirst, rightFirst, leftOnce, rightOnce, firsts⟩ := steps.apply heads
    obtain ⟨leftSecond, rightSecond, leftTwice, rightTwice, seconds⟩ := firsts.apply tails
    obtain ⟨leftResult, rightResult, leftLast, rightLast, results⟩ := seconds.apply inners
    have computed := (conv.recList baseRefl stepRefl).trans
      (.recListCons heads.typed tails.typed bases.typed steps.typed)
    exact ⟨leftResult, rightResult, leftRecurs.cons leftOnce leftTwice leftLast,
      rightRecurs.cons rightOnce rightTwice rightLast, results.convert computed.symm⟩
  | stuck neutrals =>
    refine ⟨_, _, .stuck _, .stuck _, Neutral.Realize.reflect fun added => ?_⟩
    exact (neutrals added).recList (bases.weaken added).reify (steps.weaken added).reify

end Value.Realize

/-! ### Environments -/

/-- **Two environments realize terms for the entries of a context.** -/
def Env.Realize (ctx entries : Context) (values : Nat → Term) (env env' : Env) : Prop :=
  ∀ index ty, entries[index]? = some ty → ∃ left right,
    env[index]? = some left ∧ env'[index]? = some right ∧
    Value.Realize ctx ty (values index) left right

namespace Env.Realize

variable {ctx entries : Context} {values : Nat → Term} {env env' : Env}

theorem supply (envs : Env.Realize ctx entries values env env') : Supply ctx values entries := by
  intro index ty found
  obtain ⟨_, _, _, _, real⟩ := envs index ty found
  exact real.typed

theorem symm (envs : Env.Realize ctx entries values env env') :
    Env.Realize ctx entries values env' env := by
  intro index ty found
  obtain ⟨left, right, leftFound, rightFound, real⟩ := envs index ty found
  exact ⟨right, left, rightFound, leftFound, real.symm⟩

/-- The second environment beside itself. -/
theorem second (envs : Env.Realize ctx entries values env env') :
    Env.Realize ctx entries values env' env' := by
  intro index ty found
  obtain ⟨left, right, _, rightFound, real⟩ := envs index ty found
  exact ⟨right, right, rightFound, rightFound, real.symm.trans real⟩

theorem weaken (envs : Env.Realize ctx entries values env env') (added : Context) :
    Env.Realize (added ++ ctx) entries (fun index => (values index).weaken (.front added.length))
      (env.weaken (.front added.length)) (env'.weaken (.front added.length)) := by
  intro index ty found
  obtain ⟨left, right, leftFound, rightFound, real⟩ := envs index ty found
  refine ⟨left.weaken _, right.weaken _, ?_, ?_, real.weaken added⟩
  · rw [Env.getElem?_weaken, leftFound, Option.map_some]
  · rw [Env.getElem?_weaken, rightFound, Option.map_some]

/-- One more value in front. -/
theorem push {ty : Ty} {term : Term} {left right : Value}
    (envs : Env.Realize ctx entries values env env') (real : Value.Realize ctx ty term left right) :
    Env.Realize ctx (ty :: entries) (Term.push term values) (left :: env) (right :: env') := by
  intro index entry found
  cases index with
  | zero =>
    cases found
    exact ⟨left, right, rfl, rfl, real⟩
  | succ index => exact envs index entry found

end Env.Realize

/-! ### Two terms in two environments -/

/-- **Two terms meet at a third**: each evaluates in its environment, to values that realize the
third. -/
def Term.Meet (ctx : Context) (ty : Ty) (term : Term) (env : Env) (left : Term) (env' : Env)
    (right : Term) : Prop :=
  ∃ leftValue rightValue, left.Evaluates env leftValue ∧ right.Evaluates env' rightValue ∧
    Value.Realize ctx ty term leftValue rightValue

namespace Term.Meet

variable {ctx : Context} {motive elem ty fstTy sndTy : Ty} {env env' : Env}
  {term left right target leftTarget rightTarget base leftBase rightBase step leftStep
    rightStep : Term}

/-- Functions meet where their bodies do, in every larger context and for every argument. -/
theorem lam {dom cod : Ty} {values : Nat → Term}
    (typed : ((Term.lam dom term).subst values).HasType ctx (.fn dom cod))
    (bodies : ∀ (added : Context) (arg : Term) (leftArg rightArg : Value),
      Value.Realize (added ++ ctx) dom arg leftArg rightArg →
      Meet (added ++ ctx) cod
        (term.subst (push arg fun index => (values index).weaken (.front added.length)))
        (leftArg :: env.weaken (.front added.length)) left
        (rightArg :: env'.weaken (.front added.length)) right) :
    Meet ctx (.fn dom cod) ((Term.lam dom term).subst values) env (.lam dom left) env'
      (.lam dom right) := by
  refine ⟨_, _, .lam env dom left, .lam env' dom right, typed, ?_⟩
  intro added arg leftArg rightArg args
  obtain ⟨leftResult, rightResult, leftEval, rightEval, results⟩ :=
    bodies added arg leftArg rightArg args
  refine ⟨leftResult, rightResult, .closure leftEval, .closure rightEval, results.convert ?_⟩
  have typedThere := typed.weaken_front added
  rw [weaken_front_subst] at typedThere ⊢
  cases typedThere with
  | lam bodyTyped =>
    have computed := Convertible.beta bodyTyped args.typed
    rw [instantiate_subst_underValues] at computed
    exact computed.symm

theorem app {dom cod : Ty} {arg leftArg rightArg : Term}
    (fns : Meet ctx (.fn dom cod) term env left env' right)
    (args : Meet ctx dom arg env leftArg env' rightArg) :
    Meet ctx cod (.app term arg) env (.app left leftArg) env' (.app right rightArg) := by
  obtain ⟨leftFn, rightFn, leftFnEval, rightFnEval, realFn⟩ := fns
  obtain ⟨leftValue, rightValue, leftEval, rightEval, real⟩ := args
  obtain ⟨leftResult, rightResult, leftApplies, rightApplies, results⟩ := realFn.apply real
  exact ⟨leftResult, rightResult, leftFnEval.app leftEval leftApplies,
    rightFnEval.app rightEval rightApplies, results⟩

theorem atom (ctx : Context) (env env' : Env) (name : String) :
    Meet ctx .atom (.atom name) env (.atom name) env' (.atom name) :=
  ⟨.atom name, .atom name, .atom env name, .atom env' name, .atom (.refl .atom)⟩

theorem zero (ctx : Context) (env env' : Env) : Meet ctx .nat .zero env .zero env' .zero :=
  ⟨.zero, .zero, .zero env, .zero env', .zero (.refl .zero)⟩

theorem succ (preds : Meet ctx .nat term env left env' right) :
    Meet ctx .nat (.succ term) env (.succ left) env' (.succ right) := by
  obtain ⟨leftValue, rightValue, leftEval, rightEval, real⟩ := preds
  exact ⟨.succ leftValue, .succ rightValue, leftEval.succ, rightEval.succ,
    .succ (.refl (.succ real.typed)) real⟩

theorem recNat (targets : Meet ctx .nat target env leftTarget env' rightTarget)
    (bases : Meet ctx motive base env leftBase env' rightBase)
    (steps : Meet ctx (Ty.natStep motive) step env leftStep env' rightStep) :
    Meet ctx motive (.recNat motive target base step) env
      (.recNat motive leftTarget leftBase leftStep) env'
      (.recNat motive rightTarget rightBase rightStep) := by
  obtain ⟨_, _, leftEval, rightEval, realTarget⟩ := targets
  obtain ⟨_, _, leftBaseEval, rightBaseEval, realBase⟩ := bases
  obtain ⟨_, _, leftStepEval, rightStepEval, realStep⟩ := steps
  obtain ⟨leftResult, rightResult, leftRecurs, rightRecurs, results⟩ :=
    realTarget.recNat realBase realStep
  exact ⟨leftResult, rightResult, leftEval.recNat leftBaseEval leftStepEval leftRecurs,
    rightEval.recNat rightBaseEval rightStepEval rightRecurs, results⟩

theorem pair {other leftOther rightOther : Term} (fsts : Meet ctx fstTy term env left env' right)
    (snds : Meet ctx sndTy other env leftOther env' rightOther) :
    Meet ctx (.pair fstTy sndTy) (.pair term other) env (.pair left leftOther) env'
      (.pair right rightOther) := by
  obtain ⟨leftFst, rightFst, leftFstEval, rightFstEval, realFst⟩ := fsts
  obtain ⟨leftSnd, rightSnd, leftSndEval, rightSndEval, realSnd⟩ := snds
  exact ⟨.pair leftFst leftSnd, .pair rightFst rightSnd, leftFstEval.pair leftSndEval,
    rightFstEval.pair rightSndEval,
    .pair (.refl (.pair realFst.typed realSnd.typed)) realFst realSnd⟩

theorem car (operands : Meet ctx (.pair fstTy sndTy) term env left env' right) :
    Meet ctx fstTy (.car term) env (.car left) env' (.car right) := by
  obtain ⟨_, _, leftEval, rightEval, real⟩ := operands
  obtain ⟨leftResult, rightResult, leftTaken, rightTaken, results⟩ := real.car
  exact ⟨leftResult, rightResult, leftEval.car leftTaken, rightEval.car rightTaken, results⟩

theorem cdr (operands : Meet ctx (.pair fstTy sndTy) term env left env' right) :
    Meet ctx sndTy (.cdr term) env (.cdr left) env' (.cdr right) := by
  obtain ⟨_, _, leftEval, rightEval, real⟩ := operands
  obtain ⟨leftResult, rightResult, leftTaken, rightTaken, results⟩ := real.cdr
  exact ⟨leftResult, rightResult, leftEval.cdr leftTaken, rightEval.cdr rightTaken, results⟩

theorem nil (ctx : Context) (elem : Ty) (env env' : Env) :
    Meet ctx (.list elem) (.nil elem) env (.nil elem) env' (.nil elem) :=
  ⟨.nil, .nil, .nil env elem, .nil env' elem, .nil (.refl .nil)⟩

theorem cons {other leftOther rightOther : Term} (heads : Meet ctx elem term env left env' right)
    (tails : Meet ctx (.list elem) other env leftOther env' rightOther) :
    Meet ctx (.list elem) (.cons term other) env (.cons left leftOther) env'
      (.cons right rightOther) := by
  obtain ⟨leftHead, rightHead, leftHeadEval, rightHeadEval, realHead⟩ := heads
  obtain ⟨leftTail, rightTail, leftTailEval, rightTailEval, realTail⟩ := tails
  exact ⟨.cons leftHead leftTail, .cons rightHead rightTail, leftHeadEval.cons leftTailEval,
    rightHeadEval.cons rightTailEval,
    .cons (.refl (.cons realHead.typed realTail.typed)) realHead realTail⟩

theorem recList (targets : Meet ctx (.list elem) target env leftTarget env' rightTarget)
    (bases : Meet ctx motive base env leftBase env' rightBase)
    (steps : Meet ctx (Ty.listStep elem motive) step env leftStep env' rightStep) :
    Meet ctx motive (.recList motive target base step) env
      (.recList motive leftTarget leftBase leftStep) env'
      (.recList motive rightTarget rightBase rightStep) := by
  obtain ⟨_, _, leftEval, rightEval, realTarget⟩ := targets
  obtain ⟨_, _, leftBaseEval, rightBaseEval, realBase⟩ := bases
  obtain ⟨_, _, leftStepEval, rightStepEval, realStep⟩ := steps
  obtain ⟨leftResult, rightResult, leftRecurs, rightRecurs, results⟩ :=
    realTarget.recList realBase realStep
  exact ⟨leftResult, rightResult, leftEval.recList leftBaseEval leftStepEval leftRecurs,
    rightEval.recList rightBaseEval rightStepEval rightRecurs, results⟩

theorem ann (bodies : Meet ctx ty term env left env' right) :
    Meet ctx ty (.ann ty term) env (.ann ty left) env' (.ann ty right) := by
  obtain ⟨leftValue, rightValue, leftEval, rightEval, real⟩ := bodies
  exact ⟨leftValue, rightValue, leftEval.ann ty, rightEval.ann ty,
    real.convert (Convertible.annErase real.typed).symm⟩

end Term.Meet

/-! ### A term and its instances -/

namespace Term

/-- **A relation between environments that replaces variables.** Where it holds, each variable in
the first environment meets what replaces it in the second, and it still holds below a binder, in
every larger context. -/
structure Replaces (holds : Context → Context → (Nat → Term) → Env → Env → (Nat → Term) → Prop) :
    Prop where
  var {ctx entries : Context} {values : Nat → Term} {env env' : Env} {replaced : Nat → Term} :
    holds ctx entries values env env' replaced →
    ∀ index ty, entries[index]? = some ty →
      Meet ctx ty (values index) env (.var index) env' (replaced index)
  under {ctx entries : Context} {values : Nat → Term} {env env' : Env} {replaced : Nat → Term} :
    holds ctx entries values env env' replaced →
    ∀ (added : Context) (dom : Ty) (arg : Term) (leftArg rightArg : Value),
      Value.Realize (added ++ ctx) dom arg leftArg rightArg →
      holds (added ++ ctx) (dom :: entries)
        (push arg fun index => (values index).weaken (.front added.length))
        (leftArg :: env.weaken (.front added.length))
        (rightArg :: env'.weaken (.front added.length)) (underValues replaced)

/-- **A term meets its instance** when its variables meet what replaces them. -/
theorem Meet.of_replaces
    {holds : Context → Context → (Nat → Term) → Env → Env → (Nat → Term) → Prop}
    (replaces : Replaces holds) {ctx entries : Context} {values : Nat → Term} {env env' : Env}
    {replaced : Nat → Term} {term : Term} {ty : Ty} (typed : term.HasType entries ty)
    (held : holds ctx entries values env env' replaced) :
    Meet ctx ty (term.subst values) env term env' (term.subst replaced) := by
  induction typed generalizing ctx values env env' replaced with
  | var found => exact replaces.var held _ _ found
  | @lam entries dom cod body bodyTyped ih =>
    have supply : Supply ctx values entries := by
      intro index ty found
      obtain ⟨_, _, _, _, real⟩ := replaces.var held index ty found
      exact real.typed
    refine .lam (HasType.lam bodyTyped |>.subst supply) fun added arg leftArg rightArg args => ?_
    exact ih (replaces.under held added dom arg leftArg rightArg args)
  | app _ _ fn arg => exact (fn held).app (arg held)
  | atom => exact .atom ctx env env' _
  | zero => exact .zero ctx env env'
  | succ _ pred => exact (pred held).succ
  | recNat _ _ _ target base step => exact (target held).recNat (base held) (step held)
  | pair _ _ fst snd => exact (fst held).pair (snd held)
  | car _ operand => exact (operand held).car
  | cdr _ operand => exact (operand held).cdr
  | nil => exact .nil ctx _ env env'
  | cons _ _ head tail => exact (head held).cons (tail held)
  | recList _ _ _ target base step => exact (target held).recList (base held) (step held)
  | ann _ body => exact (body held).ann

/-! Variables replaced by variables. -/

/-- The second environment has at the new place of each variable what realizes the same term. -/
def RenamedIn (ctx entries : Context) (values : Nat → Term) (env env' : Env)
    (replaced : Nat → Term) : Prop :=
  ∃ move : Nat → Nat, replaced = (fun index => .var (move index)) ∧
    ∀ index ty, entries[index]? = some ty → ∃ left right,
      env[index]? = some left ∧ env'[move index]? = some right ∧
      Value.Realize ctx ty (values index) left right

theorem RenamedIn.replaces : Replaces RenamedIn where
  var := by
    rintro ctx entries values env env' _ ⟨move, rfl, finds⟩ index ty found
    obtain ⟨left, right, leftFound, rightFound, real⟩ := finds index ty found
    exact ⟨left, right, .var leftFound, .var rightFound, real⟩
  under := by
    rintro ctx entries values env env' _ ⟨move, rfl, finds⟩ added dom arg leftArg rightArg args
    refine ⟨underMove move, underValues_var_comp move, fun index ty found => ?_⟩
    cases index with
    | zero =>
      cases found
      exact ⟨leftArg, rightArg, rfl, rfl, args⟩
    | succ index =>
      obtain ⟨left, right, leftFound, rightFound, real⟩ := finds index ty found
      refine ⟨left.weaken _, right.weaken _, ?_, ?_, real.weaken added⟩
      · rw [List.getElem?_cons_succ, Env.getElem?_weaken, leftFound, Option.map_some]
      · rw [underMove, List.getElem?_cons_succ, Env.getElem?_weaken, rightFound, Option.map_some]

/-- **A typed term meets itself** in environments that realize the same terms. -/
theorem HasType.meet {ctx entries : Context} {values : Nat → Term} {env env' : Env} {term : Term}
    {ty : Ty} (typed : term.HasType entries ty) (envs : Env.Realize ctx entries values env env') :
    Meet ctx ty (term.subst values) env term env' term := by
  have met := Meet.of_replaces RenamedIn.replaces typed ⟨id, rfl, envs⟩
  rw [show (fun index => Term.var (id index)) = Term.var from rfl, subst_var] at met
  exact met

/-- A term that is moved below a binder keeps its value, whatever the binder is bound to. -/
theorem HasType.evaluates_under {ctx entries : Context} {values : Nat → Term} {env : Env}
    {term : Term} {ty : Ty} {value : Value} (typed : term.HasType entries ty)
    (envs : Env.Realize ctx entries values env env) (evaluates : term.Evaluates env value)
    (first : Value) :
    ∃ moved, (term.weaken Weakening.fresh).Evaluates (first :: env) moved ∧
      Value.Realize ctx ty (term.subst values) value moved := by
  have held : RenamedIn ctx entries values env (first :: env) fun index => .var (index + 1) :=
    ⟨(· + 1), rfl, envs⟩
  obtain ⟨value', moved, evaluates', movedEval, real⟩ :=
    Meet.of_replaces RenamedIn.replaces typed held
  obtain rfl := evaluates.unique evaluates'
  rw [← rename_eq_subst, ← Term.weaken_fresh] at movedEval
  exact ⟨moved, movedEval, real⟩

/-! Variables replaced by terms. -/

/-- Each variable meets the term that replaces it, which is typed where the second environment
realizes some terms beside itself. -/
def ReplacedIn (ctx entries : Context) (values : Nat → Term) (env env' : Env)
    (replaced : Nat → Term) : Prop :=
  ∃ (source : Context) (others : Nat → Term), Supply source replaced entries ∧
    Env.Realize ctx source others env' env' ∧
    ∀ index ty, entries[index]? = some ty →
      Meet ctx ty (values index) env (.var index) env' (replaced index)

/-- A variable and the term that replaces it still meet below a binder. -/
theorem Meet.under {ctx source : Context} {others : Nat → Term} {ty : Ty} {term right : Term}
    {env env' : Env} {index : Nat} (meet : Meet ctx ty term env (.var index) env' right)
    (typed : right.HasType source ty) (envs : Env.Realize ctx source others env' env')
    (added : Context) (leftArg rightArg : Value) :
    Meet (added ++ ctx) ty (term.weaken (.front added.length))
      (leftArg :: env.weaken (.front added.length)) (.var (index + 1))
      (rightArg :: env'.weaken (.front added.length)) (right.weaken Weakening.fresh) := by
  obtain ⟨left, value, leftEval, valueEval, real⟩ := meet
  obtain ⟨moved, movedEval, realMoved⟩ :=
    typed.evaluates_under (envs.weaken added) (valueEval.weaken (.front added.length)) rightArg
  have leftFound := (leftEval.weaken (.front added.length)).found
  exact ⟨_, moved, .var leftFound, movedEval, (real.weaken added).trans realMoved⟩

theorem ReplacedIn.replaces : Replaces ReplacedIn where
  var := fun ⟨_, _, _, _, meets⟩ => meets
  under := by
    rintro ctx entries values env env' replaced ⟨source, others, supply, envs, meets⟩
      added dom arg leftArg rightArg args
    refine ⟨dom :: source, _, supply.under dom,
      (envs.weaken added).push (args.symm.trans args), fun index ty found => ?_⟩
    cases index with
    | zero =>
      cases found
      exact ⟨leftArg, rightArg, .var rfl, .var rfl, args⟩
    | succ index =>
      exact (meets index ty found).under (supply index ty found) envs added leftArg rightArg

/-- **A body where its argument is bound meets the body with the argument substituted.** -/
theorem HasType.meet_instantiate {ctx entries : Context} {values : Nat → Term} {env env' : Env}
    {body arg : Term} {dom cod : Ty} {left right : Value}
    (typed : body.HasType (dom :: entries) cod) (argTyped : arg.HasType entries dom)
    (envs : Env.Realize ctx entries values env env') (argEval : arg.Evaluates env' right)
    (real : Value.Realize ctx dom (arg.subst values) left right) :
    Meet ctx cod (body.subst (push (arg.subst values) values)) (left :: env) body env'
      (body.instantiate arg) := by
  refine Meet.of_replaces ReplacedIn.replaces typed
    ⟨entries, values, .push argTyped (.var entries), envs.second, fun index ty found => ?_⟩
  cases index with
  | zero =>
    cases found
    exact ⟨left, right, .var rfl, argEval, real⟩
  | succ index =>
    obtain ⟨leftValue, rightValue, leftFound, rightFound, realValue⟩ := envs index ty found
    exact ⟨leftValue, rightValue, .var leftFound, .var rightFound, realValue⟩

/-! ### Conversion -/

/-- The computation rule of functions. -/
theorem Meet.beta {ctx entries : Context} {values : Nat → Term} {env env' : Env} {body arg : Term}
    {dom cod : Ty} (bodyTyped : body.HasType (dom :: entries) cod)
    (argTyped : arg.HasType entries dom) (envs : Env.Realize ctx entries values env env') :
    Meet ctx cod ((Term.app (.lam dom body) arg).subst values) env (.app (.lam dom body) arg) env'
      (body.instantiate arg) := by
  obtain ⟨left, right, leftEval, rightEval, real⟩ := argTyped.meet envs
  obtain ⟨leftResult, rightResult, leftBody, rightBody, results⟩ :=
    bodyTyped.meet_instantiate argTyped envs rightEval real
  refine ⟨leftResult, rightResult, .app (.lam env dom body) leftEval (.closure leftBody),
    rightBody, results.convert ?_⟩
  have computed := Convertible.beta (bodyTyped.subst (envs.supply.under dom)) real.typed
  rw [instantiate_subst_underValues] at computed
  exact computed.symm

/-- The extensionality rule of functions: a function and its eta expansion agree on every
argument. -/
theorem Meet.eta {ctx entries : Context} {values : Nat → Term} {env env' : Env} {fn : Term}
    {dom cod : Ty} (typed : fn.HasType entries (.fn dom cod))
    (envs : Env.Realize ctx entries values env env') :
    Meet ctx (.fn dom cod) (fn.subst values) env fn env'
      (.lam dom (.app (fn.weaken Weakening.fresh) (.var 0))) := by
  obtain ⟨left, right, leftEval, rightEval, real⟩ := typed.meet envs
  refine ⟨left, _, leftEval, .lam env' dom _, real.1, ?_⟩
  intro added arg leftArg rightArg args
  -- The expansion evaluates the function again, below the binder of its argument.
  obtain ⟨moved, movedEval, realMoved⟩ := typed.evaluates_under (envs.second.weaken added)
    (rightEval.weaken (.front added.length)) rightArg
  obtain ⟨leftResult, rightResult, leftApplies, rightApplies, results⟩ :=
    ((real.weaken added).trans realMoved).apply args
  exact ⟨leftResult, rightResult, leftApplies,
    .closure (movedEval.app (.var rfl) rightApplies), results⟩

/-- The computation rule of recursion over a successor. -/
theorem Meet.recNatSucc {ctx : Context} {env env' : Env} {motive : Ty} {pred base step left
    leftBase leftStep right rightBase rightStep : Term}
    (preds : Meet ctx .nat pred env left env' right)
    (bases : Meet ctx motive base env leftBase env' rightBase)
    (steps : Meet ctx (Ty.natStep motive) step env leftStep env' rightStep) :
    Meet ctx motive (.recNat motive (.succ pred) base step) env
      (.recNat motive (.succ left) leftBase leftStep) env'
      (.app (.app rightStep right) (.recNat motive right rightBase rightStep)) := by
  obtain ⟨_, _, leftEval, rightEval, realPred⟩ := preds
  obtain ⟨_, _, leftBaseEval, rightBaseEval, realBase⟩ := bases
  obtain ⟨_, _, leftStepEval, rightStepEval, realStep⟩ := steps
  obtain ⟨_, _, leftRecurs, rightRecurs, inners⟩ := realPred.recNat realBase realStep
  obtain ⟨_, _, leftOnce, rightOnce, firsts⟩ := realStep.apply realPred
  obtain ⟨leftResult, rightResult, leftTwice, rightTwice, results⟩ := firsts.apply inners
  have computed := Convertible.recNatSucc realPred.typed realBase.typed realStep.typed
  refine ⟨leftResult, rightResult, ?_, ?_, results.convert computed.symm⟩
  · exact leftEval.succ.recNat leftBaseEval leftStepEval (leftRecurs.succ leftOnce leftTwice)
  · exact (rightStepEval.app rightEval rightOnce).app
      (rightEval.recNat rightBaseEval rightStepEval rightRecurs) rightTwice

/-- The computation rule of recursion over a cell. -/
theorem Meet.recListCons {ctx : Context} {env env' : Env} {motive elem : Ty} {head tail base step
    left leftTail leftBase leftStep right rightTail rightBase rightStep : Term}
    (heads : Meet ctx elem head env left env' right)
    (tails : Meet ctx (.list elem) tail env leftTail env' rightTail)
    (bases : Meet ctx motive base env leftBase env' rightBase)
    (steps : Meet ctx (Ty.listStep elem motive) step env leftStep env' rightStep) :
    Meet ctx motive (.recList motive (.cons head tail) base step) env
      (.recList motive (.cons left leftTail) leftBase leftStep) env'
      (.app (.app (.app rightStep right) rightTail)
        (.recList motive rightTail rightBase rightStep)) := by
  obtain ⟨_, _, leftEval, rightEval, realHead⟩ := heads
  obtain ⟨_, _, leftTailEval, rightTailEval, realTail⟩ := tails
  obtain ⟨_, _, leftBaseEval, rightBaseEval, realBase⟩ := bases
  obtain ⟨_, _, leftStepEval, rightStepEval, realStep⟩ := steps
  obtain ⟨_, _, leftRecurs, rightRecurs, inners⟩ := realTail.recList realBase realStep
  obtain ⟨_, _, leftOnce, rightOnce, firsts⟩ := realStep.apply realHead
  obtain ⟨_, _, leftTwice, rightTwice, seconds⟩ := firsts.apply realTail
  obtain ⟨leftResult, rightResult, leftLast, rightLast, results⟩ := seconds.apply inners
  have computed :=
    Convertible.recListCons realHead.typed realTail.typed realBase.typed realStep.typed
  refine ⟨leftResult, rightResult, ?_, ?_, results.convert computed.symm⟩
  · exact (leftEval.cons leftTailEval).recList leftBaseEval leftStepEval
      (leftRecurs.cons leftOnce leftTwice leftLast)
  · exact ((rightStepEval.app rightEval rightOnce).app rightTailEval rightTwice).app
      (rightTailEval.recList rightBaseEval rightStepEval rightRecurs) rightLast

/-- **Convertible terms meet** in environments that realize the same terms. -/
theorem Convertible.meet {ctx entries : Context} {values : Nat → Term} {env env' : Env}
    {left right : Term} {ty : Ty} (conv : Convertible entries ty left right)
    (envs : Env.Realize ctx entries values env env') :
    Meet ctx ty (left.subst values) env left env' right := by
  induction conv generalizing ctx values env env' with
  | refl typed => exact typed.meet envs
  | symm conv ih =>
    obtain ⟨leftValue, rightValue, leftEval, rightEval, real⟩ := ih envs.symm
    exact ⟨rightValue, leftValue, rightEval, leftEval,
      real.symm.convert (conv.subst envs.supply)⟩
  | trans _ _ first second =>
    -- The term in the middle is evaluated in the second environment by both halves.
    obtain ⟨leftValue, middleValue, leftEval, middleEval, real⟩ := first envs
    obtain ⟨middleValue', rightValue, middleEval', rightEval, real'⟩ := second envs.second
    obtain rfl := middleEval.unique middleEval'
    exact ⟨leftValue, rightValue, leftEval, rightEval, real.trans real'⟩
  | @lam entries dom cod body body' conv ih =>
    refine .lam ((HasType.lam conv.typed.1).subst envs.supply) ?_
    intro added arg leftArg rightArg args
    exact ih ((envs.weaken added).push args)
  | app _ _ fn arg => exact (fn envs).app (arg envs)
  | succ _ pred => exact (pred envs).succ
  | recNat _ _ _ target base step => exact (target envs).recNat (base envs) (step envs)
  | pair _ _ fst snd => exact (fst envs).pair (snd envs)
  | car _ operand => exact (operand envs).car
  | cdr _ operand => exact (operand envs).cdr
  | cons _ _ head tail => exact (head envs).cons (tail envs)
  | recList _ _ _ target base step => exact (target envs).recList (base envs) (step envs)
  | ann _ body => exact (body envs).ann
  | beta body arg => exact .beta body arg envs
  | eta fn => exact .eta fn envs
  | carPair fst snd =>
    obtain ⟨_, _, leftFst, rightFst, realFst⟩ := fst.meet envs
    obtain ⟨_, _, leftSnd, _, realSnd⟩ := snd.meet envs
    exact ⟨_, _, (leftFst.pair leftSnd).car rfl, rightFst,
      realFst.convert (Convertible.carPair realFst.typed realSnd.typed).symm⟩
  | cdrPair fst snd =>
    obtain ⟨_, _, leftFst, _, realFst⟩ := fst.meet envs
    obtain ⟨_, _, leftSnd, rightSnd, realSnd⟩ := snd.meet envs
    exact ⟨_, _, (leftFst.pair leftSnd).cdr rfl, rightSnd,
      realSnd.convert (Convertible.cdrPair realFst.typed realSnd.typed).symm⟩
  | recNatZero base step =>
    obtain ⟨_, _, leftBase, rightBase, realBase⟩ := base.meet envs
    obtain ⟨_, _, leftStep, _, realStep⟩ := step.meet envs
    exact ⟨_, _, (Evaluates.zero env).recNat leftBase leftStep .zero, rightBase,
      realBase.convert (Convertible.recNatZero realBase.typed realStep.typed).symm⟩
  | recNatSucc pred base step =>
    exact .recNatSucc (pred.meet envs) (base.meet envs) (step.meet envs)
  | @recListNil _ elem _ _ _ base step =>
    obtain ⟨_, _, leftBase, rightBase, realBase⟩ := base.meet envs
    obtain ⟨_, _, leftStep, _, realStep⟩ := step.meet envs
    exact ⟨_, _, (Evaluates.nil env elem).recList leftBase leftStep .nil, rightBase,
      realBase.convert (Convertible.recListNil realBase.typed realStep.typed).symm⟩
  | recListCons head tail base step =>
    exact .recListCons (head.meet envs) (tail.meet envs) (base.meet envs) (step.meet envs)
  | annErase body =>
    obtain ⟨_, _, leftEval, rightEval, real⟩ := body.meet envs
    exact ⟨_, _, leftEval.ann _, rightEval,
      real.convert (Convertible.annErase real.typed).symm⟩

end Term

end EtaLong
