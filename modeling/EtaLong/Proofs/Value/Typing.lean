/-
**Typing of values.**

A value has a type in the context that its neutrals live in. A closure has a function type when
what it captured has the types of some context and its body has its type there; a neutral has the
type that its head has, taken apart as it is eliminated. Evaluation keeps types, however much fuel
it takes.

* `Value.HasType`, `Neutral.HasType`, `Env.HasType`: the rules;
* `Value.HasType.apply`, `Term.HasType.evaluates`: results have the type;
* `Value.HasType.weaken`: types in larger contexts;
* `Value.HasType.realized`: every value of a type realizes some term.
-/

import EtaLong.Proofs.Fundamental

namespace EtaLong

mutual

/-- **A value has a type** in a context. -/
inductive Value.HasType (ctx : Context) : Value → Ty → Prop where
  | closure {env : Env} {captured : Context} {dom cod : Ty} {body : Term} :
      Env.HasType ctx env captured → body.HasType (dom :: captured) cod →
      Value.HasType ctx (.closure env body) (.fn dom cod)
  | zero : Value.HasType ctx .zero .nat
  | succ {pred : Value} : Value.HasType ctx pred .nat → Value.HasType ctx (.succ pred) .nat
  | pair {fst snd : Value} {fstTy sndTy : Ty} :
      Value.HasType ctx fst fstTy → Value.HasType ctx snd sndTy →
      Value.HasType ctx (.pair fst snd) (.pair fstTy sndTy)
  | nil {elem : Ty} : Value.HasType ctx .nil (.list elem)
  | cons {head tail : Value} {elem : Ty} :
      Value.HasType ctx head elem → Value.HasType ctx tail (.list elem) →
      Value.HasType ctx (.cons head tail) (.list elem)
  | atom {name : String} : Value.HasType ctx (.atom name) .atom
  | stuck {neutral : Neutral} {ty : Ty} :
      Neutral.HasType ctx neutral ty → Value.HasType ctx (.stuck neutral) ty

/-- **A neutral has a type** in a context. -/
inductive Neutral.HasType (ctx : Context) : Neutral → Ty → Prop where
  | var {index : Nat} {ty : Ty} : ctx[index]? = some ty → Neutral.HasType ctx (.var index) ty
  | app {fn : Neutral} {arg : Value} {dom cod : Ty} :
      Neutral.HasType ctx fn (.fn dom cod) → Value.HasType ctx arg dom →
      Neutral.HasType ctx (.app fn arg) cod
  | recNat {motive : Ty} {target : Neutral} {base step : Value} :
      Neutral.HasType ctx target .nat → Value.HasType ctx base motive →
      Value.HasType ctx step (Ty.natStep motive) →
      Neutral.HasType ctx (.recNat motive target base step) motive
  | car {operand : Neutral} {fstTy sndTy : Ty} :
      Neutral.HasType ctx operand (.pair fstTy sndTy) → Neutral.HasType ctx (.car operand) fstTy
  | cdr {operand : Neutral} {fstTy sndTy : Ty} :
      Neutral.HasType ctx operand (.pair fstTy sndTy) → Neutral.HasType ctx (.cdr operand) sndTy
  | recList {motive elem : Ty} {target : Neutral} {base step : Value} :
      Neutral.HasType ctx target (.list elem) → Value.HasType ctx base motive →
      Value.HasType ctx step (Ty.listStep elem motive) →
      Neutral.HasType ctx (.recList motive target base step) motive

/-- **The values of an environment have the types of a context**, entry by entry. -/
inductive Env.HasType (ctx : Context) : Env → Context → Prop where
  | nil : Env.HasType ctx [] []
  | cons {value : Value} {ty : Ty} {env : Env} {entries : Context} :
      Value.HasType ctx value ty → Env.HasType ctx env entries →
      Env.HasType ctx (value :: env) (ty :: entries)

end

/-- Every entry has a value of its type. -/
theorem Env.HasType.lookup {ctx entries : Context} {env : Env} {index : Nat} {ty : Ty}
    (typed : Env.HasType ctx env entries) (found : entries[index]? = some ty) :
    ∃ value, env[index]? = some value ∧ value.HasType ctx ty := by
  induction index generalizing env entries with
  | zero =>
    cases typed with
    | nil => cases found
    | cons first _ =>
      cases found
      exact ⟨_, rfl, first⟩
  | succ index ih =>
    cases typed with
    | nil => cases found
    | cons _ rest => exact ih rest found

/-! ### Evaluation keeps types -/

/-- **An application that keeps types** of values in a context. -/
def Application.KeepsTypes (ctx : Context) (apply : Application) : Prop :=
  ∀ {fn arg result : Value} {dom cod : Ty}, fn.HasType ctx (.fn dom cod) →
    arg.HasType ctx dom → apply fn arg = .ok result → result.HasType ctx cod

namespace Value.HasType

variable {ctx : Context} {motive elem fstTy sndTy : Ty} {value target base step result : Value}

theorem car (typed : value.HasType ctx (.pair fstTy sndTy)) (taken : value.car = .ok result) :
    result.HasType ctx fstTy := by
  cases typed with
  | pair fst _ =>
    cases taken
    exact fst
  | stuck neutral =>
    cases taken
    exact .stuck neutral.car

theorem cdr (typed : value.HasType ctx (.pair fstTy sndTy)) (taken : value.cdr = .ok result) :
    result.HasType ctx sndTy := by
  cases typed with
  | pair _ snd =>
    cases taken
    exact snd
  | stuck neutral =>
    cases taken
    exact .stuck neutral.cdr

/-- Recursion over a number keeps types, by induction on the typing of the number. -/
theorem recNat {apply : Application} (keeps : apply.KeepsTypes ctx)
    (baseTyped : base.HasType ctx motive) (stepTyped : step.HasType ctx (Ty.natStep motive)) :
    ∀ {target result : Value}, target.HasType ctx .nat →
      target.recNat apply motive base step = .ok result → result.HasType ctx motive
  | _, _, .zero, run => by
    cases run
    exact baseTyped
  | _, _, .succ pred, run => by
    rw [recNat_succ] at run
    obtain ⟨inner, innerRun, run⟩ := bind_eq_ok.mp run
    obtain ⟨stepped, firstRun, secondRun⟩ := bind_eq_ok.mp run
    exact keeps (keeps stepTyped pred firstRun) (recNat keeps baseTyped stepTyped pred innerRun)
      secondRun
  | _, _, .stuck neutral, run => by
    cases run
    exact .stuck (.recNat neutral baseTyped stepTyped)

/-- Recursion over a list keeps types, by induction on the typing of the list. -/
theorem recList {apply : Application} (keeps : apply.KeepsTypes ctx)
    (baseTyped : base.HasType ctx motive)
    (stepTyped : step.HasType ctx (Ty.listStep elem motive)) :
    ∀ {target result : Value}, target.HasType ctx (.list elem) →
      target.recList apply motive base step = .ok result → result.HasType ctx motive
  | _, _, .nil, run => by
    cases run
    exact baseTyped
  | _, _, .cons head tail, run => by
    rw [recList_cons] at run
    obtain ⟨inner, innerRun, run⟩ := bind_eq_ok.mp run
    obtain ⟨first, headRun, run⟩ := bind_eq_ok.mp run
    obtain ⟨second, tailRun, lastRun⟩ := bind_eq_ok.mp run
    exact keeps (keeps (keeps stepTyped head headRun) tail tailRun)
      (recList keeps baseTyped stepTyped tail innerRun) lastRun
  | _, _, .stuck neutral, run => by
    cases run
    exact .stuck (.recList neutral baseTyped stepTyped)

end Value.HasType

/-- Evaluation keeps types when the application that it uses does. -/
theorem Term.HasType.evalWith {ctx entries : Context} {apply : Application} {env : Env}
    {term : Term} {ty : Ty} {value : Value} (typed : term.HasType entries ty)
    (keeps : apply.KeepsTypes ctx) (envTyped : Env.HasType ctx env entries)
    (run : term.evalWith apply env = .ok value) : value.HasType ctx ty := by
  induction typed generalizing env value with
  | var found =>
    obtain ⟨bound, boundFound, boundTyped⟩ := envTyped.lookup found
    rw [Term.evalWith, boundFound] at run
    cases run
    exact boundTyped
  | lam body =>
    cases run
    exact .closure envTyped body
  | app _ _ fnKeeps argKeeps =>
    obtain ⟨fn, fnRun, run⟩ := bind_eq_ok.mp run
    obtain ⟨arg, argRun, applied⟩ := bind_eq_ok.mp run
    exact keeps (fnKeeps envTyped fnRun) (argKeeps envTyped argRun) applied
  | atom =>
    cases run
    exact .atom
  | zero =>
    cases run
    exact .zero
  | succ _ predKeeps =>
    obtain ⟨pred, predRun, done⟩ := bind_eq_ok.mp run
    cases done
    exact .succ (predKeeps envTyped predRun)
  | recNat _ _ _ targetKeeps baseKeeps stepKeeps =>
    obtain ⟨target, targetRun, run⟩ := bind_eq_ok.mp run
    obtain ⟨base, baseRun, run⟩ := bind_eq_ok.mp run
    obtain ⟨step, stepRun, recurs⟩ := bind_eq_ok.mp run
    exact .recNat keeps (baseKeeps envTyped baseRun) (stepKeeps envTyped stepRun)
      (targetKeeps envTyped targetRun) recurs
  | pair _ _ fstKeeps sndKeeps =>
    obtain ⟨fst, fstRun, run⟩ := bind_eq_ok.mp run
    obtain ⟨snd, sndRun, done⟩ := bind_eq_ok.mp run
    cases done
    exact .pair (fstKeeps envTyped fstRun) (sndKeeps envTyped sndRun)
  | car _ operandKeeps =>
    obtain ⟨operand, operandRun, taken⟩ := bind_eq_ok.mp run
    exact (operandKeeps envTyped operandRun).car taken
  | cdr _ operandKeeps =>
    obtain ⟨operand, operandRun, taken⟩ := bind_eq_ok.mp run
    exact (operandKeeps envTyped operandRun).cdr taken
  | nil =>
    cases run
    exact .nil
  | cons _ _ headKeeps tailKeeps =>
    obtain ⟨tail, tailRun, run⟩ := bind_eq_ok.mp run
    obtain ⟨head, headRun, done⟩ := bind_eq_ok.mp run
    cases done
    exact .cons (headKeeps envTyped headRun) (tailKeeps envTyped tailRun)
  | recList _ _ _ targetKeeps baseKeeps stepKeeps =>
    obtain ⟨target, targetRun, run⟩ := bind_eq_ok.mp run
    obtain ⟨base, baseRun, run⟩ := bind_eq_ok.mp run
    obtain ⟨step, stepRun, recurs⟩ := bind_eq_ok.mp run
    exact .recList keeps (baseKeeps envTyped baseRun) (stepKeeps envTyped stepRun)
      (targetKeeps envTyped targetRun) recurs
  | ann _ bodyKeeps => exact bodyKeeps envTyped run

/-- **Application keeps types**, by induction on how deep applications may nest. -/
theorem Value.HasType.apply (ctx : Context) (fuel : Nat) :
    Application.KeepsTypes ctx (Value.apply fuel) := by
  induction fuel with
  | zero =>
    intro fn arg result dom cod fnTyped argTyped run
    cases fnTyped with
    | closure _ _ => cases run
    | stuck neutral =>
      cases run
      exact .stuck (neutral.app argTyped)
  | succ fuel ih =>
    intro fn arg result dom cod fnTyped argTyped run
    cases fnTyped with
    | closure envTyped body => exact body.evalWith ih (.cons argTyped envTyped) run
    | stuck neutral =>
      cases run
      exact .stuck (neutral.app argTyped)

/-- **The value of a term has the type of the term.** -/
theorem Term.HasType.evaluates {ctx entries : Context} {env : Env} {term : Term} {ty : Ty}
    {value : Value} (typed : term.HasType entries ty) (envTyped : Env.HasType ctx env entries)
    (evaluates : term.Evaluates env value) : value.HasType ctx ty := by
  obtain ⟨fuel, run⟩ := evaluates.exists_run
  exact typed.evalWith (.apply ctx fuel) envTyped run

/-! ### Larger contexts -/

section Larger

variable {ctx : Context} {w : Weakening} {inserted : List Ty}

mutual

/-- **A value keeps its type in a larger context**; a closure keeps the context it captured. -/
theorem Value.HasType.weaken (counted : inserted.length = w.count)
    (inside : w.cutoff ≤ ctx.length) : ∀ {value : Value} {ty : Ty}, value.HasType ctx ty →
    (value.weaken w).HasType (w.insert inserted ctx) ty
  | _, _, .closure envTyped body => .closure (envTyped.weaken counted inside) body
  | _, _, .zero => .zero
  | _, _, .succ pred => .succ (pred.weaken counted inside)
  | _, _, .pair fst snd => .pair (fst.weaken counted inside) (snd.weaken counted inside)
  | _, _, .nil => .nil
  | _, _, .cons head tail => .cons (head.weaken counted inside) (tail.weaken counted inside)
  | _, _, .atom => .atom
  | _, _, .stuck neutral => .stuck (neutral.weaken counted inside)

theorem Neutral.HasType.weaken (counted : inserted.length = w.count)
    (inside : w.cutoff ≤ ctx.length) : ∀ {neutral : Neutral} {ty : Ty}, neutral.HasType ctx ty →
    (neutral.weaken w).HasType (w.insert inserted ctx) ty
  | _, _, @Neutral.HasType.var _ index ty found => by
    rw [Neutral.weaken, Weakening.embed_natCast]
    exact .var ((w.getElem?_insert inserted ctx counted inside index).trans found)
  | _, _, .app fn arg => .app (fn.weaken counted inside) (arg.weaken counted inside)
  | _, _, .recNat target base step =>
    .recNat (target.weaken counted inside) (base.weaken counted inside)
      (step.weaken counted inside)
  | _, _, .car operand => .car (operand.weaken counted inside)
  | _, _, .cdr operand => .cdr (operand.weaken counted inside)
  | _, _, .recList target base step =>
    .recList (target.weaken counted inside) (base.weaken counted inside)
      (step.weaken counted inside)

theorem Env.HasType.weaken (counted : inserted.length = w.count)
    (inside : w.cutoff ≤ ctx.length) : ∀ {env : Env} {entries : Context},
    Env.HasType ctx env entries → Env.HasType (w.insert inserted ctx) (env.weaken w) entries
  | _, _, .nil => .nil
  | _, _, .cons first rest => .cons (first.weaken counted inside) (rest.weaken counted inside)

end

/-- A new innermost entry keeps the type of a value. -/
theorem Value.HasType.weaken_fresh {value : Value} {ty : Ty} (typed : value.HasType ctx ty)
    (dom : Ty) : (value.weaken Weakening.fresh).HasType (dom :: ctx) ty := by
  have moved : (value.weaken Weakening.fresh).HasType (Weakening.fresh.insert [dom] ctx) ty :=
    typed.weaken rfl (Nat.zero_le ctx.length)
  exact moved

end Larger

/-! ### Values of a type realize terms -/

mutual

/-- **Every value of a type realizes some term.** A closure realizes its function with the terms
substituted that the captured values realize. -/
theorem Value.HasType.realized {ctx : Context} : ∀ {value : Value} {ty : Ty},
    value.HasType ctx ty → ∃ term, Value.Realize ctx ty term value value
  | _, _, .closure envTyped body => by
    obtain ⟨values, envs⟩ := envTyped.realized
    obtain ⟨left, right, leftEval, rightEval, real⟩ := (Term.HasType.lam body).meet envs
    obtain rfl := leftEval.unique (.lam _ _ _)
    obtain rfl := rightEval.unique (.lam _ _ _)
    exact ⟨_, real⟩
  | _, _, .zero => ⟨.zero, .zero (.refl .zero)⟩
  | _, _, .succ pred => by
    obtain ⟨term, real⟩ := pred.realized
    exact ⟨.succ term, .succ (.refl (.succ real.typed)) real⟩
  | _, _, .pair fst snd => by
    obtain ⟨first, realFst⟩ := fst.realized
    obtain ⟨second, realSnd⟩ := snd.realized
    exact ⟨.pair first second,
      .pair (.refl (.pair realFst.typed realSnd.typed)) realFst realSnd⟩
  | _, .list elem, .nil => ⟨.nil elem, .nil (.refl .nil)⟩
  | _, _, .cons head tail => by
    obtain ⟨first, realHead⟩ := head.realized
    obtain ⟨rest, realTail⟩ := tail.realized
    exact ⟨.cons first rest,
      .cons (.refl (.cons realHead.typed realTail.typed)) realHead realTail⟩
  | .atom name, _, .atom => ⟨.atom name, .atom (.refl .atom)⟩
  | _, _, .stuck neutral => by
    obtain ⟨term, real⟩ := neutral.realized
    exact ⟨term, real.reflect⟩

theorem Neutral.HasType.realized {ctx : Context} : ∀ {neutral : Neutral} {ty : Ty},
    neutral.HasType ctx ty → ∃ term, Neutral.Realize ctx ty term neutral neutral
  | _, _, .var found => ⟨_, .var found⟩
  | _, _, .app fn arg => by
    obtain ⟨function, realFn⟩ := fn.realized
    obtain ⟨argument, realArg⟩ := arg.realized
    exact ⟨.app function argument, fun added =>
      (realFn added).app (realArg.weaken added).reify⟩
  | _, _, .recNat target base step => by
    obtain ⟨number, realTarget⟩ := target.realized
    obtain ⟨start, realBase⟩ := base.realized
    obtain ⟨next, realStep⟩ := step.realized
    exact ⟨.recNat _ number start next, fun added =>
      (realTarget added).recNat (realBase.weaken added).reify (realStep.weaken added).reify⟩
  | _, _, .car operand => by
    obtain ⟨term, real⟩ := operand.realized
    exact ⟨.car term, fun added => (real added).car⟩
  | _, _, .cdr operand => by
    obtain ⟨term, real⟩ := operand.realized
    exact ⟨.cdr term, fun added => (real added).cdr⟩
  | _, _, .recList target base step => by
    obtain ⟨items, realTarget⟩ := target.realized
    obtain ⟨start, realBase⟩ := base.realized
    obtain ⟨next, realStep⟩ := step.realized
    exact ⟨.recList _ items start next, fun added =>
      (realTarget added).recList (realBase.weaken added).reify (realStep.weaken added).reify⟩

theorem Env.HasType.realized {ctx : Context} : ∀ {env : Env} {entries : Context},
    Env.HasType ctx env entries → ∃ values, Env.Realize ctx entries values env env
  | _, _, .nil => ⟨.var, fun _ _ found => nomatch found⟩
  | _, _, .cons first rest => by
    obtain ⟨term, real⟩ := first.realized
    obtain ⟨values, envs⟩ := rest.realized
    exact ⟨_, envs.push real⟩

end

end EtaLong
