/-
**Evaluation and reading back in big steps.**

What evaluation, application, recursion and reading back end with, once they have enough fuel, as
relations; and the rules by which the result for a form comes from the results for its parts.
Recursion and reading back take numbers and lists apart one constructor at a time.

* `Term.Evaluates`, `Value.Applies`, `Value.RecursNat`, `Value.RecursList`: results of evaluation;
* `Value.ReadsBack`, `Neutral.ReadsBack`: results of reading back;
* `Term.Evaluates.weaken`: evaluation in a larger context.
-/

import EtaLong.Proofs.Value.Weakening
import EtaLong.Value.ReadBack

namespace EtaLong

/-! ### Evaluation -/

/-- **A term evaluates to a value** in an environment. -/
def Term.Evaluates (env : Env) (term : Term) (value : Value) : Prop :=
  Yields (fun fuel => term.eval fuel env) value

/-- **A value applied to an argument** gives a result. -/
def Value.Applies (fn arg result : Value) : Prop :=
  Yields (fun fuel => Value.apply fuel fn arg) result

/-- Recursion over a number gives a result. -/
def Value.RecursNat (motive : Ty) (target base step result : Value) : Prop :=
  Yields (fun fuel => target.recNat (Value.apply fuel) motive base step) result

/-- Recursion over a list gives a result. -/
def Value.RecursList (motive : Ty) (target base step result : Value) : Prop :=
  Yields (fun fuel => target.recList (Value.apply fuel) motive base step) result

namespace Value

variable {motive : Ty} {base step result : Value}

/-- A closure evaluates its body where its argument is bound. -/
theorem Applies.closure {env : Env} {body : Term} {arg : Value}
    (evaluates : body.Evaluates (arg :: env) result) : Applies (.closure env body) arg result :=
  Yields.of_succ evaluates

/-- A stuck function stays stuck. -/
theorem Applies.stuck (neutral : Neutral) (arg : Value) :
    Applies (.stuck neutral) arg (.stuck (.app neutral arg)) :=
  Yields.of_forall fun fuel => by cases fuel <;> rfl

theorem RecursNat.zero : RecursNat motive .zero base step base :=
  Yields.of_forall fun _ => rfl

theorem RecursNat.stuck (neutral : Neutral) :
    RecursNat motive (.stuck neutral) base step (.stuck (.recNat motive neutral base step)) :=
  Yields.of_forall fun _ => rfl

/-- Recursion over a successor: the result for the predecessor, then one step. -/
theorem RecursNat.succ {pred inner stepped : Value}
    (recurs : RecursNat motive pred base step inner) (first : Applies step pred stepped)
    (second : Applies stepped inner result) :
    RecursNat motive (.succ pred) base step result := by
  unfold RecursNat
  simp only [recNat_succ]
  exact Yields.bind recurs (Yields.bind first second)

theorem RecursList.nil : RecursList motive .nil base step base :=
  Yields.of_forall fun _ => rfl

theorem RecursList.stuck (neutral : Neutral) :
    RecursList motive (.stuck neutral) base step (.stuck (.recList motive neutral base step)) :=
  Yields.of_forall fun _ => rfl

/-- Recursion over a cell: the result for the tail, then one step. -/
theorem RecursList.cons {head tail inner first second : Value}
    (recurs : RecursList motive tail base step inner) (atHead : Applies step head first)
    (atTail : Applies first tail second) (atInner : Applies second inner result) :
    RecursList motive (.cons head tail) base step result := by
  unfold RecursList
  simp only [recList_cons]
  exact Yields.bind recurs (Yields.bind atHead (Yields.bind atTail atInner))

/-- An application has one result. -/
theorem Applies.unique {fn arg other : Value} (first : Applies fn arg result)
    (second : Applies fn arg other) : result = other :=
  Yields.unique first second

end Value

namespace Term.Evaluates

open Value

variable {env : Env} {motive : Ty} {result : Value}

theorem var {index : Nat} (found : env[index]? = some result) :
    (Term.var index).Evaluates env result :=
  Yields.of_forall fun fuel => by simp only [eval, evalWith, found]

/-- A variable evaluates to what it is bound to. -/
theorem found {index : Nat} (evaluates : (Term.var index).Evaluates env result) :
    env[index]? = some result := by
  obtain ⟨fuel, run⟩ := evaluates.exists_run
  simp only [eval, evalWith] at run
  cases bound : env[index]? with
  | none =>
    rw [bound] at run
    cases run
  | some value =>
    rw [bound] at run
    cases run
    rfl

theorem lam (env : Env) (dom : Ty) (body : Term) :
    (Term.lam dom body).Evaluates env (.closure env body) :=
  Yields.of_forall fun _ => rfl

theorem app {fn arg : Term} {function argument : Value} (fnEval : fn.Evaluates env function)
    (argEval : arg.Evaluates env argument) (applied : Applies function argument result) :
    (Term.app fn arg).Evaluates env result :=
  Yields.bind fnEval (Yields.bind argEval applied)

theorem atom (env : Env) (name : String) : (Term.atom name).Evaluates env (.atom name) :=
  Yields.of_forall fun _ => rfl

theorem zero (env : Env) : Term.zero.Evaluates env .zero := Yields.of_forall fun _ => rfl

theorem succ {pred : Term} {value : Value} (predEval : pred.Evaluates env value) :
    (Term.succ pred).Evaluates env (.succ value) :=
  Yields.map Value.succ predEval

theorem recNat {target base step : Term} {number start next : Value}
    (targetEval : target.Evaluates env number) (baseEval : base.Evaluates env start)
    (stepEval : step.Evaluates env next) (recurs : RecursNat motive number start next result) :
    (Term.recNat motive target base step).Evaluates env result :=
  Yields.bind targetEval (Yields.bind baseEval (Yields.bind stepEval recurs))

theorem pair {fst snd : Term} {first second : Value} (fstEval : fst.Evaluates env first)
    (sndEval : snd.Evaluates env second) :
    (Term.pair fst snd).Evaluates env (.pair first second) :=
  Yields.bind fstEval (Yields.map (Value.pair first) sndEval)

theorem car {operand : Term} {value : Value} (operandEval : operand.Evaluates env value)
    (taken : value.car = .ok result) : (Term.car operand).Evaluates env result :=
  Yields.bind operandEval (Yields.of_forall fun _ => taken)

theorem cdr {operand : Term} {value : Value} (operandEval : operand.Evaluates env value)
    (taken : value.cdr = .ok result) : (Term.cdr operand).Evaluates env result :=
  Yields.bind operandEval (Yields.of_forall fun _ => taken)

theorem nil (env : Env) (elem : Ty) : (Term.nil elem).Evaluates env .nil :=
  Yields.of_forall fun _ => rfl

theorem cons {head tail : Term} {first rest : Value} (headEval : head.Evaluates env first)
    (tailEval : tail.Evaluates env rest) : (Term.cons head tail).Evaluates env (.cons first rest) :=
  Yields.bind tailEval (Yields.map (fun first => Value.cons first rest) headEval)

theorem recList {target base step : Term} {items start next : Value}
    (targetEval : target.Evaluates env items) (baseEval : base.Evaluates env start)
    (stepEval : step.Evaluates env next) (recurs : RecursList motive items start next result) :
    (Term.recList motive target base step).Evaluates env result :=
  Yields.bind targetEval (Yields.bind baseEval (Yields.bind stepEval recurs))

theorem ann {body : Term} (ty : Ty) (bodyEval : body.Evaluates env result) :
    (Term.ann ty body).Evaluates env result :=
  bodyEval

/-- A term has one value in an environment. -/
theorem unique {term : Term} {other : Value} (first : term.Evaluates env result)
    (second : term.Evaluates env other) : result = other :=
  Yields.unique first second

/-- **Evaluation in a larger context** gives the moved value. -/
theorem weaken {term : Term} (evaluates : term.Evaluates env result) (w : Weakening) :
    term.Evaluates (env.weaken w) (result.weaken w) := by
  obtain ⟨enough, ends⟩ := evaluates
  exact ⟨enough, fun fuel bound => (eval_weaken w fuel env term).moved (ends fuel bound)⟩

end Term.Evaluates

/-! ### Reading back -/

/-- **A value reads back to a term** at a type in a context. -/
def Value.ReadsBack (ctx : Context) (ty : Ty) (value : Value) (term : Term) : Prop :=
  Yields (fun fuel => readBack fuel ctx ty value) term

/-- **A neutral reads back to a term** and its type in a context. -/
def Neutral.ReadsBack (ctx : Context) (neutral : Neutral) (term : Term) (ty : Ty) : Prop :=
  Yields (fun fuel => readBackNeutral fuel ctx neutral) (term, ty)

namespace Value

variable {ctx : Context} {elem : Ty}

/-- A successor of a successor is read back as one more successor. -/
theorem readBack_succ_succ (fuel : Nat) (ctx : Context) (pred : Value) :
    readBack (fuel + 1) ctx .nat (.succ (.succ pred)) = (do
      return .succ (← readBack (fuel + 1) ctx .nat (.succ pred))) := by
  have taken : (Value.succ pred).predecessors [] =
      ((pred.predecessors []).1 ++ [pred], (pred.predecessors []).2) :=
    predecessors_append [] [pred] pred
  simp only [readBack, taken, List.length_append, List.length_singleton, Term.succs_succ]
  cases readBack fuel ctx .nat (pred.predecessors []).2 <;> rfl

/-- A value is a successor or has no predecessor. -/
theorem predecessors_cases (value : Value) :
    (∃ pred, value = .succ pred) ∨ value.predecessors [] = ([], value) := by
  cases value with
  | succ pred => exact .inl ⟨pred, rfl⟩
  | _ => exact .inr rfl

/-- A successor of what is no successor is read back after it. -/
theorem readBack_succ_last (fuel : Nat) (ctx : Context) {pred : Value}
    (last : pred.predecessors [] = ([], pred)) :
    readBack (fuel + 1) ctx .nat (.succ pred) = (do
      return .succ (← readBack fuel ctx .nat pred)) := by
  simp only [readBack, last, List.length_nil, Term.succs_succ]
  rfl

/-- A cell in front of a cell is read back as one more cell. -/
theorem readBack_cons_cons (fuel : Nat) (ctx : Context) (elem : Ty) (head second rest : Value) :
    readBack (fuel + 1) ctx (.list elem) (.cons head (.cons second rest)) = (do
      let read ← readBack (fuel + 1) ctx (.list elem) (.cons second rest)
      return .cons (← readBack fuel ctx elem head) read) := by
  have taken : (Value.cons head (.cons second rest)).cells [] =
      (((Value.cons second rest).cells []).1 ++ [(head, .cons second rest)],
        ((Value.cons second rest).cells []).2) :=
    cells_append [] [(head, .cons second rest)] (.cons second rest)
  simp only [readBack, taken, List.foldlM_append, List.foldlM_cons, List.foldlM_nil, bind_assoc,
    pure_bind]

/-- A value is a cell or has none. -/
theorem cells_cases (value : Value) :
    (∃ head tail, value = .cons head tail) ∨ value.cells [] = ([], value) := by
  cases value with
  | cons head tail => exact .inl ⟨head, tail, rfl⟩
  | _ => exact .inr rfl

/-- A cell in front of what is no cell is read back after it. -/
theorem readBack_cons_last (fuel : Nat) (ctx : Context) (elem : Ty) (head : Value) {rest : Value}
    (last : rest.cells [] = ([], rest)) :
    readBack (fuel + 1) ctx (.list elem) (.cons head rest) = (do
      let read ← readBack fuel ctx (.list elem) rest
      return .cons (← readBack fuel ctx elem head) read) := by
  have taken : (Value.cons head rest).cells [] = ([(head, rest)], rest) := by
    have met := cells_append [] [(head, rest)] rest
    rw [last] at met
    exact met
  simp only [readBack, taken, List.foldlM_cons, List.foldlM_nil, bind_pure]

namespace ReadsBack

theorem fn {dom cod : Ty} {value result : Value} {body : Term}
    (opened : Applies (value.weaken Weakening.fresh) (.ofIndex 0) result)
    (reads : ReadsBack (dom :: ctx) cod result body) :
    ReadsBack ctx (.fn dom cod) value (.lam dom body) :=
  Yields.of_succ (Yields.bind opened (Yields.map (Term.lam dom) reads))

/-- A stuck value of a type that is no function type is read back as it is. -/
theorem stuck {ty other : Ty} {neutral : Neutral} {term : Term}
    (plain : ty.arity = 0) (reads : neutral.ReadsBack ctx term other) :
    ReadsBack ctx ty (.stuck neutral) term := by
  refine Yields.of_succ ?_
  have mapped := Yields.map Prod.fst reads
  cases ty with
  | fn dom cod => exact absurd plain (Nat.succ_ne_zero cod.arity)
  | nat => exact mapped
  | atom => exact mapped
  | pair _ _ => exact mapped
  | list _ => exact mapped

theorem zero (ctx : Context) : ReadsBack ctx .nat .zero .zero :=
  Yields.of_succ (Yields.of_forall fun _ => rfl)

theorem succ {value : Value} {term : Term} (reads : ReadsBack ctx .nat value term) :
    ReadsBack ctx .nat (.succ value) (.succ term) := by
  have outermost : Yields (fun fuel => (do return Term.succ (← readBack fuel ctx .nat value)))
      (Term.succ term) := Yields.map Term.succ reads
  cases value with
  | succ pred =>
    -- Both successors are counted in the one call that reads the outer one back.
    obtain ⟨enough, ends⟩ := outermost
    refine Yields.of_succ ⟨enough, fun fuel bound => ?_⟩
    exact (readBack_succ_succ fuel ctx pred).trans (ends (fuel + 1) (by omega))
  | _ => exact Yields.of_succ outermost

theorem atom (ctx : Context) (name : String) : ReadsBack ctx .atom (.atom name) (.atom name) :=
  Yields.of_succ (Yields.of_forall fun _ => rfl)

theorem pair {fstTy sndTy : Ty} {first second : Value} {fst snd : Term}
    (fstReads : ReadsBack ctx fstTy first fst) (sndReads : ReadsBack ctx sndTy second snd) :
    ReadsBack ctx (.pair fstTy sndTy) (.pair first second) (.pair fst snd) :=
  Yields.of_succ (Yields.bind fstReads (Yields.map (Term.pair fst) sndReads))

theorem nil (ctx : Context) (elem : Ty) : ReadsBack ctx (.list elem) .nil (.nil elem) :=
  Yields.of_succ (Yields.of_forall fun _ => rfl)

theorem cons {first rest : Value} {head tail : Term} (headReads : ReadsBack ctx elem first head)
    (tailReads : ReadsBack ctx (.list elem) rest tail) :
    ReadsBack ctx (.list elem) (.cons first rest) (.cons head tail) := by
  have headLast := Yields.map (fun head => Term.cons head tail) headReads
  refine Yields.of_succ ?_
  rcases cells_cases rest with ⟨second, others, rfl⟩ | last
  · -- Both cells are met in the one call that reads the outer one back.
    obtain ⟨enough, ends⟩ := tailReads
    have later : Yields (fun fuel => readBack (fuel + 1) ctx (.list elem) (.cons second others))
        tail := ⟨enough, fun fuel bound => ends (fuel + 1) (by omega)⟩
    simp only [readBack_cons_cons]
    exact Yields.bind later headLast
  · simp only [readBack_cons_last _ ctx elem first last]
    exact Yields.bind tailReads headLast

end ReadsBack

end Value

namespace Neutral.ReadsBack

open Value

variable {ctx : Context} {motive elem : Ty}

theorem var {index : Nat} {ty : Ty} (found : ctx[index]? = some ty) :
    (Neutral.var index).ReadsBack ctx (.var index) ty :=
  Yields.of_succ (Yields.of_forall fun fuel => by
    simp only [readBackNeutral, Int.toNat_natCast, found]
    exact if_neg (by omega))

theorem app {dom cod : Ty} {neutral : Neutral} {argument : Value} {fn arg : Term}
    (fnReads : neutral.ReadsBack ctx fn (.fn dom cod))
    (argReads : argument.ReadsBack ctx dom arg) :
    (Neutral.app neutral argument).ReadsBack ctx (.app fn arg) cod :=
  Yields.of_succ (Yields.bind fnReads (Yields.map (fun arg => (Term.app fn arg, cod)) argReads))

theorem recNat {ty : Ty} {neutral : Neutral} {start next : Value} {target base step : Term}
    (targetReads : neutral.ReadsBack ctx target ty) (baseReads : start.ReadsBack ctx motive base)
    (stepReads : next.ReadsBack ctx (Ty.natStep motive) step) :
    (Neutral.recNat motive neutral start next).ReadsBack ctx
      (.recNat motive target base step) motive :=
  Yields.of_succ (Yields.bind targetReads (Yields.bind baseReads
    (Yields.map (fun step => (Term.recNat motive target base step, motive)) stepReads)))

theorem car {fstTy sndTy : Ty} {neutral : Neutral} {operand : Term}
    (reads : neutral.ReadsBack ctx operand (.pair fstTy sndTy)) :
    (Neutral.car neutral).ReadsBack ctx (.car operand) fstTy :=
  Yields.of_succ (Yields.bind reads (Yields.of_forall fun _ => rfl))

theorem cdr {fstTy sndTy : Ty} {neutral : Neutral} {operand : Term}
    (reads : neutral.ReadsBack ctx operand (.pair fstTy sndTy)) :
    (Neutral.cdr neutral).ReadsBack ctx (.cdr operand) sndTy :=
  Yields.of_succ (Yields.bind reads (Yields.of_forall fun _ => rfl))

theorem recList {neutral : Neutral} {start next : Value} {target base step : Term}
    (targetReads : neutral.ReadsBack ctx target (.list elem))
    (baseReads : start.ReadsBack ctx motive base)
    (stepReads : next.ReadsBack ctx (Ty.listStep elem motive) step) :
    (Neutral.recList motive neutral start next).ReadsBack ctx
      (.recList motive target base step) motive :=
  Yields.of_succ (Yields.bind targetReads (Yields.bind baseReads
    (Yields.map (fun step => (Term.recList motive target base step, motive)) stepReads)))

/-- A neutral reads back to one term and one type. -/
theorem unique {neutral : Neutral} {term other : Term} {ty otherTy : Ty}
    (first : neutral.ReadsBack ctx term ty) (second : neutral.ReadsBack ctx other otherTy) :
    term = other ∧ ty = otherTy :=
  Prod.mk.inj (Yields.unique first second)

end Neutral.ReadsBack

end EtaLong
