/-
**Conversion.**

The equality of terms of one type in one context that the calculus is about: functions compute
and are determined by what they do to their argument, projections take pairs apart, recursion
follows its target, and an annotation is only a remark. Everything may be replaced inside a term,
also below binders. Pairs and lists have no rule of their own but computation.

* `Term.Convertible`: the rules;
* `Term.Convertible.typed`: both sides have the type;
* `Term.Convertible.subst`, `Term.Convertible.weaken_front`: conversion in another context.
-/

import EtaLong.Proofs.Substitution

namespace EtaLong

namespace Term

/-- **Two terms of a type are convertible in a context.** -/
inductive Convertible : Context → Ty → Term → Term → Prop where
  | refl {ctx : Context} {ty : Ty} {term : Term} :
      HasType ctx term ty → Convertible ctx ty term term
  | symm {ctx : Context} {ty : Ty} {left right : Term} :
      Convertible ctx ty left right → Convertible ctx ty right left
  | trans {ctx : Context} {ty : Ty} {left middle right : Term} :
      Convertible ctx ty left middle → Convertible ctx ty middle right →
      Convertible ctx ty left right
  -- Replacement inside a term.
  | lam {ctx : Context} {dom cod : Ty} {body body' : Term} :
      Convertible (dom :: ctx) cod body body' →
      Convertible ctx (.fn dom cod) (.lam dom body) (.lam dom body')
  | app {ctx : Context} {dom cod : Ty} {fn fn' arg arg' : Term} :
      Convertible ctx (.fn dom cod) fn fn' → Convertible ctx dom arg arg' →
      Convertible ctx cod (.app fn arg) (.app fn' arg')
  | succ {ctx : Context} {pred pred' : Term} :
      Convertible ctx .nat pred pred' → Convertible ctx .nat (.succ pred) (.succ pred')
  | recNat {ctx : Context} {motive : Ty} {target target' base base' step step' : Term} :
      Convertible ctx .nat target target' → Convertible ctx motive base base' →
      Convertible ctx (Ty.natStep motive) step step' →
      Convertible ctx motive (.recNat motive target base step) (.recNat motive target' base' step')
  | pair {ctx : Context} {fstTy sndTy : Ty} {fst fst' snd snd' : Term} :
      Convertible ctx fstTy fst fst' → Convertible ctx sndTy snd snd' →
      Convertible ctx (.pair fstTy sndTy) (.pair fst snd) (.pair fst' snd')
  | car {ctx : Context} {fstTy sndTy : Ty} {operand operand' : Term} :
      Convertible ctx (.pair fstTy sndTy) operand operand' →
      Convertible ctx fstTy (.car operand) (.car operand')
  | cdr {ctx : Context} {fstTy sndTy : Ty} {operand operand' : Term} :
      Convertible ctx (.pair fstTy sndTy) operand operand' →
      Convertible ctx sndTy (.cdr operand) (.cdr operand')
  | cons {ctx : Context} {elem : Ty} {head head' tail tail' : Term} :
      Convertible ctx elem head head' → Convertible ctx (.list elem) tail tail' →
      Convertible ctx (.list elem) (.cons head tail) (.cons head' tail')
  | recList {ctx : Context} {elem motive : Ty} {target target' base base' step step' : Term} :
      Convertible ctx (.list elem) target target' → Convertible ctx motive base base' →
      Convertible ctx (Ty.listStep elem motive) step step' →
      Convertible ctx motive (.recList motive target base step)
        (.recList motive target' base' step')
  | ann {ctx : Context} {ty : Ty} {body body' : Term} :
      Convertible ctx ty body body' → Convertible ctx ty (.ann ty body) (.ann ty body')
  -- Computation.
  | beta {ctx : Context} {dom cod : Ty} {body arg : Term} :
      HasType (dom :: ctx) body cod → HasType ctx arg dom →
      Convertible ctx cod (.app (.lam dom body) arg) (body.instantiate arg)
  | eta {ctx : Context} {dom cod : Ty} {fn : Term} :
      HasType ctx fn (.fn dom cod) →
      Convertible ctx (.fn dom cod) fn (.lam dom (.app (fn.weaken Weakening.fresh) (.var 0)))
  | carPair {ctx : Context} {fstTy sndTy : Ty} {fst snd : Term} :
      HasType ctx fst fstTy → HasType ctx snd sndTy →
      Convertible ctx fstTy (.car (.pair fst snd)) fst
  | cdrPair {ctx : Context} {fstTy sndTy : Ty} {fst snd : Term} :
      HasType ctx fst fstTy → HasType ctx snd sndTy →
      Convertible ctx sndTy (.cdr (.pair fst snd)) snd
  | recNatZero {ctx : Context} {motive : Ty} {base step : Term} :
      HasType ctx base motive → HasType ctx step (Ty.natStep motive) →
      Convertible ctx motive (.recNat motive .zero base step) base
  | recNatSucc {ctx : Context} {motive : Ty} {pred base step : Term} :
      HasType ctx pred .nat → HasType ctx base motive → HasType ctx step (Ty.natStep motive) →
      Convertible ctx motive (.recNat motive (.succ pred) base step)
        (.app (.app step pred) (.recNat motive pred base step))
  | recListNil {ctx : Context} {elem motive : Ty} {base step : Term} :
      HasType ctx base motive → HasType ctx step (Ty.listStep elem motive) →
      Convertible ctx motive (.recList motive (.nil elem) base step) base
  | recListCons {ctx : Context} {elem motive : Ty} {head tail base step : Term} :
      HasType ctx head elem → HasType ctx tail (.list elem) → HasType ctx base motive →
      HasType ctx step (Ty.listStep elem motive) →
      Convertible ctx motive (.recList motive (.cons head tail) base step)
        (.app (.app (.app step head) tail) (.recList motive tail base step))
  | annErase {ctx : Context} {ty : Ty} {body : Term} :
      HasType ctx body ty → Convertible ctx ty (.ann ty body) body

/-- The eta expansion of a function has its type. -/
theorem HasType.etaExpand {ctx : Context} {dom cod : Ty} {fn : Term}
    (typed : fn.HasType ctx (.fn dom cod)) :
    (Term.lam dom (.app (fn.weaken Weakening.fresh) (.var 0))).HasType ctx (.fn dom cod) :=
  .lam (.app (typed.weaken_fresh dom) (.var rfl))

namespace Convertible

variable {ctx : Context} {ty : Ty} {left right : Term}

/-- **Both sides have the type.** -/
theorem typed (conv : Convertible ctx ty left right) :
    left.HasType ctx ty ∧ right.HasType ctx ty := by
  induction conv with
  | refl typed => exact ⟨typed, typed⟩
  | symm _ ih => exact ⟨ih.2, ih.1⟩
  | trans _ _ first second => exact ⟨first.1, second.2⟩
  | lam _ body => exact ⟨.lam body.1, .lam body.2⟩
  | app _ _ fn arg => exact ⟨.app fn.1 arg.1, .app fn.2 arg.2⟩
  | succ _ pred => exact ⟨.succ pred.1, .succ pred.2⟩
  | recNat _ _ _ target base step =>
    exact ⟨.recNat target.1 base.1 step.1, .recNat target.2 base.2 step.2⟩
  | pair _ _ fst snd => exact ⟨.pair fst.1 snd.1, .pair fst.2 snd.2⟩
  | car _ operand => exact ⟨.car operand.1, .car operand.2⟩
  | cdr _ operand => exact ⟨.cdr operand.1, .cdr operand.2⟩
  | cons _ _ head tail => exact ⟨.cons head.1 tail.1, .cons head.2 tail.2⟩
  | recList _ _ _ target base step =>
    exact ⟨.recList target.1 base.1 step.1, .recList target.2 base.2 step.2⟩
  | ann _ body => exact ⟨.ann body.1, .ann body.2⟩
  | beta body arg => exact ⟨.app (.lam body) arg, body.instantiate arg⟩
  | eta fn => exact ⟨fn, fn.etaExpand⟩
  | carPair fst snd => exact ⟨.car (.pair fst snd), fst⟩
  | cdrPair fst snd => exact ⟨.cdr (.pair fst snd), snd⟩
  | recNatZero base step => exact ⟨.recNat .zero base step, base⟩
  | recNatSucc pred base step =>
    exact ⟨.recNat (.succ pred) base step, .app (.app step pred) (.recNat pred base step)⟩
  | recListNil base step => exact ⟨.recList .nil base step, base⟩
  | recListCons head tail base step =>
    exact ⟨.recList (.cons head tail) base step,
      .app (.app (.app step head) tail) (.recList tail base step)⟩
  | annErase body => exact ⟨.ann body, body⟩

/-- **Substitution keeps conversion.** -/
theorem subst {entries : Context} {values : Nat → Term}
    (conv : Convertible entries ty left right) (supply : Supply ctx values entries) :
    Convertible ctx ty (left.subst values) (right.subst values) := by
  induction conv generalizing ctx values with
  | refl typed => exact .refl (typed.subst supply)
  | symm _ ih => exact .symm (ih supply)
  | trans _ _ first second => exact .trans (first supply) (second supply)
  | lam _ body => exact .lam (body (supply.under _))
  | app _ _ fn arg => exact .app (fn supply) (arg supply)
  | succ _ pred => exact .succ (pred supply)
  | recNat _ _ _ target base step => exact .recNat (target supply) (base supply) (step supply)
  | pair _ _ fst snd => exact .pair (fst supply) (snd supply)
  | car _ operand => exact .car (operand supply)
  | cdr _ operand => exact .cdr (operand supply)
  | cons _ _ head tail => exact .cons (head supply) (tail supply)
  | recList _ _ _ target base step => exact .recList (target supply) (base supply) (step supply)
  | ann _ body => exact .ann (body supply)
  | beta body arg =>
    rw [subst_instantiate]
    exact .beta (body.subst (supply.under _)) (arg.subst supply)
  | eta fn =>
    have expanded := Convertible.eta (fn.subst supply)
    rw [← weaken_fresh_subst] at expanded
    exact expanded
  | carPair fst snd => exact .carPair (fst.subst supply) (snd.subst supply)
  | cdrPair fst snd => exact .cdrPair (fst.subst supply) (snd.subst supply)
  | recNatZero base step => exact .recNatZero (base.subst supply) (step.subst supply)
  | recNatSucc pred base step =>
    exact .recNatSucc (pred.subst supply) (base.subst supply) (step.subst supply)
  | recListNil base step => exact .recListNil (base.subst supply) (step.subst supply)
  | recListCons head tail base step =>
    exact .recListCons (head.subst supply) (tail.subst supply) (base.subst supply)
      (step.subst supply)
  | annErase body => exact .annErase (body.subst supply)

/-- New entries in front keep conversion. -/
theorem weaken_front (conv : Convertible ctx ty left right) (added : Context) :
    Convertible (added ++ ctx) ty (left.weaken (.front added.length))
      (right.weaken (.front added.length)) := by
  have supply : Supply (added ++ ctx) (fun index => (var index).weaken (.front added.length)) ctx :=
    fun index entry found => (HasType.var found).weaken_front added
  have moved := conv.subst supply
  rwa [← weaken_front_subst, ← weaken_front_subst, subst_var, subst_var] at moved

end Convertible

end Term

end EtaLong
