/-
**The typing judgement.**

The rules that say which type a term has in a context, one for each form of term, and that
inference finds exactly the types that they give. A term has at most one type.

* `Term.HasType`: the rules;
* `Term.infer_eq_ok_iff`: inference decides them;
* `Term.HasType.unique`: types are unique.
-/

import EtaLong.Proofs.Outcome
import EtaLong.Typing

namespace EtaLong

namespace Term

/-- **A term has a type in a context.** -/
inductive HasType : Context → Term → Ty → Prop where
  | var {ctx : Context} {index : Nat} {ty : Ty} :
      ctx[index]? = some ty → HasType ctx (.var index) ty
  | lam {ctx : Context} {dom cod : Ty} {body : Term} :
      HasType (dom :: ctx) body cod → HasType ctx (.lam dom body) (.fn dom cod)
  | app {ctx : Context} {dom cod : Ty} {fn arg : Term} :
      HasType ctx fn (.fn dom cod) → HasType ctx arg dom → HasType ctx (.app fn arg) cod
  | atom {ctx : Context} {name : String} : HasType ctx (.atom name) .atom
  | zero {ctx : Context} : HasType ctx .zero .nat
  | succ {ctx : Context} {pred : Term} :
      HasType ctx pred .nat → HasType ctx (.succ pred) .nat
  | recNat {ctx : Context} {motive : Ty} {target base step : Term} :
      HasType ctx target .nat → HasType ctx base motive →
      HasType ctx step (Ty.natStep motive) → HasType ctx (.recNat motive target base step) motive
  | pair {ctx : Context} {fstTy sndTy : Ty} {fst snd : Term} :
      HasType ctx fst fstTy → HasType ctx snd sndTy →
      HasType ctx (.pair fst snd) (.pair fstTy sndTy)
  | car {ctx : Context} {fstTy sndTy : Ty} {operand : Term} :
      HasType ctx operand (.pair fstTy sndTy) → HasType ctx (.car operand) fstTy
  | cdr {ctx : Context} {fstTy sndTy : Ty} {operand : Term} :
      HasType ctx operand (.pair fstTy sndTy) → HasType ctx (.cdr operand) sndTy
  | nil {ctx : Context} {elem : Ty} : HasType ctx (.nil elem) (.list elem)
  | cons {ctx : Context} {elem : Ty} {head tail : Term} :
      HasType ctx head elem → HasType ctx tail (.list elem) →
      HasType ctx (.cons head tail) (.list elem)
  | recList {ctx : Context} {elem motive : Ty} {target base step : Term} :
      HasType ctx target (.list elem) → HasType ctx base motive →
      HasType ctx step (Ty.listStep elem motive) →
      HasType ctx (.recList motive target base step) motive
  | ann {ctx : Context} {ty : Ty} {body : Term} :
      HasType ctx body ty → HasType ctx (.ann ty body) ty

end Term

namespace Typing

/-- A required type is met by that type only. -/
theorem require_eq_ok {rule : String} {expected actual : Ty} :
    require rule expected actual = .ok () ↔ actual = expected := by
  unfold require
  split <;> simp_all

/-- What follows the cells of a well typed term has the type of the whole. -/
theorem rest_of_whole {ctx : Context} {term : Term} {ty : Ty}
    (found : (term.inference ctx).whole = .ok ty) : (term.inference ctx).rest = .ok ty := by
  induction term generalizing ty with
  | cons head tail _ tailFollows =>
    -- The first cell reports the type of its tail, found without a look at the heads.
    simp only [Term.inference] at found ⊢
    obtain ⟨restTy, _, found⟩ := bind_eq_ok.mp found
    cases restTy with
    | list elem =>
      obtain ⟨headTy, _, found⟩ := bind_eq_ok.mp found
      obtain ⟨_, _, found⟩ := bind_eq_ok.mp found
      exact tailFollows found
    | nat => cases found
    | atom => cases found
    | fn _ _ => cases found
    | pair _ _ => cases found
  | var _ => exact found
  | lam _ _ _ => exact found
  | app _ _ _ _ => exact found
  | atom _ => exact found
  | zero => exact found
  | succ _ _ => exact found
  | recNat _ _ _ _ _ _ _ => exact found
  | pair _ _ _ _ => exact found
  | car _ _ => exact found
  | cdr _ _ => exact found
  | nil _ => exact found
  | recList _ _ _ _ _ _ _ => exact found
  | ann _ _ _ => exact found

end Typing

namespace Term

open Typing

/-- A derivation is found by inference. -/
theorem HasType.infer_eq {ctx : Context} {term : Term} {ty : Ty}
    (typed : term.HasType ctx ty) : term.infer ctx = .ok ty := by
  unfold infer
  induction typed with
  | var found => simp [inference, Inference.plain, found]
  | lam _ body => simp [inference, Inference.plain, body, bind, Except.bind, pure, Except.pure]
  | app _ _ fn arg =>
    simp [inference, Inference.plain, fn, arg, require, bind, Except.bind, pure, Except.pure]
  | atom => rfl
  | zero => rfl
  | succ _ pred =>
    simp [inference, Inference.plain, pred, require, bind, Except.bind, pure, Except.pure]
  | recNat _ _ _ target base step =>
    simp [inference, Inference.plain, target, base, step, require, bind, Except.bind, pure,
      Except.pure]
  | pair _ _ fst snd =>
    simp [inference, Inference.plain, fst, snd, bind, Except.bind, pure, Except.pure]
  | car _ operand =>
    simp [inference, Inference.plain, operand, bind, Except.bind, pure, Except.pure]
  | cdr _ operand =>
    simp [inference, Inference.plain, operand, bind, Except.bind, pure, Except.pure]
  | nil => rfl
  | cons _ _ head tail =>
    simp [inference, head, tail, rest_of_whole tail, require, bind, Except.bind]
  | recList _ _ _ target base step =>
    simp [inference, Inference.plain, target, base, step, require, bind, Except.bind, pure,
      Except.pure]
  | ann _ body =>
    simp [inference, Inference.plain, body, require, bind, Except.bind, pure, Except.pure]

/-- What inference finds is derivable. -/
theorem HasType.of_infer_eq {ctx : Context} {term : Term} {ty : Ty}
    (found : term.infer ctx = .ok ty) : term.HasType ctx ty := by
  unfold infer at found
  induction term generalizing ctx ty with
  | var index =>
    simp only [inference, Inference.plain] at found
    cases entry : ctx[index]? with
    | none => simp [entry] at found
    | some other =>
      rw [entry] at found
      cases found
      exact .var entry
  | lam dom body ih =>
    obtain ⟨cod, bodyTy, done⟩ := bind_eq_ok.mp found
    cases done
    exact .lam (ih bodyTy)
  | app fn arg fnIH argIH =>
    obtain ⟨fnTy, fnFound, found⟩ := bind_eq_ok.mp found
    cases fnTy with
    | fn dom cod =>
      obtain ⟨argTy, argFound, found⟩ := bind_eq_ok.mp found
      obtain ⟨_, fits, done⟩ := bind_eq_ok.mp found
      cases require_eq_ok.mp fits
      cases done
      exact .app (fnIH fnFound) (argIH argFound)
    | nat => cases found
    | atom => cases found
    | pair _ _ => cases found
    | list _ => cases found
  | atom name =>
    cases found
    exact .atom
  | zero =>
    cases found
    exact .zero
  | succ pred ih =>
    obtain ⟨predTy, predFound, found⟩ := bind_eq_ok.mp found
    obtain ⟨_, fits, done⟩ := bind_eq_ok.mp found
    cases require_eq_ok.mp fits
    cases done
    exact .succ (ih predFound)
  | recNat motive target base step targetIH baseIH stepIH =>
    obtain ⟨targetTy, targetFound, found⟩ := bind_eq_ok.mp found
    obtain ⟨_, targetFits, found⟩ := bind_eq_ok.mp found
    obtain ⟨baseTy, baseFound, found⟩ := bind_eq_ok.mp found
    obtain ⟨_, baseFits, found⟩ := bind_eq_ok.mp found
    obtain ⟨stepTy, stepFound, found⟩ := bind_eq_ok.mp found
    obtain ⟨_, stepFits, done⟩ := bind_eq_ok.mp found
    cases require_eq_ok.mp targetFits
    cases require_eq_ok.mp baseFits
    cases require_eq_ok.mp stepFits
    cases done
    exact .recNat (targetIH targetFound) (baseIH baseFound) (stepIH stepFound)
  | pair fst snd fstIH sndIH =>
    obtain ⟨fstTy, fstFound, found⟩ := bind_eq_ok.mp found
    obtain ⟨sndTy, sndFound, done⟩ := bind_eq_ok.mp found
    cases done
    exact .pair (fstIH fstFound) (sndIH sndFound)
  | car operand ih =>
    obtain ⟨operandTy, operandFound, found⟩ := bind_eq_ok.mp found
    cases operandTy with
    | pair fstTy sndTy =>
      cases found
      exact .car (ih operandFound)
    | nat => cases found
    | atom => cases found
    | fn _ _ => cases found
    | list _ => cases found
  | cdr operand ih =>
    obtain ⟨operandTy, operandFound, found⟩ := bind_eq_ok.mp found
    cases operandTy with
    | pair fstTy sndTy =>
      cases found
      exact .cdr (ih operandFound)
    | nat => cases found
    | atom => cases found
    | fn _ _ => cases found
    | list _ => cases found
  | nil elem =>
    cases found
    exact .nil
  | cons head tail headIH tailIH =>
    obtain ⟨restTy, restFound, found⟩ := bind_eq_ok.mp found
    cases restTy with
    | list elem =>
      obtain ⟨headTy, headFound, found⟩ := bind_eq_ok.mp found
      obtain ⟨_, fits, tailFound⟩ := bind_eq_ok.mp found
      cases require_eq_ok.mp fits
      -- The tail has the type that its own rest has, which is the list type found first.
      cases restFound.symm.trans (rest_of_whole tailFound)
      exact .cons (headIH headFound) (tailIH tailFound)
    | nat => cases found
    | atom => cases found
    | fn _ _ => cases found
    | pair _ _ => cases found
  | recList motive target base step targetIH baseIH stepIH =>
    obtain ⟨targetTy, targetFound, found⟩ := bind_eq_ok.mp found
    cases targetTy with
    | list elem =>
      obtain ⟨baseTy, baseFound, found⟩ := bind_eq_ok.mp found
      obtain ⟨_, baseFits, found⟩ := bind_eq_ok.mp found
      obtain ⟨stepTy, stepFound, found⟩ := bind_eq_ok.mp found
      obtain ⟨_, stepFits, done⟩ := bind_eq_ok.mp found
      cases require_eq_ok.mp baseFits
      cases require_eq_ok.mp stepFits
      cases done
      exact .recList (targetIH targetFound) (baseIH baseFound) (stepIH stepFound)
    | nat => cases found
    | atom => cases found
    | fn _ _ => cases found
    | pair _ _ => cases found
  | ann expected body ih =>
    obtain ⟨bodyTy, bodyFound, found⟩ := bind_eq_ok.mp found
    obtain ⟨_, fits, done⟩ := bind_eq_ok.mp found
    cases require_eq_ok.mp fits
    cases done
    exact .ann (ih bodyFound)

/-- **Inference finds exactly the derivable types.** -/
theorem infer_eq_ok_iff {ctx : Context} {term : Term} {ty : Ty} :
    term.infer ctx = .ok ty ↔ term.HasType ctx ty :=
  ⟨HasType.of_infer_eq, HasType.infer_eq⟩

/-- A term has at most one type. -/
theorem HasType.unique {ctx : Context} {term : Term} {ty other : Ty}
    (first : term.HasType ctx ty) (second : term.HasType ctx other) : ty = other :=
  Except.ok.inj (first.infer_eq.symm.trans second.infer_eq)

end Term

end EtaLong
