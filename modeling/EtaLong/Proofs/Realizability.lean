/-
**Values that realize a term.**

Two values realize a term of a type when both behave as the term does. A number or a list realizes
a term that is convertible to it, constructor by constructor; a function does when it takes
arguments that realize a term to results that realize the application, in every larger context; a
stuck value does when it reads back to a term that is convertible to it. At each type this is a
partial equivalence of values that larger contexts and conversion keep.

What makes it useful is that both values then read back to one and the same term, which is
convertible to the one they realize.

* `Neutral.Realize`, `Value.Realize`: the relation;
* `Value.Realize.symm`, `Value.Realize.trans`, `Value.Realize.weaken`, `Value.Realize.convert`;
* `Value.Realize.reify`: both values read back to one term;
* `Neutral.Realize.reflect`: stuck values realize what they read back to.
-/

import EtaLong.Proofs.Conversion
import EtaLong.Proofs.Value.BigStep

namespace EtaLong

open Term (Convertible)

/-! ### The relation -/

/-- **Two values read alike as a term**: both read back to one term, which is convertible to it. -/
def Value.ReadAlike (ctx : Context) (ty : Ty) (term : Term) (left right : Value) : Prop :=
  ∃ read : Term,
    left.ReadsBack ctx ty read ∧ right.ReadsBack ctx ty read ∧ Convertible ctx ty read term

/-- **Two neutrals read alike as a term.** -/
def Neutral.ReadAlike (ctx : Context) (ty : Ty) (term : Term) (left right : Neutral) : Prop :=
  ∃ read : Term,
    left.ReadsBack ctx read ty ∧ right.ReadsBack ctx read ty ∧ Convertible ctx ty read term

/-- **Two neutrals realize a term** when they read alike as it in every larger context. -/
def Neutral.Realize (ctx : Context) (ty : Ty) (term : Term) (left right : Neutral) : Prop :=
  ∀ added : Context, Neutral.ReadAlike (added ++ ctx) ty (term.weaken (.front added.length))
    (left.weaken (.front added.length)) (right.weaken (.front added.length))

namespace Value

/-- Numbers that realize a term. -/
inductive RealizeNumber (ctx : Context) : Term → Value → Value → Prop where
  | zero {term : Term} :
      Convertible ctx .nat term .zero → RealizeNumber ctx term .zero .zero
  | succ {term pred : Term} {left right : Value} :
      Convertible ctx .nat term (.succ pred) → RealizeNumber ctx pred left right →
      RealizeNumber ctx term (.succ left) (.succ right)
  | stuck {term : Term} {left right : Neutral} :
      Neutral.Realize ctx .nat term left right → RealizeNumber ctx term (.stuck left) (.stuck right)

/-- Atoms that realize a term. -/
inductive RealizeAtom (ctx : Context) : Term → Value → Value → Prop where
  | atom {term : Term} {name : String} :
      Convertible ctx .atom term (.atom name) → RealizeAtom ctx term (.atom name) (.atom name)
  | stuck {term : Term} {left right : Neutral} :
      Neutral.Realize ctx .atom term left right → RealizeAtom ctx term (.stuck left) (.stuck right)

/-- Pairs that realize a term, given what realizes terms of the types of their components. -/
inductive RealizePair (ctx : Context) (fstTy sndTy : Ty)
    (realizeFst realizeSnd : Term → Value → Value → Prop) : Term → Value → Value → Prop where
  | pair {term fst snd : Term} {left right left' right' : Value} :
      Convertible ctx (.pair fstTy sndTy) term (.pair fst snd) →
      realizeFst fst left right → realizeSnd snd left' right' →
      RealizePair ctx fstTy sndTy realizeFst realizeSnd term (.pair left left') (.pair right right')
  | stuck {term : Term} {left right : Neutral} :
      Neutral.Realize ctx (.pair fstTy sndTy) term left right →
      RealizePair ctx fstTy sndTy realizeFst realizeSnd term (.stuck left) (.stuck right)

/-- Lists that realize a term, given what realizes terms of the type of their elements. -/
inductive RealizeList (ctx : Context) (elem : Ty) (realizeElem : Term → Value → Value → Prop) :
    Term → Value → Value → Prop where
  | nil {term : Term} :
      Convertible ctx (.list elem) term (.nil elem) →
      RealizeList ctx elem realizeElem term .nil .nil
  | cons {term head tail : Term} {left right left' right' : Value} :
      Convertible ctx (.list elem) term (.cons head tail) →
      realizeElem head left right → RealizeList ctx elem realizeElem tail left' right' →
      RealizeList ctx elem realizeElem term (.cons left left') (.cons right right')
  | stuck {term : Term} {left right : Neutral} :
      Neutral.Realize ctx (.list elem) term left right →
      RealizeList ctx elem realizeElem term (.stuck left) (.stuck right)

/-- **Two values realize a term** of a type in a context. -/
def Realize : Context → Ty → Term → Value → Value → Prop
  | ctx, .nat => RealizeNumber ctx
  | ctx, .atom => RealizeAtom ctx
  | ctx, .pair fstTy sndTy => RealizePair ctx fstTy sndTy (Realize ctx fstTy) (Realize ctx sndTy)
  | ctx, .list elem => RealizeList ctx elem (Realize ctx elem)
  | ctx, .fn dom cod => fun term left right =>
    term.HasType ctx (.fn dom cod) ∧
    ∀ (added : Context) (arg : Term) (leftArg rightArg : Value),
      Realize (added ++ ctx) dom arg leftArg rightArg →
      ∃ leftResult rightResult : Value,
        Applies (left.weaken (.front added.length)) leftArg leftResult ∧
        Applies (right.weaken (.front added.length)) rightArg rightResult ∧
        Realize (added ++ ctx) cod (.app (term.weaken (.front added.length)) arg)
          leftResult rightResult

end Value

/-! ### Contexts that grow twice -/

section Append

variable (added more : Context)

theorem Term.weaken_front_append (term : Term) :
    (term.weaken (.front added.length)).weaken (.front more.length) =
      term.weaken (.front (more ++ added).length) := by
  rw [Term.weaken_front_add, List.length_append, Nat.add_comm]

theorem Value.weaken_front_append (value : Value) :
    (value.weaken (.front added.length)).weaken (.front more.length) =
      value.weaken (.front (more ++ added).length) := by
  rw [Value.weaken_front_add, List.length_append, Nat.add_comm]

theorem Neutral.weaken_front_append (neutral : Neutral) :
    (neutral.weaken (.front added.length)).weaken (.front more.length) =
      neutral.weaken (.front (more ++ added).length) := by
  rw [Neutral.weaken_front_add, List.length_append, Nat.add_comm]

end Append

/-! ### Neutrals -/

namespace Neutral.ReadAlike

variable {ctx : Context} {motive elem fstTy sndTy : Ty} {target base step : Term}
  {left right : Neutral} {leftBase rightBase leftStep rightStep : Value}

theorem var {index : Nat} {ty : Ty} (found : ctx[index]? = some ty) :
    Neutral.ReadAlike ctx ty (.var index) (.var index) (.var index) :=
  ⟨.var index, .var found, .var found, .refl (.var found)⟩

theorem app {dom cod : Ty} {fn arg : Term} {leftArg rightArg : Value}
    (fns : Neutral.ReadAlike ctx (.fn dom cod) fn left right)
    (args : Value.ReadAlike ctx dom arg leftArg rightArg) :
    Neutral.ReadAlike ctx cod (.app fn arg) (.app left leftArg) (.app right rightArg) := by
  obtain ⟨fnRead, leftFn, rightFn, fnConv⟩ := fns
  obtain ⟨argRead, leftReads, rightReads, argConv⟩ := args
  exact ⟨.app fnRead argRead, leftFn.app leftReads, rightFn.app rightReads, fnConv.app argConv⟩

theorem recNat (targets : Neutral.ReadAlike ctx .nat target left right)
    (bases : Value.ReadAlike ctx motive base leftBase rightBase)
    (steps : Value.ReadAlike ctx (Ty.natStep motive) step leftStep rightStep) :
    Neutral.ReadAlike ctx motive (.recNat motive target base step)
      (.recNat motive left leftBase leftStep) (.recNat motive right rightBase rightStep) := by
  obtain ⟨targetRead, leftTarget, rightTarget, targetConv⟩ := targets
  obtain ⟨baseRead, leftReads, rightReads, baseConv⟩ := bases
  obtain ⟨stepRead, leftNext, rightNext, stepConv⟩ := steps
  exact ⟨.recNat motive targetRead baseRead stepRead, leftTarget.recNat leftReads leftNext,
    rightTarget.recNat rightReads rightNext, targetConv.recNat baseConv stepConv⟩

theorem car {operand : Term}
    (operands : Neutral.ReadAlike ctx (.pair fstTy sndTy) operand left right) :
    Neutral.ReadAlike ctx fstTy (.car operand) (.car left) (.car right) := by
  obtain ⟨read, leftReads, rightReads, conv⟩ := operands
  exact ⟨.car read, leftReads.car, rightReads.car, conv.car⟩

theorem cdr {operand : Term}
    (operands : Neutral.ReadAlike ctx (.pair fstTy sndTy) operand left right) :
    Neutral.ReadAlike ctx sndTy (.cdr operand) (.cdr left) (.cdr right) := by
  obtain ⟨read, leftReads, rightReads, conv⟩ := operands
  exact ⟨.cdr read, leftReads.cdr, rightReads.cdr, conv.cdr⟩

theorem recList (targets : Neutral.ReadAlike ctx (.list elem) target left right)
    (bases : Value.ReadAlike ctx motive base leftBase rightBase)
    (steps : Value.ReadAlike ctx (Ty.listStep elem motive) step leftStep rightStep) :
    Neutral.ReadAlike ctx motive (.recList motive target base step)
      (.recList motive left leftBase leftStep) (.recList motive right rightBase rightStep) := by
  obtain ⟨targetRead, leftTarget, rightTarget, targetConv⟩ := targets
  obtain ⟨baseRead, leftReads, rightReads, baseConv⟩ := bases
  obtain ⟨stepRead, leftNext, rightNext, stepConv⟩ := steps
  exact ⟨.recList motive targetRead baseRead stepRead, leftTarget.recList leftReads leftNext,
    rightTarget.recList rightReads rightNext, targetConv.recList baseConv stepConv⟩

end Neutral.ReadAlike

namespace Neutral.Realize

variable {ctx : Context} {ty : Ty} {term other : Term} {left middle right : Neutral}

/-- A variable realizes itself. -/
theorem var {index : Nat} (found : ctx[index]? = some ty) :
    Neutral.Realize ctx ty (.var index) (.var index) (.var index) := by
  intro added
  have moved : (Neutral.var index).weaken (.front added.length) =
      .var ((index + added.length : Nat) : Int) := by
    rw [Neutral.weaken, Weakening.embed_front_of_nonneg _ (Int.natCast_nonneg index),
      Int.natCast_add]
  rw [Term.weaken_front, moved]
  refine ReadAlike.var ?_
  rw [List.getElem?_append_right (Nat.le_add_left _ _), Nat.add_sub_cancel]
  exact found

/-- Neutrals that realize a term read alike in the context itself. -/
theorem here (real : Neutral.Realize ctx ty term left right) :
    Neutral.ReadAlike ctx ty term left right := by
  have readAlike := real []
  rw [List.length_nil, Neutral.weaken_front_zero, Neutral.weaken_front_zero,
    Term.weaken_front_zero] at readAlike
  exact readAlike

/-- A realized term has the type. -/
theorem typed (real : Neutral.Realize ctx ty term left right) : term.HasType ctx ty := by
  obtain ⟨read, _, _, conv⟩ := real.here
  exact conv.typed.2

theorem symm (real : Neutral.Realize ctx ty term left right) :
    Neutral.Realize ctx ty term right left := by
  intro added
  obtain ⟨read, leftReads, rightReads, conv⟩ := real added
  exact ⟨read, rightReads, leftReads, conv⟩

/-- The neutral in the middle reads back to one term, so all three read back to it. -/
theorem trans (first : Neutral.Realize ctx ty term left middle)
    (second : Neutral.Realize ctx ty other middle right) :
    Neutral.Realize ctx ty term left right := by
  intro added
  obtain ⟨read, leftReads, middleReads, conv⟩ := first added
  obtain ⟨read', middleReads', rightReads, _⟩ := second added
  obtain ⟨rfl, _⟩ := middleReads.unique middleReads'
  exact ⟨read, leftReads, rightReads, conv⟩

theorem convert (real : Neutral.Realize ctx ty term left right)
    (conv : Convertible ctx ty term other) : Neutral.Realize ctx ty other left right := by
  intro added
  obtain ⟨read, leftReads, rightReads, readConv⟩ := real added
  exact ⟨read, leftReads, rightReads, readConv.trans (conv.weaken_front added)⟩

theorem weaken (real : Neutral.Realize ctx ty term left right) (added : Context) :
    Neutral.Realize (added ++ ctx) ty (term.weaken (.front added.length))
      (left.weaken (.front added.length)) (right.weaken (.front added.length)) := by
  intro more
  rw [Term.weaken_front_append, Neutral.weaken_front_append, Neutral.weaken_front_append,
    ← List.append_assoc]
  exact real (more ++ added)

end Neutral.Realize

/-! ### Numbers -/

namespace Value.RealizeNumber

variable {ctx : Context} {term other : Term} {left middle right : Value}

theorem typed (real : RealizeNumber ctx term left right) : term.HasType ctx .nat := by
  cases real with
  | zero conv => exact conv.typed.1
  | succ conv _ => exact conv.typed.1
  | stuck neutrals => exact neutrals.typed

theorem symm (real : RealizeNumber ctx term left right) : RealizeNumber ctx term right left := by
  induction real with
  | zero conv => exact .zero conv
  | succ conv _ ih => exact .succ conv ih
  | stuck neutrals => exact .stuck neutrals.symm

theorem trans (first : RealizeNumber ctx term left middle)
    (second : RealizeNumber ctx other middle right) : RealizeNumber ctx term left right := by
  induction first generalizing other right with
  | zero conv =>
    cases second with
    | zero _ => exact .zero conv
  | succ conv _ ih =>
    cases second with
    | succ _ preds => exact .succ conv (ih preds)
  | stuck neutrals =>
    cases second with
    | stuck neutrals' => exact .stuck (neutrals.trans neutrals')

theorem convert (real : RealizeNumber ctx term left right)
    (conv : Convertible ctx .nat term other) : RealizeNumber ctx other left right := by
  cases real with
  | zero conv' => exact .zero (conv.symm.trans conv')
  | succ conv' preds => exact .succ (conv.symm.trans conv') preds
  | stuck neutrals => exact .stuck (neutrals.convert conv)

theorem weaken (real : RealizeNumber ctx term left right) (added : Context) :
    RealizeNumber (added ++ ctx) (term.weaken (.front added.length))
      (left.weaken (.front added.length)) (right.weaken (.front added.length)) := by
  induction real with
  | zero conv => exact .zero (conv.weaken_front added)
  | succ conv _ ih => exact .succ (conv.weaken_front added) ih
  | stuck neutrals => exact .stuck (neutrals.weaken added)

end Value.RealizeNumber

/-! ### Lists -/

namespace Value.RealizeList

variable {ctx : Context} {elem : Ty} {realizeElem : Term → Value → Value → Prop}
  {term other : Term} {left middle right : Value}

theorem typed (real : RealizeList ctx elem realizeElem term left right) :
    term.HasType ctx (.list elem) := by
  cases real with
  | nil conv => exact conv.typed.1
  | cons conv _ _ => exact conv.typed.1
  | stuck neutrals => exact neutrals.typed

theorem symm (elems : ∀ {head left right}, realizeElem head left right →
    realizeElem head right left) (real : RealizeList ctx elem realizeElem term left right) :
    RealizeList ctx elem realizeElem term right left := by
  induction real with
  | nil conv => exact .nil conv
  | cons conv heads _ ih => exact .cons conv (elems heads) ih
  | stuck neutrals => exact .stuck neutrals.symm

theorem trans (elems : ∀ {head head' left middle right}, realizeElem head left middle →
    realizeElem head' middle right → realizeElem head left right)
    (first : RealizeList ctx elem realizeElem term left middle)
    (second : RealizeList ctx elem realizeElem other middle right) :
    RealizeList ctx elem realizeElem term left right := by
  induction first generalizing other right with
  | nil conv =>
    cases second with
    | nil _ => exact .nil conv
  | cons conv heads _ ih =>
    cases second with
    | cons _ heads' tails => exact .cons conv (elems heads heads') (ih tails)
  | stuck neutrals =>
    cases second with
    | stuck neutrals' => exact .stuck (neutrals.trans neutrals')

theorem convert (real : RealizeList ctx elem realizeElem term left right)
    (conv : Convertible ctx (.list elem) term other) :
    RealizeList ctx elem realizeElem other left right := by
  cases real with
  | nil conv' => exact .nil (conv.symm.trans conv')
  | cons conv' heads tails => exact .cons (conv.symm.trans conv') heads tails
  | stuck neutrals => exact .stuck (neutrals.convert conv)

theorem weaken {added : Context} {realizeMoved : Term → Value → Value → Prop}
    (elems : ∀ {head left right}, realizeElem head left right →
      realizeMoved (head.weaken (.front added.length)) (left.weaken (.front added.length))
        (right.weaken (.front added.length)))
    (real : RealizeList ctx elem realizeElem term left right) :
    RealizeList (added ++ ctx) elem realizeMoved (term.weaken (.front added.length))
      (left.weaken (.front added.length)) (right.weaken (.front added.length)) := by
  induction real with
  | nil conv => exact .nil (conv.weaken_front added)
  | cons conv heads _ ih => exact .cons (conv.weaken_front added) (elems heads) ih
  | stuck neutrals => exact .stuck (neutrals.weaken added)

end Value.RealizeList

/-! ### Values of every type -/

namespace Value.Realize

variable {ctx : Context} {ty : Ty} {term other : Term} {left middle right : Value}

/-- A realized term has the type. -/
theorem typed (real : Realize ctx ty term left right) : term.HasType ctx ty := by
  cases ty with
  | nat => exact RealizeNumber.typed real
  | atom =>
    cases real with
    | atom conv => exact conv.typed.1
    | stuck neutrals => exact neutrals.typed
  | pair fstTy sndTy =>
    cases real with
    | pair conv _ _ => exact conv.typed.1
    | stuck neutrals => exact neutrals.typed
  | list elem => exact RealizeList.typed real
  | fn dom cod => exact real.1

theorem symm (real : Realize ctx ty term left right) : Realize ctx ty term right left := by
  induction ty generalizing ctx term left right with
  | nat => exact RealizeNumber.symm real
  | atom =>
    cases real with
    | atom conv => exact .atom conv
    | stuck neutrals => exact .stuck neutrals.symm
  | pair fstTy sndTy fstSymm sndSymm =>
    cases real with
    | pair conv fsts snds => exact .pair conv (fstSymm fsts) (sndSymm snds)
    | stuck neutrals => exact .stuck neutrals.symm
  | list elem elemSymm => exact RealizeList.symm elemSymm real
  | fn dom cod domSymm codSymm =>
    refine ⟨real.1, fun added arg leftArg rightArg args => ?_⟩
    obtain ⟨leftResult, rightResult, leftApplies, rightApplies, results⟩ :=
      real.2 added arg rightArg leftArg (domSymm args)
    exact ⟨rightResult, leftResult, rightApplies, leftApplies, codSymm results⟩

/-- **Values that share a partner realize a term together**, also where the partner realizes
another term beside each of them. -/
theorem trans (first : Realize ctx ty term left middle) (second : Realize ctx ty other middle right) :
    Realize ctx ty term left right := by
  induction ty generalizing ctx term other left middle right with
  | nat => exact RealizeNumber.trans first second
  | atom =>
    cases first with
    | atom conv =>
      cases second with
      | atom _ => exact .atom conv
    | stuck neutrals =>
      cases second with
      | stuck neutrals' => exact .stuck (neutrals.trans neutrals')
  | pair fstTy sndTy fstTrans sndTrans =>
    cases first with
    | pair conv fsts snds =>
      cases second with
      | pair _ fsts' snds' => exact .pair conv (fstTrans fsts fsts') (sndTrans snds snds')
    | stuck neutrals =>
      cases second with
      | stuck neutrals' => exact .stuck (neutrals.trans neutrals')
  | list elem elemTrans => exact RealizeList.trans elemTrans first second
  | fn dom cod domTrans codTrans =>
    refine ⟨first.1, fun added arg leftArg rightArg args => ?_⟩
    -- The function in the middle is applied to the left argument on both sides.
    obtain ⟨leftResult, middleResult, leftApplies, middleApplies, results⟩ :=
      first.2 added arg leftArg leftArg (domTrans args args.symm)
    obtain ⟨middleResult', rightResult, middleApplies', rightApplies, results'⟩ :=
      second.2 added arg leftArg rightArg args
    obtain rfl := middleApplies.unique middleApplies'
    exact ⟨leftResult, rightResult, leftApplies, rightApplies, codTrans results results'⟩

/-- **Conversion keeps what is realized.** -/
theorem convert (real : Realize ctx ty term left right) (conv : Convertible ctx ty term other) :
    Realize ctx ty other left right := by
  induction ty generalizing ctx term other left right with
  | nat => exact RealizeNumber.convert real conv
  | atom =>
    cases real with
    | atom conv' => exact .atom (conv.symm.trans conv')
    | stuck neutrals => exact .stuck (neutrals.convert conv)
  | pair fstTy sndTy =>
    cases real with
    | pair conv' fsts snds => exact .pair (conv.symm.trans conv') fsts snds
    | stuck neutrals => exact .stuck (neutrals.convert conv)
  | list elem => exact RealizeList.convert real conv
  | fn dom cod _ codConvert =>
    refine ⟨conv.typed.2, fun added arg leftArg rightArg args => ?_⟩
    obtain ⟨leftResult, rightResult, leftApplies, rightApplies, results⟩ :=
      real.2 added arg leftArg rightArg args
    have applied := (conv.weaken_front added).app (.refl args.typed)
    exact ⟨leftResult, rightResult, leftApplies, rightApplies, codConvert results applied⟩

/-- **Values realize the moved term in every larger context.** -/
theorem weaken (real : Realize ctx ty term left right) (added : Context) :
    Realize (added ++ ctx) ty (term.weaken (.front added.length))
      (left.weaken (.front added.length)) (right.weaken (.front added.length)) := by
  induction ty generalizing ctx term left right with
  | nat => exact RealizeNumber.weaken real added
  | atom =>
    cases real with
    | atom conv => exact .atom (conv.weaken_front added)
    | stuck neutrals => exact .stuck (neutrals.weaken added)
  | pair fstTy sndTy fstWeaken sndWeaken =>
    cases real with
    | pair conv fsts snds =>
      exact .pair (conv.weaken_front added) (fstWeaken fsts) (sndWeaken snds)
    | stuck neutrals => exact .stuck (neutrals.weaken added)
  | list elem elemWeaken => exact RealizeList.weaken elemWeaken real
  | fn dom cod =>
    refine ⟨real.1.weaken_front added, fun more arg leftArg rightArg args => ?_⟩
    rw [Term.weaken_front_append, Value.weaken_front_append, Value.weaken_front_append]
    rw [← List.append_assoc] at args ⊢
    exact real.2 (more ++ added) arg leftArg rightArg args

end Value.Realize

/-! ### Reading realizers back -/

/-- Stuck values of a type that is no function type read alike as their neutrals do. -/
theorem Neutral.ReadAlike.value {ctx : Context} {ty : Ty} {term : Term} {left right : Neutral}
    (plain : ty.arity = 0) (neutrals : Neutral.ReadAlike ctx ty term left right) :
    Value.ReadAlike ctx ty term (.stuck left) (.stuck right) := by
  obtain ⟨read, leftReads, rightReads, conv⟩ := neutrals
  exact ⟨read, .stuck plain leftReads, .stuck plain rightReads, conv⟩

theorem Value.RealizeNumber.readAlike {ctx : Context} {term : Term} {left right : Value}
    (real : RealizeNumber ctx term left right) : ReadAlike ctx .nat term left right := by
  induction real with
  | zero conv => exact ⟨.zero, .zero ctx, .zero ctx, conv.symm⟩
  | succ conv _ ih =>
    obtain ⟨read, leftReads, rightReads, readConv⟩ := ih
    exact ⟨.succ read, leftReads.succ, rightReads.succ, readConv.succ.trans conv.symm⟩
  | stuck neutrals => exact neutrals.here.value rfl

theorem Value.RealizeList.readAlike {ctx : Context} {elem : Ty}
    {realizeElem : Term → Value → Value → Prop} {term : Term} {left right : Value}
    (elems : ∀ {head left right}, realizeElem head left right →
      ReadAlike ctx elem head left right)
    (real : RealizeList ctx elem realizeElem term left right) :
    ReadAlike ctx (.list elem) term left right := by
  induction real with
  | nil conv => exact ⟨.nil elem, .nil ctx elem, .nil ctx elem, conv.symm⟩
  | cons conv heads _ ih =>
    obtain ⟨head, leftHead, rightHead, headConv⟩ := elems heads
    obtain ⟨tail, leftTail, rightTail, tailConv⟩ := ih
    exact ⟨.cons head tail, leftHead.cons leftTail, rightHead.cons rightTail,
      (headConv.cons tailConv).trans conv.symm⟩
  | stuck neutrals => exact neutrals.here.value rfl

/-- The two halves at a function type: reading back takes the argument as realized by the variable
it binds, and a stuck function takes arguments that are read back. -/
theorem Value.Realize.reify_reflect (ty : Ty) :
    (∀ {ctx : Context} {term : Term} {left right : Value},
      Realize ctx ty term left right → ReadAlike ctx ty term left right) ∧
    (∀ {ctx : Context} {term : Term} {left right : Neutral},
      Neutral.Realize ctx ty term left right →
      Realize ctx ty term (.stuck left) (.stuck right)) := by
  induction ty with
  | nat => exact ⟨RealizeNumber.readAlike, .stuck⟩
  | atom =>
    refine ⟨fun real => ?_, .stuck⟩
    cases real with
    | atom conv => exact ⟨.atom _, .atom _ _, .atom _ _, conv.symm⟩
    | stuck neutrals => exact neutrals.here.value rfl
  | pair fstTy sndTy fstBoth sndBoth =>
    refine ⟨fun real => ?_, .stuck⟩
    cases real with
    | pair conv fsts snds =>
      obtain ⟨fst, leftFst, rightFst, fstConv⟩ := fstBoth.1 fsts
      obtain ⟨snd, leftSnd, rightSnd, sndConv⟩ := sndBoth.1 snds
      exact ⟨.pair fst snd, leftFst.pair leftSnd, rightFst.pair rightSnd,
        (fstConv.pair sndConv).trans conv.symm⟩
    | stuck neutrals => exact neutrals.here.value rfl
  | list elem elemBoth => exact ⟨RealizeList.readAlike elemBoth.1, .stuck⟩
  | fn dom cod domBoth codBoth =>
    constructor
    · -- The body is read back below its binder, so the type gives the outermost constructor.
      intro ctx term left right real
      have bound : Realize (dom :: ctx) dom (.var 0) (.ofIndex 0) (.ofIndex 0) :=
        domBoth.2 (.var rfl)
      obtain ⟨leftResult, rightResult, leftApplies, rightApplies, results⟩ :=
        real.2 [dom] (.var 0) (.ofIndex 0) (.ofIndex 0) bound
      obtain ⟨body, leftReads, rightReads, conv⟩ := codBoth.1 results
      exact ⟨.lam dom body, .fn leftApplies leftReads, .fn rightApplies rightReads,
        conv.lam.trans (Convertible.eta real.1).symm⟩
    · -- The application stays stuck, and reads alike wherever its argument does.
      intro ctx term left right neutrals
      refine ⟨neutrals.typed, fun added arg leftArg rightArg args => ?_⟩
      refine ⟨_, _, .stuck _ leftArg, .stuck _ rightArg, codBoth.2 fun more => ?_⟩
      exact (neutrals.weaken added more).app (domBoth.1 (args.weaken more))

/-- **Both values read back to one term**, which is convertible to the one they realize. -/
theorem Value.Realize.reify {ctx : Context} {ty : Ty} {term : Term} {left right : Value}
    (real : Realize ctx ty term left right) : ReadAlike ctx ty term left right :=
  (reify_reflect ty).1 real

/-- **Stuck values realize what their neutrals realize.** -/
theorem Neutral.Realize.reflect {ctx : Context} {ty : Ty} {term : Term} {left right : Neutral}
    (neutrals : Neutral.Realize ctx ty term left right) :
    Value.Realize ctx ty term (.stuck left) (.stuck right) :=
  (Value.Realize.reify_reflect ty).2 neutrals

end EtaLong
