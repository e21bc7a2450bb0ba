/-
**Evaluation makes no atoms.**

The atoms of a value are those that stand in it, in what it captured and in the bodies that it keeps.
Evaluation only moves values about, and reading back only spells them out, so whatever holds of the
atoms of a term and of its environment holds of the atoms of its normal form.

* `Term.AtomsIn`, `Value.AtomsIn`, `Neutral.AtomsIn`, `Env.AtomsIn`: what holds of all atoms;
* `Application.KeepsAtoms`, `Value.apply_keepsAtoms`: applying values;
* `Term.AtomsIn.evalWith`: evaluation;
* `readsAtoms_and_readsNeutralAtoms`: reading back.
-/

import EtaLong.Proofs.Outcome
import EtaLong.Proofs.Term.Printed
import EtaLong.Value.ReadBack

namespace EtaLong

/-- All atoms of a term are allowed. -/
def Term.AtomsIn (allowed : String → Prop) (term : Term) : Prop := ∀ name ∈ term.atoms, allowed name

namespace Term

variable {allowed : String → Prop}

instance [DecidablePred allowed] (term : Term) : Decidable (term.AtomsIn allowed) :=
  List.decidableBAll allowed term.atoms

theorem atomsIn_app {fn arg : Term} :
    (app fn arg).AtomsIn allowed ↔ fn.AtomsIn allowed ∧ arg.AtomsIn allowed :=
  List.forall_mem_append

theorem atomsIn_pair {fst snd : Term} :
    (pair fst snd).AtomsIn allowed ↔ fst.AtomsIn allowed ∧ snd.AtomsIn allowed :=
  List.forall_mem_append

theorem atomsIn_cons {head tail : Term} :
    (cons head tail).AtomsIn allowed ↔ head.AtomsIn allowed ∧ tail.AtomsIn allowed :=
  List.forall_mem_append

theorem atomsIn_recNat {motive : Ty} {target base step : Term} :
    (recNat motive target base step).AtomsIn allowed ↔
      (target.AtomsIn allowed ∧ base.AtomsIn allowed) ∧ step.AtomsIn allowed :=
  List.forall_mem_append.trans (and_congr_left' List.forall_mem_append)

theorem atomsIn_recList {motive : Ty} {target base step : Term} :
    (recList motive target base step).AtomsIn allowed ↔
      (target.AtomsIn allowed ∧ base.AtomsIn allowed) ∧ step.AtomsIn allowed :=
  List.forall_mem_append.trans (and_congr_left' List.forall_mem_append)

end Term

mutual

/-- **All atoms of a value are allowed.** -/
def Value.AtomsIn (allowed : String → Prop) : Value → Prop
  | .closure env body => Env.AtomsIn allowed env ∧ body.AtomsIn allowed
  | .zero => True
  | .succ pred => pred.AtomsIn allowed
  | .pair fst snd => fst.AtomsIn allowed ∧ snd.AtomsIn allowed
  | .nil => True
  | .cons head tail => head.AtomsIn allowed ∧ tail.AtomsIn allowed
  | .atom name => allowed name
  | .stuck neutral => neutral.AtomsIn allowed

/-- All atoms of a neutral are allowed. -/
def Neutral.AtomsIn (allowed : String → Prop) : Neutral → Prop
  | .var _ => True
  | .app fn arg => fn.AtomsIn allowed ∧ arg.AtomsIn allowed
  | .recNat _ target base step =>
    target.AtomsIn allowed ∧ base.AtomsIn allowed ∧ step.AtomsIn allowed
  | .car operand => operand.AtomsIn allowed
  | .cdr operand => operand.AtomsIn allowed
  | .recList _ target base step =>
    target.AtomsIn allowed ∧ base.AtomsIn allowed ∧ step.AtomsIn allowed

/-- All atoms of the values of an environment are allowed. -/
def Env.AtomsIn (allowed : String → Prop) : List Value → Prop
  | [] => True
  | value :: env => value.AtomsIn allowed ∧ Env.AtomsIn allowed env

end

variable {allowed : String → Prop}

theorem Env.AtomsIn.lookup {env : Env} (inEnv : Env.AtomsIn allowed env) {index : Nat} {value : Value}
    (found : env[index]? = some value) : value.AtomsIn allowed := by
  induction env generalizing index with
  | nil => cases found
  | cons first env ih =>
    obtain ⟨inFirst, inRest⟩ := inEnv
    cases index with
    | zero =>
      cases found
      exact inFirst
    | succ index => exact ih inRest found

mutual

/-- Moving a value into a larger context moves its atoms along. -/
theorem Value.AtomsIn.weaken (w : Weakening) : (value : Value) → value.AtomsIn allowed →
    (value.weaken w).AtomsIn allowed
  | .closure env _, ⟨inEnv, inBody⟩ => ⟨Env.AtomsIn.weaken w env inEnv, inBody⟩
  | .zero, _ => trivial
  | .succ pred, inPred => Value.AtomsIn.weaken w pred inPred
  | .pair fst snd, ⟨inFst, inSnd⟩ =>
    ⟨Value.AtomsIn.weaken w fst inFst, Value.AtomsIn.weaken w snd inSnd⟩
  | .nil, _ => trivial
  | .cons head tail, ⟨inHead, inTail⟩ =>
    ⟨Value.AtomsIn.weaken w head inHead, Value.AtomsIn.weaken w tail inTail⟩
  | .atom _, inName => inName
  | .stuck neutral, inNeutral => Neutral.AtomsIn.weaken w neutral inNeutral

theorem Neutral.AtomsIn.weaken (w : Weakening) : (neutral : Neutral) → neutral.AtomsIn allowed →
    (neutral.weaken w).AtomsIn allowed
  | .var _, _ => trivial
  | .app fn arg, ⟨inFn, inArg⟩ =>
    ⟨Neutral.AtomsIn.weaken w fn inFn, Value.AtomsIn.weaken w arg inArg⟩
  | .recNat _ target base step, ⟨inTarget, inBase, inStep⟩ =>
    ⟨Neutral.AtomsIn.weaken w target inTarget, Value.AtomsIn.weaken w base inBase,
      Value.AtomsIn.weaken w step inStep⟩
  | .car operand, inOperand => Neutral.AtomsIn.weaken w operand inOperand
  | .cdr operand, inOperand => Neutral.AtomsIn.weaken w operand inOperand
  | .recList _ target base step, ⟨inTarget, inBase, inStep⟩ =>
    ⟨Neutral.AtomsIn.weaken w target inTarget, Value.AtomsIn.weaken w base inBase,
      Value.AtomsIn.weaken w step inStep⟩

theorem Env.AtomsIn.weaken (w : Weakening) : (env : List Value) → Env.AtomsIn allowed env →
    Env.AtomsIn allowed (Value.weakenAll w env)
  | [], _ => trivial
  | value :: env, ⟨inValue, inEnv⟩ =>
    ⟨Value.AtomsIn.weaken w value inValue, Env.AtomsIn.weaken w env inEnv⟩

end

/-! ### Evaluation -/

/-- **An application that makes no atoms.** -/
def Application.KeepsAtoms (allowed : String → Prop) (apply : Application) : Prop :=
  ∀ {fn arg : Value}, fn.AtomsIn allowed → arg.AtomsIn allowed →
    EndsOnly (Value.AtomsIn allowed) (apply fn arg)

namespace Value.AtomsIn

variable {apply : Application} {motive : Ty} {value base step : Value}

theorem car (inValue : value.AtomsIn allowed) : EndsOnly (AtomsIn allowed) value.car := by
  cases value with
  | pair fst snd => exact .ok inValue.1
  | stuck neutral => exact .ok inValue
  | _ => exact .error _

theorem cdr (inValue : value.AtomsIn allowed) : EndsOnly (AtomsIn allowed) value.cdr := by
  cases value with
  | pair fst snd => exact .ok inValue.2
  | stuck neutral => exact .ok inValue
  | _ => exact .error _

/-- Recursion over a number, one constructor at a time. -/
theorem recNat (keeps : apply.KeepsAtoms allowed) (inBase : base.AtomsIn allowed)
    (inStep : step.AtomsIn allowed) : (target : Value) → target.AtomsIn allowed →
      EndsOnly (AtomsIn allowed) (target.recNat apply motive base step)
  | .zero, _ => .ok inBase
  | .succ pred, inPred => by
    rw [recNat_succ]
    refine .bind (recNat keeps inBase inStep pred inPred) fun result inResult => ?_
    exact .bind (keeps inStep inPred) fun stepped inStepped => keeps inStepped inResult
  | .stuck _, inNeutral => .ok ⟨inNeutral, inBase, inStep⟩
  | .closure _ _, _ => .error _
  | .pair _ _, _ => .error _
  | .nil, _ => .error _
  | .cons _ _, _ => .error _
  | .atom _, _ => .error _

/-- Recursion over a list, one cell at a time. -/
theorem recList (keeps : apply.KeepsAtoms allowed) (inBase : base.AtomsIn allowed)
    (inStep : step.AtomsIn allowed) : (target : Value) → target.AtomsIn allowed →
      EndsOnly (AtomsIn allowed) (target.recList apply motive base step)
  | .nil, _ => .ok inBase
  | .cons head tail, ⟨inHead, inTail⟩ => by
    rw [recList_cons]
    refine .bind (recList keeps inBase inStep tail inTail) fun result inResult => ?_
    refine .bind (keeps inStep inHead) fun first inFirst => ?_
    exact .bind (keeps inFirst inTail) fun second inSecond => keeps inSecond inResult
  | .stuck _, inNeutral => .ok ⟨inNeutral, inBase, inStep⟩
  | .closure _ _, _ => .error _
  | .zero, _ => .error _
  | .succ _, _ => .error _
  | .pair _ _, _ => .error _
  | .atom _, _ => .error _

end Value.AtomsIn

/-- **Evaluation makes no atoms** when the application that it uses makes none. -/
theorem Term.AtomsIn.evalWith {apply : Application} (keeps : apply.KeepsAtoms allowed) {env : Env}
    (inEnv : Env.AtomsIn allowed env) {term : Term} (inTerm : term.AtomsIn allowed) :
    EndsOnly (Value.AtomsIn allowed) (term.evalWith apply env) := by
  induction term with
  | var index =>
    rw [Term.evalWith]
    cases found : env[index]? with
    | none => exact .error _
    | some value => exact .ok (inEnv.lookup found)
  | lam dom body _ => exact .ok ⟨inEnv, inTerm⟩
  | app fn arg inFn inArg =>
    obtain ⟨fnAtoms, argAtoms⟩ := atomsIn_app.mp inTerm
    refine .bind (inFn fnAtoms) fun function inFunction => ?_
    exact .bind (inArg argAtoms) fun argument inArgument => keeps inFunction inArgument
  | atom name => exact .ok (inTerm name (List.mem_singleton_self name))
  | zero => exact .ok trivial
  | succ pred inPred => exact .bind (inPred inTerm) fun value inValue => .ok inValue
  | recNat motive target base step inTarget inBase inStep =>
    obtain ⟨⟨targetAtoms, baseAtoms⟩, stepAtoms⟩ := atomsIn_recNat.mp inTerm
    refine .bind (inTarget targetAtoms) fun number inNumber => ?_
    refine .bind (inBase baseAtoms) fun start inStart => ?_
    exact .bind (inStep stepAtoms) fun next inNext => .recNat keeps inStart inNext number inNumber
  | pair fst snd inFst inSnd =>
    obtain ⟨fstAtoms, sndAtoms⟩ := atomsIn_pair.mp inTerm
    refine .bind (inFst fstAtoms) fun first inFirst => ?_
    exact .bind (inSnd sndAtoms) fun second inSecond => .ok ⟨inFirst, inSecond⟩
  | car operand inOperand => exact .bind (inOperand inTerm) fun value inValue => inValue.car
  | cdr operand inOperand => exact .bind (inOperand inTerm) fun value inValue => inValue.cdr
  | nil elem => exact .ok trivial
  | cons head tail inHead inTail =>
    obtain ⟨headAtoms, tailAtoms⟩ := atomsIn_cons.mp inTerm
    refine .bind (inTail tailAtoms) fun rest inRest => ?_
    exact .bind (inHead headAtoms) fun first inFirst => .ok ⟨inFirst, inRest⟩
  | recList motive target base step inTarget inBase inStep =>
    obtain ⟨⟨targetAtoms, baseAtoms⟩, stepAtoms⟩ := atomsIn_recList.mp inTerm
    refine .bind (inTarget targetAtoms) fun items inItems => ?_
    refine .bind (inBase baseAtoms) fun start inStart => ?_
    exact .bind (inStep stepAtoms) fun next inNext => .recList keeps inStart inNext items inItems
  | ann ty body inBody => exact inBody inTerm

/-- **Applying values makes no atoms**, by induction on the fuel. -/
theorem Value.apply_keepsAtoms (fuel : Nat) : Application.KeepsAtoms allowed (Value.apply fuel) := by
  induction fuel with
  | zero =>
    intro fn arg inFn inArg
    cases fn with
    | stuck neutral => exact .ok ⟨inFn, inArg⟩
    | _ => exact .error _
  | succ fuel ih =>
    intro fn arg inFn inArg
    cases fn with
    | closure env body =>
      obtain ⟨inEnv, inBody⟩ := inFn
      have inExtended : Env.AtomsIn allowed (arg :: env) := ⟨inArg, inEnv⟩
      exact inBody.evalWith ih inExtended
    | stuck neutral => exact .ok ⟨inFn, inArg⟩
    | _ => exact .error _

/-! ### Reading back -/

section Reading

theorem Term.AtomsIn.succs {term : Term} (inTerm : term.AtomsIn allowed) (count : Nat) :
    (Term.succs count term).AtomsIn allowed := by
  induction count with
  | zero => exact inTerm
  | succ count ih => exact ih

/-- What the successors of a number are wrapped around. -/
theorem Value.AtomsIn.innermost (outer : List Value) {value : Value} (inValue : value.AtomsIn allowed) :
    (value.predecessors outer).2.AtomsIn allowed := by
  fun_induction Value.predecessors outer value with
  | case1 outer pred ih => exact ih inValue
  | case2 outer value _ => exact inValue

/-- The heads of the cells of a list, and what follows them. -/
theorem Value.AtomsIn.cells (outer : List (Value × Value)) {value : Value}
    (inValue : value.AtomsIn allowed) (heads : ∀ cell ∈ outer, cell.1.AtomsIn allowed) :
    (∀ cell ∈ (value.cells outer).1, cell.1.AtomsIn allowed) ∧
      (value.cells outer).2.AtomsIn allowed := by
  fun_induction Value.cells outer value with
  | case1 outer head tail ih =>
    exact ih inValue.2 (List.forall_mem_cons.mpr ⟨inValue.1, heads⟩)
  | case2 outer value _ => exact ⟨heads, inValue⟩

/-- **With so much fuel, reading values back makes no atoms.** -/
def ReadsAtoms (allowed : String → Prop) (fuel : Nat) : Prop :=
  ∀ (ctx : Context) (ty : Ty) {value : Value}, value.AtomsIn allowed →
    EndsOnly (Term.AtomsIn allowed) (readBack fuel ctx ty value)

/-- With so much fuel, reading neutrals back makes no atoms. -/
def ReadsNeutralAtoms (allowed : String → Prop) (fuel : Nat) : Prop :=
  ∀ (ctx : Context) {neutral : Neutral}, neutral.AtomsIn allowed →
    EndsOnly (fun found => found.1.AtomsIn allowed) (readBackNeutral fuel ctx neutral)

variable {fuel : Nat}

/-- A stuck value of a type that is no function type. -/
theorem ReadsNeutralAtoms.stuck (readsNeutral : ReadsNeutralAtoms allowed fuel) (ctx : Context)
    {neutral : Neutral} (inNeutral : neutral.AtomsIn allowed) :
    EndsOnly (Term.AtomsIn allowed) (do return (← readBackNeutral fuel ctx neutral).1) :=
  .bind (readsNeutral ctx inNeutral) fun _ inRead => .ok inRead

/-- One call of reading a value back. -/
theorem ReadsAtoms.step (reads : ReadsAtoms allowed fuel)
    (readsNeutral : ReadsNeutralAtoms allowed fuel) : ReadsAtoms allowed (fuel + 1) := by
  intro ctx ty value inValue
  cases ty with
  | fn dom cod =>
    have inFresh : (Value.ofIndex 0).AtomsIn allowed := trivial
    have opened := Value.apply_keepsAtoms fuel (inValue.weaken Weakening.fresh) inFresh
    refine .bind opened fun result inResult => ?_
    exact .bind (reads (dom :: ctx) cod inResult) fun body inBody => .ok inBody
  | nat =>
    cases value with
    | stuck neutral => exact readsNeutral.stuck ctx inValue
    | zero => exact .ok (List.forall_mem_nil _)
    | succ pred =>
      have innermost : pred.AtomsIn allowed := inValue
      exact .bind (reads ctx .nat (innermost.innermost [])) fun read inRead => .ok (inRead.succs _)
    | _ => exact .error _
  | atom =>
    cases value with
    | stuck neutral => exact readsNeutral.stuck ctx inValue
    | atom name => exact .ok (List.forall_mem_singleton.mpr inValue)
    | _ => exact .error _
  | pair fstTy sndTy =>
    cases value with
    | stuck neutral => exact readsNeutral.stuck ctx inValue
    | pair fst snd =>
      refine .bind (reads ctx fstTy inValue.1) fun first inFirst => ?_
      refine .bind (reads ctx sndTy inValue.2) fun second inSecond => .ok ?_
      exact Term.atomsIn_pair.mpr ⟨inFirst, inSecond⟩
    | _ => exact .error _
  | list elem =>
    cases value with
    | stuck neutral => exact readsNeutral.stuck ctx inValue
    | nil => exact .ok (List.forall_mem_nil _)
    | cons head tail =>
      obtain ⟨heads, last⟩ := inValue.cells [] (List.forall_mem_nil _)
      refine .bind (reads ctx (.list elem) last) fun rest inRest => ?_
      refine .foldlM (fun cell among read inRead => ?_) inRest
      refine .bind (reads ctx elem (heads cell among)) fun first inFirst => .ok ?_
      exact Term.atomsIn_cons.mpr ⟨inFirst, inRead⟩
    | _ => exact .error _

/-- One call of reading a neutral back. -/
theorem ReadsNeutralAtoms.step (reads : ReadsAtoms allowed fuel)
    (readsNeutral : ReadsNeutralAtoms allowed fuel) : ReadsNeutralAtoms allowed (fuel + 1) := by
  intro ctx neutral inNeutral
  cases neutral with
  | var index =>
    rw [readBackNeutral]
    split
    · exact .error _
    · split
      · exact .ok (List.forall_mem_nil _)
      · exact .error _
  | app fn arg =>
    refine .bind (readsNeutral ctx inNeutral.1) ?_
    rintro ⟨function, ty⟩ inFunction
    cases ty with
    | fn dom cod =>
      refine .bind (reads ctx dom inNeutral.2) fun argument inArgument => .ok ?_
      exact Term.atomsIn_app.mpr ⟨inFunction, inArgument⟩
    | _ => exact .error _
  | recNat motive target base step =>
    obtain ⟨inTarget, inBase, inStep⟩ := inNeutral
    refine .bind (readsNeutral ctx inTarget) fun number inNumber => ?_
    refine .bind (reads ctx motive inBase) fun start inStart => ?_
    refine .bind (reads ctx (Ty.natStep motive) inStep) fun next inNext => .ok ?_
    exact Term.atomsIn_recNat.mpr ⟨⟨inNumber, inStart⟩, inNext⟩
  | car operand =>
    refine .bind (readsNeutral ctx inNeutral) ?_
    rintro ⟨both, ty⟩ inBoth
    cases ty with
    | pair fst snd => exact .ok inBoth
    | _ => exact .error _
  | cdr operand =>
    refine .bind (readsNeutral ctx inNeutral) ?_
    rintro ⟨both, ty⟩ inBoth
    cases ty with
    | pair fst snd => exact .ok inBoth
    | _ => exact .error _
  | recList motive target base step =>
    obtain ⟨inTarget, inBase, inStep⟩ := inNeutral
    refine .bind (readsNeutral ctx inTarget) ?_
    rintro ⟨items, ty⟩ inItems
    cases ty with
    | list elem =>
      refine .bind (reads ctx motive inBase) fun start inStart => ?_
      refine .bind (reads ctx (Ty.listStep elem motive) inStep) fun next inNext => .ok ?_
      exact Term.atomsIn_recList.mpr ⟨⟨inItems, inStart⟩, inNext⟩
    | _ => exact .error _

/-- Reading back makes no atoms, by induction on the fuel. -/
theorem readsAtoms_and_readsNeutralAtoms (fuel : Nat) :
    ReadsAtoms allowed fuel ∧ ReadsNeutralAtoms allowed fuel := by
  induction fuel with
  | zero => exact ⟨fun _ _ _ _ => .error _, fun _ _ _ => .error _⟩
  | succ fuel ih => exact ⟨ReadsAtoms.step ih.1 ih.2, ReadsNeutralAtoms.step ih.1 ih.2⟩

end Reading

end EtaLong
