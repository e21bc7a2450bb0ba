/-
**Reading values back.**

A value is read back into a term at its type. A value of function type is opened: it is applied to
a new variable, and the result is read back below that binder, so that functions come out
eta-expanded. Other neutrals are read back as the eliminations that they are. Normalising a term
is to evaluate it where every variable stands for itself, and to read the value back.

* `readBack`: the normal term of a value at a type;
* `readBackNeutral`: the term of a neutral, with its type;
* `Term.normalize`: the normal form of a term, with its type.
-/

import EtaLong.Typing
import EtaLong.Value.Eval

namespace EtaLong

mutual

/-- The normal term of a value at a type; fuel bounds how deep calls nest. -/
def readBack : Nat → Context → Ty → Value → Except Fault Term
  | 0, _, _, _ => .error .outOfFuel
  | fuel + 1, ctx, .fn dom cod, value => do
    let result ← Value.apply fuel (value.weaken Weakening.fresh) (Value.ofIndex 0)
    return .lam dom (← readBack fuel (dom :: ctx) cod result)
  | fuel + 1, ctx, _, .stuck neutral => do return (← readBackNeutral fuel ctx neutral).1
  | _ + 1, _, .nat, .zero => .ok .zero
  | fuel + 1, ctx, .nat, .succ pred => do
    let (outer, innermost) := pred.predecessors []
    return Term.succs (outer.length + 1) (← readBack fuel ctx .nat innermost)
  | _ + 1, _, .atom, .atom name => .ok (.atom name)
  | fuel + 1, ctx, .pair fstTy sndTy, .pair fst snd => do
    let first ← readBack fuel ctx fstTy fst
    let second ← readBack fuel ctx sndTy snd
    return .pair first second
  | _ + 1, _, .list elem, .nil => .ok (.nil elem)
  | fuel + 1, ctx, .list elem, .cons head tail => do
    let (cells, last) := (Value.cons head tail).cells []
    let rest ← readBack fuel ctx (.list elem) last
    cells.foldlM (fun read cell => do return .cons (← readBack fuel ctx elem cell.1) read) rest
  | _ + 1, _, ty, value => .error (.notInhabitant value ty)

/-- The term of a neutral, with its type; fuel bounds how deep calls nest. -/
def readBackNeutral : Nat → Context → Neutral → Except Fault (Term × Ty)
  | 0, _, _ => .error .outOfFuel
  | _ + 1, ctx, .var index =>
    if index < 0 then .error .negativeVariable
    else match ctx[index.toNat]? with
      | some ty => .ok (.var index.toNat, ty)
      | none => .error (.unboundVariable index ctx.length)
  | fuel + 1, ctx, .app fn arg => do
    match ← readBackNeutral fuel ctx fn with
    | (function, .fn dom cod) => return (.app function (← readBack fuel ctx dom arg), cod)
    | (_, other) => throw (.stuckAppOfNonFunction other)
  | fuel + 1, ctx, .recNat motive target base step => do
    let (number, _) ← readBackNeutral fuel ctx target
    let start ← readBack fuel ctx motive base
    let next ← readBack fuel ctx (Ty.natStep motive) step
    return (.recNat motive number start next, motive)
  | fuel + 1, ctx, .car operand => do
    match ← readBackNeutral fuel ctx operand with
    | (both, .pair fst _) => return (.car both, fst)
    | (_, other) => throw (.stuckCarOfNonPair other)
  | fuel + 1, ctx, .cdr operand => do
    match ← readBackNeutral fuel ctx operand with
    | (both, .pair _ snd) => return (.cdr both, snd)
    | (_, other) => throw (.stuckCdrOfNonPair other)
  | fuel + 1, ctx, .recList motive target base step => do
    match ← readBackNeutral fuel ctx target with
    | (items, .list elem) =>
      let start ← readBack fuel ctx motive base
      let next ← readBack fuel ctx (Ty.listStep elem motive) step
      return (.recList motive items start next, motive)
    | (_, other) => throw (.stuckRecListOfNonList other)

end

/-- Why a term was not normalised. -/
inductive NormalizeError where
  | illTyped (error : Typing.Error)
  | fault (fault : Fault)

/-- The normal form of a term in a context, with its type. -/
def Term.normalize (fuel : Nat) (ctx : Context) (term : Term) :
    Except NormalizeError (Term × Ty) := do
  let ty ← (term.infer ctx).mapError .illTyped
  let value ← (term.eval fuel (Env.identity ctx.length)).mapError .fault
  let normal ← (readBack fuel ctx ty value).mapError .fault
  return (normal, ty)

end EtaLong
