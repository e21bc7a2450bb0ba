/-
**Values.**

Evaluation gives values: introduction forms, functions that wait for their argument, and neutrals,
which are eliminations stuck on a variable. A function keeps the environment in which it was
written, so moving a value into a larger context moves what its environment holds and leaves its
body alone.

* `Value.weakenAll_eq_map`: an environment is moved value by value.
-/

import EtaLong.Context

namespace EtaLong

mutual

/-- The results of evaluation. -/
inductive Value where
  | closure (env : List Value) (body : Term)
  | zero
  | succ (pred : Value)
  | pair (fst snd : Value)
  | nil
  | cons (head tail : Value)
  | atom (name : String)
  | stuck (neutral : Neutral)

/-- Computations stuck on a variable. -/
inductive Neutral where
  | var (index : Int)
  | app (fn : Neutral) (arg : Value)
  | recNat (motive : Ty) (target : Neutral) (base step : Value)
  | car (operand : Neutral)
  | cdr (operand : Neutral)
  | recList (motive : Ty) (target : Neutral) (base step : Value)

end

/-- The values of the variables in scope, innermost first. -/
abbrev Env := List Value

/-- The value of a variable that has none but itself. -/
def Value.ofIndex (index : Int) : Value := .stuck (.var index)

/-- So many successors of a value. -/
def Value.succs (count : Nat) (inner : Value) : Value := Nat.repeat Value.succ count inner

/-- The environment that binds every variable of a context to itself. -/
def Env.identity (length : Nat) : Env :=
  (List.range length).map fun index : Nat => Value.ofIndex index

mutual

/-- A value moved into a larger context. -/
def Value.weaken (w : Weakening) : Value → Value
  | .closure env body => .closure (Value.weakenAll w env) body
  | .zero => .zero
  | .succ pred => .succ (pred.weaken w)
  | .pair fst snd => .pair (fst.weaken w) (snd.weaken w)
  | .nil => .nil
  | .cons head tail => .cons (head.weaken w) (tail.weaken w)
  | .atom name => .atom name
  | .stuck neutral => .stuck (neutral.weaken w)

/-- A neutral moved into a larger context. -/
def Neutral.weaken (w : Weakening) : Neutral → Neutral
  | .var index => .var (w.embed index)
  | .app fn arg => .app (fn.weaken w) (arg.weaken w)
  | .recNat motive target base step =>
    .recNat motive (target.weaken w) (base.weaken w) (step.weaken w)
  | .car operand => .car (operand.weaken w)
  | .cdr operand => .cdr (operand.weaken w)
  | .recList motive target base step =>
    .recList motive (target.weaken w) (base.weaken w) (step.weaken w)

/-- An environment moved into a larger context. -/
def Value.weakenAll (w : Weakening) : List Value → List Value
  | [] => []
  | value :: values => value.weaken w :: Value.weakenAll w values

end

/-- An environment moved into a larger context. -/
def Env.weaken (w : Weakening) (env : Env) : Env := Value.weakenAll w env

/-- An environment is moved value by value. -/
theorem Value.weakenAll_eq_map (w : Weakening) (env : List Value) :
    Value.weakenAll w env = env.map (Value.weaken w) := by
  induction env with
  | nil => simp [Value.weakenAll]
  | cons value env ih => simp [Value.weakenAll, ih]

mutual

/-- The full description of a value. -/
def Value.describe : Value → String
  | .closure env body => Text.record "VClosure"
      [("env", Text.record "Env" [("values", Text.tuple (Value.describeAll env))]),
        ("body", body.describe)]
  | .zero => Text.record "VZero" []
  | .succ pred => Text.record "VSucc" [("pred", pred.describe)]
  | .pair fst snd => Text.record "VPair" [("fst", fst.describe), ("snd", snd.describe)]
  | .nil => Text.record "VNil" []
  | .cons head tail => Text.record "VCons" [("head", head.describe), ("tail", tail.describe)]
  | .atom name => Text.record "VAtom" [("name", Text.quoted name)]
  | .stuck neutral => Text.record "VNeutral" [("neutral", neutral.describe)]

/-- The full description of a neutral. -/
def Neutral.describe : Neutral → String
  | .var index => Text.record "NVar" [("k", toString index)]
  | .app fn arg => Text.record "NApp" [("fn", fn.describe), ("arg", arg.describe)]
  | .recNat motive target base step => Text.record "NRec" [("ty", motive.describe),
      ("target", target.describe), ("base", base.describe), ("step", step.describe)]
  | .car operand => Text.record "NCar" [("pair", operand.describe)]
  | .cdr operand => Text.record "NCdr" [("pair", operand.describe)]
  | .recList motive target base step => Text.record "NRecList" [("ty", motive.describe),
      ("target", target.describe), ("base", base.describe), ("step", step.describe)]

/-- The full descriptions of several values. -/
def Value.describeAll : List Value → List String
  | [] => []
  | value :: values => value.describe :: Value.describeAll values

end

end EtaLong
