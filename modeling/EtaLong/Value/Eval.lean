/-
**Evaluation.**

Evaluation is structural on terms but for the application of a function value, which evaluates
the function's body. That one step is a parameter of evaluation, and fuel bounds how deep such
steps may nest. Operands are evaluated before they are used, from left to right; the tail of a
list comes before its head.

* `Term.eval`: the value of a term in an environment;
* `Value.recNat_succ`, `Value.recList_cons`: a recursor takes its target apart one constructor
  at a time.
-/

import EtaLong.Value.Fault

namespace EtaLong

/-- A way to apply function values. -/
abbrev Application := Value → Value → Except Fault Value

namespace Value

/-- The first component of a pair. -/
def car : Value → Except Fault Value
  | pair fst _ => .ok fst
  | stuck neutral => .ok (stuck (.car neutral))
  | value => .error (.carOfNonPair value)

/-- The second component of a pair. -/
def cdr : Value → Except Fault Value
  | pair _ snd => .ok snd
  | stuck neutral => .ok (stuck (.cdr neutral))
  | value => .error (.cdrOfNonPair value)

/-- The predecessors of a number, the innermost first, and what its successors are wrapped around;
`outer` holds the predecessors met so far. -/
def predecessors (outer : List Value) : Value → List Value × Value
  | succ pred => pred.predecessors (pred :: outer)
  | value => (outer, value)

/-- The cells of a list as head and tail, the last first, and what follows them; `outer` holds the
cells met so far. -/
def cells (outer : List (Value × Value)) : Value → List (Value × Value) × Value
  | cons head tail => tail.cells ((head, tail) :: outer)
  | value => (outer, value)

/-- Where recursion over a number starts, given what its successors are wrapped around. -/
def recNatStart (motive : Ty) (base step : Value) : Value → Except Fault Value
  | zero => .ok base
  | stuck neutral => .ok (stuck (.recNat motive neutral base step))
  | value => .error (.recNatOfNonNumber value)

/-- Where recursion over a list starts, given what follows its cells. -/
def recListStart (motive : Ty) (base step : Value) : Value → Except Fault Value
  | nil => .ok base
  | stuck neutral => .ok (stuck (.recList motive neutral base step))
  | value => .error (.recListOfNonList value)

/-- Recursion over a number: the step is folded from the innermost predecessor outwards. -/
def recNat (apply : Application) (motive : Ty) (target base step : Value) :
    Except Fault Value := do
  let (preds, innermost) := target.predecessors []
  let start ← recNatStart motive base step innermost
  preds.foldlM (fun result pred => do apply (← apply step pred) result) start

/-- Recursion over a list: the step is folded from the last cell backwards. -/
def recList (apply : Application) (motive : Ty) (target base step : Value) :
    Except Fault Value := do
  let (cells, last) := target.cells []
  let start ← recListStart motive base step last
  cells.foldlM (fun result cell => do
    apply (← apply (← apply step cell.1) cell.2) result) start

end Value

/-- The value of a term, given a way to apply function values. -/
def Term.evalWith (apply : Application) (env : Env) : Term → Except Fault Value
  | .var index => match env[index]? with
    | some value => .ok value
    | none => .error (.missingVariable index)
  | .lam _ body => .ok (.closure env body)
  | .app fn arg => do
    let function ← fn.evalWith apply env
    let argument ← arg.evalWith apply env
    apply function argument
  | .atom name => .ok (.atom name)
  | .zero => .ok .zero
  | .succ pred => do return .succ (← pred.evalWith apply env)
  | .recNat motive target base step => do
    let number ← target.evalWith apply env
    let start ← base.evalWith apply env
    let next ← step.evalWith apply env
    number.recNat apply motive start next
  | .pair fst snd => do
    let first ← fst.evalWith apply env
    let second ← snd.evalWith apply env
    return .pair first second
  | .car operand => do (← operand.evalWith apply env).car
  | .cdr operand => do (← operand.evalWith apply env).cdr
  | .nil _ => .ok .nil
  | .cons head tail => do
    let rest ← tail.evalWith apply env
    let first ← head.evalWith apply env
    return .cons first rest
  | .recList motive target base step => do
    let items ← target.evalWith apply env
    let start ← base.evalWith apply env
    let next ← step.evalWith apply env
    items.recList apply motive start next
  | .ann _ body => body.evalWith apply env

/-- A function value applied to an argument; fuel bounds how deep applications nest. -/
def Value.apply : Nat → Value → Value → Except Fault Value
  | 0, .closure _ _, _ => .error .outOfFuel
  | fuel + 1, .closure env body, arg => body.evalWith (Value.apply fuel) (arg :: env)
  | _, .stuck neutral, arg => .ok (.stuck (.app neutral arg))
  | _, value, _ => .error (.notFunction value)

/-- The value of a term in an environment. -/
def Term.eval (fuel : Nat) (env : Env) (term : Term) : Except Fault Value :=
  term.evalWith (Value.apply fuel) env

namespace Value

/-- What was met before stays behind the predecessors. -/
theorem predecessors_append (front back : List Value) (value : Value) :
    value.predecessors (front ++ back) =
      ((value.predecessors front).1 ++ back, (value.predecessors front).2) := by
  fun_induction predecessors front value with
  | case1 front pred ih => simpa [predecessors] using ih
  | case2 front value noSucc => cases value <;> simp_all [predecessors]

/-- What was met before stays behind the cells. -/
theorem cells_append (front back : List (Value × Value)) (value : Value) :
    value.cells (front ++ back) = ((value.cells front).1 ++ back, (value.cells front).2) := by
  fun_induction cells front value with
  | case1 front head tail ih => simpa [cells] using ih
  | case2 front value noCons => cases value <;> simp_all [cells]

/-- Recursion over a successor: the result for the predecessor, then one step. -/
theorem recNat_succ (apply : Application) (motive : Ty) (pred base step : Value) :
    (succ pred).recNat apply motive base step = (do
      let result ← pred.recNat apply motive base step
      apply (← apply step pred) result) := by
  have taken : (succ pred).predecessors [] =
      ((pred.predecessors []).1 ++ [pred], (pred.predecessors []).2) :=
    predecessors_append [] [pred] pred
  simp [recNat, taken, List.foldlM_append]

/-- Recursion over a cell: the result for the tail, then one step. -/
theorem recList_cons (apply : Application) (motive : Ty) (head tail base step : Value) :
    (cons head tail).recList apply motive base step = (do
      let result ← tail.recList apply motive base step
      apply (← apply (← apply step head) tail) result) := by
  have taken : (cons head tail).cells [] =
      ((tail.cells []).1 ++ [(head, tail)], (tail.cells []).2) :=
    cells_append [] [(head, tail)] tail
  simp [recList, taken, List.foldlM_append]

end Value

end EtaLong
