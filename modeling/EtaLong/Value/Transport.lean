/-
**Moving values in one go.**

A value is moved into a larger context without a look at it where nothing is inserted. Elsewhere rows
of successors and of cells are taken apart first, and put together again from their ends, so that calls
nest as deep as values do without their rows.

* `Value.transport`, `Neutral.transport`, `Env.transport`: moved values, neutrals and environments.
-/

import EtaLong.Value.Eval

namespace EtaLong

namespace Value

/-- What successors are wrapped around is no larger than they are. -/
theorem sizeOf_predecessors_le (outer : List Value) (value : Value) :
    sizeOf (value.predecessors outer).2 ≤ sizeOf value := by
  fun_induction predecessors outer value with
  | case1 outer pred ih =>
    simp only [succ.sizeOf_spec]
    omega
  | case2 => exact Nat.le_refl _

/-- What follows the cells is no larger than they are. -/
theorem sizeOf_cells_le (outer : List (Value × Value)) (value : Value) :
    sizeOf (value.cells outer).2 ≤ sizeOf value := by
  fun_induction cells outer value with
  | case1 outer head tail ih =>
    simp only [cons.sizeOf_spec]
    omega
  | case2 => exact Nat.le_refl _

/-- The head of a cell is smaller than the value it was taken from, unless it was met before. -/
theorem sizeOf_head_lt {outer : List (Value × Value)} {value : Value} {cell : Value × Value}
    (among : cell ∈ (value.cells outer).1) : sizeOf cell.1 < sizeOf value ∨ cell ∈ outer := by
  fun_induction cells outer value with
  | case1 outer head tail ih =>
    simp only [cons.sizeOf_spec]
    rcases ih among with smaller | before
    · exact .inl (by omega)
    · rcases List.mem_cons.mp before with rfl | before
      · exact .inl (Nat.lt_add_right _ (Nat.lt_add_of_pos_left Nat.one_pos))
      · exact .inr before
  | case2 => exact .inr among

/-- The head of a cell is no larger than what the cells were taken from. -/
theorem sizeOf_head_le {head tail : Value} {cell : Value × Value}
    (among : cell ∈ (tail.cells [(head, tail)]).1) :
    sizeOf cell.1 ≤ sizeOf head + sizeOf tail := by
  rcases sizeOf_head_lt among with smaller | first
  · omega
  · obtain rfl := List.mem_singleton.mp first
    exact Nat.le_add_right _ _

end Value

mutual

/-- A value moved into a larger context. -/
def Value.transport (w : Weakening) (value : Value) : Value :=
  if w.isIdentity then value
  else match value with
    | .closure env body => .closure (Env.transport w env) body
    | .zero => .zero
    | .succ pred =>
      have := pred.sizeOf_predecessors_le []
      Value.succs ((pred.predecessors []).1.length + 1) ((pred.predecessors []).2.transport w)
    | .pair fst snd => .pair (fst.transport w) (snd.transport w)
    | .nil => .nil
    | .cons head tail =>
      have := tail.sizeOf_cells_le [(head, tail)]
      (tail.cells [(head, tail)]).1.attach.foldl
        (fun moved cell =>
          have := Value.sizeOf_head_le cell.2
          .cons (cell.1.1.transport w) moved)
        ((tail.cells [(head, tail)]).2.transport w)
    | .atom name => .atom name
    | .stuck neutral => .stuck (neutral.transport w)
termination_by sizeOf value

/-- A neutral moved into a larger context. -/
def Neutral.transport (w : Weakening) : Neutral → Neutral
  | .var index => .var (w.embed index)
  | .app fn arg => .app (fn.transport w) (arg.transport w)
  | .recNat motive target base step =>
    .recNat motive (target.transport w) (base.transport w) (step.transport w)
  | .car operand => .car (operand.transport w)
  | .cdr operand => .cdr (operand.transport w)
  | .recList motive target base step =>
    .recList motive (target.transport w) (base.transport w) (step.transport w)
termination_by neutral => sizeOf neutral

/-- An environment moved into a larger context. -/
def Env.transport (w : Weakening) (env : Env) : Env :=
  if w.isIdentity then env
  else env.attach.map fun value =>
    have := List.sizeOf_lt_of_mem value.2
    value.1.transport w
termination_by sizeOf env

end

end EtaLong
