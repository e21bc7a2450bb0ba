/-
**Values in larger contexts.**

A value is moved by moving the variables it is stuck on, so weakenings that move variables alike
move values alike, and what weakenings do to values obeys the laws of indices. Evaluation does not
look at those variables: in a moved environment it does what it did before, and its result is the
moved one.

* `Value.weaken_weaken`: weakenings one after another;
* `Value.Free`, `Value.weaken_eq_self_iff`: free variables, and the values that are not changed;
* `weakenings_act`: the laws for terms, values, neutrals and environments;
* `transport_eq_weaken`: moving in one go, and not at all where nothing is inserted, is weakening;
* `Value.apply_weaken`, `Term.eval_weaken`: evaluation commutes with weakening.
-/

import EtaLong.Proofs.Substitution
import EtaLong.Value.Transport

namespace EtaLong

/-! ### Composition -/

section Composition

variable {first second first' second' : Weakening}

mutual

/-- **Weakenings one after another** move values alike when they move variables alike. -/
theorem Value.weaken_weaken
    (moves : ∀ index, second.embed (first.embed index) = second'.embed (first'.embed index)) :
    (value : Value) →
      (value.weaken first).weaken second = (value.weaken first').weaken second'
  | .closure env body => by
    simp only [Value.weaken, Value.weakenAll_weakenAll moves env]
  | .zero => rfl
  | .succ pred => by simp only [Value.weaken, Value.weaken_weaken moves pred]
  | .pair fst snd => by
    simp only [Value.weaken, Value.weaken_weaken moves fst, Value.weaken_weaken moves snd]
  | .nil => rfl
  | .cons head tail => by
    simp only [Value.weaken, Value.weaken_weaken moves head, Value.weaken_weaken moves tail]
  | .atom name => rfl
  | .stuck neutral => by simp only [Value.weaken, Neutral.weaken_weaken moves neutral]

/-- Weakenings of a neutral one after another. -/
theorem Neutral.weaken_weaken
    (moves : ∀ index, second.embed (first.embed index) = second'.embed (first'.embed index)) :
    (neutral : Neutral) →
      (neutral.weaken first).weaken second = (neutral.weaken first').weaken second'
  | .var index => by simp only [Neutral.weaken, moves]
  | .app fn arg => by
    simp only [Neutral.weaken, Neutral.weaken_weaken moves fn, Value.weaken_weaken moves arg]
  | .recNat motive target base step => by
    simp only [Neutral.weaken, Neutral.weaken_weaken moves target,
      Value.weaken_weaken moves base, Value.weaken_weaken moves step]
  | .car operand => by simp only [Neutral.weaken, Neutral.weaken_weaken moves operand]
  | .cdr operand => by simp only [Neutral.weaken, Neutral.weaken_weaken moves operand]
  | .recList motive target base step => by
    simp only [Neutral.weaken, Neutral.weaken_weaken moves target,
      Value.weaken_weaken moves base, Value.weaken_weaken moves step]

/-- Weakenings of an environment one after another. -/
theorem Value.weakenAll_weakenAll
    (moves : ∀ index, second.embed (first.embed index) = second'.embed (first'.embed index)) :
    (env : List Value) →
      Value.weakenAll second (Value.weakenAll first env) =
        Value.weakenAll second' (Value.weakenAll first' env)
  | [] => rfl
  | value :: values => by
    simp only [Value.weakenAll, Value.weaken_weaken moves value,
      Value.weakenAll_weakenAll moves values]

end

end Composition

/-! ### Free variables -/

mutual

/-- **A variable occurs free** in a value; the body of a function refers to the function's own
environment, so only what stands there counts. -/
def Value.Free (index : Int) : Value → Prop
  | .closure env _ => Value.FreeInAny index env
  | .zero => False
  | .succ pred => pred.Free index
  | .pair fst snd => fst.Free index ∨ snd.Free index
  | .nil => False
  | .cons head tail => head.Free index ∨ tail.Free index
  | .atom _ => False
  | .stuck neutral => neutral.Free index

/-- A variable occurs free in a neutral. -/
def Neutral.Free (index : Int) : Neutral → Prop
  | .var other => other = index
  | .app fn arg => fn.Free index ∨ arg.Free index
  | .recNat _ target base step => target.Free index ∨ base.Free index ∨ step.Free index
  | .car operand => operand.Free index
  | .cdr operand => operand.Free index
  | .recList _ target base step => target.Free index ∨ base.Free index ∨ step.Free index

/-- A variable occurs free in one of several values. -/
def Value.FreeInAny (index : Int) : List Value → Prop
  | [] => False
  | value :: values => value.Free index ∨ Value.FreeInAny index values

end

/-- A variable occurs free in an environment. -/
def Env.Free (index : Int) (env : Env) : Prop := Value.FreeInAny index env

section Stays

variable {w : Weakening}

mutual

/-- **A weakening leaves a value alone** if and only if it leaves the free variables alone. -/
theorem Value.weaken_eq_self_iff : (value : Value) →
    (value.weaken w = value ↔ ∀ index, value.Free index → w.embed index = index)
  | .closure env body => by
    simp only [Value.weaken, Value.Free, Value.closure.injEq, and_true,
      Value.weakenAll_eq_self_iff env]
  | .zero => by simp [Value.weaken, Value.Free]
  | .succ pred => by
    simp only [Value.weaken, Value.Free, Value.succ.injEq, Value.weaken_eq_self_iff pred]
  | .pair fst snd => by
    simp only [Value.weaken, Value.Free, Value.pair.injEq, or_imp, forall_and,
      Value.weaken_eq_self_iff fst, Value.weaken_eq_self_iff snd]
  | .nil => by simp [Value.weaken, Value.Free]
  | .cons head tail => by
    simp only [Value.weaken, Value.Free, Value.cons.injEq, or_imp, forall_and,
      Value.weaken_eq_self_iff head, Value.weaken_eq_self_iff tail]
  | .atom name => by simp [Value.weaken, Value.Free]
  | .stuck neutral => by
    simp only [Value.weaken, Value.Free, Value.stuck.injEq, Neutral.weaken_eq_self_iff neutral]

/-- A weakening leaves a neutral alone if and only if it leaves the free variables alone. -/
theorem Neutral.weaken_eq_self_iff : (neutral : Neutral) →
    (neutral.weaken w = neutral ↔ ∀ index, neutral.Free index → w.embed index = index)
  | .var index => by simp [Neutral.weaken, Neutral.Free]
  | .app fn arg => by
    simp only [Neutral.weaken, Neutral.Free, Neutral.app.injEq, or_imp, forall_and,
      Neutral.weaken_eq_self_iff fn, Value.weaken_eq_self_iff arg]
  | .recNat motive target base step => by
    simp only [Neutral.weaken, Neutral.Free, Neutral.recNat.injEq, true_and, or_imp, forall_and,
      Neutral.weaken_eq_self_iff target, Value.weaken_eq_self_iff base,
      Value.weaken_eq_self_iff step]
  | .car operand => by
    simp only [Neutral.weaken, Neutral.Free, Neutral.car.injEq, Neutral.weaken_eq_self_iff operand]
  | .cdr operand => by
    simp only [Neutral.weaken, Neutral.Free, Neutral.cdr.injEq, Neutral.weaken_eq_self_iff operand]
  | .recList motive target base step => by
    simp only [Neutral.weaken, Neutral.Free, Neutral.recList.injEq, true_and, or_imp, forall_and,
      Neutral.weaken_eq_self_iff target, Value.weaken_eq_self_iff base,
      Value.weaken_eq_self_iff step]

/-- A weakening leaves an environment alone if and only if it leaves the free variables alone. -/
theorem Value.weakenAll_eq_self_iff : (env : List Value) →
    (Value.weakenAll w env = env ↔ ∀ index, Value.FreeInAny index env → w.embed index = index)
  | [] => by simp [Value.weakenAll, Value.FreeInAny]
  | value :: values => by
    simp only [Value.weakenAll, Value.FreeInAny, List.cons.injEq, or_imp, forall_and,
      Value.weaken_eq_self_iff value, Value.weakenAll_eq_self_iff values]

end

end Stays

/-! ### The action -/

/-- **Weakenings act on values.** -/
theorem Value.weaken_acts :
    Weakening.Acts Value.weaken fun bound value => ∀ index, value.Free index → index < bound :=
  .of_moves Value.weaken_weaken fun w value =>
    value.weaken_eq_self_iff.trans (w.forall_embed_eq_self_iff _ id)

/-- **Weakenings act on neutrals.** -/
theorem Neutral.weaken_acts :
    Weakening.Acts Neutral.weaken fun bound neutral => ∀ index, neutral.Free index → index < bound :=
  .of_moves Neutral.weaken_weaken fun w neutral =>
    neutral.weaken_eq_self_iff.trans (w.forall_embed_eq_self_iff _ id)

/-- **Weakenings act on environments.** -/
theorem Env.weaken_acts :
    Weakening.Acts Env.weaken fun bound env => ∀ index, env.Free index → index < bound :=
  .of_moves Value.weakenAll_weakenAll fun w env =>
    (Value.weakenAll_eq_self_iff env).trans (w.forall_embed_eq_self_iff _ id)

/-- **Weakenings act on terms, values, neutrals and environments**: nothing changes where nothing is
inserted, insertions next to or among each other are one, insertions at two places are made in either
order, and where something is inserted exactly that stays which has no free variable from the cutoff
on. -/
theorem weakenings_act :
    (Weakening.Acts Term.weaken fun bound term => ∀ index, term.Free index → index < bound) ∧
    (Weakening.Acts Value.weaken fun bound value => ∀ index, value.Free index → index < bound) ∧
    (Weakening.Acts Neutral.weaken fun bound neutral =>
      ∀ index, neutral.Free index → index < bound) ∧
    (Weakening.Acts Env.weaken fun bound env => ∀ index, env.Free index → index < bound) :=
  ⟨Term.weaken_acts, Value.weaken_acts, Neutral.weaken_acts, Env.weaken_acts⟩

/-! ### Moving in one go -/

section Transport

variable {w : Weakening}

/-- A successor of the innermost number is one more successor. -/
theorem Value.succs_succ (count : Nat) (inner : Value) :
    Value.succs count (.succ inner) = .succ (Value.succs count inner) := by
  induction count with
  | zero => rfl
  | succ count ih => exact congrArg Value.succ ih

/-- Successors that are taken off in one go are moved with what they are wrapped around. -/
theorem Value.succs_predecessors_weaken (outer : List Value) (value : Value) :
    Value.succs (value.predecessors outer).1.length ((value.predecessors outer).2.weaken w) =
      Value.succs outer.length (value.weaken w) := by
  fun_induction Value.predecessors outer value with
  | case1 outer pred ih =>
    rw [ih, Value.weaken, Value.succs_succ]
    rfl
  | case2 => rfl

/-- Cells that are taken off in one go are moved with what follows them. -/
theorem Value.foldl_cells_weaken (outer : List (Value × Value)) (value : Value) :
    (value.cells outer).1.foldl (fun moved cell => .cons (cell.1.weaken w) moved)
        ((value.cells outer).2.weaken w) =
      outer.foldl (fun moved cell => .cons (cell.1.weaken w) moved) (value.weaken w) := by
  fun_induction Value.cells outer value with
  | case1 outer head tail ih => rw [ih, Value.weaken, List.foldl_cons]
  | case2 => rfl

/-- **Moving in one go is weakening**, for values, neutrals and environments. -/
theorem transport_eq_weaken (w : Weakening) :
    (∀ value : Value, value.transport w = value.weaken w) ∧
    (∀ neutral : Neutral, neutral.transport w = neutral.weaken w) ∧
    ∀ env : Env, env.transport w = env.weaken w := by
  refine Value.transport.mutual_induct w _ _ _ ?identity ?closure ?zero ?succ ?pair ?nil ?cons ?atom
    ?stuck ?var ?app ?recNat ?car ?cdr ?recList ?none ?each
  case identity =>
    intro value identity
    rw [Value.transport.eq_def, if_pos identity, Value.weaken_acts.of_isIdentity identity]
  case closure =>
    intro moves env body moved
    rw [Value.transport, if_neg moves, moved]
    rfl
  case zero =>
    intro moves
    rw [Value.transport, if_neg moves]
    rfl
  case succ =>
    intro moves pred _ moved
    rw [Value.transport, if_neg moves, moved]
    exact congrArg Value.succ (Value.succs_predecessors_weaken [] pred)
  case pair =>
    intro moves fst snd first second
    rw [Value.transport, if_neg moves, first, second]
    rfl
  case nil =>
    intro moves
    rw [Value.transport, if_neg moves]
    rfl
  case cons =>
    intro moves head tail _ heads last
    rw [Value.transport, if_neg moves]
    simp only [heads, last]
    have row := @Value.foldl_cells_weaken w [(head, tail)] tail
    rw [← List.foldl_attach] at row
    exact row
  case atom =>
    intro moves name
    rw [Value.transport, if_neg moves]
    rfl
  case stuck =>
    intro moves neutral moved
    rw [Value.transport, if_neg moves, moved]
    rfl
  case var =>
    intro index
    rw [Neutral.transport]
    rfl
  case app =>
    intro fn arg function argument
    rw [Neutral.transport, function, argument]
    rfl
  case recNat =>
    intro motive target base step number start next
    rw [Neutral.transport, number, start, next]
    rfl
  case car =>
    intro operand moved
    rw [Neutral.transport, moved]
    rfl
  case cdr =>
    intro operand moved
    rw [Neutral.transport, moved]
    rfl
  case recList =>
    intro motive target base step items start next
    rw [Neutral.transport, items, start, next]
    rfl
  case none =>
    intro env identity
    rw [Env.transport, if_pos identity, Env.weaken_acts.of_isIdentity identity]
  case each =>
    intro env moves moved
    rw [Env.transport, if_neg moves, Env.weaken, Value.weakenAll_eq_map]
    simp only [moved]
    exact List.attach_map_val

end Transport

/-! ### Entries in front -/

theorem Weakening.embed_front_of_nonneg (count : Nat) {index : Int} (inside : 0 ≤ index) :
    (front count).embed index = index + count :=
  if_pos inside

/-- Without new entries a value stays as it is. -/
theorem Value.weaken_front_zero (value : Value) : value.weaken (.front 0) = value :=
  Value.weaken_acts.none 0 value

/-- Without new entries a neutral stays as it is. -/
theorem Neutral.weaken_front_zero (neutral : Neutral) : neutral.weaken (.front 0) = neutral :=
  Neutral.weaken_acts.none 0 neutral

/-- New entries one after another. -/
theorem Value.weaken_front_add (first second : Nat) (value : Value) :
    (value.weaken (.front first)).weaken (.front second) =
      value.weaken (.front (first + second)) :=
  Value.weaken_acts.merge first second 0 0 value (Nat.le_refl 0) (Nat.zero_le _)

/-- New entries in front of a neutral one after another. -/
theorem Neutral.weaken_front_add (first second : Nat) (neutral : Neutral) :
    (neutral.weaken (.front first)).weaken (.front second) =
      neutral.weaken (.front (first + second)) :=
  Neutral.weaken_acts.merge first second 0 0 neutral (Nat.le_refl 0) (Nat.zero_le _)

/-! ### Evaluation -/

/-- **Two outcomes correspond** when both are faults or the second result is the first one moved. -/
inductive Corresponds (w : Weakening) : Except Fault Value → Except Fault Value → Prop where
  | ok (value : Value) : Corresponds w (.ok value) (.ok (value.weaken w))
  | error (first second : Fault) : Corresponds w (.error first) (.error second)

namespace Corresponds

variable {w : Weakening}

/-- Sequences correspond when their parts do. -/
theorem bind {first second : Except Fault Value} {next next' : Value → Except Fault Value}
    (start : Corresponds w first second)
    (rest : ∀ value, Corresponds w (next value) (next' (value.weaken w))) :
    Corresponds w (first >>= next) (second >>= next') := by
  cases start with
  | ok value => exact rest value
  | error first second => exact .error first second

/-- A result is moved along. -/
theorem moved {first second : Except Fault Value} {value : Value}
    (same : Corresponds w first second) (ends : first = .ok value) :
    second = .ok (value.weaken w) := by
  cases same with
  | ok other =>
    cases ends
    rfl
  | error _ _ => cases ends

end Corresponds

section Natural

variable (w : Weakening)

/-- Environments are moved entry by entry. -/
theorem Env.getElem?_weaken (env : Env) (index : Nat) :
    (env.weaken w)[index]? = env[index]?.map (Value.weaken w) := by
  rw [Env.weaken, Value.weakenAll_eq_map, List.getElem?_map]

/-- Projections commute with weakening. -/
theorem Value.car_weaken (value : Value) : Corresponds w value.car (value.weaken w).car := by
  cases value <;> constructor

theorem Value.cdr_weaken (value : Value) : Corresponds w value.cdr (value.weaken w).cdr := by
  cases value <;> constructor

variable {apply : Application}
  (applies : ∀ fn arg, Corresponds w (apply fn arg) (apply (fn.weaken w) (arg.weaken w)))

include applies

/-- Recursion over numbers commutes with weakening. -/
theorem Value.recNat_weaken (motive : Ty) (base step : Value) : (target : Value) →
    Corresponds w (target.recNat apply motive base step)
      ((target.weaken w).recNat apply motive (base.weaken w) (step.weaken w))
  | .succ pred => by
    rw [Value.weaken, Value.recNat_succ, Value.recNat_succ]
    refine (Value.recNat_weaken motive base step pred).bind fun result => ?_
    exact (applies step pred).bind fun stepped => applies stepped result
  | .zero => .ok base
  | .stuck neutral => .ok (.stuck (.recNat motive neutral base step))
  | .closure _ _ => .error _ _
  | .pair _ _ => .error _ _
  | .nil => .error _ _
  | .cons _ _ => .error _ _
  | .atom _ => .error _ _

/-- Recursion over lists commutes with weakening. -/
theorem Value.recList_weaken (motive : Ty) (base step : Value) : (target : Value) →
    Corresponds w (target.recList apply motive base step)
      ((target.weaken w).recList apply motive (base.weaken w) (step.weaken w))
  | .cons head tail => by
    rw [Value.weaken, Value.recList_cons, Value.recList_cons]
    refine (Value.recList_weaken motive base step tail).bind fun result => ?_
    refine (applies step head).bind fun first => ?_
    exact (applies first tail).bind fun second => applies second result
  | .nil => .ok base
  | .stuck neutral => .ok (.stuck (.recList motive neutral base step))
  | .closure _ _ => .error _ _
  | .zero => .error _ _
  | .succ _ => .error _ _
  | .pair _ _ => .error _ _
  | .atom _ => .error _ _

/-- Evaluation commutes with weakening as far as application does. -/
theorem Term.evalWith_weaken (env : Env) (term : Term) :
    Corresponds w (term.evalWith apply env) (term.evalWith apply (env.weaken w)) := by
  induction term with
  | var index =>
    simp only [Term.evalWith, Env.getElem?_weaken]
    cases env[index]? with
    | none => exact .error _ _
    | some value => exact .ok value
  | lam dom body => exact .ok (.closure env body)
  | app fn arg fnIH argIH =>
    exact fnIH.bind fun function => argIH.bind fun argument => applies function argument
  | atom name => exact .ok (.atom name)
  | zero => exact .ok .zero
  | succ pred ih => exact ih.bind fun value => .ok (.succ value)
  | recNat motive target base step targetIH baseIH stepIH =>
    refine targetIH.bind fun number => baseIH.bind fun start => stepIH.bind fun next => ?_
    exact Value.recNat_weaken w applies motive start next number
  | pair fst snd fstIH sndIH =>
    exact fstIH.bind fun first => sndIH.bind fun second => .ok (.pair first second)
  | car operand ih => exact ih.bind fun value => Value.car_weaken w value
  | cdr operand ih => exact ih.bind fun value => Value.cdr_weaken w value
  | nil elem => exact .ok .nil
  | cons head tail headIH tailIH =>
    exact tailIH.bind fun rest => headIH.bind fun first => .ok (.cons first rest)
  | recList motive target base step targetIH baseIH stepIH =>
    refine targetIH.bind fun items => baseIH.bind fun start => stepIH.bind fun next => ?_
    exact Value.recList_weaken w applies motive start next items
  | ann ty body ih => exact ih

end Natural

/-- **Application commutes with weakening.** -/
theorem Value.apply_weaken (w : Weakening) (fuel : Nat) (fn arg : Value) :
    Corresponds w (Value.apply fuel fn arg)
      (Value.apply fuel (fn.weaken w) (arg.weaken w)) := by
  induction fuel generalizing fn arg with
  | zero => cases fn <;> constructor
  | succ fuel ih =>
    cases fn with
    | closure env body => exact Term.evalWith_weaken w ih (arg :: env) body
    | stuck neutral => exact .ok (.stuck (.app neutral arg))
    | zero => exact .error _ _
    | succ _ => exact .error _ _
    | pair _ _ => exact .error _ _
    | nil => exact .error _ _
    | cons _ _ => exact .error _ _
    | atom _ => exact .error _ _

/-- **Evaluation commutes with weakening.** -/
theorem Term.eval_weaken (w : Weakening) (fuel : Nat) (env : Env) (term : Term) :
    Corresponds w (term.eval fuel env) (term.eval fuel (env.weaken w)) :=
  Term.evalWith_weaken w (Value.apply_weaken w fuel) env term

end EtaLong
