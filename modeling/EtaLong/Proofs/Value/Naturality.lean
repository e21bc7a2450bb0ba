/-
**Evaluation is natural in weakening.**

Evaluation commutes with weakening, fuel by fuel (`Term.eval_weaken`). A weakening moves no two
variables to one place, so a moved value tells what it was before; hence nothing but the moved
results comes out of moved operands, and a result can be told from the moved one. This holds with
and without types, also for values that evaluation never builds, and of every way to eliminate a
value.

* `Value.weaken_injective`: a moved value tells what it was before;
* `MovesAlong`: the results of moved operands are the moved results;
* `MovesAlong.of_runs`: from single runs to what is yielded in the end;
* `evaluation_natural_in_weakening`: evaluation and all eliminations.
-/

import EtaLong.Proofs.Value.BigStep

namespace EtaLong

/-! ### Injectivity -/

/-- A weakening moves no two variables to one place. -/
theorem Weakening.embed_injective (w : Weakening) : Function.Injective w.embed := by
  intro index other same
  unfold embed at same
  split at same <;> split at same <;> omega

section Injective

variable {w : Weakening}

mutual

/-- Values that are moved to one value are the same. -/
theorem Value.eq_of_weaken_eq : (value : Value) → {other : Value} →
    value.weaken w = other.weaken w → value = other
  | .closure env body, other, same => by
    cases other with
    | closure env' body' =>
      obtain ⟨envs, rfl⟩ := Value.closure.inj same
      rw [Value.eq_of_weakenAll_eq env envs]
    | _ => cases same
  | .zero, other, same => by
    cases other with
    | zero => rfl
    | _ => cases same
  | .succ pred, other, same => by
    cases other with
    | succ pred' => rw [Value.eq_of_weaken_eq pred (Value.succ.inj same)]
    | _ => cases same
  | .pair fst snd, other, same => by
    cases other with
    | pair fst' snd' =>
      obtain ⟨first, second⟩ := Value.pair.inj same
      rw [Value.eq_of_weaken_eq fst first, Value.eq_of_weaken_eq snd second]
    | _ => cases same
  | .nil, other, same => by
    cases other with
    | nil => rfl
    | _ => cases same
  | .cons head tail, other, same => by
    cases other with
    | cons head' tail' =>
      obtain ⟨first, rest⟩ := Value.cons.inj same
      rw [Value.eq_of_weaken_eq head first, Value.eq_of_weaken_eq tail rest]
    | _ => cases same
  | .atom name, other, same => by
    cases other with
    | atom name' => exact same
    | _ => cases same
  | .stuck neutral, other, same => by
    cases other with
    | stuck neutral' => rw [Neutral.eq_of_weaken_eq neutral (Value.stuck.inj same)]
    | _ => cases same

/-- Neutrals that are moved to one neutral are the same. -/
theorem Neutral.eq_of_weaken_eq : (neutral : Neutral) → {other : Neutral} →
    neutral.weaken w = other.weaken w → neutral = other
  | .var index, other, same => by
    cases other with
    | var index' => rw [w.embed_injective (Neutral.var.inj same)]
    | _ => cases same
  | .app fn arg, other, same => by
    cases other with
    | app fn' arg' =>
      obtain ⟨fns, args⟩ := Neutral.app.inj same
      rw [Neutral.eq_of_weaken_eq fn fns, Value.eq_of_weaken_eq arg args]
    | _ => cases same
  | .recNat motive target base step, other, same => by
    cases other with
    | recNat motive' target' base' step' =>
      obtain ⟨rfl, targets, bases, steps⟩ := Neutral.recNat.inj same
      rw [Neutral.eq_of_weaken_eq target targets, Value.eq_of_weaken_eq base bases,
        Value.eq_of_weaken_eq step steps]
    | _ => cases same
  | .car operand, other, same => by
    cases other with
    | car operand' => rw [Neutral.eq_of_weaken_eq operand (Neutral.car.inj same)]
    | _ => cases same
  | .cdr operand, other, same => by
    cases other with
    | cdr operand' => rw [Neutral.eq_of_weaken_eq operand (Neutral.cdr.inj same)]
    | _ => cases same
  | .recList motive target base step, other, same => by
    cases other with
    | recList motive' target' base' step' =>
      obtain ⟨rfl, targets, bases, steps⟩ := Neutral.recList.inj same
      rw [Neutral.eq_of_weaken_eq target targets, Value.eq_of_weaken_eq base bases,
        Value.eq_of_weaken_eq step steps]
    | _ => cases same

/-- Environments that are moved to one environment are the same. -/
theorem Value.eq_of_weakenAll_eq : (env : List Value) → {other : List Value} →
    Value.weakenAll w env = Value.weakenAll w other → env = other
  | [], other, same => by
    cases other with
    | nil => rfl
    | cons value' values' => cases same
  | value :: values, other, same => by
    cases other with
    | nil => cases same
    | cons value' values' =>
      obtain ⟨first, rest⟩ := List.cons.inj same
      rw [Value.eq_of_weaken_eq value first, Value.eq_of_weakenAll_eq values rest]

end

end Injective

/-- **A moved value tells what it was before.** -/
theorem Value.weaken_injective (w : Weakening) : Function.Injective (Value.weaken w) :=
  fun value _ same => Value.eq_of_weaken_eq value same

/-! ### Results -/

/-- **Results that are moved along**: a value is a result exactly if the moved value is a moved
result, and there are no other moved results. -/
structure MovesAlong (w : Weakening) (results moved : Value → Prop) : Prop where
  iff : ∀ value, moved (value.weaken w) ↔ results value
  only : ∀ value', moved value' → ∃ value, results value ∧ value.weaken w = value'

section MovesAlong

variable {w : Weakening}

/-- Since moved values tell what they were, it is enough that results are moved and nothing else
comes out. -/
theorem MovesAlong.of_only {results moved : Value → Prop}
    (onward : ∀ value, results value → moved (value.weaken w))
    (only : ∀ value', moved value' → ∃ value, results value ∧ value.weaken w = value') :
    MovesAlong w results moved where
  iff value := by
    refine ⟨fun result' => ?_, onward value⟩
    obtain ⟨before, result, moves⟩ := only _ result'
    rwa [← Value.weaken_injective w moves]
  only := only

/-- What corresponds ends with moved results only. -/
theorem Corresponds.eq_ok_iff {first second : Except Fault Value} (same : Corresponds w first second)
    (value' : Value) : second = .ok value' ↔ ∃ value, first = .ok value ∧ value.weaken w = value' := by
  cases same with
  | ok value => simp
  | error fault fault' => simp

/-- What takes no fuel and corresponds is moved along. -/
theorem Corresponds.movesAlong {first second : Except Fault Value}
    (same : Corresponds w first second) :
    MovesAlong w (fun value => first = .ok value) (fun value => second = .ok value) :=
  .of_only (fun _ => same.moved) fun value' => (same.eq_ok_iff value').mp

/-- **Runs that correspond, each with its fuel, yield results that are moved along.** -/
theorem MovesAlong.of_runs {run run' : Nat → Except Fault Value}
    (same : ∀ fuel, Corresponds w (run fuel) (run' fuel)) :
    MovesAlong w (Yields run) (Yields run') := by
  refine .of_only ?_ ?_
  · rintro value ⟨enough, ends⟩
    exact ⟨enough, fun fuel bound => (same fuel).moved (ends fuel bound)⟩
  · rintro value' ⟨enough, ends⟩
    have before : ∀ fuel, enough ≤ fuel → ∃ value, run fuel = .ok value ∧ value.weaken w = value' :=
      fun fuel bound => ((same fuel).eq_ok_iff value').mp (ends fuel bound)
    obtain ⟨value, _, here⟩ := before enough (Nat.le_refl enough)
    -- With more fuel the result is moved to the same value, so it is the same result.
    refine ⟨value, ⟨enough, fun fuel bound => ?_⟩, here⟩
    obtain ⟨later, ended, there⟩ := before fuel bound
    rw [ended, Value.weaken_injective w (there.trans here.symm)]

end MovesAlong

/-- **Evaluation is natural in weakening.** In a moved environment a term has the moved value, if it
has one, and no other; and so it is with application, with both projections and with recursion over
numbers and over lists. -/
theorem evaluation_natural_in_weakening (w : Weakening) :
    (∀ (env : Env) (term : Term),
      MovesAlong w (term.Evaluates env) (term.Evaluates (env.weaken w))) ∧
    (∀ fn arg : Value, MovesAlong w (fn.Applies arg) ((fn.weaken w).Applies (arg.weaken w))) ∧
    (∀ operand : Value, MovesAlong w (fun result => operand.car = .ok result)
      (fun result => (operand.weaken w).car = .ok result)) ∧
    (∀ operand : Value, MovesAlong w (fun result => operand.cdr = .ok result)
      (fun result => (operand.weaken w).cdr = .ok result)) ∧
    (∀ (motive : Ty) (target base step : Value),
      MovesAlong w (Value.RecursNat motive target base step)
        (Value.RecursNat motive (target.weaken w) (base.weaken w) (step.weaken w))) ∧
    (∀ (motive : Ty) (target base step : Value),
      MovesAlong w (Value.RecursList motive target base step)
        (Value.RecursList motive (target.weaken w) (base.weaken w) (step.weaken w))) := by
  refine ⟨fun env term => ?_, fun fn arg => ?_, fun operand => ?_, fun operand => ?_,
    fun motive target base step => ?_, fun motive target base step => ?_⟩
  · exact .of_runs fun fuel => Term.eval_weaken w fuel env term
  · exact .of_runs fun fuel => Value.apply_weaken w fuel fn arg
  · exact (Value.car_weaken w operand).movesAlong
  · exact (Value.cdr_weaken w operand).movesAlong
  · exact .of_runs fun fuel =>
      Value.recNat_weaken w (Value.apply_weaken w fuel) motive base step target
  · exact .of_runs fun fuel =>
      Value.recList_weaken w (Value.apply_weaken w fuel) motive base step target

end EtaLong
