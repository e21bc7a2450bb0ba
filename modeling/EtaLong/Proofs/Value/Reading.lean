/-
**Reading back is natural in weakening.**

A value that is moved into a larger context reads back there to the moved term. A function is opened
with a new variable in front, so the insertion below that binder lies one entry further out: moving
the function and then opening it is opening it and then moving the body below the binder. What fails
to read back fails again after it was moved. None of this looks at types, so it holds of values that
evaluation never builds.

* `Follows`: two outcomes of which the second is the first one moved;
* `Value.predecessors_weaken`, `Value.cells_weaken`: the rows that one call reads back, moved;
* `ReadsAlong`, `ReadsNeutralAlong`, `readBack_along`: reading back, call by call;
* `reading_back_natural_in_weakening`: what moved values and neutrals read back to.
-/

import EtaLong.Proofs.Typing.Weakening
import EtaLong.Proofs.Value.Rules

namespace EtaLong

/-! ### Outcomes -/

/-- **An outcome follows another one** when both are faults or its result is the other one moved. -/
inductive Follows {α : Type} (move : α → α) : Except Fault α → Except Fault α → Prop where
  | ok (result : α) : Follows move (.ok result) (.ok (move result))
  | error (first second : Fault) : Follows move (.error first) (.error second)

/-- What corresponds follows. -/
theorem Corresponds.follows {w : Weakening} {first second : Except Fault Value}
    (same : Corresponds w first second) : Follows (Value.weaken w) first second := by
  cases same with
  | ok value => exact .ok value
  | error fault fault' => exact .error fault fault'

namespace Follows

variable {α β γ : Type} {move : α → α} {move' : β → β} {first second : Except Fault α}

/-- Sequences follow each other when their parts do. -/
theorem bind {next next' : α → Except Fault β} (start : Follows move first second)
    (rest : ∀ result, Follows move' (next result) (next' (move result))) :
    Follows move' (first >>= next) (second >>= next') := by
  cases start with
  | ok result => exact rest result
  | error fault fault' => exact .error fault fault'

/-- A row of steps follows another one when each step does. -/
theorem foldlM {step step' : α → γ → Except Fault α} {moveItem : γ → γ} {items : List γ}
    (steps : ∀ result item, Follows move (step result item) (step' (move result) (moveItem item)))
    (start : α) :
    Follows move (items.foldlM step start) ((items.map moveItem).foldlM step' (move start)) := by
  induction items generalizing start with
  | nil => exact .ok start
  | cons item items ih =>
    rw [List.map_cons, List.foldlM_cons, List.foldlM_cons]
    exact (steps start item).bind fun result => ih result

/-- The results of what follows are the moved results. -/
theorem eq_ok_iff (follows : Follows move first second) (result' : α) :
    second = .ok result' ↔ ∃ result, first = .ok result ∧ move result = result' := by
  cases follows with
  | ok result => simp
  | error fault fault' => simp

/-- **What runs that follow each other yield**, each with its fuel, if a run that has ended ends so
with more fuel. -/
theorem yields_iff {run run' : Nat → Except Fault α}
    (follows : ∀ fuel, Follows move (run fuel) (run' fuel))
    (settled : ∀ result, (∃ fuel, run fuel = .ok result) → Yields run result) (result' : α) :
    Yields run' result' ↔ ∃ result, Yields run result ∧ move result = result' := by
  constructor
  · intro yields
    obtain ⟨fuel, ended⟩ := yields.exists_run
    obtain ⟨result, before, moved⟩ := ((follows fuel).eq_ok_iff result').mp ended
    exact ⟨result, settled result ⟨fuel, before⟩, moved⟩
  · rintro ⟨result, ⟨enough, ends⟩, moved⟩
    exact ⟨enough, fun fuel bound =>
      ((follows fuel).eq_ok_iff result').mpr ⟨result, ends fuel bound, moved⟩⟩

end Follows

/-! ### Rows -/

section Rows

variable (w : Weakening)

/-- The predecessors of a moved number are its predecessors moved. -/
theorem Value.predecessors_weaken (outer : List Value) (value : Value) :
    (value.weaken w).predecessors (outer.map (Value.weaken w)) =
      ((value.predecessors outer).1.map (Value.weaken w), (value.predecessors outer).2.weaken w) := by
  fun_induction Value.predecessors outer value with
  | case1 outer pred ih => exact ih
  | case2 outer value noSucc =>
    cases value with
    | succ pred => exact absurd rfl (noSucc pred)
    | _ => rfl

/-- The cells of a moved list are its cells moved. -/
theorem Value.cells_weaken (outer : List (Value × Value)) (value : Value) :
    (value.weaken w).cells (outer.map (Prod.map (Value.weaken w) (Value.weaken w))) =
      ((value.cells outer).1.map (Prod.map (Value.weaken w) (Value.weaken w)),
        (value.cells outer).2.weaken w) := by
  fun_induction Value.cells outer value with
  | case1 outer head tail ih => exact ih
  | case2 outer value noCons =>
    cases value with
    | cons head tail => exact absurd rfl (noCons head tail)
    | _ => rfl

/-- Moved successors are successors of what is moved. -/
theorem Term.weaken_succs (count : Nat) (term : Term) :
    (Term.succs count term).weaken w = Term.succs count (term.weaken w) := by
  induction count with
  | zero => rfl
  | succ count ih => rw [Term.succs_succ, Term.succs_succ, Term.weaken, ih]

end Rows

/-- **Opening a moved function** is opening it, and then moving what stands below the binder. -/
theorem Value.apply_fresh_weaken (w : Weakening) (fuel : Nat) (value : Value) :
    Follows (Value.weaken w.lift) (Value.apply fuel (value.weaken Weakening.fresh) (.ofIndex 0))
      (Value.apply fuel ((value.weaken w).weaken Weakening.fresh) (.ofIndex 0)) := by
  have further : (value.weaken w).weaken Weakening.fresh =
      (value.weaken Weakening.fresh).weaken w.lift :=
    Value.weaken_acts.exchange 1 w.count 0 w.cutoff value (Nat.zero_le _)
  have bound : (Value.ofIndex 0).weaken w.lift = Value.ofIndex 0 := by
    have inFront : (0 : Int) < w.lift.cutoff := Int.natCast_pos.mpr (Nat.succ_pos w.cutoff)
    rw [Value.ofIndex, Value.weaken, Neutral.weaken,
      (w.lift.embed_eq_self_iff 0).mpr (.inr inFront)]
  have applied := Value.apply_weaken w.lift fuel (value.weaken Weakening.fresh) (.ofIndex 0)
  rw [← further, bound] at applied
  exact applied.follows

/-! ### Calls -/

/-- With so much fuel, moved values read back to the moved terms. -/
def ReadsAlong (fuel : Nat) : Prop :=
  ∀ (w : Weakening) (inserted : List Ty) (ctx : Context), inserted.length = w.count →
    w.cutoff ≤ ctx.length → ∀ (ty : Ty) (value : Value),
      Follows (Term.weaken w) (readBack fuel ctx ty value)
        (readBack fuel (w.insert inserted ctx) ty (value.weaken w))

/-- With so much fuel, moved neutrals read back to the moved terms, of the same types. -/
def ReadsNeutralAlong (fuel : Nat) : Prop :=
  ∀ (w : Weakening) (inserted : List Ty) (ctx : Context), inserted.length = w.count →
    w.cutoff ≤ ctx.length → ∀ neutral : Neutral,
      Follows (Prod.map (Term.weaken w) id) (readBackNeutral fuel ctx neutral)
        (readBackNeutral fuel (w.insert inserted ctx) (neutral.weaken w))

section Calls

variable {fuel : Nat} {w : Weakening} {inserted : List Ty} {ctx : Context}
  (counted : inserted.length = w.count) (inside : w.cutoff ≤ ctx.length) (reads : ReadsAlong fuel)
  (readsNeutral : ReadsNeutralAlong fuel)

include counted inside

include reads in
/-- A function is opened below a new entry, where the insertion lies one entry further out. -/
theorem ReadsAlong.fn (dom cod : Ty) (value : Value) :
    Follows (Term.weaken w) (readBack (fuel + 1) ctx (.fn dom cod) value)
      (readBack (fuel + 1) (w.insert inserted ctx) (.fn dom cod) (value.weaken w)) := by
  refine (value.apply_fresh_weaken w fuel).bind fun result => ?_
  have below := reads w.lift inserted (dom :: ctx) counted (Nat.succ_le_succ inside) cod result
  exact below.bind fun body => .ok (Term.lam dom body)

include reads in
/-- A row of successors is read back in one call. -/
theorem ReadsAlong.succ (pred : Value) :
    Follows (Term.weaken w) (readBack (fuel + 1) ctx .nat (.succ pred))
      (readBack (fuel + 1) (w.insert inserted ctx) .nat ((Value.succ pred).weaken w)) := by
  have row := pred.predecessors_weaken w []
  rw [List.map_nil] at row
  simp only [Value.weaken, readBack, row, List.length_map]
  refine (reads w inserted ctx counted inside .nat _).bind fun read => ?_
  rw [← Term.weaken_succs]
  exact .ok _

include reads in
/-- A row of cells is read back in one call. -/
theorem ReadsAlong.cons (elem : Ty) (head tail : Value) :
    Follows (Term.weaken w) (readBack (fuel + 1) ctx (.list elem) (.cons head tail))
      (readBack (fuel + 1) (w.insert inserted ctx) (.list elem)
        ((Value.cons head tail).weaken w)) := by
  have row := (Value.cons head tail).cells_weaken w []
  rw [List.map_nil, Value.weaken] at row
  simp only [Value.weaken, readBack, row]
  refine (reads w inserted ctx counted inside (.list elem) _).bind fun rest => ?_
  refine .foldlM (fun read cell => ?_) rest
  exact (reads w inserted ctx counted inside elem cell.1).bind fun first =>
    .ok (Term.cons first read)

include readsNeutral in
/-- A stuck value of a type that is no function type is read back as it is. -/
theorem ReadsNeutralAlong.stuck (neutral : Neutral) :
    Follows (Term.weaken w) (do return (← readBackNeutral fuel ctx neutral).1)
      (do return (← readBackNeutral fuel (w.insert inserted ctx) (neutral.weaken w)).1) :=
  (readsNeutral w inserted ctx counted inside neutral).bind fun found => .ok found.1

omit counted inside

/-- One call of reading a value back. -/
theorem ReadsAlong.step (reads : ReadsAlong fuel) (readsNeutral : ReadsNeutralAlong fuel) :
    ReadsAlong (fuel + 1) := by
  intro w inserted ctx counted inside ty value
  have stuck := readsNeutral.stuck counted inside
  cases ty with
  | fn dom cod => exact reads.fn counted inside dom cod value
  | nat =>
    cases value with
    | stuck neutral => exact stuck neutral
    | zero => exact .ok Term.zero
    | succ pred => exact reads.succ counted inside pred
    | _ => exact .error _ _
  | atom =>
    cases value with
    | stuck neutral => exact stuck neutral
    | atom name => exact .ok (Term.atom name)
    | _ => exact .error _ _
  | pair fstTy sndTy =>
    cases value with
    | stuck neutral => exact stuck neutral
    | pair fst snd =>
      refine (reads w inserted ctx counted inside fstTy fst).bind fun first => ?_
      exact (reads w inserted ctx counted inside sndTy snd).bind fun second =>
        .ok (Term.pair first second)
    | _ => exact .error _ _
  | list elem =>
    cases value with
    | stuck neutral => exact stuck neutral
    | nil => exact .ok (Term.nil elem)
    | cons head tail => exact reads.cons counted inside elem head tail
    | _ => exact .error _ _

/-- One call of reading a neutral back. -/
theorem ReadsNeutralAlong.step (reads : ReadsAlong fuel) (readsNeutral : ReadsNeutralAlong fuel) :
    ReadsNeutralAlong (fuel + 1) := by
  intro w inserted ctx counted inside neutral
  have value := reads w inserted ctx counted inside
  have operand := readsNeutral w inserted ctx counted inside
  cases neutral with
  | var index =>
    by_cases negative : index < 0
    · rw [Neutral.weaken, w.embed_of_neg negative, readBackNeutral, readBackNeutral,
        if_pos negative, if_pos negative]
      exact .error _ _
    obtain ⟨place, rfl⟩ := Int.eq_ofNat_of_zero_le (Int.not_lt.mp negative)
    rw [Neutral.weaken, w.embed_natCast, readBackNeutral, readBackNeutral, if_neg negative,
      if_neg (by omega), Int.toNat_natCast, Int.toNat_natCast,
      w.getElem?_insert inserted ctx counted inside]
    cases ctx[place]? with
    | none => exact .error _ _
    | some ty => exact .ok (Term.var place, ty)
  | app fn arg =>
    refine (operand fn).bind fun found => ?_
    obtain ⟨function, ty⟩ := found
    cases ty with
    | fn dom cod => exact (value dom arg).bind fun argument => .ok (Term.app function argument, cod)
    | _ => exact .error _ _
  | recNat motive target base step =>
    refine (operand target).bind fun found => (value motive base).bind fun start => ?_
    exact (value (Ty.natStep motive) step).bind fun next =>
      .ok (Term.recNat motive found.1 start next, motive)
  | car pair =>
    refine (operand pair).bind fun found => ?_
    obtain ⟨both, ty⟩ := found
    cases ty with
    | pair fst snd => exact .ok (Term.car both, fst)
    | _ => exact .error _ _
  | cdr pair =>
    refine (operand pair).bind fun found => ?_
    obtain ⟨both, ty⟩ := found
    cases ty with
    | pair fst snd => exact .ok (Term.cdr both, snd)
    | _ => exact .error _ _
  | recList motive target base step =>
    refine (operand target).bind fun found => ?_
    obtain ⟨items, ty⟩ := found
    cases ty with
    | list elem =>
      refine (value motive base).bind fun start => ?_
      exact (value (Ty.listStep elem motive) step).bind fun next =>
        .ok (Term.recList motive items start next, motive)
    | _ => exact .error _ _

end Calls

/-- **Reading back is natural in weakening, call by call.** -/
theorem readBack_along (fuel : Nat) : ReadsAlong fuel ∧ ReadsNeutralAlong fuel := by
  induction fuel with
  | zero => exact ⟨fun _ _ _ _ _ _ _ => .error _ _, fun _ _ _ _ _ _ => .error _ _⟩
  | succ fuel ih => exact ⟨ih.1.step ih.2, ReadsNeutralAlong.step ih.1 ih.2⟩

/-! ### Results -/

/-- Once reading a value back has ended, more fuel changes nothing. -/
theorem Value.readsBack_of_run {ctx : Context} {ty : Ty} {value : Value} {term : Term}
    (ended : ∃ fuel, readBack fuel ctx ty value = .ok term) : value.ReadsBack ctx ty term := by
  obtain ⟨fuel, run⟩ := ended
  exact Value.readsBack_iff.mpr ((readBack_byRules fuel).1 ctx ty value term run)

/-- Once reading a neutral back has ended, more fuel changes nothing. -/
theorem Neutral.readsBack_of_run {ctx : Context} {neutral : Neutral} {term : Term} {ty : Ty}
    (ended : ∃ fuel, readBackNeutral fuel ctx neutral = .ok (term, ty)) :
    neutral.ReadsBack ctx term ty := by
  obtain ⟨fuel, run⟩ := ended
  exact Neutral.readsBack_iff.mpr ((readBack_byRules fuel).2 ctx neutral (term, ty) run)

/-- **Reading back is natural in weakening.** As many entries as a weakening says are inserted at any
place of a context. In the larger context a moved value reads back, at any type, to the moved term of
what it read back to before, and to nothing else; and so does a moved neutral, with the type that it
had. -/
theorem reading_back_natural_in_weakening {w : Weakening} {inserted : List Ty} {ctx : Context}
    (counted : inserted.length = w.count) (inside : w.cutoff ≤ ctx.length) :
    ∃ larger, w.insert? inserted ctx = .ok larger ∧
      (∀ (ty : Ty) (value : Value) (term' : Term), (value.weaken w).ReadsBack larger ty term' ↔
        ∃ term, value.ReadsBack ctx ty term ∧ term.weaken w = term') ∧
      (∀ (neutral : Neutral) (term' : Term) (ty : Ty), (neutral.weaken w).ReadsBack larger term' ty ↔
        ∃ term, neutral.ReadsBack ctx term ty ∧ term.weaken w = term') := by
  refine ⟨_, Weakening.insert?_eq_ok counted inside, fun ty value term' => ?_,
    fun neutral term' ty => ?_⟩
  · exact Follows.yields_iff
      (fun fuel => (readBack_along fuel).1 w inserted ctx counted inside ty value)
      (fun _ => Value.readsBack_of_run) term'
  · have found := Follows.yields_iff
      (fun fuel => (readBack_along fuel).2 w inserted ctx counted inside neutral)
      (fun _ => Neutral.readsBack_of_run) (term', ty)
    refine found.trans ⟨?_, ?_⟩
    · rintro ⟨⟨term, before⟩, reads, moved⟩
      cases moved
      exact ⟨term, reads, rfl⟩
    · rintro ⟨term, reads, rfl⟩
      exact ⟨(term, ty), reads, rfl⟩

/-- An entry between a number and a function. Below the binder of an expanded function the number of
entries in front differs, and a neutral is read back at a type that it does not have. -/
theorem reading_back_natural_in_weakening_at_opened_function :
    ∃ larger : Context,
      Weakening.insert? ⟨1, 1⟩ [.atom] [.nat, .fn .nat .nat] = .ok larger ∧
      (Value.closure [.ofIndex 2] (.app (.var 1) (.var 0))).ReadsBack larger (.fn .nat .nat)
        (.lam .nat (.app (.var 3) (.var 0))) ∧
      (Value.ofIndex 2).ReadsBack larger .atom (.var 2) ∧
      (Neutral.app (.var 2) (.ofIndex 0)).ReadsBack larger (.app (.var 2) (.var 0)) .nat := by
  obtain ⟨larger, built, values, neutrals⟩ := @reading_back_natural_in_weakening
    ⟨1, 1⟩ [.atom] [.nat, .fn .nat .nat] rfl (by decide)
  have applied : (Neutral.app (.var 1) (.ofIndex 0)).ReadsBack [.nat, .fn .nat .nat]
      (.app (.var 1) (.var 0)) .nat := .app (.var rfl) (.stuck rfl (.var rfl))
  have expanded : (Value.closure [.ofIndex 1] (.app (.var 1) (.var 0))).ReadsBack
      [.nat, .fn .nat .nat] (.fn .nat .nat) (.lam .nat (.app (.var 2) (.var 0))) :=
    .fn (.closure (.app (.var rfl) (.var rfl) (.stuck _ _)))
      (.stuck rfl (.app (.var rfl) (.stuck rfl (.var rfl))))
  have untyped : (Value.ofIndex 1).ReadsBack [.nat, .fn .nat .nat] .atom (.var 1) :=
    .stuck rfl (.var rfl)
  exact ⟨larger, built, (values _ _ _).mpr ⟨_, expanded, rfl⟩, (values _ _ _).mpr ⟨_, untyped, rfl⟩,
    (neutrals _ _ _).mpr ⟨_, applied, rfl⟩⟩

end EtaLong
