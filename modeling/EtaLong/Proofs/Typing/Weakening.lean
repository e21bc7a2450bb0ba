/-
**Typing in larger contexts.**

A weakening puts new entries into a context and moves the variables of a term past them. Inference
does not notice: a variable finds the entry that it had before, and one that was not bound is moved
behind the end of the larger context, so none of the new entries captures it. What is inferred for
the moved term is the same type, or the same error with the unbound index moved.

* `Weakening.find?_insert`: a moved index finds what it found before, or nothing again;
* `Term.infer_weaken`: inference of a moved term, errors included;
* `weakening_keeps_and_reflects_typing`: both, for the context that a weakening builds.
-/

import EtaLong.Proofs.Outcome
import EtaLong.Typing

namespace EtaLong

/-! ### Larger contexts -/

/-- A signed index that is not negative. -/
theorem Context.find?_natCast (ctx : Context) (index : Nat) : ctx.find? index = ctx[index]? := by
  rw [Context.find?, if_neg (by omega), Int.toNat_natCast]

/-- **What is not bound**: negative indices, and those from the end of the context on. -/
theorem Context.find?_eq_none_iff {ctx : Context} {index : Int} :
    ctx.find? index = none ↔ index < 0 ∨ ctx.length ≤ index := by
  by_cases negative : index < 0
  · simp [Context.find?, negative]
  · obtain ⟨position, rfl⟩ := Int.eq_ofNat_of_zero_le (Int.not_lt.mp negative)
    rw [Context.find?_natCast, List.getElem?_eq_none_iff]
    omega

namespace Weakening

variable {w : Weakening} {inserted : List Ty} {ctx : Context}

/-- As many entries as are asked for, at a place in the context, are inserted there. -/
theorem insert?_eq_ok (counted : inserted.length = w.count) (inside : w.cutoff ≤ ctx.length) :
    w.insert? inserted ctx = .ok (w.insert inserted ctx) := by
  unfold insert?
  rw [if_neg (not_not_intro counted), if_neg (Nat.not_lt.mpr inside)]

theorem length_insert (counted : inserted.length = w.count) (inside : w.cutoff ≤ ctx.length) :
    (w.insert inserted ctx).length = ctx.length + w.count := by
  simp only [insert, List.length_append, List.length_take, List.length_drop]
  omega

/-- Below a binder the entries are inserted behind the bound variable. -/
theorem lift_insert (w : Weakening) (inserted : List Ty) (dom : Ty) (ctx : Context) :
    w.lift.insert inserted (dom :: ctx) = dom :: w.insert inserted ctx := rfl

/-- An index behind the end of the context is moved behind all that is inserted. -/
theorem shift_of_length_le (inside : w.cutoff ≤ ctx.length) {index : Nat}
    (outside : ctx.length ≤ index) : w.shift index = index + w.count :=
  if_pos (Nat.le_trans inside outside)

/-- **A moved index finds the entry it had before**, and nothing if it had none. -/
theorem find?_insert (counted : inserted.length = w.count) (inside : w.cutoff ≤ ctx.length)
    (index : Int) : (w.insert inserted ctx).find? (w.embed index) = ctx.find? index := by
  by_cases negative : index < 0
  · rw [embed_of_neg w negative, Context.find?_eq_none_iff.mpr (.inl negative),
      Context.find?_eq_none_iff.mpr (.inl negative)]
  · obtain ⟨position, rfl⟩ := Int.eq_ofNat_of_zero_le (Int.not_lt.mp negative)
    rw [embed_natCast, Context.find?_natCast, Context.find?_natCast,
      getElem?_insert w inserted ctx counted inside]

end Weakening

/-! ### Inference -/

namespace Typing

/-- **An error in a larger context**: so many entries more, which an unbound index lies behind. -/
def Error.deeper (count : Nat) : Error → Error
  | .unbound index length => .unbound (index + count) (length + count)
  | error => error

/-- The same outcome in a larger context. -/
abbrev deeper (count : Nat) (found : Except Error Ty) : Except Error Ty :=
  bimap (Error.deeper count) id found

/-- What is found for a term and for its rest, in a larger context. -/
def Inference.deeper (count : Nat) (found : Inference) : Inference :=
  ⟨Typing.deeper count found.whole, Typing.deeper count found.rest⟩

theorem Inference.plain_deeper (count : Nat) (found : Except Error Ty) :
    (Inference.plain found).deeper count = .plain (Typing.deeper count found) := rfl

/-- A wrong type is reported alike in every context. -/
theorem require_deeper {count : Nat} {rule : String} {expected actual : Ty}
    {rest rest' : Except Error Ty} (after : rest' = deeper count rest) :
    (do require rule expected actual; rest') =
      deeper count (do require rule expected actual; rest) := by
  unfold require
  by_cases same : actual = expected
  · rw [if_pos same]
    exact after
  · rw [if_neg same]
    rfl

end Typing

open Typing

namespace Term

variable {w : Weakening} {inserted : List Ty} {ctx : Context}

/-- An operand that must have a type, in a larger context. -/
theorem operand_deeper {operand moved : Term} {ctx' : Context} {count : Nat} {rule : String}
    {expected : Ty} {rest rest' : Except Typing.Error Ty}
    (same : moved.inference ctx' = (operand.inference ctx).deeper count)
    (after : rest' = deeper count rest) :
    (do require rule expected (← (moved.inference ctx').whole); rest') =
      deeper count (do require rule expected (← (operand.inference ctx).whole); rest) := by
  rw [same]
  exact bimap_bind fun actual => require_deeper after

/-- **Inference finds for a moved term what it finds for the term.** -/
theorem inference_weaken (counted : inserted.length = w.count) (inside : w.cutoff ≤ ctx.length)
    (term : Term) :
    (term.weaken w).inference (w.insert inserted ctx) = (term.inference ctx).deeper w.count := by
  induction term generalizing w ctx with
  | var index =>
    simp only [weaken, inference, w.getElem?_insert inserted ctx counted inside,
      Inference.plain_deeper]
    cases found : ctx[index]? with
    | some ty => rfl
    | none =>
      have outside : ctx.length ≤ index := List.getElem?_eq_none_iff.mp found
      rw [Weakening.shift_of_length_le inside outside, Weakening.length_insert counted inside]
      rfl
  | lam dom body ih =>
    have below : (body.weaken w.lift).inference (w.lift.insert inserted (dom :: ctx)) =
        (body.inference (dom :: ctx)).deeper w.count := ih counted (Nat.succ_le_succ inside)
    rw [Weakening.lift_insert] at below
    rw [weaken, inference, inference, below, Inference.plain_deeper]
    exact congrArg Inference.plain (bimap_bind fun cod => rfl)
  | app fn arg fnIH argIH =>
    rw [weaken, inference, inference, fnIH counted inside, Inference.plain_deeper]
    refine congrArg Inference.plain (bimap_bind fun fnTy => ?_)
    cases fnTy with
    | fn dom cod => exact operand_deeper (argIH counted inside) rfl
    | _ => rfl
  | atom name => rfl
  | zero => rfl
  | succ pred ih =>
    rw [weaken, inference, inference, Inference.plain_deeper]
    exact congrArg Inference.plain (operand_deeper (ih counted inside) rfl)
  | recNat motive target base step targetIH baseIH stepIH =>
    rw [weaken, inference, inference, Inference.plain_deeper]
    refine congrArg Inference.plain (operand_deeper (targetIH counted inside) ?_)
    refine operand_deeper (baseIH counted inside) ?_
    exact operand_deeper (stepIH counted inside) rfl
  | pair fst snd fstIH sndIH =>
    rw [weaken, inference, inference, fstIH counted inside, sndIH counted inside,
      Inference.plain_deeper]
    exact congrArg Inference.plain (bimap_bind fun first => bimap_bind fun second => rfl)
  | car operand ih =>
    rw [weaken, inference, inference, ih counted inside, Inference.plain_deeper]
    refine congrArg Inference.plain (bimap_bind fun operandTy => ?_)
    cases operandTy <;> rfl
  | cdr operand ih =>
    rw [weaken, inference, inference, ih counted inside, Inference.plain_deeper]
    refine congrArg Inference.plain (bimap_bind fun operandTy => ?_)
    cases operandTy <;> rfl
  | nil elem => rfl
  | cons head tail headIH tailIH =>
    -- What follows the cells is found first, and the type of the tail only after the head.
    simp only [weaken, inference, tailIH counted inside, Inference.deeper]
    congr 1
    refine bimap_bind fun restTy => ?_
    cases restTy with
    | list elem => exact operand_deeper (headIH counted inside) rfl
    | _ => rfl
  | recList motive target base step targetIH baseIH stepIH =>
    rw [weaken, inference, inference, targetIH counted inside, Inference.plain_deeper]
    refine congrArg Inference.plain (bimap_bind fun targetTy => ?_)
    cases targetTy with
    | list elem =>
      exact operand_deeper (baseIH counted inside) (operand_deeper (stepIH counted inside) rfl)
    | _ => rfl
  | ann ty body ih =>
    rw [weaken, inference, inference, Inference.plain_deeper]
    exact congrArg Inference.plain (operand_deeper (ih counted inside) rfl)

/-- **Inference of a moved term**, errors included. -/
theorem infer_weaken (counted : inserted.length = w.count) (inside : w.cutoff ≤ ctx.length)
    (term : Term) :
    (term.weaken w).infer (w.insert inserted ctx) = deeper w.count (term.infer ctx) :=
  congrArg Inference.whole (inference_weaken counted inside term)

/-- Weakening keeps types and adds none. -/
theorem infer_weaken_eq_ok_iff (counted : inserted.length = w.count)
    (inside : w.cutoff ≤ ctx.length) {term : Term} {ty : Ty} :
    (term.weaken w).infer (w.insert inserted ctx) = .ok ty ↔ term.infer ctx = .ok ty := by
  rw [infer_weaken counted inside, bimap_eq_ok]
  constructor
  · rintro ⟨found, inferred, rfl⟩
    exact inferred
  · intro inferred
    exact ⟨ty, inferred, rfl⟩

end Term

/-- **Weakening keeps and reflects typing.** As many entries as a weakening says are inserted at any
place of a context. In the larger context a moved term has exactly the types that the term had, and
a moved index has the type that it had before; an index that was not bound is again not bound. -/
theorem weakening_keeps_and_reflects_typing {w : Weakening} {inserted : List Ty} {ctx : Context}
    (counted : inserted.length = w.count) (inside : w.cutoff ≤ ctx.length) :
    ∃ larger, w.insert? inserted ctx = .ok larger ∧
      (∀ (term : Term) (ty : Ty),
        (term.weaken w).infer larger = .ok ty ↔ term.infer ctx = .ok ty) ∧
      (∀ index : Int, 0 ≤ index → index < ctx.length →
        ∃ ty, ctx.find? index = some ty ∧ larger.find? (w.embed index) = some ty) ∧
      (∀ index : Int, index < 0 ∨ ctx.length ≤ index →
        ctx.find? index = none ∧ larger.find? (w.embed index) = none) := by
  refine ⟨_, Weakening.insert?_eq_ok counted inside,
    fun term ty => Term.infer_weaken_eq_ok_iff counted inside, fun index low high => ?_,
    fun index outside => ?_⟩
  · cases found : ctx.find? index with
    | none =>
      have outside := Context.find?_eq_none_iff.mp found
      omega
    | some ty => exact ⟨ty, rfl, (Weakening.find?_insert counted inside index).trans found⟩
  · have unbound := Context.find?_eq_none_iff.mpr outside
    exact ⟨unbound, (Weakening.find?_insert counted inside index).trans unbound⟩

/-- Two entries between a function and a number. Below a binder the function is still applied to the
number; and a variable that was not bound is not captured by the entry that now has its index. -/
theorem weakening_keeps_and_reflects_typing_at_capture :
    ∃ larger : Context,
      Weakening.insert? ⟨2, 1⟩ [.atom, .list .atom] [.fn .nat .nat, .nat] = .ok larger ∧
      ((Term.lam .atom (.app (.var 1) (.var 2))).weaken ⟨2, 1⟩).infer larger =
        .ok (.fn .atom .nat) ∧
      (∃ ty, (Term.var 2).infer larger = .ok ty) ∧
      (∀ ty, ((Term.var 2).weaken ⟨2, 1⟩).infer larger ≠ .ok ty) ∧
      larger.find? (Weakening.embed ⟨2, 1⟩ 1) = some .nat ∧
      larger.find? (Weakening.embed ⟨2, 1⟩ 2) = none := by
  have built : Weakening.insert? ⟨2, 1⟩ [.atom, .list .atom] [.fn .nat .nat, .nat] =
      .ok [.fn .nat .nat, .atom, .list .atom, .nat] := rfl
  obtain ⟨larger, same, types, bound, unbound⟩ := @weakening_keeps_and_reflects_typing
    ⟨2, 1⟩ [.atom, .list .atom] [.fn .nat .nat, .nat] rfl (by decide)
  obtain rfl := Except.ok.inj (built.symm.trans same)
  refine ⟨_, built, (types _ _).mpr rfl, ⟨_, rfl⟩, fun ty inferred => ?_, ?_,
    (unbound 2 (.inr (by decide))).2⟩
  · cases (types _ _).mp inferred
  · obtain ⟨ty, found, moved⟩ := bound 1 (by decide) (by decide)
    cases found
    exact moved

end EtaLong
