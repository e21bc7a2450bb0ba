/-
**What normal forms look like.**

Normal forms are exactly the normal terms. What is read back is normal, since functions are opened
below a new binder and everything else is read back as it is. A normal term is read back unchanged,
since below each of its binders it is evaluated where again every variable stands for itself.

* `Value.ReadsBack.isNormal`: what typed values read back to;
* `Term.IsNormal.reads`: what the values of normal terms read back to;
* `normalForms_exact`: normal forms are the normal terms.
-/

import EtaLong.Proofs.Normalization
import EtaLong.Proofs.Term.Normal

namespace EtaLong

/-! ### What is read back is normal -/

section Reading

variable {ctx : Context} {elem : Ty}

/-- Successors of a normal number are normal. -/
theorem Term.IsNormal.succs {inner : Term} (count : Nat) (normal : inner.IsNormal ctx .nat) :
    (Term.succs count inner).IsNormal ctx .nat := by
  induction count with
  | zero => exact normal
  | succ count ih => exact .succ ih

/-- What the successors of a number are wrapped around is a number. -/
theorem Value.HasType.innermost (outer : List Value) {value : Value}
    (typed : value.HasType ctx .nat) : (value.predecessors outer).2.HasType ctx .nat := by
  fun_induction Value.predecessors outer value with
  | case1 outer pred ih =>
    cases typed with
    | succ predTyped => exact ih predTyped
  | case2 outer value _ => exact typed

/-- The heads of the cells of a list are elements, and what follows the cells is a list. -/
theorem Value.HasType.cells (outer : List (Value × Value)) {value : Value}
    (typed : value.HasType ctx (.list elem)) (heads : ∀ cell ∈ outer, cell.1.HasType ctx elem) :
    (∀ cell ∈ (value.cells outer).1, cell.1.HasType ctx elem) ∧
      (value.cells outer).2.HasType ctx (.list elem) := by
  fun_induction Value.cells outer value with
  | case1 outer head tail ih =>
    cases typed with
    | cons headTyped tailTyped =>
      exact ih tailTyped (List.forall_mem_cons.mpr ⟨headTyped, heads⟩)
  | case2 outer value _ => exact ⟨heads, typed⟩

/-- **With so much fuel, typed values read back to normal terms.** -/
def ReadsNormal (fuel : Nat) : Prop :=
  ∀ {ctx : Context} {ty : Ty} {value : Value} {term : Term}, value.HasType ctx ty →
    readBack fuel ctx ty value = .ok term → term.IsNormal ctx ty

/-- **With so much fuel, typed neutrals read back to neutral terms** of their types. -/
def ReadsNeutral (fuel : Nat) : Prop :=
  ∀ {ctx : Context} {neutral : Neutral} {ty found : Ty} {term : Term}, neutral.HasType ctx ty →
    readBackNeutral fuel ctx neutral = .ok (term, found) → found = ty ∧ term.IsNeutral ctx ty

variable {fuel : Nat}

/-- A stuck value of a type that is no function type is read back to a normal term. -/
theorem ReadsNeutral.stuck (readsNeutral : ReadsNeutral fuel) {neutral : Neutral} {ty : Ty}
    {term : Term} (plain : ty.arity = 0) (typed : neutral.HasType ctx ty)
    (run : readBack (fuel + 1) ctx ty (.stuck neutral) = .ok term) : term.IsNormal ctx ty := by
  have asNeutral : readBack (fuel + 1) ctx ty (.stuck neutral) =
      (do return (← readBackNeutral fuel ctx neutral).1) := by
    cases ty with
    | fn dom cod => exact absurd plain (Nat.succ_ne_zero cod.arity)
    | _ => rfl
  rw [asNeutral] at run
  obtain ⟨⟨read, found⟩, neutralRead, done⟩ := bind_eq_ok.mp run
  cases done
  exact .neutral plain (readsNeutral typed neutralRead).2

/-- Cells in front of a normal list are read back to a normal list. -/
theorem ReadsNormal.cells (reads : ReadsNormal fuel) {cells : List (Value × Value)}
    (heads : ∀ cell ∈ cells, cell.1.HasType ctx elem) {rest term : Term}
    (normal : rest.IsNormal ctx (.list elem))
    (run : cells.foldlM (fun read cell => do
      return Term.cons (← readBack fuel ctx elem cell.1) read) rest = .ok term) :
    term.IsNormal ctx (.list elem) := by
  induction cells generalizing rest with
  | nil =>
    cases run
    exact normal
  | cons cell cells ih =>
    rw [List.foldlM_cons] at run
    obtain ⟨headTyped, headsTyped⟩ := List.forall_mem_cons.mp heads
    obtain ⟨longer, headRun, run⟩ := bind_eq_ok.mp run
    obtain ⟨head, headRead, done⟩ := bind_eq_ok.mp headRun
    cases done
    exact ih headsTyped (.cons (reads headTyped headRead) normal) run

/-- One call of reading a value back. -/
theorem ReadsNormal.step (reads : ReadsNormal fuel) (readsNeutral : ReadsNeutral fuel) :
    ReadsNormal (fuel + 1) := by
  intro ctx ty value term typed run
  cases ty with
  | fn dom cod =>
    -- The function is opened below a new binder, where its result has the result type.
    obtain ⟨result, opened, run⟩ := bind_eq_ok.mp run
    obtain ⟨body, bodyRead, done⟩ := bind_eq_ok.mp run
    cases done
    have resultTyped := Value.HasType.apply (dom :: ctx) fuel (typed.weaken_fresh dom)
      (.stuck (.var rfl)) opened
    exact .lam (reads resultTyped bodyRead)
  | nat =>
    cases typed with
    | zero =>
      cases run
      exact .zero
    | succ pred =>
      obtain ⟨inner, innerRead, done⟩ := bind_eq_ok.mp run
      cases done
      exact (reads (pred.innermost []) innerRead).succs _
    | stuck neutral => exact readsNeutral.stuck rfl neutral run
  | atom =>
    cases typed with
    | atom =>
      cases run
      exact .atom
    | stuck neutral => exact readsNeutral.stuck rfl neutral run
  | pair fstTy sndTy =>
    cases typed with
    | pair fst snd =>
      obtain ⟨first, fstRead, run⟩ := bind_eq_ok.mp run
      obtain ⟨second, sndRead, done⟩ := bind_eq_ok.mp run
      cases done
      exact .pair (reads fst fstRead) (reads snd sndRead)
    | stuck neutral => exact readsNeutral.stuck rfl neutral run
  | list elem =>
    cases typed with
    | nil =>
      cases run
      exact .nil
    | cons head tail =>
      obtain ⟨heads, last⟩ := (Value.HasType.cons head tail).cells [] (by simp)
      obtain ⟨rest, restRead, run⟩ := bind_eq_ok.mp run
      exact reads.cells heads (reads last restRead) run
    | stuck neutral => exact readsNeutral.stuck rfl neutral run

/-- One call of reading a neutral back. The type it is read back with is its own. -/
theorem ReadsNeutral.step (reads : ReadsNormal fuel) (readsNeutral : ReadsNeutral fuel) :
    ReadsNeutral (fuel + 1) := by
  intro ctx neutral ty found term typed run
  cases typed with
  | @var index _ bound =>
    rw [readBackNeutral, if_neg (by omega), Int.toNat_natCast, bound] at run
    cases run
    exact ⟨rfl, .var bound⟩
  | app fn arg =>
    obtain ⟨⟨function, fnTy⟩, fnRead, run⟩ := bind_eq_ok.mp run
    obtain ⟨rfl, fnNeutral⟩ := readsNeutral fn fnRead
    obtain ⟨argument, argRead, done⟩ := bind_eq_ok.mp run
    cases done
    exact ⟨rfl, .app fnNeutral (reads arg argRead)⟩
  | recNat target base step =>
    obtain ⟨⟨number, targetTy⟩, targetRead, run⟩ := bind_eq_ok.mp run
    obtain ⟨start, baseRead, run⟩ := bind_eq_ok.mp run
    obtain ⟨next, stepRead, done⟩ := bind_eq_ok.mp run
    cases done
    exact ⟨rfl, .recNat (readsNeutral target targetRead).2 (reads base baseRead)
      (reads step stepRead)⟩
  | car operand =>
    obtain ⟨⟨both, operandTy⟩, operandRead, run⟩ := bind_eq_ok.mp run
    obtain ⟨rfl, bothNeutral⟩ := readsNeutral operand operandRead
    cases run
    exact ⟨rfl, .car bothNeutral⟩
  | cdr operand =>
    obtain ⟨⟨both, operandTy⟩, operandRead, run⟩ := bind_eq_ok.mp run
    obtain ⟨rfl, bothNeutral⟩ := readsNeutral operand operandRead
    cases run
    exact ⟨rfl, .cdr bothNeutral⟩
  | recList target base step =>
    obtain ⟨⟨items, targetTy⟩, targetRead, run⟩ := bind_eq_ok.mp run
    obtain ⟨rfl, itemsNeutral⟩ := readsNeutral target targetRead
    obtain ⟨start, baseRead, run⟩ := bind_eq_ok.mp run
    obtain ⟨next, stepRead, done⟩ := bind_eq_ok.mp run
    cases done
    exact ⟨rfl, .recList itemsNeutral (reads base baseRead) (reads step stepRead)⟩

/-- Typed values and neutrals read back to normal and neutral terms, by induction on the fuel. -/
theorem readsNormal_and_readsNeutral (fuel : Nat) : ReadsNormal fuel ∧ ReadsNeutral fuel := by
  induction fuel with
  | zero =>
    constructor
    · intro ctx ty value term _ run
      cases run
    · intro ctx neutral ty found term _ run
      cases run
  | succ fuel ih => exact ⟨ReadsNormal.step ih.1 ih.2, ReadsNeutral.step ih.1 ih.2⟩

/-- **What a typed value reads back to is normal.** -/
theorem Value.ReadsBack.isNormal {ty : Ty} {value : Value} {term : Term}
    (reads : value.ReadsBack ctx ty term) (typed : value.HasType ctx ty) :
    term.IsNormal ctx ty := by
  obtain ⟨fuel, run⟩ := reads.exists_run
  exact (readsNormal_and_readsNeutral fuel).1 typed run

end Reading

/-! ### Normal terms are read back unchanged -/

/-- Below a binder every variable stands for itself again. -/
theorem Env.identity_succ (length : Nat) :
    Env.identity (length + 1) = .ofIndex 0 :: (Env.identity length).weaken Weakening.fresh := by
  unfold Env.identity Env.weaken
  rw [Value.weakenAll_eq_map, List.range_succ_eq_map, List.map_cons, List.map_map, List.map_map]
  rfl

/-- The variables of a context have the types of its entries. -/
theorem Env.HasType.identity (ctx : Context) :
    Env.HasType ctx (Env.identity ctx.length) ctx := by
  induction ctx with
  | nil => exact .nil
  | cons dom ctx ih =>
    have moved : Env.HasType (Weakening.fresh.insert [dom] ctx)
        ((Env.identity ctx.length).weaken Weakening.fresh) ctx := ih.weaken rfl (Nat.zero_le _)
    rw [List.length_cons, Env.identity_succ]
    exact .cons (.stuck (.var rfl)) moved

namespace Term

mutual

/-- **The value of a normal term reads back to it.** -/
theorem IsNormal.reads : ∀ {ctx : Context} {term : Term} {ty : Ty}, term.IsNormal ctx ty →
    ∃ value, term.Evaluates (Env.identity ctx.length) value ∧ value.ReadsBack ctx ty term
  | ctx, _, _, .lam body => by
    obtain ⟨value, evaluates, reads⟩ := body.reads
    rw [List.length_cons, Env.identity_succ] at evaluates
    exact ⟨_, .lam _ _ _, .fn (.closure evaluates) reads⟩
  | ctx, _, _, .atom => ⟨_, .atom _ _, .atom ctx _⟩
  | ctx, _, _, .zero => ⟨_, .zero _, .zero ctx⟩
  | _, _, _, .succ pred => by
    obtain ⟨value, evaluates, reads⟩ := pred.reads
    exact ⟨_, evaluates.succ, reads.succ⟩
  | _, _, _, .pair fst snd => by
    obtain ⟨first, fstEval, fstReads⟩ := fst.reads
    obtain ⟨second, sndEval, sndReads⟩ := snd.reads
    exact ⟨_, fstEval.pair sndEval, fstReads.pair sndReads⟩
  | ctx, _, _, .nil => ⟨_, .nil _ _, .nil ctx _⟩
  | _, _, _, .cons head tail => by
    obtain ⟨first, headEval, headReads⟩ := head.reads
    obtain ⟨rest, tailEval, tailReads⟩ := tail.reads
    exact ⟨_, headEval.cons tailEval, headReads.cons tailReads⟩
  | _, _, _, .neutral plain neutral => by
    obtain ⟨value, evaluates, reads⟩ := neutral.reads
    exact ⟨_, evaluates, .stuck plain reads⟩

/-- **A neutral term evaluates to a neutral that reads back to it.** -/
theorem IsNeutral.reads : ∀ {ctx : Context} {term : Term} {ty : Ty}, term.IsNeutral ctx ty →
    ∃ neutral : Neutral, term.Evaluates (Env.identity ctx.length) (.stuck neutral) ∧
      neutral.ReadsBack ctx term ty
  | _, _, _, .var found => by
    obtain ⟨inside, _⟩ := List.getElem?_eq_some_iff.mp found
    exact ⟨_, .var (Env.getElem?_identity inside), .var found⟩
  | _, _, _, .app fn arg => by
    obtain ⟨function, fnEval, fnReads⟩ := fn.reads
    obtain ⟨argument, argEval, argReads⟩ := arg.reads
    exact ⟨_, fnEval.app argEval (.stuck function argument), fnReads.app argReads⟩
  | _, _, _, .recNat target base step => by
    obtain ⟨number, targetEval, targetReads⟩ := target.reads
    obtain ⟨start, baseEval, baseReads⟩ := base.reads
    obtain ⟨next, stepEval, stepReads⟩ := step.reads
    exact ⟨_, targetEval.recNat baseEval stepEval (.stuck number),
      targetReads.recNat baseReads stepReads⟩
  | _, _, _, .car operand => by
    obtain ⟨both, evaluates, reads⟩ := operand.reads
    exact ⟨_, evaluates.car rfl, reads.car⟩
  | _, _, _, .cdr operand => by
    obtain ⟨both, evaluates, reads⟩ := operand.reads
    exact ⟨_, evaluates.cdr rfl, reads.cdr⟩
  | _, _, _, .recList target base step => by
    obtain ⟨items, targetEval, targetReads⟩ := target.reads
    obtain ⟨start, baseEval, baseReads⟩ := base.reads
    obtain ⟨next, stepEval, stepReads⟩ := step.reads
    exact ⟨_, targetEval.recList baseEval stepEval (.stuck items),
      targetReads.recList baseReads stepReads⟩

end

variable {ctx : Context} {term normal : Term} {ty : Ty}

/-- **A normal term is its own normal form.** -/
theorem IsNormal.normalizesTo (normal : term.IsNormal ctx ty) : term.NormalizesTo ctx term ty := by
  obtain ⟨value, evaluates, reads⟩ := normal.reads
  exact .of_reads normal.typed evaluates reads

/-- **Normal forms are normal terms.** -/
theorem NormalizesTo.isNormal (normalizes : term.NormalizesTo ctx normal ty) :
    normal.IsNormal ctx ty := by
  obtain ⟨value, other, evaluates, valueTyped, reads, _⟩ :=
    normalizes.typed.total (Env.HasType.identity ctx)
  have same := (NormalizesTo.of_reads normalizes.typed evaluates reads).unique normalizes
  rw [← same.1]
  exact reads.isNormal valueTyped

end Term

/-- **Normal forms are exactly the eta-long terms without redex.** Every term of a type has a normal
form, which is in the grammar and is its own normal form, as every term of the grammar is; and the
grammar has the terms of the type that are settled at every place. -/
theorem normalForms_exact (ctx : Context) (ty : Ty) :
    (∀ term : Term, term.infer ctx = .ok ty →
      ∃ normal, term.NormalizesTo ctx normal ty ∧ normal.IsNormal ctx ty ∧
        normal.NormalizesTo ctx normal ty) ∧
    (∀ normal : Term, normal.IsNormal ctx ty → normal.NormalizesTo ctx normal ty) ∧
    (∀ normal : Term,
      normal.IsNormal ctx ty ↔ normal.infer ctx = .ok ty ∧ normal.Settled ctx) := by
  refine ⟨fun term inferred => ?_, fun normal => Term.IsNormal.normalizesTo, fun normal => ?_⟩
  · obtain ⟨normal, normalizes, _, _⟩ :=
      (Term.Convertible.refl (.of_infer_eq inferred)).normalizesTo
    exact ⟨normal, normalizes, normalizes.isNormal, normalizes.isNormal.normalizesTo⟩
  · rw [Term.infer_eq_ok_iff]
    exact Term.isNormal_iff

/-- A recursion over a variable that gives functions, bare and below the binder that it is opened
with; its base and its step are functions too. -/
theorem normalForms_exact_at_stuck_recursion :
    (∃ normal, (Term.recNat (.fn .nat .nat) (.var 0) (.lam .nat (.var 0))
        (.lam .nat (.lam (.fn .nat .nat) (.var 0)))).NormalizesTo [.nat] normal (.fn .nat .nat) ∧
      normal.IsNormal [.nat] (.fn .nat .nat) ∧
      normal.NormalizesTo [.nat] normal (.fn .nat .nat)) ∧
    (Term.lam .nat (.app (.recNat (.fn .nat .nat) (.var 1) (.lam .nat (.var 0))
        (.lam .nat (.lam (.fn .nat .nat) (.lam .nat (.app (.var 1) (.var 0))))))
        (.var 0))).NormalizesTo [.nat]
      (.lam .nat (.app (.recNat (.fn .nat .nat) (.var 1) (.lam .nat (.var 0))
        (.lam .nat (.lam (.fn .nat .nat) (.lam .nat (.app (.var 1) (.var 0))))))
        (.var 0))) (.fn .nat .nat) := by
  refine ⟨(normalForms_exact [.nat] (.fn .nat .nat)).1 _ rfl,
    (normalForms_exact [.nat] (.fn .nat .nat)).2.1 _ ?_⟩
  have number {ctx : Context} {index : Nat} (found : ctx[index]? = some .nat) :
      (Term.var index).IsNormal ctx .nat := .neutral rfl (.var found)
  refine .lam (.neutral rfl (.app (.recNat (.var rfl) (.lam (number rfl)) ?_) (number rfl)))
  exact .lam (.lam (.lam (.neutral rfl (.app (.var rfl) (number rfl)))))

end EtaLong
