/-
**Normal forms in larger contexts.**

A renaming that finds every entry of a context keeps conversion, and it keeps normal terms normal.
So the normal form of a term, renamed, is a normal term that the renamed term is convertible to,
and there is only one. Nothing has to be said about values: the closures and environments on the
two sides differ, and what they are read back to does not.

* `Term.Convertible.rename`, `Term.IsNormal.rename`: conversion and normal terms are kept;
* `Term.NormalizesTo.rename`: the normal form of a renamed term;
* `normalization_commutes_with_weakening`: the normal form of a term in a larger context.
-/

import EtaLong.Proofs.NormalForm
import EtaLong.Proofs.Typing.Weakening

namespace EtaLong

namespace Term

/-- **A renaming finds the entries of a context** in another one. -/
def Finds (source ctx : Context) (move : Nat → Nat) : Prop :=
  ∀ index entry, source[index]? = some entry → ctx[move index]? = some entry

variable {source ctx : Context} {move : Nat → Nat} {ty : Ty}

/-- Below a binder the bound variable is found, and all others are found behind it. -/
theorem Finds.under (finds : Finds source ctx move) (dom : Ty) :
    Finds (dom :: source) (dom :: ctx) (underMove move) := by
  intro index entry found
  cases index with
  | zero => exact found
  | succ index => exact finds index entry found

/-- A weakening finds every entry in the context that it builds. -/
theorem Finds.insert {w : Weakening} {inserted : List Ty} (counted : inserted.length = w.count)
    (inside : w.cutoff ≤ ctx.length) : Finds ctx (w.insert inserted ctx) w.shift :=
  fun index _ found => (w.getElem?_insert inserted ctx counted inside index).trans found

/-- **Renaming keeps conversion.** -/
theorem Convertible.rename {left right : Term} (conv : Convertible source ty left right)
    (finds : Finds source ctx move) :
    Convertible ctx ty (left.rename move) (right.rename move) := by
  have supply : Supply ctx (fun index => var (move index)) source :=
    fun index entry found => .var (finds index entry found)
  rw [rename_eq_subst, rename_eq_subst]
  exact conv.subst supply

mutual

/-- **Renaming keeps normal terms normal.** -/
theorem IsNormal.rename : ∀ {source ctx : Context} {term : Term} {ty : Ty} {move : Nat → Nat},
    term.IsNormal source ty → Finds source ctx move → (term.rename move).IsNormal ctx ty
  | _, _, _, _, _, .lam body, finds => .lam (body.rename (finds.under _))
  | _, _, _, _, _, .atom, _ => .atom
  | _, _, _, _, _, .zero, _ => .zero
  | _, _, _, _, _, .succ pred, finds => .succ (pred.rename finds)
  | _, _, _, _, _, .pair fst snd, finds => .pair (fst.rename finds) (snd.rename finds)
  | _, _, _, _, _, .nil, _ => .nil
  | _, _, _, _, _, .cons head tail, finds => .cons (head.rename finds) (tail.rename finds)
  | _, _, _, _, _, .neutral plain neutral, finds => .neutral plain (neutral.rename finds)

/-- Renaming keeps neutral terms neutral. -/
theorem IsNeutral.rename : ∀ {source ctx : Context} {term : Term} {ty : Ty} {move : Nat → Nat},
    term.IsNeutral source ty → Finds source ctx move → (term.rename move).IsNeutral ctx ty
  | _, _, _, _, _, .var found, finds => .var (finds _ _ found)
  | _, _, _, _, _, .app fn arg, finds => .app (fn.rename finds) (arg.rename finds)
  | _, _, _, _, _, .recNat target base step, finds =>
    .recNat (target.rename finds) (base.rename finds) (step.rename finds)
  | _, _, _, _, _, .car operand, finds => .car (operand.rename finds)
  | _, _, _, _, _, .cdr operand, finds => .cdr (operand.rename finds)
  | _, _, _, _, _, .recList target base step, finds =>
    .recList (target.rename finds) (base.rename finds) (step.rename finds)

end

/-- **The normal form of a renamed term** is the renamed normal form. -/
theorem NormalizesTo.rename {term normal : Term} (normalizes : term.NormalizesTo source normal ty)
    (finds : Finds source ctx move) :
    (term.rename move).NormalizesTo ctx (normal.rename move) ty := by
  have conv : Convertible ctx ty (normal.rename move) (term.rename move) :=
    normalizes.convertible.rename finds
  obtain ⟨common, ofNormal, ofTerm, _⟩ := conv.normalizesTo
  -- The renamed normal form is normal, so it is the normal form that the two have in common.
  have own : (normal.rename move).NormalizesTo ctx (normal.rename move) ty :=
    (normalizes.isNormal.rename finds).normalizesTo
  obtain ⟨rfl, _⟩ := ofNormal.unique own
  exact ofTerm

end Term

/-- **Normalisation commutes with weakening.** A term of a type has a normal form; and in the
context that a weakening builds, at whatever place and with whatever entries, the moved term has the
moved normal form. -/
theorem normalization_commutes_with_weakening {w : Weakening} {inserted : List Ty} {ctx : Context}
    {term : Term} {ty : Ty} (counted : inserted.length = w.count) (inside : w.cutoff ≤ ctx.length)
    (inferred : term.infer ctx = .ok ty) :
    ∃ larger normal, w.insert? inserted ctx = .ok larger ∧ term.NormalizesTo ctx normal ty ∧
      (term.weaken w).NormalizesTo larger (normal.weaken w) ty := by
  obtain ⟨normal, normalizes, _, _⟩ :=
    (Term.Convertible.refl (.of_infer_eq inferred)).normalizesTo
  refine ⟨_, normal, Weakening.insert?_eq_ok counted inside, normalizes, ?_⟩
  rw [Term.weaken_eq_rename, Term.weaken_eq_rename]
  exact normalizes.rename (.insert counted inside)

/-- An entry between the two that a function uses: it computes below a binder, and its result is
expanded there. -/
theorem normalization_commutes_with_weakening_at_expanded_result :
    ∃ normal,
      (Term.app (.lam .nat (.var 1)) (.var 1)).NormalizesTo [.fn .nat .nat, .nat] normal
        (.fn .nat .nat) ∧
      (Term.app (.lam .nat (.var 1)) (.var 2)).NormalizesTo [.fn .nat .nat, .atom, .nat]
        (normal.weaken ⟨1, 1⟩) (.fn .nat .nat) := by
  have inferred : (Term.app (.lam .nat (.var 1)) (.var 1)).infer [.fn .nat .nat, .nat] =
      .ok (.fn .nat .nat) := rfl
  obtain ⟨larger, normal, built, normalizes, moved⟩ :=
    @normalization_commutes_with_weakening ⟨1, 1⟩ [.atom] _ _ _ rfl (by decide) inferred
  cases built
  exact ⟨normal, normalizes, moved⟩

end EtaLong
