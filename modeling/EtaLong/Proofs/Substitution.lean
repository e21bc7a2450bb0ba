/-
**Renaming and substitution.**

A renaming moves the free variables of a term, a substitution puts terms in their place; below a
binder both leave the bound variable alone. Weakening is a renaming. Renamings and substitutions
one after another are one substitution, and both keep types.

* `Term.weaken_eq_rename`: weakening moves variables;
* `Term.Free`, `Term.rename_eq_self_iff`: free variables, and the terms that are not changed;
* `Term.weaken_acts`: the laws of weakenings;
* `Term.rename_rename`, `Term.subst_rename`, `Term.rename_subst`, `Term.subst_subst`: composition;
* `Term.subst_instantiate`: substitution passes through the instantiation of a binder;
* `Term.HasType.rename`, `Term.HasType.subst`: types are kept.
-/

import EtaLong.Proofs.Typing
import EtaLong.Proofs.Weakening

namespace EtaLong

namespace Term

/-! ### Renaming -/

/-- A renaming below a binder. -/
def underMove (move : Nat → Nat) : Nat → Nat
  | 0 => 0
  | index + 1 => move index + 1

/-- A term with its free variables moved. -/
def rename (move : Nat → Nat) : Term → Term
  | var index => var (move index)
  | lam dom body => lam dom (body.rename (underMove move))
  | app fn arg => app (fn.rename move) (arg.rename move)
  | atom name => atom name
  | zero => zero
  | succ pred => succ (pred.rename move)
  | recNat motive target base step =>
    recNat motive (target.rename move) (base.rename move) (step.rename move)
  | pair fst snd => pair (fst.rename move) (snd.rename move)
  | car operand => car (operand.rename move)
  | cdr operand => cdr (operand.rename move)
  | nil elem => nil elem
  | cons head tail => cons (head.rename move) (tail.rename move)
  | recList motive target base step =>
    recList motive (target.rename move) (base.rename move) (step.rename move)
  | ann ty body => ann ty (body.rename move)

theorem underMove_shift (w : Weakening) : underMove w.shift = w.lift.shift := by
  funext index
  cases index with
  | zero => simp [underMove, Weakening.shift, Weakening.lift]
  | succ index =>
    by_cases moved : w.cutoff ≤ index
    · simp only [underMove, Weakening.shift, Weakening.lift, moved, Nat.add_le_add_iff_right,
        if_true]
      omega
    · simp only [underMove, Weakening.shift, Weakening.lift, moved, Nat.add_le_add_iff_right,
        if_false]

/-- **Weakening moves variables.** -/
theorem weaken_eq_rename (w : Weakening) (term : Term) : term.weaken w = term.rename w.shift := by
  induction term generalizing w with
  | lam dom body ih => rw [weaken, rename, ih, underMove_shift]
  | _ => simp only [weaken, rename, *]

/-- **A variable occurs free** in a term. -/
def Free (index : Nat) : Term → Prop
  | var other => other = index
  | lam _ body => body.Free (index + 1)
  | app fn arg => fn.Free index ∨ arg.Free index
  | atom _ => False
  | zero => False
  | succ pred => pred.Free index
  | recNat _ target base step => target.Free index ∨ base.Free index ∨ step.Free index
  | pair fst snd => fst.Free index ∨ snd.Free index
  | car operand => operand.Free index
  | cdr operand => operand.Free index
  | nil _ => False
  | cons head tail => head.Free index ∨ tail.Free index
  | recList _ target base step => target.Free index ∨ base.Free index ∨ step.Free index
  | ann _ body => body.Free index

/-- Below a binder, every free variable but the bound one counts. -/
theorem forall_underMove_iff {move : Nat → Nat} {held : Nat → Prop} :
    (∀ index, held index → underMove move index = index) ↔
      ∀ index, held (index + 1) → move index = index := by
  constructor
  · intro stays index free
    exact Nat.succ.inj (stays (index + 1) free)
  · intro stays index free
    cases index with
    | zero => rfl
    | succ index => rw [underMove, stays index free]

/-- **A renaming leaves a term alone** if and only if it leaves the free variables alone. -/
theorem rename_eq_self_iff {term : Term} {move : Nat → Nat} :
    term.rename move = term ↔ ∀ index, term.Free index → move index = index := by
  induction term generalizing move with
  | var index => simp [rename, Free]
  | lam dom body ih => simp only [rename, Free, lam.injEq, true_and, ih, forall_underMove_iff]
  | _ => simp [rename, Free, or_imp, forall_and, *]

/-! ### Substitution -/

/-- A substitution with one more value in front. -/
def push (first : Term) (values : Nat → Term) : Nat → Term
  | 0 => first
  | index + 1 => values index

/-- A substitution below a binder. -/
def underValues (values : Nat → Term) : Nat → Term :=
  push (var 0) fun index => (values index).weaken Weakening.fresh

/-- A term with terms in place of its free variables. -/
def subst (values : Nat → Term) : Term → Term
  | var index => values index
  | lam dom body => lam dom (body.subst (underValues values))
  | app fn arg => app (fn.subst values) (arg.subst values)
  | atom name => atom name
  | zero => zero
  | succ pred => succ (pred.subst values)
  | recNat motive target base step =>
    recNat motive (target.subst values) (base.subst values) (step.subst values)
  | pair fst snd => pair (fst.subst values) (snd.subst values)
  | car operand => car (operand.subst values)
  | cdr operand => cdr (operand.subst values)
  | nil elem => nil elem
  | cons head tail => cons (head.subst values) (tail.subst values)
  | recList motive target base step =>
    recList motive (target.subst values) (base.subst values) (step.subst values)
  | ann ty body => ann ty (body.subst values)

/-- The body of a binder with a term in place of the bound variable. -/
def instantiate (body arg : Term) : Term := body.subst (push arg var)

/-- A new innermost entry moves every variable by one. -/
theorem weaken_fresh (term : Term) : term.weaken Weakening.fresh = term.rename (· + 1) :=
  weaken_eq_rename Weakening.fresh term

/-! ### Composition -/

theorem underMove_comp (first second : Nat → Nat) :
    (fun index => underMove second (underMove first index)) =
      underMove fun index => second (first index) := by
  funext index
  cases index <;> rfl

/-- Renamings one after another. -/
theorem rename_rename (term : Term) (first second : Nat → Nat) :
    (term.rename first).rename second = term.rename fun index => second (first index) := by
  induction term generalizing first second with
  | lam dom body ih => simp only [rename, ih, underMove_comp]
  | _ => simp only [rename, *]

theorem underValues_underMove (move : Nat → Nat) (values : Nat → Term) :
    (fun index => underValues values (underMove move index)) =
      underValues fun index => values (move index) := by
  funext index
  cases index <;> rfl

/-- A renaming, then a substitution. -/
theorem subst_rename (term : Term) (move : Nat → Nat) (values : Nat → Term) :
    (term.rename move).subst values = term.subst fun index => values (move index) := by
  induction term generalizing move values with
  | lam dom body ih => simp only [rename, subst, ih, underValues_underMove]
  | _ => simp only [rename, subst, *]

theorem rename_underValues (move : Nat → Nat) (values : Nat → Term) :
    (fun index => (underValues values index).rename (underMove move)) =
      underValues fun index => (values index).rename move := by
  funext index
  cases index with
  | zero => rfl
  | succ index =>
    simp only [underValues, push, weaken_fresh, rename_rename]
    rfl

/-- A substitution, then a renaming. -/
theorem rename_subst (term : Term) (values : Nat → Term) (move : Nat → Nat) :
    (term.subst values).rename move = term.subst fun index => (values index).rename move := by
  induction term generalizing move values with
  | lam dom body ih => simp only [rename, subst, ih, rename_underValues]
  | _ => simp only [rename, subst, *]

theorem subst_underValues (first second : Nat → Term) :
    (fun index => (underValues first index).subst (underValues second)) =
      underValues fun index => (first index).subst second := by
  funext index
  cases index with
  | zero => rfl
  | succ index =>
    simp only [underValues, push, weaken_fresh, subst_rename, rename_subst]

/-- Substitutions one after another. -/
theorem subst_subst (term : Term) (first second : Nat → Term) :
    (term.subst first).subst second = term.subst fun index => (first index).subst second := by
  induction term generalizing first second with
  | lam dom body ih => simp only [subst, ih, subst_underValues]
  | _ => simp only [subst, *]

theorem underValues_var_comp (move : Nat → Nat) :
    underValues (fun index => var (move index)) = fun index => var (underMove move index) := by
  funext index
  cases index <;> rfl

/-- A renaming is a substitution of variables. -/
theorem rename_eq_subst (term : Term) (move : Nat → Nat) :
    term.rename move = term.subst fun index => var (move index) := by
  induction term generalizing move with
  | lam dom body ih => simp only [rename, subst, ih, underValues_var_comp]
  | _ => simp only [rename, subst, *]

theorem underValues_var : underValues var = var := by
  funext index
  cases index <;> rfl

/-- Every variable may stand for itself. -/
theorem subst_var (term : Term) : term.subst var = term := by
  induction term with
  | lam dom body ih => rw [subst, underValues_var, ih]
  | _ => simp only [subst, *]

/-- A term that does not use the new innermost entry, below it. -/
theorem weaken_fresh_subst (term : Term) (values : Nat → Term) :
    (term.weaken Weakening.fresh).subst (underValues values) =
      (term.subst values).weaken Weakening.fresh := by
  rw [weaken_fresh, weaken_fresh, subst_rename, rename_subst]
  congr 1
  funext index
  exact weaken_fresh (values index)

/-- A term that does not use the bound variable is not changed by instantiation. -/
theorem weaken_fresh_subst_push (term first : Term) (values : Nat → Term) :
    (term.weaken Weakening.fresh).subst (push first values) = term.subst values := by
  rw [weaken_fresh, subst_rename]
  rfl

/-- A binder that is substituted and then instantiated. -/
theorem instantiate_subst_underValues (body arg : Term) (values : Nat → Term) :
    (body.subst (underValues values)).instantiate arg = body.subst (push arg values) := by
  rw [instantiate, subst_subst]
  congr 1
  funext index
  cases index with
  | zero => rfl
  | succ index => exact (weaken_fresh_subst_push _ arg var).trans (subst_var _)

/-- **Substitution passes through the instantiation of a binder.** -/
theorem subst_instantiate (body arg : Term) (values : Nat → Term) :
    (body.instantiate arg).subst values =
      (body.subst (underValues values)).instantiate (arg.subst values) := by
  rw [instantiate_subst_underValues, instantiate, subst_subst]
  congr 1
  funext index
  cases index <;> rfl

end Term

/-! ### Weakening -/

namespace Term

/-- Weakenings one after another move terms alike when they move variables alike. -/
theorem weaken_weaken {first second first' second' : Weakening}
    (moves : ∀ index, second.embed (first.embed index) = second'.embed (first'.embed index))
    (term : Term) : (term.weaken first).weaken second = (term.weaken first').weaken second' := by
  simp only [weaken_eq_rename, rename_rename, Weakening.shift_shift moves]

/-- A weakening leaves a term alone if and only if it leaves the free variables alone. -/
theorem weaken_eq_self_iff {w : Weakening} {term : Term} :
    term.weaken w = term ↔ ∀ index : Nat, term.Free index → w.embed index = index := by
  simp only [weaken_eq_rename, rename_eq_self_iff, Weakening.embed_natCast, Int.natCast_inj]

/-- **Weakenings act on terms.** -/
theorem weaken_acts :
    Weakening.Acts Term.weaken fun bound term => ∀ index, term.Free index → index < bound := by
  refine .of_moves weaken_weaken fun w term => ?_
  rw [weaken_eq_self_iff, w.forall_embed_eq_self_iff]
  simp only [Int.ofNat_lt]

end Term

/-! ### Entries in front -/

/-- So many entries are inserted as the innermost. -/
def Weakening.front (count : Nat) : Weakening := ⟨count, 0⟩

namespace Term

theorem weaken_front (count : Nat) (term : Term) :
    term.weaken (.front count) = term.rename (· + count) :=
  weaken_eq_rename (.front count) term

/-- Without new entries a term stays as it is. -/
theorem weaken_front_zero (term : Term) : term.weaken (.front 0) = term :=
  weaken_acts.none 0 term

/-- New entries one after another. -/
theorem weaken_front_add (first second : Nat) (term : Term) :
    (term.weaken (.front first)).weaken (.front second) = term.weaken (.front (first + second)) :=
  weaken_acts.merge first second 0 0 term (Nat.le_refl 0) (Nat.zero_le _)

/-- New entries in front of what a substitution gives. -/
theorem weaken_front_subst (count : Nat) (term : Term) (values : Nat → Term) :
    (term.subst values).weaken (.front count) =
      term.subst fun index => (values index).weaken (.front count) := by
  rw [weaken_front, rename_subst]
  congr 1
  funext index
  exact (weaken_front count (values index)).symm

/-! ### Types are kept -/

/-- **A renaming that finds every entry keeps types.** -/
theorem HasType.rename {source ctx : Context} {term : Term} {ty : Ty} {move : Nat → Nat}
    (typed : term.HasType source ty)
    (finds : ∀ index entry, source[index]? = some entry → ctx[move index]? = some entry) :
    (term.rename move).HasType ctx ty := by
  induction typed generalizing ctx move with
  | var found => exact .var (finds _ _ found)
  | @lam source dom cod body _ ih =>
    refine .lam (ih fun index entry found => ?_)
    cases index with
    | zero => exact found
    | succ index => exact finds index entry found
  | app _ _ fn arg => exact .app (fn finds) (arg finds)
  | atom => exact .atom
  | zero => exact .zero
  | succ _ pred => exact .succ (pred finds)
  | recNat _ _ _ target base step => exact .recNat (target finds) (base finds) (step finds)
  | pair _ _ fst snd => exact .pair (fst finds) (snd finds)
  | car _ operand => exact .car (operand finds)
  | cdr _ operand => exact .cdr (operand finds)
  | nil => exact .nil
  | cons _ _ head tail => exact .cons (head finds) (tail finds)
  | recList _ _ _ target base step => exact .recList (target finds) (base finds) (step finds)
  | ann _ body => exact .ann (body finds)

/-- New entries in front keep types. -/
theorem HasType.weaken_front {ctx : Context} {term : Term} {ty : Ty}
    (typed : term.HasType ctx ty) (added : Context) :
    (term.weaken (.front added.length)).HasType (added ++ ctx) ty := by
  rw [Term.weaken_front]
  refine typed.rename fun index entry found => ?_
  rw [List.getElem?_append_right (by omega), Nat.add_sub_cancel]
  exact found

/-- A new innermost entry keeps types. -/
theorem HasType.weaken_fresh {ctx : Context} {term : Term} {ty : Ty}
    (typed : term.HasType ctx ty) (dom : Ty) :
    (term.weaken Weakening.fresh).HasType (dom :: ctx) ty :=
  typed.weaken_front [dom]

/-- **Values for the entries of a context**, each of the type of its entry. -/
def Supply (ctx : Context) (values : Nat → Term) (entries : Context) : Prop :=
  ∀ index ty, entries[index]? = some ty → (values index).HasType ctx ty

namespace Supply

variable {ctx entries : Context} {values : Nat → Term}

/-- Every variable may stand for itself. -/
theorem var (ctx : Context) : Supply ctx .var ctx := fun _ _ found => .var found

/-- One more value in front. -/
theorem push {first : Term} {ty : Ty} (typed : first.HasType ctx ty)
    (supply : Supply ctx values entries) : Supply ctx (push first values) (ty :: entries) := by
  intro index entry found
  cases index with
  | zero =>
    cases found
    exact typed
  | succ index => exact supply index entry found

/-- The values below a binder. -/
theorem under (supply : Supply ctx values entries) (dom : Ty) :
    Supply (dom :: ctx) (underValues values) (dom :: entries) :=
  push (.var rfl) fun index entry found => (supply index entry found).weaken_fresh dom

end Supply

/-- **Substitution keeps types.** -/
theorem HasType.subst {entries ctx : Context} {term : Term} {ty : Ty} {values : Nat → Term}
    (typed : term.HasType entries ty) (supply : Supply ctx values entries) :
    (term.subst values).HasType ctx ty := by
  induction typed generalizing ctx values with
  | var found => exact supply _ _ found
  | lam _ body => exact .lam (body (supply.under _))
  | app _ _ fn arg => exact .app (fn supply) (arg supply)
  | atom => exact .atom
  | zero => exact .zero
  | succ _ pred => exact .succ (pred supply)
  | recNat _ _ _ target base step => exact .recNat (target supply) (base supply) (step supply)
  | pair _ _ fst snd => exact .pair (fst supply) (snd supply)
  | car _ operand => exact .car (operand supply)
  | cdr _ operand => exact .cdr (operand supply)
  | nil => exact .nil
  | cons _ _ head tail => exact .cons (head supply) (tail supply)
  | recList _ _ _ target base step => exact .recList (target supply) (base supply) (step supply)
  | ann _ body => exact .ann (body supply)

/-- Instantiation keeps types. -/
theorem HasType.instantiate {ctx : Context} {body arg : Term} {dom cod : Ty}
    (bodyTyped : body.HasType (dom :: ctx) cod) (argTyped : arg.HasType ctx dom) :
    (body.instantiate arg).HasType ctx cod :=
  bodyTyped.subst (.push argTyped (.var ctx))

end Term

end EtaLong
