/-
**Extensionality.**

Functions have one normal form if and only if their applications have, for every argument in every
context. A variable is enough of an argument. Closed arguments need not be enough: pairs and lists have
no rule but computation, and a function that takes a pair of numbers apart and puts it together again
differs from the identity on a variable only. Where the arguments are atoms closed ones are enough, since an atom
that neither function mentions is as good as a variable: any term may be put in its place.

* `Term.HasType.rename_closed`: closed terms have no variables to move;
* `Term.replaceAtom`, `Term.Convertible.replaceAtom`: a term in place of an atom;
* `Term.SameNormal`: two terms have one normal form;
* `Term.Convertible.of_fresh_argument`: functions that do the same to a variable;
* `functions_extensional`, `closed_arguments_not_enough`: which arguments decide.
-/

import EtaLong.Proofs.Canonicity

namespace EtaLong

namespace Term

variable {ctx : Context} {ty dom cod : Ty} {left right term value : Term} {name : String}

/-! ### Closed terms -/

/-- A renaming that leaves the entries of the context where they are leaves the term as it is. -/
theorem HasType.rename_eq_self {move : Nat → Nat} (typed : term.HasType ctx ty)
    (stays : ∀ index < ctx.length, move index = index) : term.rename move = term := by
  induction typed generalizing move with
  | var found =>
    obtain ⟨inside, _⟩ := List.getElem?_eq_some_iff.mp found
    rw [Term.rename, stays _ inside]
  | lam _ body =>
    rw [Term.rename, body]
    intro index inside
    cases index with
    | zero => rfl
    | succ index => exact congrArg (· + 1) (stays index (Nat.lt_of_succ_lt_succ inside))
  | atom | zero | nil => rfl
  | succ _ pred => rw [Term.rename, pred stays]
  | car _ operand | cdr _ operand => rw [Term.rename, operand stays]
  | ann _ body => rw [Term.rename, body stays]
  | app _ _ first second | pair _ _ first second | cons _ _ first second =>
    rw [Term.rename, first stays, second stays]
  | recNat _ _ _ target base step | recList _ _ _ target base step =>
    rw [Term.rename, target stays, base stays, step stays]

/-- **A closed term has no variables to move.** -/
theorem HasType.rename_closed (typed : term.HasType [] ty) (move : Nat → Nat) :
    term.rename move = term :=
  typed.rename_eq_self fun _ inside => absurd inside (Nat.not_lt_zero _)

/-- What is convertible without a context is so in every context. -/
theorem Convertible.anywhere (conv : Convertible [] ty left right) (ctx : Context) :
    Convertible ctx ty left right := by
  have moved := conv.weaken_front ctx
  rwa [Term.weaken_front, Term.weaken_front, conv.typed.1.rename_closed,
    conv.typed.2.rename_closed, List.append_nil] at moved

/-! ### A term in place of an atom -/

/-- A term with another one in place of an atom. -/
def replaceAtom (name : String) : Term → Term → Term
  | var index, _ => var index
  | lam dom body, value => lam dom (body.replaceAtom name (value.weaken Weakening.fresh))
  | app fn arg, value => app (fn.replaceAtom name value) (arg.replaceAtom name value)
  | atom other, value => if other = name then value else atom other
  | zero, _ => zero
  | succ pred, value => succ (pred.replaceAtom name value)
  | recNat motive target base step, value =>
    recNat motive (target.replaceAtom name value) (base.replaceAtom name value)
      (step.replaceAtom name value)
  | pair fst snd, value => pair (fst.replaceAtom name value) (snd.replaceAtom name value)
  | car operand, value => car (operand.replaceAtom name value)
  | cdr operand, value => cdr (operand.replaceAtom name value)
  | nil elem, _ => nil elem
  | cons head tail, value => cons (head.replaceAtom name value) (tail.replaceAtom name value)
  | recList motive target base step, value =>
    recList motive (target.replaceAtom name value) (base.replaceAtom name value)
      (step.replaceAtom name value)
  | ann ty body, value => ann ty (body.replaceAtom name value)

theorem replaceAtom_of_notMem (absent : name ∉ term.atoms) (value : Term) :
    term.replaceAtom name value = term := by
  induction term generalizing value with
  | atom other =>
    have differs : ¬ other = name := fun same => absent (same ▸ List.mem_singleton_self other)
    rw [replaceAtom, if_neg differs]
  | _ =>
    simp only [atoms, List.mem_append, not_or] at absent
    simp only [replaceAtom, *, not_false_eq_true]

/-- A renaming passes through the replacement of an atom. -/
theorem replaceAtom_rename (term value : Term) (move : Nat → Nat) :
    (term.rename move).replaceAtom name (value.rename move) =
      (term.replaceAtom name value).rename move := by
  induction term generalizing value move with
  | lam dom body ih =>
    have below : (value.rename move).weaken Weakening.fresh =
        (value.weaken Weakening.fresh).rename (underMove move) := by
      simp only [weaken_fresh, rename_rename]
      rfl
    rw [rename, replaceAtom, replaceAtom, rename, below, ih]
  | atom other =>
    rw [rename, replaceAtom, replaceAtom]
    split <;> rfl
  | _ => simp only [rename, replaceAtom, *]

/-- The values of a substitution with a term in place of an atom, below a binder. -/
theorem replaceAtom_underValues (values : Nat → Term) (value : Term) :
    (fun index => (underValues values index).replaceAtom name (value.weaken Weakening.fresh)) =
      underValues fun index => (values index).replaceAtom name value := by
  funext index
  cases index with
  | zero => rfl
  | succ index =>
    simp only [underValues, push, weaken_fresh]
    exact replaceAtom_rename (values index) value (· + 1)

/-- A substitution passes through the replacement of an atom. -/
theorem replaceAtom_subst (term : Term) {values : Nat → Term} {inner value : Term}
    (same : inner.subst (fun index => (values index).replaceAtom name value) = value) :
    (term.subst values).replaceAtom name value =
      (term.replaceAtom name inner).subst fun index => (values index).replaceAtom name value := by
  induction term generalizing values inner value with
  | lam dom body ih =>
    rw [subst, replaceAtom, replaceAtom, subst, ih, replaceAtom_underValues]
    rw [replaceAtom_underValues, weaken_fresh_subst, same]
  | atom other =>
    rw [subst, replaceAtom, replaceAtom]
    split
    · exact same.symm
    · rfl
  | var | zero | nil => rfl
  | succ _ pred => rw [subst, replaceAtom, replaceAtom, subst, pred same]
  | car _ operand | cdr _ operand => rw [subst, replaceAtom, replaceAtom, subst, operand same]
  | ann _ _ body => rw [subst, replaceAtom, replaceAtom, subst, body same]
  | app _ _ first second | pair _ _ first second | cons _ _ first second =>
    rw [subst, replaceAtom, replaceAtom, subst, first same, second same]
  | recNat _ _ _ _ target base step | recList _ _ _ _ target base step =>
    rw [subst, replaceAtom, replaceAtom, subst, target same, base same, step same]

/-- The replacement of an atom passes through the instantiation of a binder. -/
theorem replaceAtom_instantiate (body arg value : Term) :
    (body.instantiate arg).replaceAtom name value =
      (body.replaceAtom name (value.weaken Weakening.fresh)).instantiate
        (arg.replaceAtom name value) := by
  have values : (fun index => (push arg var index).replaceAtom name value) =
      push (arg.replaceAtom name value) var := by
    funext index
    cases index <;> rfl
  rw [instantiate, instantiate, ← values]
  refine replaceAtom_subst body ?_
  rw [values, weaken_fresh_subst_push, subst_var]

/-- A term of the type of atoms in place of an atom keeps types. -/
theorem HasType.replaceAtom (typed : term.HasType ctx ty) (valueTyped : value.HasType ctx .atom) :
    (term.replaceAtom name value).HasType ctx ty := by
  induction typed generalizing value with
  | var found => exact .var found
  | lam _ body => exact .lam (body (valueTyped.weaken_fresh _))
  | app _ _ fn arg => exact .app (fn valueTyped) (arg valueTyped)
  | atom =>
    rw [Term.replaceAtom]
    split
    · exact valueTyped
    · exact .atom
  | zero => exact .zero
  | succ _ pred => exact .succ (pred valueTyped)
  | recNat _ _ _ target base step =>
    exact .recNat (target valueTyped) (base valueTyped) (step valueTyped)
  | pair _ _ fst snd => exact .pair (fst valueTyped) (snd valueTyped)
  | car _ operand => exact .car (operand valueTyped)
  | cdr _ operand => exact .cdr (operand valueTyped)
  | nil => exact .nil
  | cons _ _ head tail => exact .cons (head valueTyped) (tail valueTyped)
  | recList _ _ _ target base step =>
    exact .recList (target valueTyped) (base valueTyped) (step valueTyped)
  | ann _ body => exact .ann (body valueTyped)

/-- **Any term of the type of atoms may be put in place of an atom.** -/
theorem Convertible.replaceAtom (conv : Convertible ctx ty left right)
    (valueTyped : value.HasType ctx .atom) :
    Convertible ctx ty (left.replaceAtom name value) (right.replaceAtom name value) := by
  induction conv generalizing value with
  | refl typed => exact .refl (typed.replaceAtom valueTyped)
  | symm _ ih => exact .symm (ih valueTyped)
  | trans _ _ first second => exact .trans (first valueTyped) (second valueTyped)
  | lam _ body => exact .lam (body (valueTyped.weaken_fresh _))
  | app _ _ fn arg => exact .app (fn valueTyped) (arg valueTyped)
  | succ _ pred => exact .succ (pred valueTyped)
  | recNat _ _ _ target base step =>
    exact .recNat (target valueTyped) (base valueTyped) (step valueTyped)
  | pair _ _ fst snd => exact .pair (fst valueTyped) (snd valueTyped)
  | car _ operand => exact .car (operand valueTyped)
  | cdr _ operand => exact .cdr (operand valueTyped)
  | cons _ _ head tail => exact .cons (head valueTyped) (tail valueTyped)
  | recList _ _ _ target base step =>
    exact .recList (target valueTyped) (base valueTyped) (step valueTyped)
  | ann _ body => exact .ann (body valueTyped)
  | beta body arg =>
    rw [replaceAtom_instantiate]
    exact .beta (body.replaceAtom (valueTyped.weaken_fresh _)) (arg.replaceAtom valueTyped)
  | @eta ctx dom cod fn typed =>
    have fnTyped : (fn.replaceAtom name value).HasType ctx (.fn dom cod) :=
      typed.replaceAtom valueTyped
    have expanded := Convertible.eta fnTyped
    rw [weaken_fresh, ← replaceAtom_rename, ← weaken_fresh, ← weaken_fresh] at expanded
    exact expanded
  | carPair fst snd => exact .carPair (fst.replaceAtom valueTyped) (snd.replaceAtom valueTyped)
  | cdrPair fst snd => exact .cdrPair (fst.replaceAtom valueTyped) (snd.replaceAtom valueTyped)
  | recNatZero base step =>
    exact .recNatZero (base.replaceAtom valueTyped) (step.replaceAtom valueTyped)
  | recNatSucc pred base step =>
    exact .recNatSucc (pred.replaceAtom valueTyped) (base.replaceAtom valueTyped)
      (step.replaceAtom valueTyped)
  | recListNil base step =>
    exact .recListNil (base.replaceAtom valueTyped) (step.replaceAtom valueTyped)
  | recListCons head tail base step =>
    exact .recListCons (head.replaceAtom valueTyped) (tail.replaceAtom valueTyped)
      (base.replaceAtom valueTyped) (step.replaceAtom valueTyped)
  | annErase body => exact .annErase (body.replaceAtom valueTyped)

/-! ### One normal form -/

/-- **Two terms of a type have one normal form.** -/
def SameNormal (ctx : Context) (ty : Ty) (left right : Term) : Prop :=
  ∃ normal, left.NormalizesTo ctx normal ty ∧ right.NormalizesTo ctx normal ty

theorem sameNormal_iff : SameNormal ctx ty left right ↔ Convertible ctx ty left right := by
  constructor
  · rintro ⟨normal, leftNormal, rightNormal⟩
    exact leftNormal.convertible.symm.trans rightNormal.convertible
  · intro conv
    obtain ⟨normal, leftNormal, rightNormal, _⟩ := conv.normalizesTo
    exact ⟨normal, leftNormal, rightNormal⟩

namespace Convertible

/-- **Functions that do the same to a variable are convertible**: both are their expansions. -/
theorem of_fresh_argument (leftTyped : left.HasType ctx (.fn dom cod))
    (rightTyped : right.HasType ctx (.fn dom cod))
    (conv : Convertible (dom :: ctx) cod (.app (left.weaken Weakening.fresh) (.var 0))
      (.app (right.weaken Weakening.fresh) (.var 0))) :
    Convertible ctx (.fn dom cod) left right :=
  (Convertible.eta leftTyped).trans ((Convertible.lam conv).trans (Convertible.eta rightTyped).symm)

/-- Closed functions need not be moved below the variable. -/
theorem of_closed_fresh_argument (leftTyped : left.HasType [] (.fn dom cod))
    (rightTyped : right.HasType [] (.fn dom cod))
    (conv : Convertible [dom] cod (.app left (.var 0)) (.app right (.var 0))) :
    Convertible [] (.fn dom cod) left right := by
  refine of_fresh_argument leftTyped rightTyped ?_
  rwa [weaken_fresh, weaken_fresh, leftTyped.rename_closed, rightTyped.rename_closed]

/-- **Closed functions that do the same to an atom they do not mention are convertible**: a variable
may be put in its place. -/
theorem of_fresh_atom (leftTyped : left.HasType [] (.fn .atom cod))
    (rightTyped : right.HasType [] (.fn .atom cod)) (leftFresh : name ∉ left.atoms)
    (rightFresh : name ∉ right.atoms)
    (conv : Convertible [] cod (.app left (.atom name)) (.app right (.atom name))) :
    Convertible [] (.fn .atom cod) left right := by
  have newest : (Term.var 0).HasType [.atom] .atom := .var rfl
  have replaced : Convertible [.atom] cod ((Term.app left (.atom name)).replaceAtom name (.var 0))
      ((Term.app right (.atom name)).replaceAtom name (.var 0)) :=
    (conv.anywhere [.atom]).replaceAtom newest
  refine of_closed_fresh_argument leftTyped rightTyped ?_
  rwa [Term.replaceAtom, Term.replaceAtom, Term.replaceAtom, if_pos rfl,
    replaceAtom_of_notMem leftFresh, replaceAtom_of_notMem rightFresh] at replaced

/-- **A closed pair is put together from its parts**, as its normal form is a pair. -/
theorem closed_rebuilt {fstTy sndTy : Ty} (typed : term.HasType [] (.pair fstTy sndTy)) :
    Convertible [] (.pair fstTy sndTy) (.pair (.car term) (.cdr term)) term := by
  obtain ⟨normal, normalizes, _, conv⟩ := (Convertible.refl typed).normalizesTo
  cases normalizes.isNormal with
  | pair fst snd =>
    have car := (Convertible.car conv.symm).trans (.carPair fst.typed snd.typed)
    have cdr := (Convertible.cdr conv.symm).trans (.cdrPair fst.typed snd.typed)
    exact (Convertible.pair car cdr).trans conv
  | neutral _ stuck => exact stuck.not_closed.elim

end Convertible

end Term

/-! ### Which arguments decide -/

open Term in
/-- **Functions are determined by their applications, in every context.** Closed functions of a type
have one normal form if and only if their applications have, to every argument of every context; and
if and only if their applications to one variable have. Where the arguments are atoms, it is enough
that their applications to the closed ones have. -/
theorem functions_extensional {dom cod : Ty} {left right : Term}
    (leftInfers : left.infer [] = .ok (.fn dom cod))
    (rightInfers : right.infer [] = .ok (.fn dom cod)) :
    (SameNormal [] (.fn dom cod) left right ↔ ∀ (ctx : Context) (arg : Term),
      arg.infer ctx = .ok dom → SameNormal ctx cod (.app left arg) (.app right arg)) ∧
    (SameNormal [] (.fn dom cod) left right ↔
      SameNormal [dom] cod (.app left (.var 0)) (.app right (.var 0))) ∧
    (dom = .atom → (SameNormal [] (.fn dom cod) left right ↔ ∀ arg : Term,
      arg.infer [] = .ok dom → SameNormal [] cod (.app left arg) (.app right arg))) := by
  have leftTyped := HasType.of_infer_eq leftInfers
  have rightTyped := HasType.of_infer_eq rightInfers
  simp only [sameNormal_iff]
  have everywhere (conv : Convertible [] (.fn dom cod) left right) (ctx : Context) (arg : Term)
      (infers : arg.infer ctx = .ok dom) : Convertible ctx cod (.app left arg) (.app right arg) :=
    .app (conv.anywhere ctx) (.refl (.of_infer_eq infers))
  refine ⟨⟨everywhere, fun agree => ?_⟩, ⟨fun conv => everywhere conv [dom] (.var 0) rfl, ?_⟩, ?_⟩
  · exact .of_closed_fresh_argument leftTyped rightTyped (agree [dom] (.var 0) rfl)
  · exact .of_closed_fresh_argument leftTyped rightTyped
  · rintro rfl
    refine ⟨fun conv => everywhere conv [], fun agree => ?_⟩
    let name := freshName (left.atoms ++ right.atoms)
    have fresh : name ∉ left.atoms ++ right.atoms := freshName_not_mem _
    rw [List.mem_append, not_or] at fresh
    exact .of_fresh_atom leftTyped rightTyped fresh.1 fresh.2 (agree (.atom name) rfl)

/-- Two ways to keep an atom for later: at once, and as a part of a pair. -/
theorem functions_extensional_at_kept_atom :
    let ty : Ty := .fn .atom (.fn .nat .atom)
    let kept : Term := .lam .atom (.lam .nat (.var 1))
    let paired : Term := .lam .atom (.ann (.fn .nat .atom) (.lam .nat (.car (.pair (.var 1) (.var 0)))))
    kept.infer [] = .ok ty ∧ paired.infer [] = .ok ty ∧ Term.SameNormal [] ty kept paired ∧
    (∀ (ctx : Context) (arg : Term), arg.infer ctx = .ok .atom →
      Term.SameNormal ctx (.fn .nat .atom) (.app kept arg) (.app paired arg)) := by
  intro ty kept paired
  have agree : Term.SameNormal [.atom] (.fn .nat .atom) (.app kept (.var 0)) (.app paired (.var 0)) := by
    refine ⟨.lam .nat (.var 1), ⟨9, fun fuel enough => ?_⟩, ⟨9, fun fuel enough => ?_⟩⟩ <;>
    · obtain ⟨less, rfl⟩ := Nat.exists_eq_add_of_le' enough
      rfl
  have extensional := @functions_extensional .atom (.fn .nat .atom) kept paired rfl rfl
  have same := extensional.2.1.mpr agree
  exact ⟨rfl, rfl, same, extensional.1.mp same⟩

open Term in
/-- **Closed arguments are not enough.** The identity on pairs of numbers, and the function that puts
a pair together from its parts, have applications of one normal form to every closed pair; but they
are two normal forms. -/
theorem closed_arguments_not_enough :
    let pairs : Ty := .pair .nat .nat
    let same : Term := .lam pairs (.var 0)
    let rebuilt : Term := .lam pairs (.pair (.car (.var 0)) (.cdr (.var 0)))
    same.infer [] = .ok (.fn pairs pairs) ∧ rebuilt.infer [] = .ok (.fn pairs pairs) ∧
    (∀ arg : Term, arg.infer [] = .ok pairs →
      SameNormal [] pairs (.app same arg) (.app rebuilt arg)) ∧
    ¬ SameNormal [] (.fn pairs pairs) same rebuilt := by
  intro pairs same rebuilt
  have param : IsNeutral [pairs] (.var 0) pairs := .var rfl
  have sameNormal : IsNormal [] same (.fn pairs pairs) := .lam (.neutral rfl param)
  have rebuiltNormal : IsNormal [] rebuilt (.fn pairs pairs) :=
    .lam (.pair (.neutral rfl (.car param)) (.neutral rfl (.cdr param)))
  refine ⟨rfl, rfl, fun arg infers => sameNormal_iff.mpr ?_, ?_⟩
  · have argTyped := HasType.of_infer_eq infers
    have first : Convertible [] pairs (.app same arg) arg := .beta (.var rfl) argTyped
    have second : Convertible [] pairs (.app rebuilt arg) (.pair (.car arg) (.cdr arg)) :=
      .beta (.pair (.car (.var rfl)) (.cdr (.var rfl))) argTyped
    exact first.trans (second.trans (.closed_rebuilt argTyped)).symm
  · rintro ⟨normal, ofSame, ofRebuilt⟩
    have one := sameNormal.normalizesTo.unique ofSame
    have other := rebuiltNormal.normalizesTo.unique ofRebuilt
    exact absurd (one.1.trans other.1.symm) (by decide)

end EtaLong
