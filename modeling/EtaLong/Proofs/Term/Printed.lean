/-
**Printed terms are written expressions.**

A term is printed as the expression that an author would write for it: nested functions share one
parameter list, applied arguments stand in a row, numerals are numbers. The name of a new parameter
is never in scope, since one more name is tried than there are in scope. So what is printed can be
parsed back, when the names in scope and the atoms are words.

* `freshName_not_mem`, `isName_freshName`: new names;
* `Ty.written`, `Term.written`: the expressions that are printed;
* `Ty.tree_eq`, `Term.tree_eq`: they are what is printed;
* `Ty.written_full`, `Term.written_clear`: they can be parsed back.
-/

import Mathlib.Data.List.Perm.Subperm
import EtaLong.Proofs.Expr.Printed
import EtaLong.Proofs.Typing
import EtaLong.Term.Printer

namespace EtaLong

/-! ### New names -/

/-- A binder name is an `x` and then digits. -/
theorem toList_binderName (attempt : Nat) : (binderName attempt).toList =
    'x' :: if attempt = 0 then [] else Nat.toDigits 10 attempt := by
  unfold binderName
  by_cases first : attempt = 0
  · rw [if_pos first, if_pos first]
    rfl
  · rw [if_neg first, if_neg first, String.toList_append, Nat.toString_eq_ofList_toDigits]
    exact congrArg ('x' :: ·) String.toList_ofList

/-- **Binder names are different from each other.** -/
theorem binderName_injective {one other : Nat} (same : binderName one = binderName other) :
    one = other := by
  have digits := congrArg String.toList same
  rw [toList_binderName, toList_binderName, List.cons.injEq] at digits
  by_cases first : one = 0
  · by_cases second : other = 0
    · rw [first, second]
    · rw [if_pos first, if_neg second] at digits
      exact absurd digits.2.symm Nat.toDigits_ne_nil
  · by_cases second : other = 0
    · rw [if_neg first, if_pos second] at digits
      exact absurd digits.2 Nat.toDigits_ne_nil
    · rw [if_neg first, if_neg second] at digits
      calc one = Nat.ofDigitChars 10 (Nat.toDigits 10 one) 0 := Nat.ofDigitChars_ten_toDigits.symm
        _ = Nat.ofDigitChars 10 (Nat.toDigits 10 other) 0 := by rw [digits.2]
        _ = other := Nat.ofDigitChars_ten_toDigits

/-- **A binder name can name a variable.** -/
theorem isName_binderName (attempt : Nat) : IsName (binderName attempt) := by
  refine ⟨⟨fun c among => ?_, 'x', ?_, by decide⟩, ?_⟩
  · rw [toList_binderName, List.mem_cons] at among
    rcases among with rfl | digit
    · decide
    · by_cases first : attempt = 0
      · rw [if_pos first] at digit
        cases digit
      · rw [if_neg first] at digit
        have isDigit := Text.isDigit_of_toDigits digit
        simp [Token.isWordChar, Char.isAlphanum, isDigit]
  · rw [toList_binderName]
    exact List.mem_cons_self
  · refine List.find?_eq_none.mpr fun keyword _ => ?_
    rw [decide_eq_true_eq]
    intro same
    have letter : keyword.name.toList.head? ≠ some 'x' := by cases keyword <;> decide
    rw [same, toList_binderName] at letter
    exact letter rfl

/-- **A new name is not in scope.** -/
theorem freshName_not_mem (names : List String) : freshName names ∉ names := by
  unfold freshName
  cases found : (List.range (names.length + 1)).find? fun attempt => binderName attempt ∉ names with
  | some attempt =>
    have new := List.find?_some found
    exact of_decide_eq_true new
  | none =>
    -- All names that were tried would be in scope, which are more than there are in scope.
    have tried : ((List.range (names.length + 1)).map binderName) ⊆ names := by
      intro name among
      obtain ⟨attempt, inRange, rfl⟩ := List.mem_map.mp among
      have taken := List.find?_eq_none.mp found attempt inRange
      rw [decide_eq_true_eq, Decidable.not_not] at taken
      exact taken
    have distinct : ((List.range (names.length + 1)).map binderName).Nodup :=
      List.pairwise_map.mpr (List.nodup_range.imp fun differ same => differ (binderName_injective same))
    have fewer := (distinct.subperm tried).length_le
    rw [List.length_map, List.length_range] at fewer
    omega

theorem isName_freshName (names : List String) : IsName (freshName names) := isName_binderName _

/-! ### Types -/

/-- A function type with one more argument in front. -/
def TypeExpr.taking (arg : TypeExpr) : TypeExpr → TypeExpr
  | .arrow _ args result => .arrow .nowhere (arg :: args) result
  | result => .arrow .nowhere [arg] result

/-- **The type that is printed.** -/
def Ty.written : Ty → TypeExpr
  | nat => .nat .nowhere
  | atom => .atom .nowhere
  | fn dom cod => .taking dom.written cod.written
  | pair fst snd => .pair .nowhere fst.written snd.written
  | list elem => .list .nowhere elem.written

/-- A function type is written with an arrow. -/
theorem TypeExpr.exists_taking (arg ty : TypeExpr) :
    ∃ args result, TypeExpr.taking arg ty = .arrow .nowhere args result := by
  cases ty <;> exact ⟨_, _, rfl⟩

theorem TypeExpr.toTy_taking (arg ty : TypeExpr) :
    (TypeExpr.taking arg ty).toTy = .fn arg.toTy ty.toTy := by
  cases ty <;> rfl

theorem TypeExpr.Full.taking {arg ty : TypeExpr} (argFull : arg.Full) (full : ty.Full) :
    (TypeExpr.taking arg ty).Full := by
  cases full with
  | arrow _ args result =>
    exact .arrow (List.cons_ne_nil _ _) (List.forall_mem_cons.mpr ⟨argFull, args⟩) result
  | nat => exact .arrow (List.cons_ne_nil _ _) (List.forall_mem_singleton.mpr argFull) .nat
  | atom => exact .arrow (List.cons_ne_nil _ _) (List.forall_mem_singleton.mpr argFull) .atom
  | pair fst snd =>
    exact .arrow (List.cons_ne_nil _ _) (List.forall_mem_singleton.mpr argFull) (.pair fst snd)
  | list elem =>
    exact .arrow (List.cons_ne_nil _ _) (List.forall_mem_singleton.mpr argFull) (.list elem)

namespace Ty

/-- **The written type denotes the type.** -/
theorem toTy_written (ty : Ty) : ty.written.toTy = ty := by
  induction ty with
  | nat => rfl
  | atom => rfl
  | fn dom cod domBack codBack => rw [written, TypeExpr.toTy_taking, domBack, codBack]
  | pair fst snd fstBack sndBack => rw [written, TypeExpr.toTy, fstBack, sndBack]
  | list elem elemBack => rw [written, TypeExpr.toTy, elemBack]

theorem written_full (ty : Ty) : ty.written.Full := by
  induction ty with
  | nat => exact .nat
  | atom => exact .atom
  | fn dom cod domFull codFull => exact domFull.taking codFull
  | pair fst snd fstFull sndFull => exact .pair fstFull sndFull
  | list elem elemFull => exact .list elemFull

/-- A function type whose result is none is printed with its own arrow. -/
theorem tree_fn_of_other (dom : Ty) {cod : Ty} (other : ∀ second last, cod ≠ fn second last) :
    (fn dom cod).tree = .form "->" [dom.tree, cod.tree] := by
  cases cod with
  | fn second last => exact absurd rfl (other second last)
  | _ => rfl

/-- A function type whose result is one shares the arrow of the result. -/
theorem tree_fn_fn (dom : Ty) {second last : Ty} {keyword : Text.Tree} {parts : List Text.Tree}
    (inner : (fn second last).tree = .group (keyword :: parts)) :
    (fn dom (fn second last)).tree = .group (keyword :: dom.tree :: parts) := by
  rw [tree]
  exact inner

/-- A type that is no function is written without an arrow. -/
theorem taking_written_of_other (arg : TypeExpr) {cod : Ty}
    (other : ∀ second last, cod ≠ fn second last) :
    TypeExpr.taking arg cod.written = .arrow .nowhere [arg] cod.written := by
  cases cod with
  | fn second last => exact absurd rfl (other second last)
  | _ => rfl

/-- **The printed form of a type is that of the written type.** -/
theorem tree_eq (ty : Ty) : ty.tree = ty.written.sexp.tree := by
  induction ty with
  | nat => rfl
  | atom => rfl
  | fn dom cod domTree codTree =>
    by_cases merges : ∃ second last, cod = fn second last
    · obtain ⟨second, last, rfl⟩ := merges
      obtain ⟨args, result, shape⟩ := TypeExpr.exists_taking second.written last.written
      have written : (fn second last).written = .arrow .nowhere args result := shape
      rw [written] at codTree
      rw [tree_fn_fn dom codTree, domTree, Ty.written, written]
      rfl
    · have other : ∀ second last, cod ≠ fn second last :=
        fun second last same => merges ⟨second, last, same⟩
      rw [tree_fn_of_other dom other, domTree, codTree, Ty.written,
        taking_written_of_other _ other]
      rfl
  | pair fst snd fstTree sndTree =>
    rw [tree, fstTree, sndTree]
    rfl
  | list elem elemTree =>
    rw [tree, elemTree]
    rfl

end Ty

/-! ### Terms -/

namespace Expr

/-- A function with one more parameter in front. -/
def binding (binder : Binder) : Expr → Expr
  | lam _ binders body => lam .nowhere (binder :: binders) body
  | body => lam .nowhere [binder] body

/-- An application with one more argument at the end. -/
def applying (arg : Expr) : Expr → Expr
  | app _ fn args => app .nowhere fn (args ++ [arg])
  | fn => app .nowhere fn [arg]

/-- What is no function gets a parameter list of its own. -/
theorem binding_of_other (binder : Binder) {body : Expr}
    (other : ∀ span binders inner, body ≠ lam span binders inner) :
    binding binder body = lam .nowhere [binder] body := by
  cases body with
  | lam span binders inner => exact absurd rfl (other span binders inner)
  | _ => rfl

/-- What is no application becomes the function of one. -/
theorem applying_of_other (arg : Expr) {fn : Expr}
    (other : ∀ span head args, fn ≠ app span head args) :
    applying arg fn = app .nowhere fn [arg] := by
  cases fn with
  | app span head args => exact absurd rfl (other span head args)
  | _ => rfl

theorem exists_binding (binder : Binder) (body : Expr) :
    ∃ binders inner, binding binder body = lam .nowhere binders inner := by
  cases body <;> exact ⟨_, _, rfl⟩

theorem exists_applying (arg fn : Expr) :
    ∃ head args, applying arg fn = app .nowhere head args := by
  cases fn <;> exact ⟨_, _, rfl⟩

theorem Clear.binding {binder : Binder} {body : Expr} (named : IsName binder.name)
    (clear : body.Clear) : (binding binder body).Clear := by
  by_cases merges : ∃ span binders inner, body = Expr.lam span binders inner
  · obtain ⟨span, binders, inner, rfl⟩ := merges
    cases clear with
    | lam _ allNamed innerClear =>
      exact .lam (List.cons_ne_nil _ _) (List.forall_mem_cons.mpr ⟨named, allNamed⟩) innerClear
  · rw [binding_of_other binder fun span binders inner same => merges ⟨span, binders, inner, same⟩]
    exact .lam (List.cons_ne_nil _ _) (List.forall_mem_singleton.mpr named) clear

theorem Clear.applying {arg fn : Expr} (other : fn.sexp.keyword? = none) (argClear : arg.Clear)
    (clear : fn.Clear) : (applying arg fn).Clear := by
  by_cases merges : ∃ span head args, fn = Expr.app span head args
  · obtain ⟨span, head, args, rfl⟩ := merges
    cases clear with
    | app headOther _ headClear argsClear =>
      refine .app headOther (List.append_ne_nil_of_right_ne_nil _ (List.cons_ne_nil _ _)) headClear ?_
      exact List.forall_mem_append.mpr ⟨argsClear, List.forall_mem_singleton.mpr argClear⟩
  · rw [applying_of_other arg fun span head args same => merges ⟨span, head, args, same⟩]
    exact .app other (List.cons_ne_nil _ _) clear (List.forall_mem_singleton.mpr argClear)

end Expr

namespace Term

/-- **The expression that is printed for a term.** -/
def written (names : List String) : Term → Expr
  | var index => .var .nowhere (nameOf names index)
  | lam _ body =>
    .binding ⟨freshName names, .nowhere⟩ (body.written (freshName names :: names))
  | app fn arg => .applying (arg.written names) (fn.written names)
  | atom name => .atom .nowhere name
  | zero => .zero .nowhere
  | succ pred =>
    match pred.numeralValue? with
    | some value => .number .nowhere (value + 1)
    | none => .add1 .nowhere (pred.written names)
  | recNat _ target base step =>
    .recNat .nowhere (target.written names) (base.written names) (step.written names)
  | pair fst snd => .pair .nowhere (fst.written names) (snd.written names)
  | car operand => .car .nowhere (operand.written names)
  | cdr operand => .cdr .nowhere (operand.written names)
  | nil _ => .nil .nowhere
  | cons head tail => .cons .nowhere (head.written names) (tail.written names)
  | recList _ target base step =>
    .recList .nowhere (target.written names) (base.written names) (step.written names)
  | ann ty body => .the .nowhere ty.written (body.written names)

/-- The atoms of a term. -/
def atoms : Term → List String
  | atom name => [name]
  | var _ | zero | nil _ => []
  | lam _ body | succ body | car body | cdr body | ann _ body => body.atoms
  | app first second | pair first second | cons first second => first.atoms ++ second.atoms
  | recNat _ target base step | recList _ target base step =>
    target.atoms ++ base.atoms ++ step.atoms

variable {names : List String}

/-- Only functions are written as functions. -/
theorem written_ne_lam {term : Term} (other : ∀ dom body, term ≠ lam dom body) (span : Span)
    (binders : List Binder) (inner : Expr) : term.written names ≠ .lam span binders inner := by
  intro same
  cases term with
  | lam dom body => exact other dom body rfl
  | app fn arg =>
    obtain ⟨head, args, shape⟩ := Expr.exists_applying (arg.written names) (fn.written names)
    rw [written, shape] at same
    cases same
  | succ pred =>
    rw [written] at same
    split at same <;> cases same
  | _ => cases same

/-- Only applications are written as applications. -/
theorem written_ne_app {term : Term} (other : ∀ fn arg, term ≠ app fn arg) (span : Span)
    (head : Expr) (args : List Expr) : term.written names ≠ .app span head args := by
  intro same
  cases term with
  | app fn arg => exact other fn arg rfl
  | lam dom body =>
    obtain ⟨binders, inner, shape⟩ := Expr.exists_binding ⟨freshName names, .nowhere⟩
      (body.written (freshName names :: names))
    rw [written, shape] at same
    cases same
  | succ pred =>
    rw [written] at same
    split at same <;> cases same
  | _ => cases same

/-! ### What is printed -/

theorem tree_lam_of_other (dom : Ty) {body : Term} (other : ∀ dom inner, body ≠ lam dom inner) :
    (lam dom body).tree names = .form "lambda"
      [.group [.word (freshName names)], body.tree (freshName names :: names)] := by
  cases body with
  | lam second inner => exact absurd rfl (other second inner)
  | _ => rfl

theorem tree_lam_lam (dom : Ty) {second : Ty} {body : Term} {keyword inner : Text.Tree}
    {binders : List Text.Tree} (nested : (lam second body).tree (freshName names :: names) =
      .group [keyword, .group binders, inner]) :
    (lam dom (lam second body)).tree names =
      .group [keyword, .group (.word (freshName names) :: binders), inner] := by
  rw [tree]
  exact nested

theorem tree_app_of_other {fn : Term} (arg : Term) (other : ∀ head first, fn ≠ app head first) :
    (app fn arg).tree names = .group [fn.tree names, arg.tree names] := by
  cases fn with
  | app head first => exact absurd rfl (other head first)
  | _ => rfl

theorem tree_app_app {head first : Term} (arg : Term) {items : List Text.Tree}
    (nested : (app head first).tree names = .group items) :
    (app (app head first) arg).tree names = .group (items ++ [arg.tree names]) := by
  rw [tree]
  exact nested

/-- **The printed form of a term is that of the written expression.** -/
theorem tree_eq (term : Term) (names : List String) :
    term.tree names = (term.written names).sexp.tree := by
  induction term generalizing names with
  | lam dom body bodyTree =>
    by_cases merges : ∃ second inner, body = lam second inner
    · obtain ⟨second, inner, rfl⟩ := merges
      obtain ⟨binders, last, shape⟩ := Expr.exists_binding
        ⟨freshName (freshName names :: names), .nowhere⟩
        (inner.written (freshName (freshName names :: names) :: freshName names :: names))
      have written : (lam second inner).written (freshName names :: names) =
          .lam .nowhere binders last := shape
      have nested := bodyTree (freshName names :: names)
      rw [written] at nested
      rw [tree_lam_lam dom nested, Term.written, written]
      rfl
    · have other : ∀ second inner, body ≠ lam second inner :=
        fun second inner same => merges ⟨second, inner, same⟩
      rw [tree_lam_of_other dom other, bodyTree, Term.written,
        Expr.binding_of_other _ (written_ne_lam other)]
      rfl
  | app fn arg fnTree argTree =>
    by_cases merges : ∃ head first, fn = app head first
    · obtain ⟨head, first, rfl⟩ := merges
      obtain ⟨last, args, shape⟩ := Expr.exists_applying (first.written names) (head.written names)
      have written : (app head first).written names = .app .nowhere last args := shape
      have nested := fnTree names
      rw [written] at nested
      rw [tree_app_app arg nested, argTree, Term.written, written, Expr.applying, Expr.sexp,
        Sexp.tree, Sexp.trees_eq_map, Sexp.trees_eq_map, Expr.sexps_eq_map, Expr.sexps_eq_map,
        List.map_append, List.map_cons, List.map_cons, List.map_append]
      rfl
    · have other : ∀ head first, fn ≠ app head first :=
        fun head first same => merges ⟨head, first, same⟩
      rw [tree_app_of_other arg other, fnTree, argTree, Term.written,
        Expr.applying_of_other _ (written_ne_app other)]
      rfl
  | var index => rfl
  | atom name => rfl
  | zero => rfl
  | succ pred predTree =>
    rw [tree, written]
    cases pred.numeralValue? with
    | some value => rfl
    | none =>
      dsimp only
      rw [predTree]
      rfl
  | recNat motive target base step targetTree baseTree stepTree =>
    rw [tree, targetTree, baseTree, stepTree]
    rfl
  | pair fst snd fstTree sndTree =>
    rw [tree, fstTree, sndTree]
    rfl
  | car operand operandTree =>
    rw [tree, operandTree]
    rfl
  | cdr operand operandTree =>
    rw [tree, operandTree]
    rfl
  | nil elem => rfl
  | cons head tail headTree tailTree =>
    rw [tree, headTree, tailTree]
    rfl
  | recList motive target base step targetTree baseTree stepTree =>
    rw [tree, targetTree, baseTree, stepTree]
    rfl
  | ann ty body bodyTree =>
    rw [tree, ty.tree_eq, bodyTree]
    rfl

/-! ### What can be parsed back -/

/-- The name of a variable is one of those in scope. -/
theorem nameOf_mem {index : Nat} (bound : index < names.length) : nameOf names index ∈ names := by
  rw [nameOf, List.getElem?_eq_getElem bound]
  exact List.getElem_mem bound

/-- A function is not written as a keyword. -/
theorem keyword?_written {ctx : Context} {term : Term} {dom cod : Ty}
    (typed : term.HasType ctx (.fn dom cod)) (sized : names.length = ctx.length)
    (named : ∀ name ∈ names, IsName name) : (term.written names).sexp.keyword? = none := by
  cases typed with
  | var found =>
    have bound := (List.getElem?_eq_some_iff.mp found).1
    exact (named _ (nameOf_mem (sized ▸ bound))).2
  | @lam _ _ _ body _ =>
    obtain ⟨binders, inner, shape⟩ := Expr.exists_binding ⟨freshName names, .nowhere⟩
      (body.written (freshName names :: names))
    rw [written, shape]
    rfl
  | @app _ _ _ fn arg _ _ =>
    obtain ⟨head, args, shape⟩ := Expr.exists_applying (arg.written names) (fn.written names)
    rw [written, shape]
    rfl
  | _ => rfl

/-- **What is printed for a term can be parsed back.** -/
theorem HasType.written_clear {ctx : Context} {term : Term} {ty : Ty} (typed : term.HasType ctx ty)
    (names : List String) (sized : names.length = ctx.length)
    (named : ∀ name ∈ names, IsName name) (words : ∀ name ∈ term.atoms, Token.IsWord name) :
    (term.written names).Clear := by
  induction typed generalizing names with
  | var found =>
    have bound := (List.getElem?_eq_some_iff.mp found).1
    exact .var (named _ (nameOf_mem (sized ▸ bound)))
  | lam _ body =>
    have fresh := isName_freshName names
    exact .binding fresh (body _ (congrArg (· + 1) sized) (List.forall_mem_cons.mpr ⟨fresh, named⟩)
      words)
  | app fnTyped _ fn arg =>
    obtain ⟨fnWords, argWords⟩ := List.forall_mem_append.mp words
    exact .applying (keyword?_written fnTyped sized named) (arg names sized named argWords)
      (fn names sized named fnWords)
  | atom => exact .atom (words _ (List.mem_singleton_self _))
  | zero => exact .zero
  | @succ _ pred _ body =>
    rw [written]
    cases pred.numeralValue? with
    | some value => exact .number
    | none => exact .add1 (body names sized named words)
  | recNat _ _ _ target base step =>
    obtain ⟨firstWords, stepWords⟩ := List.forall_mem_append.mp words
    obtain ⟨targetWords, baseWords⟩ := List.forall_mem_append.mp firstWords
    exact .recNat (target names sized named targetWords) (base names sized named baseWords)
      (step names sized named stepWords)
  | pair _ _ fst snd =>
    obtain ⟨fstWords, sndWords⟩ := List.forall_mem_append.mp words
    exact .pair (fst names sized named fstWords) (snd names sized named sndWords)
  | car _ operand => exact .car (operand names sized named words)
  | cdr _ operand => exact .cdr (operand names sized named words)
  | nil => exact .nil
  | cons _ _ head tail =>
    obtain ⟨headWords, tailWords⟩ := List.forall_mem_append.mp words
    exact .cons (head names sized named headWords) (tail names sized named tailWords)
  | recList _ _ _ target base step =>
    obtain ⟨firstWords, stepWords⟩ := List.forall_mem_append.mp words
    obtain ⟨targetWords, baseWords⟩ := List.forall_mem_append.mp firstWords
    exact .recList (target names sized named targetWords) (base names sized named baseWords)
      (step names sized named stepWords)
  | ann _ body => exact .the (Ty.written_full _) (body names sized named words)

end Term

end EtaLong
