/-
**The atoms of programs are words.**

An atom is written as a quote with a word behind it, so its name is a word. Parsing finds atoms
nowhere else, and neither expanding shorthand nor elaboration makes any: whatever holds of the
quoted words of a source holds of the atoms of its expressions and of their terms.

* `Sexp.isWord_of_readAll`: what is quoted in a source;
* `Expr.AtomsIn`: what holds of all atoms of an expression;
* `Expr.atomsIn_of_ofSexp`, `Expr.AtomsIn.expand`: parsing and expanding;
* `Expr.AtomsIn.elaborate`: elaboration.
-/

import EtaLong.Elaboration
import EtaLong.Proofs.Expr.Parser
import EtaLong.Proofs.Sexp.Printed
import EtaLong.Proofs.Value.Atoms

namespace EtaLong

/-! ### Quoted words -/

/-- Every token of a text is spelled in it. -/
theorem Token.Lexes.exists_spells {follow text : List Char} {offset : Nat} {tokens : List Token}
    (lexes : Lexes follow offset text tokens) :
    ∀ token ∈ tokens, ∃ piece, Spells token.kind piece := by
  induction lexes with
  | done => exact List.forall_mem_nil _
  | blank _ _ ih => exact ih
  | comment _ _ _ ih => exact ih
  | @token offset kind piece text tokens spells _ _ ih =>
    exact List.forall_mem_cons.mpr ⟨⟨piece, spells⟩, ih⟩

/-- **What is quoted in a source is a word.** -/
theorem Sexp.isWord_of_readAll {source : String} {row : List Sexp}
    (read : Sexp.readAll source = .ok row) {span : Span} {name : String}
    (occurs : Sexp.Occurs (.quoted span name) row) :
    Token.IsWord name := by
  have lexes := Token.scanFrom_eq_iff.mp (Sexp.readAll_eq_ok_iff.mp read)
  obtain ⟨piece, spells⟩ := lexes.exists_spells _ (occurs.stretch.subset (.tail _ (.head _)))
  exact Token.isWord_of_spells spells

/-! ### Expressions -/

namespace Expr

/-- The name of an expression that is an atom. -/
def atomName? : Expr → Option String
  | atom _ name => some name
  | _ => none

/-- **All atoms of an expression are allowed.** -/
inductive AtomsIn (allowed : String → Prop) : Expr → Prop where
  | mk {expr : Expr} : (∀ name, expr.atomName? = some name → allowed name) →
      (∀ part ∈ expr.parts, AtomsIn allowed part) → AtomsIn allowed expr

variable {allowed : String → Prop}

theorem atomsIn_iff {expr : Expr} : expr.AtomsIn allowed ↔
    expr.Everywhere fun node => ∀ name, node.atomName? = some name → allowed name := by
  induction expr using parts_induction with
  | step expr ih =>
    rw [everywhere_iff]
    constructor
    · rintro ⟨own, inParts⟩
      exact ⟨own, fun part among => (ih part among).mp (inParts part among)⟩
    · rintro ⟨own, inParts⟩
      exact .mk own fun part among => (ih part among).mpr (inParts part among)

/-- No group is parsed to an atom. -/
theorem ofSexp_group (bracket : Bracket) (place : Span) (items : List Sexp) :
    EndsOnly (fun expr => expr.atomName? = none)
      (Expr.ofSexp (.group bracket place items)) := by
  unfold Expr.ofSexp
  rcases bracket with _ | _
  · rcases items with _ | ⟨head, operands⟩
    · exact .error _
    dsimp only
    split
    · split
      · exact .error _
      · exact .after fun _ => .after fun _ => .ok rfl
    · split
      · exact .after fun _ => .after fun _ => .ok rfl
      · exact .error _
    · split
      · exact .after fun _ => .after fun _ => .ok rfl
      · exact .error _
    · split
      · exact .after fun _ => .ok rfl
      · exact .error _
    · split
      · exact .after fun _ => .ok rfl
      · exact .error _
    · split
      · exact .after fun _ => .ok rfl
      · exact .error _
    · split
      · exact .after fun _ => .after fun _ => .ok rfl
      · exact .error _
    · split
      · exact .after fun _ => .after fun _ => .ok rfl
      · exact .error _
    · split
      · exact .after fun _ => .after fun _ => .after fun _ => .ok rfl
      · exact .error _
    · split
      · exact .after fun _ => .after fun _ => .after fun _ => .ok rfl
      · exact .error _
    · split
      · exact .after fun _ => .after fun _ => .ok rfl
      · exact .error _
    · exact .error _
  · exact .after fun _ => .ok rfl

/-- Only what is quoted is parsed to an atom. -/
theorem quoted_of_ofSexp {item : Sexp} {expr : Expr} {name : String}
    (parsed : Expr.ofSexp item = .ok expr) (isAtom : expr.atomName? = some name) :
    ∃ span, item = .quoted span name := by
  cases item with
  | symbol span word =>
    rw [Expr.ofSexp] at parsed
    split at parsed <;> cases parsed <;> cases isAtom
  | number span value =>
    cases parsed
    cases isAtom
  | quoted span word =>
    cases parsed
    cases isAtom
    exact ⟨span, rfl⟩
  | group bracket span items =>
    rw [ofSexp_group bracket span items expr parsed] at isAtom
    cases isAtom

/-- **Atoms are parsed from what is quoted.** -/
theorem atomsIn_of_ofSexp {item : Sexp} {expr : Expr} (parsed : Expr.ofSexp item = .ok expr)
    (quoted : ∀ span name, Sexp.Occurs (.quoted span name) [item] → allowed name) :
    expr.AtomsIn allowed := by
  refine atomsIn_iff.mpr (everywhere_of_ofSexp parsed fun origin occurs node made name isAtom => ?_)
  obtain ⟨span, rfl⟩ := quoted_of_ofSexp made isAtom
  exact quoted span name occurs

/-- **Expanding shorthand makes no atoms.** -/
theorem AtomsIn.expand {expr : Expr} (inExpr : expr.AtomsIn allowed) :
    expr.expand.AtomsIn allowed := by
  have other : ∀ node : Expr, node.atomName? = none →
      ∀ name, node.atomName? = some name → allowed name := by
    intro node none name found
    rw [none] at found
    cases found
  refine atomsIn_iff.mpr ((atomsIn_iff.mp inExpr).expand (fun _ _ _ => other _ rfl)
    (fun _ _ _ => other _ rfl) (fun _ => other _ rfl) fun node plain own => ?_)
  cases node with
  | tuple => exact absurd trivial plain
  | listLiteral => exact absurd trivial plain
  | _ => exact own

end Expr

/-! ### Terms -/

open Elaboration

variable {allowed : String → Prop}

theorem Term.atoms_lams (count : Nat) (ty : Ty) (body : Term) :
    (Term.lams count ty body).atoms = body.atoms := by
  fun_induction Term.lams count ty body with
  | case1 count dom cod body ih => exact ih
  | case2 => rfl

theorem Term.atoms_numeral (value : Nat) : (Term.numeral value).atoms = [] := by
  induction value with
  | zero => rfl
  | succ value ih => exact ih

/-- A found term is the one that settles a demand. -/
theorem Elaboration.Demand.settle_atomsIn (demand : Demand) (span : Span) {term : Term} {ty : Ty}
    (inTerm : term.AtomsIn allowed) :
    EndsOnly (fun found => found.1.AtomsIn allowed) (demand.settle span (term, ty)) := by
  cases demand with
  | any => exact .ok inTerm
  | exactly expected rule =>
    rw [Demand.settle]
    split
    · exact .ok inTerm
    · exact .error _

/-- Arguments one after another. -/
theorem Expr.elaborateArgs_atomsIn {scope : Scope} {args : List Expr}
    (each : ∀ arg ∈ args, ∀ demand, EndsOnly (fun found => found.1.AtomsIn allowed)
      (arg.elaborate scope demand)) {function : Term} (inFunction : function.AtomsIn allowed)
    (ty : Ty) :
    EndsOnly (fun found => found.1.AtomsIn allowed) (Expr.elaborateArgs scope function ty args) := by
  induction args generalizing function ty with
  | nil =>
    rw [Expr.elaborateArgs]
    exact .ok inFunction
  | cons arg args ih =>
    obtain ⟨first, rest⟩ := List.forall_mem_cons.mp each
    cases ty with
    | fn dom cod =>
      rw [Expr.elaborateArgs]
      refine .bind (first _) fun found inArgument => ?_
      exact ih rest (Term.atomsIn_app.mpr ⟨inFunction, inArgument⟩) cod
    | _ => exact .error _

/-- **Elaboration makes no atoms.** -/
theorem Expr.AtomsIn.elaborate {expr : Expr} (inExpr : expr.AtomsIn allowed) :
    ∀ (scope : Scope) (demand : Demand),
      EndsOnly (fun found => found.1.AtomsIn allowed) (expr.elaborate scope demand) := by
  induction inExpr with
  | @mk expr here _ each =>
    intro scope demand
    cases expr with
    | var span name =>
      rw [Expr.elaborate]
      split
      · exact demand.settle_atomsIn span (List.forall_mem_nil _)
      · exact .error _
    | app span fn args =>
      obtain ⟨eachFn, eachArg⟩ := List.forall_mem_cons.mp each
      rw [Expr.elaborate]
      refine .bind (eachFn scope .any) ?_
      rintro ⟨function, fnTy⟩ inFunction
      dsimp only
      split
      · exact .error _
      split
      · exact .error _
      have argsEnd :=
        Expr.elaborateArgs_atomsIn (fun arg among => eachArg arg among scope) inFunction fnTy
      exact .bind argsEnd fun applied inApplied => demand.settle_atomsIn span inApplied
    | the span ty body =>
      rw [Expr.elaborate]
      refine .bind (each body (.head _) scope _) fun found inBody => ?_
      exact demand.settle_atomsIn span inBody
    | atom span name =>
      rw [Expr.elaborate]
      exact demand.settle_atomsIn span (List.forall_mem_singleton.mpr (here name rfl))
    | zero span =>
      rw [Expr.elaborate]
      exact demand.settle_atomsIn span (List.forall_mem_nil _)
    | number span value =>
      rw [Expr.elaborate]
      refine demand.settle_atomsIn span ?_
      rw [Term.AtomsIn, Term.atoms_numeral]
      exact List.forall_mem_nil _
    | add1 span pred =>
      rw [Expr.elaborate]
      refine .bind (each pred (.head _) scope _) fun found inPred => ?_
      exact demand.settle_atomsIn span inPred
    | car span operand | cdr span operand =>
      rw [Expr.elaborate]
      refine .bind (each operand (.head _) scope _) ?_
      rintro ⟨term, ty⟩ inOperand
      cases ty with
      | pair fstTy sndTy => exact demand.settle_atomsIn span inOperand
      | _ => exact .error _
    | lam span binders body =>
      cases demand with
      | any => exact .error _
      | exactly expected rule =>
        rw [Expr.elaborate]
        split
        · exact .error _
        split
        · exact .error _
        split
        · exact .error _
        · refine .bind (each body (.head _) _ _) fun found inBody => .ok ?_
          rw [Term.AtomsIn, Term.atoms_lams]
          exact inBody
    | nil span =>
      cases demand with
      | any => exact .error _
      | exactly expected rule =>
        cases expected with
        | list elem =>
          rw [Expr.elaborate]
          exact .ok (List.forall_mem_nil _)
        | _ => exact .error _
    | pair span fst snd =>
      have eachFst := each fst (.head _) scope
      have eachSnd := each snd (.tail _ (.head _)) scope
      cases demand with
      | any =>
        rw [Expr.elaborate]
        refine .bind (eachFst _) fun first inFirst => .bind (eachSnd _) fun second inSecond => ?_
        exact .ok (Term.atomsIn_pair.mpr ⟨inFirst, inSecond⟩)
      | exactly expected rule =>
        cases expected with
        | pair fstTy sndTy =>
          rw [Expr.elaborate]
          refine .bind (eachFst _) fun first inFirst => .bind (eachSnd _) fun second inSecond => ?_
          exact .ok (Term.atomsIn_pair.mpr ⟨inFirst, inSecond⟩)
        | _ => exact .error _
    | cons span head tail =>
      have eachHead := each head (.head _) scope
      have eachTail := each tail (.tail _ (.head _)) scope
      cases demand with
      | any =>
        rw [Expr.elaborate]
        refine .bind (eachHead _) fun first inFirst => .bind (eachTail _) fun rest inRest => ?_
        exact .ok (Term.atomsIn_cons.mpr ⟨inFirst, inRest⟩)
      | exactly expected rule =>
        cases expected with
        | list elem =>
          rw [Expr.elaborate]
          refine .bind (eachHead _) fun first inFirst => .bind (eachTail _) fun rest inRest => ?_
          exact .ok (Term.atomsIn_cons.mpr ⟨inFirst, inRest⟩)
        | _ => exact .error _
    | recNat span target base step =>
      rw [Expr.elaborate]
      refine .bind (each target (.head _) scope _) fun counted inTarget => ?_
      refine .bind (each base (.tail _ (.head _)) scope _) fun start inBase => ?_
      refine .bind (each step (.tail _ (.tail _ (.head _))) scope _) fun next inStep => .ok ?_
      exact Term.atomsIn_recNat.mpr ⟨⟨inTarget, inBase⟩, inStep⟩
    | recList span target base step =>
      rw [Expr.elaborate]
      refine .bind (each target (.head _) scope _) ?_
      rintro ⟨items, ty⟩ inTarget
      cases ty with
      | list elem =>
        refine .bind (each base (.tail _ (.head _)) scope _) fun start inBase => ?_
        refine .bind (each step (.tail _ (.tail _ (.head _))) scope _) fun next inStep => .ok ?_
        exact Term.atomsIn_recList.mpr ⟨⟨inTarget, inBase⟩, inStep⟩
      | _ => exact .error _
    | tuple span first rest => exact .error _
    | listLiteral span items => exact .error _

end EtaLong
