/-
**Mismatches show different types.**

What a term is refused for is really wrong with it, as it is for expressions: a type that was found
is not the one that was wanted, or not of the kind that was wanted. Since types are read back from
their texts, a message that sets two types against each other shows two texts.

* `Typing.Error.Genuine`, `Term.infer_genuine`: what is wrong with a term that is refused;
* `Typing.Error.TellsApart`, `Elaboration.Error.TellsApart`: messages that show two texts;
* `printed_types_read_back`: types survive printing, and mismatches show two texts.
-/

import EtaLong.Proofs.Elaboration.Errors
import EtaLong.Proofs.Ty

namespace EtaLong

/-! ### Terms -/

namespace Typing

/-- **What is wrong with a term** when an error is reported. -/
def Error.Genuine : Error → Prop
  | .unbound index length => length ≤ index
  | .mismatch _ expected actual => actual ≠ expected
  | .notFunction actual => ∀ dom cod, actual ≠ .fn dom cod
  | .notPair _ actual => ∀ fst snd, actual ≠ .pair fst snd
  | .tailNotList actual => ∀ elem, actual ≠ .list elem
  | .targetNotList actual => ∀ elem, actual ≠ .list elem

theorem require_genuine (rule : String) (expected actual : Ty) :
    FailsOnly Error.Genuine (require rule expected actual) := by
  unfold require
  by_cases same : actual = expected
  · rw [if_pos same]
    exact .ok ()
  · rw [if_neg same]
    exact .error same

/-- An operand that must have a type, and what comes after it. -/
theorem operand_genuine {rule : String} {expected : Ty} {operand rest : Except Error Ty}
    (only : FailsOnly Error.Genuine operand) (after : FailsOnly Error.Genuine rest) :
    FailsOnly Error.Genuine (do require rule expected (← operand); rest) :=
  only.bind fun actual => (require_genuine rule expected actual).bind fun _ => after

/-- Both of what inference finds fail with genuine errors. -/
def Inference.Genuine (found : Inference) : Prop :=
  FailsOnly Error.Genuine found.whole ∧ FailsOnly Error.Genuine found.rest

theorem Inference.plain_genuine {found : Except Error Ty} (only : FailsOnly Error.Genuine found) :
    (Inference.plain found).Genuine :=
  ⟨only, only⟩

end Typing

open Typing

/-- What inference finds fails with genuine errors. -/
theorem Term.inference_genuine (ctx : Context) (term : Term) : (term.inference ctx).Genuine := by
  induction term generalizing ctx with
  | var index =>
    refine Inference.plain_genuine ?_
    cases found : ctx[index]? with
    | some ty => exact .ok ty
    | none => exact .error (List.getElem?_eq_none_iff.mp found)
  | lam dom body ih => exact Inference.plain_genuine ((ih (dom :: ctx)).1.bind fun _ => .ok _)
  | app fn arg fnIH argIH =>
    refine Inference.plain_genuine ((fnIH ctx).1.bind fun fnTy => ?_)
    cases fnTy with
    | fn dom cod => exact operand_genuine (argIH ctx).1 (.ok cod)
    | _ => exact .error (by simp [Error.Genuine])
  | atom name => exact Inference.plain_genuine (.ok _)
  | zero => exact Inference.plain_genuine (.ok _)
  | succ pred ih => exact Inference.plain_genuine (operand_genuine (ih ctx).1 (.ok _))
  | recNat motive target base step targetIH baseIH stepIH =>
    refine Inference.plain_genuine (operand_genuine (targetIH ctx).1 ?_)
    exact operand_genuine (baseIH ctx).1 (operand_genuine (stepIH ctx).1 (.ok motive))
  | pair fst snd fstIH sndIH =>
    exact Inference.plain_genuine ((fstIH ctx).1.bind fun _ => (sndIH ctx).1.bind fun _ => .ok _)
  | car operand ih =>
    refine Inference.plain_genuine ((ih ctx).1.bind fun operandTy => ?_)
    cases operandTy with
    | pair fst snd => exact .ok fst
    | _ => exact .error (by simp [Error.Genuine])
  | cdr operand ih =>
    refine Inference.plain_genuine ((ih ctx).1.bind fun operandTy => ?_)
    cases operandTy with
    | pair fst snd => exact .ok snd
    | _ => exact .error (by simp [Error.Genuine])
  | nil elem => exact Inference.plain_genuine (.ok _)
  | cons head tail headIH tailIH =>
    refine ⟨(tailIH ctx).2.bind fun restTy => ?_, (tailIH ctx).2⟩
    cases restTy with
    | list elem => exact operand_genuine (headIH ctx).1 (tailIH ctx).1
    | _ => exact .error (by simp [Error.Genuine])
  | recList motive target base step targetIH baseIH stepIH =>
    refine Inference.plain_genuine ((targetIH ctx).1.bind fun targetTy => ?_)
    cases targetTy with
    | list elem =>
      exact operand_genuine (baseIH ctx).1 (operand_genuine (stepIH ctx).1 (.ok motive))
    | _ => exact .error (by simp [Error.Genuine])
  | ann ty body ih => exact Inference.plain_genuine (operand_genuine (ih ctx).1 (.ok ty))

/-- **Inference reports genuine errors only.** -/
theorem Term.infer_genuine (ctx : Context) (term : Term) :
    FailsOnly Error.Genuine (term.infer ctx) :=
  (term.inference_genuine ctx).1

/-- A check reports genuine errors only. -/
theorem Term.check_genuine (ctx : Context) (term : Term) (expected : Ty) (rule : String) :
    FailsOnly Error.Genuine (term.check ctx expected rule) :=
  (term.infer_genuine ctx).bind fun actual => require_genuine rule expected actual

/-! ### Messages -/

/-- **An error that tells types apart**: if its message sets two types against each other, their
texts are different. -/
def Typing.Error.TellsApart (error : Typing.Error) : Prop :=
  ∀ rule expected actual, error = .mismatch rule expected actual →
    error.report.message = "Type mismatch: expected " ++ expected.text ++ ", got " ++ actual.text ∧
      expected.text ≠ actual.text

/-- **An error that tells what was wanted from what was found**: the message shows two different
texts, whether they are types or words for a kind of type. -/
def Elaboration.Error.TellsApart (error : Elaboration.Error) : Prop :=
  ∀ rule span wanted found, error = .mismatch rule span wanted found →
    error.message = "Expected " ++ wanted.text ++ ", got " ++ found.text ∧
      wanted.text ≠ found.text

/-- Different types have different texts. -/
theorem Typing.Error.Genuine.tellsApart {error : Typing.Error} (genuine : error.Genuine) :
    error.TellsApart := by
  rintro rule expected actual rfl
  exact ⟨rfl, fun same => genuine (Ty.text_injective same).symm⟩

/-- Different types have different texts, and no type is called as a kind of type is. -/
theorem Elaboration.Error.Genuine.tellsApart {error : Elaboration.Error} (genuine : error.Genuine) :
    error.TellsApart := by
  rintro rule span wanted found rfl
  refine ⟨rfl, ?_⟩
  cases wanted with
  | type expected =>
    cases found with
    | type actual => exact fun same => genuine (Ty.text_injective same).symm
    | _ => exact expected.text_ne_of_head? (by decide +kernel)
  | _ =>
    cases found with
    | type actual => exact (actual.text_ne_of_head? (by decide +kernel)).symm
    | _ => exact genuine.elim

/-- **Types survive printing.** The text of a type is parsed to an expression that denotes the type,
so types with one text are one type; and a message about a mismatch, in a term or in an expression,
does not show one text twice. -/
theorem printed_types_read_back :
    (∀ ty : Ty, ∃ expr, TypeExpr.parse ty.text = .ok expr ∧ expr.toTy = ty) ∧
    (∀ ty other : Ty, ty.text = other.text → ty = other) ∧
    (∀ (ctx : Context) (term : Term), FailsOnly Typing.Error.TellsApart (term.infer ctx) ∧
      ∀ expected rule, FailsOnly Typing.Error.TellsApart (term.check ctx expected rule)) ∧
    (∀ (scope : Scope) (expr : Expr), FailsOnly Elaboration.Error.TellsApart (expr.infer scope) ∧
      ∀ expected rule, FailsOnly Elaboration.Error.TellsApart (expr.check scope expected rule)) := by
  refine ⟨Ty.exists_parse_text, fun ty other => Ty.text_injective, fun ctx term => ⟨?_, ?_⟩,
    fun scope expr => ⟨?_, ?_⟩⟩
  · exact (term.infer_genuine ctx).mono fun _ genuine => genuine.tellsApart
  · intro expected rule
    exact (term.check_genuine ctx expected rule).mono fun _ genuine => genuine.tellsApart
  · exact (expr.elaborate_genuine scope .any).mono fun _ genuine => genuine.tellsApart
  · intro expected rule
    have only := Expr.check_failsOnly (expr.elaborate_genuine scope (.exactly expected rule))
    exact only.mono fun _ genuine => genuine.tellsApart

/-- Two types that differ in their brackets alone, wanted and found of a variable in a term and in an
expression. -/
theorem printed_types_read_back_at_brackets :
    ∃ (nested flat : Ty) (expr : TypeExpr) (error : Typing.Error) (error' : Elaboration.Error),
      TypeExpr.parse "(-> (-> Nat Nat) Nat)" = .ok expr ∧ expr.toTy = nested ∧
      nested ≠ flat ∧ nested.text ≠ flat.text ∧
      (Term.ann nested (.var 0)).infer [flat] = .error error ∧ error.TellsApart ∧
      error.report.message =
        "Type mismatch: expected (-> (-> Nat Nat) Nat), got (-> Nat Nat Nat)" ∧
      (Expr.var ⟨0, 1⟩ "f").check [("f", flat)] nested "the" = .error error' ∧
      error'.TellsApart ∧ error'.message = "Expected (-> (-> Nat Nat) Nat), got (-> Nat Nat Nat)" := by
  let nested : Ty := .fn (.fn .nat .nat) .nat
  let flat : Ty := .fn .nat (.fn .nat .nat)
  have differ : nested ≠ flat := by decide
  obtain ⟨reads, injective, terms, exprs⟩ := printed_types_read_back
  obtain ⟨expr, parsed, denotes⟩ := reads nested
  have spelled : nested.text = "(-> (-> Nat Nat) Nat)" := by decide +kernel
  rw [spelled] at parsed
  exact ⟨nested, flat, expr, .mismatch "the" nested flat,
    .mismatch "the" ⟨0, 1⟩ (.type nested) (.type flat), parsed, denotes, differ,
    fun same => differ (injective _ _ same), rfl, (terms [flat] (.ann nested (.var 0))).1 _ rfl,
    by decide +kernel, rfl, (exprs [("f", flat)] (.var ⟨0, 1⟩ "f")).2 nested "the" _ rfl,
    by decide +kernel⟩

end EtaLong
