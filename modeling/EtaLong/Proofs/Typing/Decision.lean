/-
**Inference decides typing.**

The typing rules treat one constructor at a time. Inference goes along a whole row of successors or
list cells at once: what the row ends in comes first, and then the heads of the cells from the first
on, all against the element type that was found there. It accepts a row exactly when each of its
constructors is typed by its own rule, so it decides the rules for every term.

* `Term.infer_succs`, `Term.infer_cells`: rows are inferred in one go;
* `Term.check_eq_ok_iff`: checking a term against a type;
* `Typing.Error.kind_report`: what is reported otherwise;
* `inference_decides_typing`: inference and checking against the rules.
-/

import EtaLong.Proofs.Typing

namespace EtaLong

open Typing

namespace Term

variable {ctx : Context}

/-! ### Rows of constructors -/

/-- **A row of successors in one go**: only what it ends in is looked at. -/
theorem infer_succs (ctx : Context) (count : Nat) (inner : Term) :
    (succs (count + 1) inner).infer ctx = (do
      inner.check ctx .nat "add1"
      return .nat) := by
  induction count with
  | zero =>
    unfold check infer
    simp [succs, Nat.repeat, inference, Inference.plain]
  | succ count ih =>
    have outermost : (succs (count + 1 + 1) inner).infer ctx = (do
        require "add1" .nat (← (succs (count + 1) inner).infer ctx)
        return .nat) := rfl
    rw [outermost, ih]
    cases inner.check ctx .nat "add1" <;> rfl

/-- A term that is no list cell. -/
def EndsRow (term : Term) : Prop := ∀ head tail, term ≠ cons head tail

/-- **A row of cells in one go**: what it ends in must be a list, and then each of the heads, from
the first on, must be an element of it. -/
def inferRow (ctx : Context) (heads : List Term) (last : Term) : Except Typing.Error Ty := do
  match ← last.infer ctx with
  | .list elem =>
    forM heads fun head => head.check ctx elem "::"
    return .list elem
  | other => throw (.tailNotList other)

/-- What ends a row follows itself. -/
theorem EndsRow.rest_eq {last : Term} (ends : last.EndsRow) :
    (last.inference ctx).rest = last.infer ctx := by
  cases last with
  | cons head tail => exact absurd rfl (ends head tail)
  | _ => rfl

/-- What follows a row is what it ends in, whatever the heads are. -/
theorem EndsRow.rest_row {last : Term} (ends : last.EndsRow) (heads : List Term) :
    ((heads.foldr cons last).inference ctx).rest = last.infer ctx := by
  induction heads with
  | nil => exact ends.rest_eq
  | cons head heads ih => exact ih

/-- One more cell in front of a list. -/
theorem infer_cons_of_list {head tail : Term} {elem : Ty}
    (follows : (tail.inference ctx).rest = .ok (.list elem)) :
    (cons head tail).infer ctx = (do
      head.check ctx elem "::"
      tail.infer ctx) := by
  unfold check infer
  simp only [inference, follows]
  cases (head.inference ctx).whole <;> rfl

/-- The heads in front of a list are checked from the first on. -/
theorem infer_row_of_list {last : Term} {elem : Ty} (ends : last.EndsRow)
    (found : last.infer ctx = .ok (.list elem)) (heads : List Term) :
    (heads.foldr cons last).infer ctx = (do
      forM heads fun head => head.check ctx elem "::"
      return .list elem) := by
  induction heads with
  | nil => exact found
  | cons head heads ih =>
    have follows := (ends.rest_row heads).trans found
    rw [List.foldr_cons, infer_cons_of_list follows, ih, List.forM_cons, bind_assoc]

/-- **A row of cells is inferred in one go.** -/
theorem infer_cells {heads : List Term} {last : Term} (nonempty : heads ≠ []) (ends : last.EndsRow) :
    (heads.foldr cons last).infer ctx = inferRow ctx heads last := by
  obtain ⟨first, others, rfl⟩ := List.exists_cons_of_ne_nil nonempty
  have follows : ((others.foldr cons last).inference ctx).rest = last.infer ctx :=
    ends.rest_row others
  cases found : last.infer ctx with
  | error error =>
    rw [inferRow, found]
    unfold infer
    simp only [List.foldr_cons, inference, follows, found]
    rfl
  | ok ty =>
    cases ty with
    | list elem =>
      rw [infer_row_of_list ends found, inferRow, found]
      rfl
    | _ =>
      rw [inferRow, found]
      unfold infer
      simp only [List.foldr_cons, inference, follows, found]
      rfl

/-! ### The decision -/

/-- **A term is checked against the types that the rules give it.** -/
theorem check_eq_ok_iff {term : Term} {expected : Ty} {rule : String} :
    term.check ctx expected rule = .ok () ↔ term.HasType ctx expected := by
  unfold check
  rw [bind_eq_ok]
  constructor
  · rintro ⟨actual, found, fits⟩
    rw [require_eq_ok] at fits
    rw [← fits]
    exact .of_infer_eq found
  · intro typed
    exact ⟨expected, typed.infer_eq, require_eq_ok.mpr rfl⟩

end Term

/-- Only a wrong type and an unbound variable are reported. -/
theorem Typing.Error.kind_report (error : Typing.Error) :
    error.report.kind = .mismatch ∨ error.report.kind = .unbound := by
  cases error with
  | unbound index length => exact .inr rfl
  | _ => exact .inl rfl

/-- **Inference decides the typing rules.** In every context, the type that is inferred for a term
is the one that the rules give it, which is the only one; where they give it none, a wrong type or
an unbound variable is reported and nothing else; and a check succeeds at the type that the rules
give and at no other. A row of successors or of cells is accepted in one go, from what it ends in
and then its heads, exactly as its constructors are one after another. -/
theorem inference_decides_typing (ctx : Context) (term : Term) :
    (∀ ty, term.infer ctx = .ok ty ↔ term.HasType ctx ty) ∧
    (∀ ty other, term.HasType ctx ty → term.HasType ctx other → ty = other) ∧
    ((∀ ty, ¬ term.HasType ctx ty) ↔ ∃ error, term.infer ctx = .error error ∧
      (error.report.kind = .mismatch ∨ error.report.kind = .unbound)) ∧
    (∀ expected rule, term.check ctx expected rule = .ok () ↔ term.HasType ctx expected) ∧
    (∀ count inner, term = .succs (count + 1) inner →
      term.infer ctx = (do inner.check ctx .nat "add1"; return .nat)) ∧
    (∀ heads last, term = heads.foldr .cons last → heads ≠ [] → last.EndsRow →
      term.infer ctx = Term.inferRow ctx heads last) := by
  refine ⟨fun ty => Term.infer_eq_ok_iff, fun ty other => Term.HasType.unique, ⟨?_, ?_⟩,
    fun expected rule => Term.check_eq_ok_iff, ?_, ?_⟩
  · intro untyped
    cases found : term.infer ctx with
    | ok ty => exact absurd (.of_infer_eq found) (untyped ty)
    | error error => exact ⟨error, rfl, error.kind_report⟩
  · rintro ⟨error, refused, _⟩ ty typed
    rw [typed.infer_eq] at refused
    cases refused
  · rintro count inner rfl
    exact Term.infer_succs ctx count inner
  · rintro heads last rfl nonempty ends
    exact Term.infer_cells nonempty ends

/-- Lists in a list that ends in a variable, one of which holds a row of successors; and the same
cells in the wrong order. -/
theorem inference_decides_typing_at_nested_rows :
    ∃ (ctx : Context) (rows mixed : Term) (error : Typing.Error),
      rows.HasType ctx (.list (.list .nat)) ∧
      rows.infer ctx = .ok (.list (.list .nat)) ∧
      rows.check ctx (.list (.list .nat)) "the" = .ok () ∧
      (∀ ty, ¬ mixed.HasType ctx ty) ∧ mixed.infer ctx = .error error ∧
      error.report.kind = .mismatch := by
  let inner : Term := .cons (.succs 3 (.var 1)) (.nil .nat)
  let rows : Term := .cons inner (.cons (.nil .nat) (.var 0))
  let mixed : Term := .cons (.nil .nat) (.cons (.succs 3 (.var 1)) (.var 0))
  let ctx : Context := [.list (.list .nat), .nat]
  obtain ⟨decides, _, _, checks, _, _⟩ := inference_decides_typing ctx rows
  obtain ⟨_, _, refuses, _, _, _⟩ := inference_decides_typing ctx mixed
  have typed : rows.HasType ctx (.list (.list .nat)) := (decides _).mp rfl
  have refused : mixed.infer ctx = .error (.mismatch "::" (.list .nat) .nat) := rfl
  exact ⟨ctx, rows, mixed, _, typed, (decides _).mpr typed, (checks _ "the").mpr typed,
    refuses.mpr ⟨_, refused, .inl rfl⟩, refused, rfl⟩

end EtaLong
