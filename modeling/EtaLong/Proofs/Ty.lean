/-
**Types are read back from their text.**

A type is printed as an author would write it, with one arrow for a row of arguments. The arrow is
taken apart again when the text is parsed, and an argument that is itself a function stands in
brackets of its own, so the text denotes the type that was printed. Two types never share a text,
and no text of a type starts with a small letter, as the words do that stand for a kind of type.

* `TypeExpr.Full.exists_parse`: what is parsed from the printed form of a written type;
* `Ty.exists_parse_text`: what the text of a type denotes;
* `Ty.text_injective`: types with one text;
* `Ty.text_ne_of_head?`: texts that are no types.
-/

import EtaLong.Proofs.Term.Printed

namespace EtaLong

/-- **The printed form of a type is parsed back**, at new places. -/
theorem TypeExpr.Full.exists_parse {ty : TypeExpr} (full : ty.Full) :
    ∃ read, TypeExpr.parse ty.sexp.tree.text = .ok read ∧ read.unplaced = ty.unplaced := by
  obtain ⟨item, read, same⟩ := Sexp.exists_readAll_of_legible full.legible
  have only : Sexp.readOne ty.sexp.tree.text = .ok item := by
    rw [Sexp.readOne, read]
    rfl
  have parsed : bimap Form.Error.unplaced TypeExpr.unplaced (TypeExpr.ofSexp item) =
      .ok ty.unplaced := by
    rw [← TypeExpr.ofSexp_unplaced item, same, TypeExpr.ofSexp_unplaced ty.sexp, full.ofSexp]
    rfl
  obtain ⟨found, made, sameFound⟩ := bimap_eq_ok.mp parsed
  refine ⟨found, ?_, sameFound⟩
  rw [TypeExpr.parse, only]
  show (TypeExpr.ofSexp item).mapError _ = _
  rw [made]
  rfl

namespace Ty

/-- **The text of a type denotes the type.** -/
theorem exists_parse_text (ty : Ty) : ∃ expr, TypeExpr.parse ty.text = .ok expr ∧ expr.toTy = ty := by
  obtain ⟨read, parsed, same⟩ := ty.written_full.exists_parse
  rw [← tree_eq, ← text] at parsed
  refine ⟨read, parsed, ?_⟩
  calc read.toTy = read.unplaced.toTy := read.toTy_unplaced.symm
    _ = ty.written.unplaced.toTy := by rw [same]
    _ = ty.written.toTy := ty.written.toTy_unplaced
    _ = ty := ty.toTy_written

/-- **Types with one text are one type.** -/
theorem text_injective {ty other : Ty} (same : ty.text = other.text) : ty = other := by
  obtain ⟨expr, parsed, denotes⟩ := ty.exists_parse_text
  obtain ⟨expr', parsed', denotes'⟩ := other.exists_parse_text
  rw [same, parsed'] at parsed
  cases parsed
  exact denotes.symm.trans denotes'

/-- A type that is put together from others is printed in brackets. -/
theorem exists_tree_group (ty : Ty) (other : ty ≠ nat ∧ ty ≠ atom) :
    ∃ items, ty.tree = .group items := by
  rw [tree_eq]
  cases ty with
  | nat => exact absurd rfl other.1
  | atom => exact absurd rfl other.2
  | fn dom cod =>
    obtain ⟨args, result, shape⟩ := TypeExpr.exists_taking dom.written cod.written
    rw [written, shape]
    exact ⟨_, rfl⟩
  | pair fst snd => exact ⟨_, rfl⟩
  | list elem => exact ⟨_, rfl⟩

/-- The text of a type starts with a bracket or with the name of a type. -/
theorem head?_text (ty : Ty) : ty.text.toList.head? ∈ [some 'N', some 'A', some '('] := by
  by_cases named : ty = nat ∨ ty = atom
  · rcases named with rfl | rfl <;> decide +kernel
  · obtain ⟨items, shape⟩ := ty.exists_tree_group (not_or.mp named)
    have start : ty.text.toList.head? = some '(' := by
      rw [text, shape, Text.Tree.text, String.toList_append, String.toList_append]
      rfl
    rw [start]
    decide

/-- **A text that starts otherwise is the text of no type.** -/
theorem text_ne_of_head? (ty : Ty) {words : String}
    (start : words.toList.head? ∉ [some 'N', some 'A', some '(']) : ty.text ≠ words := by
  rintro rfl
  exact start ty.head?_text

end Ty

end EtaLong
